import SpriteFacts.Proofs.Idiom.Chain
import SpriteFacts.Proofs.Variant.AssignedExpression
import SpriteFacts.Variant.Pulse

/-! The formula of a pulse and the expression that it is read from. What the pattern of a pulse reads is the text of one
    expression, the distance of the tick from a peak; where that text runs to the end of the assigned expression,
    the two are the same, and the parameters give its value at every tick. -/

namespace SpriteFacts

open Text Pattern

/-! ### The formula as an expression -/

/-- A literal behind an operator, with the blanks around the operator. -/
structure Term where
  before : Gap
  after : Gap
  literal : Decimal

/-- The distance of the tick from a peak, as code writes it. -/
structure TickDistance where
  call : Gap
  beforePeak : Gap
  peak : Decimal
  beforeMinus : Gap
  afterMinus : Gap
  beforeTick : Gap
  beforeModulo : Gap
  afterModulo : Gap
  period : Decimal
  afterPeriod : Gap
  afterTick : Gap
  divisor : Option Term
  offset : Option Term

namespace TickDistance

/-- The tick in its period, in parentheses. -/
def phase (f : TickDistance) : Expression .atom :=
  .parens f.beforeTick
    (.row (.row .tick (.next f.beforeModulo .modulo f.afterModulo (.number (.decimal f.period)) .done)) .done)
    f.afterPeriod

def distance (f : TickDistance) : Expression .atom :=
  .abs f.call f.beforePeak
    (.row (.row (.number (.decimal f.peak)) .done) (.next f.beforeMinus .minus f.afterMinus (.row f.phase .done) .done))
    f.afterTick

def division : Option Term → Expression (.rest .product)
  | none => .done
  | some t => .next t.before .divide t.after (.number (.decimal t.literal)) .done

def addition : Option Term → Expression (.rest .sum)
  | none => .done
  | some t => .next t.before .plus t.after (.row (.number (.decimal t.literal)) .done) .done

def expression (f : TickDistance) : Expression (.row .sum) :=
  .row (.row f.distance (division f.divisor)) (addition f.offset)

end TickDistance

/-- The distance of the tick from a peak, divided and moved. -/
def pulseLevel (peak period divisor offset now : Nat) : Nat :=
  ((peak : Int) - (now % period : Nat)).natAbs / divisor + offset

namespace TickDistance
variable {f : TickDistance} {id now : Nat} {v : Int}

theorem run_phase {sofar : Int} (h : f.phase.run id now sofar = some v) : v = (now % f.period.value : Nat) := by
  simp only [phase, Expression.run, Operator.apply, Number.value, Option.bind_some, Int.natCast_eq_zero] at h
  split at h
  · cases h
  · rw [Option.bind_some] at h
    exact (Option.some.inj h).symm

theorem run_distance {sofar : Int} (h : f.distance.run id now sofar = some v) :
    v = ((f.peak.value : Int) - (now % f.period.value : Nat)).natAbs := by
  obtain ⟨w, hw, rfl⟩ := Option.map_eq_some_iff.mp h
  simp only [Expression.run, Number.value, Option.bind_some, Option.bind_fun_some] at hw
  obtain ⟨phase, hphase, hdifference⟩ := Option.bind_eq_some_iff.mp hw
  obtain rfl := run_phase hphase
  rw [← Option.some.inj hdifference]

theorem run_division {t : Option Term} {n : Nat} (h : (division t).run id now n = some v) :
    v = (n / t.elim 1 (·.literal.value) : Nat) := by
  cases t with
  | none =>
    obtain rfl := Option.some.inj h
    simp
  | some t =>
    simp only [division, Expression.run, Operator.apply, Number.value, Option.bind_some, Int.natCast_eq_zero] at h
    split at h
    · cases h
    · exact (Option.some.inj h).symm

theorem run_addition {t : Option Term} {n : Nat} (h : (addition t).run id now n = some v) :
    v = (n + t.elim 0 (·.literal.value) : Nat) := by
  cases t with
  | none =>
    obtain rfl := Option.some.inj h
    simp
  | some t =>
    simp only [addition, Expression.run, Operator.apply, Number.value, Option.bind_some] at h
    exact (Option.some.inj h).symm

theorem value_eq (h : f.expression.value id now = some v) : v = pulseLevel f.peak.value f.period.value
    (f.divisor.elim 1 (·.literal.value)) (f.offset.elim 0 (·.literal.value)) now := by
  obtain ⟨w, hw, hsum⟩ := Option.bind_eq_some_iff.mp h
  obtain ⟨u, hu, hproduct⟩ := Option.bind_eq_some_iff.mp hw
  obtain rfl := run_distance hu
  obtain rfl := run_division hproduct
  exact run_addition hsum

end TickDistance

/-! ### The expression that a pattern reads -/

def termText (op : Char) : Option Term → List Char
  | none => []
  | some t => t.before.text ++ op :: (t.after.text ++ t.literal.digits)

def termKept (n : Nat) : Option Term → List (Nat × List Char)
  | none => []
  | some t => [(n, t.literal.digits)]

/-- The literals of the formula as its pattern keeps them. -/
def TickDistance.kept (f : TickDistance) (n : Nat) : List (Nat × List Char) :=
  termKept (n + 3) f.offset ++ (termKept (n + 2) f.divisor ++ [(n + 1, f.period.digits), (n, f.peak.digits)])

section Read
variable {last : Option Char} {cs : List Char} {r : Reading} {n : Nat}

theorem exists_term {op : Char} (hplain : PlainDigits cs)
    (h : r ∈ (Pattern.optional (all [blanks, char op, blanks, group n digits])).readings last cs) :
    ∃ t, r.text = termText op t ∧ r.kept = termKept n t := by
  rcases mem_readings_optional.mp h with h | rfl
  · obtain ⟨a, ha, b, hb, rfl⟩ := mem_readings_seq.mp h
    obtain ⟨before, rest1, rfl, hbefore, rfl⟩ := mem_readings_run.mp ha
    obtain ⟨c, hc, d, hd, rfl⟩ := mem_readings_seq.mp hb
    obtain ⟨rest2, rfl, rfl⟩ := mem_readings_char.mp hc
    obtain ⟨e, he, g, hg, rfl⟩ := mem_readings_seq.mp hd
    obtain ⟨after, rest3, rfl, hafter, rfl⟩ := mem_readings_run.mp he
    obtain ⟨t, rest4, rfl, hne, hall, rfl⟩ := mem_readings_digits.mp hg
    have ht : PlainDigits t := fun c hc => hplain c (by simp [hc])
    obtain ⟨d, rfl⟩ := ht.exists_decimal hne hall
    exact ⟨some ⟨⟨before, hbefore⟩, ⟨after, hafter⟩, d⟩, by simp [Reading.append, termText], by simp [Reading.append, termKept]⟩
  · exact ⟨none, rfl, rfl⟩

/-- The distance itself, for any divisor and offset behind it. -/
theorem exists_distance (hplain : PlainDigits cs) (divisor offset : Option Term)
    (h : r ∈ (spaced [literal "abs", char '(', group n digits, char '-', char '(', literal "attick", char '%',
      group (n + 1) digits, char ')', char ')']).readings last cs) :
    ∃ f : TickDistance, f.divisor = divisor ∧ f.offset = offset ∧ r.text = f.distance.text ∧
      r.kept = [(n + 1, f.period.digits), (n, f.peak.digits)] := by
  rw [split_of_mem h] at hplain
  obtain ⟨_, h1, call, _, -, _, _, t1, rfl⟩ := exists_of_mem_spaced h
  obtain ⟨_, h2, beforePeak, _, -, _, _, t2, rfl⟩ := exists_of_mem_spaced t1
  obtain ⟨_, h3, beforeMinus, _, -, _, _, t3, rfl⟩ := exists_of_mem_spaced t2
  obtain ⟨_, h4, afterMinus, _, -, _, _, t4, rfl⟩ := exists_of_mem_spaced t3
  obtain ⟨_, h5, beforeTick, _, -, _, _, t5, rfl⟩ := exists_of_mem_spaced t4
  obtain ⟨_, h6, beforeModulo, _, -, _, _, t6, rfl⟩ := exists_of_mem_spaced t5
  obtain ⟨_, h7, afterModulo, _, -, _, _, t7, rfl⟩ := exists_of_mem_spaced t6
  obtain ⟨_, h8, afterPeriod, _, -, _, _, t8, rfl⟩ := exists_of_mem_spaced t7
  obtain ⟨_, h9, afterTick, _, -, _, _, h10, rfl⟩ := exists_of_mem_spaced t8
  obtain ⟨_, -, rfl⟩ := mem_readings_literal.mp h1
  obtain ⟨_, -, rfl⟩ := mem_readings_char.mp h2
  obtain ⟨peak, _, -, hpeak, hpeakDigits, rfl⟩ := mem_readings_digits.mp h3
  obtain ⟨_, -, rfl⟩ := mem_readings_char.mp h4
  obtain ⟨_, -, rfl⟩ := mem_readings_char.mp h5
  obtain ⟨_, -, rfl⟩ := mem_readings_literal.mp h6
  obtain ⟨_, -, rfl⟩ := mem_readings_char.mp h7
  obtain ⟨period, _, -, hperiod, hperiodDigits, rfl⟩ := mem_readings_digits.mp h8
  obtain ⟨_, -, rfl⟩ := mem_readings_char.mp h9
  obtain ⟨_, -, rfl⟩ := mem_readings_char.mp h10
  have hplainPeak : PlainDigits peak := fun c hc => hplain.left c (by simp [hc])
  have hplainPeriod : PlainDigits period := fun c hc => hplain.left c (by simp [hc])
  obtain ⟨peak, rfl⟩ := hplainPeak.exists_decimal hpeak hpeakDigits
  obtain ⟨period, rfl⟩ := hplainPeriod.exists_decimal hperiod hperiodDigits
  refine ⟨⟨call, beforePeak, peak, beforeMinus, afterMinus, beforeTick, beforeModulo, afterModulo, period, afterPeriod,
    afterTick, divisor, offset⟩, rfl, rfl, ?_, rfl⟩
  simp [TickDistance.distance, TickDistance.phase, Expression.text, enclosed, Operator.char, Number.text]

theorem text_division (t : Option Term) : (TickDistance.division t).text = termText '/' t := by
  cases t with
  | none => rfl
  | some t => simp [TickDistance.division, Expression.text, termText, Operator.char, Number.text]

theorem text_addition (t : Option Term) : (TickDistance.addition t).text = termText '+' t := by
  cases t with
  | none => rfl
  | some t => simp [TickDistance.addition, Expression.text, termText, Operator.char, Number.text]

theorem exists_tickDistance (hplain : PlainDigits cs) (h : r ∈ (Pulse.tickDistance n).readings last cs) :
    ∃ f : TickDistance, r.text = f.expression.text ∧ r.kept = f.kept n := by
  obtain ⟨a, ha, tail, htail, rfl⟩ := mem_readings_seq.mp h
  obtain ⟨b, hb, c, hc, rfl⟩ := mem_readings_seq.mp htail
  have hplainTail : PlainDigits a.rest := (split_of_mem ha ▸ hplain).right
  have hplainEnd : PlainDigits b.rest := (split_of_mem hb ▸ hplainTail).right
  obtain ⟨divisor, hdivisor, hdivisorKept⟩ := exists_term hplainTail hb
  obtain ⟨offset, hoffset, hoffsetKept⟩ := exists_term hplainEnd hc
  obtain ⟨f, rfl, rfl, hdistance, hkept⟩ := exists_distance hplain divisor offset ha
  refine ⟨f, ?_, ?_⟩
  · show a.text ++ (b.text ++ c.text) = (f.distance.text ++ (TickDistance.division _).text) ++ (TickDistance.addition _).text
    rw [text_division, text_addition, hdistance, hdivisor, hoffset, List.append_assoc]
  · simp [Reading.append, TickDistance.kept, hkept, hdivisorKept, hoffsetKept]

/-- A pattern that reads an expression to its end reads the formula that the expression is. -/
theorem eq_expression {e : Expression (.row .sum)} {xs : List Char} (hxs : Ends (.row .sum) xs) (hplain : PlainDigits xs)
    (h : r ∈ (Pulse.tickDistance n).readings last (e.text ++ xs)) (hend : Ends (.row .sum) r.rest) :
    ∃ f : TickDistance, e = f.expression ∧ r.kept = f.kept n := by
  obtain ⟨f, htext, hkept⟩ := exists_tickDistance ((plainDigits_of_isCode e.all_isCode).append hplain) h
  have hsplit := split_of_mem h
  rw [htext] at hsplit
  exact ⟨f, (e.unique f.expression _ _ hsplit hxs hend).1, hkept⟩

end Read

/-! ### The parameters -/

namespace TickDistance
variable {f : TickDistance} {m : Match} {n : Nat} {more : List (Nat × List Char)}

theorem group?_peak (hkept : m.kept = f.kept n ++ more) : m.group? n = some f.peak.digits := by
  cases hdivisor : f.divisor <;> cases hoffset : f.offset <;>
    simp [Match.group?, hkept, kept, termKept, hdivisor, hoffset]

theorem group?_period (hkept : m.kept = f.kept n ++ more) : m.group? (n + 1) = some f.period.digits := by
  cases hdivisor : f.divisor <;> cases hoffset : f.offset <;>
    simp [Match.group?, hkept, kept, termKept, hdivisor, hoffset]

theorem group?_divisor (hkept : m.kept = f.kept n ++ more) (hmore : ∀ k ∈ more, k.1 < n) :
    m.group? (n + 2) = f.divisor.map (·.literal.digits) := by
  have hnone : more.find? (fun k => k.1 == n + 2) = none := List.find?_eq_none.mpr fun k hk => by
    have := hmore k hk
    simp
    omega
  cases hdivisor : f.divisor <;> cases hoffset : f.offset <;>
    simp [Match.group?, hkept, kept, termKept, hdivisor, hoffset, hnone]

theorem group?_offset (hkept : m.kept = f.kept n ++ more) (hmore : ∀ k ∈ more, k.1 < n) :
    m.group? (n + 3) = f.offset.map (·.literal.digits) := by
  have hnone : more.find? (fun k => k.1 == n + 3) = none := List.find?_eq_none.mpr fun k hk => by
    have := hmore k hk
    simp
    omega
  cases hdivisor : f.divisor <;> cases hoffset : f.offset <;>
    simp [Match.group?, hkept, kept, termKept, hdivisor, hoffset, hnone]

/-- What was kept in front of the formula has smaller numbers. -/
theorem group?_of_lt (hkept : m.kept = f.kept n ++ more) {k : Nat} (hk : k < n) :
    m.group? k = (more.find? fun x => x.1 == k).map (·.2) := by
  have hnone : (f.kept n).find? (fun x => x.1 == k) = none := List.find?_eq_none.mpr fun x hx => by
    have hle : n ≤ x.1 := by
      cases hdivisor : f.divisor <;> cases hoffset : f.offset <;>
        simp [kept, termKept, hdivisor, hoffset] at hx <;> rcases hx with hx | hx <;> grind
    simp
    omega
  rw [Match.group?, hkept, List.find?_append, hnone, Option.none_or]

/-- The literal behind an operator as it is read: a default stands where there is none and where it does not fit. -/
def tail (t : Option Term) (default : Nat) : Nat := (t.bind fun u => Text.word? u.literal.digits).getD default

theorem getD_word? {t : Option Term} {k : Nat} (hgroup : m.group? k = t.map (·.literal.digits)) (default : Nat) :
    (m.word? k).getD default = tail t default := by
  rw [Match.word?, hgroup, tail]
  cases t <;> rfl

theorem tail_of_fits {t : Option Term} (hfit : ∀ u ∈ t, u.literal.value ≤ maxWord) (default : Nat) :
    tail t default = t.elim default (·.literal.value) := by
  cases t with
  | none => rfl
  | some u => simp [tail, (u.literal.word?_eq_some (v := u.literal.value)).mpr ⟨rfl, hfit u rfl⟩]

/-- Where the literals fit, the parameters that are read give the value of the formula. -/
theorem level_of_fits (hfit : ∀ n ∈ f.expression.numbers, n.value ≤ maxWord) {id now : Nat} {v : Int}
    (hv : f.expression.value id now = some v) :
    v = pulseLevel f.peak.value f.period.value (tail f.divisor 1) (tail f.offset 0) now := by
  have hdivisor : ∀ u ∈ f.divisor, u.literal.value ≤ maxWord := by
    intro u hu
    rw [Option.mem_def] at hu
    exact hfit (.decimal u.literal) (by simp [expression, Expression.numbers, division, hu])
  have hoffset : ∀ u ∈ f.offset, u.literal.value ≤ maxWord := by
    intro u hu
    rw [Option.mem_def] at hu
    exact hfit (.decimal u.literal) (by simp [expression, Expression.numbers, addition, hu])
  rw [tail_of_fits hdivisor, tail_of_fits hoffset]
  exact value_eq hv

end TickDistance

/-! ### The light -/

/-- The assignment of a pulse to the light. -/
def lightPattern : Pattern := spaced [assignTo "light", Pulse.tickDistance 1]

def LightPulse.level (p : LightPulse) (now : Nat) : Nat := pulseLevel p.max p.period p.divisor p.offset now

/-- The level of the blue. -/
def ColorPulse.level (p : ColorPulse) (now : Nat) : Nat := pulseLevel p.maxBlue p.period p.divisor p.offset now

theorem begins_lightPattern : Begins ["light".toList] lightPattern := (begins_wordStart (s := "light") (by decide)).seq.seq

theorem unblank_tickDistance (n : Nat) : Unblank (Pulse.tickDistance n) :=
  (unblank_literal (s := "abs") (by decide)).seq.seq

/-- A light pulse that is read to the end of its statement is the assigned expression. -/
theorem exists_light {s : ExpressionStatement} {id : Nat} {p : LightPulse}
    (h : Pulse.lightChain.value? ⟨id, s.text "light".toList⟩ = some p)
    (hend : matchEndsStatement lightPattern (s.text "light".toList) = true) :
    ∃ f : TickDistance, s.value = f.expression ∧
      p = ⟨f.peak.value, f.period.value, TickDistance.tail f.divisor 1, TickDistance.tail f.offset 0⟩ := by
  rw [Pulse.lightChain, IdiomChain.value?_singleton] at h
  obtain ⟨m, hfind, hpulse⟩ := Option.bind_eq_some_iff.mp h
  have hsign : Needs '=' lightPattern := by simp [lightPattern, spaced, assignTo, Pattern.char, Needs]
  obtain ⟨r, hr, rfl⟩ := read?_of_find? begins_lightPattern (by decide) hsign (by decide) s.sign_not_mem hfind
  have hmem := mem_of_read? hr
  have hends := ends_of_matchEndsStatement (congrArg (s.lead.text ++ ·) (split_of_mem hmem)) hfind hend
  rw [lightPattern, readings_assignTo] at hmem
  obtain ⟨_, b, hb, hkept, hrest⟩ := exists_of_mem_assigned (fun a ha => eq_of_mem_wordStart (by decide) ha)
    (unblank_tickDistance 1) s.head_ending hmem
  obtain ⟨f, hf, hkept'⟩ := eq_expression s.ends_sum s.plain_ending.right hb (hrest ▸ hends)
  refine ⟨f, hf, ?_⟩
  rw [hkept'] at hkept
  have hmore : ∀ k ∈ ([] : List (Nat × List Char)), k.1 < 1 := by simp
  obtain ⟨max, hmax, h2⟩ := Option.bind_eq_some_iff.mp hpulse
  obtain ⟨period, hperiod, hp⟩ := Option.bind_eq_some_iff.mp h2
  obtain rfl := Match.eq_value_of_word? (TickDistance.group?_peak hkept) hmax
  obtain rfl := Match.eq_value_of_word? (TickDistance.group?_period hkept) hperiod
  rw [← Option.some.inj hp, TickDistance.getD_word? (TickDistance.group?_divisor hkept hmore),
    TickDistance.getD_word? (TickDistance.group?_offset hkept hmore)]

/-! ### A packed color -/

/-- The assignment of a color to a slot, its red and green decimal literals, with the blanks between its parts. -/
structure ColorStatement where
  lead : Gap
  slot : ColorSlot
  beforeSign : Gap
  afterSign : Gap
  call : Gap
  beforeRed : Gap
  red : Decimal
  afterRed : Gap
  beforeGreen : Gap
  green : Decimal
  afterGreen : Gap
  beforeBlue : Gap
  blue : Expression (.row .sum)
  afterBlue : Gap
  beforeEnd : Gap
  trail : Gap

namespace ColorStatement
variable (s : ColorStatement)

/-- The text behind the blue. -/
def ending : List Char := s.afterBlue.text ++ ')' :: (s.beforeEnd.text ++ ';' :: s.trail.text)

/-- The color and the end of the statement. -/
def color : List Char :=
  "IRGB".toList ++ (s.call.text ++ '(' :: (s.beforeRed.text ++ (s.red.digits ++ (s.afterRed.text ++ ',' ::
    (s.beforeGreen.text ++ (s.green.digits ++ (s.afterGreen.text ++ ',' ::
      (s.beforeBlue.text ++ (s.blue.text ++ s.ending)))))))))

def text : List Char :=
  s.lead.text ++ (s.slot.name.toList ++ (s.beforeSign.text ++ '=' :: (s.afterSign.text ++ s.color)))

theorem sign_not_mem : '=' ∉ s.afterSign.text ++ s.color := by
  have hgap : ∀ g : Gap, '=' ∉ g.text := fun g => not_mem_of_blank g.blank (by decide)
  have hdigits : ∀ d : Decimal, '=' ∉ d.digits := fun d => d.numeral.not_mem (by decide)
  have hblue : '=' ∉ s.blue.text := s.blue.not_mem (by decide)
  simp [color, ending, hgap, hdigits, hblue]

theorem ends_sum : Ends (.row .sum) s.ending := (ends_cons (by decide) _).gap s.afterBlue

theorem plain_ending : PlainDigits s.ending := by
  have hgap : ∀ g : Gap, PlainDigits g.text := fun g => plainDigits_of_isCode g.all_isCode
  exact (hgap _).append (((hgap _).append ((hgap _).cons (by decide))).cons (by decide))

end ColorStatement

/-- The slot of a color and its number. -/
def slotPattern : Pattern := seq wordEdge (group 1 (seq (char 'c') (one fun c => c == '1' || c == '2' || c == '3')))

/-- What stands behind the sign of a pulsing color. -/
def pulsingColor : Pattern :=
  spaced [literal "IRGB", char '(', group 2 digits, char ',', group 3 digits, char ',', Pulse.tickDistance 4, char ')']

theorem begins_colorPattern : Begins [['c']] Pulse.colorPattern := by
  have hlead : Leads [['c']] (char 'c') := by
    intro last cs r h
    obtain ⟨rest, rfl, -⟩ := mem_readings_char.mp h
    exact ⟨['c'], List.mem_singleton_self _, rest, rfl⟩
  exact (hlead.seq.group.begins (by decide)).seq

theorem eq_of_mem_slotPattern {slot : ColorSlot} {t : List Char} {last : Option Char} {r : Reading}
    (h : r ∈ slotPattern.readings last (slot.name.toList ++ t)) : r = ⟨slot.name.toList, [(1, slot.name.toList)], t⟩ := by
  obtain ⟨a, ha, b, hb, rfl⟩ := mem_readings_seq.mp h
  obtain ⟨-, rfl⟩ := mem_readings_wordEdge.mp ha
  obtain ⟨c, hc, rfl⟩ := mem_readings_group.mp hb
  obtain ⟨d, hd, e, he, rfl⟩ := mem_readings_seq.mp hc
  obtain ⟨rest, hrest, rfl⟩ := mem_readings_char.mp hd
  obtain ⟨digit, rest', rfl, -, rfl⟩ := mem_readings_one.mp he
  cases slot
  all_goals
    obtain ⟨rfl, rfl⟩ := List.cons.inj (List.cons.inj hrest).2
    rfl

/-- A color that pulses has the red and the green of the statement, and its blue is the assigned expression. -/
theorem exists_of_mem_pulsingColor {s : ColorStatement} {last : Option Char} {r : Reading}
    (h : r ∈ pulsingColor.readings last s.color) : ∃ f : TickDistance, s.blue = f.expression ∧
      r.kept = f.kept 4 ++ [(3, s.green.digits), (2, s.red.digits)] := by
  obtain ⟨_, h1, g1, rest1, e1, _, _, t1, rfl⟩ := exists_of_mem_spaced h
  obtain ⟨_, h2, g2, rest2, e2, _, _, t2, rfl⟩ := exists_of_mem_spaced t1
  obtain ⟨_, h3, g3, rest3, e3, _, _, t3, rfl⟩ := exists_of_mem_spaced t2
  obtain ⟨_, h4, g4, rest4, e4, _, _, t4, rfl⟩ := exists_of_mem_spaced t3
  obtain ⟨_, h5, g5, rest5, e5, _, _, t5, rfl⟩ := exists_of_mem_spaced t4
  obtain ⟨_, h6, g6, rest6, e6, _, _, t6, rfl⟩ := exists_of_mem_spaced t5
  obtain ⟨b, h7, g7, rest7, e7, _, _, h8, rfl⟩ := exists_of_mem_spaced t6
  obtain ⟨_, x1, rfl⟩ := mem_readings_literal.mp h1
  obtain ⟨_, rfl, rfl⟩ := mem_readings_char.mp h2
  obtain ⟨red, _, rfl, hred, hredDigits, rfl⟩ := mem_readings_digits.mp h3
  obtain ⟨_, rfl, rfl⟩ := mem_readings_char.mp h4
  obtain ⟨green, _, rfl, hgreen, hgreenDigits, rfl⟩ := mem_readings_digits.mp h5
  obtain ⟨_, rfl, rfl⟩ := mem_readings_char.mp h6
  obtain ⟨_, rfl, rfl⟩ := mem_readings_char.mp h8
  simp only at e1 e2 e3 e4 e5 e6 e7
  subst e6 e5 e4 e3 e2 e1
  -- Each part of the pattern reads the part of the statement that stands there.
  have hcall : s.call.text ++ '(' :: _ = g1.text ++ '(' :: _ := List.append_cancel_left x1
  obtain ⟨-, hopen⟩ := Gap.eq_of_append hcall rfl rfl
  obtain ⟨-, hred'⟩ := Gap.eq_of_append (List.cons.inj hopen).2 (head_digits s.red.nonempty s.red.numeral.all_isDigit _)
    (head_digits hred hredDigits _)
  obtain ⟨rfl, hafterRed⟩ := Decimal.eq_of_append hred' hredDigits (Gap.head_sign _ (by decide) _)
    (Gap.head_sign _ (by decide) _)
  obtain ⟨-, hcomma⟩ := Gap.eq_of_append hafterRed rfl rfl
  obtain ⟨-, hgreen'⟩ := Gap.eq_of_append (List.cons.inj hcomma).2
    (head_digits s.green.nonempty s.green.numeral.all_isDigit _) (head_digits hgreen hgreenDigits _)
  obtain ⟨rfl, hafterGreen⟩ := Decimal.eq_of_append hgreen' hgreenDigits (Gap.head_sign _ (by decide) _)
    (Gap.head_sign _ (by decide) _)
  obtain ⟨-, hcomma'⟩ := Gap.eq_of_append hafterGreen rfl rfl
  obtain ⟨-, rfl⟩ := Gap.eq_of_append (List.cons.inj hcomma').2 (s.blue.head_text (fun _ => Part.noConfusion) _)
    (unblank_tickDistance 4 _ _ _ h7)
  have hend : Ends (.row .sum) b.rest := e7 ▸ (ends_cons (by decide) _).gap g7
  obtain ⟨f, hf, hkept⟩ := eq_expression s.ends_sum s.plain_ending h7 hend
  exact ⟨f, hf, by simp [hkept]⟩

/-- A pulse is found only where the blue of the statement is a distance of the tick, and it keeps the literals of the color. -/
theorem exists_of_find?_color {s : ColorStatement} {m : Match} (h : Pulse.colorPattern.find? s.text = some m) :
    ∃ f : TickDistance, s.blue = f.expression ∧
      m.kept = f.kept 4 ++ [(3, s.green.digits), (2, s.red.digits), (1, s.slot.name.toList)] := by
  have hsign : Needs '=' Pulse.colorPattern := by simp [Pulse.colorPattern, spaced, Pattern.char, Needs]
  have hname : s.slot.name.toList.all isWord = true := by cases s.slot <;> decide
  obtain ⟨r, hr, rfl⟩ := read?_of_find? begins_colorPattern (by decide) hsign hname s.sign_not_mem h
  have hpattern : Pulse.colorPattern = spaced [slotPattern, char '=', pulsingColor] := rfl
  have hmem := hpattern ▸ mem_of_read? hr
  obtain ⟨_, b, hb, hkept, -⟩ := exists_of_mem_assigned (fun a ha => eq_of_mem_slotPattern ha)
    (unblank_literal (s := "IRGB") (by decide)).seq (by rfl) hmem
  obtain ⟨f, hf, hkept'⟩ := exists_of_mem_pulsingColor hb
  rw [hkept', List.append_assoc] at hkept
  exact ⟨f, hf, hkept⟩

/-- A color that pulses is the assigned color. -/
theorem exists_color {s : ColorStatement} {id : Nat} {p : ColorPulse} (h : Pulse.colorChain.value? ⟨id, s.text⟩ = some p) :
    ∃ f : TickDistance, s.blue = f.expression ∧ p = ⟨s.slot, s.red.value, s.green.value, f.peak.value, f.period.value,
      TickDistance.tail f.divisor 1, TickDistance.tail f.offset 0⟩ := by
  rw [Pulse.colorChain, IdiomChain.value?_singleton] at h
  obtain ⟨m, hfind, hpulse⟩ := Option.bind_eq_some_iff.mp h
  obtain ⟨f, hf, hkept⟩ := exists_of_find?_color hfind
  refine ⟨f, hf, ?_⟩
  have hmore : ∀ k ∈ [(3, s.green.digits), (2, s.red.digits), (1, s.slot.name.toList)], k.1 < 4 := by simp
  obtain ⟨slot, hslot, h2⟩ := Option.bind_eq_some_iff.mp hpulse
  obtain ⟨red, hred, h3⟩ := Option.bind_eq_some_iff.mp h2
  obtain ⟨green, hgreen, h4⟩ := Option.bind_eq_some_iff.mp h3
  obtain ⟨peak, hpeak, h5⟩ := Option.bind_eq_some_iff.mp h4
  obtain ⟨period, hperiod, hp⟩ := Option.bind_eq_some_iff.mp h5
  have hgroup : ∀ k, k < 4 → m.group? k = _ := fun k hk => TickDistance.group?_of_lt hkept hk
  have hname' : ColorSlot.ofName? s.slot.name = some s.slot := by cases s.slot <;> decide
  have hslot' : ColorSlot.ofName? (String.ofList s.slot.name.toList) = some slot := by
    rw [Match.group, hgroup 1 (by decide)] at hslot
    exact hslot
  rw [String.ofList_toList, hname'] at hslot'
  obtain rfl := Option.some.inj hslot'
  obtain rfl := Match.eq_value_of_word? (n := s.red) (hgroup 2 (by decide)) hred
  obtain rfl := Match.eq_value_of_word? (n := s.green) (hgroup 3 (by decide)) hgreen
  obtain rfl := Match.eq_value_of_word? (TickDistance.group?_peak hkept) hpeak
  obtain rfl := Match.eq_value_of_word? (TickDistance.group?_period hkept) hperiod
  rw [← Option.some.inj hp, TickDistance.getD_word? (TickDistance.group?_divisor hkept hmore),
    TickDistance.getD_word? (TickDistance.group?_offset hkept hmore)]

/-! ### No wrong guess -/

/-- A pulse of the light that is read to the end of its statement, and every pulse of a color, gives the value of the
    assigned expression at every tick, if the literals fit. -/
theorem pulse_level_exact (s : ExpressionStatement) (t : ColorStatement) (id : Nat) :
    (∀ p, Pulse.lightChain.value? ⟨id, s.text "light".toList⟩ = some p →
      matchEndsStatement lightPattern (s.text "light".toList) = true → (∀ n ∈ s.value.numbers, n.value ≤ maxWord) →
      ∀ (now : Nat) (v : Int), s.value.value id now = some v → v = p.level now) ∧
    (∀ p, Pulse.colorChain.value? ⟨id, t.text⟩ = some p →
      p.target = t.slot ∧ p.r = t.red.value ∧ p.g = t.green.value ∧ ((∀ n ∈ t.blue.numbers, n.value ≤ maxWord) →
        ∀ (now : Nat) (v : Int), t.blue.value id now = some v → v = p.level now)) := by
  constructor
  · intro p h hend hfit now v hv
    obtain ⟨f, hf, rfl⟩ := exists_light h hend
    rw [hf] at hfit hv
    exact TickDistance.level_of_fits hfit hv
  · intro p h
    obtain ⟨f, hf, rfl⟩ := exists_color h
    refine ⟨rfl, rfl, rfl, fun hfit now v hv => ?_⟩
    rw [hf] at hfit hv
    exact TickDistance.level_of_fits hfit hv

/-- `abs(31 - (attick % 63)) / 2 + 8`. -/
def swing : TickDistance where
  call := .none
  beforePeak := .none
  peak := ⟨['3', '1'], by decide, by decide⟩
  beforeMinus := .space
  afterMinus := .space
  beforeTick := .none
  beforeModulo := .space
  afterModulo := .space
  period := ⟨['6', '3'], by decide, by decide⟩
  afterPeriod := .none
  afterTick := .none
  divisor := some ⟨.space, .space, ⟨['2'], by decide, by decide⟩⟩
  offset := some ⟨.space, .space, ⟨['8'], by decide, by decide⟩⟩

def swingingLight : ExpressionStatement := ⟨.none, .space, .space, swing.expression, .none, .none⟩

def swingingColor : ColorStatement where
  lead := .none
  slot := .c2
  beforeSign := .space
  afterSign := .space
  call := .none
  beforeRed := .none
  red := ⟨['5'], by decide, by decide⟩
  afterRed := .none
  beforeGreen := .space
  green := ⟨['7'], by decide, by decide⟩
  afterGreen := .none
  beforeBlue := .space
  blue := swing.expression
  afterBlue := .none
  beforeEnd := .none
  trail := .none

theorem pulse_level_exact_swing :
    (swingingLight.text "light".toList = "light = abs(31 - (attick % 63)) / 2 + 8;".toList ∧
      Pulse.lightChain.value? ⟨100, swingingLight.text "light".toList⟩ = some ⟨31, 63, 2, 8⟩ ∧
      ∀ (now : Nat) (v : Int), swing.expression.value 100 now = some v → v = pulseLevel 31 63 2 8 now) ∧
    (swingingColor.text = "c2 = IRGB(5, 7, abs(31 - (attick % 63)) / 2 + 8);".toList ∧
      Pulse.colorChain.value? ⟨100, swingingColor.text⟩ = some ⟨.c2, 5, 7, 31, 63, 2, 8⟩ ∧
      ∀ (now : Nat) (v : Int), swing.expression.value 100 now = some v → v = pulseLevel 31 63 2 8 now) := by
  have hlight : Pulse.lightChain.value? ⟨100, swingingLight.text "light".toList⟩ = some ⟨31, 63, 2, 8⟩ := by decide +kernel
  have hcolor : Pulse.colorChain.value? ⟨100, swingingColor.text⟩ = some ⟨.c2, 5, 7, 31, 63, 2, 8⟩ := by decide +kernel
  have hfit : ∀ n ∈ swing.expression.numbers, n.value ≤ maxWord := by decide
  obtain ⟨hexact, hexactColor⟩ := pulse_level_exact swingingLight swingingColor 100
  exact ⟨⟨by decide, hlight, hexact _ hlight (by decide +kernel) hfit⟩, by decide, hcolor, (hexactColor _ hcolor).2.2.2 hfit⟩

/-- A factor behind the distance is not read, and the pulse is not the value of the expression. -/
def scaledLight : ExpressionStatement where
  lead := .none
  beforeSign := .space
  afterSign := .space
  value := .row (.row swing.distance (.next .space .times .space (.number (.decimal ⟨['2'], by decide, by decide⟩)) .done)) .done
  beforeEnd := .none
  trail := .none

theorem light_pulse_ignores_factor :
    scaledLight.text "light".toList = "light = abs(31 - (attick % 63)) * 2;".toList ∧
      Pulse.lightChain.value? ⟨100, scaledLight.text "light".toList⟩ = some ⟨31, 63, 1, 0⟩ ∧
      scaledLight.value.value 100 0 = some 62 ∧ (⟨31, 63, 1, 0⟩ : LightPulse).level 0 = 31 := by
  decide +kernel

end SpriteFacts
