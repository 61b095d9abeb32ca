import SpriteFacts.Proofs.Expression.FrameCycle
import SpriteFacts.Proofs.Idiom.Chain
import SpriteFacts.Proofs.Variant.AssignedExpression
import SpriteFacts.Variant.Remap

/-! The remap of a variant and the expression that its sprite is assigned. The idioms without an animation read the
    statement to its end, so the expression is the sum they know. The idioms of a cycle look for literals behind
    signs; where the expression is a cycle of frames each sign stands in it once, and the literals are those of the cycle. -/

namespace SpriteFacts

open Text Pattern

/-! ### Literals behind a sign -/

/-- The preferred reading of the pattern ends with a sign and all the digits behind it, which it keeps under a number. -/
def EndsInLiteral (sign : Char) (k : Nat) (p : Pattern) : Prop :=
  ∀ (last : Option Char) (cs : List Char) (r : Reading), p.read? last cs = some r →
    ∃ (xs : List Char) (g : Gap) (t ys : List Char) (more : List (Nat × List Char)), cs = xs ++ sign :: (g.text ++ (t ++ ys)) ∧
      t ≠ [] ∧ t.all isDigit = true ∧ ys.head?.all (fun c => !isDigit c) = true ∧ r.kept = (k, t) :: more

/-- Wherever digits stand behind the sign, the last of them included, they are the literal. -/
def Points (sign : Char) (n : Decimal) (cs : List Char) : Prop :=
  ∀ (xs : List Char) (g : Gap) (t ys : List Char), cs = xs ++ sign :: (g.text ++ (t ++ ys)) → t ≠ [] → t.all isDigit = true →
    ys.head?.all (fun c => !isDigit c) = true → t = n.digits

section Literal
variable {sign : Char} {k : Nat} {p q : Pattern} {n : Decimal} {cs : List Char} {m : Match}

theorem endsInLiteral_signed (sign : Char) (k : Nat) : EndsInLiteral sign k (all [char sign, blanks, group k digits]) := by
  intro last cs r h
  obtain ⟨a, ha, b, hb, rfl⟩ := read?_seq h
  obtain ⟨c, hc, d, hd, rfl⟩ := read?_seq hb
  obtain ⟨rest, rfl, rfl⟩ := mem_readings_char.mp ha
  obtain ⟨g, rest', rfl, hg, rfl⟩ := mem_readings_run.mp hc
  obtain ⟨t, ys, rfl, hne, hall, hys, rfl⟩ := read?_digits hd
  exact ⟨[], ⟨g, hg⟩, t, ys, [], rfl, hne, hall, hys, rfl⟩

theorem EndsInLiteral.seq (h : EndsInLiteral sign k q) : EndsInLiteral sign k (.seq p q) := by
  intro last cs r hr
  obtain ⟨a, ha, b, hb, rfl⟩ := read?_seq hr
  obtain ⟨xs, g, t, ys, more, hrest, hne, hall, hys, hkept⟩ := h _ _ _ hb
  refine ⟨a.text ++ xs, g, t, ys, more ++ a.kept, ?_, hne, hall, hys, ?_⟩
  · rw [split_of_mem ha, hrest, List.append_assoc]
  · rw [Reading.append, hkept, List.cons_append]

/-- A sign that stands in the text once points at the literal behind it. -/
theorem Marks.points (h : Marks sign n cs) (hsign : isDigit sign = false) (hblank : isBlank sign = false) : Points sign n cs := by
  obtain ⟨xs', g', ys', rfl, hxs', hys', hdigit⟩ := h
  have hbehind : sign ∉ g'.text ++ (n.digits ++ ys') := by
    have hdigits : sign ∉ n.digits := fun hc => by simp [List.all_eq_true.mp n.numeral.all_isDigit sign hc] at hsign
    simp [not_mem_of_blank g'.blank hblank, hdigits, hys']
  intro xs g t ys hsplit hne hall hys
  obtain ⟨-, hliteral⟩ := split_once hxs' hbehind hsplit
  obtain ⟨-, hdigits⟩ := Gap.eq_of_append hliteral (head_digits n.nonempty n.numeral.all_isDigit _) (head_digits hne hall _)
  exact (Decimal.eq_of_append hdigits hall hdigit hys).1

/-- A sign with no digit behind it points at nothing. -/
theorem Points.behind {as : List Char} {g : Gap} {c : Char} (h : Points sign n (c :: cs)) (hsign : isBlank sign = false)
    (has : sign ∉ as) (hblank : isBlank c = false) (hdigit : isDigit c = false) :
    Points sign n (as ++ sign :: (g.text ++ c :: cs)) := by
  intro xs g' t ys hsplit hne hall hys
  obtain ⟨w, rfl, hw⟩ := exists_behind hsplit has
  cases w with
  | nil =>
    obtain ⟨-, hliteral⟩ := Gap.eq_of_append (List.cons.inj hw).2 (by simp [hblank]) (head_digits hne hall ys)
    obtain ⟨d, t, rfl⟩ := List.exists_cons_of_ne_nil hne
    obtain ⟨rfl, -⟩ := List.cons.inj hliteral
    simp [hdigit] at hall
  | cons d w =>
    -- The sign of the split stands behind the first one, so it stands behind its blanks.
    obtain ⟨z, rfl, hz⟩ := exists_behind (List.cons.inj hw).2 (not_mem_of_blank g.blank hsign)
    exact h z g' t ys hz hne hall hys

/-- Where the sign points at a literal, the literal is kept. -/
theorem EndsInLiteral.group?_of_points (h : EndsInLiteral sign k p) (hn : Points sign n cs) (hm : p.find? cs = some m) :
    m.group? k = some n.digits := by
  obtain ⟨before, r, hstands, -⟩ := findFrom_eq_some hm
  obtain ⟨xs, g, t, ys, more, hrest, hne, hall, hys, hkept⟩ := h _ _ _ hstands.read
  have hsplit := hstands.split
  rw [hrest, ← List.append_assoc before] at hsplit
  rw [hstands.match_eq, ← hn _ g t ys hsplit hne hall hys]
  simp [Match.group?, Reading.toMatch, hkept]

/-- A text that holds the sign once has its literal kept. -/
theorem EndsInLiteral.group?_eq (h : EndsInLiteral sign k p) (hsign : isDigit sign = false) (hblank : isBlank sign = false)
    (hn : Marks sign n cs) (hm : p.find? cs = some m) : m.group? k = some n.digits :=
  h.group?_of_points (hn.points hsign hblank) hm

end Literal

namespace Remap

/-! ### The pace of the tick -/

theorem endsInLiteral_tickDivision : EndsInLiteral '/' 1 tickDivision := (endsInLiteral_signed '/' 1).seq.seq.seq.seq

/-- A division of the tick is found. -/
theorem exists_tickDivision {n : Decimal} {cs : List Char} (h : DividesTick n cs) : ∃ m, tickDivision.find? cs = some m := by
  obtain ⟨xs, close, g, g', ys, rfl, hout, hclose, -, -, -⟩ := h
  have hclosing : ∀ (last : Option Char) (rest : List Char),
      ⟨close, [], rest⟩ ∈ (Pattern.optional (char ')')).readings last (close ++ rest) := by
    intro last rest
    rcases hclose with rfl | rfl
    · exact mem_readings_optional.mpr (Or.inr rfl)
    · exact mem_readings_optional.mpr (Or.inl (mem_readings_char.mpr ⟨rest, rfl, rfl⟩))
  apply exists_find?
  apply exists_seq (mem_readings_optional.mpr (Or.inr rfl))
  apply exists_seq ((mem_readings_wordStart (by decide)).mpr ⟨hout none rfl, _, rfl, rfl⟩)
  apply exists_seq (hclosing _ _)
  apply exists_seq (mem_readings_run.mpr ⟨g.text, _, rfl, g.blank, rfl⟩)
  apply exists_seq (mem_readings_char.mpr ⟨_, rfl, rfl⟩)
  apply exists_seq (mem_readings_run.mpr ⟨g'.text, _, rfl, g'.blank, rfl⟩)
  exact ⟨_, mem_readings_digits.mpr ⟨n.digits, ys, rfl, n.nonempty, n.numeral.all_isDigit, rfl⟩⟩

/-- The literal of the first division of the tick, 1 if there is none. -/
def tickDivisor (cs : List Char) : Nat := ((tickDivision.find? cs).bind fun m => m.word? 1).getD 1

theorem tickDivisor_eq {step : Nat} {cs : List Char} (h : Steps step cs) : tickDivisor cs = step := by
  rcases h with ⟨hcs, rfl⟩ | ⟨n, h, rfl, hfit⟩
  · have hneeds : Needs '/' tickDivision := by simp [tickDivision, Pattern.all, Pattern.char, Needs]
    rw [tickDivisor, hneeds.find?_eq_none hcs]
    rfl
  · obtain ⟨m, hm⟩ := exists_tickDivision h
    rw [tickDivisor, hm, Option.bind_some, Match.word?, endsInLiteral_tickDivision.group?_eq (by decide) (by decide) h.marks hm,
      Option.bind_some, n.word?_eq_some.mpr ⟨rfl, hfit⟩]
    rfl

/-- Code without the position on the map gives a plain cycle. -/
theorem cycling_eq {frames : Nat} {base : Int} {cs : List Char} (hcs : 'm' ∉ cs) :
    cycling base frames cs = ⟨base, some (.cycle frames (tickDivisor cs))⟩ := by
  have hneeds : Needs 'm' mapPosition := by
    simp [mapPosition, spaced, Pattern.wordStart, literal, Pattern.all, Pattern.char, Needs]
  have hmap : mapPosition.occursIn cs = false := by rw [occursIn, hneeds.find?_eq_none hcs]; rfl
  rw [cycling, hmap]
  rfl

/-! ### The match of an idiom -/

variable {s : ExpressionStatement} {id : Nat} {r : Remap} {m : Match}

theorem mem_of_find? {p : Pattern} (hbegins : Begins ["sprite".toList] p) (hsign : Needs '=' p)
    (h : p.find? (s.text "sprite".toList) = some m) : ∃ a ∈ p.readings (lastOf none s.lead.text)
      ("sprite".toList ++ (s.beforeSign.text ++ '=' :: (s.afterSign.text ++ s.ending))), m.kept = a.kept := by
  obtain ⟨a, ha, rfl⟩ := read?_of_find? hbegins (by decide) hsign (by decide) s.sign_not_mem h
  exact ⟨a, mem_of_read? ha, rfl⟩

/-- The sprite with two literals added or subtracted. -/
def moved (first second : Operator .sum) (before after before' after' : Gap) (a b : Decimal) : Expression (.row .sum) :=
  .row (.row .sprite .done) (.next before first after (.row (.number (.decimal a)) .done)
    (.next before' second after' (.row (.number (.decimal b)) .done) .done))

theorem exists_moved (first second : Operator .sum)
    (h : (shifted "sprite" first.char second.char).find? (s.text "sprite".toList) = some m) :
    ∃ (before after before' after' : Gap) (a b : Decimal), s.value = moved first second before after before' after' a b ∧
      m.kept = [(2, b.digits), (1, a.digits)] := by
  have hsign : Needs '=' (shifted "sprite" first.char second.char) := by simp [shifted, spaced, Pattern.char, Needs]
  obtain ⟨_, hmem, hm⟩ := mem_of_find? (begins_wordStart (s := "sprite") (by decide)).seq hsign h
  obtain ⟨_, _, t0, hkept, -⟩ := exists_of_mem_assigned (fun _ ha => eq_of_mem_wordStart (by decide) ha)
    (unblank_literal (s := "sprite") (by decide)).seq s.head_ending hmem
  obtain ⟨_, h1, before, _, e1, _, _, t1, rfl⟩ := exists_of_mem_spaced t0
  obtain ⟨_, h2, after, _, e2, _, _, t2, rfl⟩ := exists_of_mem_spaced t1
  obtain ⟨_, h3, before', _, e3, _, _, t3, rfl⟩ := exists_of_mem_spaced t2
  obtain ⟨_, h4, after', _, e4, _, _, t4, rfl⟩ := exists_of_mem_spaced t3
  obtain ⟨_, h5, beforeEnd, _, e5, _, _, h6, rfl⟩ := exists_of_mem_spaced t4
  obtain ⟨_, x1, rfl⟩ := mem_readings_literal.mp h1
  obtain ⟨_, rfl, rfl⟩ := mem_readings_char.mp h2
  obtain ⟨a, _, rfl, ha, haDigits, rfl⟩ := mem_readings_digits.mp h3
  obtain ⟨_, rfl, rfl⟩ := mem_readings_char.mp h4
  obtain ⟨b, _, rfl, hb, hbDigits, rfl⟩ := mem_readings_digits.mp h5
  obtain ⟨tail, rfl, rfl⟩ := mem_readings_char.mp h6
  simp only at e1 e2 e3 e4 e5
  subst e5 e4 e3 e2 e1
  have hplain : PlainDigits s.ending := s.plain_ending
  rw [x1] at hplain
  have hplainA : PlainDigits a := fun c hc => hplain c (by simp [hc])
  have hplainB : PlainDigits b := fun c hc => hplain c (by simp [hc])
  obtain ⟨a, rfl⟩ := hplainA.exists_decimal ha haDigits
  obtain ⟨b, rfl⟩ := hplainB.exists_decimal hb hbDigits
  refine ⟨before, after, before', after', a, b, ?_, by simpa using hm.trans hkept⟩
  exact ExpressionStatement.value_eq beforeEnd tail (x1.trans (by simp [moved, Expression.text, Number.text]))

/-- A literal by itself. -/
def alone (a : Decimal) : Expression (.row .sum) := .row (.row (.number (.decimal a)) .done) .done

theorem exists_alone (h : (spaced [assignTo "sprite", group 1 digits, char ';']).find? (s.text "sprite".toList) = some m) :
    ∃ a : Decimal, s.value = alone a ∧ m.kept = [(1, a.digits)] := by
  have hsign : Needs '=' (spaced [assignTo "sprite", group 1 digits, char ';']) := by simp [assignTo, spaced, Pattern.char, Needs]
  obtain ⟨_, hmem, hm⟩ := mem_of_find? (begins_wordStart (s := "sprite") (by decide)).seq.seq hsign h
  have hassigned := readings_assignTo "sprite" (spaced [group 1 digits, char ';'])
  obtain ⟨_, _, hb, hkept, -⟩ := exists_of_mem_assigned (fun _ ha => eq_of_mem_wordStart (by decide) ha)
    (unblank_digits 1).seq s.head_ending (hassigned _ _ ▸ hmem)
  obtain ⟨_, h1, beforeEnd, _, e1, _, _, h2, rfl⟩ := exists_of_mem_spaced hb
  obtain ⟨a, _, x1, ha, haDigits, rfl⟩ := mem_readings_digits.mp h1
  obtain ⟨tail, rfl, rfl⟩ := mem_readings_char.mp h2
  simp only at e1
  subst e1
  have hplain : PlainDigits s.ending := s.plain_ending
  rw [x1] at hplain
  obtain ⟨a, rfl⟩ := hplain.left.exists_decimal ha haDigits
  refine ⟨a, ?_, by simpa using hm.trans hkept⟩
  exact ExpressionStatement.value_eq beforeEnd tail (x1.trans (by simp [alone, Expression.text, Number.text]))

/-- Every statement assigns the sprite. -/
theorem occursIn_anyAssignment : (anyAssignment "sprite").occursIn (s.text "sprite".toList) = true := by
  have hsign : '=' ∉ s.afterSign.text ++ s.ending := s.sign_not_mem
  obtain ⟨c, cs, hc⟩ : ∃ c cs, s.afterSign.text ++ s.ending = c :: cs := by
    apply List.ne_nil_iff_exists_cons.mp
    intro hnil
    have hvalue := (List.append_eq_nil_iff.mp (List.append_eq_nil_iff.mp hnil).2).2
    exact absurd (List.append_eq_nil_iff.mp hvalue).2 (List.cons_ne_nil _ _)
  have hne : c ≠ '=' := fun heq => hsign (hc ▸ heq ▸ List.mem_cons_self)
  have hlead : (lastOf none s.lead.text).any isWord = false := outside_of_blank s.lead.blank none rfl
  suffices h : ∃ m, (anyAssignment "sprite").find? (s.text "sprite".toList) = some m by
    obtain ⟨m, hm⟩ := h
    rw [occursIn, hm]
    rfl
  apply exists_find?
  apply exists_seq ((mem_readings_wordStart (by decide)).mpr ⟨hlead, _, rfl, rfl⟩)
  apply exists_seq (mem_readings_run.mpr ⟨s.beforeSign.text, _, rfl, s.beforeSign.blank, rfl⟩)
  apply exists_seq (mem_readings_optional.mpr (Or.inr rfl))
  apply exists_seq (mem_readings_char.mpr ⟨_, rfl, rfl⟩)
  exact ⟨_, mem_readings_one.mpr ⟨c, cs, hc, bne_iff_ne.mpr hne, rfl⟩⟩

/-- A pattern for a base and a later modulus. -/
def cyclePattern (base : Pattern) (k : Nat) : Pattern := seq (spaced [assignTo "sprite", base, char '+']) (laterModulus k)

theorem endsInLiteral_cyclePattern (base : Pattern) (k : Nat) : EndsInLiteral '%' k (cyclePattern base k) :=
  (endsInLiteral_signed '%' k).seq.seq

/-- Behind the sign of a variable the base is read, and the pattern keeps what the base keeps and one literal more. -/
theorem exists_base {v : String} {base : Pattern} {k : Nat} (hv : v.toList.head?.any isWord = true)
    (hall : v.toList.all isWord = true) (hbase : Unblank base)
    (h : (seq (spaced [assignTo v, base, char '+']) (laterModulus k)).find? (s.text v.toList) = some m) :
    ∃ last, ∃ a ∈ base.readings last s.ending,
      ∃ (g : Gap) (tail t : List Char), a.rest = g.text ++ '+' :: tail ∧ m.kept = (k, t) :: a.kept := by
  have hsign : Needs '=' (seq (spaced [assignTo v, base, char '+']) (laterModulus k)) := by
    simp [assignTo, spaced, Pattern.char, Needs]
  obtain ⟨r, hr, rfl⟩ := read?_of_find? (begins_wordStart hv).seq.seq.seq (List.forall_mem_singleton.mpr hv) hsign hall
    s.sign_not_mem h
  obtain ⟨a, ha, b, hb, rfl⟩ := mem_readings_seq.mp (mem_of_read? hr)
  have hassigned := readings_assignTo v (spaced [base, char '+'])
  obtain ⟨last, c, hc, hkept, -⟩ := exists_of_mem_assigned (fun _ ha => eq_of_mem_wordStart hv ha)
    hbase.seq s.head_ending (hassigned _ _ ▸ ha)
  obtain ⟨d, hd, g, _, hrest, _, _, he, rfl⟩ := exists_of_mem_spaced hc
  obtain ⟨tail, rfl, rfl⟩ := mem_readings_char.mp he
  -- The modulus keeps its literal and nothing else.
  obtain ⟨t, ht⟩ : ∃ t, b.kept = [(k, t)] := by
    obtain ⟨_, h1, _, t1, rfl⟩ := mem_readings_seq.mp hb
    obtain ⟨_, h2, _, t2, rfl⟩ := mem_readings_seq.mp t1
    obtain ⟨_, h3, _, h4, rfl⟩ := mem_readings_seq.mp t2
    obtain ⟨_, _, -, -, rfl⟩ := mem_readings_lazyRun.mp h1
    obtain ⟨_, -, rfl⟩ := mem_readings_char.mp h2
    obtain ⟨_, _, -, -, rfl⟩ := mem_readings_run.mp h3
    obtain ⟨t, _, -, -, -, rfl⟩ := mem_readings_digits.mp h4
    exact ⟨t, rfl⟩
  refine ⟨last, d, hd, g, tail, t, hrest, ?_⟩
  simp only [Reading.toMatch, Reading.append, hkept, ht]
  simp

/-! ### The text of a cycle -/

/-- What stands in front of the cycle. -/
def front (s : ExpressionStatement) (base : Expression .atom) (before after : Gap) : List Char :=
  (s.lead.text ++ ("sprite".toList ++ (s.beforeSign.text ++ '=' :: (s.afterSign.text ++ (base.text ++ before.text))))) ++
    '+' :: after.text

section Raised
variable {base : Expression .atom} {before after : Gap} {e : Expression (.row .product)} {frames : Decimal} {step : Nat}

theorem ending_raised (h : s.value = raised base before after e) :
    s.ending = base.text ++ (before.text ++ '+' :: (after.text ++ (e.text ++ (s.beforeEnd.text ++ ';' :: s.trail.text)))) := by
  have htext : (raised base before after e).text =
      (base.text ++ []) ++ (before.text ++ '+' :: (after.text ++ (e.text ++ []))) := rfl
  simp [ExpressionStatement.ending, h, htext]

theorem text_raised (h : s.value = raised base before after e) :
    s.text "sprite".toList = front s base before after ++ (e.text ++ (s.beforeEnd.text ++ ';' :: s.trail.text)) := by
  simp [ExpressionStatement.text, ending_raised h, front]

theorem not_mem_around (s : ExpressionStatement) (before after : Gap) {sign : Char} (hsign : sign ∉ "sprite=+;".toList)
    (hblank : isBlank sign = false) (hbase : sign ∉ base.text) :
    sign ∉ front s base before after ∧ sign ∉ s.beforeEnd.text ++ ';' :: s.trail.text := by
  have hgap : ∀ g : Gap, sign ∉ g.text := fun g => not_mem_of_blank g.blank hblank
  simp at hsign
  constructor
  · simp [front, hgap, hbase, hsign]
  · simp [hgap, hsign]

theorem marks_raised (h : s.value = raised base before after e) (hcycle : Cycle e frames step) (hbase : '%' ∉ base.text) :
    Marks '%' frames (s.text "sprite".toList) := by
  obtain ⟨hfront, hbehind⟩ := not_mem_around s before after (by decide) (by decide) hbase
  rw [text_raised h]
  exact hcycle.marks.within hfront hbehind (s.beforeEnd.head_sign (by decide) _)

theorem steps_raised (h : s.value = raised base before after e) (hcycle : Cycle e frames step) (hbase : '/' ∉ base.text) :
    Steps step (s.text "sprite".toList) := by
  obtain ⟨hfront, hbehind⟩ := not_mem_around s before after (by decide) (by decide) hbase
  rw [text_raised h]
  exact hcycle.steps.within ((outside_of_blank after.blank).behind (by decide) _) hfront hbehind
    (s.beforeEnd.head_sign (by decide) _)

end Raised

/-! ### No wrong guess -/

/-- The remap has no animation and is the value of the expression at every tick, or it has a cycle, which gives the value at
    every tick if the expression is a cycle of frames. -/
def Exact (s : ExpressionStatement) (id : Nat) (r : Remap) : Prop :=
  (r.animation = none ∧ ∀ (now : Nat) (v : Int), s.value.value id now = some v → v = r.base) ∨
  ∃ frames step, r.animation = some (.cycle frames step) ∧ (FrameCycle s.value → ∀ (now : Nat) (v : Int),
    s.value.value id now = some v → frames ≠ 0 ∧ step ≠ 0 ∧ v = r.base + (now / step % frames : Nat))

theorem value_moved (first second : Operator .sum) (before after before' after' : Gap) (a b : Decimal) (id now : Nat) :
    (moved first second before after before' after' a b).value id now =
      (first.apply id a.value).bind fun u => second.apply u b.value := by
  cases first <;> cases second <;> rfl

theorem exact_shifted (first second : Operator .sum)
    (h : (shifted "sprite" first.char second.char).find? (s.text "sprite".toList) = some m) {a b u base : Int}
    (ha : m.integer? 1 = some a) (hb : m.integer? 2 = some b) (hu : first.apply id a = some u)
    (hbase : second.apply u b = some base) : Exact s id ⟨base, none⟩ := by
  obtain ⟨before, after, before', after', x, y, hvalue, hkept⟩ := exists_moved first second h
  obtain rfl := Match.eq_value_of_integer? (n := x) (by simp [Match.group?, hkept]) ha
  obtain rfl := Match.eq_value_of_integer? (n := y) (by simp [Match.group?, hkept]) hb
  refine Or.inl ⟨rfl, fun now v hv => ?_⟩
  rw [hvalue, value_moved, hu, Option.bind_some, hbase] at hv
  exact (Option.some.inj hv).symm

theorem exact_direct (h : (spaced [assignTo "sprite", group 1 digits, char ';']).find? (s.text "sprite".toList) = some m)
    {base : Int} (hbase : m.integer? 1 = some base) : Exact s id ⟨base, none⟩ := by
  obtain ⟨x, hvalue, hkept⟩ := exists_alone h
  obtain rfl := Match.eq_value_of_integer? (n := x) (by simp [Match.group?, hkept]) hbase
  refine Or.inl ⟨rfl, fun now v hv => ?_⟩
  rw [hvalue] at hv
  exact (Option.some.inj hv).symm

theorem map_not_mem : 'm' ∉ s.text "sprite".toList := by
  have hgap : ∀ g : Gap, 'm' ∉ g.text := fun g => not_mem_of_blank g.blank (by decide)
  have hvalue : 'm' ∉ s.value.text := s.value.not_mem (by decide)
  simp [ExpressionStatement.text, ExpressionStatement.ending, hgap, hvalue]

theorem digits_ne_cons {t xs ys : List Char} {c : Char} (hne : t ≠ []) (hall : t.all isDigit = true) (hc : isDigit c = false) :
    t ++ xs ≠ c :: ys := by
  intro h
  cases t with
  | nil => exact hne rfl
  | cons d t =>
    obtain ⟨rfl, -⟩ := List.cons.inj h
    simp [hc] at hall

/-- Where a cycle is raised by a literal, the base and the modulus that are kept are the literals of the expression. -/
theorem groups_baseCycle {x frames : Decimal} {before after : Gap} {e : Expression (.row .product)} {step : Nat}
    (hvalue : s.value = raised (.number (.decimal x)) before after e) (hcycle : Cycle e frames step)
    (h : (cyclePattern (group 1 digits) 2).find? (s.text "sprite".toList) = some m) :
    m.group? 1 = some x.digits ∧ m.group? 2 = some frames.digits := by
  obtain ⟨last, a, ha, g, tail, t, hrest, hkept⟩ := exists_base (by decide) (by decide) (unblank_digits 1) h
  obtain ⟨u, _, hending, hne, hall, rfl⟩ := mem_readings_digits.mp ha
  obtain rfl := hrest
  have hx : ∀ c, c.isDigit = false → c ∉ (Expression.number (.decimal x)).text := fun c hc => x.numeral.not_mem hc
  have hu : u = x.digits := by
    rw [ending_raised hvalue] at hending
    exact (Decimal.eq_of_append hending hall (before.head_sign (by decide) _) (g.head_sign (by decide) _)).1
  exact ⟨by simp [Match.group?, hkept, hu], (endsInLiteral_cyclePattern _ 2).group?_eq (by decide) (by decide)
    (marks_raised hvalue hcycle (hx _ (by decide))) h⟩

theorem exact_baseCycle (h : (cyclePattern (group 1 digits) 2).find? (s.text "sprite".toList) = some m) {base : Int} {frames : Nat}
    (hbase : m.integer? 1 = some base) (hframes : m.word? 2 = some frames) :
    Exact s id (cycling base frames (s.text "sprite".toList)) := by
  rw [cycling_eq map_not_mem]
  refine Or.inr ⟨frames, _, rfl, fun hcycle now v hv => ?_⟩
  generalize hvalue : s.value = value at hcycle hv
  cases hcycle with
  | literal x before after hc =>
    obtain ⟨hbaseGroup, hframesGroup⟩ := groups_baseCycle hvalue hc h
    obtain rfl := Match.eq_value_of_integer? hbaseGroup hbase
    obtain rfl := Match.eq_value_of_word? hframesGroup hframes
    rw [tickDivisor_eq (steps_raised hvalue hc (x.numeral.not_mem (by decide)))]
    exact value_raised rfl hc hv
  | sprite before after hc =>
    obtain ⟨last, a, ha, -⟩ := exists_base (by decide) (by decide) (unblank_digits 1) h
    obtain ⟨u, _, hending, hne, hall, -⟩ := mem_readings_digits.mp ha
    rw [ending_raised hvalue] at hending
    exact absurd hending.symm (digits_ne_cons hne hall (by decide))

theorem exact_selfCycle (h : (cyclePattern (literal "sprite") 1).find? (s.text "sprite".toList) = some m) {frames : Nat}
    (hframes : m.word? 1 = some frames) : Exact s id (cycling id frames (s.text "sprite".toList)) := by
  obtain ⟨last, a, ha, g, tail, t, hrest, hkept⟩ := exists_base (by decide) (by decide) (unblank_literal (by decide)) h
  obtain ⟨_, hending, rfl⟩ := mem_readings_literal.mp ha
  rw [cycling_eq map_not_mem]
  refine Or.inr ⟨frames, _, rfl, fun hcycle now v hv => ?_⟩
  generalize hvalue : s.value = value at hcycle hv
  cases hcycle with
  | literal x before after hc =>
    rw [ending_raised hvalue] at hending
    exact absurd hending (digits_ne_cons x.nonempty x.numeral.all_isDigit (by decide))
  | sprite before after hc =>
    obtain rfl := Match.eq_value_of_word? ((endsInLiteral_cyclePattern _ 1).group?_eq (by decide) (by decide)
      (marks_raised hvalue hc (by decide)) h) hframes
    rw [tickDivisor_eq (steps_raised hvalue hc (by decide))]
    exact value_raised rfl hc hv

/-- Every remap that an assignment of an expression gives is exact. -/
theorem remap_value_exact (s : ExpressionStatement) (id : Nat) (r : Remap)
    (h : animatedChain.value? ⟨id, s.text "sprite".toList⟩ = some r) : Exact s id r := by
  obtain ⟨i, hi, hread⟩ := IdiomChain.exists_of_value? h
  simp only [animatedChain, chain, List.mem_cons, List.not_mem_nil, or_false] at hi
  rcases hi with rfl | rfl | rfl | rfl | rfl | rfl
  · obtain ⟨m, hm, hvalue⟩ := Option.bind_eq_some_iff.mp hread
    obtain ⟨a, ha, h1⟩ := Option.bind_eq_some_iff.mp hvalue
    obtain ⟨b, hb, h2⟩ := Option.bind_eq_some_iff.mp h1
    obtain ⟨up, hup, h3⟩ := Option.bind_eq_some_iff.mp h2
    obtain ⟨base, hbase, h4⟩ := Option.bind_eq_some_iff.mp h3
    obtain rfl := Option.some.inj h4
    exact exact_shifted .plus .minus hm ha hb (congrArg some (fitInteger?_eq_some.mp hup).1)
      (congrArg some (fitInteger?_eq_some.mp hbase).1)
  · obtain ⟨m, hm, hvalue⟩ := Option.bind_eq_some_iff.mp hread
    obtain ⟨a, ha, h1⟩ := Option.bind_eq_some_iff.mp hvalue
    obtain ⟨b, hb, h2⟩ := Option.bind_eq_some_iff.mp h1
    obtain ⟨down, hdown, h3⟩ := Option.bind_eq_some_iff.mp h2
    obtain ⟨base, hbase, h4⟩ := Option.bind_eq_some_iff.mp h3
    obtain rfl := Option.some.inj h4
    exact exact_shifted .minus .plus hm ha hb (congrArg some (fitInteger?_eq_some.mp hdown).1)
      (congrArg some (fitInteger?_eq_some.mp hbase).1)
  · obtain ⟨m, hm, hvalue⟩ := Option.bind_eq_some_iff.mp hread
    obtain ⟨base, hbase, h1⟩ := Option.bind_eq_some_iff.mp hvalue
    obtain ⟨frames, hframes, h2⟩ := Option.bind_eq_some_iff.mp h1
    obtain rfl := Option.some.inj h2
    exact exact_baseCycle hm hbase hframes
  · obtain ⟨m, hm, hvalue⟩ := Option.bind_eq_some_iff.mp hread
    obtain ⟨frames, hframes, h1⟩ := Option.bind_eq_some_iff.mp hvalue
    obtain rfl := Option.some.inj h1
    exact exact_selfCycle hm hframes
  · obtain ⟨m, hm, hvalue⟩ := Option.bind_eq_some_iff.mp hread
    obtain ⟨base, hbase, rfl⟩ := Option.map_eq_some_iff.mp hvalue
    exact exact_direct hm hbase
  · have hassigned : (if (anyAssignment "sprite").occursIn (s.text "sprite".toList) then none else some ⟨id, none⟩) = some r :=
      hread
    rw [if_pos occursIn_anyAssignment] at hassigned
    cases hassigned

/-- `sprite = 14136 + ((attick / 2) % 8);` -/
def turning : ExpressionStatement where
  lead := .none
  beforeSign := .space
  afterSign := .space
  value := raised (.number (.decimal ⟨"14136".toList, by decide, by decide⟩)) .space .space
    (.row (.parens .none (.row (.row
      (.parens .none (.row (.row .tick
        (.next .space .divide .space (.number (.decimal ⟨"2".toList, by decide, by decide⟩)) .done)) .done) .none)
      (.next .space .modulo .space (.number (.decimal ⟨"8".toList, by decide, by decide⟩)) .done)) .done) .none) .done)
  beforeEnd := .none
  trail := .none

theorem frameCycle_turning : FrameCycle turning.value :=
  .literal _ _ _ (.alone (.parens _ _ (.alone (.modulo _ _ _ (.parens _ _ (.alone (.quotient _ _ _ .tick (by decide))))))))

theorem remap_value_exact_turning :
    turning.text "sprite".toList = "sprite = 14136 + ((attick / 2) % 8);".toList ∧
      animatedChain.value? ⟨5, turning.text "sprite".toList⟩ = some ⟨14136, some (.cycle 8 2)⟩ ∧
      ∀ (now : Nat) (v : Int), turning.value.value 5 now = some v → v = 14136 + (now / 2 % 8 : Nat) := by
  have hread : animatedChain.value? ⟨5, turning.text "sprite".toList⟩ = some ⟨14136, some (.cycle 8 2)⟩ := by decide +kernel
  refine ⟨by decide +kernel, hread, fun now v hv => ?_⟩
  rcases remap_value_exact turning 5 _ hread with ⟨hnone, -⟩ | ⟨frames, step, hcycle, hvalue⟩
  · cases hnone
  · cases hcycle
    exact (hvalue frameCycle_turning now v hv).2.2

/-- `sprite = 100 + attick % 6 * 2;` -/
def doubled : ExpressionStatement where
  lead := .none
  beforeSign := .space
  afterSign := .space
  value := raised (.number (.decimal ⟨"100".toList, by decide, by decide⟩)) .space .space
    (.row .tick (.next .space .modulo .space (.number (.decimal ⟨"6".toList, by decide, by decide⟩))
      (.next .space .times .space (.number (.decimal ⟨"2".toList, by decide, by decide⟩)) .done)))
  beforeEnd := .none
  trail := .none

/-- A factor behind the modulus is not read, and the frame is not the value of the expression. -/
theorem remap_ignores_factor :
    doubled.text "sprite".toList = "sprite = 100 + attick % 6 * 2;".toList ∧
      animatedChain.value? ⟨5, doubled.text "sprite".toList⟩ = some ⟨100, some (.cycle 6 1)⟩ ∧
      doubled.value.value 5 1 = some 102 ∧ (100 + (1 / 1 % 6 : Nat) : Int) = 101 := by
  decide +kernel

end Remap
end SpriteFacts
