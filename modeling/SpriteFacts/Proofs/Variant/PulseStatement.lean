import SpriteFacts.Proofs.Variant.AssignmentGroup
import SpriteFacts.Proofs.Variant.PackedAssignments
import SpriteFacts.Proofs.Variant.TickMatch

/-! Statements that pulse. A statement gives the blue of a packed color or the light the distance of the tick from a peak, with
    a divisor and an offset or without them. The pattern of its pulse prefers the whole of the distance, so all its literals
    are read. No other idiom reads the statement: behind its only sign stands a call, so it is no literal, and the first
    parenthesis that closes stands behind the tick, so it is no color. -/

namespace SpriteFacts

open Text Pattern

/-! ### The distance is read to its end -/

theorem Ends.head_digit {p : Part} {xs : List Char} (h : Ends p xs) : xs.head?.all (fun c => !isDigit c) = true := by
  obtain ⟨g, c, rest, rfl, hg, hc⟩ := h
  have henders : p.enders.all (fun c => !isDigit c) = true := by
    rcases p with _ | r | r
    · decide
    · cases r <;> decide
    · cases r <;> decide
  exact Gap.head_sign ⟨g, hg⟩ (by simpa using List.all_eq_true.mp henders c hc) rest

theorem Unblank.spaced {p : Pattern} {ps : List Pattern} (h : Unblank p) : Unblank (spaced (p :: ps)) := by
  cases ps with
  | nil => exact h
  | cons q ps => exact h.seq

theorem unblank_char {c : Char} (hc : isBlank c = false) : Unblank (char c) := by
  intro last cs r hr
  obtain ⟨rest, rfl, -⟩ := mem_readings_char.mp hr
  simp [hc]

/-- Behind a gap the next part is read from its first character on. -/
theorem Pattern.Prefers.apart {p q : Pattern} {ps : List Pattern} {t u rest : List Char} {j k : List (Nat × List Char)} (g : Gap)
    (hp : Prefers p t j (g.text ++ (u ++ rest))) (hunblank : Unblank q) (hq : Prefers (Pattern.spaced (q :: ps)) u k rest) :
    Prefers (Pattern.spaced (p :: q :: ps)) (t ++ (g.text ++ u)) (k ++ j) rest :=
  hp.spaced g.blank (hunblank.spaced _ _ _ (mem_of_read? (hq none))) hq

section Prefers
variable {p : Part} {op : Char} {rest : List Char}

theorem prefers_decimal (d : Decimal) (k : Nat) (hrest : rest.head?.all (fun c => !isDigit c) = true) :
    Prefers (group k digits) d.digits [(k, d.digits)] rest :=
  prefers_digits d.nonempty d.numeral.all_isDigit hrest

/-- Where an expression ends, no operator goes on with it. -/
theorem read?_operator_eq_none (h : Ends p rest) (hop : op ∉ p.enders) (hblank : isBlank op = false) (q : Pattern)
    (last : Option Char) : (seq blanks (seq (char op) q)).read? last rest = none := by
  obtain ⟨g, c, xs, rfl, hg, hc⟩ := h
  rw [read?_eq_none]
  intro r hr
  obtain ⟨a, ha, b, hb, -⟩ := mem_readings_seq.mp hr
  obtain ⟨g', rest, hsplit, hg', rfl⟩ := mem_readings_run.mp ha
  obtain ⟨d, hd, -⟩ := mem_readings_seq.mp hb
  obtain ⟨rest', rfl, -⟩ := mem_readings_char.mp hd
  obtain ⟨-, hsign⟩ := span_unique hsplit hg hg' (by simp [not_isBlank_of_enders hc]) (by simp [hblank])
  exact hop ((List.cons.inj hsign).1 ▸ hc)

/-- A literal behind an operator is read if there is one, and nothing is read in its place. -/
theorem prefers_term (t : Option Term) (n : Nat) (h : Ends p rest) (hop : op ∉ p.enders) (hblank : isBlank op = false) :
    Prefers (Pattern.optional (all [blanks, char op, blanks, group n digits])) (termText op t) (termKept n t) rest := by
  cases t with
  | none => exact prefers_nothing (read?_operator_eq_none h hop hblank _)
  | some t =>
    have hop' : ∀ cs : List Char, (op :: cs).head?.all (fun c => !isBlank c) = true := fun cs => by simp [hblank]
    have hdigits := prefers_decimal t.literal n h.head_digit
    have hafter := (prefers_run t.after.blank (head_digits t.literal.nonempty t.literal.numeral.all_isDigit rest)).seq hdigits
    exact ((prefers_run t.before.blank (hop' _)).seq ((prefers_char op _).seq hafter)).optional

namespace TickDistance

/-- The distance up to its first parenthesis that closes. -/
def opening (f : TickDistance) : List Char :=
  "abs".toList ++ (f.call.text ++ '(' :: (f.beforePeak.text ++ (f.peak.digits ++ (f.beforeMinus.text ++ '-' ::
    (f.afterMinus.text ++ '(' :: (f.beforeTick.text ++ ("attick".toList ++ (f.beforeModulo.text ++ '%' ::
      (f.afterModulo.text ++ (f.period.digits ++ f.afterPeriod.text))))))))))

theorem distance_text (f : TickDistance) : f.distance.text = f.opening ++ ')' :: (f.afterTick.text ++ [')']) := by
  simp [distance, phase, opening, Expression.text, enclosed, Operator.char, Number.text]

theorem expression_text (f : TickDistance) :
    f.expression.text = f.distance.text ++ (termText '/' f.divisor ++ termText '+' f.offset) := by
  rw [← text_division, ← text_addition]
  exact List.append_assoc _ _ _

theorem prefers_distance (f : TickDistance) (n : Nat) (rest : List Char) :
    Prefers (spaced [literal "abs", char '(', group n digits, char '-', char '(', literal "attick", char '%',
      group (n + 1) digits, char ')', char ')']) f.distance.text [(n + 1, f.period.digits), (n, f.peak.digits)] rest := by
  have hopen : Unblank (char '(') := unblank_char (by decide)
  have hclose : Unblank (char ')') := unblank_char (by decide)
  have hminus : Unblank (char '-') := unblank_char (by decide)
  have hmodulo : Unblank (char '%') := unblank_char (by decide)
  have htick : Unblank (literal "attick") := unblank_literal (by decide)
  have hlast : Prefers (spaced [char ')']) [')'] [] rest := prefers_char ')' rest
  have h := (prefers_literal "abs" _).apart f.call hopen <| (prefers_char '(' _).apart f.beforePeak (unblank_digits n) <|
    (prefers_decimal f.peak n (f.beforeMinus.head_sign (by decide) _)).apart f.beforeMinus hminus <|
    (prefers_char '-' _).apart f.afterMinus hopen <| (prefers_char '(' _).apart f.beforeTick htick <|
    (prefers_literal "attick" _).apart f.beforeModulo hmodulo <|
    (prefers_char '%' _).apart f.afterModulo (unblank_digits (n + 1)) <|
    (prefers_decimal f.period (n + 1) (f.afterPeriod.head_sign (by decide) _)).apart f.afterPeriod hclose <|
    (prefers_char ')' _).apart f.afterTick hclose hlast
  rw [distance_text]
  simpa [opening] using h

/-- Where the expression ends behind a distance, all of the distance is read. -/
theorem prefers_expression (f : TickDistance) (n : Nat) (h : Ends (.row .sum) rest) :
    Prefers (Pulse.tickDistance n) f.expression.text (f.kept n) rest := by
  have hproduct : Ends (.row .product) (termText '+' f.offset ++ rest) := text_addition f.offset ▸ h.operand (addition f.offset)
  have hkept : f.kept n = (termKept (n + 3) f.offset ++ termKept (n + 2) f.divisor) ++
      [(n + 1, f.period.digits), (n, f.peak.digits)] := by simp [kept]
  rw [expression_text, hkept]
  exact (f.prefers_distance n _).seq
    ((prefers_term f.divisor (n + 2) hproduct (by decide) (by decide)).seq (prefers_term f.offset (n + 3) h (by decide) (by decide)))

end TickDistance
end Prefers

/-! ### Statements -/

/-- The literals of the distance are in the range of words. -/
structure TickDistance.Fits (f : TickDistance) : Prop where
  peak : f.peak.value ≤ maxWord
  period : f.period.value ≤ maxWord
  divisor : ∀ t ∈ f.divisor, t.literal.value ≤ maxWord
  offset : ∀ t ∈ f.offset, t.literal.value ≤ maxWord

/-- A statement that pulses, its literals in the range of words. -/
inductive PulseStatement where
  /-- `c1 = IRGB(R, G, abs(M - (attick % P)) / D + O);`, and so for the other slots. -/
  | color (s : ColorStatement) (f : TickDistance) (blue : s.blue = f.expression) (fits : f.Fits)
      (inRange : s.red.value ≤ maxWord ∧ s.green.value ≤ maxWord)
  /-- `light = abs(M - (attick % P)) / D + O;` -/
  | light (s : ExpressionStatement) (f : TickDistance) (value : s.value = f.expression) (fits : f.Fits)

namespace PulseStatement

def text : PulseStatement → List Char
  | color s .. => s.text
  | light s .. => s.text "light".toList

/-- What the statement says of the blue of a color. A divisor that is left out is one, and an offset nothing. -/
def colorPulse : PulseStatement → Option ColorPulse
  | color s f .. => some ⟨s.slot, s.red.value, s.green.value, f.peak.value, f.period.value,
      f.divisor.elim 1 (·.literal.value), f.offset.elim 0 (·.literal.value)⟩
  | light .. => none

/-- What the statement says of the light. -/
def lightPulse : PulseStatement → Option LightPulse
  | color .. => none
  | light _ f .. => some ⟨f.peak.value, f.period.value, f.divisor.elim 1 (·.literal.value), f.offset.elim 0 (·.literal.value)⟩

/-- The record of a sprite that the statement belongs to: the sprite itself, and the pulse. -/
def variant (s : PulseStatement) (id : Nat) : Variant where
  id := id
  baseSprite := some (id : Int)
  colorPulse := s.colorPulse
  lightPulse := s.lightPulse

/-! ### The pulse is read -/

section Search
variable {head q : Pattern} {words : List (List Char)} {lead g g' : Gap} {name t rest : List Char} {j k : List (Nat × List Char)}

/-- An assignment is matched at its name, and the match takes what the pattern prefers behind the sign. -/
theorem exists_match (hbegins : Begins words (spaced [head, char '=', q])) (hwords : unblank words = true)
    (hhead : ∀ behind, head.read? (lastOf none lead.text) (name ++ behind) = some ⟨name, j, behind⟩)
    (hq : Prefers q t k rest) (hunblank : Unblank q) : ∃ m,
    (spaced [head, char '=', q]).find? (lead.text ++ (name ++ (g.text ++ '=' :: (g'.text ++ (t ++ rest))))) = some m ∧
      m.kept = k ++ j := by
  have hq' : Prefers (spaced [q]) t k rest := hq
  have hsign : Prefers (seq blanks (spaced [char '=', q])) (g.text ++ '=' :: (g'.text ++ t)) k rest := by
    have hgap : Prefers blanks g.text [] (('=' :: (g'.text ++ t)) ++ rest) := prefers_run g.blank rfl
    simpa using hgap.seq ((prefers_char '=' _).apart g' hunblank hq')
  have hread := read?_seq_of_read? (hhead _) (hsign (lastOf (lastOf none lead.text) name))
  -- Only blanks stand in front of the name, and the pattern begins with none.
  have hclear : (spaced [head, char '=', q]).Clear (name ++ (g.text ++ '=' :: (g'.text ++ (t ++ rest)))) none lead.text :=
    hbegins.clear_of_blank hwords lead.blank
  simp only [List.append_assoc, List.cons_append] at hread
  exact ⟨_, (findFrom_of_clear hclear).trans (findFrom_of_read hread), rfl⟩

/-- What is kept for a distance whose literals fit gives its parameters. -/
theorem words_of_kept {f : TickDistance} {m : Match} {n : Nat} {more : List (Nat × List Char)} (fits : f.Fits)
    (hkept : m.kept = f.kept n ++ more) (hmore : ∀ k ∈ more, k.1 < n) :
    m.word? n = some f.peak.value ∧ m.word? (n + 1) = some f.period.value ∧
      (m.word? (n + 2)).getD 1 = f.divisor.elim 1 (·.literal.value) ∧
      (m.word? (n + 3)).getD 0 = f.offset.elim 0 (·.literal.value) := by
  refine ⟨Match.word?_of_group (TickDistance.group?_peak hkept) fits.peak,
    Match.word?_of_group (TickDistance.group?_period hkept) fits.period, ?_, ?_⟩
  · rw [TickDistance.getD_word? (TickDistance.group?_divisor hkept hmore), TickDistance.tail_of_fits fits.divisor]
  · rw [TickDistance.getD_word? (TickDistance.group?_offset hkept hmore), TickDistance.tail_of_fits fits.offset]

end Search

/-- Where the blue is a distance, all of the color is read. -/
theorem prefers_packed {s : ColorStatement} {f : TickDistance} (hblue : s.blue = f.expression) (rest : List Char) :
    Prefers pulsingColor s.packed (f.kept 4 ++ [(3, s.green.digits), (2, s.red.digits)]) rest := by
  have hopen : Unblank (char '(') := unblank_char (by decide)
  have hcomma : Unblank (char ',') := unblank_char (by decide)
  have hclose : Unblank (char ')') := unblank_char (by decide)
  have hlast : Prefers (spaced [char ')']) [')'] [] rest := prefers_char ')' rest
  have hends : Ends (.row .sum) (s.afterBlue.text ++ ([')'] ++ rest)) := (ends_cons (by decide) rest).gap s.afterBlue
  have h := (prefers_literal "IRGB" _).apart s.call hopen <| (prefers_char '(' _).apart s.beforeRed (unblank_digits 2) <|
    (prefers_decimal s.red 2 (s.afterRed.head_sign (by decide) _)).apart s.afterRed hcomma <|
    (prefers_char ',' _).apart s.beforeGreen (unblank_digits 3) <|
    (prefers_decimal s.green 3 (s.afterGreen.head_sign (by decide) _)).apart s.afterGreen hcomma <|
    (prefers_char ',' _).apart s.beforeBlue (unblank_tickDistance 4) <|
    (f.prefers_expression 4 hends).apart s.afterBlue hclose hlast
  rw [ColorStatement.packed, hblue]
  simpa [pulsingColor] using h

theorem colorChain_of_color {s : ColorStatement} {f : TickDistance} (hblue : s.blue = f.expression) (fits : f.Fits)
    (inRange : s.red.value ≤ maxWord ∧ s.green.value ≤ maxWord) (id : Nat) :
    Pulse.colorChain.value? ⟨id, s.text⟩ = some ⟨s.slot, s.red.value, s.green.value, f.peak.value, f.period.value,
      f.divisor.elim 1 (·.literal.value), f.offset.elim 0 (·.literal.value)⟩ := by
  have hslot : ∀ behind, slotPattern.read? (lastOf none s.lead.text) (s.slot.name.toList ++ behind) =
      some ⟨s.slot.name.toList, [(1, s.slot.name.toList)], behind⟩ := fun behind =>
    read?_of_unique (mem_readings_slotPattern s.slot (outside_of_blank s.lead.blank none rfl) behind) fun _ =>
      eq_of_mem_slotPattern
  obtain ⟨m, hm, hkept⟩ := @exists_match _ _ _ _ s.beforeSign s.afterSign _ _ _ _ _ begins_colorPattern (by decide) hslot
    (prefers_packed hblue (s.beforeEnd.text ++ ';' :: s.trail.text)) (unblank_literal (s := "IRGB") (by decide)).seq
  rw [← s.color_eq] at hm
  rw [List.append_assoc] at hkept
  have hmore : ∀ k ∈ [(3, s.green.digits), (2, s.red.digits)] ++ [(1, s.slot.name.toList)], k.1 < 4 := by simp
  obtain ⟨hpeak, hperiod, hdivisor, hoffset⟩ := words_of_kept fits hkept hmore
  have hgroup : ∀ k, k < 4 → m.group? k = _ := fun k hk => TickDistance.group?_of_lt hkept hk
  have htarget : ColorSlot.ofName? (String.ofList (m.group 1)) = some s.slot := by
    rw [Match.group, hgroup 1 (by decide)]
    exact VariantPass.ofName?_name s.slot
  have hred : m.word? 2 = some s.red.value := Match.word?_of_group (hgroup 2 (by decide)) inRange.1
  have hgreen : m.word? 3 = some s.green.value := Match.word?_of_group (hgroup 3 (by decide)) inRange.2
  rw [Pulse.colorChain, IdiomChain.value?_singleton]
  show (Pulse.colorPattern.find? s.text).bind Pulse.colorPulse? = _
  rw [show Pulse.colorPattern.find? s.text = some m from hm]
  simp [Pulse.colorPulse?, htarget, hred, hgreen, hpeak, hperiod, hdivisor, hoffset]

theorem lightChain_of_light {s : ExpressionStatement} {f : TickDistance} (hvalue : s.value = f.expression) (fits : f.Fits) (id : Nat) :
    Pulse.lightChain.value? ⟨id, s.text "light".toList⟩ = some ⟨f.peak.value, f.period.value,
      f.divisor.elim 1 (·.literal.value), f.offset.elim 0 (·.literal.value)⟩ := by
  have hname : ∀ behind, (wordStart "light").read? (lastOf none s.lead.text) ("light".toList ++ behind) =
      some ⟨"light".toList, [], behind⟩ := fun behind =>
    read?_of_unique ((mem_readings_wordStart (s := "light") (by decide)).mpr ⟨outside_of_blank s.lead.blank none rfl, behind, rfl, rfl⟩)
      fun _ => eq_of_mem_wordStart (by decide)
  have hbegins : Begins ["light".toList] (spaced [wordStart "light", char '=', Pulse.tickDistance 1]) :=
    (begins_wordStart (s := "light") (by decide)).seq
  obtain ⟨m, hm, hkept⟩ := @exists_match _ _ _ _ s.beforeSign s.afterSign _ _ _ _ _ hbegins (by decide) hname
    (f.prefers_expression 1 s.ends_sum) (unblank_tickDistance 1)
  have hfind : lightPattern.find? (s.text "light".toList) = some m := by
    rw [lightPattern, find?_congr (readings_assignTo "light" (Pulse.tickDistance 1)), ExpressionStatement.text,
      ExpressionStatement.ending, hvalue]
    exact hm
  have hmore : ∀ k ∈ ([] : List (Nat × List Char)), k.1 < 1 := fun k hk => absurd hk List.not_mem_nil
  obtain ⟨hpeak, hperiod, hdivisor, hoffset⟩ := words_of_kept fits hkept hmore
  rw [Pulse.lightChain, IdiomChain.value?_singleton]
  show (lightPattern.find? _).bind Pulse.lightPulse? = _
  rw [hfind]
  simp [Pulse.lightPulse?, hpeak, hperiod, hdivisor, hoffset]

/-! ### The parts of a statement -/

def lead : PulseStatement → Gap
  | color s .. => s.lead
  | light s .. => s.lead

def name : PulseStatement → List Char
  | color s .. => s.slot.name.toList
  | light .. => "light".toList

def beforeSign : PulseStatement → Gap
  | color s .. => s.beforeSign
  | light s .. => s.beforeSign

def afterSign : PulseStatement → Gap
  | color s .. => s.afterSign
  | light s .. => s.afterSign

/-- What is assigned, and the end of the statement. -/
def assigned : PulseStatement → List Char
  | color s .. => s.color
  | light s .. => s.ending

variable (s : PulseStatement)

theorem text_eq :
    s.text = (s.lead.text ++ (s.name ++ s.beforeSign.text)) ++ '=' :: (s.afterSign.text ++ s.assigned) := by
  cases s <;> simp [text, lead, name, beforeSign, afterSign, assigned, ColorStatement.text, ExpressionStatement.text]

/-- A character that is no blank and no digit stands in no statement unless it is one of a few. -/
theorem not_mem_text {c : Char} (hblank : isBlank c = false) (hdigit : c.isDigit = false)
    (hsigns : c ∉ "light=IRGB(abs-attick%)/+,;c".toList) : c ∉ s.text := by
  have hgap := Gap.not_mem hblank
  have hdigits := Decimal.not_mem hdigit
  have hterm : ∀ (op : Char) (t : Option Term), c ≠ op → c ∉ termText op t := by
    intro op t hop
    cases t <;> simp [termText, hgap, hdigits, hop]
  simp at hsigns
  have hslot : ∀ slot : ColorSlot, c ∉ slot.name.toList := by
    intro slot hmem
    obtain ⟨d, hname, hd, -⟩ := slot.exists_name
    simp [hname, hsigns] at hmem
    subst hmem
    simp only [Bool.or_eq_true, beq_iff_eq] at hd
    rcases hd with (rfl | rfl) | rfl <;> cases hdigit
  have hexpression : ∀ f : TickDistance, c ∉ f.expression.text := fun f => by
    rw [f.expression_text, f.distance_text]
    simp [TickDistance.opening, hgap, hdigits, hterm, hsigns]
  cases s with
  | color s f hblue =>
    simp [text, ColorStatement.text, ColorStatement.color, ColorStatement.ending, hblue, hexpression, hgap, hdigits, hsigns, hslot]
  | light s f hvalue =>
    simp [text, ExpressionStatement.text, ExpressionStatement.ending, hvalue, hexpression, hgap, hsigns]

theorem name_all_isWord : s.name.all isWord = true := by
  cases s with
  | color s => cases hslot : s.slot <;> simp only [name, hslot] <;> decide
  | light => exact (by decide : "light".toList.all isWord = true)

theorem sign_not_mem_behind : '=' ∉ s.afterSign.text ++ s.assigned := by
  cases s with
  | color s => exact s.sign_not_mem
  | light s => exact s.sign_not_mem

theorem sign_unique {xs ys : List Char} (h : s.text = xs ++ '=' :: ys) :
    s.lead.text ++ (s.name ++ s.beforeSign.text) = xs ∧ s.afterSign.text ++ s.assigned = ys := by
  have hname : '=' ∉ s.name := fun hmem => absurd (List.all_eq_true.mp s.name_all_isWord _ hmem) (by decide)
  exact split_once (by simp (disch := decide) [Gap.not_mem, hname]) s.sign_not_mem_behind (s.text_eq.symm.trans h)

/-- Behind the sign stands a call. -/
theorem exists_call : ∃ c cs, s.assigned = c :: cs ∧ (c = 'I' ∨ c = 'a') := by
  cases s with
  | color s => exact ⟨'I', _, rfl, Or.inl rfl⟩
  | light s f hvalue => exact ⟨'a', _, by rw [assigned, ExpressionStatement.ending, hvalue]; rfl, Or.inr rfl⟩

theorem head_assigned : s.assigned.head?.all (fun c => !isBlank c) = true := by
  obtain ⟨c, cs, hcs, rfl | rfl⟩ := s.exists_call <;> rw [hcs] <;> rfl

/-! ### What reads nothing -/

/-- A pattern of assignments that begins with other words than the name matches nowhere. -/
theorem find?_eq_none {words : List (List Char)} {p : Pattern} (hbegins : Begins words p)
    (hwords : ∀ w ∈ words, w.head?.any isWord = true) (hsign : Needs '=' p) (hforeign : ∀ w ∈ words, ∀ cs, ¬w <+: s.name ++ cs) :
    p.find? s.text = none := by
  by_contra hsome
  obtain ⟨m, hm⟩ := Option.ne_none_iff_exists'.mp hsome
  rw [s.text_eq, List.append_assoc, List.append_assoc] at hm
  obtain ⟨r, hr, -⟩ := SpriteFacts.read?_of_find? hbegins hwords hsign s.name_all_isWord s.sign_not_mem_behind hm
  obtain ⟨-, w, hw, hprefix⟩ := hbegins _ _ _ (mem_of_read? hr)
  exact hforeign w hw _ hprefix

theorem lightChain_eq (id : Nat) : Pulse.lightChain.value? ⟨id, s.text⟩ = s.lightPulse := by
  cases s with
  | light s f hvalue fits => exact lightChain_of_light hvalue fits id
  | color s f hblue fits inRange =>
    have hsign : Needs '=' lightPattern := by simp [lightPattern, spaced, assignTo, Pattern.char, Needs]
    have hnone : lightPattern.find? (color s f hblue fits inRange).text = none := by
      refine find?_eq_none _ begins_lightPattern (by decide) hsign ?_
      rintro w hw cs ⟨rest, h⟩
      obtain rfl := List.mem_singleton.mp hw
      obtain ⟨d, hname, -⟩ := s.slot.exists_name
      rw [name, hname] at h
      exact absurd (List.cons.inj h).1 (by decide)
    rw [Pulse.lightChain, IdiomChain.value?_singleton]
    exact Idiom.read_of_find?_none hnone

theorem colorChain_eq (id : Nat) : Pulse.colorChain.value? ⟨id, s.text⟩ = s.colorPulse := by
  cases s with
  | color s f hblue fits inRange => exact colorChain_of_color hblue fits inRange id
  | light s f hvalue fits =>
    have hsign : Needs '=' Pulse.colorPattern := by simp [Pulse.colorPattern, spaced, Pattern.char, Needs]
    have hnone : Pulse.colorPattern.find? (light s f hvalue fits).text = none := by
      refine find?_eq_none _ begins_colorPattern (by decide) hsign ?_
      rintro w hw cs ⟨rest, h⟩
      obtain rfl := List.mem_singleton.mp hw
      exact absurd (List.cons.inj h).1 (by decide)
    rw [Pulse.colorChain, IdiomChain.value?_singleton]
    exact Idiom.read_of_find?_none hnone

theorem channel_eq_none (c : Channel) (id : Nat) : c.chain.value? ⟨id, s.text⟩ = none := by
  -- A literal would stand behind the only sign, where the call begins.
  by_contra hsome
  obtain ⟨n, hn⟩ := Option.ne_none_iff_exists'.mp hsome
  obtain ⟨a, ⟨before, ⟨-, rest, htext⟩, -⟩, -⟩ := Channel.value?_eq_some.mp hn
  have hsign : s.text = (before ++ (c.variableName.toList ++ a.beforeSign.text)) ++
      '=' :: (a.afterSign.text ++ (a.literal ++ (a.beforeEnd.text ++ a.stop :: rest))) := by
    simpa [LiteralAssignment.text, LiteralAssignment.right] using htext
  obtain ⟨-, hbehind⟩ := s.sign_unique hsign
  obtain ⟨d, ds, hd⟩ := List.exists_cons_of_ne_nil a.signed.ne_nil
  have hnumeral : isNumeral d = true := List.all_eq_true.mp a.signed.all_isNumeral d (hd ▸ List.mem_cons_self)
  obtain ⟨-, hassigned⟩ := Gap.eq_of_append hbehind s.head_assigned (by rw [hd]; simp [not_isBlank_of_isNumeral hnumeral])
  obtain ⟨e, es, hes, hcall⟩ := s.exists_call
  rw [hes, hd] at hassigned
  obtain rfl := (List.cons.inj hassigned).1
  rcases hcall with rfl | rfl <;> exact absurd hnumeral (by decide)

/-- The first parenthesis that closes in a color stands behind the tick. -/
theorem exists_opening {s : ColorStatement} {f : TickDistance} (hblue : s.blue = f.expression) :
    ∃ ts more, s.color = 'I' :: (ts ++ ')' :: more) ∧ ')' ∉ ts ∧ 'k' ∈ ts := by
  refine ⟨"RGB".toList ++ (s.call.text ++ '(' :: (s.beforeRed.text ++ (s.red.digits ++ (s.afterRed.text ++ ',' ::
    (s.beforeGreen.text ++ (s.green.digits ++ (s.afterGreen.text ++ ',' :: (s.beforeBlue.text ++ f.opening)))))))),
    f.afterTick.text ++ ')' :: (termText '/' f.divisor ++ (termText '+' f.offset ++ s.ending)), ?_, ?_, ?_⟩
  · simp [ColorStatement.color, hblue, f.expression_text, f.distance_text]
  · simp (disch := decide) [TickDistance.opening, Gap.not_mem, Decimal.not_mem]
  · simp [TickDistance.opening]

/-- What is assigned is no packed color: its call closes the first parenthesis behind the tick. -/
theorem ne_color {after before : Gap} {x : ColorLiteral} {stop : Char} {rest : List Char} :
    s.afterSign.text ++ s.assigned ≠ after.text ++ (x.text ++ (before.text ++ stop :: rest)) := by
  intro h
  obtain ⟨-, hassigned⟩ := Gap.eq_of_append h s.head_assigned (x.head_text _)
  have htick : 'k' ∉ x.text := x.not_mem (by decide) (by decide) (by decide) (by decide)
  cases s with
  | light s f hvalue =>
    obtain ⟨c, cs, hx, -, hc⟩ := x.exists_head
    rw [assigned, ExpressionStatement.ending, hvalue, hx] at hassigned
    obtain rfl : 'a' = c := (List.cons.inj hassigned).1
    exact absurd hc (by decide)
  | color s f hblue =>
    rcases x.text_cases with ⟨ts, hx, hts⟩ | ⟨hx, -⟩
    · obtain ⟨us, more, hcolor, hus, hmem⟩ := exists_opening hblue
      rw [assigned, hcolor, hx] at hassigned
      have hcall : us ++ ')' :: more = ts ++ ')' :: (before.text ++ stop :: rest) := by simpa using hassigned
      obtain ⟨rfl, -⟩ := split_first hus hts hcall
      exact htick (by rw [hx]; simp [hmem])
    · obtain ⟨c, cs, hcs, -⟩ := x.exists_head
      rw [hcs] at hassigned hx
      obtain rfl : 'I' = c := (List.cons.inj hassigned).1
      exact hx rfl

theorem colors_eq_none (id : Nat) : PackedColors.chain.value? ⟨id, s.text⟩ = none := by
  have hchained : PackedColors.chained.find? s.text = none := by
    by_contra hsome
    obtain ⟨m, hm⟩ := Option.ne_none_iff_exists'.mp hsome
    obtain ⟨front, g1, b1, g2, b2, g3, after, x, before, stop, rest, htext, -⟩ := ColorSlot.exists_of_find?_chained hm
    -- An assignment to all slots has a second sign.
    have hsign : s.text = (front ++ (ColorSlot.c1.name.toList ++ g1.text)) ++ '=' :: (b1.text ++ (ColorSlot.c2.head g2 ++
        (b2.text ++ (ColorSlot.c3.head g3 ++ (after.text ++ (x.text ++ (before.text ++ stop :: rest))))))) := by
      simpa [ColorSlot.head] using htext
    obtain ⟨-, hbehind⟩ := s.sign_unique hsign
    exact s.sign_not_mem_behind (by rw [hbehind]; simp [ColorSlot.head])
  have hassigned : ∀ slot, PackedColors.assigned? slot s.text = none := by
    intro slot
    by_contra hsome
    obtain ⟨v, hv⟩ := Option.ne_none_iff_exists'.mp hsome
    obtain ⟨m, hm, -⟩ := Option.bind_eq_some_iff.mp hv
    obtain ⟨front, gap, after, x, before, stop, rest, htext, -⟩ := ColorSlot.exists_of_find?_slot hm
    have hsign : s.text = (front ++ (slot.name.toList ++ gap.text)) ++
        '=' :: (after.text ++ (x.text ++ (before.text ++ stop :: rest))) := by
      simpa [ColorSlot.head] using htext
    exact s.ne_color (s.sign_unique hsign).2
  have heach : PackedColors.readEach ⟨id, s.text⟩ = none := by simp [PackedColors.readEach, hassigned]
  rw [PackedColors.chain, IdiomChain.value?_cons_of_none (Idiom.read_of_find?_none (s := ⟨id, s.text⟩) hchained),
    IdiomChain.value?_singleton]
  exact heach

theorem remap_eq (id : Nat) : Remap.animatedChain.value? ⟨id, s.text⟩ = some ⟨id, none⟩ := by
  have hnot : ¬Remap.KnownAssigned "sprite" s.text := by
    rintro ⟨before, behind, hoccurs, -⟩
    refine s.not_mem_text (c := 'p') (by decide) (by decide) (by decide) ?_
    rw [hoccurs.split]
    simp
  rw [Remap.animatedChain, IdiomChain.value?, Remap.firstMatch?_of_not_knownAssigned (by decide) hnot]
  rfl

/-- The slot that the statement assigns, if any, is that of its pulse. -/
theorem target_of_mem {slot : ColorSlot} (h : slot ∈ VariantPass.assignedSlots s.text) :
    s.colorPulse.any (fun pulse => pulse.target = slot) = true := by
  obtain ⟨front, gap, rest, htext, -⟩ := (VariantPass.mem_assignedSlots.mp h).assigned
  have hsign : s.text = (front ++ (slot.name.toList ++ gap.text)) ++ '=' :: rest := by
    simpa [ColorSlot.head] using htext
  obtain ⟨hfront, -⟩ := s.sign_unique hsign
  obtain ⟨d, hname, hdigit, -, hd⟩ := slot.exists_name
  cases s with
  | light s =>
    -- The name of a slot ends with a digit, and `light` does not.
    have hlast : (s.lead.text ++ "ligh".toList) ++ 't' :: s.beforeSign.text = (front ++ ['c']) ++ d :: gap.text := by
      simpa [name, lead, beforeSign, hname] using hfront
    obtain ⟨-, rfl⟩ := Gap.split_last (by decide) hd hlast
    cases hdigit
  | color s =>
    obtain ⟨e, hname', -, -, he⟩ := s.slot.exists_name
    have hlast : (s.lead.text ++ ['c']) ++ e :: s.beforeSign.text = (front ++ ['c']) ++ d :: gap.text := by
      simpa [name, lead, beforeSign, hname, hname'] using hfront
    obtain ⟨-, rfl⟩ := Gap.split_last he hd hlast
    simp [colorPulse, ColorSlot.name_injective (hname'.trans hname.symm)]

theorem dynamicCode_eq : VariantPass.dynamicCode.occursIn s.text = false := by
  rw [Bool.eq_false_iff]
  intro hoccurs
  obtain ⟨before, behind, r, htext, hr⟩ := occursIn_iff.mp hoccurs
  obtain ⟨-, w, hw, rest, hrest⟩ := begins_dynamicCode _ _ _ hr
  have hmem : ∀ c ∈ w, c ∈ s.text := fun c hc => by
    rw [htext, ← hrest]
    simp [hc]
  -- Each of the words has a letter that stands in no statement.
  have hforeign : ∀ c, c ∈ ['f', 'p', 'r'] → c ∉ s.text := fun c hc => by
    simp only [List.mem_cons, List.not_mem_nil, or_false] at hc
    rcases hc with rfl | rfl | rfl <;> exact s.not_mem_text (by decide) (by decide) (by decide)
  simp only [List.mem_cons, List.not_mem_nil, or_false] at hw
  rcases hw with rfl | rfl | rfl
  · exact hforeign 'f' (by decide) (hmem 'f' (by decide))
  · exact hforeign 'p' (by decide) (hmem 'p' (by decide))
  · exact hforeign 'r' (by decide) (hmem 'r' (by decide))

/-! ### The group of a statement -/

open VariantPass

variable {s} {g : Switch.CaseGroup}

theorem moves (hcode : g.code = s.text) (id : Nat) : VariantPass.animated.Moves g id := by
  rw [Moves, scope, hcode, colorChain_eq, lightChain_eq]
  cases s
  · exact Or.inr (Or.inl rfl)
  · exact Or.inr (Or.inr rfl)

theorem quiet (hcode : g.code = s.text) : VariantPass.animated.Quiet g where
  remapped := by
    rw [scope, hcode]
    show (Remap.animatedChain.value? _).isSome = true
    rw [remap_eq]
    rfl
  pulsed _ := by
    rw [scope, hcode, colorChain_eq, lightChain_eq]
    cases s
    · exact Or.inl rfl
    · exact Or.inr rfl
  colored slot hslot := by
    rw [scope, hcode, colorChain_eq]
    rw [hcode] at hslot
    exact Or.inr (s.target_of_mem hslot)
  decided h := by
    rw [hcode, s.dynamicCode_eq] at h
    cases h
  moving _ id _ := moves hcode id

/-- Each number of a group whose code is the statement has the record of the statement, with the comment on the group. -/
theorem records_eq (hcode : g.code = s.text) (comment : Option String) :
    VariantPass.animated.records g comment = g.ids.map fun id => { s.variant id with comment := comment } := by
  rw [records_eq_map]
  refine List.map_congr_left fun id hid => ?_
  have hreview := (needsReview_recordOf (p := .animated) comment id).mpr ⟨(quiet hcode).decided, fun htick => (quiet hcode).moving htick id hid⟩
  have hremap : VariantPass.animated.remapOf? g id = some ⟨id, none⟩ := by
    show (if (Remap.animatedChain.value? ⟨_, g.code⟩).isSome then Remap.animatedChain.value? ⟨id, g.code⟩ else none) = _
    rw [hcode, remap_eq, remap_eq]
    rfl
  have hshared : shared (scope g) comment = { s.variant (g.ids.headD 0) with baseSprite := none, comment := comment } := by
    have hchannels : Channels.read ⟨g.ids.headD 0, s.text⟩ = {} := by
      simp only [Channels.read, s.channel_eq_none]
      rfl
    rw [shared, scope, hcode, hchannels, colors_eq_none, colorChain_eq, lightChain_eq]
    rfl
  rw [hremap, hshared] at hreview ⊢
  simp only [recordOf] at hreview ⊢
  rw [hreview]
  rfl

theorem diagnostics_eq_nil (hcode : g.code = s.text) (hids : g.ids ≠ []) (l : Located) (comment : Option String) :
    VariantPass.animated.diagnostics l g (VariantPass.animated.records g comment) = [] :=
  (VariantPass.diagnostics_eq_nil hids l comment).mpr (quiet hcode)

end PulseStatement

end SpriteFacts
