import Mathlib.Data.List.Nodup
import SpriteFacts.Metadata.PixelOffset
import SpriteFacts.Proofs.Switch.FunctionHead
import SpriteFacts.Proofs.Variant.AssignedExpression
import SpriteFacts.Proofs.Variant.StaticChannel

/-! The axes of a pixel offset. Each axis is searched on its own, and an axis without a value is 0 as soon as the other has
    one. So 0 stands for two things: the code does not assign the axis, or what it assigns is not read. The main
    statement says for which bodies the second happens. -/

namespace SpriteFacts

open Switch Text Pattern

/-- A name does not begin like a literal. -/
theorem not_isNumeral_of_isNameStart {c : Char} (h : isNameStart c = true) : isNumeral c = false := by
  have hcode : 65 ≤ c.toNat ∧ c.toNat ≤ 122 := by
    rw [isNameStart, Bool.or_eq_true, beq_iff_eq] at h
    rcases h with h | rfl
    · rcases (Bool.or_eq_true c.isUpper c.isLower).mp h with hcase | hcase
      · obtain ⟨hlo, hhi⟩ := of_decide_eq_true (p := c.val ≥ 'A'.val ∧ c.val ≤ 'Z'.val) hcase
        exact ⟨UInt32.le_iff_toNat_le.mp hlo, Nat.le_trans (UInt32.le_iff_toNat_le.mp hhi) (by decide)⟩
      · obtain ⟨hlo, hhi⟩ := (Bool.and_eq_true (decide (c.val ≥ 'a'.val)) (decide (c.val ≤ 'z'.val))).mp hcase
        exact ⟨Nat.le_trans (by decide) (UInt32.le_iff_toNat_le.mp (of_decide_eq_true hlo)),
          UInt32.le_iff_toNat_le.mp (of_decide_eq_true hhi)⟩
    · decide
  have hall : ∀ n ≤ 122, 65 ≤ n → isNumeral (Char.ofNat n) = false := by decide
  rw [← Char.ofNat_toNat c]
  exact hall _ hcode.2 hcode.1

theorem IsSigned.head {t : List Char} (h : IsSigned t) (xs : List Char) :
    (t ++ xs).head?.all (fun c => !isBlank c) = true :=
  head_outside (fun _ => not_isBlank_of_isNumeral) h.all_isNumeral fun hnil => absurd hnil h.ne_nil

namespace PixelOffset

/-! ### Bodies of assignments -/

inductive Axis where
  | x
  | y
  deriving DecidableEq

def Axis.char : Axis → Char
  | x => 'x'
  | y => 'y'

def get (o : PixelOffset) : Axis → Int
  | .x => o.x
  | .y => o.y

inductive Sign where
  | none
  | plus
  | minus

/-- What an axis is assigned: a decimal literal of any size, perhaps with a sign, or a name. -/
inductive AxisValue where
  | literal (sign : Sign) (n : Decimal)
  | name (cs : List Char) (isName : IsName cs)

namespace AxisValue

def text : AxisValue → List Char
  | literal .none n => n.digits
  | literal .plus n => '+' :: n.digits
  | literal .minus n => '-' :: n.digits
  | name cs _ => cs

/-- The integer that a literal writes. -/
def value? : AxisValue → Option Int
  | literal .none n | literal .plus n => some n.value
  | literal .minus n => some (-n.value)
  | name _ _ => none

/-- The integer that is read: a literal without a plus sign, in the range of fields with a sign. -/
def read? : AxisValue → Option Int
  | literal .none n => fitInteger? n.value
  | literal .minus n => fitInteger? (-(n.value : Int))
  | literal .plus _ | name _ _ => none

theorem value?_of_read? {v : AxisValue} {k : Int} (h : v.read? = some k) : v.value? = some k := by
  rcases v with ⟨sign, n⟩ | ⟨cs, hcs⟩
  · cases sign with
    | none | minus => exact congrArg some (fitInteger?_eq_some.mp h).1
    | plus => cases h
  · cases h

end AxisValue

/-- An assignment of an axis, through its pointer or as a variable, with the blanks around its parts. -/
structure AxisStatement where
  lead : Gap
  /-- The blanks behind the star, if the axis is assigned through its pointer. -/
  pointer : Option Gap
  axis : Axis
  beforeSign : Gap
  afterSign : Gap
  value : AxisValue
  beforeEnd : Gap

/-- What stands in front of the letter of an axis. -/
def opening : Option Gap → List Char
  | none => []
  | some g => '*' :: (g.text ++ ['p'])

namespace AxisStatement
variable (s : AxisStatement)

/-- The value and the end of the statement. -/
def ending : List Char := s.afterSign.text ++ (s.value.text ++ (s.beforeEnd.text ++ [';']))

/-- What stands in front of the sign. -/
def front : List Char := s.lead.text ++ (opening s.pointer ++ s.axis.char :: s.beforeSign.text)

def text : List Char := s.front ++ '=' :: s.ending

/-- The statement assigns a value that is not read, and that is not 0 either. -/
def Misread : Prop := s.value.read? = none ∧ s.value.value? ≠ some 0

end AxisStatement

/-- The code of statements, with blanks behind the last one. -/
def body (ss : List AxisStatement) (trail : Gap) : List Char := ss.flatMap AxisStatement.text ++ trail.text

/-- The axis has the literal that it is assigned, or it is 0 and is not assigned. -/
def Accounted (ss : List AxisStatement) (o : PixelOffset) (axis : Axis) : Prop :=
  (∃ s ∈ ss, s.axis = axis ∧ s.value.value? = some (o.get axis)) ∨ (o.get axis = 0 ∧ ∀ s ∈ ss, s.axis ≠ axis)

/-! ### What is read -/

theorem isWord_axis (axis : Axis) : isWord axis.char = true := by cases axis <;> decide

theorem isBlank_axis (axis : Axis) : isBlank axis.char = false := not_isBlank_of_isWord (isWord_axis axis)

theorem axis_injective {a b : Axis} (h : a.char = b.char) : a = b := by
  cases a <;> cases b <;> first | rfl | exact absurd h (by decide)

section Readings
variable {axis : Axis} {last : Option Char} {cs : List Char} {r : Reading}

/-- An axis is assigned through its pointer wherever that stands, and as a variable at the start of a word. -/
theorem mem_readings_opening : r ∈ (alt (spaced [char '*', char 'p']) wordEdge).readings last cs ∧ r.rest.head? = some axis.char ↔
    ∃ (pointer : Option Gap) (rest : List Char), (pointer = none → last.any isWord = false) ∧
      cs = opening pointer ++ axis.char :: rest ∧ r = ⟨opening pointer, [], axis.char :: rest⟩ := by
  rw [mem_readings_alt]
  constructor
  · rintro ⟨hr | hr, hrest⟩
    · obtain ⟨a, ha, g, rest1, hrest1, b, hb, rfl⟩ := mem_readings_spaced.mp hr
      obtain ⟨rest2, rfl, rfl⟩ := mem_readings_char.mp ha
      obtain ⟨rest3, rfl, rfl⟩ := mem_readings_char.mp hb
      obtain ⟨rest, rfl⟩ := List.head?_eq_some_iff.mp hrest
      obtain rfl : rest2 = g.text ++ 'p' :: axis.char :: rest := hrest1
      exact ⟨some g, rest, nofun, by simp [opening], by simp [opening]⟩
    · obtain ⟨hedge, rfl⟩ := mem_readings_wordEdge.mp hr
      obtain ⟨rest, rfl⟩ := List.head?_eq_some_iff.mp hrest
      rw [List.head?_cons, Option.any_some, isWord_axis, bne_iff_ne, ne_eq, Bool.not_eq_true] at hedge
      exact ⟨none, rest, fun _ => hedge, rfl, rfl⟩
  · rintro ⟨pointer, rest, hlast, rfl, rfl⟩
    refine ⟨?_, rfl⟩
    cases pointer with
    | some g =>
      exact Or.inl (mem_readings_spaced.mpr ⟨_, mem_readings_char.mpr ⟨g.text ++ 'p' :: axis.char :: rest, by simp [opening], rfl⟩,
        g, 'p' :: axis.char :: rest, rfl, _, mem_readings_char.mpr ⟨_, rfl, rfl⟩, by simp [opening]⟩)
    | none =>
      refine Or.inr (mem_readings_wordEdge.mpr ⟨?_, rfl⟩)
      show (last.any isWord != isWord axis.char) = true
      rw [hlast rfl, isWord_axis]
      rfl

theorem mem_readings_assignment : r ∈ (assignment axis.char).readings last cs ↔
    ∃ (pointer : Option Gap) (a : LiteralAssignment [axis.char]) (rest : List Char), (pointer = none → last.any isWord = false) ∧
      a.stop = ';' ∧ cs = opening pointer ++ (a.text ++ rest) ∧ r = ⟨opening pointer ++ a.text, [(1, a.literal)], rest⟩ := by
  rw [assignment, mem_readings_seq]
  constructor
  · rintro ⟨h, hh, b, hb, rfl⟩
    obtain ⟨c, hc, g1, rest1, hrest1, d, hd, rfl⟩ := mem_readings_spaced.mp hb
    obtain ⟨rest2, hrest2, rfl⟩ := mem_readings_char.mp hc
    obtain ⟨pointer, rest3, hlast, rfl, rfl⟩ := mem_readings_opening.mp ⟨hh, by rw [hrest2]; rfl⟩
    obtain ⟨e, he, g2, rest4, hrest4, f, hf, rfl⟩ := mem_readings_spaced.mp hd
    obtain ⟨rest5, rfl, rfl⟩ := mem_readings_char.mp he
    obtain ⟨k, hk, g3, rest6, hrest6, l, hl, rfl⟩ := mem_readings_spaced.mp hf
    obtain ⟨k', hk', rfl⟩ := mem_readings_group.mp hk
    obtain ⟨t, rest7, rfl, ht, rfl⟩ := mem_readings_signedDigits.mp hk'
    obtain ⟨rest8, rfl, rfl⟩ := mem_readings_char.mp hl
    obtain ⟨-, rfl⟩ := List.cons.inj hrest2
    simp only [Reading.keep] at hrest1 hrest4 hrest6
    subst hrest1 hrest4 hrest6
    exact ⟨pointer, ⟨g1, g2, t, ht, g3, ';', rfl⟩, rest8, hlast, rfl,
      by simp [LiteralAssignment.text, LiteralAssignment.right],
      by simp [LiteralAssignment.text, LiteralAssignment.right, Reading.append, Reading.keep]⟩
  · rintro ⟨pointer, a, rest, hlast, hstop, rfl, rfl⟩
    refine ⟨_, ((@mem_readings_opening axis _ _ _).mpr ⟨pointer, a.beforeSign.text ++ '=' :: (a.right ++ rest), hlast,
      by simp [LiteralAssignment.text], rfl⟩).1, ⟨a.text, [(1, a.literal)], rest⟩, ?_, by simp [Reading.append]⟩
    refine mem_readings_spaced.mpr ⟨_, mem_readings_char.mpr ⟨_, rfl, rfl⟩, a.beforeSign, '=' :: (a.right ++ rest), rfl,
      ⟨'=' :: a.right, [(1, a.literal)], rest⟩, ?_, by simp [LiteralAssignment.text]⟩
    refine mem_readings_spaced.mpr ⟨_, mem_readings_char.mpr ⟨_, rfl, rfl⟩, a.afterSign,
      a.literal ++ (a.beforeEnd.text ++ ';' :: rest), by simp [LiteralAssignment.right, hstop],
      ⟨a.literal ++ (a.beforeEnd.text ++ [';']), [(1, a.literal)], rest⟩, ?_, by simp [LiteralAssignment.right, hstop]⟩
    exact mem_readings_spaced.mpr ⟨_,
      mem_readings_group.mpr ⟨_, mem_readings_signedDigits.mpr ⟨a.literal, _, rfl, a.signed, rfl⟩, rfl⟩, a.beforeEnd,
      ';' :: rest, rfl, _, mem_readings_char.mpr ⟨rest, rfl, rfl⟩, by simp [Reading.keep]⟩

end Readings

/-! ### The statement that is read -/

namespace AxisValue

theorem sign_not_mem (v : AxisValue) : '=' ∉ v.text := by
  rcases v with ⟨sign, n⟩ | ⟨cs, hcs⟩
  · cases sign <;> simp (disch := decide) [text, Decimal.not_mem]
  · exact fun h => absurd (List.all_eq_true.mp hcs.2 _ h) (by decide)

theorem head_text (v : AxisValue) (xs : List Char) : (v.text ++ xs).head?.all (fun c => !isBlank c) = true := by
  rcases v with ⟨sign, n⟩ | ⟨cs, hcs⟩
  · cases sign with
    | none => exact head_digits n.nonempty n.numeral.all_isDigit xs
    | plus | minus => rfl
  · exact hcs.head xs

/-- A value that is read writes a literal as the pattern has it. -/
theorem isSigned_of_read? {v : AxisValue} {k : Int} (h : v.read? = some k) : IsSigned v.text ∧ integer? v.text = some k := by
  rcases v with ⟨sign, n⟩ | ⟨cs, hcs⟩
  · cases sign with
    | none => exact ⟨⟨n.digits, Or.inl rfl, n.nonempty, n.numeral.all_isDigit⟩, n.integer?_eq.trans h⟩
    | minus => exact ⟨⟨n.digits, Or.inr rfl, n.nonempty, n.numeral.all_isDigit⟩, n.integer?_minus.trans h⟩
    | plus => cases h
  · cases h

/-- A value that writes a literal as the pattern has it is read as that literal, and no other begins like one. -/
theorem read?_of_isSigned {v : AxisValue} {t xs ys : List Char} (ht : IsSigned t) (h : v.text ++ xs = t ++ ys) :
    IsSigned v.text ∧ v.read? = integer? v.text := by
  obtain ⟨c, cs, rfl⟩ : ∃ c cs, t = c :: cs := List.exists_cons_of_ne_nil ht.ne_nil
  have hnumeral : isNumeral c = true := List.all_eq_true.mp ht.all_isNumeral c List.mem_cons_self
  rcases v with ⟨sign, n⟩ | ⟨name, hname⟩
  · cases sign with
    | none => exact ⟨⟨n.digits, Or.inl rfl, n.nonempty, n.numeral.all_isDigit⟩, n.integer?_eq.symm⟩
    | minus => exact ⟨⟨n.digits, Or.inr rfl, n.nonempty, n.numeral.all_isDigit⟩, n.integer?_minus.symm⟩
    | plus =>
      obtain ⟨rfl, -⟩ := List.cons.inj h
      exact absurd hnumeral (by decide)
  · cases name with
    | nil => cases hname.1
    | cons d name =>
      obtain ⟨rfl, -⟩ := List.cons.inj h
      have hstart : isNameStart d = true := hname.1
      rw [not_isNumeral_of_isNameStart hstart] at hnumeral
      cases hnumeral

end AxisValue

namespace AxisStatement
variable (s : AxisStatement)

theorem sign_not_mem_front : '=' ∉ s.front := by
  have haxis : '=' ≠ s.axis.char := by cases s.axis <;> decide
  cases hp : s.pointer <;> simp (disch := decide) [front, opening, hp, Gap.not_mem, haxis]

theorem sign_not_mem_ending : '=' ∉ s.ending := by
  simp (disch := decide) [ending, Gap.not_mem, s.value.sign_not_mem]

end AxisStatement

section Body
variable {ss : List AxisStatement} {trail : Gap} {axis : Axis}

/-- What stands before a statement ends outside of a word. -/
theorem lastOf_statements (as : List AxisStatement) (g : Gap) :
    (lastOf none (as.flatMap AxisStatement.text ++ g.text)).any isWord = false := by
  rw [lastOf_append]
  refine lastOf_blank g.blank ?_
  induction as using List.reverseRecOn with
  | nil => rfl
  | append_singleton as s _ =>
    simp [AxisStatement.text, AxisStatement.ending]
    decide

/-- A literal that the code assigns to an axis is that of one of the statements. -/
theorem exists_statement {pointer : Option Gap} {a : LiteralAssignment [axis.char]} {before rest : List Char}
    (h : body ss trail = before ++ (opening pointer ++ (a.text ++ rest))) :
    ∃ s ∈ ss, s.axis = axis ∧ s.value.read? = integer? a.literal := by
  -- The sign of the assignment stands in one of the statements, and each of them has one sign.
  have hsign : ss.flatMap AxisStatement.text ++ trail.text =
      (before ++ (opening pointer ++ axis.char :: a.beforeSign.text)) ++ '=' :: (a.right ++ rest) := by
    rw [← body, h]
    simp [LiteralAssignment.text]
  obtain ⟨us, hus⟩ := exists_front hsign (trail.not_mem (by decide))
  obtain ⟨as, s, bs, u, v, rfl, htext, hfront, rfl⟩ := split_of_flatMap hus.1
  obtain ⟨rfl, rfl⟩ := split_once s.sign_not_mem_front s.sign_not_mem_ending htext
  refine ⟨s, by simp, ?_, ?_⟩
  · -- The letter of the axis is the last character in front of the sign that is no blank.
    have hletter : (before ++ opening pointer) ++ axis.char :: a.beforeSign.text =
        (as.flatMap AxisStatement.text ++ (s.lead.text ++ opening s.pointer)) ++ s.axis.char :: s.beforeSign.text := by
      simpa [AxisStatement.front] using hfront
    exact (axis_injective (Gap.split_last (isBlank_axis axis) (isBlank_axis s.axis) hletter).2).symm
  · have hending : a.right ++ rest = s.ending ++ (bs.flatMap AxisStatement.text ++ trail.text) := by simpa using hus.2
    have hvalue := hending
    simp only [LiteralAssignment.right, AxisStatement.ending, List.append_assoc] at hvalue
    obtain ⟨-, hvalue⟩ := Gap.eq_of_append hvalue (a.signed.head _) (s.value.head_text _)
    obtain ⟨hsigned, hread⟩ := AxisValue.read?_of_isSigned a.signed hvalue.symm
    let b : LiteralAssignment [axis.char] := ⟨a.beforeSign, s.afterSign, s.value.text, hsigned, s.beforeEnd, ';', rfl⟩
    have hsame : a.text ++ rest = b.text ++ (bs.flatMap AxisStatement.text ++ trail.text) := by
      simp only [LiteralAssignment.text, List.append_assoc, List.cons_append, hending]
      rfl
    rw [hread, LiteralAssignment.literal_unique hsame]

/-- The code of statements up to the opening of one of them, and from there on if its value is read. -/
theorem exists_reading {s : AxisStatement} (hs : s ∈ ss) {k : Int} (h : s.value.read? = some k) :
    ∃ before behind r, body ss trail = before ++ behind ∧ r ∈ (assignment s.axis.char).readings (lastOf none before) behind := by
  obtain ⟨as, bs, rfl⟩ := List.append_of_mem hs
  obtain ⟨hsigned, -⟩ := AxisValue.isSigned_of_read? h
  let a : LiteralAssignment [s.axis.char] := ⟨s.beforeSign, s.afterSign, s.value.text, hsigned, s.beforeEnd, ';', rfl⟩
  refine ⟨as.flatMap AxisStatement.text ++ s.lead.text, opening s.pointer ++ (a.text ++ (bs.flatMap AxisStatement.text ++ trail.text)),
    _, ?_, mem_readings_assignment.mpr ⟨s.pointer, a, _, fun _ => lastOf_statements as s.lead, rfl, rfl, rfl⟩⟩
  simp [body, AxisStatement.text, AxisStatement.front, AxisStatement.ending, LiteralAssignment.text, LiteralAssignment.right, a]

/-- The value of an axis is the one that its statement is read with. -/
theorem axisValue?_eq_some (distinct : (ss.map (·.axis)).Nodup) {k : Int} :
    axisValue? axis.char (body ss trail) = some k ↔ ∃ s ∈ ss, s.axis = axis ∧ s.value.read? = some k := by
  have hmatch : ∀ {m : Match}, (assignment axis.char).find? (body ss trail) = some m →
      ∃ s ∈ ss, s.axis = axis ∧ s.value.read? = m.integer? 1 := by
    intro m hm
    obtain ⟨before, r, hstands, -⟩ := findFrom_eq_some hm
    obtain ⟨pointer, a, rest, -, -, hbehind, hr⟩ := mem_readings_assignment.mp (mem_of_read? hstands.read)
    obtain ⟨s, hs, haxis, hread⟩ := exists_statement (hstands.split.trans (congrArg (before ++ ·) hbehind))
    refine ⟨s, hs, haxis, ?_⟩
    rw [hread, hstands.match_eq, hr]
    rfl
  rw [axisValue?, Option.bind_eq_some_iff]
  constructor
  · rintro ⟨m, hm, hk⟩
    obtain ⟨s, hs, haxis, hread⟩ := hmatch hm
    exact ⟨s, hs, haxis, hread.trans hk⟩
  · rintro ⟨s, hs, rfl, hread⟩
    obtain ⟨before, behind, r, hbody, hr⟩ := exists_reading hs hread
    obtain ⟨m, hm⟩ := exists_find? ⟨r, hr⟩
    rw [← hbody] at hm
    obtain ⟨s', hs', haxis, hread'⟩ := hmatch hm
    obtain rfl : s' = s := List.inj_on_of_nodup_map distinct hs' hs haxis
    exact ⟨m, hm, hread'.symm.trans hread⟩

/-- There is no offset exactly if no axis has a value, and in an offset an axis without a value is 0. -/
theorem read_eq_some {sc : Scope} {o : PixelOffset} : read sc = some o ↔
    (∀ axis : Axis, o.get axis = (axisValue? axis.char sc.code).getD 0) ∧
      ∃ axis : Axis, (axisValue? axis.char sc.code).isSome = true := by
  have hget : (∀ axis : Axis, o.get axis = (axisValue? axis.char sc.code).getD 0) ↔
      o = ⟨(axisValue? 'x' sc.code).getD 0, (axisValue? 'y' sc.code).getD 0⟩ := by
    obtain ⟨x, y⟩ := o
    rw [PixelOffset.mk.injEq]
    exact ⟨fun h => ⟨h .x, h .y⟩, fun h axis => by cases axis <;> [exact h.1; exact h.2]⟩
  have hsome : (∃ axis : Axis, (axisValue? axis.char sc.code).isSome = true) ↔
      (axisValue? 'x' sc.code).isSome = true ∨ (axisValue? 'y' sc.code).isSome = true := by
    refine ⟨?_, fun h => h.elim (⟨.x, ·⟩) (⟨.y, ·⟩)⟩
    rintro ⟨axis, h⟩
    cases axis
    · exact Or.inl h
    · exact Or.inr h
  rw [hget, hsome, read]
  cases axisValue? 'x' sc.code <;> cases axisValue? 'y' sc.code <;> simp [eq_comm]

/-- An axis that is not assigned has no value, and one that is assigned has the value that its statement is read with. -/
theorem axisValue?_statement (distinct : (ss.map (·.axis)).Nodup) {s : AxisStatement} (hs : s ∈ ss) :
    axisValue? s.axis.char (body ss trail) = s.value.read? := by
  refine Option.ext fun k => (axisValue?_eq_some distinct).trans ⟨?_, fun h => ⟨s, hs, rfl, h⟩⟩
  rintro ⟨s', hs', haxis, h⟩
  obtain rfl : s' = s := List.inj_on_of_nodup_map distinct hs' hs haxis
  exact h

theorem axisValue?_eq_none (distinct : (ss.map (·.axis)).Nodup) (h : ∀ s ∈ ss, s.axis ≠ axis) :
    axisValue? axis.char (body ss trail) = none := by
  rw [Option.eq_none_iff_forall_not_mem]
  intro k hk
  obtain ⟨s, hs, haxis, -⟩ := (axisValue?_eq_some distinct).mp hk
  exact h s hs haxis

end Body

/-- A body that assigns each axis at most once gives an offset if one of its values is read. Each axis then has the value
    that its statement is read with, else 0; so every axis is accounted for unless a statement is misread. -/
theorem accounted_iff_not_misread {ss : List AxisStatement} (distinct : (ss.map (·.axis)).Nodup) (trail : Gap) (id : Nat) :
    (chain.value? ⟨id, body ss trail⟩ = none ↔ ∀ s ∈ ss, s.value.read? = none) ∧
    ∀ o, chain.value? ⟨id, body ss trail⟩ = some o →
      (∀ s ∈ ss, o.get s.axis = s.value.read?.getD 0) ∧ (∀ axis, (∀ s ∈ ss, s.axis ≠ axis) → o.get axis = 0) ∧
      ((∀ axis, Accounted ss o axis) ↔ ¬∃ s ∈ ss, s.Misread) := by
  have hvalue : chain.value? ⟨id, body ss trail⟩ = read ⟨id, body ss trail⟩ := IdiomChain.value?_singleton _ _ _
  rw [hvalue]
  refine ⟨?_, fun o ho => ?_⟩
  · rw [Option.eq_none_iff_forall_ne_some]
    constructor
    · intro h s hs
      by_contra hread
      refine h ⟨_, _⟩ (read_eq_some.mpr ⟨fun axis => by cases axis <;> rfl, s.axis, ?_⟩)
      show (axisValue? s.axis.char (body ss trail)).isSome = true
      rw [axisValue?_statement distinct hs]
      exact Option.isSome_iff_ne_none.mpr hread
    · rintro h o ho
      obtain ⟨axis, haxis⟩ := (read_eq_some.mp ho).2
      obtain ⟨k, hk⟩ := Option.isSome_iff_exists.mp haxis
      obtain ⟨s, hs, -, hread⟩ := (axisValue?_eq_some distinct).mp hk
      rw [h s hs] at hread
      cases hread
  have hget := (read_eq_some.mp ho).1
  have hassigned : ∀ s ∈ ss, o.get s.axis = s.value.read?.getD 0 := fun s hs => by
    rw [hget, axisValue?_statement distinct hs]
  have hunassigned : ∀ axis, (∀ s ∈ ss, s.axis ≠ axis) → o.get axis = 0 := fun axis h => by
    rw [hget, axisValue?_eq_none distinct h]
    rfl
  refine ⟨hassigned, hunassigned, ?_, ?_⟩
  · -- A misread statement leaves 0 behind, which is neither its value nor that of an axis without statement.
    rintro h ⟨s, hs, hnone, hzero⟩
    have hget := hassigned s hs
    rw [hnone] at hget
    rcases h s.axis with ⟨s', hs', haxis, hliteral⟩ | ⟨-, hnot⟩
    · obtain rfl : s' = s := List.inj_on_of_nodup_map distinct hs' hs haxis
      exact hzero (hliteral.trans (congrArg some hget))
    · exact hnot s hs rfl
  · intro h axis
    by_cases hex : ∃ s ∈ ss, s.axis = axis
    · obtain ⟨s, hs, rfl⟩ := hex
      refine Or.inl ⟨s, hs, rfl, ?_⟩
      rw [hassigned s hs]
      cases hread : s.value.read? with
      | some k => exact AxisValue.value?_of_read? hread
      | none =>
        by_contra hvalue
        exact h ⟨s, hs, hread, hvalue⟩
    · have hnot : ∀ s ∈ ss, s.axis ≠ axis := fun s hs haxis => hex ⟨s, hs, haxis⟩
      exact Or.inr ⟨hunassigned axis hnot, hnot⟩

/-- A statement for `x` through its pointer and one for `y` as a variable. -/
def both (x y : AxisValue) : List AxisStatement :=
  [⟨.none, some .none, .x, .space, .space, x, .none⟩, ⟨.space, none, .y, .space, .space, y, .none⟩]

theorem accounted_iff_not_misread_both :
    let ss := both (.name "dx".toList (by decide)) (.literal .minus ⟨"3".toList, by decide, by decide⟩)
    (ss.map (·.axis)).Nodup ∧ body ss .none = "*px = dx; y = -3;".toList ∧ (∃ s ∈ ss, s.Misread) ∧
      chain.value? ⟨0, body ss .none⟩ = some ⟨0, -3⟩ ∧ ¬∀ axis, Accounted ss ⟨0, -3⟩ axis := by
  intro ss
  have hdistinct : (ss.map (·.axis)).Nodup := by decide
  have hmisread : ∃ s ∈ ss, s.Misread := ⟨_, List.mem_cons_self, rfl, nofun⟩
  have hread : chain.value? ⟨0, body ss .none⟩ = some ⟨0, -3⟩ := by decide +kernel
  exact ⟨hdistinct, rfl, hmisread, hread,
    fun h => ((accounted_iff_not_misread hdistinct .none 0).2 _ hread).2.2.mp h hmisread⟩

/-- An axis that is assigned a name, or a literal beyond the range of fields, comes out as 0. -/
theorem unread_axis_zero :
    let unread : List AxisValue :=
      [.name "dx".toList (by decide), .literal .none ⟨"99999999999999999999".toList, by decide, by decide⟩]
    let three : AxisValue := .literal .none ⟨"3".toList, by decide, by decide⟩
    ∀ x ∈ unread, ((both x three).map (·.axis)).Nodup ∧ chain.value? ⟨0, body (both x three) .none⟩ = some ⟨0, 3⟩ ∧
      ¬Accounted (both x three) ⟨0, 3⟩ .x := by
  intro unread three x hx
  have hread : ∀ x ∈ unread, chain.value? ⟨0, body (both x three) .none⟩ = some ⟨0, 3⟩ := by decide +kernel
  have hvalue : ∀ x ∈ unread, x.value? ≠ some 0 := by decide
  refine ⟨by simp [both], hread x hx, ?_⟩
  rintro (⟨s, hs, haxis, hzero⟩ | ⟨-, hnot⟩)
  · rcases List.mem_pair.mp hs with rfl | rfl
    · exact hvalue x hx hzero
    · cases haxis
  · exact hnot _ List.mem_cons_self rfl

end PixelOffset
end SpriteFacts
