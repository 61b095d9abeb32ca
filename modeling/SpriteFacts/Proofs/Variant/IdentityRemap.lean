import SpriteFacts.Proofs.Switch.FunctionHead
import SpriteFacts.Proofs.Variant.AssignedExpression
import SpriteFacts.Variant.Remap

/-! The code that draws a sprite as itself. The last idiom of a remap answers if no occurrence of the variable is
    followed by an assignment that its search knows, and no idiom in front of it answers then. The search knows neither
    `^=` nor the shifts nor a step by one, so code that stores only through these is taken for code that never
    assigns. An operand of a comparison is never taken for an assignment. -/

namespace SpriteFacts.Remap

open Text Pattern

/-! ### Operators next to a variable -/

/-- The variable as a whole word of the code, between two texts. -/
structure Occurs (v : String) (code before behind : List Char) : Prop where
  split : code = before ++ (v.toList ++ behind)
  startsWord : (lastOf none before).any isWord = false
  endsWord : behind.head?.any isWord = false

/-- The operators that store a value made from what stands behind them. -/
inductive Assign where
  | plain
  | add
  | subtract
  | multiply
  | divide
  | modulo
  | bitAnd
  | bitOr
  | bitXor
  | shiftLeft
  | shiftRight
  deriving DecidableEq

/-- The operators that step a variable by one, in front of it or behind it. -/
inductive StepOperator where
  | increment
  | decrement

inductive Comparison where
  | equal
  | unequal
  | less
  | lessEqual
  | greater
  | greaterEqual

namespace Assign

def text : Assign → List Char
  | plain => ['=']
  | add => ['+', '=']
  | subtract => ['-', '=']
  | multiply => ['*', '=']
  | divide => ['/', '=']
  | modulo => ['%', '=']
  | bitAnd => ['&', '=']
  | bitOr => ['|', '=']
  | bitXor => ['^', '=']
  | shiftLeft => ['<', '<', '=']
  | shiftRight => ['>', '>', '=']

/-- The search for an assignment knows the operator. -/
def known : Assign → Bool
  | bitXor | shiftLeft | shiftRight => false
  | _ => true

/-- The operator stands behind blanks, and an operand follows it: no operand begins with an equals sign. -/
def Follows (op : Assign) (behind : List Char) : Prop :=
  ∃ (g : Gap) (c : Char) (rest : List Char), c ≠ '=' ∧ behind = g.text ++ (op.text ++ c :: rest)

end Assign

def StepOperator.text : StepOperator → List Char
  | increment => ['+', '+']
  | decrement => ['-', '-']

def Comparison.text : Comparison → List Char
  | equal => ['=', '=']
  | unequal => ['!', '=']
  | less => ['<']
  | lessEqual => ['<', '=']
  | greater => ['>']
  | greaterEqual => ['>', '=']

/-- An operator stores into the variable between the two texts. -/
inductive Stored (before behind : List Char) : Prop
  | assigned (op : Assign) (h : op.Follows behind)
  | stepped (g : Gap) (op : StepOperator) (rest : List Char) (h : behind = g.text ++ (op.text ++ rest))
  | steppedFirst (front : List Char) (op : StepOperator) (g : Gap) (h : before = front ++ (op.text ++ g.text))

/-- The variable between the two texts is an operand of a comparison. No operand on the right begins with a character that
    would make a longer sign, and a comparison is never assigned to. -/
inductive Compared (before behind : List Char) : Prop
  | left (g : Gap) (op : Comparison) (c : Char) (rest : List Char) (hc : c ∉ ['<', '=', '>'])
      (h : behind = g.text ++ (op.text ++ c :: rest))
  | right (front : List Char) (op : Comparison) (g : Gap) (h : before = front ++ (op.text ++ g.text))
      (free : ∀ a : Assign, ¬a.Follows behind)

/-- Some occurrence of the variable is followed by an operator that the search knows. -/
def KnownAssigned (v : String) (code : List Char) : Prop :=
  ∃ before behind, Occurs v code before behind ∧ ∃ op : Assign, op.known = true ∧ op.Follows behind

/-- The code stores into the variable, but through no operator that the search knows. -/
def Overlooked (v : String) (code : List Char) : Prop :=
  (∃ before behind, Occurs v code before behind ∧ Stored before behind) ∧ ¬KnownAssigned v code

/-- The chain answers with the idiom for code that never assigns the variable. -/
def DrawsItself (v : String) (s : Scope) : Prop := ∃ r, (chain v).firstMatch? s = some ("identity", r)

/-! ### What follows the variable -/

theorem Assign.head_text (op : Assign) (cs : List Char) : (op.text ++ cs).head?.all (fun c => !isBlank c) = true := by
  cases op <;> rfl

theorem Comparison.head_text (op : Comparison) (cs : List Char) :
    (op.text ++ cs).head?.all (fun c => !isBlank c) = true := by
  cases op <;> rfl

/-- An operator ends the word in front of it. -/
theorem Assign.Follows.endsWord {op : Assign} {behind : List Char} (h : op.Follows behind) :
    behind.head?.any isWord = false := by
  obtain ⟨⟨g, hg⟩, c, rest, -, rfl⟩ := h
  cases g with
  | nil => cases op <;> rfl
  | cons b g =>
    rw [List.all_cons, Bool.and_eq_true] at hg
    exact isWord_of_isBlank hg.1

/-- A comparison is no assignment. -/
theorem Compared.free {before behind : List Char} (h : Compared before behind) (a : Assign) : ¬a.Follows behind := by
  cases h with
  | right front op g h free => exact free a
  | left g op c rest hc h =>
    rintro ⟨g', c', rest', hc', hbehind⟩
    obtain ⟨-, hsign⟩ := Gap.eq_of_append (h.symm.trans hbehind) (op.head_text _) (a.head_text _)
    cases op <;> cases a <;> simp_all [Assign.text, Comparison.text, eq_comm]

/-! ### The search for an assignment -/

/-- The part of the search behind the variable and its blanks. -/
def signPattern : Pattern :=
  all [Pattern.optional (one fun c => "-+*/%&|".toList.contains c), char '=', one (· != '=')]

section Search
variable {v : String} {last : Option Char} {cs : List Char}

theorem exists_mem_sign : (∃ r, r ∈ signPattern.readings last cs) ↔
    ∃ (op : Assign) (c : Char) (rest : List Char), op.known = true ∧ c ≠ '=' ∧ cs = op.text ++ c :: rest := by
  constructor
  · rintro ⟨_, hr⟩
    obtain ⟨a, ha, b, hb, -⟩ := mem_readings_seq.mp hr
    obtain ⟨a', ha', b', hb', -⟩ := mem_readings_seq.mp hb
    obtain ⟨rest, hrest, rfl⟩ := mem_readings_char.mp ha'
    obtain ⟨c, rest', rfl, hc, -⟩ := mem_readings_one.mp hb'
    have hne : c ≠ '=' := bne_iff_ne.mp hc
    rcases mem_readings_optional.mp ha with ha | rfl
    · obtain ⟨d, _, rfl, hd, rfl⟩ := mem_readings_one.mp ha
      obtain rfl := hrest
      obtain rfl | rfl | rfl | rfl | rfl | rfl | rfl :
          d = '-' ∨ d = '+' ∨ d = '*' ∨ d = '/' ∨ d = '%' ∨ d = '&' ∨ d = '|' := by simpa using hd
      · exact ⟨.subtract, c, rest', rfl, hne, rfl⟩
      · exact ⟨.add, c, rest', rfl, hne, rfl⟩
      · exact ⟨.multiply, c, rest', rfl, hne, rfl⟩
      · exact ⟨.divide, c, rest', rfl, hne, rfl⟩
      · exact ⟨.modulo, c, rest', rfl, hne, rfl⟩
      · exact ⟨.bitAnd, c, rest', rfl, hne, rfl⟩
      · exact ⟨.bitOr, c, rest', rfl, hne, rfl⟩
    · exact ⟨.plain, c, rest', rfl, hne, hrest⟩
  · rintro ⟨op, c, rest, hknown, hc, rfl⟩
    have hoperand : ∀ last, ∃ r, r ∈ (seq (char '=') (one (· != '='))).readings last ('=' :: c :: rest) := fun last =>
      exists_seq (mem_readings_char.mpr ⟨_, rfl, rfl⟩) ⟨_, mem_readings_one.mpr ⟨c, rest, rfl, bne_iff_ne.mpr hc, rfl⟩⟩
    have hsign : ∀ d, "-+*/%&|".toList.contains d = true →
        ∃ r, r ∈ signPattern.readings last (d :: '=' :: c :: rest) := fun d hd =>
      exists_seq (mem_readings_optional.mpr (Or.inl (mem_readings_one.mpr ⟨d, _, rfl, hd, rfl⟩))) (hoperand _)
    cases op with
    | plain => exact exists_seq (mem_readings_optional.mpr (Or.inr rfl)) (hoperand _)
    | add | subtract | multiply | divide | modulo | bitAnd | bitOr => exact hsign _ rfl
    | bitXor | shiftLeft | shiftRight => cases hknown

theorem isWord_head (hv : Switch.IsName v.toList) : v.toList.head?.any isWord = true := by
  obtain ⟨hstart, hall⟩ := hv
  cases h : v.toList with
  | nil =>
    rw [h] at hstart
    cases hstart
  | cons c w =>
    rw [h, List.all_cons, Bool.and_eq_true] at hall
    exact hall.1

/-- The search reads the variable, blanks, one of the operators that it knows and a character that is no equals sign. -/
theorem exists_mem_anyAssignment (hv : Switch.IsName v.toList) : (∃ r, r ∈ (anyAssignment v).readings last cs) ↔
    last.any isWord = false ∧ ∃ behind, cs = v.toList ++ behind ∧ ∃ op : Assign, op.known = true ∧ op.Follows behind := by
  constructor
  · rintro ⟨_, hr⟩
    obtain ⟨a, ha, b, hb, -⟩ := mem_readings_seq.mp hr
    obtain ⟨hlast, behind, rfl, rfl⟩ := (mem_readings_wordStart (isWord_head hv)).mp ha
    obtain ⟨a', ha', b', hb', -⟩ := mem_readings_seq.mp hb
    obtain ⟨g, rest, rfl, hg, rfl⟩ := mem_readings_run.mp ha'
    obtain ⟨op, c, rest', hknown, hc, rfl⟩ := exists_mem_sign.mp ⟨b', hb'⟩
    exact ⟨hlast, _, rfl, op, hknown, ⟨g, hg⟩, c, rest', hc, rfl⟩
  · rintro ⟨hlast, _, rfl, op, hknown, g, c, rest, hc, rfl⟩
    apply exists_seq ((mem_readings_wordStart (isWord_head hv)).mpr ⟨hlast, _, rfl, rfl⟩)
    apply exists_seq (mem_readings_run.mpr ⟨g.text, _, rfl, g.blank, rfl⟩)
    exact exists_mem_sign.mpr ⟨op, c, rest, hknown, hc, rfl⟩

/-- The search finds something exactly if some occurrence is followed by an operator that it knows. -/
theorem occursIn_anyAssignment_iff (hv : Switch.IsName v.toList) :
    (anyAssignment v).occursIn cs = true ↔ KnownAssigned v cs := by
  rw [occursIn_iff]
  constructor
  · rintro ⟨before, cs', r, rfl, hr⟩
    obtain ⟨hlast, behind, rfl, op, hknown, hfollows⟩ := (exists_mem_anyAssignment hv).mp ⟨r, hr⟩
    exact ⟨before, behind, ⟨rfl, hlast, hfollows.endsWord⟩, op, hknown, hfollows⟩
  · rintro ⟨before, behind, hoccurs, op, hknown, hfollows⟩
    obtain ⟨r, hr⟩ := (exists_mem_anyAssignment hv).mpr ⟨hoccurs.startsWord, behind, rfl, op, hknown, hfollows⟩
    exact ⟨before, _, r, hoccurs.split, hr⟩

end Search

/-! ### The idioms in front of the last one -/

/-- Every reading begins with the variable and an equals sign that no other follows. -/
def Assigning (v : String) (p : Pattern) : Prop :=
  ∀ (last : Option Char) (cs : List Char) (r : Reading), r ∈ p.readings last cs →
    last.any isWord = false ∧ ∃ behind, cs = v.toList ++ behind ∧ Assign.plain.Follows behind

/-- Every reading begins with a character that is no equals sign. -/
def Signless (p : Pattern) : Prop :=
  ∀ (last : Option Char) (cs : List Char) (r : Reading), r ∈ p.readings last cs → ∃ c rest, cs = c :: rest ∧ c ≠ '='

section Idioms
variable {v : String} {p q : Pattern}

theorem Assigning.seq (h : Assigning v p) : Assigning v (.seq p q) := by
  intro last cs r hr
  obtain ⟨a, ha, -⟩ := mem_readings_seq.mp hr
  exact h _ _ _ ha

theorem Signless.seq (h : Signless p) : Signless (.seq p q) := by
  intro last cs r hr
  obtain ⟨a, ha, -⟩ := mem_readings_seq.mp hr
  exact h _ _ _ ha

theorem signless_digits (k : Nat) : Signless (.group k digits) := by
  intro last cs r hr
  obtain ⟨t, rest, rfl, hne, hall, -⟩ := mem_readings_digits.mp hr
  cases t with
  | nil => exact absurd rfl hne
  | cons c t =>
    refine ⟨c, t ++ rest, rfl, ?_⟩
    rintro rfl
    exact absurd (List.all_eq_true.mp hall _ List.mem_cons_self) (by decide)

theorem signless_variable (hv : Switch.IsName v.toList) : Signless (literal v) := by
  intro last cs r hr
  obtain ⟨rest, rfl, -⟩ := mem_readings_literal.mp hr
  have hhead := isWord_head hv
  cases h : v.toList with
  | nil =>
    rw [h] at hhead
    cases hhead
  | cons c w =>
    refine ⟨c, w ++ rest, rfl, ?_⟩
    rintro rfl
    rw [h] at hhead
    exact absurd (show isWord '=' = true from hhead) (by decide)

theorem assigning_spaced (hv : Switch.IsName v.toList) (hq : Signless q) :
    Assigning v (spaced [wordStart v, char '=', q]) := by
  intro last cs r hr
  obtain ⟨a, ha, g, rest, hrest, _, b, hb, -⟩ := exists_of_mem_spaced hr
  obtain ⟨hlast, behind, rfl, rfl⟩ := (mem_readings_wordStart (isWord_head hv)).mp ha
  obtain ⟨a', ha', g', rest', hrest', _, b', hb', -⟩ := exists_of_mem_spaced hb
  obtain ⟨rest'', rfl, rfl⟩ := mem_readings_char.mp ha'
  obtain ⟨c, more, hmore, hc⟩ := hq _ _ _ hb'
  refine ⟨hlast, behind, rfl, ?_⟩
  obtain rfl : behind = g.text ++ '=' :: rest'' := hrest
  obtain rfl : rest'' = g'.text ++ rest' := hrest'
  obtain ⟨g', hg'⟩ := g'
  cases g' with
  | nil => exact ⟨g, c, more, hc, by rw [hmore]; rfl⟩
  | cons d g' =>
    refine ⟨g, d, g' ++ rest', ?_, rfl⟩
    rintro rfl
    exact absurd (List.all_eq_true.mp hg' _ List.mem_cons_self) (by decide)

theorem assigning_assignTo (hv : Switch.IsName v.toList) (hq : Signless q) : Assigning v (spaced [assignTo v, q]) := by
  intro last cs r hr
  rw [readings_assignTo] at hr
  exact assigning_spaced hv hq _ _ _ hr

theorem knownAssigned_of_find? {s : Scope} {m : Match} (h : Assigning v p) (hm : p.find? s.code = some m) :
    KnownAssigned v s.code := by
  obtain ⟨before, r, hstands, -⟩ := findFrom_eq_some hm
  obtain ⟨hlast, behind, hbehind, hfollows⟩ := h _ _ _ (mem_of_read? hstands.read)
  exact ⟨before, behind, ⟨hbehind ▸ hstands.split, hlast, hfollows.endsWord⟩, .plain, rfl, hfollows⟩

/-- An idiom in front of the last one reads only code that assigns the variable. -/
theorem knownAssigned_of_read (hv : Switch.IsName v.toList) {s : Scope} {i : Idiom Remap} (hi : i ∈ (chain v).idioms.dropLast)
    {r : Remap} (h : i.read s = some r) : KnownAssigned v s.code := by
  have hread : ∀ {name : String} {p : Pattern} {value : Match → Scope → Option Remap}, Assigning v p →
      (Idiom.ofPattern name p value).read s = some r → KnownAssigned v s.code := fun hp h => by
    obtain ⟨m, hm, -⟩ := Option.bind_eq_some_iff.mp h
    exact knownAssigned_of_find? hp hm
  simp only [chain, List.dropLast, List.mem_cons, List.not_mem_nil, or_false] at hi
  rcases hi with rfl | rfl | rfl | rfl | rfl
  · exact hread (assigning_spaced hv (signless_variable hv).seq) h
  · exact hread (assigning_spaced hv (signless_variable hv).seq) h
  · exact hread (assigning_assignTo hv (signless_digits 1).seq).seq h
  · exact hread (assigning_assignTo hv (signless_variable hv).seq).seq h
  · exact hread (assigning_assignTo hv (signless_digits 1).seq) h

end Idioms

/-! ### The last idiom -/

/-- The idiom for code that never assigns the variable. -/
def identity (v : String) : Idiom Remap :=
  ⟨"identity", fun s => if (anyAssignment v).occursIn s.code then none else some ⟨s.id, none⟩⟩

theorem idioms_eq (v : String) : (chain v).idioms = (chain v).idioms.dropLast ++ [identity v] := rfl

theorem name_ne_identity {v : String} {i : Idiom Remap} (hi : i ∈ (chain v).idioms.dropLast) : i.name ≠ "identity" := by
  have hnames : (chain v).idioms.dropLast.map Idiom.name =
      ["offset-plus-minus", "offset-minus-plus", "base-cycle", "self-cycle", "direct"] := rfl
  have hname : i.name ∈ (chain v).idioms.dropLast.map Idiom.name := List.mem_map_of_mem hi
  rw [hnames] at hname
  intro heq
  rw [heq] at hname
  exact absurd hname (by decide)

section Identity
variable {v : String} (hv : Switch.IsName v.toList)

include hv

theorem identity_read (s : Scope) :
    ((identity v).read s = none ↔ KnownAssigned v s.code) ∧ ∀ r, (identity v).read s = some r → r = ⟨s.id, none⟩ := by
  rw [← occursIn_anyAssignment_iff hv, identity]
  cases h : (anyAssignment v).occursIn s.code <;> simp [h, eq_comm]

theorem firstMatch?_of_not_knownAssigned {s : Scope} (h : ¬KnownAssigned v s.code) :
    (chain v).firstMatch? s = some ("identity", ⟨s.id, none⟩) := by
  obtain ⟨hnone, hvalue⟩ := identity_read hv s
  have hearlier : (chain v).idioms.dropLast.findSome? (fun i => (i.read s).map fun r => (i.name, r)) = none := by
    rw [List.findSome?_eq_none_iff]
    intro i hi
    cases hread : i.read s with
    | none => rfl
    | some r => exact absurd (knownAssigned_of_read hv hi hread) h
  obtain ⟨r, hr⟩ := Option.ne_none_iff_exists'.mp (mt hnone.mp h)
  rw [IdiomChain.firstMatch?, idioms_eq, List.findSome?_append, hearlier, Option.none_or, List.findSome?_singleton, hr,
    hvalue r hr]
  rfl

theorem not_knownAssigned_of_drawsItself {s : Scope} (h : DrawsItself v s) : ¬KnownAssigned v s.code := by
  obtain ⟨r, hr⟩ := h
  obtain ⟨i, hi, hread⟩ := List.exists_of_findSome?_eq_some hr
  obtain ⟨r', hr', hname⟩ := Option.map_eq_some_iff.mp hread
  rw [idioms_eq, List.mem_append, List.mem_singleton] at hi
  rcases hi with hi | rfl
  · exact absurd (Prod.mk.inj hname).1 (name_ne_identity hi)
  · intro hknown
    rw [(identity_read hv s).1.mpr hknown] at hr'
    cases hr'

/-- Code draws its sprite as itself exactly if no occurrence of the variable is followed by an operator that the search
    knows. So it does where the variable is only compared or does not stand at all, and where code stores into the
    variable it does not, unless the store is overlooked. -/
theorem drawsItself_iff_not_knownAssigned (s : Scope) :
    (DrawsItself v s ↔ ¬KnownAssigned v s.code) ∧
    ((∀ before behind, Occurs v s.code before behind → Compared before behind) →
      (chain v).firstMatch? s = some ("identity", ⟨s.id, none⟩)) ∧
    (((∃ before behind, Occurs v s.code before behind ∧ Stored before behind) → ¬DrawsItself v s) ↔
      ¬Overlooked v s.code) := by
  have hdraws : DrawsItself v s ↔ ¬KnownAssigned v s.code :=
    ⟨not_knownAssigned_of_drawsItself hv, fun h => ⟨_, firstMatch?_of_not_knownAssigned hv h⟩⟩
  refine ⟨hdraws, fun hcompared => firstMatch?_of_not_knownAssigned hv ?_, ?_⟩
  · rintro ⟨before, behind, hoccurs, op, -, hfollows⟩
    exact (hcompared before behind hoccurs).free op hfollows
  · rw [Overlooked, hdraws, not_and]

end Identity

/-- Code that compares the sprite on both sides and never assigns it. -/
def compared : List Char := "if (sprite <= 5 && 3 != sprite) light = 1;".toList

theorem drawsItself_iff_not_knownAssigned_compared :
    Switch.IsName "sprite".toList ∧ animatedChain.firstMatch? ⟨7, compared⟩ = some ("identity", ⟨7, none⟩) ∧
      ¬KnownAssigned "sprite" compared ∧ KnownAssigned "sprite" "sprite |= 4;".toList ∧
      ¬DrawsItself "sprite" ⟨7, "sprite |= 4;".toList⟩ := by
  have hname : Switch.IsName "sprite".toList := by decide
  have hread : animatedChain.firstMatch? ⟨7, compared⟩ = some ("identity", ⟨7, none⟩) := by decide +kernel
  have hknown : KnownAssigned "sprite" "sprite |= 4;".toList :=
    ⟨[], " |= 4;".toList, ⟨rfl, rfl, rfl⟩, .bitOr, rfl, .space, ' ', "4;".toList, by decide, rfl⟩
  have hdraws := fun code => (drawsItself_iff_not_knownAssigned hname ⟨7, code⟩).1
  exact ⟨hname, hread, (hdraws compared).mp ⟨_, hread⟩, hknown, fun h => (hdraws _).mp h hknown⟩

/-- Code that turns bits of the sprite is taken for code that never assigns it, and so is code that shifts or steps it. -/
theorem drawsItself_of_stored :
    (∃ before behind, Occurs "sprite" "sprite ^= 3;".toList before behind ∧ Stored before behind) ∧
      animatedChain.firstMatch? ⟨5, "sprite ^= 3;".toList⟩ = some ("identity", ⟨5, none⟩) ∧
      ∀ code ∈ ["sprite <<= 1;", "sprite >>= 1;", "sprite++;", "--sprite;"],
        animatedChain.firstMatch? ⟨5, code.toList⟩ = some ("identity", ⟨5, none⟩) := by
  refine ⟨⟨[], " ^= 3;".toList, ⟨rfl, rfl, rfl⟩, .assigned .bitXor ?_⟩, by decide +kernel, by decide +kernel⟩
  exact ⟨.space, ' ', "3;".toList, by decide, rfl⟩

end SpriteFacts.Remap
