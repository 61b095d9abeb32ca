import SpriteFacts.Proofs.Idiom.Chain
import SpriteFacts.Proofs.Text.Numeral
import SpriteFacts.Proofs.Variant.AssignedExpression
import SpriteFacts.Variant.Remap

/-! How the remap of a sprite depends on its number. An idiom gives all numbers one base, or each number one at the same
    distance. Only the two idioms that count a literal in and another one out look at the size of the number, because
    their sums have to stay in the range of integers. So one idiom reads the code for all numbers of a list unless such a
    sum leaves the range for one of the numbers and not for another, and then the bases follow one rule. -/

namespace SpriteFacts.Remap

open Text Pattern

/-! ### Rules -/

/-- How a base follows from the number of the sprite. -/
inductive Rule where
  | fixed (base : Int)
  | moved (distance : Int)

def Rule.base (id : Nat) : Rule → Int
  | fixed base => base
  | moved distance => id + distance

/-- For all numbers of a list nothing is read, or one idiom gives bases by one rule, and one animation. -/
inductive Level (ids : List Nat) (read : Nat → Option (String × Remap)) : Prop where
  | unread (h : ∀ id ∈ ids, read id = none)
  | ruled (name : String) (rule : Rule) (animation : Option Animation)
      (h : ∀ id ∈ ids, read id = some (name, ⟨rule.base id, animation⟩))

/-- What an idiom reads in the code for a number, with its name. -/
def named (i : Idiom Remap) (code : List Char) (id : Nat) : Option (String × Remap) :=
  (i.read ⟨id, code⟩).map fun r => (i.name, r)

section Level
variable {ids : List Nat} {code : List Char} {i : Idiom Remap} {is : List (Idiom Remap)}

/-- A chain of level idioms is level. -/
theorem level_firstMatch? (field : String) (h : ∀ i ∈ is, Level ids (named i code)) :
    Level ids fun id => IdiomChain.firstMatch? ⟨field, is⟩ ⟨id, code⟩ := by
  induction is with
  | nil => exact .unread fun _ _ => rfl
  | cons i is ih =>
    simp only [IdiomChain.firstMatch?_cons]
    cases h i List.mem_cons_self with
    | ruled name rule animation hi =>
      exact .ruled name rule animation fun id hid => congrArg (Option.or · _) (hi id hid)
    | unread hi =>
      have hskip : ∀ id ∈ ids, ∀ o, (named i code id).or o = o := fun id hid o => by rw [hi id hid]; rfl
      cases ih fun j hj => h j (List.mem_cons_of_mem i hj) with
      | unread hrest => exact .unread fun id hid => (hskip id hid _).trans (hrest id hid)
      | ruled name rule animation hrest => exact .ruled name rule animation fun id hid => (hskip id hid _).trans (hrest id hid)

/-- An idiom that does not look at the number. -/
theorem level_of_blind (h : ∀ id, i.read ⟨id, code⟩ = i.read ⟨0, code⟩) : Level ids (named i code) := by
  cases hread : i.read ⟨0, code⟩ with
  | none => exact .unread fun id _ => by rw [named, h, hread]; rfl
  | some r => exact .ruled i.name (.fixed r.base) r.animation fun id _ => by rw [named, h, hread]; rfl

/-- An idiom whose base is the sprite itself. -/
theorem level_of_own (animation : Option (Option Animation))
    (h : ∀ id : Nat, i.read ⟨id, code⟩ = animation.map fun a => ⟨id, a⟩) :
    Level ids (named i code) := by
  cases animation with
  | none => exact .unread fun id _ => by rw [named, h]; rfl
  | some a =>
    refine .ruled i.name (.moved 0) a fun id _ => ?_
    rw [named, h, Rule.base, Int.add_zero]
    rfl

end Level

/-! ### The idioms of a chain -/

section Chain
variable {v : String} {code : List Char} {first second : Char} {id : Nat} {ids : List Nat} {a b : Int} {r : Remap}

def raising (v : String) : Idiom Remap := (chain v).idioms.get ⟨0, Nat.zero_lt_succ 5⟩

def lowering (v : String) : Idiom Remap := (chain v).idioms.get ⟨1, Nat.succ_lt_succ (Nat.zero_lt_succ 4)⟩

/-- The idioms that do not look at the size of the number. -/
def sizeless (v : String) : List (Idiom Remap) := (chain v).idioms.drop 2

theorem chain_eq (v : String) : chain v = ⟨"base_sprite", raising v :: lowering v :: sizeless v⟩ := rfl

theorem level_sizeless {i : Idiom Remap} (hi : i ∈ sizeless v) : Level ids (named i code) := by
  simp only [sizeless, chain, List.drop, List.mem_cons, List.not_mem_nil, or_false] at hi
  rcases hi with rfl | rfl | rfl | rfl
  · exact level_of_blind fun _ => rfl
  · refine level_of_own (((seq (spaced [assignTo v, literal v, char '+']) (laterModulus 1)).find? code).bind fun m =>
      (m.word? 1).map fun frames => (cycling 0 frames code).animation) fun id => ?_
    show (Pattern.find? _ code).bind _ = _
    rw [Option.map_bind]
    refine Option.bind_congr fun m _ => ?_
    show ((m.word? 1).bind fun frames => some (cycling id frames code)) = ((m.word? 1).map _).map _
    cases m.word? 1 <;> rfl
  · exact level_of_blind fun _ => rfl
  · refine level_of_own (if (anyAssignment v).occursIn code then none else some none) fun id => ?_
    show (if (anyAssignment v).occursIn code then none else some (⟨id, none⟩ : Remap)) = _
    split <;> rfl

/-! ### Sums in range -/

/-- The literals that the first assignment of a shift counts in and out. -/
def literals? (v : String) (first second : Char) (code : List Char) : Option (Int × Int) :=
  ((shifted v first second).find? code).bind fun m => (m.integer? 1).bind fun a => (m.integer? 2).map fun b => (a, b)

theorem digits_of_mem_shifted {last : Option Char} {cs : List Char} {r : Reading}
    (h : r ∈ (shifted v first second).readings last cs) :
    ∃ a b : DigitRun, r.kept = [(2, b.digits), (1, a.digits)] := by
  obtain ⟨_, h1, _, _, -, _, _, t1, rfl⟩ := exists_of_mem_spaced h
  obtain ⟨_, h2, _, _, -, _, _, t2, rfl⟩ := exists_of_mem_spaced t1
  obtain ⟨_, h3, _, _, -, _, _, t3, rfl⟩ := exists_of_mem_spaced t2
  obtain ⟨_, h4, _, _, -, _, _, t4, rfl⟩ := exists_of_mem_spaced t3
  obtain ⟨_, h5, _, _, -, _, _, t5, rfl⟩ := exists_of_mem_spaced t4
  obtain ⟨_, h6, _, _, -, _, _, t6, rfl⟩ := exists_of_mem_spaced t5
  obtain ⟨_, h7, _, _, -, _, _, h8, rfl⟩ := exists_of_mem_spaced t6
  obtain ⟨_, hedge, _, hname, rfl⟩ := mem_readings_seq.mp h1
  obtain ⟨-, rfl⟩ := mem_readings_wordEdge.mp hedge
  obtain ⟨_, -, rfl⟩ := mem_readings_literal.mp hname
  obtain ⟨_, -, rfl⟩ := mem_readings_char.mp h2
  obtain ⟨_, -, rfl⟩ := mem_readings_literal.mp h3
  obtain ⟨_, -, rfl⟩ := mem_readings_char.mp h4
  obtain ⟨a, _, -, ha, haDigits, rfl⟩ := mem_readings_digits.mp h5
  obtain ⟨_, -, rfl⟩ := mem_readings_char.mp h6
  obtain ⟨b, _, -, hb, hbDigits, rfl⟩ := mem_readings_digits.mp h7
  obtain ⟨_, -, rfl⟩ := mem_readings_char.mp h8
  exact ⟨⟨a, ha, haDigits⟩, ⟨b, hb, hbDigits⟩, by simp [Reading.append]⟩

theorem range_of_literals? (h : literals? v first second code = some (a, b)) :
    (0 ≤ a ∧ a ≤ maxInteger) ∧ 0 ≤ b ∧ b ≤ maxInteger := by
  obtain ⟨m, hm, hliterals⟩ := Option.bind_eq_some_iff.mp h
  obtain ⟨a, ha, hmap⟩ := Option.bind_eq_some_iff.mp hliterals
  obtain ⟨b, hb, heq⟩ := Option.map_eq_some_iff.mp hmap
  obtain ⟨rfl, rfl⟩ := Prod.mk.inj heq
  obtain ⟨before, r, hstands, -⟩ := findFrom_eq_some hm
  obtain ⟨x, y, hkept⟩ := digits_of_mem_shifted (mem_of_read? hstands.read)
  have hx : m.integer? 1 = integer? x.digits := by
    rw [hstands.match_eq, Match.integer?, Match.group?, Reading.toMatch, hkept]
    rfl
  have hy : m.integer? 2 = integer? y.digits := by
    rw [hstands.match_eq, Match.integer?, Match.group?, Reading.toMatch, hkept]
    rfl
  obtain ⟨-, hxmax, rfl⟩ := x.integer?_eq_some.mp (hx.symm.trans ha)
  obtain ⟨-, hymax, rfl⟩ := y.integer?_eq_some.mp (hy.symm.trans hb)
  exact ⟨⟨Int.natCast_nonneg _, hxmax⟩, Int.natCast_nonneg _, hymax⟩

/-- The code counts a literal in and then another one out, and the sums are in the range of integers for the number. -/
def Raises (v : String) (code : List Char) (id : Nat) : Prop :=
  ∃ a b, literals? v '+' '-' code = some (a, b) ∧ id + a ≤ maxInteger

/-- The code counts a literal out and then another one in, and the sums are in the range of integers for the number. -/
def Lowers (v : String) (code : List Char) (id : Nat) : Prop :=
  ∃ a b, literals? v '-' '+' code = some (a, b) ∧ id - a + b ≤ maxInteger

/-- An idiom of a shift forms its sums one after the other. -/
theorem read_shift (name : String) (step step' : Int → Int → Int) (id : Nat) (code : List Char) :
    (Idiom.ofPattern name (shifted v first second) fun m s => do
      let a ← m.integer? 1
      let b ← m.integer? 2
      let between ← fitInteger? (step s.id a)
      let base ← fitInteger? (step' between b)
      some (⟨base, none⟩ : Remap)).read ⟨id, code⟩ =
    (literals? v first second code).bind fun l => (fitInteger? (step id l.1)).bind fun between =>
      (fitInteger? (step' between l.2)).bind fun base => some ⟨base, none⟩ := by
  show ((shifted v first second).find? code).bind _ = _
  rw [literals?, Option.bind_assoc]
  refine Option.bind_congr fun m _ => ?_
  show ((m.integer? 1).bind fun a => (m.integer? 2).bind fun b => _) = _
  rw [Option.bind_assoc]
  refine Option.bind_congr fun a _ => ?_
  rw [Option.bind_map]
  rfl

theorem fitInteger?_of_range {n : Int} (hmin : minInteger ≤ n) (hmax : n ≤ maxInteger) : fitInteger? n = some n :=
  fitInteger?_eq_some.mpr ⟨rfl, hmin, hmax⟩

theorem fitInteger?_of_lt {n : Int} (h : maxInteger < n) : fitInteger? n = none :=
  Option.eq_none_iff_forall_ne_some.mpr fun m hm => by
    obtain ⟨-, -, hmax⟩ := fitInteger?_eq_some.mp hm
    omega

theorem read_raising : (raising v).read ⟨id, code⟩ =
    (literals? v '+' '-' code).bind fun l => if id + l.1 ≤ maxInteger then some ⟨id + (l.1 - l.2), none⟩ else none := by
  refine (read_shift "offset-plus-minus" (· + ·) (· - ·) id code).trans (Option.bind_congr fun ⟨a, b⟩ h => ?_)
  obtain ⟨⟨ha, -⟩, hb, hbmax⟩ := range_of_literals? h
  have hmin : minInteger = -9223372036854775808 := rfl
  have hmax : maxInteger = 9223372036854775807 := rfl
  show ((fitInteger? (id + a)).bind fun between => (fitInteger? (between - b)).bind _) = if id + a ≤ maxInteger then _ else _
  by_cases hle : id + a ≤ maxInteger
  · rw [if_pos hle, fitInteger?_of_range (by omega) hle, Option.bind_some, fitInteger?_of_range (by omega) (by omega),
      Option.bind_some, Int.add_sub_assoc]
  · rw [if_neg hle, fitInteger?_of_lt (by omega), Option.bind_none]

theorem read_lowering (hid : id ≤ maxWord) : (lowering v).read ⟨id, code⟩ =
    (literals? v '-' '+' code).bind fun l => if id - l.1 + l.2 ≤ maxInteger then some ⟨id + (l.2 - l.1), none⟩ else none := by
  refine (read_shift "offset-minus-plus" (· - ·) (· + ·) id code).trans (Option.bind_congr fun ⟨a, b⟩ h => ?_)
  obtain ⟨⟨ha, hamax⟩, hb, -⟩ := range_of_literals? h
  have hmin : minInteger = -9223372036854775808 := rfl
  have hmax : maxInteger = 9223372036854775807 := rfl
  have hword : maxWord = 4294967295 := rfl
  show ((fitInteger? (id - a)).bind fun between => (fitInteger? (between + b)).bind _) =
    if id - a + b ≤ maxInteger then _ else _
  rw [fitInteger?_of_range (by omega) (by omega), Option.bind_some]
  by_cases hle : id - a + b ≤ maxInteger
  · rw [if_pos hle, fitInteger?_of_range (by omega) hle, Option.bind_some, show (id : Int) - a + b = id + (b - a) by omega]
  · rw [if_neg hle, fitInteger?_of_lt (by omega), Option.bind_none]

/-! ### One idiom for all numbers -/

/-- It holds of one number and not of another. -/
def Mixed (P : Nat → Prop) (ids : List Nat) : Prop := (∃ id ∈ ids, P id) ∧ ∃ id ∈ ids, ¬P id

theorem not_mixed {P : Nat → Prop} (h : ¬Mixed P ids) : (∀ id ∈ ids, P id) ∨ ∀ id ∈ ids, ¬P id := by
  by_cases hall : ∀ id ∈ ids, P id
  · exact Or.inl hall
  · obtain ⟨id', hid', hnot⟩ : ∃ id ∈ ids, ¬P id := by simpa using hall
    exact Or.inr fun id hid hP => h ⟨⟨id, hid, hP⟩, id', hid', hnot⟩

theorem Mixed.congr {P Q : Nat → Prop} (h : Mixed P ids) (same : ∀ id ∈ ids, (P id ↔ Q id)) : Mixed Q ids := by
  obtain ⟨⟨id, hid, hP⟩, id', hid', hnot⟩ := h
  exact ⟨⟨id, hid, (same id hid).mp hP⟩, id', hid', mt (same id' hid').mpr hnot⟩

section Bounded
variable {literals : Option (Int × Int)}

theorem isSome_bounded (peak : Int × Int → Int) {f : Int × Int → Remap} :
    (literals.bind fun l => if peak l ≤ maxInteger then some (f l) else none).isSome = true ↔
      ∃ a b, literals = some (a, b) ∧ peak (a, b) ≤ maxInteger := by
  cases literals with
  | none => exact iff_of_false Bool.false_ne_true fun ⟨_, _, h, _⟩ => nomatch h
  | some l =>
    rw [Option.bind_some]
    split
    · rename_i hle
      exact iff_of_true rfl ⟨l.1, l.2, rfl, hle⟩
    · rename_i hnot
      refine iff_of_false Bool.false_ne_true fun ⟨a, b, heq, hle⟩ => hnot ?_
      rw [Option.some.inj heq]
      exact hle

/-- A shift that reads the code for all numbers or for none is level. -/
theorem level_bounded {i : Idiom Remap} (peak : Nat → Int × Int → Int) {distance : Int × Int → Int}
    (hread : ∀ id ∈ ids, i.read ⟨id, code⟩ =
      literals.bind fun l => if peak id l ≤ maxInteger then some ⟨id + distance l, none⟩ else none)
    (h : ¬Mixed (fun id => (i.read ⟨id, code⟩).isSome = true) ids) : Level ids (named i code) := by
  rcases not_mixed h with hall | hnone
  · cases literals with
    | none => exact .unread fun id hid => by rw [named, hread id hid]; rfl
    | some l =>
      refine .ruled i.name (.moved (distance l)) none fun id hid => ?_
      have hsome := hall id hid
      rw [hread id hid, Option.bind_some] at hsome
      rw [named, hread id hid, Option.bind_some]
      split at hsome
      · rename_i hle
        rw [if_pos hle]
        rfl
      · cases hsome
  · exact .unread fun id hid => by rw [named, Option.not_isSome_iff_eq_none.mp (hnone id hid)]; rfl

end Bounded

theorem isSome_raising : ((raising v).read ⟨id, code⟩).isSome = true ↔ Raises v code id := by
  rw [read_raising]
  exact isSome_bounded fun l => id + l.1

theorem isSome_lowering (hid : id ≤ maxWord) : ((lowering v).read ⟨id, code⟩).isSome = true ↔ Lowers v code id := by
  rw [read_lowering hid]
  exact isSome_bounded fun l => id - l.1 + l.2

/-- The sums of the idiom that reads the code for some of the numbers leave the range of integers for others. -/
def Divides (v : String) (code : List Char) (ids : List Nat) : Prop :=
  Mixed (Raises v code) ids ∨ (∀ id ∈ ids, ¬Raises v code id) ∧ Mixed (Lowers v code) ids

theorem level_chain (hids : ∀ id ∈ ids, id ≤ maxWord) (h : ¬Divides v code ids) :
    Level ids fun id => (chain v).firstMatch? ⟨id, code⟩ := by
  have hraises : ¬Mixed (fun id => ((raising v).read ⟨id, code⟩).isSome = true) ids := fun hmixed =>
    h (Or.inl (hmixed.congr fun _ _ => isSome_raising))
  cases level_bounded (fun id l => id + l.1) (fun _ _ => read_raising) hraises with
  | ruled name rule animation hread =>
    refine .ruled name rule animation fun id hid => ?_
    rw [chain_eq, IdiomChain.firstMatch?_cons]
    exact congrArg (Option.or · _) (hread id hid)
  | unread hread =>
    have hnone : ∀ id ∈ ids, ¬Raises v code id := fun id hid hraises => by
      have hsome := isSome_raising.mpr hraises
      rw [Option.map_eq_none_iff.mp (hread id hid)] at hsome
      cases hsome
    have hlowers : ¬Mixed (fun id => ((lowering v).read ⟨id, code⟩).isSome = true) ids := fun hmixed =>
      h (Or.inr ⟨hnone, hmixed.congr fun id hid => isSome_lowering (hids id hid)⟩)
    refine level_firstMatch? _ fun i hi => ?_
    rcases List.mem_cons.mp hi with rfl | hi
    · exact .unread hread
    · rcases List.mem_cons.mp hi with rfl | hi
      · exact level_bounded (fun id l => id - l.1 + l.2) (fun id hid => read_lowering (hids id hid)) hlowers
      · exact level_sizeless hi

/-- The name of the idiom that reads the code for a number. -/
def reader (v : String) (code : List Char) (id : Nat) : Option String := ((chain v).firstMatch? ⟨id, code⟩).map (·.1)

theorem reader_raising : reader v code id = some (raising v).name ↔ Raises v code id := by
  have hname : ∀ j ∈ lowering v :: sizeless v, j.name ≠ (raising v).name := by
    simp [lowering, sizeless, raising, chain, Idiom.ofPattern]
  rw [reader, chain_eq, IdiomChain.name_firstMatch?_cons hname, isSome_raising]

theorem reader_lowering (hid : id ≤ maxWord) (hnot : ¬Raises v code id) :
    reader v code id = some (lowering v).name ↔ Lowers v code id := by
  have hname : ∀ j ∈ sizeless v, j.name ≠ (lowering v).name := by
    simp [lowering, sizeless, chain, Idiom.ofPattern]
  have hnone : (raising v).read ⟨id, code⟩ = none := Option.not_isSome_iff_eq_none.mp (mt isSome_raising.mp hnot)
  rw [reader, chain_eq, IdiomChain.firstMatch?_cons, hnone, Option.map_none, Option.none_or,
    IdiomChain.name_firstMatch?_cons hname, isSome_lowering hid]

/-- The numbers are read by several idioms, or some of them by none, exactly if the code divides them. -/
theorem readers_differ_iff (hids : ∀ id ∈ ids, id ≤ maxWord) :
    (∃ id ∈ ids, ∃ id' ∈ ids, reader v code id ≠ reader v code id') ↔ Divides v code ids := by
  constructor
  · rintro ⟨id, hid, id', hid', hne⟩
    refine Classical.byContradiction fun hundivided => ?_
    cases level_chain hids hundivided with
    | unread h => exact hne (by rw [reader, reader, h id hid, h id' hid'])
    | ruled name rule animation h => exact hne (by rw [reader, reader, h id hid, h id' hid']; rfl)
  · rintro (⟨⟨id, hid, hraises⟩, id', hid', hnot⟩ | ⟨hnone, ⟨id, hid, hlowers⟩, id', hid', hnot⟩)
    · exact ⟨id, hid, id', hid', fun heq => hnot (reader_raising.mp (heq ▸ reader_raising.mpr hraises))⟩
    · refine ⟨id, hid, id', hid', fun heq => hnot ?_⟩
      refine (reader_lowering (hids id' hid') (hnone id' hid')).mp (heq ▸ ?_)
      exact (reader_lowering (hids id hid) (hnone id hid)).mpr hlowers

end Chain

end SpriteFacts.Remap
