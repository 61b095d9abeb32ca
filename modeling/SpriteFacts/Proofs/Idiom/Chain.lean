import SpriteFacts.Idiom.Chain
import SpriteFacts.Proofs.Pattern.WordStart

/-! What a chain gives. Idioms that read nothing may be left out of a chain, and the first that reads a value
    decides. An idiom whose pattern needs a character reads nothing in code without it. -/

namespace SpriteFacts

open Text Pattern

variable {α : Type} {s : Scope}

namespace IdiomChain

theorem firstMatch?_eq_none {chain : IdiomChain α} (h : ∀ i ∈ chain.idioms, i.read s = none) : chain.firstMatch? s = none := by
  rw [firstMatch?, List.findSome?_eq_none_iff]
  intro i hi
  rw [h i hi, Option.map_none]

/-- Idioms that read nothing may be left out. -/
theorem firstMatch?_append_of_none (field : String) {is : List (Idiom α)} (js : List (Idiom α)) (h : ∀ i ∈ is, i.read s = none) :
    firstMatch? ⟨field, is ++ js⟩ s = firstMatch? ⟨field, js⟩ s := by
  have hnone : is.findSome? (fun i => (i.read s).map fun v => (i.name, v)) = none := @firstMatch?_eq_none α s ⟨field, is⟩ h
  rw [firstMatch?, firstMatch?, List.findSome?_append, hnone, Option.none_or]

theorem value?_append_of_none {field : String} {is js : List (Idiom α)} (h : ∀ i ∈ is, i.read s = none) :
    value? ⟨field, is ++ js⟩ s = value? ⟨field, js⟩ s := by
  rw [value?, value?, firstMatch?_append_of_none field js h]

/-- A value of the chain is read by one of its idioms. -/
theorem exists_of_value? {chain : IdiomChain α} {v : α} (h : chain.value? s = some v) :
    ∃ i ∈ chain.idioms, i.read s = some v := by
  obtain ⟨⟨name, w⟩, hfirst, rfl⟩ := Option.map_eq_some_iff.mp h
  obtain ⟨i, hi, hread⟩ := List.exists_of_findSome?_eq_some hfirst
  obtain ⟨w', hw, heq⟩ := Option.map_eq_some_iff.mp hread
  obtain ⟨-, rfl⟩ := Prod.mk.inj heq
  exact ⟨i, hi, hw⟩

theorem value?_of_some {field : String} {i : Idiom α} {is : List (Idiom α)} {v : α} (h : i.read s = some v) :
    value? ⟨field, i :: is⟩ s = some v := by
  rw [value?, firstMatch?, List.findSome?_cons, h]
  rfl

theorem value?_cons_of_none {field : String} {i : Idiom α} {is : List (Idiom α)} (h : i.read s = none) :
    value? ⟨field, i :: is⟩ s = value? ⟨field, is⟩ s :=
  @value?_append_of_none α s field [i] is (List.forall_mem_singleton.mpr h)

theorem firstMatch?_cons (field : String) (i : Idiom α) (is : List (Idiom α)) (s : Scope) :
    firstMatch? ⟨field, i :: is⟩ s = ((i.read s).map fun v => (i.name, v)).or (firstMatch? ⟨field, is⟩ s) := by
  rw [firstMatch?, List.findSome?_cons]
  cases (i.read s).map fun v => (i.name, v) <;> rfl

/-- Behind idioms that read nothing, one that reads a value decides. -/
theorem firstMatch?_of_read (field : String) {is : List (Idiom α)} (i : Idiom α) (js : List (Idiom α)) {v : α}
    (hnone : ∀ j ∈ is, j.read s = none) (hread : i.read s = some v) :
    firstMatch? ⟨field, is ++ i :: js⟩ s = some (i.name, v) := by
  rw [firstMatch?_append_of_none field _ hnone, firstMatch?_cons, hread]
  rfl

/-- The first idiom is the one that reads the code if it can, provided that no other has its name. -/
theorem name_firstMatch?_cons {field : String} {i : Idiom α} {is : List (Idiom α)} (h : ∀ j ∈ is, j.name ≠ i.name) :
    (firstMatch? ⟨field, i :: is⟩ s).map (·.1) = some i.name ↔ (i.read s).isSome = true := by
  rw [firstMatch?_cons]
  cases i.read s with
  | some v => exact iff_of_true rfl rfl
  | none =>
    refine iff_of_false (fun hname => ?_) Bool.false_ne_true
    obtain ⟨⟨name, v⟩, hfirst, rfl⟩ := Option.map_eq_some_iff.mp hname
    obtain ⟨j, hj, hread⟩ := List.exists_of_findSome?_eq_some hfirst
    obtain ⟨w, -, heq⟩ := Option.map_eq_some_iff.mp hread
    exact h j hj (Prod.mk.inj heq).1

theorem value?_singleton (field : String) (i : Idiom α) (s : Scope) : value? ⟨field, [i]⟩ s = i.read s := by
  rw [value?, firstMatch?, List.findSome?_cons]
  cases i.read s <;> rfl

/-! ### Idioms of which one at most reads the code -/

/-- No two of the idioms read the code. -/
def Apart (is : List (Idiom α)) (s : Scope) : Prop :=
  ∀ i ∈ is, ∀ j ∈ is, (i.read s).isSome = true → (j.read s).isSome = true → i = j

theorem firstMatch?_of_apart {chain : IdiomChain α} {name : String} {v : α} (apart : Apart chain.idioms s) :
    chain.firstMatch? s = some (name, v) ↔ ∃ i ∈ chain.idioms, i.name = name ∧ i.read s = some v := by
  constructor
  · intro h
    obtain ⟨i, hi, hread⟩ := List.exists_of_findSome?_eq_some h
    obtain ⟨w, hw, heq⟩ := Option.map_eq_some_iff.mp hread
    obtain ⟨hname, rfl⟩ := Prod.mk.inj heq
    exact ⟨i, hi, hname, hw⟩
  · rintro ⟨i, hi, rfl, hread⟩
    have hsome : (chain.firstMatch? s).isSome = true := by
      rw [firstMatch?, List.findSome?_isSome_iff]
      exact ⟨i, hi, by rw [hread]; rfl⟩
    obtain ⟨found, hfound⟩ := Option.isSome_iff_exists.mp hsome
    obtain ⟨j, hj, hmap⟩ := List.exists_of_findSome?_eq_some hfound
    obtain ⟨w, hw, rfl⟩ := Option.map_eq_some_iff.mp hmap
    obtain rfl := apart i hi j hj (by rw [hread]; rfl) (by rw [hw]; rfl)
    rw [hfound, Option.some.inj (hw.symm.trans hread)]

/-- Then their order does not matter. -/
theorem firstMatch?_perm {chain chain' : IdiomChain α} (apart : Apart chain.idioms s) (same : chain'.idioms.Perm chain.idioms) :
    chain'.firstMatch? s = chain.firstMatch? s := by
  have apart' : Apart chain'.idioms s := fun i hi j hj => apart i (same.subset hi) j (same.subset hj)
  refine Option.ext fun ⟨name, v⟩ => ?_
  rw [firstMatch?_of_apart apart, firstMatch?_of_apart apart']
  exact exists_congr fun i => and_congr_left' same.mem_iff

end IdiomChain

namespace Idiom
variable {name : String} {p : Pattern} {value : Match → Scope → Option α}

theorem read_of_find?_none (h : p.find? s.code = none) : (ofPattern name p value).read s = none := by
  show (p.find? s.code).bind _ = none
  rw [h, Option.bind_none]

theorem read_of_needs {c : Char} (h : Needs c p) (hc : c ∉ s.code) : (ofPattern name p value).read s = none :=
  read_of_find?_none (h.find?_eq_none hc)

end Idiom

end SpriteFacts
