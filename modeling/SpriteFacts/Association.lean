/-! Association lists in which a key keeps its place: a new value for a key replaces the old one where it
    stands, and a new key goes to the end. -/

namespace SpriteFacts.Association

variable {κ ν : Type} [BEq κ]

def put (key : κ) (value : ν) : List (κ × ν) → List (κ × ν)
  | [] => [(key, value)]
  | e :: es => if key == e.1 then (key, value) :: es else e :: put key value es

theorem lookup_put [LawfulBEq κ] [DecidableEq κ] (key : κ) (value : ν) (es : List (κ × ν)) (k : κ) :
    (put key value es).lookup k = if k = key then some value else es.lookup k := by
  induction es with
  | nil => by_cases h : k = key <;> simp [put, List.lookup_cons, beq_eq_false_iff_ne.mpr, h]
  | cons e es ih =>
    obtain ⟨a, v⟩ := e
    by_cases he : key = a
    · subst he
      by_cases hk : k = key <;> simp [put, List.lookup_cons, beq_eq_false_iff_ne.mpr, hk]
    · by_cases hk : k = a
      · subst hk
        simp [put, beq_eq_false_iff_ne.mpr he, Ne.symm he]
      · simp only [put, beq_eq_false_iff_ne.mpr he, Bool.false_eq_true, if_false, List.lookup_cons,
          beq_eq_false_iff_ne.mpr hk]
        exact ih

end SpriteFacts.Association
