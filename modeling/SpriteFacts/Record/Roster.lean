/-! Records by sprite number. A roster holds at most one record for each number, in ascending order.
    Adding a record of a number that is already there lays it over the record it finds, so for each
    field the last contribution wins. -/

namespace SpriteFacts

/-- Facts about one sprite that can be laid over each other. -/
class SpriteRecord (ρ : Type) where
  /-- The number of the sprite. -/
  number : ρ → Nat
  /-- The facts of the earlier record, with those that the later one states in their place. -/
  overlay : (earlier later : ρ) → ρ
  /-- The record states nothing worth keeping. -/
  isEmpty : ρ → Bool
  number_overlay : ∀ earlier later, number (overlay earlier later) = number earlier

open SpriteRecord

variable {ρ : Type} [SpriteRecord ρ]

def Ascending (records : List ρ) : Prop := records.Pairwise fun a b => number a < number b

/-- The records with one more in its place, laid over the record with its number if there is one. -/
def place (r : ρ) : List ρ → List ρ
  | [] => [r]
  | x :: xs =>
    if number r < number x then r :: x :: xs
    else if number r = number x then overlay x r :: xs
    else x :: place r xs

theorem number_mem_place {r y : ρ} : ∀ {xs : List ρ}, y ∈ place r xs → number y = number r ∨ ∃ x ∈ xs, number y = number x
  | [], h => by
    simp only [place, List.mem_singleton] at h
    exact Or.inl (h ▸ rfl)
  | x :: xs, h => by
    unfold place at h
    split at h
    · rcases List.mem_cons.mp h with rfl | h
      · exact Or.inl rfl
      · exact Or.inr ⟨y, h, rfl⟩
    · split at h
      · rcases List.mem_cons.mp h with rfl | h
        · exact Or.inr ⟨x, List.mem_cons_self, number_overlay x r⟩
        · exact Or.inr ⟨y, List.mem_cons_of_mem _ h, rfl⟩
      · rcases List.mem_cons.mp h with rfl | h
        · exact Or.inr ⟨y, List.mem_cons_self, rfl⟩
        · rcases number_mem_place h with h | ⟨z, hz, he⟩
          · exact Or.inl h
          · exact Or.inr ⟨z, List.mem_cons_of_mem _ hz, he⟩

theorem ascending_place (r : ρ) : ∀ {xs : List ρ}, Ascending xs → Ascending (place r xs)
  | [], _ => List.pairwise_singleton _ _
  | x :: xs, h => by
    obtain ⟨hx, hxs⟩ := List.pairwise_cons.mp h
    unfold place
    split
    · rename_i hlt
      refine List.pairwise_cons.mpr ⟨fun y hy => ?_, h⟩
      rcases List.mem_cons.mp hy with rfl | hy
      · exact hlt
      · exact Nat.lt_trans hlt (hx y hy)
    · split
      · refine List.pairwise_cons.mpr ⟨fun y hy => ?_, hxs⟩
        rw [number_overlay]
        exact hx y hy
      · refine List.pairwise_cons.mpr ⟨fun y hy => ?_, ascending_place r hxs⟩
        rcases number_mem_place hy with he | ⟨z, hz, he⟩
        · omega
        · rw [he]
          exact hx z hz

/-- Records with ascending numbers. -/
structure Roster (ρ : Type) [SpriteRecord ρ] where
  records : List ρ
  ascending : Ascending records

namespace Roster

def empty : Roster ρ := ⟨[], List.Pairwise.nil⟩

/-- The roster with a record added or laid over the record with its number. -/
def add (t : Roster ρ) (r : ρ) : Roster ρ := ⟨place r t.records, ascending_place r t.ascending⟩

def addAll (t : Roster ρ) (rs : List ρ) : Roster ρ := rs.foldl add t

def size (t : Roster ρ) : Nat := t.records.length

/-- The records that state something, in ascending order. -/
def finish (t : Roster ρ) : List ρ := t.records.filter fun r => !isEmpty r

theorem ascending_finish (t : Roster ρ) : Ascending t.finish := t.ascending.filter _

end Roster
end SpriteFacts
