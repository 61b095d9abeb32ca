import SpriteFacts.Text.Bytes

/-! Checked slices. A slice is only taken if its ends are in order, within the text and between two characters of it, and
    then it is what `slice` gives. -/

namespace SpriteFacts.Text

theorem isBoundary_iff {n : Nat} {cs : List Char} : IsBoundary n cs ↔ byteLength (takeBytes n cs) = n := by
  constructor
  · rintro ⟨before, after, rfl, rfl⟩
    rw [takeBytes_append]
  · intro h
    exact ⟨_, _, (takeBytes_append_dropBytes n cs).symm, h⟩

instance (n : Nat) (cs : List Char) : Decidable (IsBoundary n cs) := decidable_of_iff _ isBoundary_iff.symm

/-- The slice can be taken: `start ≤ stop ≤ length`, and both ends lie between characters. -/
def InBounds (start stop : Nat) (cs : List Char) : Prop :=
  start ≤ stop ∧ stop ≤ byteLength cs ∧ IsBoundary start cs ∧ IsBoundary stop cs

instance (start stop : Nat) (cs : List Char) : Decidable (InBounds start stop cs) := inferInstanceAs (Decidable (_ ∧ _))

/-- The text between two byte offsets; none if there is no such slice. -/
def slice? (start stop : Nat) (cs : List Char) : Option (List Char) :=
  if InBounds start stop cs then some (slice start stop cs) else none

theorem slice?_eq_some_iff {start stop : Nat} {cs t : List Char} :
    slice? start stop cs = some t ↔ InBounds start stop cs ∧ slice start stop cs = t := by
  rw [slice?]
  split <;> simp [*]

/-- A slice between two boundaries can be taken. -/
theorem slice?_of_boundaries {start stop : Nat} {cs : List Char} (hle : start ≤ stop) (hstart : IsBoundary start cs)
    (hstop : IsBoundary stop cs) : slice? start stop cs = some (slice start stop cs) := by
  obtain ⟨before, after, rfl, rfl⟩ := hstop
  exact slice?_eq_some_iff.mpr ⟨⟨hle, by simp, hstart, before, after, rfl, rfl⟩, rfl⟩

theorem slice?_append (as bs cs : List Char) :
    slice? (byteLength as) (byteLength as + byteLength bs) (as ++ (bs ++ cs)) = some bs := by
  have hstop : IsBoundary (byteLength as + byteLength bs) (as ++ (bs ++ cs)) :=
    ⟨as ++ bs, cs, (List.append_assoc as bs cs).symm, byteLength_append as bs⟩
  rw [slice?_of_boundaries (Nat.le_add_right _ _) ⟨as, _, rfl, rfl⟩ hstop, slice, Nat.add_sub_cancel_left, dropBytes_append,
    takeBytes_append]

theorem slice?_take {n : Nat} {cs : List Char} (h : IsBoundary n cs) : slice? 0 n cs = some (takeBytes n cs) := by
  have hzero : IsBoundary 0 cs := ⟨[], cs, rfl, rfl⟩
  rw [slice?_of_boundaries (Nat.zero_le n) hzero h, slice, dropBytes_zero, Nat.sub_zero]

theorem slice?_drop {n : Nat} {cs : List Char} (h : IsBoundary n cs) : slice? n (byteLength cs) cs = some (dropBytes n cs) := by
  obtain ⟨before, after, rfl, rfl⟩ := h
  have hslice := slice?_append before after []
  rw [List.append_nil, ← byteLength_append] at hslice
  rw [hslice, dropBytes_append]

end SpriteFacts.Text
