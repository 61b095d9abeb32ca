import SpriteFacts.Proofs.Text.Utf8
import SpriteFacts.Report.Diagnostic

/-! The order of a report. Diagnostics are sorted by their line and then by the bytes of the function's name. The sort keeps
    all of them, and those that it cannot tell apart stay in the order in which they arose. -/

namespace SpriteFacts.Diagnostic

open Text

/-- What a diagnostic is sorted by: its line, or 0, and the bytes of the function's name. -/
def key (d : Diagnostic) : Nat × List UInt8 := (d.line.getD 0, utf8 d.function.toList)

/-- The first diagnostic may stand in front of the second. -/
def KeyLe (a b : Diagnostic) : Prop := a.key.1 < b.key.1 ∨ a.key.1 = b.key.1 ∧ a.key.2 ≤ b.key.2

/-- The second list is the first one in the order of a report. -/
structure Sorted (ds sorted : List Diagnostic) : Prop where
  perm : sorted.Perm ds
  ordered : sorted.Pairwise KeyLe
  stable : ∀ k, sorted.filter (fun d => d.key = k) = ds.filter fun d => d.key = k

theorem sortsBefore_iff {a b : Diagnostic} :
    a.sortsBefore b = true ↔ a.key.1 < b.key.1 ∨ a.key.1 = b.key.1 ∧ a.function ≤ b.function := by
  simp only [sortsBefore, Bool.or_eq_true, decide_eq_true_eq, Bool.and_eq_true, beq_iff_eq, Bool.not_eq_true', decide_eq_false_iff_not]
  exact Iff.rfl

theorem keyLe_iff {a b : Diagnostic} : KeyLe a b ↔ a.sortsBefore b = true := by
  rw [sortsBefore_iff]
  exact or_congr_right (and_congr_right fun _ => not_congr utf8_lt_iff)

theorem sortsBefore_trans (a b c : Diagnostic) (hab : a.sortsBefore b = true) (hbc : b.sortsBefore c = true) :
    a.sortsBefore c = true := by
  rw [sortsBefore_iff] at hab hbc ⊢
  rcases hab with hab | ⟨hab, hname⟩
  · rcases hbc with hbc | ⟨hbc, -⟩
    · exact Or.inl (Nat.lt_trans hab hbc)
    · exact Or.inl (hbc ▸ hab)
  · rcases hbc with hbc | ⟨hbc, hname'⟩
    · exact Or.inl (hab ▸ hbc)
    · exact Or.inr ⟨hab.trans hbc, String.le_trans hname hname'⟩

theorem sortsBefore_total (a b : Diagnostic) : (a.sortsBefore b || b.sortsBefore a) = true := by
  rw [Bool.or_eq_true, sortsBefore_iff, sortsBefore_iff]
  rcases Nat.lt_trichotomy a.key.1 b.key.1 with hlt | heq | hgt
  · exact Or.inl (Or.inl hlt)
  · rcases String.le_total a.function b.function with hle | hle
    · exact Or.inl (Or.inr ⟨heq, hle⟩)
    · exact Or.inr (Or.inr ⟨heq.symm, hle⟩)
  · exact Or.inr (Or.inl hgt)

/-- Diagnostics that have the same key stay in their order, since they are a part of the list that is in order already. -/
theorem filter_sort (ds : List Diagnostic) (k : Nat × List UInt8) :
    (sort ds).filter (fun d => d.key = k) = ds.filter fun d => d.key = k := by
  have hequal : (ds.filter fun d => d.key = k).Pairwise fun a b => a.sortsBefore b = true := by
    refine List.pairwise_of_forall_mem_list fun a ha b hb => keyLe_iff.mp ?_
    have hkey : a.key = b.key := (of_decide_eq_true (List.mem_filter.mp ha).2).trans (of_decide_eq_true (List.mem_filter.mp hb).2).symm
    rw [KeyLe, hkey]
    exact Or.inr ⟨rfl, List.le_refl _⟩
  have hsub := (List.sublist_mergeSort sortsBefore_trans sortsBefore_total hequal List.filter_sublist).filter fun d => d.key = k
  simp only [List.filter_filter, Bool.and_self] at hsub
  exact (hsub.eq_of_length ((List.mergeSort_perm ds sortsBefore).filter _).length_eq.symm).symm

theorem sorted_sort (ds : List Diagnostic) : Sorted ds (sort ds) where
  perm := List.mergeSort_perm ds sortsBefore
  ordered := (List.pairwise_mergeSort sortsBefore_trans sortsBefore_total ds).imp keyLe_iff.mpr
  stable := filter_sort ds

end SpriteFacts.Diagnostic
