import SpriteFacts.Text.Line

/-! The lines of a text in which one part without a newline is replaced by another. Places in front of the part
    stay where they are and places behind it move by the difference in size, and no place comes to another line. -/

namespace SpriteFacts.Text

/-- Two byte offsets of the same place: in front of a replaced part at `site`, or behind it. -/
inductive SamePlace (site size size' : Nat) : Nat → Nat → Prop where
  | before (n : Nat) (le : n ≤ site) : SamePlace site size size' n n
  | behind (d : Nat) : SamePlace site size size' (site + size + d) (site + size' + d)

theorem SamePlace.add {site size size' n n' : Nat} (h : SamePlace site size size' n n') (k : Nat) :
    SamePlace (k + site) size size' (k + n) (k + n') := by
  cases h with
  | before n le => exact .before _ (Nat.add_le_add_left le k)
  | behind d =>
    have hsum : ∀ m, k + (site + m + d) = k + site + m + d := fun m => by omega
    rw [hsum, hsum]
    exact .behind d

/-! ### The starts of lines -/

/-- The byte offsets just after the newlines of a text that stands at byte offset `n`. -/
def breaks : Nat → List Char → List Nat
  | _, [] => []
  | n, c :: cs => if c = '\n' then (n + 1) :: breaks (n + 1) cs else breaks (n + c.utf8Size) cs

theorem lineStartsAfter_append {bs : List Char} (hbs : bs ≠ []) (n : Nat) (as : List Char) :
    lineStartsAfter n (as ++ bs) = breaks n as ++ lineStartsAfter (n + byteLength as) bs := by
  induction as generalizing n with
  | nil => rfl
  | cons c cs ih =>
    have hne : cs ++ bs ≠ [] := fun h => hbs (List.append_eq_nil_iff.mp h).2
    rw [List.cons_append, lineStartsAfter, breaks, byteLength_cons, ← Nat.add_assoc]
    by_cases hc : c = '\n'
    · rw [if_pos ⟨hc, hne⟩, if_pos hc, ih, hc]
      rfl
    · rw [if_neg fun h => hc h.1, if_neg hc, ih]

/-- Text without a newline starts no line. -/
theorem lineStartsAfter_of_not_mem {as : List Char} (has : '\n' ∉ as) (n : Nat) (bs : List Char) :
    lineStartsAfter n (as ++ bs) = lineStartsAfter (n + byteLength as) bs := by
  induction as generalizing n with
  | nil => rfl
  | cons c cs ih =>
    rw [List.mem_cons, not_or] at has
    rw [List.cons_append, lineStartsAfter, if_neg fun h => has.1 h.1.symm, ih has.2, byteLength_cons, Nat.add_assoc]

theorem lineStartsAfter_add (n k : Nat) (cs : List Char) : lineStartsAfter (n + k) cs = (lineStartsAfter n cs).map (· + k) := by
  induction cs generalizing n with
  | nil => rfl
  | cons c cs ih =>
    have hnext : ∀ m, n + k + m = n + m + k := fun m => Nat.add_right_comm n k m
    rw [lineStartsAfter, lineStartsAfter, hnext, hnext, ih, ih]
    split <;> rfl

theorem breaks_le {n : Nat} {cs : List Char} : ∀ s ∈ breaks n cs, s ≤ n + byteLength cs := by
  induction cs generalizing n with
  | nil => exact fun s hs => absurd hs List.not_mem_nil
  | cons c cs ih =>
    intro s hs
    rw [byteLength_cons, ← Nat.add_assoc]
    rw [breaks] at hs
    split at hs
    · rename_i hc
      rw [hc, show Char.utf8Size '\n' = 1 from rfl]
      rcases List.mem_cons.mp hs with rfl | hs
      · exact Nat.le_add_right _ _
      · exact ih s hs
    · exact ih s hs

theorem lt_of_mem_lineStartsAfter {n : Nat} {cs : List Char} : ∀ s ∈ lineStartsAfter n cs, n < s := by
  induction cs generalizing n with
  | nil => exact fun s hs => absurd hs List.not_mem_nil
  | cons c cs ih =>
    intro s hs
    have hpos := c.utf8Size_pos
    rw [lineStartsAfter] at hs
    split at hs
    · rcases List.mem_cons.mp hs with rfl | hs
      · exact Nat.lt_succ_self n
      · have := ih s hs
        omega
    · have := ih s hs
      omega

theorem length_breaks (n : Nat) (cs : List Char) : (breaks n cs).length = cs.count '\n' := by
  induction cs generalizing n with
  | nil => rfl
  | cons c cs ih =>
    rw [breaks]
    split
    · rename_i hc
      rw [hc, List.length_cons, ih, List.count_cons_self]
    · rename_i hc
      rw [ih, List.count_cons_of_ne hc]

/-- The line of a place within a text is told by the newlines in front of it. -/
theorem lineAt_append {bs : List Char} (hbs : bs ≠ []) (as : List Char) :
    lineAt (lineStarts (as ++ bs)) (byteLength as) = 1 + as.count '\n' := by
  have hearlier : ∀ s ∈ 0 :: breaks 0 as, decide (s ≤ byteLength as) = true := by
    intro s hs
    rw [decide_eq_true_eq]
    rcases List.mem_cons.mp hs with rfl | hs
    · exact Nat.zero_le _
    · simpa using breaks_le s hs
  have hlater : (lineStartsAfter (byteLength as) bs).takeWhile (fun s => decide (s ≤ byteLength as)) = [] := by
    cases h : lineStartsAfter (byteLength as) bs with
    | nil => rfl
    | cons s ss =>
      have hlt := lt_of_mem_lineStartsAfter s (h ▸ List.mem_cons_self)
      exact List.takeWhile_cons_of_neg (by simpa using hlt)
  rw [lineAt, lineStarts, lineStartsAfter_append hbs, Nat.zero_add, ← List.cons_append, List.takeWhile_append_of_pos hearlier, hlater,
    List.append_nil, List.length_cons, length_breaks, Nat.add_comm]

/-! ### Lines around a replaced part -/

section Replaced
variable {as bs part part' : List Char} {n n' : Nat}

theorem lineStarts_around (hne : part ≠ []) (hline : '\n' ∉ part) (as bs : List Char) : lineStarts (as ++ (part ++ bs)) =
    (0 :: breaks 0 as) ++ (lineStartsAfter 0 bs).map (· + (byteLength as + byteLength part)) := by
  have hrest : part ++ bs ≠ [] := fun h => hne (List.append_eq_nil_iff.mp h).1
  rw [lineStarts, lineStartsAfter_append hrest, lineStartsAfter_of_not_mem hline, ← lineStartsAfter_add, Nat.zero_add,
    Nat.zero_add, List.cons_append]

theorem lineAt_before (hne : part ≠ []) (hline : '\n' ∉ part) (hn : n ≤ byteLength as) :
    lineAt (lineStarts (as ++ (part ++ bs))) n = lineAt (0 :: breaks 0 as) n := by
  have hlater : ∀ s ∈ (lineStartsAfter 0 bs).map (· + (byteLength as + byteLength part)), decide (s ≤ n) = false := by
    intro s hs
    obtain ⟨x, hx, rfl⟩ := List.mem_map.mp hs
    have := lt_of_mem_lineStartsAfter x hx
    rw [decide_eq_false_iff_not]
    omega
  rw [lineAt, lineStarts_around hne hline, List.takeWhile_append]
  split
  · rename_i hall
    have hnone : ((lineStartsAfter 0 bs).map (· + (byteLength as + byteLength part))).takeWhile (fun s => decide (s ≤ n)) = [] := by
      cases h : (lineStartsAfter 0 bs).map (· + (byteLength as + byteLength part)) with
      | nil => rfl
      | cons s ss => rw [List.takeWhile_cons_of_neg (by simp [hlater s (h ▸ List.mem_cons_self)])]
    rw [hnone, List.append_nil, lineAt, hall]
  · rfl

theorem lineAt_behind (hne : part ≠ []) (hline : '\n' ∉ part) (d : Nat) :
    lineAt (lineStarts (as ++ (part ++ bs))) (byteLength as + byteLength part + d) =
      (0 :: breaks 0 as).length + ((lineStartsAfter 0 bs).takeWhile fun s => decide (s ≤ d)).length := by
  have hearlier : ∀ s ∈ 0 :: breaks 0 as, decide (s ≤ byteLength as + byteLength part + d) = true := by
    intro s hs
    rw [decide_eq_true_eq]
    rcases List.mem_cons.mp hs with rfl | hs
    · exact Nat.zero_le _
    · have := breaks_le s hs
      omega
  have hpred : ((fun s => decide (s ≤ byteLength as + byteLength part + d)) ∘ (· + (byteLength as + byteLength part))) =
      fun s => decide (s ≤ d) := by
    funext s
    rw [Function.comp_apply, decide_eq_decide]
    omega
  rw [lineAt, lineStarts_around hne hline, List.takeWhile_append_of_pos hearlier, List.takeWhile_map, hpred,
    List.length_append, List.length_map]

/-- The same place has the same line. -/
theorem lineAt_samePlace (hne : part ≠ []) (hne' : part' ≠ []) (hline : '\n' ∉ part) (hline' : '\n' ∉ part')
    (h : SamePlace (byteLength as) (byteLength part) (byteLength part') n n') :
    lineAt (lineStarts (as ++ (part ++ bs))) n = lineAt (lineStarts (as ++ (part' ++ bs))) n' := by
  cases h with
  | before n le => rw [lineAt_before hne hline le, lineAt_before hne' hline' le]
  | behind d => rw [lineAt_behind hne hline, lineAt_behind hne' hline']

end Replaced
end SpriteFacts.Text
