import SpriteFacts.Record.Roster

/-! What a roster holds after any history. For each number it holds the contributions of that number laid
    over each other in their order, the first one whole, and nothing else; since its records ascend, two
    histories that agree on the contributions of every number give the same records. -/

namespace SpriteFacts

open SpriteRecord

variable {ρ : Type} [SpriteRecord ρ]

/-- The contributions of one number, in their order. -/
def contributions (id : Nat) (history : List ρ) : List ρ := history.filter fun r => number r == id

/-- Records laid over each other, the first one whole. -/
def combined : List ρ → Option ρ
  | [] => none
  | r :: rs => some (rs.foldl overlay r)

theorem combined_concat (rs : List ρ) (r : ρ) :
    combined (rs ++ [r]) = some ((combined rs).elim r fun x => overlay x r) := by
  cases rs with
  | nil => rfl
  | cons x xs => simp [combined]

theorem number_foldl_overlay (rs : List ρ) (r : ρ) : number (rs.foldl overlay r) = number r := by
  induction rs generalizing r with
  | nil => rfl
  | cons s rs ih => rw [List.foldl_cons, ih, number_overlay]

theorem number_of_mem_contributions {id : Nat} {history : List ρ} {r : ρ} (h : r ∈ contributions id history) :
    number r = id := by
  simpa using (List.mem_filter.mp h).2

/-! ### One step -/

theorem find?_of_lt {id : Nat} {xs : List ρ} (h : ∀ x ∈ xs, id < number x) :
    xs.find? (fun x => number x == id) = none := by
  rw [List.find?_eq_none]
  intro x hx
  have := h x hx
  simp
  omega

theorem find?_place (r : ρ) (id : Nat) : ∀ {xs : List ρ}, Ascending xs →
    (place r xs).find? (fun x => number x == id) =
      if number r = id then some ((xs.find? fun x => number x == id).elim r fun x => overlay x r)
      else xs.find? fun x => number x == id
  | [], _ => by by_cases h : number r = id <;> simp [place, h]
  | x :: xs, h => by
    obtain ⟨hx, hxs⟩ := List.pairwise_cons.mp h
    unfold place
    split
    -- The record stands in front of all that follow, takes the place of the first, or goes on behind it.
    · rename_i hlt
      by_cases hr : number r = id
      · have hnone : (x :: xs).find? (fun y => number y == id) = none := by
          refine find?_of_lt fun y hy => ?_
          rcases List.mem_cons.mp hy with rfl | hy
          · omega
          · have := hx y hy
            omega
        rw [if_pos hr, hnone, List.find?_cons_of_pos (by simpa using hr)]
        rfl
      · rw [if_neg hr, List.find?_cons_of_neg (by simpa using hr)]
    · split
      · rename_i heq
        by_cases hr : number r = id
        · have hx' : number x = id := heq ▸ hr
          simp [number_overlay, hx', hr]
        · have hx' : number x ≠ id := heq ▸ hr
          simp [number_overlay, hx', hr]
      · rename_i hne
        by_cases hx' : number x = id
        · have hr : number r ≠ id := fun hr => hne (hr.trans hx'.symm)
          simp [hx', hr]
        · simp [hx', find?_place r id hxs]

theorem Ascending.nodup {rs : List ρ} (h : Ascending rs) : rs.Nodup :=
  h.imp fun hlt heq => absurd (heq ▸ hlt) (Nat.lt_irrefl _)

/-- Ascending records are determined by what is among them. -/
theorem Ascending.eq_of_mem_iff {rs rs' : List ρ} (hasc : Ascending rs) (hasc' : Ascending rs')
    (h : ∀ r, r ∈ rs ↔ r ∈ rs') : rs = rs' := by
  have hperm : rs.Perm rs' := (List.perm_ext_iff_of_nodup hasc.nodup hasc'.nodup).mpr h
  exact hperm.eq_of_pairwise (fun a b _ _ hab hba => absurd hab (Nat.lt_asymm hba)) hasc hasc'

namespace Roster

def record? (t : Roster ρ) (id : Nat) : Option ρ := t.records.find? fun r => number r == id

/-- Adding a record lays it over the one with its number and changes no other. -/
theorem record?_add (t : Roster ρ) (r : ρ) (id : Nat) :
    (t.add r).record? id = if number r = id then some ((t.record? id).elim r fun x => overlay x r) else t.record? id :=
  find?_place r id t.ascending

/-! ### A whole history -/

/-- For each number a roster holds its contributions laid over each other. -/
theorem record?_addAll (history : List ρ) (id : Nat) :
    ((empty : Roster ρ).addAll history).record? id = combined (contributions id history) := by
  -- A history is built from its end, as a roster is.
  induction h : history.reverse generalizing history with
  | nil =>
    obtain rfl := List.reverse_eq_nil_iff.mp h
    rfl
  | cons r rs ih =>
    obtain rfl : history = rs.reverse ++ [r] := by rw [← List.reverse_reverse history, h, List.reverse_cons]
    have hstep : (empty : Roster ρ).addAll (rs.reverse ++ [r]) = ((empty : Roster ρ).addAll rs.reverse).add r := by
      simp [addAll, List.foldl_append]
    rw [hstep, record?_add, ih rs.reverse (List.reverse_reverse rs)]
    by_cases hr : number r = id
    · have hlast : contributions id (rs.reverse ++ [r]) = contributions id rs.reverse ++ [r] := by
        simp [contributions, hr]
      rw [if_pos hr, hlast, combined_concat]
    · have hlast : contributions id (rs.reverse ++ [r]) = contributions id rs.reverse := by
        simp [contributions, hr]
      rw [if_neg hr, hlast]

theorem mem_records_iff (t : Roster ρ) (r : ρ) : r ∈ t.records ↔ t.record? (number r) = some r := by
  constructor
  · intro h
    obtain ⟨as, bs, hsplit⟩ := List.append_of_mem h
    have hasc := t.ascending
    rw [hsplit] at hasc
    refine List.find?_eq_some_iff_append.mpr ⟨by simp, as, bs, hsplit, fun a ha => ?_⟩
    have hlt := (List.pairwise_append.mp hasc).2.2 a ha r List.mem_cons_self
    simp
    omega
  · exact List.mem_of_find?_eq_some

theorem records_eq_of_record? {t u : Roster ρ} (h : ∀ id, t.record? id = u.record? id) : t.records = u.records :=
  t.ascending.eq_of_mem_iff u.ascending fun r => by rw [mem_records_iff, mem_records_iff, h]

/-- Histories that agree on the contributions of every number give the same records. -/
theorem finish_congr {history history' : List ρ}
    (h : ∀ id, contributions id history = contributions id history') :
    ((empty : Roster ρ).addAll history).finish = ((empty : Roster ρ).addAll history').finish := by
  have heq := records_eq_of_record? fun id => (record?_addAll history id).trans
    ((congrArg combined (h id)).trans (record?_addAll history' id).symm)
  unfold finish
  rw [heq]

/-- The finished records are the combined contributions that state something. -/
theorem mem_finish_addAll (history : List ρ) (r : ρ) :
    r ∈ ((empty : Roster ρ).addAll history).finish ↔
      combined (contributions (number r) history) = some r ∧ isEmpty r = false := by
  rw [finish, List.mem_filter, mem_records_iff, record?_addAll, Bool.not_eq_true']

end Roster

/-! ### Numbers that are contributed to once -/

theorem contributions_of_nodup {history : List ρ} (h : (history.map number).Nodup) {r : ρ} (hr : r ∈ history) :
    contributions (number r) history = [r] := by
  obtain ⟨as, bs, rfl⟩ := List.append_of_mem hr
  simp only [List.map_append, List.map_cons] at h
  obtain ⟨-, hbs, hdisjoint⟩ := List.nodup_append.mp h
  have hother : ∀ x ∈ as ++ bs, number x ≠ number r := by
    intro x hx heq
    rcases List.mem_append.mp hx with hx | hx
    · exact hdisjoint _ (List.mem_map_of_mem hx) _ List.mem_cons_self heq
    · exact (List.nodup_cons.mp hbs).1 (List.mem_map.mpr ⟨x, hx, heq⟩)
  have hnone : ∀ {xs : List ρ}, (∀ x ∈ xs, number x ≠ number r) → contributions (number r) xs = [] := by
    intro xs hxs
    refine List.filter_eq_nil_iff.mpr fun x hx => ?_
    simpa using hxs x hx
  have has := hnone fun x hx => hother x (List.mem_append.mpr (Or.inl hx))
  have hbs := hnone fun x hx => hother x (List.mem_append.mpr (Or.inr hx))
  calc contributions (number r) (as ++ r :: bs)
      = contributions (number r) as ++ contributions (number r) (r :: bs) := List.filter_append ..
    _ = r :: contributions (number r) bs := by
      rw [has]
      simp [contributions]
    _ = [r] := by rw [hbs]

namespace Roster

/-- A history that contributes to no number twice is kept record by record. -/
theorem mem_finish_of_nodup {history : List ρ} (h : (history.map number).Nodup) (r : ρ) :
    r ∈ ((empty : Roster ρ).addAll history).finish ↔ r ∈ history ∧ isEmpty r = false := by
  rw [mem_finish_addAll]
  refine and_congr_left fun _ => ⟨fun hcombined => ?_, fun hr => by rw [contributions_of_nodup h hr]; rfl⟩
  cases hown : contributions (number r) history with
  | nil =>
    rw [hown] at hcombined
    cases hcombined
  | cons x xs =>
    have hx : x ∈ contributions (number r) history := hown ▸ List.mem_cons_self
    have hmem := (List.mem_filter.mp hx).1
    have honly := contributions_of_nodup h hmem
    rw [number_of_mem_contributions hx] at honly
    rw [honly] at hcombined
    obtain rfl := Option.some.inj hcombined
    exact hmem

/-- A history that contributes to no number twice, and nothing that is empty, is put in order. -/
theorem perm_finish_of_nodup {history : List ρ} (h : (history.map number).Nodup) (hempty : ∀ r ∈ history, isEmpty r = false) :
    ((empty : Roster ρ).addAll history).finish.Perm history := by
  have hnodup : history.Nodup := List.Pairwise.of_map number (fun _ _ hne heq => hne (congrArg number heq)) h
  refine (List.perm_ext_iff_of_nodup (ascending_finish _).nodup hnodup).mpr fun r => ?_
  rw [mem_finish_of_nodup h]
  exact and_iff_left_of_imp (hempty r)

end Roster
end SpriteFacts
