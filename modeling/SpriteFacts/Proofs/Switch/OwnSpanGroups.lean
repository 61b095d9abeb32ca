import Mathlib.Data.List.Nodup
import Mathlib.Data.List.Perm.Subperm
import SpriteFacts.Proofs.Switch.FallThrough

/-! Code that is decided label by label loses and doubles no label. Whether a label has an outcome is decided from
    the back: it has one if its own span holds a terminator, or if there is no code in its span and the next label has
    one. The groups are the runs of labels with one outcome, each up to the label with the terminator. -/

namespace SpriteFacts.Switch

open Text Pattern

section Groups
variable {terminator : Pattern} {body : List Char}

/-- The span of the label holds a terminator. -/
def CaseLabel.Terminated (terminator : Pattern) (body : List Char) (l : CaseLabel) : Prop :=
  terminator.occursIn (l.code body) = true

/-- The label has no terminator of its own and no code, so it shares what comes after it. -/
def CaseLabel.Waits (terminator : Pattern) (body : List Char) (l : CaseLabel) : Prop :=
  terminator.occursIn (l.code body) = false ∧ holdsNoCode (l.code body) = true

theorem CaseLabel.Waits.not_terminated {l : CaseLabel} (h : l.Waits terminator body) : ¬l.Terminated terminator body := by
  rw [CaseLabel.Terminated, h.1]
  exact Bool.false_ne_true

/-- The first of the labels has an outcome. -/
def hasOutcome (terminator : Pattern) (body : List Char) : List CaseLabel → Bool
  | [] => false
  | l :: ls => terminator.occursIn (l.code body) || holdsNoCode (l.code body) && hasOutcome terminator body ls

/-- The runs with labels put in front of the first one. -/
def joinFirst (waiting : List CaseLabel) : List (List CaseLabel) → List (List CaseLabel)
  | [] => []
  | first :: runs => (waiting ++ first) :: runs

/-- The runs of labels that share an outcome. -/
def ownRuns (terminator : Pattern) (body : List Char) : List CaseLabel → List (List CaseLabel)
  | [] => []
  | l :: ls =>
    let runs := ownRuns terminator body ls
    if terminator.occursIn (l.code body) then [l] :: runs
    else if holdsNoCode (l.code body) && hasOutcome terminator body ls then joinFirst [l] runs
    else runs

theorem joinFirst_nil (runs : List (List CaseLabel)) : joinFirst [] runs = runs := by cases runs <;> rfl

theorem joinFirst_joinFirst (as bs : List CaseLabel) (runs : List (List CaseLabel)) :
    joinFirst as (joinFirst bs runs) = joinFirst (as ++ bs) runs := by
  cases runs with
  | nil => rfl
  | cons first runs => exact congrArg (· :: runs) (List.append_assoc as bs first).symm

/-! ### The loop from the front -/

/-- The group of a run: the code is that of the last label up to the first terminator in it, and the place is that of
    the first label. -/
structure GroupOf (terminator : Pattern) (body : List Char) (run : List CaseLabel) (g : CaseGroup) : Prop where
  ids : g.ids = run.map (·.id)
  code : ∃ first last m, run.head? = some first ∧ run.getLast? = some last ∧ g.text = last.code body ∧
    terminator.find? g.text = some m ∧ g.terminator = m.start ∧ g.offset = first.start ∧
    g.spanStart = last.codeStart ∧ g.spanStop = last.stop

theorem groupOf_spec {waiting : List CaseLabel} {l : CaseLabel} {m : Match} (hm : terminator.find? (l.code body) = some m) :
    GroupOf terminator body (waiting ++ [l]) (groupOf waiting l (l.code body) m) where
  ids := rfl
  code := by
    refine ⟨waiting.head?.getD l, l, m, ?_, List.getLast?_concat, rfl, hm, rfl, rfl, rfl, rfl⟩
    cases waiting <;> rfl

/-- The loop from the front, with the labels that wait before it, finds the runs that are decided from the back. -/
theorem ownSpanGroups_spec (waiting labels : List CaseLabel) :
    List.Forall₂ (GroupOf terminator body)
      (if hasOutcome terminator body labels then joinFirst waiting (ownRuns terminator body labels)
        else ownRuns terminator body labels)
      (ownSpanGroups terminator body waiting labels) := by
  -- The induction is on the labels left to read. What waits grows with a blank label and starts over behind any other.
  induction labels generalizing waiting with
  | nil => exact List.Forall₂.nil
  | cons l ls ih =>
    have hreset : List.Forall₂ (GroupOf terminator body) (ownRuns terminator body ls)
        (ownSpanGroups terminator body [] ls) := by
      have h := ih []
      rwa [joinFirst_nil, ite_self] at h
    rw [hasOutcome, ownRuns, ownSpanGroups]
    cases hm : terminator.find? (l.code body) with
    | some m =>
      have hoccurs : terminator.occursIn (l.code body) = true := by rw [occursIn, hm]; rfl
      rw [hoccurs, Bool.true_or, if_pos rfl, if_pos rfl]
      exact List.Forall₂.cons (groupOf_spec hm) hreset
    | none =>
      have hoccurs : terminator.occursIn (l.code body) = false := by rw [occursIn, hm]; rfl
      rw [hoccurs, Bool.false_or, if_neg Bool.false_ne_true]
      cases hblank : holdsNoCode (l.code body) with
      | false => exact hreset
      | true =>
        have h := ih (waiting ++ [l])
        rw [Bool.true_and]
        cases houtcome : hasOutcome terminator body ls with
        | false =>
          rw [houtcome] at h
          exact h
        | true =>
          rw [houtcome] at h
          rw [if_pos rfl, if_pos rfl, joinFirst_joinFirst]
          exact h

/-! ### The runs from the back -/

/-- The runs of labels with one more in front: it makes a run of its own, leads the first run, or has no outcome. -/
theorem ownRuns_cons (l : CaseLabel) (ls : List CaseLabel) :
    (l.Terminated terminator body ∧ ownRuns terminator body (l :: ls) = [l] :: ownRuns terminator body ls) ∨
    (l.Waits terminator body ∧ hasOutcome terminator body ls = true ∧
      ownRuns terminator body (l :: ls) = joinFirst [l] (ownRuns terminator body ls)) ∨
    (hasOutcome terminator body (l :: ls) = false ∧ ownRuns terminator body (l :: ls) = ownRuns terminator body ls) := by
  rw [ownRuns, hasOutcome]
  cases hoccurs : terminator.occursIn (l.code body) with
  | true => exact Or.inl ⟨hoccurs, rfl⟩
  | false =>
    cases hjoins : holdsNoCode (l.code body) && hasOutcome terminator body ls with
    | true =>
      obtain ⟨hblank, houtcome⟩ := Bool.and_eq_true_iff.mp hjoins
      exact Or.inr (Or.inl ⟨⟨hoccurs, hblank⟩, houtcome, rfl⟩)
    | false => exact Or.inr (Or.inr ⟨rfl, rfl⟩)

theorem hasOutcome_cons (l : CaseLabel) (ls : List CaseLabel) : hasOutcome terminator body (l :: ls) = true ↔
    l.Terminated terminator body ∨ l.Waits terminator body ∧ hasOutcome terminator body ls = true := by
  rw [hasOutcome, CaseLabel.Terminated, CaseLabel.Waits]
  cases terminator.occursIn (l.code body) <;> simp

theorem exists_run_of_hasOutcome {labels : List CaseLabel} (h : hasOutcome terminator body labels = true) :
    ∃ l ls run runs, labels = l :: ls ∧ ownRuns terminator body labels = (l :: run) :: runs := by
  induction labels with
  | nil => cases h
  | cons l ls ih =>
    rcases @ownRuns_cons terminator body l ls with ⟨-, hruns⟩ | ⟨-, houtcome, hruns⟩ | ⟨hnone, -⟩
    · exact ⟨l, ls, [], _, rfl, hruns⟩
    · obtain ⟨x, -, run, runs, -, hbehind⟩ := ih houtcome
      exact ⟨l, ls, x :: run, runs, rfl, by rw [hruns, hbehind]; rfl⟩
    · rw [h] at hnone
      cases hnone

theorem flatten_ownRuns_cons (l : CaseLabel) (ls : List CaseLabel) :
    (ownRuns terminator body (l :: ls)).flatten =
      (if hasOutcome terminator body (l :: ls) then [l] else []) ++ (ownRuns terminator body ls).flatten := by
  rcases @ownRuns_cons terminator body l ls with ⟨hown, hruns⟩ | ⟨hwaits, houtcome, hruns⟩ | ⟨hnone, hruns⟩
  · rw [hruns, if_pos ((hasOutcome_cons l ls).mpr (Or.inl hown))]
    rfl
  · obtain ⟨x, -, run, runs, -, hbehind⟩ := exists_run_of_hasOutcome houtcome
    rw [hruns, if_pos ((hasOutcome_cons l ls).mpr (Or.inr ⟨hwaits, houtcome⟩)), hbehind]
    rfl
  · rw [hruns, hnone]
    rfl

theorem ownRuns_sublist (labels : List CaseLabel) : (ownRuns terminator body labels).flatten.Sublist labels := by
  induction labels with
  | nil => exact List.Sublist.refl []
  | cons l ls ih =>
    rw [flatten_ownRuns_cons]
    split
    · exact ih.cons_cons l
    · exact ih.cons l

/-- A run with one more label in front of the labels: the label alone, the label before the next one in its run, or a run
    of the labels behind it. -/
theorem mem_ownRuns_cons {l : CaseLabel} {ls r : List CaseLabel} (h : r ∈ ownRuns terminator body (l :: ls)) :
    (r = [l] ∧ l.Terminated terminator body) ∨
    (∃ x xs behind, ls = x :: xs ∧ (x :: behind) ∈ ownRuns terminator body ls ∧ r = l :: x :: behind ∧
      l.Waits terminator body) ∨
    r ∈ ownRuns terminator body ls := by
  rcases @ownRuns_cons terminator body l ls with ⟨hown, hruns⟩ | ⟨hwaits, houtcome, hruns⟩ | ⟨-, hruns⟩
  · rw [hruns] at h
    rcases List.mem_cons.mp h with rfl | h
    · exact Or.inl ⟨rfl, hown⟩
    · exact Or.inr (Or.inr h)
  · obtain ⟨x, xs, behind, runs, rfl, hbehind⟩ := exists_run_of_hasOutcome houtcome
    rw [hruns, hbehind] at h
    rw [hbehind]
    rcases List.mem_cons.mp (show r ∈ (l :: x :: behind) :: runs from h) with rfl | h
    · exact Or.inr (Or.inl ⟨x, xs, behind, rfl, List.mem_cons_self, rfl, hwaits⟩)
    · exact Or.inr (Or.inr (List.mem_cons_of_mem _ h))
  · exact Or.inr (Or.inr (hruns ▸ h))

/-- The last label of a run has its terminator, and every other label of the run waits for it. -/
theorem waits_or_last {labels r : List CaseLabel} (h : r ∈ ownRuns terminator body labels) :
    ∃ waiting last, r = waiting ++ [last] ∧ last.Terminated terminator body ∧ ∀ l ∈ waiting, l.Waits terminator body := by
  induction labels generalizing r with
  | nil => cases h
  | cons l ls ih =>
    rcases mem_ownRuns_cons h with ⟨rfl, hown⟩ | ⟨x, xs, behind, -, hbehind, rfl, hwaits⟩ | h
    · exact ⟨[], l, rfl, hown, nofun⟩
    · obtain ⟨waiting, last, hsplit, hlast, hall⟩ := ih hbehind
      exact ⟨l :: waiting, last, congrArg (l :: ·) hsplit, hlast, List.forall_mem_cons.mpr ⟨hwaits, hall⟩⟩
    · exact ih h

theorem head_mem_ownRuns {l : CaseLabel} {ls : List CaseLabel} (hl : l ∉ ls) :
    l ∈ (ownRuns terminator body (l :: ls)).flatten ↔ hasOutcome terminator body (l :: ls) = true := by
  have hbehind : l ∉ (ownRuns terminator body ls).flatten := fun h => hl ((ownRuns_sublist ls).mem h)
  rw [flatten_ownRuns_cons, List.mem_append, or_iff_left hbehind]
  split <;> simp_all

theorem mem_ownRuns_of_ne {l x : CaseLabel} {ls : List CaseLabel} (hne : x ≠ l) :
    x ∈ (ownRuns terminator body (l :: ls)).flatten ↔ x ∈ (ownRuns terminator body ls).flatten := by
  rw [flatten_ownRuns_cons, List.mem_append, or_iff_right]
  split
  · exact fun h => hne (List.mem_singleton.mp h)
  · exact List.not_mem_nil

theorem hasOutcome_iff {labels : List CaseLabel} (hnodup : labels.Nodup) : hasOutcome terminator body labels = true ↔
    ∃ l, labels[0]? = some l ∧ l ∈ (ownRuns terminator body labels).flatten := by
  cases labels with
  | nil => exact ⟨nofun, fun ⟨_, h, _⟩ => nomatch h⟩
  | cons l ls =>
    rw [← head_mem_ownRuns (List.nodup_cons.mp hnodup).1]
    exact ⟨fun h => ⟨l, rfl, h⟩, fun ⟨x, hx, h⟩ => Option.some.inj hx ▸ h⟩

/-- A label is in a run if it has a terminator, or waits and the next label is in a run. -/
theorem mem_ownRuns_iff {labels : List CaseLabel} (hnodup : labels.Nodup) {i : Nat} {l : CaseLabel} (hl : labels[i]? = some l) :
    l ∈ (ownRuns terminator body labels).flatten ↔ l.Terminated terminator body ∨
      l.Waits terminator body ∧ ∃ next, labels[i + 1]? = some next ∧ next ∈ (ownRuns terminator body labels).flatten := by
  induction labels generalizing i with
  | nil => cases hl
  | cons x xs ih =>
    obtain ⟨hx, hxs⟩ := List.nodup_cons.mp hnodup
    have hbehind : ∀ {j : Nat} {y : CaseLabel}, xs[j]? = some y →
        (y ∈ (ownRuns terminator body (x :: xs)).flatten ↔ y ∈ (ownRuns terminator body xs).flatten) := fun hy =>
      mem_ownRuns_of_ne fun heq => hx (heq ▸ List.mem_of_getElem? hy)
    have hnext : ∀ {j : Nat}, (∃ y, (x :: xs)[j + 1]? = some y ∧ y ∈ (ownRuns terminator body (x :: xs)).flatten) ↔
        ∃ y, xs[j]? = some y ∧ y ∈ (ownRuns terminator body xs).flatten := fun {j} =>
      exists_congr fun y => and_congr_right fun hy => hbehind hy
    rw [hnext]
    cases i with
    | zero =>
      obtain rfl := Option.some.inj hl
      rw [head_mem_ownRuns hx, hasOutcome_cons, hasOutcome_iff hxs]
    | succ i => rw [hbehind hl, ih hxs hl]

theorem next_mem_run {labels r : List CaseLabel} (hnodup : labels.Nodup) (hr : r ∈ ownRuns terminator body labels)
    {i : Nat} {l next : CaseLabel} (hl : labels[i]? = some l) (hnext : labels[i + 1]? = some next) (hmem : l ∈ r)
    (hwaits : l.Waits terminator body) : next ∈ r := by
  induction labels generalizing i r with
  | nil => cases hl
  | cons x xs ih =>
    obtain ⟨hx, hxs⟩ := List.nodup_cons.mp hnodup
    rcases mem_ownRuns_cons hr with ⟨rfl, hown⟩ | ⟨y, ys, behind, rfl, hbehind, rfl, -⟩ | hr
    · obtain rfl := List.mem_singleton.mp hmem
      exact absurd hown hwaits.not_terminated
    · cases i with
      | zero =>
        obtain rfl := Option.some.inj hnext
        exact List.mem_cons_of_mem x List.mem_cons_self
      | succ i =>
        have hne : l ≠ x := fun heq => hx (heq ▸ List.mem_of_getElem? hl)
        exact List.mem_cons_of_mem x (ih hxs hbehind hl hnext ((List.mem_cons.mp hmem).resolve_left hne))
    · cases i with
      | zero =>
        obtain rfl := Option.some.inj hl
        exact absurd ((ownRuns_sublist xs).mem (List.mem_flatten.mpr ⟨r, hr, hmem⟩)) hx
      | succ i => exact ih hxs hr hl hnext hmem

/-! ### The main result -/

/-- Runs of labels in which no label is lost or doubled. -/
structure Segmented (terminator : Pattern) (body : List Char) (labels : List CaseLabel) (runs : List (List CaseLabel)) : Prop where
  /-- No two labels are equal, so a label stands for its place. -/
  ascending : labels.Pairwise fun a b => a.start < b.start
  mem_iff : ∀ {i l}, labels[i]? = some l → (l ∈ runs.flatten ↔ l.Terminated terminator body ∨
    l.Waits terminator body ∧ ∃ next, labels[i + 1]? = some next ∧ next ∈ runs.flatten)
  once : ∀ l ∈ runs.flatten, ∃! k : Nat, ∃ r, runs[k]? = some r ∧ l ∈ r
  last : ∀ r ∈ runs, ∀ l ∈ r, l.Terminated terminator body → r.getLast? = some l
  shared : ∀ r ∈ runs, ∀ {i l next}, labels[i]? = some l → labels[i + 1]? = some next → l ∈ r →
    l.Waits terminator body → next ∈ r
  ordered : runs.flatten = labels.filter (· ∈ runs.flatten)

theorem eq_filter_of_sublist {α : Type} [DecidableEq α] {xs ys : List α} (hys : ys.Nodup) (h : xs.Sublist ys) :
    xs = ys.filter (· ∈ xs) := by
  have hle : (ys.filter (· ∈ xs)).length ≤ xs.length :=
    (List.subperm_of_subset (hys.filter _) fun x hx => by simpa using (List.mem_filter.mp hx).2).length_le
  have hself : xs.filter (· ∈ xs) = xs := List.filter_eq_self.mpr fun x hx => by simpa using hx
  have hsub := h.filter (· ∈ xs)
  rw [hself] at hsub
  exact hsub.eq_of_length_le hle

theorem exists_unique_run {runs : List (List CaseLabel)} (hnodup : runs.flatten.Nodup) {l : CaseLabel}
    (h : l ∈ runs.flatten) : ∃! k : Nat, ∃ r, runs[k]? = some r ∧ l ∈ r := by
  obtain ⟨r, hr, hl⟩ := List.mem_flatten.mp h
  obtain ⟨k, hk⟩ := List.mem_iff_getElem?.mp hr
  have hapart := List.pairwise_iff_getElem.mp (List.nodup_flatten.mp hnodup).2
  refine ⟨k, ⟨r, hk, hl⟩, fun j ⟨s, hj, hs⟩ => ?_⟩
  obtain ⟨hkl, rfl⟩ := List.getElem?_eq_some_iff.mp hk
  obtain ⟨hjl, rfl⟩ := List.getElem?_eq_some_iff.mp hj
  rcases Nat.lt_trichotomy j k with hlt | heq | hlt
  · exact absurd hl (hapart j k hjl hkl hlt hs)
  · exact heq
  · exact absurd hs (hapart k j hkl hjl hlt hl)

theorem segmented_ownRuns {labels : List CaseLabel} (h : labels.Pairwise fun a b => a.start < b.start) :
    Segmented terminator body labels (ownRuns terminator body labels) := by
  have hnodup : labels.Nodup := h.imp fun hlt heq => absurd (heq ▸ hlt) (Nat.lt_irrefl _)
  refine ⟨h, fun hl => mem_ownRuns_iff hnodup hl, fun l hl => exists_unique_run (hnodup.sublist (ownRuns_sublist labels)) hl,
    fun r hr l hl hown => ?_, fun r hr _ _ _ hl hnext hmem hwaits => next_mem_run hnodup hr hl hnext hmem hwaits,
    eq_filter_of_sublist hnodup (ownRuns_sublist labels)⟩
  obtain ⟨waiting, last, rfl, -, hall⟩ := waits_or_last hr
  rcases List.mem_append.mp hl with hl | hl
  · exact absurd hown (hall l hl).not_terminated
  · rw [List.mem_singleton.mp hl, List.getLast?_concat]

end Groups

/-- Code that is decided label by label loses and doubles no label. The groups are those of runs of labels: a label
    with a terminator in its own span is the last of a run, a label that waits is in the run of the next label if
    that one is in any, and no other label is in a run. The numbers of all groups are those of the labels in them,
    in source order. -/
theorem own_span_groups_exact (terminator : Pattern) (body : List Char) :
    ∃ runs, Segmented terminator body (caseLabels body) runs ∧
      List.Forall₂ (GroupOf terminator body) runs (caseGroups .ownSpan terminator body) ∧
      (caseGroups .ownSpan terminator body).flatMap (·.ids) =
        ((caseLabels body).filter (· ∈ runs.flatten)).map (·.id) := by
  have hsegmented := @segmented_ownRuns terminator body _ (ascending_caseLabels body)
  have hgroups : List.Forall₂ (GroupOf terminator body) (ownRuns terminator body (caseLabels body))
      (caseGroups .ownSpan terminator body) := by
    have h := @ownSpanGroups_spec terminator body [] (caseLabels body)
    rwa [joinFirst_nil, ite_self] at h
  refine ⟨_, hsegmented, hgroups, ?_⟩
  rw [← hsegmented.ordered]
  generalize ownRuns terminator body (caseLabels body) = runs, caseGroups .ownSpan terminator body = groups at hgroups
  induction hgroups with
  | nil => rfl
  | cons hg _ ih => rw [List.flatMap_cons, hg.ids, ih, List.flatten_cons, List.map_append]

-- A blank label before code without a terminator is dropped with it; one before a label with a terminator joins that label.
example :
    (caseGroups .ownSpan returnWord "case 1:\ncase 2:\nx = 1;\ncase 3:\ncase 4:\nreturn 7;\ncase 5:\n".toList).map
        (fun g => (g.ids, g.offset)) = [([3, 4], 23)] := by decide +kernel

end SpriteFacts.Switch
