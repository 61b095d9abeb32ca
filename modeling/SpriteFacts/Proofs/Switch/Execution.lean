import SpriteFacts.Proofs.Switch.Deletion
import SpriteFacts.Proofs.Switch.Lines

/-! A switch of lines that runs forward from a label. Control comes through labels and statements to the first
    `break;`, and without a default label the marks of the text find that `break;` too. Taking the labels out
    of such a text brings neither a `break;` nor a comment together. -/

namespace SpriteFacts.Switch

open Text Pattern

section Lines
variable {σ : Type}

/-- The statements that run from a line on to the first `break;`, if there is one. -/
def execute : List (Line σ) → Option (List σ)
  | [] => none
  | l :: ls =>
    match l.item with
    | .leave => some []
    | .code s => (execute ls).map (s :: ·)
    | .label _ | .fallback => execute ls

theorem labelled_suffix {ls : List (Line σ)} {p : Numeral maxWord × List (Line σ)} (h : p ∈ labelled ls) : p.2 <:+ ls := by
  induction ls with
  | nil => cases h
  | cons l ls ih =>
    rw [labelled] at h
    split at h
    · rcases List.mem_cons.mp h with rfl | h
      · exact List.suffix_cons _ _
      · exact (ih h).trans (List.suffix_cons _ _)
    · exact (ih h).trans (List.suffix_cons _ _)

end Lines

/-! ### Marks without a default label -/

/-- Without a default label the chain of a label ends exactly if there is a `break;` behind it. -/
theorem isSome_toBreak {ms : List LandMark} (h : ∀ m ∈ ms, m.isOf .fallback = false) : (toBreak ms).isSome = hasBreak ms := by
  have hstep : ∀ {ms : List LandMark}, (∀ m ∈ ms, m.isOf .fallback = false) →
      (hasBreak (owned ms) || (toLaterBreak ms).isSome) = hasBreak ms := by
    intro ms h
    induction ms with
    | nil => rfl
    | cons m ms ih =>
      have htail := ih fun x hx => h x (List.mem_cons_of_mem m hx)
      have hcons : hasBreak (m :: ms) = (m.isOf .leave || hasBreak ms) := rfl
      rw [toLaterBreak, hcons, ← htail]
      cases hid : number? m with
      | none =>
        have howned : owned (m :: ms) = m :: owned ms :=
          List.takeWhile_cons_of_pos (by rw [endsSpan, hid, h m List.mem_cons_self]; rfl)
        have hbreak : hasBreak (m :: owned ms) = (m.isOf .leave || hasBreak (owned ms)) := rfl
        rw [howned, hbreak, Bool.or_assoc]
        simp
      | some id =>
        have howned : owned (m :: ms) = [] := List.takeWhile_cons_of_neg (by rw [endsSpan, hid]; simp)
        obtain ⟨t, kept, rfl⟩ := isFound_of_number? hid
        rw [howned]
        cases hasBreak (owned ms) <;> simp [hasBreak, Mark.isOf]
  rw [toBreak, ← hstep h]
  cases hasBreak (owned ms) <;> rfl

theorem beforeBreak_plain (t : List Char) (ms : List LandMark) :
    beforeBreak (t.map .plain ++ ms) = t.map .plain ++ beforeBreak ms := by
  refine List.takeWhile_append_of_pos fun m hm => ?_
  obtain ⟨c, -, rfl⟩ := List.mem_map.mp hm
  rfl

theorem unlabelled_plain (t : List Char) : unlabelled (t.map .plain) = t := by
  induction t with
  | nil => rfl
  | cons c t ih => exact congrArg (c :: ·) ih

theorem hasBreak_plain (t : List Char) : hasBreak (t.map .plain) = false := by
  induction t with
  | nil => rfl
  | cons c t ih => exact ih

section Statements
variable {σ : Type} [Statement σ]

theorem linesMarks_cons (l : Line σ) (ls : List (Line σ)) (ms : List LandMark) :
    linesMarks (l :: ls) ++ ms = l.gap.map .plain ++ (l.item.marks ++ (linesMarks ls ++ ms)) := by
  simp [linesMarks]

/-- The marks of lines hold a `break;` exactly if the lines run to one. -/
theorem hasBreak_lines (ls : List (Line σ)) (tail : List Char) :
    hasBreak (linesMarks ls ++ tail.map .plain) = (execute ls).isSome := by
  induction ls with
  | nil => exact hasBreak_plain tail
  | cons l ls ih =>
    rw [linesMarks_cons, hasBreak_append, hasBreak_plain, hasBreak_append, ih, execute]
    cases l.item with
    | label n | fallback | leave => rfl
    | code s => rw [Item.marks, hasBreak_plain, Option.isSome_map]; rfl

theorem not_fallback_lines {ls : List (Line σ)} (h : ∀ l ∈ ls, l.item ≠ .fallback) (tail : List Char) :
    ∀ m ∈ linesMarks ls ++ tail.map .plain, m.isOf .fallback = false := by
  have hplain : ∀ {t : List Char} {m : LandMark}, m ∈ t.map Mark.plain → m.isOf .fallback = false := by
    intro t m hm
    obtain ⟨c, -, rfl⟩ := List.mem_map.mp hm
    rfl
  intro m hm
  rcases List.mem_append.mp hm with hm | hm
  · obtain ⟨l, hl, hm⟩ := List.mem_flatMap.mp hm
    rcases List.mem_append.mp hm with hm | hm
    · exact hplain hm
    · have hitem := h l hl
      cases hi : l.item with
      | fallback => exact absurd hi hitem
      | label n | leave =>
        rw [hi] at hm
        rw [List.mem_singleton.mp hm]
        rfl
      | code s =>
        rw [hi] at hm
        exact hplain hm
  · exact hplain hm

/-! ### Taking the labels out -/

def withoutNumbered (ms : List LandMark) : List LandMark := ms.filter fun m => !m.isOf .numbered

theorem withoutNumbered_plain (t : List Char) : withoutNumbered (t.map .plain) = t.map .plain := by
  refine List.filter_eq_self.mpr fun m hm => ?_
  obtain ⟨c, -, rfl⟩ := List.mem_map.mp hm
  rfl

theorem withoutNumbered_append (as bs : List LandMark) : withoutNumbered (as ++ bs) = withoutNumbered as ++ withoutNumbered bs :=
  List.filter_append ..

/-- Without their labels lines are marked as before. -/
theorem scan_unlabelled_lines (ls : List (Line σ)) {last : Option Char} (hlast : last.any isWord = false) {cs : List Char}
    {ms : List LandMark} (rest : ∀ {last : Option Char}, last.any isWord = false → Scan Landmark.pattern last cs ms) :
    Scan Landmark.pattern last (unlabelled (linesMarks ls) ++ cs) (withoutNumbered (linesMarks ls) ++ ms) := by
  induction ls generalizing last with
  | nil => exact rest hlast
  | cons l ls ih =>
    have hcons := linesMarks_cons l ls []
    rw [List.append_nil, List.append_nil] at hcons
    rw [hcons]
    simp only [unlabelled_append, withoutNumbered_append, unlabelled_plain, withoutNumbered_plain, List.append_assoc]
    refine Scan.prepend (fun i => clear_blank i l.blank) ?_
    have hedge := lastOf_blank l.blank hlast
    cases l.item with
    | label n => exact ih hedge
    | fallback => exact scan_item (σ := σ) .fallback hedge ih
    | leave => exact scan_item (σ := σ) .leave hedge ih
    | code s =>
      rw [Item.marks, unlabelled_plain, withoutNumbered_plain]
      exact scan_item (.code s) hedge ih

/-- Taking the labels out of a switch brings no `break;` together. -/
theorem createsNone_switch (ls : List (Line σ)) : CreatesNone breakStatement (switchText ls) := by
  have hscan := scan_switch ls
  have hwithout : withoutLabels (switchText ls) = unlabelled (switchMarks ls) := hscan.replaceAll_eq .numbered fun _ => []
  have hdeleted : Scan Landmark.pattern none (unlabelled (switchMarks ls)) (withoutNumbered (switchMarks ls)) := by
    simp only [switchMarks, unlabelled_append, withoutNumbered_append, unlabelled_plain, withoutNumbered_plain]
    refine Scan.prepend (fun i => clear_of_startless i (by decide)) ?_
    refine scan_unlabelled_lines ls (by decide) fun {last} _ => ?_
    have hend : Scan Landmark.pattern (lastOf last switchTail) [] [] := .nil fun i => (Landmark.steady i).read?_nil
    have htail := Scan.prepend (fun i => clear_of_startless i (startless_of_all (by decide))) hend
    simpa using htail
  have hcount : (withoutNumbered (switchMarks ls)).countP (Mark.isOf .leave) = (switchMarks ls).countP (Mark.isOf .leave) := by
    rw [withoutNumbered, List.countP_filter]
    congr 1
    funext m
    rcases m with c | ⟨i, t, kept⟩
    · rfl
    · cases i <;> rfl
  rw [CreatesNone, hwithout]
  exact Nat.le_of_eq ((hdeleted.length_findAll .leave).trans (hcount.trans (hscan.length_findAll .leave).symm))

theorem mem_of_mem_unlabelled {ms : List LandMark} {c : Char} (h : c ∈ unlabelled ms) : c ∈ Mark.textOf ms := by
  obtain ⟨m, hm, hc⟩ := List.mem_flatMap.mp h
  refine List.mem_flatMap.mpr ⟨m, hm, ?_⟩
  match m with
  | .plain d | .found .fallback t kept | .found .leave t kept => exact hc
  | .found .numbered t kept => cases hc

theorem commentFree_unlabelled_switch (ls : List (Line σ)) : CommentFree (withoutLabels (switchText ls)) := by
  have hscan := scan_switch ls
  have hwithout : withoutLabels (switchText ls) = unlabelled (switchMarks ls) := hscan.replaceAll_eq .numbered fun _ => []
  rw [hwithout]
  refine commentFree_of_not_mem fun hmem => slash_not_mem_switch ls ?_
  rw [← hscan.textOf_eq]
  exact mem_of_mem_unlabelled hmem

end Statements

end SpriteFacts.Switch
