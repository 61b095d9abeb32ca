import SpriteFacts.Proofs.Switch.LabelText

/-! The labels of a switch, read off one scan of its body for landmarks. A label owns the marks behind it up to
    the next label with a sprite number or the next default label, and `stationsOf` walks through the marks once
    and gives each label its span and all the marks behind it. -/

namespace SpriteFacts.Switch

open Text Pattern

/-- What a scan for landmarks marks. -/
abbrev LandMark := Mark Landmark

theorem textOf_plain {ι : Type} (t : List Char) : Mark.textOf (t.map (Mark.plain : Char → Mark ι)) = t := by
  induction t with
  | nil => rfl
  | cons c t ih => exact congrArg (c :: ·) ih

theorem clear_blank (i : Landmark) {behind t : List Char} {last : Option Char} (ht : t.all isBlank = true) :
    i.pattern.Clear behind last t :=
  (Landmark.begins i).clear_of_blank (by cases i <;> decide) ht

/-- The sprite number of a label; none for a label whose number is out of range, and for anything else. -/
def number? : LandMark → Option Nat
  | .found .numbered t kept => word? (Match.group ⟨0, 0, t, kept⟩ 1)
  | _ => none

/-- The mark ends the span of the label before it. -/
def endsSpan (m : LandMark) : Bool := (number? m).isSome || m.isOf .fallback

/-- The marks up to the next one that ends a span. -/
def owned (ms : List LandMark) : List LandMark := ms.takeWhile fun m => !endsSpan m

/-- A label and the marks behind it. -/
structure Station where
  label : CaseLabel
  marks : List LandMark

/-- The stations of marks that start at a byte offset. -/
def stationsOf : Nat → List LandMark → List Station
  | _, [] => []
  | n, m :: ms =>
    let next := n + byteLength m.text
    match number? m with
    | some id => ⟨⟨id, n, next, next + byteLength (Mark.textOf (owned ms))⟩, ms⟩ :: stationsOf next ms
    | none => stationsOf next ms

/-- The labels among marks that start at a byte offset. -/
def labelsOf (n : Nat) (ms : List LandMark) : List CaseLabel := (stationsOf n ms).map (·.label)

theorem number?_of_mem_plain {t : List Char} {m : LandMark} (h : m ∈ t.map Mark.plain) : number? m = none := by
  obtain ⟨c, -, rfl⟩ := List.mem_map.mp h
  rfl

theorem endsSpan_of_mem_plain {t : List Char} {m : LandMark} (h : m ∈ t.map Mark.plain) : endsSpan m = false := by
  obtain ⟨c, -, rfl⟩ := List.mem_map.mp h
  rfl

theorem number?_of_not_ends {m : LandMark} (h : endsSpan m = false) : number? m = none := by
  rw [endsSpan, Bool.or_eq_false_iff, Option.isSome_eq_false_iff] at h
  exact Option.isNone_iff_eq_none.mp h.1

theorem owned_append_of_not_ends {us : List LandMark} (h : ∀ m ∈ us, endsSpan m = false) (ms : List LandMark) :
    owned (us ++ ms) = us ++ owned ms :=
  List.takeWhile_append_of_pos fun m hm => by rw [h m hm]; rfl

section Cons
variable {m : LandMark}

theorem stationsOf_none (h : number? m = none) (n : Nat) (ms : List LandMark) :
    stationsOf n (m :: ms) = stationsOf (n + byteLength m.text) ms := by
  rw [stationsOf, h]

theorem stationsOf_some {id : Nat} (h : number? m = some id) (n : Nat) (ms : List LandMark) :
    stationsOf n (m :: ms) = ⟨⟨id, n, n + byteLength m.text, n + byteLength m.text + byteLength (Mark.textOf (owned ms))⟩, ms⟩ ::
      stationsOf (n + byteLength m.text) ms := by
  rw [stationsOf, h]

theorem labelsOf_none (h : number? m = none) (n : Nat) (ms : List LandMark) :
    labelsOf n (m :: ms) = labelsOf (n + byteLength m.text) ms :=
  congrArg (List.map Station.label) (stationsOf_none h n ms)

theorem labelsOf_some {id : Nat} (h : number? m = some id) (n : Nat) (ms : List LandMark) :
    labelsOf n (m :: ms) = ⟨id, n, n + byteLength m.text, n + byteLength m.text + byteLength (Mark.textOf (owned ms))⟩ ::
      labelsOf (n + byteLength m.text) ms :=
  congrArg (List.map Station.label) (stationsOf_some h n ms)

end Cons

/-! ### The spans -/

theorem labelOf?_found (n : Nat) (t : List Char) (kept : List (Nat × List Char)) :
    labelOf? ⟨n, n + byteLength t, t, kept⟩ = (number? (.found .numbered t kept)).map fun id =>
      ⟨id, n, n + byteLength t, n + byteLength t⟩ := rfl

/-- The labels that a mark at an offset is, before they have a span. -/
def labelAt (n : Nat) (m : LandMark) : List CaseLabel :=
  (number? m).toList.map fun id => ⟨id, n, n + byteLength m.text, n + byteLength m.text⟩

theorem labelAt_none {m : LandMark} (h : number? m = none) (n : Nat) : labelAt n m = [] := by
  rw [labelAt, h]
  rfl

theorem labelAt_some {m : LandMark} {id : Nat} (h : number? m = some id) (n : Nat) :
    labelAt n m = [⟨id, n, n + byteLength m.text, n + byteLength m.text⟩] := by
  rw [labelAt, h]
  rfl

theorem labels_cons (n : Nat) (m : LandMark) (ms : List LandMark) :
    (Mark.matchesOf .numbered n (m :: ms)).filterMap labelOf? =
      labelAt n m ++ (Mark.matchesOf .numbered (n + byteLength m.text) ms).filterMap labelOf? := by
  match m with
  | .plain c => rfl
  | .found .fallback t kept => rfl
  | .found .leave t kept => rfl
  | .found .numbered t kept =>
    cases hid : number? (.found .numbered t kept) <;>
      simp [Mark.matchesOf, labelOf?_found, labelAt, hid, Mark.text]

theorem starts_cons (i : Landmark) (n : Nat) (m : LandMark) (ms : List LandMark) :
    (Mark.matchesOf i n (m :: ms)).map (·.start) =
      (if m.isOf i then [n] else []) ++ (Mark.matchesOf i (n + byteLength m.text) ms).map (·.start) := by
  cases m with
  | plain c => rfl
  | found j t kept =>
    by_cases hj : j = i
    · simp [Mark.matchesOf, Mark.isOf, Mark.text, hj]
    · simp [Mark.matchesOf, Mark.isOf, Mark.text, hj]

theorem byteLength_pos {t : List Char} (h : t ≠ []) : 0 < byteLength t := by
  cases t with
  | nil => exact absurd rfl h
  | cons c t => exact Nat.lt_of_lt_of_le c.utf8Size_pos (Nat.le_add_right _ _)

theorem byteLength_text_cons (m : LandMark) (ms : List LandMark) (k : Nat) :
    k + byteLength (Mark.textOf (m :: ms)) = k + byteLength m.text + byteLength (Mark.textOf ms) := by
  rw [Mark.textOf_cons, byteLength_append, Nat.add_assoc]

/-- Marks without a number come before no label. -/
theorem stationsOf_append_of_none {us : List LandMark} (h : ∀ m ∈ us, number? m = none) (n : Nat) (ms : List LandMark) :
    stationsOf n (us ++ ms) = stationsOf (n + byteLength (Mark.textOf us)) ms := by
  induction us generalizing n with
  | nil => rfl
  | cons u us ih =>
    rw [List.cons_append, stationsOf_none (h u List.mem_cons_self), ih fun m hm => h m (List.mem_cons_of_mem u hm),
      byteLength_text_cons]

/-- The next label starts behind the marks that are none. -/
theorem head_labels (k : Nat) (ms : List LandMark) :
    ((((Mark.matchesOf .numbered k ms).filterMap labelOf?).head?).map (·.start)).getD (k + byteLength (Mark.textOf ms))
      = k + byteLength (Mark.textOf (ms.takeWhile fun m => (number? m).isNone)) := by
  induction ms generalizing k with
  | nil => rfl
  | cons m ms ih =>
    rw [labels_cons, byteLength_text_cons]
    cases hid : number? m with
    | none =>
      rw [labelAt_none hid, List.nil_append, ih, List.takeWhile_cons_of_pos (by rw [hid]; rfl), byteLength_text_cons]
    | some id =>
      rw [labelAt_some hid, List.takeWhile_cons_of_neg (by rw [hid]; simp)]
      rfl

/-- The next landmark of a kind starts behind the marks that are none, wherever earlier ones start. -/
theorem nextStart_eq (i : Landmark) {k n : Nat} (hk : k ≤ n) (ms : List LandMark) {earlier : List Nat}
    (he : ∀ d ∈ earlier, d < k) :
    nextDefault (earlier ++ (Mark.matchesOf i n ms).map (·.start)) (n + byteLength (Mark.textOf ms)) k
      = n + byteLength (Mark.textOf (ms.takeWhile fun m => !m.isOf i)) := by
  have hearlier : earlier.find? (fun d => decide (k ≤ d)) = none := by
    rw [List.find?_eq_none]
    intro d hd
    have := he d hd
    simpa using this
  unfold nextDefault
  rw [List.find?_append, hearlier, Option.none_or]
  clear hearlier he
  induction ms generalizing n with
  | nil => rfl
  | cons m ms ih =>
    rw [starts_cons, byteLength_text_cons]
    cases hm : m.isOf i with
    | false =>
      rw [if_neg (by simp), List.nil_append, ih (Nat.le_trans hk (Nat.le_add_right n _)),
        List.takeWhile_cons_of_pos (by rw [hm]; rfl), byteLength_text_cons]
    | true => simp [hm, hk]

theorem min_takeWhile (p q : LandMark → Bool) (ms : List LandMark) :
    min (byteLength (Mark.textOf (ms.takeWhile p))) (byteLength (Mark.textOf (ms.takeWhile q)))
      = byteLength (Mark.textOf (ms.takeWhile fun m => p m && q m)) := by
  induction ms with
  | nil => rfl
  | cons m ms ih =>
    cases hp : p m <;> cases hq : q m <;> simp [hp, hq]
    omega

/-- A span ends where the next label or the next default label starts, whichever comes first. -/
theorem stop_eq (k : Nat) (ms : List LandMark) {earlier : List Nat} (he : ∀ d ∈ earlier, d < k) :
    min ((((Mark.matchesOf .numbered k ms).filterMap labelOf?).head?.map (·.start)).getD (k + byteLength (Mark.textOf ms)))
        (nextDefault (earlier ++ (Mark.matchesOf .fallback k ms).map (·.start)) (k + byteLength (Mark.textOf ms)) k)
      = k + byteLength (Mark.textOf (owned ms)) := by
  have howned : owned ms = ms.takeWhile fun m => (number? m).isNone && !m.isOf .fallback := by
    unfold owned
    congr 1
    funext m
    rw [endsSpan, Bool.not_or, Option.not_isSome]
  rw [head_labels, nextStart_eq .fallback (Nat.le_refl k) ms he, Nat.add_min_add_left, min_takeWhile, howned]

theorem spanLabels_eq {n : Nat} {ms : List LandMark} {earlier : List Nat} (he : ∀ d ∈ earlier, d < n)
    (hne : ∀ m ∈ ms, m.text ≠ []) :
    spanLabels (earlier ++ (Mark.matchesOf .fallback n ms).map (·.start)) (n + byteLength (Mark.textOf ms))
      ((Mark.matchesOf .numbered n ms).filterMap labelOf?) = labelsOf n ms := by
  induction ms generalizing n earlier with
  | nil => rfl
  | cons m ms ih =>
    have hpos := byteLength_pos (hne m List.mem_cons_self)
    have later : ∀ d ∈ earlier ++ (if m.isOf .fallback then [n] else []), d < n + byteLength m.text := fun d hd => by
      rcases List.mem_append.mp hd with hd | hd
      · exact Nat.lt_of_lt_of_le (he d hd) (Nat.le_add_right _ _)
      · split at hd
        · obtain rfl := List.mem_singleton.mp hd
          omega
        · cases hd
    have htail := ih later fun m hm => hne m (List.mem_cons_of_mem _ hm)
    have hstop := stop_eq (n + byteLength m.text) ms later
    rw [labels_cons, starts_cons, byteLength_text_cons, ← List.append_assoc]
    cases hid : number? m with
    | none =>
      rw [labelsOf_none hid, labelAt_none hid]
      exact htail
    | some id =>
      rw [labelsOf_some hid, labelAt_some hid, List.singleton_append, spanLabels, hstop, htail]

/-- The case labels of a body are those of its marks. -/
theorem caseLabels_eq {body : List Char} {ms : List LandMark} (h : Scan Landmark.pattern none body ms) :
    caseLabels body = labelsOf 0 ms := by
  have hcase := h.findAll_eq .numbered
  have hdefault := h.findAll_eq .fallback
  have htext := congrArg Text.byteLength h.textOf_eq
  have := @spanLabels_eq 0 ms [] (by simp) h.text_ne_nil
  rw [List.nil_append, Nat.zero_add, htext, ← hcase, ← hdefault] at this
  exact this

end SpriteFacts.Switch
