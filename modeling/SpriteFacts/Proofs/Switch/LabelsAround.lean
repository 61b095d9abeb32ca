import Mathlib.Data.List.Forall2
import SpriteFacts.Proofs.Switch.MarksAround
import SpriteFacts.Proofs.Text.Replaced

/-! Labels around a part of a body. The labels are the same for every filling of the place, and only the code of the
    label around it changes: a label in front of the place may own it, one whose match holds the place or that stands
    behind it owns code without it. -/

namespace SpriteFacts.Switch

open Text Pattern

/-! ### Labels around a part -/

/-- The code of the label holds the place at a byte offset of the body. -/
def CaseLabel.Holds (l : CaseLabel) (site : Nat) : Prop := l.codeStart ≤ site ∧ site < l.stop

/-- The code that the label of a station owns. -/
def Station.owns (s : Station) : List Char := Mark.textOf (owned s.marks)

theorem MarksAt.code_station {body : List Char} {n : Nat} {ms : List LandMark} (h : MarksAt body n ms) :
    ∀ s ∈ stationsOf n ms, s.label.code body = s.owns ∧ s.label.stop = s.label.codeStart + byteLength s.owns := by
  induction ms generalizing n with
  | nil => exact fun s hs => absurd hs List.not_mem_nil
  | cons m ms ih =>
    intro s hs
    cases hid : number? m with
    | none =>
      rw [stationsOf_none hid] at hs
      exact ih h.tail s hs
    | some id =>
      rw [stationsOf_some hid] at hs
      rcases List.mem_cons.mp hs with rfl | hs
      · exact ⟨h.tail.code_eq id n, rfl⟩
      · exact ih h.tail s hs

/-- The same label around a part of the body that is filled in two ways. The part stands outside of its code, which
    is then the same, or within it. -/
inductive Twin (front back part part' : List Char) (s s' : Station) : Prop where
  | apart (id : s.label.id = s'.label.id)
      (place : SamePlace (byteLength front) (byteLength part) (byteLength part') s.label.start s'.label.start)
      (code : s.owns = s'.owns) (outside : ¬s.label.Holds (byteLength front)) (outside' : ¬s'.label.Holds (byteLength front))
  | around (id : s.label.id = s'.label.id)
      (place : SamePlace (byteLength front) (byteLength part) (byteLength part') s.label.start s'.label.start)
      (x y : List Char) (hx : x <:+ front) (hy : y <+: back) (code : s.owns = x ++ (part ++ y))
      (code' : s'.owns = x ++ (part' ++ y)) (inside : s.label.Holds (byteLength front))
      (inside' : s'.label.Holds (byteLength front))

section Twins
variable {front back part part' x y : List Char} {us vs ws ws' : List LandMark}

theorem twins_behind (hne : part ≠ []) (hne' : part' ≠ []) (vs : List LandMark) (d : Nat) :
    List.Forall₂ (Twin front back part part') (stationsOf (byteLength front + byteLength part + d) vs)
      (stationsOf (byteLength front + byteLength part' + d) vs) := by
  have hpos := byteLength_pos hne
  have hpos' := byteLength_pos hne'
  induction vs generalizing d with
  | nil => exact .nil
  | cons m vs ih =>
    have hnext := ih (d + byteLength m.text)
    rw [← Nat.add_assoc, ← Nat.add_assoc] at hnext
    cases hid : number? m with
    | none =>
      rw [stationsOf_none hid, stationsOf_none hid]
      exact hnext
    | some id =>
      rw [stationsOf_some hid, stationsOf_some hid]
      refine .cons (.apart rfl (.behind d) rfl ?_ ?_) hnext
      · rintro ⟨hle, -⟩
        simp only at hle
        omega
      · rintro ⟨hle, -⟩
        simp only at hle
        omega

theorem owned_append_of_exists (h : ∃ m ∈ us, endsSpan m = true) (ws : List LandMark) : owned (us ++ ws) = owned us := by
  induction us with
  | nil => simp at h
  | cons m us ih =>
    cases hm : endsSpan m with
    | true => simp [owned, hm]
    | false =>
      have hus : ∃ k ∈ us, endsSpan k = true := by simpa [hm] using h
      have := ih hus
      unfold owned at this ⊢
      rw [List.cons_append, List.takeWhile_cons_of_pos (by simp [hm]), List.takeWhile_cons_of_pos (by simp [hm]), this]

/-- The same match of a label in two runs. The code behind it may differ. -/
structure SameMatch (s s' : Station) : Prop where
  id : s.label.id = s'.label.id
  start : s.label.start = s'.label.start
  codeStart : s.label.codeStart = s'.label.codeStart
  start_le : s.label.start ≤ s.label.codeStart
  stop : s.label.stop = s.label.codeStart + byteLength s.owns
  stop' : s'.label.stop = s'.label.codeStart + byteLength s'.owns

theorem sameMatch (n k id : Nat) (ms ms' : List LandMark) :
    SameMatch ⟨⟨id, n, n + k, n + k + byteLength (Mark.textOf (owned ms))⟩, ms⟩
      ⟨⟨id, n, n + k, n + k + byteLength (Mark.textOf (owned ms'))⟩, ms'⟩ :=
  ⟨rfl, rfl, rfl, Nat.le_add_right n k, rfl, rfl⟩

/-- A label whose span ends in front of the part. -/
theorem SameMatch.before {s s' : Station} (h : SameMatch s s') (code : s.owns = s'.owns)
    (hstop : s.label.codeStart + byteLength s.owns ≤ byteLength front) : Twin front back part part' s s' := by
  have hstart := h.start_le
  refine .apart h.id (h.start ▸ .before _ (by omega)) code (fun hin => ?_) fun hin => ?_
  · have := hin.2
    rw [h.stop] at this
    omega
  · have := hin.2
    rw [h.stop', ← h.codeStart, ← code] at this
    omega

/-- A label with the part in its span. -/
theorem SameMatch.around {s s' : Station} (h : SameMatch s s') (hne : part ≠ []) (hne' : part' ≠ [])
    (hx : x <:+ front) (hy : y <+: back) (hplace : s.label.codeStart + byteLength x = byteLength front)
    (code : s.owns = x ++ (part ++ y)) (code' : s'.owns = x ++ (part' ++ y)) : Twin front back part part' s s' := by
  have hstart := h.start_le
  have hpos := byteLength_pos hne
  have hpos' := byteLength_pos hne'
  refine .around h.id (h.start ▸ .before _ (by omega)) x y hx hy code code' ⟨by omega, ?_⟩ ⟨by rw [← h.codeStart]; omega, ?_⟩
  · rw [h.stop, code, byteLength_append, byteLength_append]
    omega
  · rw [h.stop', ← h.codeStart, code', byteLength_append, byteLength_append]
    omega

/-- Labels in front of the part own it if nothing ends their span before. -/
theorem twins_append (hne : part ≠ []) (hne' : part' ≠ []) {n : Nat} (hfront : Mark.textOf us ++ x <:+ front)
    (hn : n + byteLength (Mark.textOf us ++ x) = byteLength front)
    (howned : owned ws = [] ∧ owned ws' = [] ∨ ∃ y, y <+: back ∧ Mark.textOf (owned ws) = x ++ (part ++ y) ∧
      Mark.textOf (owned ws') = x ++ (part' ++ y))
    (base : List.Forall₂ (Twin front back part part') (stationsOf (n + byteLength (Mark.textOf us)) ws)
      (stationsOf (n + byteLength (Mark.textOf us)) ws')) :
    List.Forall₂ (Twin front back part part') (stationsOf n (us ++ ws)) (stationsOf n (us ++ ws')) := by
  induction us generalizing n with
  | nil => exact base
  | cons m us ih =>
    rw [Mark.textOf_cons, List.append_assoc] at hfront hn
    rw [byteLength_text_cons] at base
    have hsuffix : Mark.textOf us ++ x <:+ front := (List.suffix_append _ _).trans hfront
    have hbehind : n + byteLength m.text + byteLength (Mark.textOf us ++ x) = byteLength front := by
      rw [← hn, byteLength_append m.text, Nat.add_assoc]
    have htail := ih hsuffix hbehind base
    rw [List.cons_append, List.cons_append]
    cases hid : number? m with
    | none =>
      rw [stationsOf_none hid, stationsOf_none hid]
      exact htail
    | some id =>
      rw [stationsOf_some hid, stationsOf_some hid]
      refine .cons ?_ htail
      have hsame := sameMatch n (byteLength m.text) id (us ++ ws) (us ++ ws')
      by_cases hinert : ∀ k ∈ us, endsSpan k = false
      · rcases howned with ⟨hnil, hnil'⟩ | ⟨y, hy, hcode, hcode'⟩
        · have howns : ∀ {ws : List LandMark}, owned ws = [] → Mark.textOf (owned (us ++ ws)) = Mark.textOf us := fun h => by
            rw [owned_append_of_not_ends hinert, h, List.append_nil]
          refine hsame.before ((howns hnil).trans (howns hnil').symm) ?_
          rw [Station.owns, howns hnil, ← hbehind, byteLength_append]
          exact Nat.add_le_add_left (Nat.le_add_right _ _) _
        · have howns : ∀ {part : List Char} {ws : List LandMark}, Mark.textOf (owned ws) = x ++ (part ++ y) →
              Mark.textOf (owned (us ++ ws)) = (Mark.textOf us ++ x) ++ (part ++ y) := fun h => by
            rw [owned_append_of_not_ends hinert, Mark.textOf_append, h, List.append_assoc]
          exact hsame.around hne hne' hsuffix hy hbehind (howns hcode) (howns hcode')
      · have hends : ∃ k ∈ us, endsSpan k = true := by simpa using hinert
        obtain ⟨more, hmore⟩ := owned_append us
        have hsize := congrArg (fun ms => byteLength (Mark.textOf ms)) hmore
        simp only [Mark.textOf_append, byteLength_append] at hsize hbehind
        have howns : ∀ ws : List LandMark, Mark.textOf (owned (us ++ ws)) = Mark.textOf (owned us) := fun ws => by
          rw [owned_append_of_exists hends]
        refine hsame.before ((howns ws).trans (howns ws').symm) ?_
        rw [Station.owns, howns ws]
        show n + byteLength m.text + _ ≤ _
        omega

/-- Which label a mark is depends on what its match keeps, not on how it is written. -/
theorem number?_found (i : Landmark) (t t' : List Char) (kept : List (Nat × List Char)) :
    number? (.found i t kept) = number? (.found i t' kept) := by cases i <;> rfl

theorem endsSpan_found (i : Landmark) (t t' : List Char) (kept : List (Nat × List Char)) :
    endsSpan (.found i t kept) = endsSpan (.found i t' kept) := by cases i <;> rfl

theorem textOf_owned_found {i : Landmark} {t : List Char} {kept : List (Nat × List Char)}
    (h : endsSpan (.found i t kept) = false) (vs : List LandMark) :
    Mark.textOf (owned (.found i t kept :: vs)) = t ++ Mark.textOf (owned vs) := by
  have hcons : owned (.found i t kept :: vs) = .found i t kept :: owned vs := List.takeWhile_cons_of_pos (by rw [h]; rfl)
  rw [hcons]
  rfl

theorem prefix_textOf_owned (vs : List LandMark) : Mark.textOf (owned vs) <+: Mark.textOf vs := by
  obtain ⟨more, hmore⟩ := owned_append vs
  exact ⟨Mark.textOf more, by rw [← Mark.textOf_append, ← hmore]⟩

/-- The part stands between two landmarks. -/
theorem twins_between {ks ks' : List LandMark} (hne : Mark.textOf ks ≠ []) (hne' : Mark.textOf ks' ≠ [])
    (hinert : ∀ m ∈ ks, endsSpan m = false) (hinert' : ∀ m ∈ ks', endsSpan m = false) (us vs : List LandMark) :
    List.Forall₂ (Twin (Mark.textOf us) (Mark.textOf vs) (Mark.textOf ks) (Mark.textOf ks'))
      (stationsOf 0 (us ++ (ks ++ vs))) (stationsOf 0 (us ++ (ks' ++ vs))) := by
  refine twins_append (x := []) hne hne' ⟨[], List.append_nil _⟩ ?_ (Or.inr ?_) ?_
  · rw [List.append_nil, Nat.zero_add]
  · refine ⟨Mark.textOf (owned vs), prefix_textOf_owned vs, ?_, ?_⟩
    · rw [owned_append_of_not_ends hinert, Mark.textOf_append]
      rfl
    · rw [owned_append_of_not_ends hinert', Mark.textOf_append]
      rfl
  · rw [stationsOf_append_of_none fun m hm => number?_of_not_ends (hinert m hm),
      stationsOf_append_of_none fun m hm => number?_of_not_ends (hinert' m hm), Nat.zero_add]
    exact twins_behind hne hne' vs 0

/-- The part stands inside of a landmark. -/
theorem twins_within (hne : part ≠ []) (hne' : part' ≠ []) (us : List LandMark) (i : Landmark) (x y : List Char)
    (kept : List (Nat × List Char)) (vs : List LandMark) :
    List.Forall₂ (Twin (Mark.textOf us ++ x) (y ++ Mark.textOf vs) part part')
      (stationsOf 0 (us ++ .found i (x ++ (part ++ y)) kept :: vs))
      (stationsOf 0 (us ++ .found i (x ++ (part' ++ y)) kept :: vs)) := by
  refine twins_append (x := x) hne hne' (List.suffix_refl _) (Nat.zero_add _) ?_ ?_
  · cases hends : endsSpan (.found i (x ++ (part ++ y)) kept) with
    | true =>
      have hends' : endsSpan (.found i (x ++ (part' ++ y)) kept) = true := (endsSpan_found i _ _ kept).trans hends
      exact Or.inl ⟨by simp [owned, hends], by simp [owned, hends']⟩
    | false =>
      have hends' : endsSpan (.found i (x ++ (part' ++ y)) kept) = false := (endsSpan_found i _ _ kept).trans hends
      refine Or.inr ⟨y ++ Mark.textOf (owned vs), List.prefix_append_right_inj _ |>.mpr (prefix_textOf_owned vs), ?_, ?_⟩
      · rw [textOf_owned_found hends, List.append_assoc, List.append_assoc]
      · rw [textOf_owned_found hends', List.append_assoc, List.append_assoc]
  · have hbehind : ∀ part : List Char, 0 + byteLength (Mark.textOf us) + byteLength (x ++ (part ++ y)) =
        byteLength (Mark.textOf us ++ x) + byteLength part + byteLength y := fun part => by
      simp only [byteLength_append]
      omega
    have htail := @twins_behind (Mark.textOf us ++ x) (y ++ Mark.textOf vs) _ _ hne hne' vs (byteLength y)
    rw [← hbehind part, ← hbehind part'] at htail
    cases hid : number? (.found i (x ++ (part ++ y)) kept) with
    | none =>
      rw [stationsOf_none hid, stationsOf_none ((number?_found i _ _ kept).trans hid)]
      exact htail
    | some id =>
      rw [stationsOf_some hid, stationsOf_some ((number?_found i _ _ kept).trans hid)]
      -- The code of the label begins behind the part.
      have hstart : 0 + byteLength (Mark.textOf us) ≤ byteLength (Mark.textOf us ++ x) := by
        rw [byteLength_append]
        omega
      have hout : ∀ {part : List Char} {stop : Nat}, part ≠ [] →
          ¬CaseLabel.Holds ⟨id, 0 + byteLength (Mark.textOf us), 0 + byteLength (Mark.textOf us) +
            byteLength (x ++ (part ++ y)), stop⟩ (byteLength (Mark.textOf us ++ x)) := by
        rintro part stop hne ⟨hle, -⟩
        have hpos := byteLength_pos hne
        have hcode := hbehind part
        simp only at hle
        omega
      exact .cons (.apart rfl (.before _ hstart) rfl (hout hne) (hout hne')) htail

/-- The labels around a part are the same whatever it is filled with. -/
theorem MarksAround.twins {fill : List Char → Prop} (h : MarksAround fill none front back) (hpart : fill part)
    (hpart' : fill part') (hne : part ≠ []) (hne' : part' ≠ []) :
    ∃ ms ms', Scan Landmark.pattern none (front ++ (part ++ back)) ms ∧
      Scan Landmark.pattern none (front ++ (part' ++ back)) ms' ∧
      List.Forall₂ (Twin front back part part') (stationsOf 0 ms) (stationsOf 0 ms') := by
  cases h with
  | between us vs hfront hback scan =>
    obtain ⟨ks, rfl, hinert, hscan⟩ := scan hpart
    obtain ⟨ks', rfl, hinert', hscan'⟩ := scan hpart'
    subst hfront hback
    exact ⟨_, _, hscan, hscan', twins_between hne hne' hinert hinert' us vs⟩
  | within us i x y kept vs hfront hback scan =>
    subst hfront hback
    exact ⟨_, _, scan hpart, scan hpart', twins_within hne hne' us i x y kept vs⟩

end Twins

end SpriteFacts.Switch
