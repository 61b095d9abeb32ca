import Mathlib.Data.List.Basic
import SpriteFacts.Proofs.Pattern.Splice
import SpriteFacts.Proofs.Switch.Locality
import SpriteFacts.Proofs.Switch.NeutralPart

/-! Landmarks around a part of a body. Blanks stand between the landmarks of the body or inside of one, and they can be
    replaced by other blanks; a statement without labels stands between two landmarks. Either way the landmarks in
    front of the place and behind it are read whatever fills it. -/

namespace SpriteFacts.Switch

open Text Pattern

/-! ### Parts of a text -/

/-- Where no word goes on behind a text, none goes on behind its end. -/
theorem edge_of_append {last : Option Char} {as bs : List Char} (h : (lastOf last (as ++ bs)).any isWord = false) :
    (lastOf none bs).any isWord = false := by
  cases bs with
  | nil => rfl
  | cons b bs =>
    rw [lastOf_append] at h
    exact h

/-- What begins with a character that a text does not hold begins behind that text. -/
theorem split_behind {c : Char} {w ds t cs as bs : List Char} (hw : w = c :: ds) (hc : c ∉ t)
    (hsplit : t ++ cs = as ++ (w ++ bs)) : ∃ before, as = t ++ before ∧ cs = before ++ (w ++ bs) := by
  rcases List.append_eq_append_iff.mp hsplit with ⟨before, has, hrest⟩ | ⟨x, rfl, hrest⟩
  · exact ⟨before, has, hrest⟩
  · cases x with
    | nil => exact ⟨[], by simp, hrest.symm⟩
    | cons d x =>
      rw [hw] at hrest
      obtain ⟨rfl, -⟩ := List.cons.inj hrest
      exact absurd (List.mem_append_right _ List.mem_cons_self) hc

/-- What does not hold the last character of a text ends in front of it. -/
theorem split_before {d : Char} {w cs as bs : List Char} (hd : d ∉ w) (hne : w ≠ []) (hsplit : cs ++ [d] = as ++ (w ++ bs)) :
    ∃ behind, cs = as ++ (w ++ behind) ∧ bs = behind ++ [d] := by
  cases hbs : bs.getLast? with
  | none =>
    -- The text would end with a character of `w`.
    have hlast := congrArg List.getLast? hsplit
    rw [List.getLast?_concat, List.getLast?_eq_none_iff.mp hbs, List.append_nil,
      List.getLast?_append_of_ne_nil as hne] at hlast
    exact absurd (List.mem_of_getLast? hlast.symm) hd
  | some e =>
    obtain ⟨behind, rfl⟩ := List.getLast?_eq_some_iff.mp hbs
    rw [← List.append_assoc, ← List.append_assoc] at hsplit
    obtain ⟨rfl, hend⟩ := List.append_inj' hsplit rfl
    exact ⟨behind, List.append_assoc _ _ _, by rw [hend]⟩

/-! ### Blanks in a text -/

/-- The text is blanks, at least one. -/
def IsGap (part : List Char) : Prop := part ≠ [] ∧ part.all isBlank = true

section Gap
variable {front back part part' u v b : List Char}

theorem IsGap.exists_cons (h : IsGap part) : ∃ c cs, part = c :: cs ∧ isBlank c = true := by
  obtain ⟨hne, hall⟩ := h
  cases part with
  | nil => exact absurd rfl hne
  | cons c cs =>
    rw [List.all_cons, Bool.and_eq_true] at hall
    exact ⟨c, cs, rfl, hall.1⟩

/-- Text without blanks stands in front of a gap that it does not begin behind. -/
theorem IsGap.split_word (h : IsGap part) (hu : u.all (fun c => !isBlank c) = true)
    (hsplit : u ++ v = front ++ (part ++ back)) : ∃ rest, front = u ++ rest ∧ v = rest ++ (part ++ back) := by
  obtain ⟨c, cs, hpart, hc⟩ := h.exists_cons
  have hnot : c ∉ u := fun hmem => by
    have := List.all_eq_true.mp hu c hmem
    rw [hc] at this
    cases this
  exact split_behind hpart hnot hsplit

/-- Blanks that end where a gap may stand end in front of it or hold it. -/
theorem IsGap.split_blanks (h : IsGap part) (hv : v.head?.any (fun c => !isBlank c) = true)
    (hsplit : b ++ v = front ++ (part ++ back)) :
    (∃ rest, front = b ++ rest ∧ v = rest ++ (part ++ back)) ∨ ∃ rest, b = front ++ (part ++ rest) ∧ back = rest ++ v := by
  have hstart : ∀ {w xs : List Char}, w ≠ [] → w.all isBlank = true → v = w ++ xs → False := by
    rintro w xs hne hall rfl
    cases w with
    | nil => exact hne rfl
    | cons d w =>
      rw [List.all_cons, Bool.and_eq_true] at hall
      have hd : (!isBlank d) = true := hv
      rw [hall.1] at hd
      cases hd
  rcases List.append_eq_append_iff.mp hsplit with ⟨w, rfl, hrest⟩ | ⟨w, rfl, hrest⟩
  · exact Or.inl ⟨w, rfl, hrest⟩
  · rcases List.append_eq_append_iff.mp hrest with ⟨rest, rfl, hback⟩ | ⟨rest, hpart, hback⟩
    · exact Or.inr ⟨rest, rfl, hback⟩
    · cases rest with
      | nil => exact Or.inr ⟨[], by rw [hpart, List.append_nil, List.append_nil], hback.symm⟩
      | cons d rest =>
        have hall := h.2
        rw [hpart, List.all_append, Bool.and_eq_true] at hall
        exact (hstart (List.cons_ne_nil d rest) hall.2 hback).elim

end Gap

/-! ### Landmarks around blanks -/

section Refill
variable {front back part part' y rest : List Char} {last : Option Char} {kept : List (Nat × List Char)}

theorem read?_case_refill (h : IsGap part) (h' : IsGap part') (hne : front ≠ [])
    (hread : casePattern.read? last (front ++ (part ++ (y ++ rest))) = some ⟨front ++ (part ++ y), kept, rest⟩) :
    casePattern.read? last (front ++ (part' ++ (y ++ rest))) = some ⟨front ++ (part' ++ y), kept, rest⟩ := by
  obtain ⟨hlast, before, digits, after, rest', -, h1, h2, h3, h4, h5, h6⟩ := mem_readings_case.mp (mem_of_read? hread)
  obtain ⟨htext, rfl, rfl⟩ := Reading.mk.inj h6
  -- The blanks are some of those in front of the number or some of those behind it.
  suffices hrefill : ∃ before' after', front ++ (part' ++ y) = caseText before' digits after' ∧ before' ≠ [] ∧
      before'.all isBlank = true ∧ after'.all isBlank = true by
    obtain ⟨before', after', htext', h1', h2', h5'⟩ := hrefill
    refine read?_case.mpr (mem_readings_case.mpr ⟨hlast, before', digits, after', rest, ?_, h1', h2', h3, h4, h5', ?_⟩)
    · rw [← htext']
      simp
    · rw [htext']
  have hdigits : digits.all (fun c => !isBlank c) = true := List.all_eq_true.mpr fun c hc => by
    rw [not_isBlank_of_isDigit (List.all_eq_true.mp h4 c hc)]
    rfl
  have hhead : (digits ++ (after ++ [':'])).head?.any (fun c => !isBlank c) = true := by
    cases hd : digits with
    | nil => exact absurd hd h3
    | cons d ds => exact List.all_eq_true.mp hdigits d (by rw [hd]; exact List.mem_cons_self)
  obtain ⟨front1, rfl, hbehind1⟩ := h.split_word (u := "case".toList) (by decide) htext.symm
  rcases h.split_blanks hhead hbehind1 with ⟨front2, rfl, hbehind2⟩ | ⟨gap, rfl, rfl⟩
  · obtain ⟨front3, rfl, hbehind3⟩ := h.split_word hdigits hbehind2
    rcases h.split_blanks (v := [':']) (by decide) hbehind3 with ⟨front4, rfl, hbehind4⟩ | ⟨gap, rfl, rfl⟩
    · obtain ⟨front5, -, hnil⟩ := h.split_word (u := [':']) (v := []) (by decide) hbehind4
      obtain ⟨c, cs, rfl, -⟩ := h.exists_cons
      simp at hnil
    · refine ⟨before, front3 ++ (part' ++ gap), by simp [caseText], h1, h2, ?_⟩
      simp only [List.all_append, Bool.and_eq_true] at h5 ⊢
      exact ⟨h5.1, h'.2, h5.2.2⟩
  · refine ⟨front1 ++ (part' ++ gap), after, by simp [caseText], ?_, ?_, h5⟩
    · simp [h'.1]
    · simp only [List.all_append, Bool.and_eq_true] at h2 ⊢
      exact ⟨h2.1, h'.2, h2.2.2⟩

theorem read?_markedWord_refill {s : String} {mark : Char} (hs : s.toList.head?.any isWord = true)
    (hword : s.toList.all isWord = true) (hm : isBlank mark = false) (h : IsGap part) (h' : IsGap part')
    (hread : (markedWord s mark).read? last (front ++ (part ++ (y ++ rest))) = some ⟨front ++ (part ++ y), kept, rest⟩) :
    (markedWord s mark).read? last (front ++ (part' ++ (y ++ rest))) = some ⟨front ++ (part' ++ y), kept, rest⟩ := by
  obtain ⟨hlast, blanks, rest', -, hblank, h6⟩ := (mem_readings_markedWord hs).mp (mem_of_read? hread)
  obtain ⟨htext, rfl, rfl⟩ := Reading.mk.inj h6
  have hnoblank : s.toList.all (fun c => !isBlank c) = true := List.all_eq_true.mpr fun c hc => by
    rw [not_isBlank_of_isWord (List.all_eq_true.mp hword c hc)]
    rfl
  have hmark : [mark].all (fun c => !isBlank c) = true := by simp [hm]
  obtain ⟨front1, rfl, hbehind1⟩ := h.split_word hnoblank htext.symm
  rcases h.split_blanks (v := [mark]) (by simp [hm]) hbehind1 with ⟨front2, rfl, hbehind2⟩ | ⟨gap, rfl, rfl⟩
  · obtain ⟨front3, -, hnil⟩ := h.split_word (v := []) hmark hbehind2
    obtain ⟨c, cs, rfl, -⟩ := h.exists_cons
    simp at hnil
  · refine (read?_markedWord hs hm).mpr ((mem_readings_markedWord hs).mpr
      ⟨hlast, front1 ++ (part' ++ gap), rest, by simp, ?_, by simp⟩)
    simp only [List.all_append, Bool.and_eq_true] at hblank ⊢
    exact ⟨hblank.1, h'.2, hblank.2.2⟩

/-- A landmark with a gap inside is one with any other gap in its place. -/
theorem Landmark.refill {i : Landmark} {r : Reading} (h : IsGap part) (h' : IsGap part') (hne : front ≠ [])
    (hread : i.pattern.read? last (front ++ (part ++ back)) = some r) (hback : back = y ++ r.rest)
    (htext : r.text = front ++ (part ++ y)) :
    i.pattern.read? last (front ++ (part' ++ back)) = some ⟨front ++ (part' ++ y), r.kept, r.rest⟩ := by
  obtain ⟨t, kept, rest⟩ := r
  obtain rfl : back = y ++ rest := hback
  obtain rfl : t = front ++ (part ++ y) := htext
  cases i with
  | numbered => exact read?_case_refill h h' hne hread
  | fallback | leave => exact read?_markedWord_refill (by decide) (by decide) (by decide) h h' hread

/-- A landmark that ends in front of a place is one whatever stands behind the place. -/
theorem Landmark.reread {i : Landmark} {r : Reading} {ahead : List Char}
    (hread : i.pattern.read? last (r.text ++ rest ++ ahead) = some r) (ahead' : List Char) :
    i.pattern.read? last (r.text ++ (rest ++ ahead')) = some ⟨r.text, r.kept, rest ++ ahead'⟩ := by
  have hsplit := split_of_mem (mem_of_read? hread)
  rw [List.append_assoc] at hread hsplit
  have hrest : r.rest = rest ++ ahead := (List.append_cancel_left hsplit).symm
  obtain ⟨t, kept, ahead''⟩ := r
  obtain rfl : ahead'' = rest ++ ahead := hrest
  exact (Landmark.steady i).behind hread (rest ++ ahead')

/-- A landmark that begins in front of a gap ends there or behind it. -/
theorem Landmark.split_reading {i : Landmark} {r : Reading} (h : IsGap part)
    (hread : i.pattern.read? last (front ++ (part ++ back)) = some r) :
    (∃ rest, front = r.text ++ rest) ∨ ∃ y, y ≠ [] ∧ back = y ++ r.rest ∧ r.text = front ++ (part ++ y) := by
  obtain ⟨-, inner, htext, -⟩ := Landmark.shape hread
  -- A landmark ends with its mark, so it does not end with a blank of the gap.
  have hblank : ∀ {w : List Char}, r.text = front ++ w → w.all isBlank = true → w = [] := by
    intro w hw hall
    cases hend : w.getLast? with
    | none => exact List.getLast?_eq_none_iff.mp hend
    | some c =>
      have hmark : r.text.getLast? = some i.mark := by simp [htext, List.getLast?_append]
      rw [hw, List.getLast?_append, hend] at hmark
      obtain rfl := Option.some.inj hmark
      have hc := List.all_eq_true.mp hall _ (List.mem_of_getLast? hend)
      cases i <;> exact absurd hc (by decide)
  rcases List.append_eq_append_iff.mp (split_of_mem (mem_of_read? hread)) with ⟨w, hw, hrest⟩ | ⟨w, hw, -⟩
  · rcases List.append_eq_append_iff.mp hrest with ⟨y, rfl, hback⟩ | ⟨y, hpart, -⟩
    · cases y with
      | nil =>
        have hnil := hblank hw (by rw [List.append_nil]; exact h.2)
        rw [List.append_nil] at hnil
        exact absurd hnil h.1
      | cons c y => exact Or.inr ⟨c :: y, List.cons_ne_nil c y, hback, hw⟩
    · have hall := h.2
      rw [hpart, List.all_append, Bool.and_eq_true] at hall
      obtain rfl := hblank hw hall.1
      exact Or.inl ⟨[], by rw [hw, List.append_nil, List.append_nil]⟩
  · exact Or.inl ⟨w, hw⟩

/-- Where a landmark is read around one gap, one is read around every other. -/
theorem Landmark.exists_read {i : Landmark} {r : Reading} (h : IsGap part) (h' : IsGap part') (hne : front ≠ [])
    (hread : i.pattern.read? last (front ++ (part ++ back)) = some r) :
    ∃ r', i.pattern.read? last (front ++ (part' ++ back)) = some r' := by
  rcases Landmark.split_reading h hread with ⟨rest, rfl⟩ | ⟨y, -, hback, htext⟩
  · have hagain := Landmark.reread hread (part' ++ back)
    rw [← List.append_assoc] at hagain
    exact ⟨_, hagain⟩
  · exact ⟨_, Landmark.refill h h' hne hread hback htext⟩

end Refill

/-! ### Marks around a part -/

/-- The marks around a part of a text that is filled in some way: it stands between two landmarks, with nothing that
    ends a span inside, or within a landmark. -/
inductive MarksAround (fill : List Char → Prop) (last : Option Char) (front back : List Char) : Prop where
  | between (us vs : List LandMark) (hfront : front = Mark.textOf us) (hback : back = Mark.textOf vs)
      (scan : ∀ {part}, fill part → ∃ ks, Mark.textOf ks = part ∧ (∀ m ∈ ks, endsSpan m = false) ∧
        Scan Landmark.pattern last (front ++ (part ++ back)) (us ++ (ks ++ vs)))
  | within (us : List LandMark) (i : Landmark) (x y : List Char) (kept : List (Nat × List Char)) (vs : List LandMark)
      (hfront : front = Mark.textOf us ++ x) (hback : back = y ++ Mark.textOf vs)
      (scan : ∀ {part}, fill part →
        Scan Landmark.pattern last (front ++ (part ++ back)) (us ++ .found i (x ++ (part ++ y)) kept :: vs))

section MarksAround
variable {front back : List Char} {last : Option Char}

theorem MarksAround.plain {fill : List Char → Prop} {c : Char}
    (hnone : ∀ {part}, fill part → ∀ i : Landmark, i.pattern.read? last (c :: (front ++ (part ++ back))) = none)
    (h : MarksAround fill (some c) front back) : MarksAround fill last (c :: front) back := by
  cases h with
  | between us vs hfront hback scan =>
    refine .between (.plain c :: us) vs (by rw [hfront]; rfl) hback fun hpart => ?_
    obtain ⟨ks, htext, hinert, hscan⟩ := scan hpart
    exact ⟨ks, htext, hinert, .plain (hnone hpart) hscan⟩
  | within us i x y kept vs hfront hback scan =>
    exact .within (.plain c :: us) i x y kept vs (by rw [hfront]; rfl) hback fun hpart => .plain (hnone hpart) (scan hpart)

theorem MarksAround.found {fill : List Char → Prop} {i : Landmark} {t : List Char} {kept : List (Nat × List Char)}
    (hne : t ≠ []) (hread : ∀ {part}, fill part →
      i.pattern.read? last (t ++ (front ++ (part ++ back))) = some ⟨t, kept, front ++ (part ++ back)⟩)
    (h : MarksAround fill (lastOf last t) front back) : MarksAround fill last (t ++ front) back := by
  cases h with
  | between us vs hfront hback scan =>
    refine .between (.found i t kept :: us) vs (by rw [hfront]; rfl) hback fun hpart => ?_
    obtain ⟨ks, htext, hinert, hscan⟩ := scan hpart
    rw [List.append_assoc]
    exact ⟨ks, htext, hinert, .found (hread hpart) hne (fun j hj => (Landmark.apart (hread hpart)).2 hj) hscan⟩
  | within us j x y kept' vs hfront hback scan =>
    refine .within (.found i t kept :: us) j x y kept' vs (by rw [hfront, ← List.append_assoc]; rfl) hback fun hpart => ?_
    rw [List.append_assoc]
    exact .found (hread hpart) hne (fun j hj => (Landmark.apart (hread hpart)).2 hj) (scan hpart)

theorem marksAround_gap (last : Option Char) (front back : List Char) : MarksAround IsGap last front back := by
  -- What is left in front of the gap behind a landmark is shorter.
  induction hn : front.length using Nat.strongRecOn generalizing last front with
  | ind n ih =>
    have hspace : IsGap [' '] := ⟨List.cons_ne_nil _ _, by decide⟩
    cases front with
    | nil =>
      obtain ⟨vs, hvs⟩ := Scan.exists_of_apart Landmark.apart (some ' ') back
      refine .between [] vs rfl hvs.textOf_eq.symm fun {part} hpart => ?_
      refine ⟨part.map .plain, textOf_plain part, fun _ hm => endsSpan_of_mem_plain hm, ?_⟩
      show Scan Landmark.pattern last (part ++ back) (part.map .plain ++ vs)
      refine Scan.prepend (fun i => clear_blank i hpart.2) (hvs.before Landmark.steady ?_)
      rw [lastOf_of_blank hpart.2 hpart.1]
      decide
    | cons c front =>
      by_cases hfound : ∃ i r, (i : Landmark).pattern.read? last (c :: front ++ ([' '] ++ back)) = some r
      · obtain ⟨i, r, hr⟩ := hfound
        have hne := (Landmark.steady i).nonempty hr
        rcases Landmark.split_reading hspace hr with ⟨rest, hrest⟩ | ⟨y, -, hback, htext⟩
        · rw [hrest] at hn hr ⊢
          have hlt : rest.length < n := by
            have := List.length_pos_iff.mpr hne
            rw [List.length_append] at hn
            omega
          exact (ih rest.length hlt (lastOf last r.text) rest rfl).found hne fun _ => Landmark.reread hr _
        · obtain ⟨vs, hvs⟩ := Scan.exists_of_apart Landmark.apart none r.rest
          refine .within [] i (c :: front) y r.kept vs rfl (by rw [hvs.textOf_eq, hback]) fun {part} hpart => ?_
          have hread := Landmark.refill hspace hpart (List.cons_ne_nil c front) hr hback htext
          have hsplit : c :: front ++ (part ++ back) = (c :: front ++ (part ++ y)) ++ r.rest := by simp [hback]
          rw [hsplit] at hread ⊢
          have hedge : (none : Option Char).any isWord = (lastOf last (c :: front ++ (part ++ y))).any isWord :=
            (Landmark.behind hread last).symm
          exact .found hread (by simp) (fun j hj => (Landmark.apart hread).2 hj) (hvs.before Landmark.steady hedge)
      · have hnone : ∀ {part}, IsGap part → ∀ i : Landmark, i.pattern.read? last (c :: front ++ (part ++ back)) = none := by
          intro part hpart i
          cases hr : i.pattern.read? last (c :: front ++ (part ++ back)) with
          | none => rfl
          | some r => exact absurd ⟨i, Landmark.exists_read hpart hspace (List.cons_ne_nil c front) hr⟩ hfound
        exact .plain hnone (ih front.length (by simp [← hn]) (some c) front rfl)

end MarksAround

/-! ### A statement without labels -/

/-- An expression of one statement on one line, without comments and blocks and without the words of labels. -/
structure Inert (expr : List Char) : Prop where
  plain : ∀ c ∈ expr, c ≠ ';' ∧ c ≠ '\x7b' ∧ c ≠ '\x7d' ∧ c ≠ '/' ∧ c ≠ '\n'
  noCase : (Pattern.word "case").occursIn expr = false
  noDefault : (Pattern.word "default").occursIn expr = false

/-- The statement that returns an expression. -/
def returnText (expr : List Char) : List Char := "return ".toList ++ (expr ++ [';'])

/-- The part is a statement that returns an inert expression. -/
def IsReturn (part : List Char) : Prop := ∃ expr, Inert expr ∧ part = returnText expr

theorem IsReturn.neutral {part : List Char} (h : IsReturn part) : Neutral part := by
  obtain ⟨expr, hexpr, rfl⟩ := h
  have hnot : ∀ {c : Char}, c ∉ "return ".toList → c ∉ expr → c ≠ ';' → c ∉ returnText expr := by
    intro c h1 h2 h3 hmem
    rcases List.mem_append.mp hmem with hmem | hmem
    · exact h1 hmem
    · rcases List.mem_append.mp hmem with hmem | hmem
      · exact h2 hmem
      · exact h3 (List.mem_singleton.mp hmem)
  exact
    { nonempty := fun h => absurd (List.append_eq_nil_iff.mp h).1 (by decide)
      slash := hnot (by decide) (fun hmem => (hexpr.plain _ hmem).2.2.2.1 rfl) (by decide)
      line := hnot (by decide) (fun hmem => (hexpr.plain _ hmem).2.2.2.2 rfl) (by decide)
      head := by
        show some 'r' ≠ some '*'
        decide
      last := by
        unfold returnText
        rw [← List.append_assoc, List.getLast?_concat, ne_eq, Option.some_inj]
        decide }

/-- A word of the statement that does not begin like its first one stands in the expression. -/
theorem occursIn_of_returnText {w : String} {expr as bs : List Char} {last : Option Char}
    (hw : w.toList.head?.any (fun c => isWord c && decide (c ∉ "return ".toList)) = true)
    (hall : w.toList.all isWord = true) (hsplit : returnText expr = as ++ (w.toList ++ bs))
    (hlast : (lastOf last as).any isWord = false) (hbs : bs.head?.any isWord = false) :
    (Pattern.word w).occursIn expr = true := by
  obtain ⟨c, cs, hcs⟩ : ∃ c cs, w.toList = c :: cs := by
    cases h : w.toList with
    | nil => rw [h] at hw; cases hw
    | cons c cs => exact ⟨c, cs, rfl⟩
  have hc : isWord c = true ∧ c ∉ "return ".toList := by
    rw [hcs] at hw
    simpa using hw
  have hsemicolon : ';' ∉ w.toList := fun hmem => absurd (List.all_eq_true.mp hall _ hmem) (by decide)
  -- The word begins behind the first one and ends in front of the semicolon.
  obtain ⟨before, rfl, hexpr⟩ := split_behind hcs hc.2 hsplit
  obtain ⟨behind, rfl, rfl⟩ := split_before hsemicolon (by rw [hcs]; exact List.cons_ne_nil c cs) hexpr
  have hbehind : behind.head?.any isWord = false := by
    cases behind with
    | nil => rfl
    | cons d behind => exact hbs
  exact (occursIn_word (by rw [hcs]; exact hc.1) hall).mpr ⟨before, behind, rfl, edge_of_append hlast, hbehind⟩

/-- A landmark does not go on behind the end of a statement. -/
theorem Landmark.within_of_semicolon (i : Landmark) (behind : List Char) (last : Option Char) (cs : List Char) :
    i.pattern.Within behind last (cs ++ [';']) := by
  intro as bs r hsplit hne hr
  obtain ⟨-, inner, htext, hinner⟩ := Landmark.shape hr
  rcases List.append_eq_append_iff.mp (split_of_mem (mem_of_read? hr)) with ⟨more, hmore, -⟩ | ⟨more, hmore, -⟩
  · cases hm : more.getLast? with
    | none =>
      rw [List.getLast?_eq_none_iff.mp hm, List.append_nil] at hmore
      exact ⟨[], by rw [List.append_nil, hmore]⟩
    | some d =>
      exfalso
      obtain ⟨ds, rfl⟩ := List.getLast?_eq_some_iff.mp hm
      obtain ⟨b, hb⟩ : ∃ b, bs = b ++ [';'] := by
        have hend := congrArg List.getLast? hsplit
        rw [List.getLast?_concat, List.getLast?_append_of_ne_nil as hne] at hend
        exact List.getLast?_eq_some_iff.mp hend.symm
      have hfront : i.word ++ inner = bs ++ ds := by
        rw [htext, ← List.append_assoc, ← List.append_assoc] at hmore
        exact (List.append_inj' hmore rfl).1
      have hmem : ';' ∈ i.word ++ inner := by
        rw [hfront, hb]
        simp
      rcases List.mem_append.mp hmem with hmem | hmem
      · cases i <;> exact absurd hmem (by decide)
      · exact absurd (List.all_eq_true.mp hinner _ hmem) (by decide)
  · exact ⟨more, hmore.symm⟩

/-- No mark of the statement is a label, so none of them ends a span. -/
theorem Inert.endsSpan {expr : List Char} {last : Option Char} {ks : List LandMark} (hexpr : Inert expr)
    (hks : Scan Landmark.pattern last (returnText expr) ks) : ∀ m ∈ ks, endsSpan m = false := by
  intro m hm
  obtain ⟨k1, k2, rfl⟩ := List.append_of_mem hm
  match m with
  | .plain c => rfl
  | .found .leave t kept => rfl
  | .found .numbered t kept =>
    obtain ⟨rest, htext, here⟩ := Scan.here (hks.drop k1)
    obtain ⟨hlast, before, digits, after, rest', hsplit, hne, hblank, -⟩ := mem_readings_case.mp (mem_of_read? here)
    have hword := @occursIn_of_returnText "case" expr (Mark.textOf k1) (before ++ (digits ++ (after ++ ':' :: rest'))) _
      (by decide) (by decide) ?_ hlast ?_
    · rw [hexpr.noCase] at hword
      cases hword
    · rw [← hks.textOf_eq, Mark.textOf_append, htext, hsplit]
      simp [caseText]
    · cases before with
      | nil => exact absurd rfl hne
      | cons d before => exact isWord_of_isBlank (List.all_eq_true.mp hblank d List.mem_cons_self)
  | .found .fallback t kept =>
    obtain ⟨rest, htext, here⟩ := Scan.here (hks.drop k1)
    obtain ⟨hlast, blanks, rest', hsplit, hblank, -⟩ :=
      (mem_readings_markedWord (s := "default") (by decide)).mp (mem_of_read? here)
    have hword := @occursIn_of_returnText "default" expr (Mark.textOf k1) (blanks ++ ':' :: rest') _
      (by decide) (by decide) ?_ hlast ?_
    · rw [hexpr.noDefault] at hword
      cases hword
    · rw [← hks.textOf_eq, Mark.textOf_append, htext, hsplit]
    · cases blanks with
      | nil => exact show isWord ':' = false by decide
      | cons d blanks => exact isWord_of_isBlank (List.all_eq_true.mp hblank d List.mem_cons_self)

theorem marksAround_return {last : Option Char} {front : List Char} (back : List Char)
    (hedge : (lastOf last front).any isWord = false) : MarksAround IsReturn last front back := by
  obtain ⟨us, hus⟩ := Scan.exists_of_apart Landmark.apart last front
  obtain ⟨vs, hvs⟩ := Scan.exists_of_apart Landmark.apart (some ';') back
  refine .between us vs hus.textOf_eq.symm hvs.textOf_eq.symm ?_
  rintro part ⟨expr, hexpr, rfl⟩
  obtain ⟨ks, hks⟩ := Scan.exists_of_apart Landmark.apart (lastOf last front) (returnText expr)
  have hsemicolon : lastOf (lastOf last front) (returnText expr) = some ';' := by
    unfold returnText
    rw [lastOf_append, lastOf_append, lastOf_cons, lastOf_nil]
  have hbehind : Scan Landmark.pattern (lastOf last front) (returnText expr ++ back) (ks ++ vs) := by
    refine Scan.append Landmark.steady Landmark.apart (fun i => ?_) hks (hsemicolon ▸ hvs)
    unfold returnText
    rw [← List.append_assoc]
    exact Landmark.within_of_semicolon i back _ _
  exact ⟨ks, hks.textOf_eq, hexpr.endsSpan hks, Scan.append Landmark.steady Landmark.apart
    (fun i => Landmark.within_of_letter i (by decide) (by decide) _ hedge) hus hbehind⟩

end SpriteFacts.Switch
