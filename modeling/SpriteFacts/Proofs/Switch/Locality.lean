import SpriteFacts.Proofs.Pattern.Splice
import SpriteFacts.Proofs.Switch.Stations

/-! Case groups of a body in two parts. Where the first part leaves nothing open (its last label has a terminator
    of its own) and the second part starts with a label, the groups of the body are those of the first part and
    then those of the second, moved behind it: no label waits across the border, no chain crosses it and no two
    groups are joined over it. -/

namespace SpriteFacts.Switch

open Text Pattern

/-! ### Landmarks at the border -/

/-- A letter of a landmark stands in its word, so no landmark reaches over the end of a word to a letter. -/
theorem Landmark.within_of_letter (i : Landmark) {c : Char} (hword : isWord c = true) (hdigit : isDigit c = false)
    (behind : List Char) {last : Option Char} {cs : List Char} (hedge : (lastOf last cs).any isWord = false) :
    i.pattern.Within (c :: behind) last cs := by
  rintro as bs r rfl hne hr
  obtain ⟨-, inner, htext, hinner⟩ := Landmark.shape hr
  rcases List.append_eq_append_iff.mp (split_of_mem (mem_of_read? hr)) with ⟨more, hmore, hrest⟩ | ⟨more, hmore, -⟩
  · cases more with
    | nil => exact ⟨[], by rw [List.append_nil, hmore, List.append_nil]⟩
    | cons d more =>
      exfalso
      obtain ⟨rfl, -⟩ := List.cons.inj hrest
      have hbehind : c ∉ inner ++ [i.mark] := by
        rw [List.mem_append, not_or, List.mem_singleton]
        refine ⟨fun hmem => ?_, ?_⟩
        · have hc := List.all_eq_true.mp hinner c hmem
          rw [not_isBlank_of_isWord hword, hdigit] at hc
          cases hc
        · rintro rfl
          cases i <;> exact absurd hword (by decide)
      rw [htext] at hmore
      rcases List.append_eq_append_iff.mp hmore with ⟨front, -, hfront⟩ | ⟨front, hfront, -⟩
      · exact hbehind (hfront ▸ List.mem_append_right _ List.mem_cons_self)
      · -- The text before the letter is the beginning of a word, but it ends outside of one.
        have hall : i.word.all isWord = true := by cases i <;> decide
        rw [hfront, List.all_append, Bool.and_eq_true] at hall
        cases bs with
        | nil => exact hne rfl
        | cons b bs =>
          rw [lastOf_append, lastOf_word hall.1] at hedge
          cases hedge
  · exact ⟨more, hmore.symm⟩

/-! ### Labels of a body in two parts -/

/-- The label further on by some bytes. -/
def CaseLabel.shift (l : CaseLabel) (k : Nat) : CaseLabel :=
  { l with start := l.start + k, codeStart := l.codeStart + k, stop := l.stop + k }

/-- The group cut from further on by some bytes. -/
def CaseGroup.shift (g : CaseGroup) (k : Nat) : CaseGroup :=
  { g with offset := g.offset + k, spanStart := g.spanStart + k, spanStop := g.spanStop + k }

theorem CaseLabel.map_shift_zero (ls : List CaseLabel) : ls.map (·.shift 0) = ls := List.map_id ls

theorem CaseGroup.map_shift_zero (gs : List CaseGroup) : gs.map (·.shift 0) = gs := List.map_id gs

section Labels
variable {as bs ms : List LandMark} {body : List Char}

theorem owned_append_of_end (h : ∀ m ∈ bs.head?, endsSpan m = true) : owned (as ++ bs) = owned as := by
  induction as with
  | nil =>
    cases bs with
    | nil => rfl
    | cons m bs => simp [owned, h m rfl]
  | cons m as ih =>
    unfold owned at ih ⊢
    rw [List.cons_append, List.takeWhile_cons, List.takeWhile_cons, ih]

theorem labelsOf_append_of_end (h : ∀ m ∈ bs.head?, endsSpan m = true) (n : Nat) :
    labelsOf n (as ++ bs) = labelsOf n as ++ labelsOf (n + byteLength (Mark.textOf as)) bs := by
  induction as generalizing n with
  | nil => rfl
  | cons m as ih =>
    rw [List.cons_append, byteLength_text_cons]
    cases hid : number? m with
    | none => rw [labelsOf_none hid, labelsOf_none hid, ih]
    | some id => rw [labelsOf_some hid, labelsOf_some hid, ih, owned_append_of_end h, List.cons_append]

theorem labelsOf_add (n k : Nat) (ms : List LandMark) : labelsOf (n + k) ms = (labelsOf n ms).map (·.shift k) := by
  induction ms generalizing n with
  | nil => rfl
  | cons m ms ih =>
    have hnext : n + k + byteLength m.text = n + byteLength m.text + k := Nat.add_right_comm ..
    cases hid : number? m with
    | none => rw [labelsOf_none hid, labelsOf_none hid, hnext, ih]
    | some id =>
      rw [labelsOf_some hid, labelsOf_some hid, hnext, ih, List.map_cons]
      refine congrArg (· :: _) ?_
      simp only [CaseLabel.shift, CaseLabel.mk.injEq, true_and]
      omega

/-- A label owns a part of the body behind its colon. -/
structure CaseLabel.Cut (l : CaseLabel) (body : List Char) : Prop where
  boundary : IsBoundary l.codeStart body
  codeStart_pos : 0 < l.codeStart
  start_le : l.start ≤ l.codeStart
  codeStart_le : l.codeStart ≤ l.stop
  stop_le : l.stop ≤ byteLength body

theorem MarksAt.cut {n : Nat} (h : MarksAt body n ms) : ∀ l ∈ labelsOf n ms, l.Cut body := by
  induction ms generalizing n with
  | nil => exact fun l hl => absurd hl List.not_mem_nil
  | cons m ms ih =>
    intro l hl
    cases hid : number? m with
    | none =>
      rw [labelsOf_none hid] at hl
      exact ih h.tail l hl
    | some id =>
      rw [labelsOf_some hid] at hl
      rcases List.mem_cons.mp hl with rfl | hl
      · obtain ⟨before, hbody, hn, hscan⟩ := h.tail
        obtain ⟨more, hmore⟩ := owned_append ms
        obtain ⟨_, -, -, hmarks⟩ := h
        have hpos := byteLength_pos (hmarks.text_ne_nil m List.mem_cons_self)
        have howned : byteLength (Mark.textOf ms) = byteLength (Mark.textOf (owned ms)) + byteLength (Mark.textOf more) := by
          rw [← byteLength_append, ← Mark.textOf_append, ← hmore]
        exact
          { boundary := ⟨before, _, hbody, hn⟩
            codeStart_pos := Nat.add_pos_right n hpos
            start_le := Nat.le_add_right _ _
            codeStart_le := Nat.le_add_right _ _
            stop_le := by
              rw [hbody, byteLength_append, hn, howned]
              exact Nat.add_le_add_left (Nat.le_add_right _ _) _ }
      · exact ih h.tail l hl

theorem cut_of_mem_caseLabels {l : CaseLabel} (h : l ∈ caseLabels body) : l.Cut body := by
  obtain ⟨ms, hscan⟩ := Scan.exists_of_apart Landmark.apart none body
  rw [caseLabels_eq hscan] at h
  exact (marksAt_of_scan hscan).cut l h

end Labels

/-- The text begins with a label `case N:` of a sprite number. -/
def StartsWithLabel (text : List Char) : Prop :=
  ∃ before digits after rest id, text = caseText before digits after ++ rest ∧ before ≠ [] ∧ before.all isBlank = true ∧
    digits ≠ [] ∧ digits.all isDigit = true ∧ after.all isBlank = true ∧ word? digits = some id

theorem StartsWithLabel.head {text : List Char} (h : StartsWithLabel text) : ∃ rest, text = 'c' :: rest := by
  obtain ⟨before, digits, after, rest, -, rfl, -⟩ := h
  exact ⟨_, rfl⟩

theorem StartsWithLabel.endsSpan {text : List Char} (h : StartsWithLabel text) {ms : List LandMark}
    (hscan : Scan Landmark.pattern none text ms) : ∀ m ∈ ms.head?, endsSpan m = true := by
  obtain ⟨before, digits, after, rest, id, htext, h1, h2, h3, h4, h5, hid⟩ := h
  have hread : Landmark.numbered.pattern.read? none text = some ⟨caseText before digits after, [(1, digits)], rest⟩ :=
    read?_case.mpr (mem_readings_case.mpr ⟨rfl, before, digits, after, rest, htext, h1, h2, h3, h4, h5, rfl⟩)
  cases hscan with
  | nil hnone =>
    rw [hnone .numbered] at hread
    cases hread
  | plain hnone _ =>
    rw [hnone .numbered] at hread
    cases hread
  | @found _ i t cs kept ms here hne clear _ =>
    by_cases hi : i = .numbered
    · subst hi
      rw [hread] at here
      obtain ⟨-, rfl, -⟩ := Reading.mk.inj (Option.some.inj here)
      intro m hm
      obtain rfl := Option.some.inj hm
      have hnumber : number? (.found .numbered t [(1, digits)]) = some id := hid
      rw [Switch.endsSpan, hnumber]
      rfl
    · cases t with
      | nil => exact absurd rfl hne
      | cons c t =>
        have hnone := (clear .numbered (Ne.symm hi)).1
        rw [List.cons_append, hnone] at hread
        cases hread

section Body
variable {front back : List Char}

/-- Labels of a body in two parts. -/
theorem caseLabels_append (hedge : (lastOf none front).any isWord = false) (hlabel : StartsWithLabel back) :
    caseLabels (front ++ back) = caseLabels front ++ (caseLabels back).map (·.shift (byteLength front)) := by
  obtain ⟨ms, hfront⟩ := Scan.exists_of_apart Landmark.apart none front
  obtain ⟨ns, hback⟩ := Scan.exists_of_apart Landmark.apart none back
  obtain ⟨rest, hhead⟩ := hlabel.head
  have hnone : (none : Option Char).any isWord = (lastOf none front).any isWord := hedge.symm
  have hscan : Scan Landmark.pattern none (front ++ back) (ms ++ ns) := by
    refine Scan.append Landmark.steady Landmark.apart (fun i => ?_) hfront (hback.before Landmark.steady hnone)
    rw [hhead]
    exact Landmark.within_of_letter i (by decide) (by decide) rest hedge
  rw [caseLabels_eq hscan, caseLabels_eq hfront, caseLabels_eq hback, labelsOf_append_of_end (hlabel.endsSpan hback),
    labelsOf_add, hfront.textOf_eq]

end Body

/-! ### Labels with a terminator of their own -/

section Groups
variable {terminator : Pattern} {body body' : List Char} {k : Nat}

/-- The groups of a part of the labels that leaves no label waiting. -/
theorem ownSpanGroups_append {waiting ls : List CaseLabel} (more : List CaseLabel)
    (hlast : ∀ l ∈ ls.getLast?, terminator.occursIn (l.code body) = true) (hwaiting : ls = [] → waiting = []) :
    ownSpanGroups terminator body waiting (ls ++ more) =
      ownSpanGroups terminator body waiting ls ++ ownSpanGroups terminator body [] more := by
  induction ls generalizing waiting with
  | nil =>
    rw [hwaiting rfl]
    rfl
  | cons l ls ih =>
    have hrest : ∀ l' ∈ ls.getLast?, terminator.occursIn (l'.code body) = true := fun l' hl' => by
      refine hlast l' ?_
      rw [List.getLast?_cons, hl']
      rfl
    rw [List.cons_append, ownSpanGroups, ownSpanGroups]
    cases hfind : terminator.find? (l.code body) with
    | some m =>
      show _ :: _ = _ :: _ ++ _
      rw [ih hrest fun _ => rfl, List.cons_append]
    | none =>
      -- A label without a terminator is not the last one.
      have hne : ls ≠ [] := by
        rintro rfl
        have := hlast l rfl
        rw [Pattern.occursIn, hfind] at this
        cases this
      show (if _ then _ else _) = (if _ then _ else _) ++ _
      split
      · exact ih hrest fun hnil => absurd hnil hne
      · exact ih hrest fun hnil => absurd hnil hne

theorem ownSpanGroups_shift {ls : List CaseLabel} (h : ∀ l ∈ ls, (l.shift k).code body' = l.code body)
    (waiting : List CaseLabel) :
    ownSpanGroups terminator body' (waiting.map (·.shift k)) (ls.map (·.shift k)) =
      (ownSpanGroups terminator body waiting ls).map (·.shift k) := by
  induction ls generalizing waiting with
  | nil => rfl
  | cons l ls ih =>
    have hrest := ih fun x hx => h x (List.mem_cons_of_mem l hx)
    rw [List.map_cons, ownSpanGroups, ownSpanGroups, h l List.mem_cons_self]
    cases hfind : terminator.find? (l.code body) with
    | some m =>
      refine congr (congrArg List.cons ?_) (hrest [])
      cases waiting <;> simp [groupOf, CaseGroup.shift, CaseLabel.shift]
    | none =>
      show (if _ then _ else _) = List.map _ (if _ then _ else _)
      split
      · have := hrest (waiting ++ [l])
        rwa [List.map_append] at this
      · exact hrest []

/-! ### Labels that fall through -/

theorem chains_append {ls : List (CaseLabel × Bool)} (more : List (CaseLabel × Bool))
    (hlast : ∀ l ∈ ls.getLast?, l.2 = true) :
    chains terminator body (ls ++ more) = chains terminator body ls ++ chains terminator body more := by
  induction ls with
  | nil => rfl
  | cons l ls ih =>
    have hrest : ∀ l' ∈ ls.getLast?, l'.2 = true := fun l' hl' => by
      refine hlast l' ?_
      rw [List.getLast?_cons, hl']
      rfl
    have hfind : ((l :: ls) ++ more).find? (·.2) = (l :: ls).find? (·.2) := by
      obtain ⟨last, hl⟩ : ∃ last, (l :: ls).getLast? = some last := ⟨_, List.getLast?_cons⟩
      have hsome : ((l :: ls).find? (·.2)).isSome = true :=
        List.find?_isSome.mpr ⟨last, List.mem_of_getLast? hl, hlast last hl⟩
      rw [List.find?_append, Option.or_of_isSome hsome]
    rw [List.cons_append, chains, chains, ← List.cons_append, hfind, ih hrest, List.append_assoc]

theorem chainOf?_shift {l last : CaseLabel}
    (h : slice (l.codeStart + k) (last.stop + k) body' = slice l.codeStart last.stop body) :
    chainOf? terminator body' (l.shift k) (last.shift k) = (chainOf? terminator body l last).map (·.shift k) := by
  have htext : slice (l.shift k).codeStart (last.shift k).stop body' = slice l.codeStart last.stop body := h
  simp only [chainOf?, htext]
  cases terminator.find? (withoutLabels (slice l.codeStart last.stop body)) with
  | none => rfl
  | some m =>
    show (if _ then _ else _) = Option.map _ (if _ then _ else _)
    split <;> rfl

theorem chains_shift {ls : List (CaseLabel × Bool)}
    (h : ∀ l ∈ ls, ∀ last ∈ ls, slice (l.1.codeStart + k) (last.1.stop + k) body' = slice l.1.codeStart last.1.stop body) :
    chains terminator body' (ls.map fun l => (l.1.shift k, l.2)) = (chains terminator body ls).map (·.shift k) := by
  induction ls with
  | nil => rfl
  | cons l ls ih =>
    have hrest := ih fun a ha b hb => h a (List.mem_cons_of_mem l ha) b (List.mem_cons_of_mem l hb)
    have hfind : ((l.1.shift k, l.2) :: ls.map fun l => (l.1.shift k, l.2)).find? (·.2) =
        ((l :: ls).find? (·.2)).map fun l => (l.1.shift k, l.2) := by
      rw [← List.map_cons (f := fun l : CaseLabel × Bool => (l.1.shift k, l.2)), List.find?_map]
      rfl
    rw [List.map_cons, chains, chains, hrest, hfind, List.map_append]
    refine congrArg (· ++ _) ?_
    cases hlast : (l :: ls).find? (·.2) with
    | none => rfl
    | some last =>
      have hslice := h l List.mem_cons_self last (List.mem_of_find?_eq_some hlast)
      show (chainOf? terminator body' (l.1.shift k) (last.1.shift k)).toList =
        (chainOf? terminator body l.1 last.1).toList.map _
      rw [chainOf?_shift hslice]
      cases chainOf? terminator body l.1 last.1 <;> rfl

theorem spanStop_of_mem_chains {ls : List (CaseLabel × Bool)} {g : CaseGroup} (h : g ∈ chains terminator body ls) :
    ∃ last ∈ ls, g.spanStop = last.1.stop := by
  induction ls with
  | nil => cases h
  | cons l ls ih =>
    rw [chains] at h
    rcases List.mem_append.mp h with h | h
    · obtain ⟨last, hlast, hchain⟩ := Option.bind_eq_some_iff.mp (Option.mem_toList.mp h)
      refine ⟨last, List.mem_of_find?_eq_some hlast, ?_⟩
      simp only [chainOf?] at hchain
      split at hchain
      · split at hchain
        · cases hchain
        · obtain rfl := Option.some.inj hchain
          rfl
      · cases hchain
    · obtain ⟨last, hlast, hstop⟩ := ih h
      exact ⟨last, List.mem_cons_of_mem l hlast, hstop⟩

/-- Groups that end at different places are not joined. -/
theorem joinNext_append {current : CaseGroup} {gs hs : List CaseGroup}
    (h : ∀ g ∈ current :: gs, ∀ x ∈ hs, x.spanStop ≠ g.spanStop) :
    joinNext current (gs ++ hs) = joinNext current gs ++ joinChains hs := by
  induction gs generalizing current with
  | nil =>
    cases hs with
    | nil => rfl
    | cons x hs =>
      have hne := h current List.mem_cons_self x List.mem_cons_self
      show joinNext current (x :: hs) = current :: joinNext x hs
      rw [joinNext, if_neg fun hx => hne hx.1]
  | cons g gs ih =>
    have hcurrent := h current List.mem_cons_self
    have hgs := fun y hy => h y (List.mem_cons_of_mem current hy)
    rw [List.cons_append, joinNext, joinNext]
    split
    · refine ih fun y hy => ?_
      rcases List.mem_cons.mp hy with rfl | hy
      · exact hcurrent
      · exact hgs y (List.mem_cons_of_mem g hy)
    · rw [ih hgs, List.cons_append]

theorem joinChains_append {gs hs : List CaseGroup} (h : ∀ g ∈ gs, ∀ x ∈ hs, x.spanStop ≠ g.spanStop) :
    joinChains (gs ++ hs) = joinChains gs ++ joinChains hs := by
  cases gs with
  | nil => rfl
  | cons g gs => exact joinNext_append h

theorem joinNext_shift (current : CaseGroup) (gs : List CaseGroup) :
    joinNext (current.shift k) (gs.map (·.shift k)) = (joinNext current gs).map (·.shift k) := by
  induction gs generalizing current with
  | nil => rfl
  | cons g gs ih =>
    have hsame : (g.shift k).spanStop = (current.shift k).spanStop ↔ g.spanStop = current.spanStop := Nat.add_right_cancel_iff
    rw [List.map_cons, joinNext, joinNext]
    by_cases h : g.spanStop = current.spanStop ∧ sameCode current.text g.text
    · rw [if_pos h, if_pos ⟨hsame.mpr h.1, h.2⟩, ← ih]
      rfl
    · rw [if_neg h, if_neg fun hx => h ⟨hsame.mp hx.1, hx.2⟩, ih, List.map_cons]

theorem joinChains_shift (gs : List CaseGroup) : joinChains (gs.map (·.shift k)) = (joinChains gs).map (·.shift k) := by
  cases gs with
  | nil => rfl
  | cons g gs => exact joinNext_shift g gs

end Groups

/-! ### Groups of a body in two parts -/

section Parts
variable {front back : List Char}

theorem code_front {l : CaseLabel} (h : l ∈ caseLabels front) : (l.shift 0).code (front ++ back) = l.code front :=
  have hcut := cut_of_mem_caseLabels h
  slice_append_left hcut.boundary hcut.stop_le back

theorem code_back (l : CaseLabel) : (l.shift (byteLength front)).code (front ++ back) = l.code back :=
  slice_append_right l.codeStart l.stop front back

theorem ownSpanGroups_parts (terminator : Pattern) (hedge : (lastOf none front).any isWord = false)
    (hdone : ∀ l ∈ (caseLabels front).getLast?, terminator.occursIn (l.code front) = true) (hlabel : StartsWithLabel back) :
    caseGroups .ownSpan terminator (front ++ back) =
      caseGroups .ownSpan terminator front ++ (caseGroups .ownSpan terminator back).map (·.shift (byteLength front)) := by
  have hfront := @ownSpanGroups_shift terminator front (front ++ back) 0 (caseLabels front) (fun l hl => code_front hl) []
  have hback := @ownSpanGroups_shift terminator back (front ++ back) _ (caseLabels back) (fun l _ => code_back l) []
  rw [List.map_nil, CaseLabel.map_shift_zero, CaseGroup.map_shift_zero] at hfront
  rw [caseGroups, caseGroups, caseGroups, caseLabels_append hedge hlabel, ownSpanGroups_append _ ?_ fun _ => rfl]
  · exact congr (congrArg _ hfront) hback
  · intro l hl
    rw [← hdone l hl, ← code_front (List.mem_of_getLast? hl)]
    rfl

/-- A label with the answer to the question whether its span holds the terminator. -/
def asked (terminator : Pattern) (body : List Char) (l : CaseLabel) : CaseLabel × Bool :=
  (l, terminator.occursIn (l.code body))

theorem asked_append (terminator : Pattern) (hedge : (lastOf none front).any isWord = false) (hlabel : StartsWithLabel back) :
    (caseLabels (front ++ back)).map (asked terminator (front ++ back)) =
      (caseLabels front).map (asked terminator front) ++
        ((caseLabels back).map (asked terminator back)).map fun l => (l.1.shift (byteLength front), l.2) := by
  rw [caseLabels_append hedge hlabel, List.map_append, List.map_map, List.map_map]
  refine congr (congrArg _ (List.map_congr_left fun l hl => ?_)) (List.map_congr_left fun l _ => ?_)
  · exact congrArg (fun code => (l, terminator.occursIn code)) (code_front hl)
  · exact congrArg (fun code => (l.shift _, terminator.occursIn code)) (code_back l)

theorem chains_front (terminator : Pattern) (front back : List Char) :
    chains terminator (front ++ back) ((caseLabels front).map (asked terminator front)) =
      chains terminator front ((caseLabels front).map (asked terminator front)) := by
  have hshift := @chains_shift terminator front (front ++ back) 0 ((caseLabels front).map (asked terminator front)) ?_
  · rwa [CaseGroup.map_shift_zero, List.map_map] at hshift
  · intro a ha b hb
    obtain ⟨l, hl, rfl⟩ := List.mem_map.mp ha
    obtain ⟨last, hlast, rfl⟩ := List.mem_map.mp hb
    exact slice_append_left (cut_of_mem_caseLabels hl).boundary (cut_of_mem_caseLabels hlast).stop_le back

theorem chains_back (terminator : Pattern) (front back : List Char) :
    chains terminator (front ++ back)
        (((caseLabels back).map (asked terminator back)).map fun l => (l.1.shift (byteLength front), l.2)) =
      (chains terminator back ((caseLabels back).map (asked terminator back))).map (·.shift (byteLength front)) :=
  chains_shift fun l _ last _ => slice_append_right l.1.codeStart last.1.stop front back

/-- Chains of the first part end in it, and those of the second behind its first label. -/
theorem chains_end_apart {terminator : Pattern} {g x : CaseGroup}
    (hg : g ∈ chains terminator front ((caseLabels front).map (asked terminator front)))
    (hx : x ∈ (chains terminator back ((caseLabels back).map (asked terminator back))).map (·.shift (byteLength front))) :
    x.spanStop ≠ g.spanStop := by
  obtain ⟨y, hy, rfl⟩ := List.mem_map.mp hx
  obtain ⟨a, ha, hstop⟩ := spanStop_of_mem_chains hg
  obtain ⟨b, hb, hstop'⟩ := spanStop_of_mem_chains hy
  obtain ⟨l, hl, rfl⟩ := List.mem_map.mp ha
  obtain ⟨l', hl', rfl⟩ := List.mem_map.mp hb
  have hle : g.spanStop ≤ byteLength front := hstop ▸ (cut_of_mem_caseLabels hl).stop_le
  have hcut := cut_of_mem_caseLabels hl'
  have hpos : 0 < y.spanStop := hstop' ▸ Nat.lt_of_lt_of_le hcut.codeStart_pos hcut.codeStart_le
  show y.spanStop + byteLength front ≠ g.spanStop
  omega

theorem fallThroughGroups_parts (terminator : Pattern) (hedge : (lastOf none front).any isWord = false)
    (hdone : ∀ l ∈ (caseLabels front).getLast?, terminator.occursIn (l.code front) = true) (hlabel : StartsWithLabel back) :
    caseGroups .fallThrough terminator (front ++ back) =
      caseGroups .fallThrough terminator front ++
        (caseGroups .fallThrough terminator back).map (·.shift (byteLength front)) := by
  show joinChains (chains _ _ ((caseLabels (front ++ back)).map (asked terminator (front ++ back)))) = _
  rw [asked_append terminator hedge hlabel, chains_append, chains_front, chains_back,
    joinChains_append fun g hg x hx => chains_end_apart hg hx, joinChains_shift]
  · rfl
  · intro a ha
    rw [List.getLast?_map] at ha
    obtain ⟨l, hl, rfl⟩ := Option.map_eq_some_iff.mp ha
    exact hdone l hl

/-- The case groups of a body are those of its first part and then those of the second, whatever ends a group and
    however far a label reaches, if the first part leaves nothing open and the second starts with a label. -/
theorem caseGroups_append (reach : Reach) (terminator : Pattern) (hedge : (lastOf none front).any isWord = false)
    (hdone : ∀ l ∈ (caseLabels front).getLast?, terminator.occursIn (l.code front) = true) (hlabel : StartsWithLabel back) :
    caseGroups reach terminator (front ++ back) =
      caseGroups reach terminator front ++ (caseGroups reach terminator back).map (·.shift (byteLength front)) := by
  cases reach with
  | ownSpan => exact ownSpanGroups_parts terminator hedge hdone hlabel
  | fallThrough => exact fallThroughGroups_parts terminator hedge hdone hlabel

end Parts

theorem caseGroups_append_default :
    let front := "case 1:\ncase 2: x = 1; break;\ndefault: y = 2;\n".toList
    let back := "case 3:\ncase 4: x = 2; break;\ncase 5: x = 3;\n".toList
    caseGroups .fallThrough breakStatement (front ++ back) =
        caseGroups .fallThrough breakStatement front ++
          (caseGroups .fallThrough breakStatement back).map (·.shift (byteLength front)) ∧
      (caseGroups .fallThrough breakStatement (front ++ back)).map (·.ids) = [[1, 2], [3, 4]] := by
  intro front back
  have hlabel : StartsWithLabel back := ⟨[' '], ['3'], [], back.drop 7, 3, by decide +kernel⟩
  exact ⟨caseGroups_append .fallThrough breakStatement (by decide) (by decide +kernel) hlabel, by decide +kernel⟩

end SpriteFacts.Switch
