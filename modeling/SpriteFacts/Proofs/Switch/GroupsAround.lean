import SpriteFacts.Proofs.Switch.FunctionPlace
import SpriteFacts.Proofs.Switch.LabelsAround
import SpriteFacts.Proofs.Switch.Stations

/-! Case groups around a statement of a body. A statement that returns an inert expression can be replaced by another
    one: the body has the same groups with the same numbers at the same places, and all but the one that was cut from
    around the statement have the same code. -/

namespace SpriteFacts.Switch

open Text Pattern

/-! ### Spans in order -/

theorem pairwise_labelsOf (n : Nat) (ms : List LandMark) : (labelsOf n ms).Pairwise fun a b => a.stop ≤ b.start := by
  induction ms generalizing n with
  | nil => exact List.Pairwise.nil
  | cons m ms ih =>
    cases hid : number? m with
    | none =>
      rw [labelsOf_none hid]
      exact ih _
    | some id =>
      rw [labelsOf_some hid]
      refine List.pairwise_cons.mpr ⟨fun l hl => ?_, ih _⟩
      -- No label stands among the marks that this one owns.
      obtain ⟨more, hmore⟩ := owned_append ms
      have hnone : ∀ k ∈ owned ms, number? k = none := fun k hk =>
        number?_of_not_ends (by simpa using List.all_eq_true.mp List.all_takeWhile k hk)
      rw [labelsOf, hmore, stationsOf_append_of_none hnone] at hl
      exact le_start l hl

/-- The spans of labels lie in order. -/
theorem pairwise_caseLabels (body : List Char) : (caseLabels body).Pairwise fun a b => a.stop ≤ b.codeStart := by
  obtain ⟨ms, hscan⟩ := Scan.exists_of_apart Landmark.apart none body
  have hcut : ∀ l ∈ caseLabels body, l.start ≤ l.codeStart := fun l hl => (cut_of_mem_caseLabels hl).start_le
  rw [caseLabels_eq hscan] at hcut ⊢
  exact (pairwise_labelsOf 0 ms).imp_of_mem fun _ hb hle => Nat.le_trans hle (hcut _ hb)

/-- Each group was cut from the span of a label of its own. -/
theorem sublist_spans (terminator : Pattern) (body : List Char) (waiting ls : List CaseLabel) :
    ((ownSpanGroups terminator body waiting ls).map fun g => (g.spanStart, g.spanStop)).Sublist
      (ls.map fun l => (l.codeStart, l.stop)) := by
  induction ls generalizing waiting with
  | nil => exact List.Sublist.slnil
  | cons l ls ih =>
    rw [ownSpanGroups, List.map_cons]
    cases terminator.find? (l.code body) with
    | some m => exact (ih []).cons_cons _
    | none =>
      show ((if _ then _ else _ : List CaseGroup).map _).Sublist _
      split
      · exact (ih _).cons _
      · exact (ih _).cons _

theorem pairwise_caseGroups (terminator : Pattern) (body : List Char) :
    (caseGroups .ownSpan terminator body).Pairwise fun g h => g.spanStop ≤ h.spanStart := by
  have hlabels : ((caseLabels body).map fun l => (l.codeStart, l.stop)).Pairwise fun a b => a.2 ≤ b.1 :=
    List.pairwise_map.mpr (pairwise_caseLabels body)
  exact List.pairwise_map.mp (hlabels.sublist (sublist_spans terminator body [] (caseLabels body)))

/-! ### The same group -/

/-- The span of the group holds the place at a byte offset of the body. -/
def CaseGroup.Holds (g : CaseGroup) (site : Nat) : Prop := g.spanStart ≤ site ∧ site < g.spanStop

/-- Two codes decide alike: a terminator stands in both or in neither, and in the latter case
    both are blank or neither is. -/
structure SameEnd (terminator : Pattern) (code code' : List Char) : Prop where
  found : (terminator.find? code).isSome = (terminator.find? code').isSome
  blank : terminator.find? code = none → holdsNoCode code = holdsNoCode code'

/-- Two labels of one number at the same place. -/
structure Placed (site size size' : Nat) (l l' : CaseLabel) : Prop where
  id : l.id = l'.id
  start : SamePlace site size size' l.start l'.start

/-- The same label in two bodies that differ at a place: it owns the same code apart from the place, or the place,
    and then both codes decide alike. -/
inductive LabelTwin (terminator : Pattern) (site size size' : Nat) (body body' : List Char) (l l' : CaseLabel) : Prop where
  | apart (placed : Placed site size size' l l') (code : l.code body = l'.code body') (outside : ¬l.Holds site)
      (outside' : ¬l'.Holds site)
  | around (placed : Placed site size size' l l') (ends : SameEnd terminator (l.code body) (l'.code body'))
      (inside : l.Holds site) (inside' : l'.Holds site)

/-- The same group in two bodies that differ at a place. It has the same code if the place is outside of its span. -/
structure GroupTwin (site size size' : Nat) (g g' : CaseGroup) : Prop where
  ids : g.ids = g'.ids
  offset : SamePlace site size size' g.offset g'.offset
  holds : g.Holds site ↔ g'.Holds site
  text : ¬g.Holds site → g.text = g'.text
  terminator : ¬g.Holds site → g.terminator = g'.terminator

section Twins
variable {terminator : Pattern} {site size size' : Nat} {body body' : List Char} {l l' : CaseLabel}
variable {waiting waiting' ls ls' : List CaseLabel}

theorem groupTwin_groupOf (hwaiting : List.Forall₂ (Placed site size size') waiting waiting') (hl : Placed site size size' l l')
    {text text' : List Char} {m m' : Match} (holds : l.Holds site ↔ l'.Holds site)
    (same : ¬l.Holds site → text = text' ∧ m = m') :
    GroupTwin site size size' (groupOf waiting l text m) (groupOf waiting' l' text' m') where
  ids := by
    have hids : List.Forall₂ Eq (waiting.map (·.id)) (waiting'.map (·.id)) := by
      rw [List.forall₂_map_left_iff, List.forall₂_map_right_iff]
      exact hwaiting.imp fun _ _ h => h.id
    rw [List.forall₂_eq_eq_eq] at hids
    simp [groupOf, hids, hl.id]
  offset := by
    cases hwaiting with
    | nil => exact hl.start
    | cons hw _ => exact hw.start
  holds := holds
  text h := (same h).1
  terminator h := congrArg Match.start (same h).2

/-- Labels that agree give groups that agree. -/
theorem ownSpanGroups_twins (hwaiting : List.Forall₂ (Placed site size size') waiting waiting')
    (h : List.Forall₂ (LabelTwin terminator site size size' body body') ls ls') :
    List.Forall₂ (GroupTwin site size size') (ownSpanGroups terminator body waiting ls)
      (ownSpanGroups terminator body' waiting' ls') := by
  induction h generalizing waiting waiting' with
  | nil => exact .nil
  | @cons l l' ls ls' hl hls ih =>
    -- A label without a terminator waits in both bodies or in neither.
    have hnext : ∀ (blank : Bool), Placed site size size' l l' → List.Forall₂ (GroupTwin site size size')
        (if blank then ownSpanGroups terminator body (waiting ++ [l]) ls else ownSpanGroups terminator body [] ls)
        (if blank then ownSpanGroups terminator body' (waiting' ++ [l']) ls' else ownSpanGroups terminator body' [] ls') := by
      intro blank placed
      cases blank with
      | true => exact ih (List.rel_append hwaiting (.cons placed .nil))
      | false => exact ih .nil
    rw [ownSpanGroups, ownSpanGroups]
    cases hl with
    | apart placed code outside outside' =>
      rw [code]
      cases terminator.find? (l'.code body') with
      | some m => exact .cons (groupTwin_groupOf hwaiting placed (iff_of_false outside outside') fun _ => ⟨rfl, rfl⟩) (ih .nil)
      | none => exact hnext _ placed
    | around placed ends inside inside' =>
      have hfound := ends.found
      cases hm : terminator.find? (l.code body) with
      | some m =>
        rw [hm] at hfound
        obtain ⟨m', hm'⟩ := Option.isSome_iff_exists.mp hfound.symm
        rw [hm']
        exact .cons (groupTwin_groupOf hwaiting placed (iff_of_true inside inside') fun h => absurd inside h) (ih .nil)
      | none =>
        rw [hm] at hfound
        rw [Option.isSome_eq_false_iff.mp hfound.symm |> Option.isNone_iff_eq_none.mp, ends.blank hm]
        exact hnext _ placed

theorem caseGroups_twins (h : List.Forall₂ (LabelTwin terminator site size size' body body') (caseLabels body) (caseLabels body')) :
    List.Forall₂ (GroupTwin site size size') (caseGroups .ownSpan terminator body) (caseGroups .ownSpan terminator body') :=
  ownSpanGroups_twins .nil h

/-- A body in front of the place is the same in both. -/
theorem labelTwins_before (hsite : byteLength body ≤ site) :
    List.Forall₂ (LabelTwin terminator site size size' body body) (caseLabels body) (caseLabels body) := by
  refine List.forall₂_same.mpr fun l hl => ?_
  have hcut := cut_of_mem_caseLabels hl
  have hstop := Nat.le_trans hcut.stop_le hsite
  have hstart := Nat.le_trans hcut.start_le (Nat.le_trans hcut.codeStart_le hstop)
  exact .apart ⟨rfl, .before _ hstart⟩ rfl (fun h => Nat.not_lt_of_le hstop h.2) fun h => Nat.not_lt_of_le hstop h.2

end Twins

/-! ### Labels around a part -/

section Around
variable {front back part part' : List Char}

theorem labelTwins_around {fill : List Char → Prop} {terminator : Pattern} (h : MarksAround fill none front back)
    (hpart : fill part) (hpart' : fill part') (hne : part ≠ []) (hne' : part' ≠ [])
    (ends : ∀ x y, x <:+ front → y <+: back → SameEnd terminator (x ++ (part ++ y)) (x ++ (part' ++ y))) :
    List.Forall₂ (LabelTwin terminator (byteLength front) (byteLength part) (byteLength part') (front ++ (part ++ back))
      (front ++ (part' ++ back))) (caseLabels (front ++ (part ++ back))) (caseLabels (front ++ (part' ++ back))) := by
  obtain ⟨ms, ms', hscan, hscan', htwins⟩ := h.twins hpart hpart' hne hne'
  rw [caseLabels_eq hscan, caseLabels_eq hscan', labelsOf, labelsOf, List.forall₂_map_left_iff, List.forall₂_map_right_iff]
  have hcode := fun s hs => ((marksAt_of_scan hscan).code_station s hs).1
  have hcode' := fun s hs => ((marksAt_of_scan hscan').code_station s hs).1
  have hleft := (List.forall₂_and_left _ _).mpr ⟨hcode, htwins⟩
  have hboth := (List.forall₂_and_left _ _).mpr ⟨hcode', hleft.flip⟩
  refine hboth.flip.imp fun s s' ⟨hs', hs, htwin⟩ => ?_
  cases htwin with
  | apart id place code outside outside' => exact .apart ⟨id, place⟩ (by rw [hs, hs', code]) outside outside'
  | around id place x y hx hy code code' inside inside' =>
    exact .around ⟨id, place⟩ (by rw [hs, hs', code, code']; exact ends x y hx hy) inside inside'

/-! ### The end of a label around a statement -/

theorem occursIn_of_return (hpart : IsReturn part) {x : List Char} (hx : (lastOf none x).any isWord = false) (y : List Char) :
    returnWord.occursIn (x ++ (part ++ y)) = true := by
  obtain ⟨expr, -, rfl⟩ := hpart
  refine (occursIn_word (by decide) (by decide)).mpr ⟨x, ' ' :: (expr ++ ([';'] ++ y)), ?_, hx, show isWord ' ' = false by decide⟩
  unfold returnText
  simp

theorem sameEnd_return (hpart : IsReturn part) (hpart' : IsReturn part') {x : List Char}
    (hx : (lastOf none x).any isWord = false) (y : List Char) :
    SameEnd returnWord (x ++ (part ++ y)) (x ++ (part' ++ y)) where
  found := (occursIn_of_return hpart hx y).trans (occursIn_of_return hpart' hx y).symm
  blank hnone := by
    have := occursIn_of_return hpart hx y
    rw [occursIn, hnone] at this
    cases this

/-- A word stands in text with a gap whatever blanks the gap is. -/
theorem occursIn_refill (h : IsGap part) (h' : IsGap part') {x y : List Char}
    (hfound : returnWord.occursIn (x ++ (part ++ y)) = true) : returnWord.occursIn (x ++ (part' ++ y)) = true := by
  have hword : ∀ {cs : List Char}, returnWord.occursIn cs = true ↔ _ := occursIn_word (s := "return") (by decide) (by decide)
  obtain ⟨before, behind, hsplit, hbefore, hbehind⟩ := hword.mp hfound
  rcases List.append_eq_append_iff.mp hsplit with ⟨w, rfl, hrest⟩ | ⟨w, rfl, hrest⟩
  · -- The gap begins in front of the word, so it ends there as well.
    have hletter : 'r' ∉ part := fun hmem => absurd (List.all_eq_true.mp h.2 _ hmem) (by decide)
    have hreturn : "return".toList = 'r' :: "eturn".toList := rfl
    obtain ⟨v, rfl, rfl⟩ := split_behind hreturn hletter hrest
    refine hword.mpr ⟨x ++ (part' ++ v), behind, by simp, ?_, hbehind⟩
    rw [lastOf_append, lastOf_append] at hbefore ⊢
    cases v with
    | nil => exact lastOf_of_blank h'.2 h'.1 _
    | cons c v => exact hbefore
  · obtain ⟨rest, rfl, rfl⟩ := h.split_word (u := "return".toList) (by decide) hrest
    refine hword.mpr ⟨before, rest ++ (part' ++ y), by simp, hbefore, ?_⟩
    cases rest with
    | nil =>
      obtain ⟨c, cs, rfl, hc⟩ := h'.exists_cons
      exact isWord_of_isBlank hc
    | cons c rest => exact hbehind

theorem sameEnd_gap (h : IsGap part) (h' : IsGap part') {x y : List Char} (hfree : CommentFree (x ++ (part ++ y)))
    (hfree' : CommentFree (x ++ (part' ++ y))) : SameEnd returnWord (x ++ (part ++ y)) (x ++ (part' ++ y)) where
  found := Bool.eq_iff_iff.mpr ⟨occursIn_refill h h', occursIn_refill h' h⟩
  blank _ := by simp [hfree.holdsNoCode_eq, hfree'.holdsNoCode_eq, h.2, h'.2]

/-! ### The groups of a body -/

theorem commentFree_around {x y : List Char} (hx : x <:+ front) (hy : y <+: back) (h : CommentFree (front ++ (part ++ back))) :
    CommentFree (x ++ (part ++ y)) := by
  obtain ⟨a, rfl⟩ := hx
  obtain ⟨b, rfl⟩ := hy
  rintro as bs hsplit
  refine fun hopens => h (a ++ as) (bs ++ b) ?_ (hopens.append b)
  rw [← List.append_assoc part, List.append_assoc a, ← List.append_assoc x, hsplit]
  simp

/-- A body has the same groups whatever a statement of it returns. -/
theorem groupTwins_around (hpart : IsReturn part) (hpart' : IsReturn part') (hedge : (lastOf none front).any isWord = false)
    (back : List Char) : List.Forall₂ (GroupTwin (byteLength front) (byteLength part) (byteLength part'))
      (caseGroups .ownSpan returnWord (withoutComments (front ++ (part ++ back))))
      (caseGroups .ownSpan returnWord (withoutComments (front ++ (part' ++ back)))) := by
  obtain ⟨codeFront, codeBack, shown, haround⟩ := exists_codeAround front back
  have hfree := commentFree_withoutComments (front ++ (part ++ back))
  have hfree' := commentFree_withoutComments (front ++ (part' ++ back))
  rw [haround.code hpart.neutral] at hfree ⊢
  rw [haround.code hpart'.neutral] at hfree' ⊢
  rw [← haround.size]
  rcases haround.shown_eq with rfl | rfl
  · have hcodeEdge := haround.edge hedge
    refine caseGroups_twins (labelTwins_around (marksAround_return codeBack hcodeEdge) hpart hpart' hpart.neutral.nonempty
      hpart'.neutral.nonempty fun x y hx _ => ?_)
    obtain ⟨a, rfl⟩ := hx
    exact sameEnd_return hpart hpart' (edge_of_append hcodeEdge) y
  · have hgap : ∀ {t : List Char}, IsReturn t → IsGap (t.flatMap blankOut) := fun ht =>
      ⟨flatMap_blankOut_ne_nil ht.neutral.nonempty, blankOut_blank⟩
    rw [← byteLength_flatMap_blankOut part, ← byteLength_flatMap_blankOut part']
    refine caseGroups_twins (labelTwins_around (marksAround_gap none codeFront codeBack) (hgap hpart) (hgap hpart')
      (hgap hpart).1 (hgap hpart').1 fun x y hx hy => ?_)
    exact sameEnd_gap (hgap hpart) (hgap hpart') (commentFree_around hx hy hfree) (commentFree_around hx hy hfree')

/-! ### The groups of a function -/

/-- Two bodies that stand at the same place and differ at a place. -/
structure BodyTwin (site size size' : Nat) (b b' : FunctionBody) : Prop where
  offset : b.offset = b'.offset
  complete : b.complete = b'.complete
  groups : List.Forall₂ (GroupTwin site size size') (caseGroups .ownSpan returnWord (withoutComments b.text))
    (caseGroups .ownSpan returnWord (withoutComments b'.text))

theorem braceless_of_return (hpart : IsReturn part) : part.all (fun c => c != '\x7b' && c != '\x7d') = true := by
  obtain ⟨expr, hexpr, rfl⟩ := hpart
  have hplain : expr.all (fun c => c != '\x7b' && c != '\x7d') = true := List.all_eq_true.mpr fun c hc => by
    obtain ⟨-, hopen, hclose, -⟩ := hexpr.plain c hc
    simp [hopen, hclose]
  unfold returnText
  rw [List.all_append, List.all_append, hplain]
  decide

/-- A function at the start of its source stands at the same place and has the same groups whatever a statement returns. -/
theorem bodyTwin_of_find? (hpart : IsReturn part) (hpart' : IsReturn part') (hedge : (lastOf none front).any isWord = false)
    {name : String} {gap : List Char} (hname : IsName name.toList) (hgap : gap.all isBlank = true) (back : List Char) :
    ∃ b b', FunctionBody.find? (headText name gap ++ (front ++ (part ++ back))) name = some b ∧
      FunctionBody.find? (headText name gap ++ (front ++ (part' ++ back))) name = some b' ∧
      b.offset = byteLength (headText name gap) ∧ BodyTwin (byteLength front) (byteLength part) (byteLength part') b b' := by
  refine ⟨_, _, find?_headText hname hgap _, find?_headText hname hgap _, rfl, rfl, ?_, ?_⟩
  · rcases untilClosed_front 0 front with ⟨t, ht, hclosed⟩ | ⟨d, hopen⟩
    · simp only [hclosed]
    · simp only [hopen, untilClosed_append (braceless_of_return hpart), untilClosed_append (braceless_of_return hpart')]
  · rcases untilClosed_front 0 front with ⟨t, ht, hclosed⟩ | ⟨d, hopen⟩
    · simp only [hclosed]
      refine caseGroups_twins (labelTwins_before ?_)
      obtain ⟨more, rfl⟩ := ht
      rw [byteLength_withoutComments, byteLength_append]
      exact Nat.le_add_right _ _
    · simp only [hopen, untilClosed_append (braceless_of_return hpart), untilClosed_append (braceless_of_return hpart')]
      exact groupTwins_around hpart hpart' hedge _

end Around

end SpriteFacts.Switch
