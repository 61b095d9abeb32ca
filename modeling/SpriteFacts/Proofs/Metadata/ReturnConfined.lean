import SpriteFacts.Proofs.Metadata.ReturnGroups
import SpriteFacts.Proofs.Switch.GroupsAround

/-! An expression counts for its own group alone. A pass that reads what a function returns gives each case group its
    records and its diagnostics, and what it reports besides is about the function as a whole. Whatever one `return`
    of the function returns, every group but the one that was cut from around it has the same outcome, down to the
    lines of the diagnostics. -/

namespace SpriteFacts.Metadata

open Switch Text

/-! ### The outcomes of a pass -/

/-- What a pass gives for one case group, and the part of the source that the group was cut from. -/
structure GroupOutcome where
  ids : List Nat
  start : Nat
  stop : Nat
  records : List Metadata
  diagnostics : List Diagnostic

/-- The group was cut from around a byte offset of the source. -/
def GroupOutcome.Holds (o : GroupOutcome) (site : Nat) : Prop := o.start ≤ site ∧ site < o.stop

/-- The outcome of one group of a located function. -/
def outcome (constants : LayerConstants) (pass : Pass) (l : Located) (g : CaseGroup) : GroupOutcome where
  ids := g.ids
  start := l.body.offset + g.spanStart
  stop := l.body.offset + g.spanStop
  records := groupRecords g (returnFact constants pass g)
  diagnostics := groupDiagnostics l g (returnFact constants pass g)

/-- The outcomes of a pass that reads what a function returns, group by group. -/
def outcomes (source : Source) (settings : Settings) (pass : Pass) : List GroupOutcome :=
  match Located.find? source (settings.functionFor pass) with
  | none => []
  | some l => (caseGroups .ownSpan returnWord l.code).map (outcome settings.constants pass l)

/-- The diagnostics of a pass that are about its function as a whole. -/
def general (source : Source) (settings : Settings) (pass : Pass) : List Diagnostic :=
  match Located.find? source (settings.functionFor pass) with
  | none => (PhaseReport.missing pass (settings.functionFor pass)).diagnostics
  | some l => l.unclosed

/-- A pass gives what its outcomes hold, and reports nothing besides but what is about the function as a whole. -/
structure MadeOfOutcomes (source : Source) (settings : Settings) (pass : Pass) : Prop where
  records : (runPass source settings pass).1 = (outcomes source settings pass).flatMap (·.records)
  diagnostics : (runPass source settings pass).2.diagnostics =
    general source settings pass ++ (outcomes source settings pass).flatMap (·.diagnostics)
  apart : (outcomes source settings pass).Pairwise fun a b => a.stop ≤ b.start

theorem madeOfOutcomes {pass : Pass} (hpass : pass ∈ Pass.returning) (source : Source) (settings : Settings) :
    MadeOfOutcomes source settings pass := by
  have hread : ∀ l, readLocated settings pass l = readGroups l pass returnWord (returnFact settings.constants pass) := by
    simp only [Pass.returning, List.mem_cons, List.not_mem_nil, or_false] at hpass
    rcases hpass with rfl | rfl | rfl | rfl <;> exact fun l => rfl
  cases hl : Located.find? source (settings.functionFor pass) with
  | none => constructor <;> simp [runPass, outcomes, general, hl, PhaseReport.missing]
  | some l =>
    refine ⟨?_, ?_, ?_⟩
    · simp [runPass, outcomes, outcome, hl, hread, readGroups, List.flatMap_map]
    · simp [runPass, outcomes, outcome, general, hl, hread, readGroups, Located.report, List.flatMap_map]
    · simp only [outcomes, hl]
      exact List.pairwise_map.mpr ((pairwise_caseGroups _ _).imp fun h => Nat.add_le_add_left h _)

/-! ### The same outcome -/

/-- The same group in two runs. It has the same outcome if it was not cut from around the place. -/
structure OutcomeTwin (site : Nat) (o o' : GroupOutcome) : Prop where
  ids : o.ids = o'.ids
  holds : o.Holds site ↔ o'.Holds site
  records : ¬o.Holds site → o.records = o'.records
  diagnostics : ¬o.Holds site → o.diagnostics = o'.diagnostics

/-- Two runs agree but for the groups that were cut from around a place of the source. -/
structure AgreeBut (site : Nat) (source source' : Source) (settings : Settings) (pass : Pass) : Prop where
  general : general source settings pass = general source' settings pass
  outcomes : List.Forall₂ (OutcomeTwin site) (outcomes source settings pass) (outcomes source' settings pass)

theorem returnFact_congr (constants : LayerConstants) (pass : Pass) {g g' : CaseGroup} (hids : g.ids = g'.ids)
    (htext : g.text = g'.text) (hterminator : g.terminator = g'.terminator) :
    returnFact constants pass g = returnFact constants pass g' := by
  have hending : g.ending = g'.ending := by rw [CaseGroup.ending, CaseGroup.ending, htext, hterminator]
  rw [returnFact, returnFact, returnExpression?, returnExpression?, hending, hids]

theorem groupRecords_congr {g g' : CaseGroup} (hids : g.ids = g'.ids) (fact : GroupFact) :
    groupRecords g fact = groupRecords g' fact := by
  unfold groupRecords
  rw [hids]

theorem groupDiagnostics_congr {l l' : Located} {g g' : CaseGroup}
    (h : ∀ severity message, l.diagnostic g severity message = l'.diagnostic g' severity message) (fact : GroupFact) :
    groupDiagnostics l g fact = groupDiagnostics l' g' fact := by
  unfold groupDiagnostics
  simp only [h]

section Twins
variable {site size size' : Nat} {l l' : Located}

/-- A group that agrees in both bodies has outcomes that agree. -/
theorem outcomeTwin (constants : LayerConstants) (pass : Pass) (hfunction : l.function = l'.function)
    (hoffset : l.body.offset = l'.body.offset)
    (hline : ∀ {n n'}, SamePlace site size size' n n' →
      l.source.lineAt (l.body.offset + n) = l'.source.lineAt (l'.body.offset + n'))
    {g g' : CaseGroup} (h : GroupTwin site size size' g g') :
    OutcomeTwin (l.body.offset + site) (outcome constants pass l g) (outcome constants pass l' g') := by
  have hholds : ∀ {l : Located} {g : CaseGroup}, (outcome constants pass l g).Holds (l.body.offset + site) ↔ g.Holds site := by
    intro l g
    simp only [GroupOutcome.Holds, CaseGroup.Holds, outcome]
    omega
  have hfact : ¬g.Holds site → returnFact constants pass g = returnFact constants pass g' := fun hout =>
    returnFact_congr constants pass h.ids (h.text hout) (h.terminator hout)
  refine ⟨h.ids, hholds.trans (h.holds.trans ?_), fun hout => ?_, fun hout => ?_⟩
  · rw [hoffset]
    exact hholds.symm
  · show groupRecords g _ = groupRecords g' _
    rw [hfact (mt hholds.mpr hout)]
    exact groupRecords_congr h.ids _
  · show groupDiagnostics l g _ = groupDiagnostics l' g' _
    rw [hfact (mt hholds.mpr hout)]
    refine groupDiagnostics_congr (fun severity message => ?_) _
    rw [Located.diagnostic, Located.diagnostic, hfunction, hline h.offset, h.ids]

theorem unclosed_congr (hfunction : l.function = l'.function) (hcomplete : l.body.complete = l'.body.complete)
    (hline : l.source.lineAt l.body.offset = l'.source.lineAt l'.body.offset) : l.unclosed = l'.unclosed := by
  rw [Located.unclosed, Located.unclosed, hfunction, hcomplete, hline]

end Twins

/-! ### One return among others -/

/-- The text of a function up to a place of its body. -/
def openedText (name : String) (front : List Char) : List Char := headText name [' '] ++ front

/-- What a function returns at one place counts for the group around that place only. -/
theorem return_confined {source source' : Source} {settings : Settings} {pass : Pass} {front back expr expr' : List Char}
    (hpass : pass ∈ Pass.returning) (hfront : (lastOf none front).any isWord = false) (hexpr : Inert expr)
    (hexpr' : Inert expr')
    (htext : source.text = openedText (settings.functionFor pass) front ++ (returnText expr ++ back))
    (htext' : source'.text = openedText (settings.functionFor pass) front ++ (returnText expr' ++ back)) :
    MadeOfOutcomes source settings pass ∧ MadeOfOutcomes source' settings pass ∧
      AgreeBut (byteLength (openedText (settings.functionFor pass) front)) source source' settings pass := by
  refine ⟨madeOfOutcomes hpass source settings, madeOfOutcomes hpass source' settings, ?_⟩
  have hpart : IsReturn (returnText expr) := ⟨expr, hexpr, rfl⟩
  have hpart' : IsReturn (returnText expr') := ⟨expr', hexpr', rfl⟩
  by_cases hname : IsName (settings.functionFor pass).toList
  · have hgap : [' '].all isBlank = true := by decide
    obtain ⟨b, b', hb, hb', hoffset, htwin⟩ := bodyTwin_of_find? hpart hpart' hfront hname hgap back
    have hl : Located.find? source (settings.functionFor pass) = some ⟨source, settings.functionFor pass, b⟩ := by
      rw [Located.find?, htext, openedText, List.append_assoc, hb, Option.map_some]
    have hl' : Located.find? source' (settings.functionFor pass) = some ⟨source', settings.functionFor pass, b'⟩ := by
      rw [Located.find?, htext', openedText, List.append_assoc, hb', Option.map_some]
    have hline : ∀ {n n'}, SamePlace (byteLength front) (byteLength (returnText expr)) (byteLength (returnText expr')) n n' →
        source.lineAt (b.offset + n) = source'.lineAt (b'.offset + n') := by
      intro n n' hn
      have hplace := hn.add b.offset
      rw [hoffset, ← byteLength_append] at hplace
      rw [Source.lineAt, Source.lineAt, htext, htext', ← htwin.offset, hoffset]
      exact lineAt_samePlace hpart.neutral.nonempty hpart'.neutral.nonempty hpart.neutral.line hpart'.neutral.line hplace
    refine ⟨?_, ?_⟩
    · simp only [general, hl, hl']
      exact unclosed_congr rfl htwin.complete (hline (.before 0 (Nat.zero_le _)))
    · simp only [outcomes, hl, hl']
      rw [List.forall₂_map_left_iff, List.forall₂_map_right_iff]
      have hsite : byteLength (openedText (settings.functionFor pass) front) = b.offset + byteLength front := by
        rw [openedText, byteLength_append, hoffset]
      rw [hsite]
      refine htwin.groups.imp fun g g' hg => ?_
      exact @outcomeTwin _ _ _ ⟨source, _, b⟩ ⟨source', _, b'⟩ settings.constants pass rfl htwin.offset hline g g' hg
  · have hnone : ∀ s : Source, Located.find? s (settings.functionFor pass) = none := fun s => by
      rw [Located.find?, Option.map_eq_none_iff, Option.eq_none_iff_forall_ne_some]
      exact fun b hb => hname (isName_of_find? hb)
    exact ⟨by simp only [general, hnone], by simp only [outcomes, hnone]; exact .nil⟩

theorem return_confined_second :
    let front := "switch (sprite) \x7b\ncase 1: return 3;\ncase 2: /* slow */ ".toList
    let back := "\ncase 3:\ncase 4: return dx;\n\x7d\n\x7d\n".toList
    let source : Source := ⟨"moves.c", openedText "_is_mov_sprite" front ++ (returnText "-5".toList ++ back), .utf8⟩
    let source' : Source := ⟨"moves.c", openedText "_is_mov_sprite" front ++ (returnText "speed * 2".toList ++ back), .utf8⟩
    Pass.mov ∈ Pass.returning ∧ (lastOf none front).any isWord = false ∧ Inert "-5".toList ∧ Inert "speed * 2".toList ∧
      MadeOfOutcomes source {} .mov ∧ MadeOfOutcomes source' {} .mov ∧
      AgreeBut (byteLength (openedText "_is_mov_sprite" front)) source source' {} .mov ∧
      (outcomes source {} .mov).map (fun o => (o.ids, o.records.length, o.diagnostics.map (·.line))) =
        [([1], 1, []), ([2], 1, []), ([3, 4], 0, [some 4])] ∧
      (outcomes source' {} .mov).map (fun o => (o.ids, o.records.length, o.diagnostics.map (·.line))) =
        [([1], 1, []), ([2], 0, [some 3]), ([3, 4], 0, [some 4])] := by
  intro front back source source'
  have hpass : Pass.mov ∈ Pass.returning := by decide
  have hfront : (lastOf none front).any isWord = false := by decide
  have hexpr : Inert "-5".toList := ⟨by simp, by decide, by decide⟩
  have hexpr' : Inert "speed * 2".toList := ⟨by simp, by decide, by decide⟩
  obtain ⟨hmade, hmade', hagree⟩ := @return_confined source source' {} .mov front back _ _ hpass hfront hexpr hexpr' rfl rfl
  exact ⟨hpass, hfront, hexpr, hexpr', hmade, hmade', hagree, by decide +kernel, by decide +kernel⟩

end SpriteFacts.Metadata
