import Mathlib.Data.List.Dedup
import Mathlib.Data.List.Flatten
import SpriteFacts.Proofs.Metadata.PassOrder

/-! The two counts of a document. The phase of a pass counts the records that the pass gives, and the tally of the pass
    counts the sprites of the merged document that have its fields. Merging keeps what every pass states, so the tally is
    the number of different sprites among the records. The counts of a metadata pass agree unless the pass gives a number
    twice, which takes two labels with one number; a variant pass counts what it has merged. -/

namespace SpriteFacts

open Switch SpriteRecord

/-- What the tally of a pass is called. -/
def Pass.tallyName : Pass → String
  | .cut => "Cut sprites"
  | .door => "Door sprites"
  | .mov => "Mov sprites"
  | .yadd => "Yadd sprites"
  | .layer => "Layer sprites"
  | .offset => "Offset sprites"
  | .noLighting => "No-lighting sprites"
  | .character | .animated => ""

/-- What a document reports of a pass. -/
def Document.phase? (d : Document) (pass : Pass) : Option PhaseReport := d.phases.find? fun phase => phase.pass = pass

namespace Metadata

/-- The record counts in the tally of the pass. -/
def tallied : Pass → Metadata → Bool
  | .cut, r => r.hasCut
  | .door, r => r.door = some true
  | .mov, r => r.mov.isSome
  | .yadd, r => r.yadd.isSome
  | .layer, r => r.layer.isSome
  | .offset, r => r.hasOffset
  | .noLighting, r => r.noLighting = some true
  | .character, _ | .animated, _ => false

theorem metadataTallies_eq (rs : List Metadata) : Document.metadataTallies rs =
    DocumentKind.metadata.passes.map fun pass => (pass.tallyName, rs.countP (tallied pass)) := rfl

/-! ### What a tally sees -/

section Tallied
variable {pass : Pass} {a b r : Metadata} {rs : List Metadata} {id : Nat}

theorem tallied_record (fact : Fact) (id : Nat) : tallied fact.pass (fact.record id) = true := by
  cases fact with
  | cut value => cases value <;> rfl
  | door | mov value | yadd value | layer value | offset value | noLighting => rfl

/-- A tally looks at no field of another pass. -/
theorem tallied_only (pass : Pass) (r : Metadata) : tallied pass (r.only pass) = tallied pass r := by cases pass <;> rfl

theorem tallied_blank (pass : Pass) (id : Nat) : tallied pass { id := id } = false := by cases pass <;> rfl

theorem isEmpty_of_tallied (h : tallied pass r = true) : r.isEmpty = false := by
  cases hempty : r.isEmpty with
  | false => rfl
  | true =>
    simp only [isEmpty, Bool.and_eq_true, Bool.not_eq_true', Option.isNone_iff_eq_none] at hempty
    cases pass <;> simp_all [tallied]

/-- What counts still counts under an earlier record. -/
theorem tallied_overlay (h : tallied pass b = true) : tallied pass (overlay a b) = true := by
  cases pass with
  | cut =>
    have hcut : b.hasCut = true := h
    show (overlay a b).hasCut = true
    rw [hasCut_overlay, hcut, Bool.or_true]
  | offset =>
    have hoffset : b.offsetX.isSome = true ∨ b.offsetY.isSome = true := Bool.or_eq_true_iff.mp h
    show ((b.offsetX.or a.offsetX).isSome || (b.offsetY.or a.offsetY).isSome) = true
    rcases hoffset with hx | hy
    · rw [Option.isSome_or, hx, Bool.true_or, Bool.true_or]
    · rw [Option.isSome_or (o := b.offsetY), hy, Bool.true_or, Bool.or_true]
  | door | mov | yadd | layer | noLighting | character | animated => simp_all [tallied, overlay]

theorem tallied_stacked (hne : rs ≠ []) (h : ∀ r ∈ rs, tallied pass r = true) : tallied pass (stacked id rs) = true := by
  obtain rfl | ⟨front, last, rfl⟩ := rs.eq_nil_or_concat
  · exact absurd rfl hne
  · rw [List.concat_eq_append] at h ⊢
    rw [stacked, List.foldl_append]
    exact tallied_overlay (h last (by simp))

end Tallied

/-! ### The numbers that a pass gives -/

/-- The numbers of the records that a pass gives, once for each record. -/
def givenNumbers (source : Source) (settings : Settings) (pass : Pass) : List Nat :=
  (runPass source settings pass).1.map (·.id)

section Numbers
variable {source : Source} {settings : Settings} {pass : Pass}

/-- The groups take each label once, in the order of the labels. -/
theorem ids_sublist (terminator : Pattern) (body : List Char) (waiting labels : List CaseLabel) :
    ((ownSpanGroups terminator body waiting labels).flatMap (·.ids)).Sublist ((waiting ++ labels).map (·.id)) := by
  induction labels generalizing waiting with
  | nil => exact List.nil_sublist _
  | cons l labels ih =>
    have dropped : ((ownSpanGroups terminator body [] labels).flatMap (·.ids)).Sublist (labels.map (·.id)) := ih []
    rw [List.append_cons, ownSpanGroups]
    split
    · rw [List.map_append, List.flatMap_cons]
      exact (List.Sublist.refl _).append dropped
    · split
      · exact ih (waiting ++ [l])
      · rw [List.map_append]
        exact dropped.trans (List.sublist_append_right _ _)

theorem id_record (fact : Fact) (id : Nat) : (fact.record id).id = id := by
  rw [record_eq_with]

theorem ids_groupRecords (g : CaseGroup) (fact : GroupFact) : ((groupRecords g fact).map (·.id)).Sublist g.ids := by
  unfold groupRecords
  split
  · rename_i fact
    have hids : (g.ids.map fact.record).map (·.id) = g.ids := by
      rw [List.map_map]
      exact (List.map_congr_left fun id _ => id_record fact id).trans (List.map_id _)
    rw [hids]
  · exact List.nil_sublist _

/-- A pass gives each label of its function one record at most. -/
theorem givenNumbers_sublist {l : Located} (hl : Located.find? source (settings.functionFor pass) = some l) :
    (givenNumbers source settings pass).Sublist ((caseLabels l.code).map (·.id)) := by
  have hpresence : ∀ fact, ((presence l fact).map (·.id)).Sublist ((caseLabels l.code).map (·.id)) := fun fact => by
    have hids : (presence l fact).map (·.id) = (caseLabels l.code).map (·.id) := by
      rw [presence, List.map_map]
      exact List.map_congr_left fun label _ => id_record fact label.id
    exact hids ▸ List.Sublist.refl _
  have hgroups : ∀ (terminator : Pattern) (read : CaseGroup → GroupFact),
      ((readGroups l pass terminator read).1.map (·.id)).Sublist ((caseLabels l.code).map (·.id)) := fun terminator read => by
    show (((caseGroups .ownSpan terminator l.code).flatMap fun g => groupRecords g (read g)).map (·.id)).Sublist _
    rw [List.map_flatMap]
    exact (List.Sublist.flatMap_right _ fun g _ => ids_groupRecords g (read g)).trans (ids_sublist terminator l.code [] _)
  rw [givenNumbers, runPass_some hl]
  cases pass with
  | door => exact hpresence .door
  | noLighting => exact hpresence .noLighting
  | cut | mov | yadd | layer | offset | character | animated => exact hgroups _ _

theorem entries_eq_length : (runPass source settings pass).2.entries = (givenNumbers source settings pass).length := by
  rw [givenNumbers, List.length_map]
  cases hl : Located.find? source (settings.functionFor pass) with
  | none => simp only [runPass, hl]; rfl
  | some l =>
    rw [runPass_some hl]
    cases pass <;> rfl

theorem pass_report : (runPass source settings pass).2.pass = pass := by
  cases hl : Located.find? source (settings.functionFor pass) with
  | none => simp only [runPass, hl]; rfl
  | some l =>
    rw [runPass_some hl]
    cases pass <;> rfl

theorem phase?_extract (hpass : pass ∈ DocumentKind.metadata.passes) :
    (Document.extract source settings .metadata).phase? pass = some (runPass source settings pass).2 := by
  show ((DocumentKind.metadata.passes.map (runPass source settings)).map (·.2)).find? _ = _
  rw [List.map_map, List.find?_map]
  have hsame : (DocumentKind.metadata.passes.find? ((fun phase : PhaseReport => decide (phase.pass = pass)) ∘
      ((·.2) ∘ runPass source settings))) = DocumentKind.metadata.passes.find? fun p => p = pass := by
    refine congrArg (List.find? · DocumentKind.metadata.passes) (funext fun p => ?_)
    simp only [Function.comp_apply, pass_report]
  have hfound : (DocumentKind.metadata.passes.find? fun p => p = pass) = some pass := by
    clear hsame
    revert pass
    decide
  rw [hsame, hfound]
  rfl

end Numbers

/-! ### The merged document -/

section Merged
variable {source : Source} {settings : Settings} {pass : Pass}

/-- A sprite of the document counts in the tally of a pass exactly if the pass gives its number. -/
theorem exists_tallied_iff {passes : List Pass} (hnodup : passes.Nodup) (hpass : pass ∈ passes) (id : Nat) :
    (∃ r ∈ merged source settings passes, tallied pass r = true ∧ r.id = id) ↔ id ∈ givenNumbers source settings pass := by
  have hstack : ∀ {r : Metadata}, r = stacked r.id (passes.flatMap (ownRecords source settings r.id)) →
      tallied pass r = tallied pass (stacked r.id (ownRecords source settings r.id pass)) := fun {r} h => by
    rw [← only_stacked hnodup hpass, ← h, tallied_only]
  constructor
  · rintro ⟨r, hr, htallied, rfl⟩
    obtain ⟨-, hstacked, -⟩ := mem_merged.mp hr
    rw [hstack hstacked] at htallied
    obtain ⟨x, hx⟩ : ∃ x, x ∈ ownRecords source settings r.id pass := by
      refine List.exists_mem_of_ne_nil _ fun hnil => ?_
      rw [hnil] at htallied
      exact absurd htallied (by rw [stacked, List.foldl_nil, tallied_blank]; exact Bool.false_ne_true)
    exact List.mem_map.mpr ⟨x, (List.mem_filter.mp hx).1, number_of_mem_contributions hx⟩
  · intro hid
    obtain ⟨x, hx, rfl⟩ := List.mem_map.mp hid
    have hown : x ∈ ownRecords source settings x.id pass := List.mem_filter.mpr ⟨hx, beq_self_eq_true _⟩
    obtain ⟨r, hr⟩ : ∃ r, r = stacked x.id (passes.flatMap (ownRecords source settings x.id)) := ⟨_, rfl⟩
    have hrid : r.id = x.id := hr ▸ number_foldl_overlay (ρ := Metadata) _ _
    have htallied : tallied pass r = true := by
      rw [hstack (by rw [hrid]; exact hr), hrid]
      refine tallied_stacked (List.ne_nil_of_mem hown) fun y hy => ?_
      obtain ⟨fact, id, rfl, rfl⟩ := fact_of_mem_runPass (List.mem_filter.mp hy).1
      exact tallied_record fact id
    refine ⟨r, mem_merged.mpr ⟨?_, by rw [hrid]; exact hr, isEmpty_of_tallied htallied⟩, htallied, hrid⟩
    rw [hrid]
    exact List.ne_nil_of_mem (List.mem_flatMap.mpr ⟨pass, hpass, hown⟩)

/-- The tally of a pass is the number of different numbers that the pass gives. -/
theorem countP_tallied {passes : List Pass} (hnodup : passes.Nodup) (hpass : pass ∈ passes) :
    (merged source settings passes).countP (tallied pass) = (givenNumbers source settings pass).dedup.length := by
  have hids : (((merged source settings passes).filter (tallied pass)).map (·.id)).Nodup := by
    refine List.Pairwise.map _ (fun a b h => Nat.ne_of_lt h) ?_
    exact (Roster.ascending_finish _).filter _
  have hperm : (((merged source settings passes).filter (tallied pass)).map (·.id)).Perm
      (givenNumbers source settings pass).dedup := by
    refine (List.perm_ext_iff_of_nodup hids (List.nodup_dedup _)).mpr fun id => ?_
    rw [List.mem_dedup, ← exists_tallied_iff hnodup hpass, List.mem_map]
    simp only [List.mem_filter, and_assoc]
  rw [List.countP_eq_length_filter, ← hperm.length_eq, List.length_map]

theorem tally_extract (hpass : pass ∈ DocumentKind.metadata.passes) :
    (Document.extract source settings .metadata).tallies.lookup pass.tallyName =
      some (givenNumbers source settings pass).dedup.length := by
  have hrecords : (Document.extract source settings .metadata).records =
      .metadata (merged source settings DocumentKind.metadata.passes) := by
    rw [extract_metadata, merged, addAll_flatMap]
    rfl
  have htallies : (Document.extract source settings .metadata).tallies =
      Document.metadataTallies (merged source settings DocumentKind.metadata.passes) := by
    rw [Document.tallies, hrecords]
  have hlookup : ∀ f : Pass → Nat, (DocumentKind.metadata.passes.map fun p => (p.tallyName, f p)).lookup pass.tallyName =
      some (f pass) := fun f => by
    revert pass
    simp [DocumentKind.passes, Pass.tallyName, List.lookup_cons]
  rw [htallies, metadataTallies_eq, hlookup, countP_tallied (by decide) hpass]

end Merged

/-! ### The counts compared -/

theorem length_eq_dedup_iff (numbers : List Nat) : numbers.length = numbers.dedup.length ↔ numbers.Nodup := by
  rw [← List.dedup_eq_self]
  exact ⟨fun h => (List.dedup_sublist numbers).eq_of_length h.symm, fun h => by rw [h]⟩

/-- What a document counts for one of its passes: the phase counts all the numbers that the pass gives and the tally the
    different ones, so they agree exactly if no number is given twice. -/
structure Counted (source : Source) (settings : Settings) (pass : Pass) (phase : PhaseReport) (tally : Nat) : Prop where
  entries_eq : phase.entries = (givenNumbers source settings pass).length
  tally_eq : tally = (givenNumbers source settings pass).dedup.length
  agree_iff : phase.entries = tally ↔ (givenNumbers source settings pass).Nodup
  /-- No label of the function repeats the number of another one. -/
  agree : ∀ l, Located.find? source (settings.functionFor pass) = some l → ((caseLabels l.code).map (·.id)).Nodup →
    phase.entries = tally

/-- In the metadata document the entries of a pass are its tally exactly if the pass gives no number twice, as is so where no
    two labels of its function have one number. In a variant document the entries are always the number of records. -/
theorem entries_eq_tally_iff (source : Source) (settings : Settings) :
    (∀ pass ∈ DocumentKind.metadata.passes, ∃ phase tally,
      (Document.extract source settings .metadata).phase? pass = some phase ∧
        (Document.extract source settings .metadata).tallies.lookup pass.tallyName = some tally ∧
          Counted source settings pass phase tally) ∧
    ∀ kind ∈ [DocumentKind.character, .animated], ∃ phase,
      (Document.extract source settings kind).phases = [phase] ∧
        phase.entries = (Document.extract source settings kind).records.size := by
  constructor
  · intro pass hpass
    refine ⟨_, _, phase?_extract hpass, tally_extract hpass, entries_eq_length, rfl, ?_, fun l hl hdistinct => ?_⟩
    · rw [entries_eq_length, length_eq_dedup_iff]
    · rw [entries_eq_length, length_eq_dedup_iff]
      exact hdistinct.sublist (givenNumbers_sublist hl)
  · have hvariants : ∀ (kind : DocumentKind) (p : VariantPass), ∃ phase,
        (Document.ofVariants kind p source settings).phases = [phase] ∧
          phase.entries = (Document.ofVariants kind p source settings).records.size := by
      intro kind p
      refine ⟨_, rfl, ?_⟩
      show (p.run source settings).2.entries = (p.run source settings).1.length
      cases hl : Located.find? source (settings.functionFor p.pass) <;> simp only [VariantPass.run, hl] <;> rfl
    intro kind hkind
    rcases List.mem_pair.mp hkind with rfl | rfl
    · exact hvariants .character .character
    · exact hvariants .animated .animated

theorem entries_eq_tally_iff_shared :
    let source := Source.ofString "hints.c"
      "int _is_mov_sprite(int sprite)\n\x7b\nswitch (sprite) \x7b\ncase 7:\nreturn 5;\ncase 2:\ncase 3:\nreturn dx;\ncase 4:\nreturn 6;\n\x7d\n\x7d\n"
    ∃ phase tally, (Document.extract source {} .metadata).phase? .mov = some phase ∧
      (Document.extract source {} .metadata).tallies.lookup "Mov sprites" = some tally ∧
      Counted source {} .mov phase tally ∧ givenNumbers source {} .mov = [7, 4] ∧ phase.entries = tally := by
  intro source
  have hlabels : (Located.find? source "_is_mov_sprite").map (fun l => (caseLabels l.code).map (·.id)) = some [7, 2, 3, 4] := by
    decide +kernel
  obtain ⟨l, hl, hids⟩ := Option.map_eq_some_iff.mp hlabels
  obtain ⟨hmetadata, -⟩ := entries_eq_tally_iff source {}
  obtain ⟨phase, tally, hphase, htally, hcounted⟩ := hmetadata .mov (by decide)
  exact ⟨phase, tally, hphase, htally, hcounted, by decide +kernel, hcounted.agree l hl (by rw [hids]; decide)⟩

/-- Two switches of one function can give a number twice, and its entries are more than its tally. -/
theorem repeated_number_counted_twice :
    let source := Source.ofString "doors.c" ("int _is_door_sprite(int sprite)\n\x7b\nswitch (sprite) \x7b\ncase 5:\nreturn 1;\n\x7d\n" ++
      "switch (sprite) \x7b\ncase 5:\nreturn 1;\n\x7d\n\x7d\n")
    ((Document.extract source {} .metadata).phase? .door).map (·.entries) = some 2 ∧
      (Document.extract source {} .metadata).tallies.lookup "Door sprites" = some 1 := by
  decide +kernel

end Metadata
end SpriteFacts
