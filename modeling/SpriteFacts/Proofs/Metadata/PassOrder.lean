import SpriteFacts.Proofs.Metadata.CutSwitch
import SpriteFacts.Proofs.Metadata.ReturnGroups

/-! The order of the passes. Each pass states fields that no other pass states, also when several passes read one
    function, so laid over each other their records do not meet. Merged in any order they give the same document,
    and the fields of one pass in it are what that pass gives alone. -/

namespace SpriteFacts.Metadata

open Switch SpriteRecord

/-! ### What a pass can state -/

theorem pass_of_offsetFact {g : CaseGroup} {fact : Fact} (h : offsetFact g = .ok (some fact)) :
    fact.pass = .offset := by
  unfold offsetFact at h
  split at h
  · obtain rfl := Option.some.inj (Except.ok.inj h)
    rfl
  · split at h <;> cases h

theorem fact_of_mem_readGroups {l : Located} {pass : Pass} {terminator : Pattern} {read : CaseGroup → GroupFact}
    (h : ∀ g fact, read g = .ok (some fact) → fact.pass = pass) {r : Metadata} (hr : r ∈ (readGroups l pass terminator read).1) :
    ∃ (fact : Fact) (id : Nat), fact.pass = pass ∧ r = fact.record id := by
  obtain ⟨g, -, hr⟩ := List.mem_flatMap.mp hr
  unfold groupRecords at hr
  split at hr
  · rename_i fact hfact
    obtain ⟨id, -, rfl⟩ := List.mem_map.mp hr
    exact ⟨fact, id, h g fact hfact, rfl⟩
  · cases hr

/-- Whatever the source is and whichever function a pass reads, its records state facts of the pass. -/
theorem fact_of_mem_runPass {source : Source} {settings : Settings} {pass : Pass} {r : Metadata}
    (hr : r ∈ (runPass source settings pass).1) : ∃ (fact : Fact) (id : Nat), fact.pass = pass ∧ r = fact.record id := by
  have hpresence : ∀ {l : Located} (fact : Fact), r ∈ presence l fact → ∃ (f : Fact) (id : Nat), f.pass = fact.pass ∧ r = f.record id :=
    fun fact hr => by
      obtain ⟨label, -, rfl⟩ := List.mem_map.mp hr
      exact ⟨fact, label.id, rfl, rfl⟩
  cases hl : Located.find? source (settings.functionFor pass) with
  | none =>
    simp only [runPass, hl] at hr
    cases hr
  | some l =>
    rw [runPass_some hl] at hr
    cases pass with
    | door => exact hpresence .door hr
    | noLighting => exact hpresence .noLighting hr
    | offset => exact fact_of_mem_readGroups (fun _ _ => pass_of_offsetFact) hr
    | cut | mov | yadd | layer | character | animated => exact fact_of_mem_readGroups (fun _ _ => pass_of_returnFact) hr

theorem statesOnly_runPass (source : Source) (settings : Settings) (pass : Pass) :
    ∀ r ∈ (runPass source settings pass).1, StatesOnly pass r := by
  intro r hr
  obtain ⟨fact, id, rfl, rfl⟩ := fact_of_mem_runPass hr
  exact statesOnly_record fact id

/-! ### The fields of one pass -/

/-- The record without the fields of other passes. -/
def only (pass : Pass) (r : Metadata) : Metadata :=
  match pass with
  | .cut => { id := r.id, cutOffset := r.cutOffset, cutNegative := r.cutNegative, cutSprite := r.cutSprite }
  | .door => { id := r.id, door := r.door }
  | .mov => { id := r.id, mov := r.mov }
  | .yadd => { id := r.id, yadd := r.yadd }
  | .layer => { id := r.id, layer := r.layer }
  | .offset => { id := r.id, offsetX := r.offsetX, offsetY := r.offsetY }
  | .noLighting => { id := r.id, noLighting := r.noLighting }
  | .character | .animated => { id := r.id }

@[simp] theorem id_only (pass : Pass) (r : Metadata) : (r.only pass).id = r.id := by cases pass <;> rfl

/-- The passes of the document leave no field out. -/
theorem ext_only {r s : Metadata} (h : ∀ pass ∈ DocumentKind.metadata.passes, r.only pass = s.only pass) : r = s := by
  have hpass : r.only .cut = s.only .cut ∧ r.only .door = s.only .door ∧ r.only .mov = s.only .mov ∧
      r.only .yadd = s.only .yadd ∧ r.only .layer = s.only .layer ∧ r.only .offset = s.only .offset ∧
      r.only .noLighting = s.only .noLighting := by
    refine ⟨?_, ?_, ?_, ?_, ?_, ?_, ?_⟩ <;> exact h _ (by decide)
  cases r
  cases s
  simp only [only, mk.injEq] at hpass ⊢
  grind

theorem only_eq_self {pass : Pass} {r : Metadata} (h : StatesOnly pass r) : r.only pass = r := by
  cases pass with
  | cut | door | mov | yadd | layer | noLighting => exact h.2.symm
  | offset => exact h.2.2.symm
  | character | animated => exact h.elim

theorem only_of_ne {pass other : Pass} {r : Metadata} (h : StatesOnly other r) (hne : other ≠ pass) :
    r.only pass = { id := r.id } := by
  rw [← only_eq_self h]
  cases pass <;> cases other <;> first | rfl | exact absurd rfl hne

theorem isEmpty_only {pass : Pass} {r : Metadata} (h : r.isEmpty = true) : (r.only pass).isEmpty = true := by
  simp only [isEmpty, hasCut, hasOffset, Bool.and_eq_true, Bool.not_eq_true', Bool.or_eq_false_iff] at h ⊢
  cases pass <;> simp_all [only]

/-! ### Laying over, one pass at a time -/

theorem only_overlay (pass : Pass) (a b : Metadata) :
    (overlay a b).only pass = overlay (a.only pass) (b.only pass) := by
  cases pass <;> simp [only, overlay, hasCut]

theorem overlay_blank (r : Metadata) (id : Nat) : overlay r { id := id } = r := by
  simp [overlay, hasCut]

theorem overlay_of_statesOnly {pass : Pass} {r : Metadata} (h : StatesOnly pass r) : overlay { id := r.id } r = r := by
  cases pass with
  | cut => simp only [overlay, h.1, if_true, Option.or_none]
  | door | mov | yadd | layer | offset | noLighting | character | animated =>
    rw [← only_eq_self h]
    simp [overlay, hasCut, only]

/-- Records laid over a blank one. -/
def stacked (id : Nat) (rs : List Metadata) : Metadata := rs.foldl overlay { id := id }

theorem combined_eq_stacked {id : Nat} {rs : List Metadata} (h : ∀ r ∈ rs, r.id = id ∧ ∃ pass, StatesOnly pass r) :
    combined rs = if rs.isEmpty then none else some (stacked id rs) := by
  cases rs with
  | nil => rfl
  | cons r rs =>
    obtain ⟨rfl, pass, hr⟩ := h r List.mem_cons_self
    show some (rs.foldl overlay r) = some (rs.foldl overlay (overlay { id := r.id } r))
    rw [overlay_of_statesOnly hr]

section Passes
variable {run : Pass → List Metadata}

theorem only_foldl_same {pass : Pass} {rs : List Metadata} (h : ∀ r ∈ rs, StatesOnly pass r) (a : Metadata) :
    (rs.foldl overlay a).only pass = rs.foldl overlay (a.only pass) := by
  induction rs generalizing a with
  | nil => rfl
  | cons r rs ih =>
    rw [List.foldl_cons, ih fun x hx => h x (List.mem_cons_of_mem r hx), only_overlay,
      only_eq_self (h r List.mem_cons_self), List.foldl_cons]

theorem only_foldl_other {pass other : Pass} (hne : other ≠ pass) {rs : List Metadata}
    (h : ∀ r ∈ rs, StatesOnly other r) (a : Metadata) : (rs.foldl overlay a).only pass = a.only pass := by
  induction rs generalizing a with
  | nil => rfl
  | cons r rs ih =>
    rw [List.foldl_cons, ih fun x hx => h x (List.mem_cons_of_mem r hx), only_overlay,
      only_of_ne (h r List.mem_cons_self) hne, overlay_blank]

/-- Among what different passes state, the fields of one pass are as if it stood alone. -/
theorem only_foldl_passes (h : ∀ pass, ∀ r ∈ run pass, StatesOnly pass r) {pass : Pass} {passes : List Pass}
    (hnodup : passes.Nodup) (a : Metadata) : ((passes.flatMap run).foldl overlay a).only pass =
      if pass ∈ passes then (run pass).foldl overlay (a.only pass) else a.only pass := by
  induction passes generalizing a with
  | nil => rfl
  | cons p passes ih =>
    obtain ⟨hp, hnodup⟩ := List.nodup_cons.mp hnodup
    rw [List.flatMap_cons, List.foldl_append, ih hnodup]
    by_cases hpass : p = pass
    · subst hpass
      rw [if_neg hp, if_pos List.mem_cons_self, only_foldl_same (h p)]
    · rw [only_foldl_other hpass (h p)]
      simp [Ne.symm hpass]

end Passes

/-! ### The merged document -/

/-- What the passes record, given to one roster pass by pass. -/
def merged (source : Source) (settings : Settings) (passes : List Pass) : List Metadata :=
  (passes.foldl (fun t pass => t.addAll (runPass source settings pass).1) Roster.empty).finish

section Merged
variable {source : Source} {settings : Settings}

/-- The records of a pass about one sprite. -/
def ownRecords (source : Source) (settings : Settings) (id : Nat) (pass : Pass) : List Metadata :=
  contributions id (runPass source settings pass).1

theorem ownRecords_spec {id : Nat} {pass : Pass} :
    ∀ r ∈ ownRecords source settings id pass, r.id = id ∧ StatesOnly pass r := fun r hr =>
  ⟨number_of_mem_contributions hr, statesOnly_runPass source settings pass r (List.mem_filter.mp hr).1⟩

theorem addAll_flatMap (passes : List Pass) (t : Roster Metadata) :
    passes.foldl (fun t pass => t.addAll (runPass source settings pass).1) t =
      t.addAll (passes.flatMap fun pass => (runPass source settings pass).1) := by
  induction passes generalizing t with
  | nil => rfl
  | cons p passes ih =>
    rw [List.foldl_cons, ih, List.flatMap_cons]
    exact List.foldl_append.symm

/-- A sprite is in the merged document if some pass records it, with all that the passes state about it. -/
theorem mem_merged {passes : List Pass} {r : Metadata} : r ∈ merged source settings passes ↔
    passes.flatMap (ownRecords source settings r.id) ≠ [] ∧
      r = stacked r.id (passes.flatMap (ownRecords source settings r.id)) ∧ r.isEmpty = false := by
  have hown : contributions r.id (passes.flatMap fun pass => (runPass source settings pass).1) =
      passes.flatMap (ownRecords source settings r.id) := List.filter_flatMap ..
  have hstates : ∀ x ∈ passes.flatMap (ownRecords source settings r.id), x.id = r.id ∧ ∃ pass, StatesOnly pass x :=
    fun x hx => by
      obtain ⟨pass, -, hx⟩ := List.mem_flatMap.mp hx
      exact ⟨(ownRecords_spec x hx).1, pass, (ownRecords_spec x hx).2⟩
  rw [merged, addAll_flatMap, Roster.mem_finish_addAll]
  show combined (contributions r.id _) = some r ∧ r.isEmpty = false ↔ _
  rw [hown, combined_eq_stacked hstates]
  split
  · rename_i hnil
    simp [List.isEmpty_iff.mp hnil]
  · rename_i hne
    rw [Option.some_inj, eq_comm, ← and_assoc, and_iff_right (mt List.isEmpty_iff.mpr hne)]

theorem only_stacked {passes : List Pass} (hnodup : passes.Nodup) {pass : Pass} (hpass : pass ∈ passes) (id : Nat) :
    (stacked id (passes.flatMap (ownRecords source settings id))).only pass =
      stacked id (ownRecords source settings id pass) := by
  have hstates : ∀ p, ∀ r ∈ ownRecords source settings id p, StatesOnly p r := fun _ r hr => (ownRecords_spec r hr).2
  have h := @only_foldl_passes _ hstates pass _ hnodup { id := id }
  rw [if_pos hpass] at h
  rw [stacked, h]
  cases pass <;> rfl

theorem stacked_perm {passes : List Pass} (h : passes.Perm DocumentKind.metadata.passes) (id : Nat) :
    stacked id (passes.flatMap (ownRecords source settings id)) =
      stacked id (DocumentKind.metadata.passes.flatMap (ownRecords source settings id)) := by
  have hnodup : DocumentKind.metadata.passes.Nodup := by decide
  refine ext_only fun pass hpass => ?_
  rw [only_stacked (h.nodup_iff.mpr hnodup) (h.mem_iff.mpr hpass), only_stacked hnodup hpass]

theorem ascending_map_only {rs : List Metadata} (h : Ascending rs) (pass : Pass) :
    Ascending ((rs.map (only pass)).filter fun r => !r.isEmpty) := by
  refine List.Pairwise.filter _ (List.pairwise_map.mpr (h.imp fun {a b} hab => ?_))
  show (a.only pass).id < (b.only pass).id
  rw [id_only, id_only]
  exact hab

/-- What the merged document holds of a pass is what the pass gives alone. -/
theorem mem_merged_alone {passes : List Pass} (hnodup : passes.Nodup) {pass : Pass} (hpass : pass ∈ passes) {r : Metadata} :
    r ∈ merged source settings [pass] ↔ (∃ x ∈ merged source settings passes, x.only pass = r) ∧ r.isEmpty = false := by
  have halone : [pass].flatMap (ownRecords source settings r.id) = ownRecords source settings r.id pass := List.append_nil _
  rw [mem_merged, halone]
  constructor
  · rintro ⟨hne, heq, hr⟩
    -- The sprite's record in the document is what all passes state about it.
    obtain ⟨x, hx⟩ : ∃ x, x = stacked r.id (passes.flatMap (ownRecords source settings r.id)) := ⟨_, rfl⟩
    have honly : x.only pass = r := by rw [hx, only_stacked hnodup hpass, ← heq]
    have hid : x.id = r.id := by rw [← honly, id_only]
    refine ⟨⟨x, mem_merged.mpr ?_, honly⟩, hr⟩
    rw [hid]
    refine ⟨fun hnil => hne (List.flatMap_eq_nil_iff.mp hnil pass hpass), hx, ?_⟩
    cases hempty : x.isEmpty with
    | false => rfl
    | true =>
      rw [← honly, isEmpty_only hempty] at hr
      cases hr
  · rintro ⟨⟨x, hx, rfl⟩, hr⟩
    obtain ⟨-, hall, -⟩ := mem_merged.mp hx
    have hstacked : x.only pass = stacked x.id (ownRecords source settings x.id pass) := by
      rw [← only_stacked hnodup hpass, ← hall]
    rw [id_only]
    refine ⟨fun hnil => ?_, hstacked, hr⟩
    rw [hstacked, hnil] at hr
    cases hr

theorem merged_perm {passes : List Pass} (h : passes.Perm DocumentKind.metadata.passes) :
    merged source settings DocumentKind.metadata.passes = merged source settings passes := by
  refine Ascending.eq_of_mem_iff (Roster.ascending_finish _) (Roster.ascending_finish _) fun r => ?_
  have hnil : passes.flatMap (ownRecords source settings r.id) = [] ↔
      DocumentKind.metadata.passes.flatMap (ownRecords source settings r.id) = [] := by
    simp only [List.flatMap_eq_nil_iff, h.mem_iff]
  rw [mem_merged, mem_merged, stacked_perm h, ne_eq, ne_eq, hnil]

/-- The passes can be merged in any order: the records are those of the document, and what they hold of a pass is
    what the pass gives alone. -/
theorem pass_order_irrelevant {passes : List Pass} (h : passes.Perm DocumentKind.metadata.passes) :
    (Document.extract source settings .metadata).records = .metadata (merged source settings passes) ∧
      ∀ pass ∈ passes, ((merged source settings passes).map (only pass)).filter (fun r => !r.isEmpty) =
        merged source settings [pass] := by
  have hnodup : passes.Nodup := h.nodup_iff.mpr (by decide)
  refine ⟨?_, fun pass hpass => ?_⟩
  · rw [extract_metadata, ← merged_perm h, merged, addAll_flatMap]
    rfl
  · refine Ascending.eq_of_mem_iff (ascending_map_only (Roster.ascending_finish _) pass) (Roster.ascending_finish _) fun r => ?_
    rw [mem_merged_alone hnodup hpass, List.mem_filter, List.mem_map, Bool.not_eq_true']

end Merged

theorem pass_order_irrelevant_shared :
    let source := Source.ofString "hints.c"
      "int _is_mov_sprite(int sprite)\n\x7b\nswitch (sprite) \x7b\ncase 7:\nreturn 5;\ncase 2:\ncase 7:\nreturn 6;\n\x7d\n\x7d\n"
    let settings := (({} : Settings).setFunction .yadd "_is_mov_sprite").setFunction .door "_is_mov_sprite"
    let passes : List Pass := [.noLighting, .offset, .layer, .yadd, .mov, .door, .cut]
    (Document.extract source settings .metadata).records = .metadata (merged source settings passes) ∧
      merged source settings passes =
        [{ id := 2, door := some true, mov := some 6, yadd := some 6 },
          { id := 7, door := some true, mov := some 6, yadd := some 6 }] ∧
      ((merged source settings passes).map (only .mov)).filter (fun r => !r.isEmpty) = merged source settings [.mov] := by
  intro source settings passes
  obtain ⟨hdocument, hown⟩ := @pass_order_irrelevant source settings passes (by decide)
  exact ⟨hdocument, by decide +kernel, hown .mov (by decide)⟩

end SpriteFacts.Metadata
