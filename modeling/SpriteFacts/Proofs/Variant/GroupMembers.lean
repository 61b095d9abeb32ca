import Mathlib.Data.List.Basic
import SpriteFacts.Proofs.Variant.RemapRule
import SpriteFacts.Proofs.Variant.StaticChannel

/-! The members of a case group. Their records share the code, so they agree in every field, with bases that are equal or
    keep the distance of the numbers, as long as one idiom reads the assignment of the sprite for all of them. Only a sum
    that leaves the range of integers for some of the numbers divides a group. The warning about the assignment
    comes from the first number, and the records have no base exactly if it is given. -/

namespace SpriteFacts

open Switch Text Pattern

/-- The records of a group agree in every field but their numbers and bases, and the bases are missing, or one number, or
    at one distance from the numbers. -/
structure Agreeing (rs : List Variant) : Prop where
  fields : ∀ r ∈ rs, ∀ r' ∈ rs, { r with id := r'.id, baseSprite := r'.baseSprite } = r'
  bases : (∀ r ∈ rs, r.baseSprite = none) ∨ (∃ base, ∀ r ∈ rs, r.baseSprite = some base) ∨
    ∃ distance : Int, ∀ r ∈ rs, r.baseSprite = some (r.id + distance)

theorem not_agreeing {rs : List Variant} {r r' : Variant} {base : Int} (hr : r ∈ rs) (hbase : r.baseSprite = some base)
    (hr' : r' ∈ rs) (hnone : r'.baseSprite = none) : ¬Agreeing rs := by
  intro hagree
  rcases hagree.bases with hall | ⟨base', hall⟩ | ⟨distance, hall⟩
  · exact Option.some_ne_none _ (hbase.symm.trans (hall r hr))
  · exact Option.some_ne_none _ ((hall r' hr').symm.trans hnone)
  · exact Option.some_ne_none _ ((hall r' hr').symm.trans hnone)

namespace VariantPass
variable {p : VariantPass} {g : CaseGroup} {l : Located} {comment : Option String}

/-- A warning says that the assignment of the sprite is not recognized. -/
def WarnsOfRemap (p : VariantPass) (l : Located) (g : CaseGroup) (rs : List Variant) : Prop :=
  ∃ d ∈ p.diagnostics l g rs, d.severity = .warning ∧ d.ids = g.ids ∧
    ("unrecognized " ++ p.spriteVariable ++ " assignment in `").toList <+: d.message.toList

/-- The name of the idiom that gives a number its base, none if there is no base. -/
def readerOf (p : VariantPass) (g : CaseGroup) (id : Nat) : Option String :=
  if (p.remap.value? (scope g)).isSome then Remap.reader p.spriteVariable g.code id else none

/-- The first number has a base, and the sums of a shift leave the range of integers for some numbers and not for others. -/
def Divided (p : VariantPass) (g : CaseGroup) : Prop :=
  (p.remap.value? (scope g)).isSome = true ∧ Remap.Divides p.spriteVariable g.code g.ids

theorem warnsOfRemap_iff (hp : p ∈ [character, animated]) (rs : List Variant) :
    p.WarnsOfRemap l g rs ↔ p.remap.value? (scope g) = none := by
  constructor
  · rintro ⟨d, hd, hwarning, -, hmessage⟩
    simp only [diagnostics, List.mem_append, List.mem_map] at hd
    rcases hd with ((hd | hd) | ⟨slot, -, rfl⟩) | hd
    · split at hd
      · rename_i hnone
        exact Option.isNone_iff_eq_none.mp hnone
      · cases hd
    · split at hd
      · obtain rfl := List.mem_singleton.mp hd
        rcases List.mem_pair.mp hp with rfl | rfl <;> simp [character, animated, Located.diagnostic] at hmessage
      · cases hd
    · rcases List.mem_pair.mp hp with rfl | rfl <;> cases slot <;> simp [character, animated, Located.diagnostic, ColorSlot.name] at hmessage
    · split at hd
      · obtain rfl := List.mem_singleton.mp hd
        cases hwarning
      · cases hd
  · intro hnone
    have hfirst : (p.remap.value? ⟨g.ids.headD 0, g.code⟩).isNone = true := Option.isNone_iff_eq_none.mpr hnone
    have hmem : l.diagnostic g .warning ("unrecognized " ++ p.spriteVariable ++ " assignment in " ++
        ("`" ++ String.ofList (oneLine g.code) ++ "`")) ∈ p.diagnostics l g rs := by
      simp only [diagnostics, hfirst, if_true, List.mem_append]
      exact Or.inl (Or.inl (Or.inl (List.mem_singleton_self _)))
    exact ⟨_, hmem, rfl, rfl, by simp [Located.diagnostic]⟩

theorem remap_eq (hp : p ∈ [character, animated]) : p.remap = Remap.chain p.spriteVariable := by
  rcases List.mem_pair.mp hp with rfl | rfl <;> rfl

theorem first_mem (hids : g.ids ≠ []) : g.ids.headD 0 ∈ g.ids := by
  cases h : g.ids with
  | nil => exact absurd h hids
  | cons id ids => exact List.mem_cons_self

/-- The records have no base exactly if the first number has none. -/
theorem bases_none_iff (hids : g.ids ≠ []) :
    (∀ r ∈ p.records g comment, r.baseSprite = none) ↔ p.remap.value? (scope g) = none := by
  rw [records_eq_map, List.forall_mem_map]
  constructor
  · intro h
    have hfirst : (p.remapOf? g (g.ids.headD 0)).map (·.base) = none := h _ (first_mem hids)
    rw [Option.map_eq_none_iff, remapOf?] at hfirst
    refine Option.not_isSome_iff_eq_none.mp fun hsome => ?_
    rw [if_pos (show (p.remap.value? ⟨g.ids.headD 0, g.code⟩).isSome = true from hsome)] at hfirst
    rw [scope, hfirst] at hsome
    cases hsome
  · intro hnone id _
    have hfirst : ¬(p.remap.value? ⟨g.ids.headD 0, g.code⟩).isSome = true := by
      rw [show p.remap.value? ⟨g.ids.headD 0, g.code⟩ = none from hnone]
      exact Bool.false_ne_true
    show (p.remapOf? g id).map (·.base) = none
    rw [remapOf?, if_neg hfirst, Option.map_none]

/-- The number and the base of a record decide none of its other fields. -/
theorem recordOf_congr {code : List Char} {base : Variant} {mask : Option Animation} {remap remap' : Option Remap}
    (h : remap.bind (·.animation) = remap'.bind (·.animation)) (id id' : Nat) :
    { recordOf code base mask remap id with id := id', baseSprite := remap'.map (·.base) } =
      recordOf code base mask remap' id' := by
  rw [recordOf, recordOf, h]
  rfl

theorem fields_of_animation (animation : Option Animation)
    (h : ∀ id ∈ g.ids, (p.remapOf? g id).bind (·.animation) = animation) :
    ∀ r ∈ p.records g comment, ∀ r' ∈ p.records g comment, { r with id := r'.id, baseSprite := r'.baseSprite } = r' := by
  simp only [records_eq_map, List.forall_mem_map]
  exact fun id hid id' hid' => recordOf_congr ((h id hid).trans (h id' hid').symm) id id'

theorem agreeing_of_none (h : ∀ id, p.remapOf? g id = none) : Agreeing (p.records g comment) where
  fields := fields_of_animation none fun id _ => by rw [h, Option.bind_none]
  bases := by
    refine Or.inl ?_
    rw [records_eq_map, List.forall_mem_map]
    intro id _
    show (p.remapOf? g id).map (·.base) = none
    rw [h, Option.map_none]

/-- Numbers that get their bases by one rule, with one animation, have records that agree. -/
theorem agreeing_of_rule {rule : Remap.Rule} {animation : Option Animation}
    (h : ∀ id ∈ g.ids, p.remapOf? g id = some ⟨rule.base id, animation⟩) : Agreeing (p.records g comment) where
  fields := fields_of_animation animation fun id hid => by rw [h id hid, Option.bind_some]
  bases := by
    have hbase : ∀ r ∈ p.records g comment, r.baseSprite = some (rule.base r.id) := by
      rw [records_eq_map, List.forall_mem_map]
      intro id hid
      show (p.remapOf? g id).map (·.base) = some (rule.base id)
      rw [h id hid, Option.map_some]
    cases rule with
    | fixed base => exact Or.inr (Or.inl ⟨base, hbase⟩)
    | moved distance => exact Or.inr (Or.inr ⟨distance, hbase⟩)

theorem agreeing_of_not_divided (hp : p ∈ [character, animated]) (hids : g.ids ≠ []) (hbound : ∀ id ∈ g.ids, id ≤ maxWord)
    (h : ¬p.Divided g) : Agreeing (p.records g comment) := by
  by_cases hsome : (p.remap.value? (scope g)).isSome = true
  · have hread : ∀ id, p.remapOf? g id = (p.remap.firstMatch? ⟨id, g.code⟩).map (·.2) := fun id => if_pos hsome
    have hlevel := Remap.level_chain hbound fun hdivides => h ⟨hsome, hdivides⟩
    rw [← remap_eq hp] at hlevel
    cases hlevel with
    | unread hnone =>
      have hfirst := hnone _ (first_mem hids)
      rw [IdiomChain.value?, scope, hfirst] at hsome
      cases hsome
    | ruled name rule animation hruled => exact agreeing_of_rule fun id hid => by rw [hread, hruled id hid]; rfl
  · exact agreeing_of_none fun id => if_neg hsome

/-- The numbers of a group get their bases from different idioms exactly if the group is divided. -/
theorem readers_differ_iff_divided (hbound : ∀ id ∈ g.ids, id ≤ maxWord) :
    (∃ id ∈ g.ids, ∃ id' ∈ g.ids, p.readerOf g id ≠ p.readerOf g id') ↔ p.Divided g := by
  rw [Divided, ← Remap.readers_differ_iff hbound]
  by_cases hsome : (p.remap.value? (scope g)).isSome = true
  · have hreader : ∀ id, p.readerOf g id = Remap.reader p.spriteVariable g.code id := fun id => if_pos hsome
    simp only [hreader, and_iff_right hsome]
  · have hreader : ∀ id, p.readerOf g id = none := fun id => if_neg hsome
    simp [hreader, hsome]

/-- In a divided group a number without a base stands beside the first one, which has a base. -/
theorem not_agreeing_of_divided (hids : g.ids ≠ []) (h : p.Divided g) {id : Nat} (hid : id ∈ g.ids)
    (hnone : p.remapOf? g id = none) : ¬Agreeing (p.records g comment) := by
  obtain ⟨remap, hremap⟩ := Option.isSome_iff_exists.mp h.1
  have hfirst : p.remapOf? g (g.ids.headD 0) = some remap := (if_pos h.1).trans hremap
  have hrecord : ∀ i ∈ g.ids, ∃ r ∈ p.records g comment, r.baseSprite = (p.remapOf? g i).map (·.base) := fun i hi =>
    ⟨_, records_eq_map p g comment ▸ List.mem_map_of_mem hi, rfl⟩
  obtain ⟨r, hr, hbase⟩ := hrecord _ (first_mem hids)
  obtain ⟨r', hr', hbase'⟩ := hrecord id hid
  rw [hfirst, Option.map_some] at hbase
  rw [hnone, Option.map_none] at hbase'
  exact not_agreeing hr hbase hr' hbase'

theorem remapOf?_of_readerOf (hp : p ∈ [character, animated]) {id : Nat} (h : p.readerOf g id = none) :
    p.remapOf? g id = none := by
  by_cases hsome : (p.remap.value? (scope g)).isSome = true
  · rw [readerOf, if_pos hsome, Remap.reader, ← remap_eq hp] at h
    refine (if_pos hsome).trans ?_
    rw [IdiomChain.value?, Option.map_eq_none_iff.mp h, Option.map_none]
  · exact if_neg hsome

/-- All records of a group agree, unless a sum leaves the range of integers for some of its numbers and not for others; then
    the records share what does not follow from the remap, and they do not agree if one of them has no base. There is
    a warning exactly if none of them has one. -/
theorem members_agree_unless_divided (hp : p ∈ [character, animated]) (hg : g ∈ caseGroups .fallThrough breakStatement l.code) :
    let rs := p.groupRecords l.body.text l.code g
    (p.WarnsOfRemap l g rs ↔ ∀ r ∈ rs, r.baseSprite = none) ∧
    (∀ r ∈ rs, ∀ r' ∈ rs,
      { r with id := r'.id, baseSprite := r'.baseSprite, animation := r'.animation, needsReview := r'.needsReview } = r') ∧
    ((∃ id ∈ g.ids, ∃ id' ∈ g.ids, p.readerOf g id ≠ p.readerOf g id') ↔ p.Divided g) ∧
    (¬p.Divided g → Agreeing rs) ∧
    (∀ id ∈ g.ids, p.readerOf g id = none → (Agreeing rs ↔ ¬p.Divided g)) := by
  intro rs
  have hids := ids_ne_nil_of_mem_fallThrough hg
  have hbound := le_maxWord_of_mem_fallThrough hg
  have hagree : ¬p.Divided g → Agreeing rs := agreeing_of_not_divided hp hids hbound
  refine ⟨(warnsOfRemap_iff hp rs).trans (bases_none_iff hids).symm, ?_, readers_differ_iff_divided hbound, hagree, ?_⟩
  · simp only [rs, groupRecords, records_eq_map, List.forall_mem_map]
    exact fun _ _ _ _ => rfl
  · exact fun id hid hnone =>
      ⟨fun h hdivided => not_agreeing_of_divided hids hdivided hid (remapOf?_of_readerOf hp hnone) h, hagree⟩

theorem members_agree_unless_divided_moved :
    let source := Source.ofString "moved.c" ("int _trans_asprite(int sprite)\n\x7b\nswitch (sprite) \x7b\n" ++
      "case 0:\ncase 1:\nsprite = sprite + 3 - 1;\nbreak;\n\x7d\n\x7d\n")
    ∃ l g, Located.find? source "_trans_asprite" = some l ∧ g ∈ caseGroups .fallThrough breakStatement l.code ∧
      (animated.groupRecords l.body.text l.code g).map (fun r => (r.id, r.baseSprite)) = [(0, some 2), (1, some 3)] ∧
      Agreeing (animated.groupRecords l.body.text l.code g) := by
  intro source
  have hreaders : (Located.find? source "_trans_asprite").map (fun l => (caseGroups .fallThrough breakStatement l.code).map
      fun g => g.ids.map (animated.readerOf g)) =
      some [[some "offset-plus-minus", some "offset-plus-minus"]] := by decide +kernel
  have hbases : (Located.find? source "_trans_asprite").map (fun l => (caseGroups .fallThrough breakStatement l.code).map
      fun g => (animated.groupRecords l.body.text l.code g).map fun r => (r.id, r.baseSprite)) =
      some [[(0, some 2), (1, some 3)]] := by decide +kernel
  obtain ⟨l, hl, hgroups⟩ := Option.map_eq_some_iff.mp hreaders
  obtain ⟨g, hgroup, hreader⟩ := List.map_eq_singleton_iff.mp hgroups
  rw [hl, Option.map_some, hgroup, List.map_singleton, Option.some_inj, List.singleton_inj] at hbases
  have hmem : g ∈ caseGroups .fallThrough breakStatement l.code := by rw [hgroup]; exact List.mem_singleton_self g
  obtain ⟨-, -, hdivided, hagree, -⟩ := @members_agree_unless_divided animated g l (by simp) hmem
  refine ⟨l, g, hl, hmem, hbases, hagree fun h => ?_⟩
  obtain ⟨id, hid, id', hid', hne⟩ := hdivided.mpr h
  have hsame : ∀ i ∈ g.ids, animated.readerOf g i = some "offset-plus-minus" := fun i hi => by
    simpa [hreader] using List.mem_map_of_mem (f := animated.readerOf g) hi
  exact hne ((hsame id hid).trans (hsame id' hid').symm)

/-- A sum that leaves the range for the second number alone takes its base away, and no warning tells. -/
theorem members_divided :
    let source := Source.ofString "divided.c" ("int _trans_asprite(int sprite)\n\x7b\nswitch (sprite) \x7b\n" ++
      "case 0:\ncase 1:\nsprite = sprite + 9223372036854775807 - 1;\nlight = 3;\nbreak;\n\x7d\n\x7d\n")
    ∃ l g, Located.find? source "_trans_asprite" = some l ∧ g ∈ caseGroups .fallThrough breakStatement l.code ∧
      (animated.groupRecords l.body.text l.code g).map (fun r => (r.id, r.baseSprite)) =
        [(0, some 9223372036854775806), (1, none)] ∧
      ¬Agreeing (animated.groupRecords l.body.text l.code g) ∧ (animated.run source {}).2.diagnostics = [] := by
  intro source
  have hgroups : (Located.find? source "_trans_asprite").map (fun l => (caseGroups .fallThrough breakStatement l.code).map
      fun g => (animated.groupRecords l.body.text l.code g).map fun r => (r.id, r.baseSprite)) =
      some [[(0, some 9223372036854775806), (1, none)]] := by decide +kernel
  obtain ⟨l, hl, hgroups⟩ := Option.map_eq_some_iff.mp hgroups
  obtain ⟨g, hgroup, hrecords⟩ := List.map_eq_singleton_iff.mp hgroups
  refine ⟨l, g, hl, by rw [hgroup]; exact List.mem_singleton_self g, hrecords, ?_, by decide +kernel⟩
  have hrecord : ∀ {id base}, (id, base) ∈ [(0, some (9223372036854775806 : Int)), (1, none)] →
      ∃ r ∈ animated.groupRecords l.body.text l.code g, r.baseSprite = base := fun h => by
    obtain ⟨r, hr, heq⟩ := List.mem_map.mp (hrecords ▸ h)
    exact ⟨r, hr, (Prod.mk.inj heq).2⟩
  obtain ⟨r, hr, hbase⟩ := hrecord List.mem_cons_self
  obtain ⟨r', hr', hbase'⟩ := hrecord (List.mem_cons_of_mem _ List.mem_cons_self)
  exact not_agreeing hr hbase hr' hbase'

end VariantPass
end SpriteFacts
