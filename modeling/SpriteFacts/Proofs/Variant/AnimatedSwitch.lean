import Mathlib.Data.List.Nodup
import SpriteFacts.Document.Basic
import SpriteFacts.Proofs.Record.Contributions
import SpriteFacts.Proofs.Switch.Spelled
import SpriteFacts.Proofs.Variant.AssignmentGroup

/-! The animated variants against the switch that they are read from. In a switch of assignments each label comes to
    the assignments that run behind it up to the first `break;`, and the document has a record for it exactly if
    there is such a `break;` and an assignment in front of it. The labels of a case group come to the same
    assignments, so the record of a label does not depend on the group that it is in. -/

namespace SpriteFacts

open Switch Text Pattern

instance : Spelling Assignment where
  solid_ne_nil a := by
    rw [solid, show Statement.text a = a.text from rfl, a.filter_text]
    exact fun h => List.cons_ne_nil _ _ (List.append_eq_nil_iff.mp h).2
  solid_unique {a b xs ys} h := by
    rw [solid, solid, show Statement.text a = a.text from rfl, show Statement.text b = b.text from rfl, a.filter_text,
      b.filter_text] at h
    exact Assignment.bare_unique h

/-! ### The contributions of the groups -/

namespace VariantPass
variable {σ : Type} [Spelling σ] {ls : List (Line σ)}

theorem number_groupRecords (p : VariantPass) (raw blanked : List Char) (g : CaseGroup) :
    (p.groupRecords raw blanked g).map SpriteRecord.number = g.ids := by
  rw [groupRecords, records, List.map_map]
  exact List.map_id' g.ids

/-- What the groups of a switch contribute, in order. -/
def history (p : VariantPass) (ls : List (Line σ)) : List Variant :=
  (switchGroups ls).flatMap (p.groupRecords (switchText ls) (switchText ls))

/-- Labels with different numbers contribute to different records. -/
theorem nodup_history (p : VariantPass) (hdistinct : ((labelled ls).map (·.1.value)).Nodup) :
    ((p.history ls).map SpriteRecord.number).Nodup := by
  rw [history, List.map_flatMap, funext (p.number_groupRecords (switchText ls) (switchText ls))]
  exact nodup_ids_groups hdistinct

end VariantPass

/-- The records of a group of the switch. -/
def groupVariants (ls : List (Line Assignment)) (g : CaseGroup) : List Variant :=
  VariantPass.animated.groupRecords (switchText ls) (switchText ls) g

/-- What the groups of the switch contribute, in order. -/
def animatedHistory (ls : List (Line Assignment)) : List Variant := (switchGroups ls).flatMap (groupVariants ls)

section Groups
variable {ls : List (Line Assignment)} {g : CaseGroup}

section Once
variable (hplain : ∀ l ∈ ls, l.item ≠ .fallback)
  (honce : ∀ p ∈ labelled ls, ∀ as, execute p.2 = some as → (as.map (·.target)).Nodup)

include hplain honce

/-- A group gives each of its labels the record of the assignments that run behind it. -/
theorem groupVariants_eq (hg : g ∈ switchGroups ls) : ∃ as ≠ [], Spells as g.code ∧
    groupVariants ls g = g.ids.map (fun id => variantOf id as) ∧
    ∀ id ∈ g.ids, ∃ p ∈ labelled ls, p.1.value = id ∧ execute p.2 = some as := by
  obtain ⟨as, hne, hspelled, hids⟩ := spelled_of_mem_groups hplain hg
  have hspells := spells_iff_spelled.mpr hspelled
  refine ⟨as, hne, hspells, ?_, hids⟩
  obtain ⟨first, hfirst⟩ := List.exists_mem_of_ne_nil _ (ids_ne_nil_of_mem_fallThrough hg)
  obtain ⟨p, hp, -, hexecute⟩ := hids first hfirst
  rw [groupVariants, VariantPass.groupRecords, capturedComment_eq (commentFree_of_not_mem (slash_not_mem_span ls g))]
  exact hspells.records_eq (honce p hp as hexecute)

theorem mem_animatedHistory (hdistinct : ((labelled ls).map (·.1.value)).Nodup) (r : Variant) :
    r ∈ animatedHistory ls ↔ ∃ p ∈ labelled ls, ∃ as ≠ [], execute p.2 = some as ∧ r = variantOf p.1.value as := by
  constructor
  · intro hr
    obtain ⟨g, hg, hr⟩ := List.mem_flatMap.mp hr
    obtain ⟨as, hne, -, hrecords, hids⟩ := groupVariants_eq hplain honce hg
    rw [hrecords] at hr
    obtain ⟨id, hid, rfl⟩ := List.mem_map.mp hr
    obtain ⟨p, hp, rfl, hexecute⟩ := hids id hid
    exact ⟨p, hp, as, hne, hexecute, rfl⟩
  · rintro ⟨p, hp, as, hne, hexecute, rfl⟩
    obtain ⟨g, hg, hpg⟩ := exists_group hplain hp hexecute hne
    obtain ⟨as', -, -, hrecords, hids⟩ := groupVariants_eq hplain honce hg
    -- The group came from lines with the same number, and distinct labels have their own lines.
    obtain ⟨q, hq, hqp, hexecute'⟩ := hids _ hpg
    obtain rfl : q = p := List.inj_on_of_nodup_map hdistinct hq hp hqp
    rw [hexecute] at hexecute'
    obtain rfl := Option.some.inj hexecute'
    refine List.mem_flatMap.mpr ⟨g, hg, ?_⟩
    rw [hrecords]
    exact List.mem_map_of_mem hpg

end Once

theorem nodup_animatedHistory (hdistinct : ((labelled ls).map (·.1.value)).Nodup) :
    ((animatedHistory ls).map SpriteRecord.number).Nodup := VariantPass.animated.nodup_history hdistinct

end Groups

/-! ### The document -/

/-- The pass over a function without comments gives what its case groups give. -/
theorem VariantPass.run_of_located {p : VariantPass} {source : Source} {settings : Settings} {l : Located} {body : List Char}
    (hl : Located.find? source (settings.functionFor p.pass) = some l) (hbody : l.body.text = body) (hcode : l.code = body) :
    let groups := caseGroups .fallThrough breakStatement body
    let records := (Roster.empty.addAll (groups.flatMap (p.groupRecords body body))).finish
    p.run source settings = (records, l.report p.pass (some groups.length) records.length
      (groups.flatMap fun g => p.diagnostics l g (p.groupRecords body body g))) := by
  simp only [run, hl, hbody, hcode, List.flatMap_map, List.length_map]

/-- The pass over a function that is a switch of lines finds the groups of the switch. -/
theorem VariantPass.run_functionText {σ : Type} [Spelling σ] {p : VariantPass} {source : Source} {settings : Settings}
    {ls : List (Line σ)} (hname : IsName (settings.functionFor p.pass).toList)
    (htext : source.text = functionText (settings.functionFor p.pass) ls) :
    ∃ l : Located, l.unclosed = [] ∧
      let records := (Roster.empty.addAll (p.history ls)).finish
      p.run source settings = (records, l.report p.pass (some (switchGroups ls).length) records.length
        ((switchGroups ls).flatMap fun g => p.diagnostics l g (p.groupRecords (switchText ls) (switchText ls) g))) := by
  obtain ⟨l, hl, hbody, hcode, hclosed⟩ := located_functionText hname htext
  exact ⟨l, hclosed, run_of_located hl hbody hcode⟩

section Document
variable {source : Source} {settings : Settings} {ls : List (Line Assignment)}

theorem extract_of_run {rs : List Variant} {report : PhaseReport} (h : VariantPass.animated.run source settings = (rs, report)) :
    (Document.extract source settings .animated).records = .variants rs ∧
      (Document.extract source settings .animated).diagnostics = report.diagnostics := by
  have hextract : Document.extract source settings .animated = ⟨.animated, [(VariantPass.animated.run source settings).2],
    .variants (VariantPass.animated.run source settings).1⟩ := rfl
  rw [hextract, h]
  exact ⟨rfl, List.append_nil _⟩

/-- The document of a switch of assignments is what running the switch gives. A label has a record exactly if control
    comes from it to a `break;` after an assignment, and the record states what is assigned on the way. -/
theorem animated_switch_exact (hname : settings.functionFor .animated = "_trans_asprite")
    (htext : source.text = functionText "_trans_asprite" ls) (hplain : ∀ l ∈ ls, l.item ≠ .fallback)
    (hdistinct : ((labelled ls).map (·.1.value)).Nodup)
    (honce : ∀ p ∈ labelled ls, ∀ as, execute p.2 = some as → (as.map (·.target)).Nodup) :
    ∃ rs, (Document.extract source settings .animated).records = .variants rs ∧ Ascending rs ∧
      (∀ r, r ∈ rs ↔ ∃ p ∈ labelled ls, ∃ as ≠ [], execute p.2 = some as ∧ r = variantOf p.1.value as) ∧
      (Document.extract source settings .animated).diagnostics = [] := by
  rw [← hname] at htext
  obtain ⟨l, hclosed, hrun⟩ := VariantPass.run_functionText (p := .animated) (hname ▸ by decide) htext
  obtain ⟨hrecords, hdiagnostics⟩ := extract_of_run hrun
  refine ⟨(Roster.empty.addAll (animatedHistory ls)).finish, hrecords, Roster.ascending_finish _, fun r => ?_, ?_⟩
  · rw [Roster.mem_finish_of_nodup (nodup_animatedHistory hdistinct), mem_animatedHistory hplain honce hdistinct]
    refine and_iff_left_of_imp ?_
    rintro ⟨p, -, as, -, -, rfl⟩
    rfl
  · rw [hdiagnostics]
    show l.unclosed ++ _ = []
    rw [hclosed, List.nil_append, List.flatMap_eq_nil_iff]
    intro g hg
    obtain ⟨as, -, hspells, hrecords, -⟩ := groupVariants_eq hplain honce hg
    refine hspells.diagnostics_eq l fun r (hr : r ∈ groupVariants ls g) => ?_
    rw [hrecords] at hr
    obtain ⟨id, -, rfl⟩ := List.mem_map.mp hr
    rfl

end Document

theorem animated_switch_exact_shared :
    let source := Source.ofString "shared.c"
      "int _trans_asprite(int sprite)\n\x7b\nswitch (sprite) \x7b\ncase 1:\ncase 2:\nsat = -4;\nbreak;\ncase 3:\ncr = 4;\n\x7d\n\x7d\n"
    ∃ (ls : List (Line Assignment)) (rs : List Variant), source.text = functionText "_trans_asprite" ls ∧
      (Document.extract source {} .animated).records = .variants rs ∧
      ⟨1, some 1, { saturation := some (-4) }, {}, none, none, none, none, none⟩ ∈ rs ∧ ∀ r ∈ rs, r.id ≠ 3 := by
  intro source
  let one : Numeral maxWord := ⟨['1'], by decide, by decide, by decide⟩
  let two : Numeral maxWord := ⟨['2'], by decide, by decide, by decide⟩
  let three : Numeral maxWord := ⟨['3'], by decide, by decide, by decide⟩
  let sat : Assignment := .channel .saturation (.minus ⟨['4'], by decide, by decide, by decide⟩)
  let cr : Assignment := .channel .cr (.plain ⟨['4'], by decide, by decide, by decide⟩)
  let last : List (Line Assignment) := [.of (.code cr)]
  let second : List (Line Assignment) := [.of (.code sat), .of .leave, .of (.label three)] ++ last
  let first : List (Line Assignment) := .of (.label two) :: second
  have hlabels : ∀ p ∈ labelled (.of (.label one) :: first), p = (one, first) ∨ p = (two, second) ∨ p = (three, last) := by
    intro p hp
    simpa [labelled, Line.of, first, second, last] using hp
  have honce : ∀ p ∈ labelled (.of (.label one) :: first), ∀ as, execute p.2 = some as → (as.map (·.target)).Nodup := by
    intro p hp as has
    rcases hlabels p hp with rfl | rfl | rfl <;> cases has <;> exact List.nodup_singleton _
  have hplain : ∀ l ∈ Line.of (.label one) :: first, l.item ≠ .fallback := by
    intro l hl
    simp only [first, second, last, List.mem_cons, List.cons_append, List.nil_append, List.not_mem_nil, or_false] at hl
    rcases hl with rfl | rfl | rfl | rfl | rfl | rfl <;> · intro h; cases h
  have htext : source.text = functionText "_trans_asprite" (.of (.label one) :: first) := rfl
  obtain ⟨rs, hrecords, -, hmem, -⟩ := @animated_switch_exact source {} _ rfl htext hplain (by decide) honce
  refine ⟨_, rs, htext, hrecords, (hmem _).mpr ⟨(one, first), List.mem_cons_self, [sat], List.cons_ne_nil _ _, rfl, rfl⟩, ?_⟩
  intro r hr hid
  obtain ⟨p, hp, as, -, has, rfl⟩ := (hmem r).mp hr
  rcases hlabels p hp with rfl | rfl | rfl
  · exact absurd (show 1 = 3 from hid) (by decide)
  · exact absurd (show 2 = 3 from hid) (by decide)
  · cases has

end SpriteFacts
