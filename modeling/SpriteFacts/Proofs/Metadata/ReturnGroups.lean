import Mathlib.Algebra.GroupWithZero.Nat
import SpriteFacts.Metadata.Passes

/-! The account of a pass that reads what a function returns. Each case group gives one record for each of its
    numbers, all with the same fields of the pass, or else one warning with its numbers. Nothing else is recorded,
    and nothing else reported but a body that is not closed, so no label of a group is lost or counted twice. -/

namespace SpriteFacts

open Switch

/-- The passes that read the value that a function returns for each case group. -/
def Pass.returning : List Pass := [.cut, .mov, .yadd, .layer]

/-- The pass that states the fact. -/
def Fact.pass : Fact → Pass
  | cut _ => .cut
  | door => .door
  | mov _ => .mov
  | yadd _ => .yadd
  | layer _ => .layer
  | offset _ => .offset
  | noLighting => .noLighting

namespace Metadata

/-- The record states the fields of the pass and no other field. -/
def StatesOnly : Pass → Metadata → Prop
  | .cut, r => r.hasCut = true ∧
      r = { id := r.id, cutOffset := r.cutOffset, cutNegative := r.cutNegative, cutSprite := r.cutSprite }
  | .door, r => r.door.isSome = true ∧ r = { id := r.id, door := r.door }
  | .mov, r => r.mov.isSome = true ∧ r = { id := r.id, mov := r.mov }
  | .yadd, r => r.yadd.isSome = true ∧ r = { id := r.id, yadd := r.yadd }
  | .layer, r => r.layer.isSome = true ∧ r = { id := r.id, layer := r.layer }
  | .offset, r => r.offsetX.isSome = true ∧ r.offsetY.isSome = true ∧
      r = { id := r.id, offsetX := r.offsetX, offsetY := r.offsetY }
  | .noLighting, r => r.noLighting.isSome = true ∧ r = { id := r.id, noLighting := r.noLighting }
  | .character, _ | .animated, _ => False

theorem statesOnly_record (fact : Fact) (id : Nat) : StatesOnly fact.pass (fact.record id) := by
  cases fact with
  | cut value => cases value <;> exact ⟨rfl, rfl⟩
  | offset value => exact ⟨rfl, rfl, rfl⟩
  | door | mov value | yadd value | layer value | noLighting => exact ⟨rfl, rfl⟩

theorem record_eq_with (fact : Fact) (id : Nat) : fact.record id = { fact.record 0 with id := id } := by
  cases fact with
  | cut value => cases value <;> rfl
  | door | mov value | yadd value | layer value | offset value | noLighting => rfl

/-! ### One group -/

/-- A group gives a record for each of its numbers, all with the same fields of the pass, or one warning with its
    numbers. -/
inductive Accounted (l : Located) (pass : Pass) (g : CaseGroup) : List Metadata → List Diagnostic → Prop where
  | recorded (fields : Metadata) (states : StatesOnly pass fields) :
      Accounted l pass g (g.ids.map fun id => { fields with id := id }) []
  | warned (message : String) : Accounted l pass g [] [l.diagnostic g .warning message]

theorem pass_of_readReturn {constants : LayerConstants} {pass : Pass} {s : Scope} {fact : Fact}
    (h : readReturn constants pass s = .ok (some fact)) : fact.pass = pass := by
  have of_map : ∀ {α : Type} {o : Option α} {f : α → Fact}, (∀ a, (f a).pass = pass) →
      (.ok (o.map f) : Except LayerError (Option Fact)) = .ok (some fact) → fact.pass = pass := by
    intro α o f hf h
    obtain ⟨a, -, rfl⟩ := Option.map_eq_some_iff.mp (Except.ok.inj h)
    exact hf a
  cases pass with
  | cut | mov | yadd => exact of_map (fun _ => rfl) h
  | layer =>
    rw [readReturn] at h
    split at h
    · cases h
    · rename_i e _
      cases he : e.resolve constants with
      | error cause =>
        rw [he] at h
        cases h
      | ok value =>
        rw [he] at h
        obtain rfl := Option.some.inj (Except.ok.inj h)
        rfl
  | door | offset | noLighting | character | animated => cases h

theorem pass_of_returnFact {constants : LayerConstants} {pass : Pass} {g : CaseGroup} {fact : Fact}
    (h : returnFact constants pass g = .ok (some fact)) : fact.pass = pass := by
  unfold returnFact at h
  split at h
  · cases h
  · split at h
    · cases h
    · cases h
    · rename_i hread
      obtain rfl := Option.some.inj (Except.ok.inj h)
      exact pass_of_readReturn hread

/-- A `return` gives a fact or an error, never nothing at all. -/
theorem returnFact_ne_none (constants : LayerConstants) (pass : Pass) (g : CaseGroup) :
    returnFact constants pass g ≠ .ok none := by
  unfold returnFact
  split
  · simp
  · split <;> simp

theorem accounted_returnFact (constants : LayerConstants) (pass : Pass) (l : Located) (g : CaseGroup) :
    Accounted l pass g (groupRecords g (returnFact constants pass g)) (groupDiagnostics l g (returnFact constants pass g)) := by
  cases h : returnFact constants pass g with
  | error cause => exact .warned cause.message
  | ok fact? =>
    cases fact? with
    | none => exact absurd h (returnFact_ne_none constants pass g)
    | some fact =>
      have hrecords : g.ids.map fact.record = g.ids.map fun id => { fact.record 0 with id := id } :=
        List.map_congr_left fun id _ => record_eq_with fact id
      have hstates : StatesOnly pass (fact.record 0) := pass_of_returnFact h ▸ statesOnly_record fact 0
      show Accounted l pass g (g.ids.map fact.record) []
      rw [hrecords]
      exact .recorded _ hstates

theorem Accounted.total {l : Located} {pass : Pass} {g : CaseGroup} {records : List Metadata} {diagnostics : List Diagnostic}
    (h : Accounted l pass g records diagnostics) :
    records.length + (diagnostics.map (·.ids.length)).sum = g.ids.length := by
  cases h with
  | recorded fields _ => simp
  | warned message => simp [Located.diagnostic]

theorem Accounted.id_mem {l : Located} {pass : Pass} {g : CaseGroup} {records : List Metadata} {diagnostics : List Diagnostic}
    (h : Accounted l pass g records diagnostics) : ∀ r ∈ records, r.id ∈ g.ids := by
  intro r hr
  cases h with
  | recorded fields _ =>
    obtain ⟨id, hid, rfl⟩ := List.mem_map.mp hr
    exact hid
  | warned message => cases hr

/-! ### The numbers of the groups -/

theorem ids_ownSpanGroups {terminator : Pattern} {body : List Char} {waiting labels : List CaseLabel} {g : CaseGroup}
    (h : g ∈ ownSpanGroups terminator body waiting labels) :
    g.ids ≠ [] ∧ ∀ id ∈ g.ids, ∃ label ∈ waiting ++ labels, label.id = id := by
  induction labels generalizing waiting with
  | nil => cases h
  | cons l labels ih =>
    have later : ∀ {held : List CaseLabel}, (∀ label ∈ held, label ∈ waiting ++ [l]) → g ∈ ownSpanGroups terminator body held labels →
        g.ids ≠ [] ∧ ∀ id ∈ g.ids, ∃ label ∈ waiting ++ l :: labels, label.id = id := by
      intro held hheld hg
      obtain ⟨hne, hids⟩ := ih hg
      refine ⟨hne, fun id hid => ?_⟩
      obtain ⟨label, hlabel, rfl⟩ := hids id hid
      refine ⟨label, ?_, rfl⟩
      rw [List.append_cons]
      rcases List.mem_append.mp hlabel with hlabel | hlabel
      · exact List.mem_append_left _ (hheld label hlabel)
      · exact List.mem_append_right _ hlabel
    rw [ownSpanGroups] at h
    split at h
    · rcases List.mem_cons.mp h with rfl | h
      · refine ⟨by simp [groupOf], fun id hid => ?_⟩
        obtain ⟨label, hlabel, rfl⟩ := List.mem_map.mp hid
        refine ⟨label, ?_, rfl⟩
        rw [List.append_cons]
        exact List.mem_append_left _ hlabel
      · exact later (by simp) h
    · split at h
      · exact later (fun _ hlabel => hlabel) h
      · exact later (by simp) h

/-! ### The whole pass -/

/-- What a pass records and reports, as an account that gives each case group its records and its warnings. -/
structure Account (l : Located) (pass : Pass) (result : List Metadata × PhaseReport)
    (records : CaseGroup → List Metadata) (warnings : CaseGroup → List Diagnostic) : Prop where
  groups : ∀ g ∈ caseGroups .ownSpan returnWord l.code, g.ids ≠ [] ∧ Accounted l pass g (records g) (warnings g)
  records_eq : result.1 = (caseGroups .ownSpan returnWord l.code).flatMap records
  entries_eq : result.2.entries = result.1.length
  diagnostics_eq : ∃ unclosed, result.2.diagnostics = unclosed ++ (caseGroups .ownSpan returnWord l.code).flatMap warnings ∧
    unclosed.length = (if l.body.complete then 0 else 1) ∧ ∀ d ∈ unclosed, d.ids = []
  numbers : ∀ r ∈ result.1, ∃ label ∈ caseLabels l.code, label.id = r.id
  total : result.2.entries + (((caseGroups .ownSpan returnWord l.code).flatMap warnings).map (·.ids.length)).sum =
    ((caseGroups .ownSpan returnWord l.code).map (·.ids.length)).sum

theorem total_accounted {l : Located} {pass : Pass} {records : CaseGroup → List Metadata} {warnings : CaseGroup → List Diagnostic}
    {groups : List CaseGroup} (h : ∀ g ∈ groups, Accounted l pass g (records g) (warnings g)) :
    (groups.flatMap records).length + ((groups.flatMap warnings).map (·.ids.length)).sum = (groups.map (·.ids.length)).sum := by
  induction groups with
  | nil => rfl
  | cons g groups ih =>
    have hg := (h g List.mem_cons_self).total
    have hrest := ih fun x hx => h x (List.mem_cons_of_mem g hx)
    simp only [List.flatMap_cons, List.length_append, List.map_append, List.sum_append, List.map_cons, List.sum_cons]
    omega

theorem unclosed_spec (l : Located) :
    l.unclosed.length = (if l.body.complete then 0 else 1) ∧ ∀ d ∈ l.unclosed, d.ids = [] := by
  unfold Located.unclosed
  split
  · simp
  · simp [Diagnostic.ofFunction]

theorem account_readGroups (settings : Settings) (pass : Pass) (l : Located) :
    Account l pass (readGroups l pass returnWord (returnFact settings.constants pass))
      (fun g => groupRecords g (returnFact settings.constants pass g))
      (fun g => groupDiagnostics l g (returnFact settings.constants pass g)) := by
  have haccounted := fun g (_ : g ∈ caseGroups .ownSpan returnWord l.code) =>
    accounted_returnFact settings.constants pass l g
  refine
    { groups := fun g hg => ⟨(ids_ownSpanGroups hg).1, haccounted g hg⟩
      records_eq := rfl
      entries_eq := rfl
      diagnostics_eq := ⟨l.unclosed, rfl, unclosed_spec l⟩
      numbers := fun r hr => ?_
      total := total_accounted haccounted }
  obtain ⟨g, hg, hr⟩ := List.mem_flatMap.mp hr
  exact (ids_ownSpanGroups hg).2 r.id ((haccounted g hg).id_mem r hr)

/-- Every case group of a pass that reads a `return` is accounted for exactly once. -/
theorem return_groups_accounted {source : Source} {settings : Settings} {pass : Pass} {body : FunctionBody}
    (hpass : pass ∈ Pass.returning) (hbody : FunctionBody.find? source.text (settings.functionFor pass) = some body) :
    ∃ records warnings,
      Account ⟨source, settings.functionFor pass, body⟩ pass (runPass source settings pass) records warnings := by
  have hlocated : Located.find? source (settings.functionFor pass) = some ⟨source, settings.functionFor pass, body⟩ := by
    rw [Located.find?, hbody, Option.map_some]
  have hrun : runPass source settings pass =
      readGroups ⟨source, settings.functionFor pass, body⟩ pass returnWord (returnFact settings.constants pass) := by
    simp only [runPass, hlocated]
    simp only [Pass.returning, List.mem_cons, List.not_mem_nil, or_false] at hpass
    rcases hpass with rfl | rfl | rfl | rfl <;> rfl
  rw [hrun]
  exact ⟨_, _, account_readGroups settings pass _⟩

theorem return_groups_accounted_unclosed :
    let source := Source.ofString "hints.c"
      "int _is_mov_sprite(int sprite)\n\x7b\nswitch (sprite) \x7b\ncase 1:\ncase 2: // slow\nreturn - 5;\ncase 3:\nreturn dx;\n"
    ∃ body, FunctionBody.find? source.text "_is_mov_sprite" = some body ∧ body.complete = false ∧
      ∃ records warnings, Account ⟨source, "_is_mov_sprite", body⟩ .mov (runPass source {} .mov) records warnings ∧
        (runPass source {} .mov).2.entries = 2 := by
  intro source
  have hbody : (FunctionBody.find? source.text "_is_mov_sprite").isSome = true := by decide +kernel
  obtain ⟨body, hbody⟩ := Option.isSome_iff_exists.mp hbody
  have hopen : (FunctionBody.find? source.text "_is_mov_sprite").map (·.complete) = some false := by decide +kernel
  rw [hbody, Option.map_some] at hopen
  obtain ⟨records, warnings, haccount⟩ := @return_groups_accounted source {} .mov body (by decide) hbody
  exact ⟨body, hbody, Option.some.inj hopen, records, warnings, haccount, by decide +kernel⟩

end Metadata
end SpriteFacts
