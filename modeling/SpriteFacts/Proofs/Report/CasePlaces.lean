import SpriteFacts.Document.Basic
import SpriteFacts.Proofs.Switch.FunctionPlace
import SpriteFacts.Proofs.Switch.LabelPlaces
import SpriteFacts.Proofs.Text.Replaced
import SpriteFacts.Proofs.Text.Utf8

/-! The places of diagnostics. A diagnostic about a case group has the numbers of one group that its pass reads, and it points
    at the label of the first of them: the word `case` stands at that line of the source, in the body of the function and
    outside of its comments, though the group was found in a body whose comments had been blanked out. -/

namespace SpriteFacts

open Switch Text

/-- The case groups that a pass reads in the code of its function. -/
def Pass.groups : Pass → List Char → List CaseGroup
  | .door, _ | .noLighting, _ => []
  | .offset, code => caseGroups .ownSpan breakOrReturn code
  | .character, code | .animated, code => caseGroups .fallThrough breakStatement code
  | .cut, code | .mov, code | .yadd, code | .layer, code => caseGroups .ownSpan returnWord code

theorem Pass.mem_caseGroups_of_mem_groups {p : Pass} {code : List Char} {g : CaseGroup} (h : g ∈ p.groups code) :
    ∃ reach terminator, g ∈ caseGroups reach terminator code := by
  cases p with
  | door | noLighting => cases h
  | offset => exact ⟨.ownSpan, breakOrReturn, h⟩
  | character | animated => exact ⟨.fallThrough, breakStatement, h⟩
  | cut | mov | yadd | layer => exact ⟨.ownSpan, returnWord, h⟩

/-! ### The reports of passes -/

/-- The diagnostic is one about a group that the pass reads. -/
def Located.Reports (l : Located) (p : Pass) (d : Diagnostic) : Prop :=
  ∃ g ∈ p.groups l.code, ∃ severity message, d = l.diagnostic g severity message

/-- What a report says about numbers, it says about groups of its pass. -/
def PhaseReport.Grounded (r : PhaseReport) (source : Source) : Prop :=
  ∀ d ∈ r.diagnostics, d.ids ≠ [] → ∃ l, Located.find? source r.function = some l ∧ l.Reports r.pass d

section Reports
variable {source : Source} {settings : Settings} {l : Located} {d : Diagnostic}

theorem PhaseReport.grounded_missing (pass : Pass) (function : String) : (missing pass function).Grounded source := by
  intro d hd hids
  obtain rfl := List.mem_singleton.mp hd
  exact absurd rfl hids

theorem Located.ids_of_mem_unclosed (h : d ∈ l.unclosed) : d.ids = [] := by
  rw [unclosed] at h
  split at h
  · cases h
  · rw [List.mem_singleton.mp h]
    rfl

theorem Located.find?_function {function : String} (h : Located.find? source function = some l) :
    l.function = function ∧ l.source = source ∧ FunctionBody.find? source.text function = some l.body := by
  obtain ⟨b, hb, rfl⟩ := Option.map_eq_some_iff.mp h
  exact ⟨rfl, rfl, hb⟩

theorem Located.grounded_report {function : String} (hl : Located.find? source function = some l) {pass : Pass}
    {groups : Option Nat} {entries : Nat} {ds : List Diagnostic} (h : ∀ d ∈ ds, l.Reports pass d) :
    (l.report pass groups entries ds).Grounded source := by
  intro d hd hids
  obtain ⟨hfunction, -, -⟩ := find?_function hl
  rcases List.mem_append.mp hd with hd | hd
  · exact absurd (ids_of_mem_unclosed hd) hids
  · have hfind : Located.find? source l.function = some l := hfunction.symm ▸ hl
    exact ⟨l, hfind, h d hd⟩

theorem Metadata.grounded_readGroups {function : String} (hl : Located.find? source function = some l) {pass : Pass}
    {terminator : Pattern} (hgroups : pass.groups l.code = caseGroups .ownSpan terminator l.code) (read : CaseGroup → GroupFact) :
    (readGroups l pass terminator read).2.Grounded source := by
  refine Located.grounded_report hl fun d hd => ?_
  obtain ⟨g, hg, hd⟩ := List.mem_flatMap.mp hd
  refine ⟨g, hgroups ▸ hg, ?_⟩
  cases hread : read g with
  | error e =>
    rw [hread] at hd
    exact ⟨_, _, List.mem_singleton.mp hd⟩
  | ok fact =>
    rw [hread] at hd
    cases hd

theorem Metadata.grounded_runPass {pass : Pass} (hpass : pass ∈ DocumentKind.metadata.passes) :
    (runPass source settings pass).2.Grounded source := by
  rw [runPass]
  cases hl : Located.find? source (settings.functionFor pass) with
  | none => exact PhaseReport.grounded_missing pass _
  | some l =>
    cases pass with
    | door | noLighting => exact Located.grounded_report hl nofun
    | offset => exact grounded_readGroups hl rfl _
    | cut | mov | yadd | layer => exact grounded_readGroups hl rfl _
    | character | animated => exact absurd hpass (by decide)

theorem VariantPass.reports_diagnostics (p : VariantPass) {g : CaseGroup} (hg : g ∈ p.pass.groups l.code)
    {records : List Variant} (hd : d ∈ p.diagnostics l g records) : l.Reports p.pass d := by
  suffices ∃ severity message, d = l.diagnostic g severity message from ⟨g, hg, this⟩
  simp only [VariantPass.diagnostics, List.mem_append] at hd
  rcases hd with ((hd | hd) | hd) | hd
  · split at hd
    · exact ⟨_, _, List.mem_singleton.mp hd⟩
    · cases hd
  · split at hd
    · exact ⟨_, _, List.mem_singleton.mp hd⟩
    · cases hd
  · obtain ⟨slot, -, rfl⟩ := List.mem_map.mp hd
    exact ⟨_, _, rfl⟩
  · split at hd
    · exact ⟨_, _, List.mem_singleton.mp hd⟩
    · cases hd

theorem VariantPass.grounded_run {p : VariantPass} (hp : ∀ code, p.pass.groups code = caseGroups .fallThrough breakStatement code) :
    (p.run source settings).2.Grounded source := by
  rw [run]
  cases hl : Located.find? source (settings.functionFor p.pass) with
  | none => exact PhaseReport.grounded_missing p.pass _
  | some l =>
    refine Located.grounded_report hl fun d hd => ?_
    obtain ⟨⟨g, records⟩, hg, hd⟩ := List.mem_flatMap.mp hd
    obtain ⟨g', hg', heq⟩ := List.mem_map.mp hg
    obtain ⟨rfl, -⟩ := Prod.mk.inj heq
    exact p.reports_diagnostics (by rw [hp]; exact hg') hd

theorem Document.grounded_extract {kind : DocumentKind} {r : PhaseReport} (hr : r ∈ (extract source settings kind).phases) :
    r.Grounded source := by
  cases kind with
  | metadata =>
    obtain ⟨x, hx, rfl⟩ := List.mem_map.mp hr
    obtain ⟨pass, hpass, rfl⟩ := List.mem_map.mp hx
    exact Metadata.grounded_runPass hpass
  | character =>
    obtain rfl := List.mem_singleton.mp hr
    exact VariantPass.grounded_run fun code => rfl
  | animated =>
    obtain rfl := List.mem_singleton.mp hr
    exact VariantPass.grounded_run fun code => rfl

end Reports

/-! ### The places -/

/-- The diagnostic points at a label of the body: the source holds the body with the word `case` in it, at the line of the
    diagnostic and outside of the comments, and the label that starts there has its first number. -/
structure Diagnostic.PointsAt (d : Diagnostic) (source : Source) (b : FunctionBody) (head before behind tail : List Char) : Prop where
  source : source.text = head ++ (b.text ++ tail)
  body : b.text = before ++ ("case".toList ++ behind)
  offset : b.offset = byteLength head
  line : d.line = some (1 + (utf8 (head ++ before)).count (asciiByte '\n'))
  outside : OutsideComments b.text (byteLength before) (byteLength before + byteLength "case".toList)
  label : ∃ l ∈ caseLabels (withoutComments b.text), l.start = byteLength before ∧ d.ids.head? = some l.id ∧
    ∃ front gap digits gap' own rest, l.Written (withoutComments b.text) front gap digits gap' own rest

/-- The label of a group stands in the body of its function. -/
theorem Located.pointsAt_diagnostic {source : Source} {function : String} {l : Located} (hl : Located.find? source function = some l)
    {reach : Reach} {terminator : Pattern} {g : CaseGroup} (hg : g ∈ caseGroups reach terminator l.code) (severity : Severity)
    (message : String) :
    ∃ head before behind tail, (l.diagnostic g severity message).PointsAt source l.body head before behind tail := by
  obtain ⟨-, hsource, hbody⟩ := find?_function hl
  obtain ⟨before, behind, hstands⟩ := FunctionBody.exists_standsIn hbody
  obtain ⟨k, hk, hoffset, hhead⟩ := startsAt_of_mem_caseGroups hg
  obtain ⟨front, gap, digits, gap', own, rest, hwritten⟩ := exists_written hk
  have hword : withoutComments l.body.text = front ++ ("case".toList ++ (gap ++ (digits ++ (gap' ++ [':'])) ++ (own ++ rest))) := by
    rw [← List.append_assoc "case".toList]
    exact hwritten.split
  obtain ⟨as, bs, hsplit, hlength, houtside⟩ := exists_outside_word (by decide) (by simp) hword
  have hplace : k.start = byteLength as := hwritten.start.trans hlength.symm
  have htext : source.text = ((before ++ ['\x7b']) ++ as) ++ ("case".toList ++ bs ++ behind) := by
    rw [hstands.split, hsplit]
    simp
  refine ⟨before ++ ['\x7b'], as, bs, behind, ?_, hsplit, ?_, ?_, houtside, k, hk, hplace, hhead, front, gap, digits, gap', own,
    rest, hwritten⟩
  · rw [hstands.split]
    simp
  · rw [hstands.offset, byteLength_append]
    rfl
  · have hat : l.body.offset + g.offset = byteLength ((before ++ ['\x7b']) ++ as) := by
      rw [hoffset, hplace, hstands.offset, byteLength_append, byteLength_append]
      rfl
    show some (l.source.lineAt (l.body.offset + g.offset)) = _
    rw [hat, hsource, Source.lineAt, htext, lineAt_append (by simp), count_utf8 (by decide)]

/-- A diagnostic with numbers has those of one group that its pass reads, and it points at the label of the first one. -/
theorem diagnostic_points_at_case {source : Source} {settings : Settings} {kind : DocumentKind} {d : Diagnostic}
    (hd : d ∈ (Document.extract source settings kind).diagnostics) (hids : d.ids ≠ []) :
    ∃ r ∈ (Document.extract source settings kind).phases, d ∈ r.diagnostics ∧
      ∃ b, FunctionBody.find? source.text r.function = some b ∧
        (∃ g ∈ r.pass.groups (withoutComments b.text), d.ids = g.ids) ∧
        ∃ head before behind tail, d.PointsAt source b head before behind tail := by
  obtain ⟨r, hr, hd⟩ := List.mem_flatMap.mp hd
  obtain ⟨l, hl, g, hg, severity, message, rfl⟩ := Document.grounded_extract hr d hd hids
  obtain ⟨-, -, hbody⟩ := Located.find?_function hl
  obtain ⟨reach, terminator, hgroup⟩ := Pass.mem_caseGroups_of_mem_groups hg
  exact ⟨r, hr, hd, l.body, hbody, ⟨g, hg, rfl⟩, Located.pointsAt_diagnostic hl hgroup severity message⟩

/-- Two labels share an outcome that no idiom reads, and comments of several bytes and lines stand around the first. -/
theorem diagnostic_points_at_case_carried :
    let source := Source.ofString "sprite.c" "int _is_mov_sprite(int s)\n\x7b\n// é\ncase 1: /* é\n*/ case 2:\nreturn x;\n\x7d\n"
    let d : Diagnostic := ⟨"_is_mov_sprite", some 4, [1, 2], .warning, "unrecognized return expression `x`"⟩
    d ∈ (Document.extract source {} .metadata).diagnostics ∧ d.ids ≠ [] ∧
      ∃ r ∈ (Document.extract source {} .metadata).phases, d ∈ r.diagnostics ∧
        ∃ b, FunctionBody.find? source.text r.function = some b ∧
          (∃ g ∈ r.pass.groups (withoutComments b.text), d.ids = g.ids) ∧
          ∃ head before behind tail, d.PointsAt source b head before behind tail := by
  intro source d
  have hd : d ∈ (Document.extract source {} .metadata).diagnostics := by decide +kernel
  have hids : d.ids ≠ [] := List.cons_ne_nil _ _
  exact ⟨hd, hids, diagnostic_points_at_case hd hids⟩

end SpriteFacts
