import SpriteFacts.Document.Basic
import SpriteFacts.Proofs.Switch.CheckedBody
import SpriteFacts.Proofs.Switch.CheckedGroups
import SpriteFacts.Proofs.Variant.CapturedComment

/-! Extraction with every slice checked. Each pass is run as it is, but it stops without a result where it would cut a text out of
    bounds or within a character, where the depth of braces would fall below zero, or where it would ask a group without numbers
    for its first one. No source stops it, so the documents are those of the extraction. -/

namespace SpriteFacts

open Switch Text

/-! ### Checked passes -/

/-- The scope that the code of a group is read in. -/
def Switch.CaseGroup.scope? (g : CaseGroup) : Option Scope := do
  let id ← g.ids.head?
  let code ← g.code?
  some ⟨id, code⟩

def Located.findChecked (source : Source) (function : String) : Option (Option Located) :=
  (FunctionBody.findChecked source.text function).map fun found => found.map fun body => ⟨source, function, body⟩

namespace Metadata

/-- A group of offsets is read from its code. -/
def checkedOffset (g : CaseGroup) : Option GroupFact := g.scope?.map fun _ => offsetFact g

/-- A group of returns is read from its ending, for its first number. -/
def checkedReturn (constants : LayerConstants) (pass : Pass) (g : CaseGroup) : Option GroupFact :=
  g.ending?.bind fun _ => g.ids.head?.map fun _ => returnFact constants pass g

def checkedGroups (l : Located) (pass : Pass) (terminator : Pattern) (read? : CaseGroup → Option GroupFact) :
    Option (List Metadata × PhaseReport) := do
  let groups ← caseGroups? .ownSpan terminator l.code
  let read ← groups.mapM fun g => (g, ·) <$> read? g
  let records := read.flatMap fun (g, fact) => groupRecords g fact
  some (records, l.report pass none records.length (read.flatMap fun (g, fact) => groupDiagnostics l g fact))

/-- The passes for which the labels alone state the fact take no slice. -/
def checkedLocated (settings : Settings) (pass : Pass) (l : Located) : Option (List Metadata × PhaseReport) :=
  match pass with
  | .door | .noLighting => some (readLocated settings pass l)
  | .offset => checkedGroups l pass breakOrReturn checkedOffset
  | _ => checkedGroups l pass returnWord (checkedReturn settings.constants pass)

def checkedPass (source : Source) (settings : Settings) (pass : Pass) : Option (List Metadata × PhaseReport) := do
  let function := settings.functionFor pass
  match ← Located.findChecked source function with
  | none => some ([], .missing pass function)
  | some l => checkedLocated settings pass l

end Metadata

namespace VariantPass

/-- The comment on a group, from the texts of its span. -/
def checkedComment (raw blanked : List Char) : Option (Option String) :=
  match breakStatement.find? blanked with
  | none => some none
  | some stop => do
    let behind ← slice? stop.start (byteLength raw) raw
    let found ← match trailingComment.find? behind with
      | some m => some (some m)
      | none => (slice? 0 stop.start raw).map anyLineComment.find?
    some <| found.bind fun m =>
      let comment := trim (m.group 1)
      if comment.isEmpty then none else some (String.ofList comment)

def checkedRecords (p : VariantPass) (raw blanked : List Char) (g : CaseGroup) : Option (List Variant) := do
  let rawSpan ← g.spanOf? raw
  let blankedSpan ← g.spanOf? blanked
  let comment ← checkedComment rawSpan blankedSpan
  g.scope?.map fun _ => p.records g comment

def checkedRun (p : VariantPass) (source : Source) (settings : Settings) : Option (List Variant × PhaseReport) := do
  let function := settings.functionFor p.pass
  match ← Located.findChecked source function with
  | none => some ([], .missing p.pass function)
  | some l =>
    let code := l.code
    let groups ← caseGroups? .fallThrough breakStatement code
    let groups ← groups.mapM fun g => (g, ·) <$> p.checkedRecords l.body.text code g
    let merged := (Roster.empty.addAll (groups.flatMap (·.2))).finish
    some (merged, l.report p.pass (some groups.length) merged.length
      (groups.flatMap fun (g, records) => p.diagnostics l g records))

end VariantPass

namespace Document

def checkedVariants (kind : DocumentKind) (pass : VariantPass) (source : Source) (settings : Settings) : Option Document := do
  let (records, report) ← pass.checkedRun source settings
  some ⟨kind, [report], .variants records⟩

def checkedExtract (source : Source) (settings : Settings) : DocumentKind → Option Document
  | .metadata => do
    let results ← DocumentKind.metadata.passes.mapM (Metadata.checkedPass source settings)
    some ⟨.metadata, results.map (·.2), .metadata (Roster.empty.addAll (results.flatMap (·.1))).finish⟩
  | .character => checkedVariants .character .character source settings
  | .animated => checkedVariants .animated .animated source settings

end Document

/-! ### Nothing stops them -/

theorem mapM_eq_some {α β : Type} {f : α → Option β} {g : α → β} {xs : List α} (h : ∀ x ∈ xs, f x = some (g x)) :
    xs.mapM f = some (xs.map g) := by
  induction xs with
  | nil => rfl
  | cons x xs ih =>
    rw [List.mapM_cons, h x List.mem_cons_self, ih fun y hy => h y (List.mem_cons_of_mem x hy)]
    rfl

theorem Switch.CaseGroup.Fits.scope?_eq {g : CaseGroup} (h : g.Fits) : g.scope? = some ⟨g.ids.headD 0, g.code⟩ := by
  obtain ⟨id, ids, hids⟩ := List.exists_cons_of_ne_nil h.nonempty
  rw [CaseGroup.scope?, h.code?_eq, hids]
  rfl

theorem Located.findChecked_eq (source : Source) (function : String) :
    findChecked source function = some (find? source function) := by
  rw [findChecked, FunctionBody.findChecked_eq]
  rfl

namespace Metadata

theorem checkedReturn_eq {g : CaseGroup} (h : g.Fits) (constants : LayerConstants) (pass : Pass) :
    checkedReturn constants pass g = some (returnFact constants pass g) := by
  obtain ⟨id, ids, hids⟩ := List.exists_cons_of_ne_nil h.nonempty
  rw [checkedReturn, h.ending?_eq, Option.bind_some, hids]
  rfl

theorem checkedOffset_eq {g : CaseGroup} (h : g.Fits) : checkedOffset g = some (offsetFact g) := by
  rw [checkedOffset, h.scope?_eq]
  rfl

theorem checkedGroups_eq {read? : CaseGroup → Option GroupFact} {read : CaseGroup → GroupFact}
    (h : ∀ g, g.Fits → read? g = some (read g)) (l : Located) (pass : Pass) (terminator : Pattern) :
    checkedGroups l pass terminator read? = some (readGroups l pass terminator read) := by
  have hread := @mapM_eq_some _ _ (fun g => (g, ·) <$> read? g) (fun g => (g, read g)) (caseGroups .ownSpan terminator l.code)
    fun g hg => by rw [h g (fits_of_mem_caseGroups hg)]; rfl
  rw [checkedGroups, caseGroups?_eq, Option.bind_eq_bind, Option.bind_some, hread, Option.bind_eq_bind, Option.bind_some, readGroups,
    List.flatMap_map, List.flatMap_map]

theorem checkedPass_eq (source : Source) (settings : Settings) (pass : Pass) :
    checkedPass source settings pass = some (runPass source settings pass) := by
  rw [checkedPass, Located.findChecked_eq, Option.bind_eq_bind, Option.bind_some, runPass]
  cases Located.find? source (settings.functionFor pass) with
  | none => rfl
  | some l =>
    cases pass with
    | door | noLighting => rfl
    | offset => exact checkedGroups_eq (fun g => checkedOffset_eq) l _ _
    | cut | mov | yadd | layer | character | animated => exact checkedGroups_eq (fun g h => checkedReturn_eq h _ _) l _ _

end Metadata

namespace VariantPass

/-- The span of a group lies between characters of the body and of its code, and so does a `break;` that is found in the code. -/
structure SpanFits (raw blanked : List Char) (g : CaseGroup) : Prop where
  rawSpan : g.spanOf? raw = some (g.spanOf raw)
  blankedSpan : g.spanOf? blanked = some (g.spanOf blanked)
  leave : ∀ stop, breakStatement.find? (g.spanOf blanked) = some stop → IsBoundary stop.start (g.spanOf raw)

theorem spanFits_of_mem_caseGroups {body : List Char} {g : CaseGroup}
    (hg : g ∈ caseGroups .fallThrough breakStatement (withoutComments body)) : SpanFits body (withoutComments body) g := by
  obtain ⟨ms, hms⟩ := exists_commented body
  obtain ⟨as, cs, ds, rfl, hstart, hraw, hblanked⟩ := exists_marks hms hg
  obtain ⟨front, part, back, hin⟩ := exists_standsIn hg
  have hcode : g.spanOf? (withoutComments body) = some part := by
    rw [CaseGroup.spanOf?, hin.stop, hin.start, hin.split, List.append_cons front ':' (part ++ back)]
    exact slice?_append (front ++ [':']) part back
  have hpart : g.spanOf (withoutComments body) = part := (slice?_eq_some_iff.mp hcode).2
  have hstop : g.spanStop = byteLength (Mark.textOf as) + byteLength (Mark.textOf cs) := by
    rw [hin.stop, hstart, ← hpart, hblanked, byteLength_blanked]
  have hbody : body = Mark.textOf as ++ (Mark.textOf cs ++ Mark.textOf ds) := by
    rw [← hms.textOf_eq, Mark.textOf_append, Mark.textOf_append]
  refine ⟨?_, hpart ▸ hcode, fun stop hstop => ?_⟩
  · rw [hraw, CaseGroup.spanOf?, hstart, hstop, hbody]
    exact slice?_append _ _ _
  · rw [hblanked] at hstop
    obtain ⟨xs, ys, rfl, hplace⟩ := split_at_break hstop
    exact ⟨Mark.textOf xs, _, by rw [hraw, Mark.textOf_append], hplace.symm⟩

theorem checkedComment_eq {raw blanked : List Char}
    (h : ∀ stop, breakStatement.find? blanked = some stop → IsBoundary stop.start raw) :
    checkedComment raw blanked = some (capturedComment? raw blanked) := by
  rw [checkedComment, capturedComment?]
  cases hstop : breakStatement.find? blanked with
  | none => rfl
  | some stop =>
    have hboundary := h stop hstop
    dsimp only
    rw [slice?_drop hboundary, slice?_take hboundary, Option.bind_eq_bind, Option.bind_some, Option.bind_some]
    cases trailingComment.find? (dropBytes stop.start raw) <;> rfl

theorem checkedRecords_eq (p : VariantPass) {body : List Char} {g : CaseGroup}
    (hg : g ∈ caseGroups .fallThrough breakStatement (withoutComments body)) :
    p.checkedRecords body (withoutComments body) g = some (p.groupRecords body (withoutComments body) g) := by
  have hspan := spanFits_of_mem_caseGroups hg
  rw [checkedRecords, hspan.rawSpan, hspan.blankedSpan, Option.bind_eq_bind, Option.bind_some, Option.bind_eq_bind, Option.bind_some,
    checkedComment_eq hspan.leave, (fits_of_mem_caseGroups hg).scope?_eq]
  rfl

theorem checkedRun_eq (p : VariantPass) (source : Source) (settings : Settings) :
    p.checkedRun source settings = some (p.run source settings) := by
  rw [checkedRun, Located.findChecked_eq, Option.bind_eq_bind, Option.bind_some, run]
  cases Located.find? source (settings.functionFor p.pass) with
  | none => rfl
  | some l =>
    have hrecords := @mapM_eq_some _ _ (fun g => (g, ·) <$> p.checkedRecords l.body.text l.code g)
      (fun g => (g, p.groupRecords l.body.text l.code g)) (caseGroups .fallThrough breakStatement l.code)
      fun g hg => by rw [Located.code, p.checkedRecords_eq hg]; rfl
    dsimp only
    rw [caseGroups?_eq, Option.bind_eq_bind, Option.bind_some, hrecords]
    rfl

end VariantPass

/-- Extraction takes no slice that is out of bounds or ends within a character, and no brace takes the depth below zero: the
    checked extraction gives every document that is asked for, whatever the bytes of the source. -/
theorem extraction_in_bounds (path : String) (bytes : ByteArray) (settings : Settings) (kinds : List DocumentKind) :
    kinds.mapM (Document.checkedExtract (Source.ofBytes path bytes) settings) =
      some (kinds.map (Document.extract (Source.ofBytes path bytes) settings)) := by
  refine mapM_eq_some fun kind _ => ?_
  cases kind with
  | metadata =>
    have hresults := @mapM_eq_some _ _ (Metadata.checkedPass (Source.ofBytes path bytes) settings)
      (Metadata.runPass (Source.ofBytes path bytes) settings) DocumentKind.metadata.passes
      fun pass _ => Metadata.checkedPass_eq _ settings pass
    rw [Document.checkedExtract, hresults]
    rfl
  | character | animated =>
    rw [Document.checkedExtract, Document.checkedVariants, VariantPass.checkedRun_eq]
    rfl

end SpriteFacts
