import SpriteFacts.Json.Print
import SpriteFacts.Metadata.Passes
import SpriteFacts.Variant.Pass

/-! Documents: the merged records of a kind together with what each of its passes reports. A document
    depends on the text of the source and the settings alone. -/

namespace SpriteFacts

/-- The records of a document. -/
inductive Records where
  | metadata (records : List Metadata)
  | variants (records : List Variant)
  deriving DecidableEq, Repr

def Records.size : Records → Nat
  | metadata rs => rs.length
  | variants rs => rs.length

/-- A document of a run. -/
structure Document where
  kind : DocumentKind
  phases : List PhaseReport
  records : Records
  deriving DecidableEq, Repr

namespace Document

/-- The metadata document: the records of its passes, merged in their order. -/
def ofMetadata (source : Source) (settings : Settings) : Document :=
  let results := DocumentKind.metadata.passes.map (Metadata.runPass source settings)
  ⟨.metadata, results.map (·.2), .metadata (Roster.empty.addAll (results.flatMap (·.1))).finish⟩

def ofVariants (kind : DocumentKind) (pass : VariantPass) (source : Source) (settings : Settings) : Document :=
  let (records, report) := pass.run source settings
  ⟨kind, [report], .variants records⟩

def extract (source : Source) (settings : Settings) : DocumentKind → Document
  | .metadata => ofMetadata source settings
  | .character => ofVariants .character .character source settings
  | .animated => ofVariants .animated .animated source settings

/-- The diagnostics of all passes, in the order in which they arose. -/
def diagnostics (d : Document) : List Diagnostic := d.phases.flatMap (·.diagnostics)

def metadataTallies (rs : List Metadata) : List (String × Nat) :=
  [("Cut sprites", rs.countP (·.hasCut)),
   ("Door sprites", rs.countP fun r => r.door = some true),
   ("Mov sprites", rs.countP (·.mov.isSome)),
   ("Yadd sprites", rs.countP (·.yadd.isSome)),
   ("Layer sprites", rs.countP (·.layer.isSome)),
   ("Offset sprites", rs.countP (·.hasOffset)),
   ("No-lighting sprites", rs.countP fun r => r.noLighting = some true)]

def variantTallies (rs : List Variant) : List (String × Nat) :=
  [("Remapped", rs.countP fun r => r.baseSprite.any fun base => base ≠ (r.id : Int)),
   ("Animated", rs.countP (·.animation.isSome)),
   ("Color pulses", rs.countP (·.colorPulse.isSome)),
   ("Light pulses", rs.countP (·.lightPulse.isSome)),
   ("Packed colors", rs.countP fun r => r.colors ≠ {}),
   ("Needs review", rs.countP (·.needsReview.isSome))]

def tallies (d : Document) : List (String × Nat) :=
  match d.records with
  | .metadata rs => metadataTallies rs
  | .variants rs => variantTallies rs

def formatVersion : Nat := 1

def recordsJson (d : Document) : List Json :=
  match d.records with
  | .metadata rs => rs.map Metadata.toJson
  | .variants rs => rs.map Variant.toJson

/-- The document as JSON: the version of the format, then the records. -/
def toJson (d : Document) : Json := .obj [("version", .nat formatVersion), (d.kind.key, .arr d.recordsJson)]

def render (d : Document) : String := d.toJson.toText

end Document
end SpriteFacts
