import SpriteFacts.Report.Phase
import SpriteFacts.Variant.Pulse
import SpriteFacts.Variant.Record
import SpriteFacts.Variant.Remap

/-! The pass of a variant document. The function is one switch whose cases fall through to a `break;`.
    A case group gives a record for each of its numbers; the records differ in what the remap reads
    from the number and in nothing else. Code that no idiom covers is reported, and kept for review if
    it decides at run time. -/

namespace SpriteFacts

open Switch

/-- What the two variant functions differ in. -/
structure VariantPass where
  pass : Pass
  remap : IdiomChain Remap
  spriteVariable : String
  /-- A tick mask swings the red channel. -/
  readsMask : Bool

namespace VariantPass

def character : VariantPass := ⟨.character, Remap.characterChain, "csprite", true⟩

def animated : VariantPass := ⟨.animated, Remap.animatedChain, "sprite", false⟩

/-! ### Comments -/

open Pattern in
/-- A line comment after the terminating `break;`, on the same line. Group 1 is its text. -/
def trailingComment : Pattern :=
  all [textStart, literal "break", blanks, char ';', tabs, literal "//", tabs, group 1 (run (· != '\n'))]

open Pattern in
/-- A line comment. Group 1 is its text. -/
def anyLineComment : Pattern := all [literal "//", tabs, group 1 (run (· != '\n'))]

/-- The comment on a group: the one after its `break;`, else the first one before it. The two texts are
    the span of the group as it is written and with comments blanked out. -/
def capturedComment? (raw blanked : List Char) : Option String :=
  (breakStatement.find? blanked).bind fun stop =>
    let found :=
      match trailingComment.find? (Text.dropBytes stop.start raw) with
      | some m => some m
      | none => anyLineComment.find? (Text.takeBytes stop.start raw)
    found.bind fun m =>
      let comment := Text.trim (m.group 1)
      if comment.isEmpty then none else some (String.ofList comment)

/-! ### Code that no idiom covers -/

open Pattern in
def absCall : Pattern := spaced [wordStart "abs", char '(']

open Pattern in
/-- The assignment to a packed color. Group 1 is its slot. -/
def slotAssignment : Pattern :=
  all [wordEdge, group 1 (seq (char 'c') (one fun c => c == '1' || c == '2' || c == '3')), blanks, char '=',
    one (· != '=')]

open Pattern in
/-- Code that decides at run time: a condition, the helper variable or a random number. -/
def dynamicCode : Pattern := any (spaced [wordStart "if", char '(']) [word "helper", word "rrand"]

/-- The tick. -/
def tickWord : Pattern := .word "attick"

/-- The slots that code assigns, each once, in the order of their first assignment. -/
def assignedSlots (code : List Char) : List ColorSlot :=
  ((slotAssignment.findAll code).filterMap fun m => ColorSlot.ofName? (String.ofList (m.group 1))).eraseDups

/-- The slots that code assigns and a record does not state. -/
def unreadSlots (code : List Char) (r : Variant) : List ColorSlot :=
  (assignedSlots code).filter fun slot =>
    (r.colors.get slot).isNone && !r.colorPulse.any (fun p => p.target = slot)

def truncated (limit : Nat) (text : List Char) : String := String.ofList (text.take limit)

/-- The code kept for review. Code that decides at run time is kept unless a tick mask accounts for it, and
    code with a tick is kept if the record does not move. -/
def reviewText? (code : List Char) (r : Variant) (masked : Bool) : Option String :=
  if (dynamicCode.occursIn code && !masked) || (tickWord.occursIn code && !r.hasAnimation) then
    some (truncated 500 (Text.trim code))
  else none

/-! ### Records -/

def shared (s : Scope) (comment : Option String) : Variant where
  id := s.id
  channels := Channels.read s
  colors := (PackedColors.chain.value? s).getD {}
  colorPulse := Pulse.colorChain.value? s
  lightPulse := Pulse.lightChain.value? s
  comment := comment

/-- The swing that a tick mask in the code drives, in a pass that reads masks. -/
def maskPulse? (p : VariantPass) (s : Scope) : Option Animation :=
  if p.readsMask then Pulse.maskChain.value? s else none

/-- What the remap reads for a number of a group, nothing if it reads nothing for the first number. -/
def remapOf? (p : VariantPass) (g : CaseGroup) (id : Nat) : Option Remap :=
  if (p.remap.value? ⟨g.ids.headD 0, g.code⟩).isSome then p.remap.value? ⟨id, g.code⟩ else none

/-- The record of one number of a group, from what all its numbers share. -/
def recordOf (code : List Char) (base : Variant) (mask : Option Animation) (remap : Option Remap) (id : Nat) :
    Variant :=
  let moving : Variant :=
    { base with
      id := id
      baseSprite := remap.map (·.base)
      animation := (remap.bind (·.animation)).or mask }
  { moving with needsReview := reviewText? code moving mask.isSome }

def records (p : VariantPass) (g : CaseGroup) (comment : Option String) : List Variant :=
  let s : Scope := ⟨g.ids.headD 0, g.code⟩
  let base := shared s comment
  let mask := p.maskPulse? s
  g.ids.map fun id => recordOf s.code base mask (p.remapOf? g id) id

/-- The diagnostics of a group: warnings about what no idiom reads, then the code to review. -/
def diagnostics (p : VariantPass) (l : Located) (g : CaseGroup) (records : List Variant) : List Diagnostic :=
  let s : Scope := ⟨g.ids.headD 0, g.code⟩
  let base := shared s none
  let line := Text.oneLine g.code
  let quoted := "`" ++ String.ofList line ++ "`"
  let warn := l.diagnostic g .warning
  (if (p.remap.value? s).isNone then
      [warn ("unrecognized " ++ p.spriteVariable ++ " assignment in " ++ quoted)] else [])
    ++ (if absCall.occursIn g.code && base.colorPulse.isNone && base.lightPulse.isNone then
      [warn ("unrecognized pulse expression in " ++ quoted)] else [])
    ++ (unreadSlots g.code base).map (fun slot => warn ("unrecognized " ++ slot.name ++ " value"))
    ++ (if records.any (fun r => r.needsReview.isSome) then
      [l.diagnostic g .review ("needs manual review: `" ++ truncated 120 line ++ "`")] else [])

/-- The records of a group with the comment on it, from the body as it is written and with its comments
    blanked out. -/
def groupRecords (p : VariantPass) (raw blanked : List Char) (g : CaseGroup) : List Variant :=
  p.records g (capturedComment? (g.spanOf raw) (g.spanOf blanked))

def run (p : VariantPass) (source : Source) (settings : Settings) : List Variant × PhaseReport :=
  let function := settings.functionFor p.pass
  match Located.find? source function with
  | none => ([], .missing p.pass function)
  | some l =>
    let code := l.code
    let groups := (caseGroups .fallThrough breakStatement code).map fun g => (g, p.groupRecords l.body.text code g)
    let merged := (Roster.empty.addAll (groups.flatMap (·.2))).finish
    (merged, l.report p.pass (some groups.length) merged.length
      (groups.flatMap fun (g, records) => p.diagnostics l g records))

end VariantPass
end SpriteFacts
