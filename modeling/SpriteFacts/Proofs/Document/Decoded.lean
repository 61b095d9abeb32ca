import SpriteFacts.Document.Basic
import SpriteFacts.Proofs.Json.RoundTrip

/-! Documents as a reader of them sees them. The text of a document is one JSON object and a newline, and reading its
    fields one by one gives back what the records show: every field but the text to review and the flags that are
    false. So two documents of a kind have the same text exactly if their records show the same. -/

namespace SpriteFacts

/-! ### Fields of an object -/

namespace Json

def get? (key : String) : Json → Option Json
  | obj members => members.lookup key
  | _ => none

def asInt? : Json → Option Int
  | int n => some n
  | _ => none

def asNat? : Json → Option Nat
  | int (.ofNat n) => some n
  | _ => none

def asBool? : Json → Option Bool
  | bool b => some b
  | _ => none

def asString? : Json → Option String
  | str s => some s
  | _ => none

/-- A field that must be there. -/
def required? {α : Type} (key : String) (read : Json → Option α) (j : Json) : Option α := (j.get? key).bind read

/-- A field that may be absent. Nothing is read if it is there with a value of another kind. -/
def field? {α : Type} (key : String) (read : Json → Option α) (j : Json) : Option (Option α) :=
  match j.get? key with
  | none => some none
  | some v => (read v).map some

/-- The members of an object whose fields may be absent. -/
def members (fields : List (String × Option Json)) : List (String × Json) :=
  fields.flatMap fun field => field.2.toList.map fun v => (field.1, v)

section Fields
variable {α : Type} {key : String} {fields : List (String × Option Json)}

theorem member?_eq (key : String) (toJson : α → Json) (v : Option α) : member? key toJson v = members [(key, v.map toJson)] := by
  cases v <;> rfl

theorem flag?_eq (key : String) (v : Option Bool) : flag? key v = members [(key, (v.filter fun b => b).map bool)] := by
  rcases v with _ | _ | _ <;> rfl

theorem members_append (fields fields' : List (String × Option Json)) :
    members (fields ++ fields') = members fields ++ members fields' :=
  List.flatMap_append

theorem flatMap_members {β : Type} (bs : List β) (field : β → String × Option Json) :
    (bs.flatMap fun b => members [field b]) = members (bs.map field) := by
  rw [members, List.flatMap_map]
  simp only [members, List.flatMap_singleton]

/-- Of fields with different keys each is found under its own. -/
theorem lookup_members (hkeys : (fields.map (·.1)).Nodup) {v : Option Json} (h : (key, v) ∈ fields) :
    (members fields).lookup key = v := by
  have habsent : ∀ {fields : List (String × Option Json)}, key ∉ fields.map (·.1) → (members fields).lookup key = none := by
    intro fields hkey
    refine List.lookup_eq_none_iff.mpr fun m hm => ?_
    obtain ⟨field, hfield, hm⟩ := List.mem_flatMap.mp hm
    obtain ⟨w, -, rfl⟩ := List.mem_map.mp hm
    refine bne_iff_ne.mpr ?_
    rintro rfl
    exact hkey (List.mem_map_of_mem hfield)
  induction fields with
  | nil => cases h
  | cons field fields ih =>
    obtain ⟨hfield, hkeys⟩ := List.nodup_cons.mp hkeys
    rw [show field :: fields = [field] ++ fields from rfl, members_append, List.lookup_append]
    rcases List.mem_cons.mp h with rfl | h
    · rw [habsent hfield, Option.or_none]
      cases v with
      | none => rfl
      | some w => exact List.lookup_cons_self
    · have hne : key ∉ [field].map (·.1) := by
        rw [List.map_singleton, List.mem_singleton]
        rintro rfl
        exact hfield (List.mem_map.mpr ⟨_, h, rfl⟩)
      rw [habsent hne, Option.none_or, ih hkeys h]

theorem required?_members {read : Json → Option α} (hkeys : (fields.map (·.1)).Nodup) {v : Json} {a : α} (hread : read v = some a)
    (h : (key, some v) ∈ fields) : (obj (members fields)).required? key read = some a := by
  rw [required?, get?, lookup_members hkeys h]
  exact hread

theorem field?_members {read : Json → Option α} (toJson : α → Json) (hread : ∀ a, read (toJson a) = some a)
    (hkeys : (fields.map (·.1)).Nodup) {v : Option α} (h : (key, v.map toJson) ∈ fields) :
    (obj (members fields)).field? key read = some v := by
  rw [field?, get?, lookup_members hkeys h]
  cases v with
  | none => rfl
  | some a => exact congrArg (Option.map some) (hread a)

end Fields
end Json

/-! ### Records -/

namespace Metadata

open Json

/-- The record without its false flags. -/
def shown (r : Metadata) : Metadata :=
  { r with
    cutNegative := r.cutNegative.filter fun b => b
    door := r.door.filter fun b => b
    noLighting := r.noLighting.filter fun b => b }

def fields (r : Metadata) : List (String × Option Json) :=
  [("id", some (nat r.id)), ("cut_offset", r.cutOffset.map int), ("cut_negative", (r.cutNegative.filter fun b => b).map bool),
    ("cut_sprite", r.cutSprite.map nat), ("door", (r.door.filter fun b => b).map bool), ("mov", r.mov.map int),
    ("yadd", r.yadd.map nat), ("layer", r.layer.map int), ("offset_x", r.offsetX.map int), ("offset_y", r.offsetY.map int),
    ("no_lighting", (r.noLighting.filter fun b => b).map bool)]

theorem nodup_keys (r : Metadata) : (r.fields.map (·.1)).Nodup := by
  show ["id", "cut_offset", "cut_negative", "cut_sprite", "door", "mov", "yadd", "layer", "offset_x", "offset_y", "no_lighting"].Nodup
  decide

theorem toJson_eq (r : Metadata) : r.toJson = obj (members r.fields) := by
  have hid : [("id", nat r.id)] = members [("id", some (nat r.id))] := rfl
  simp only [toJson, hid, member?_eq, flag?_eq, ← members_append]
  rfl

def ofJson? (j : Json) : Option Metadata := do
  let id ← j.required? "id" asNat?
  let cutOffset ← j.field? "cut_offset" asInt?
  let cutNegative ← j.field? "cut_negative" asBool?
  let cutSprite ← j.field? "cut_sprite" asNat?
  let door ← j.field? "door" asBool?
  let mov ← j.field? "mov" asInt?
  let yadd ← j.field? "yadd" asNat?
  let layer ← j.field? "layer" asInt?
  let offsetX ← j.field? "offset_x" asInt?
  let offsetY ← j.field? "offset_y" asInt?
  let noLighting ← j.field? "no_lighting" asBool?
  some ⟨id, cutOffset, cutNegative, cutSprite, door, mov, yadd, layer, offsetX, offsetY, noLighting⟩

theorem ofJson?_toJson (r : Metadata) : ofJson? r.toJson = some r.shown := by
  have hnat : ∀ {key : String} {v : Option Nat}, (key, v.map nat) ∈ r.fields → (obj (members r.fields)).field? key asNat? = some v :=
    field?_members nat (fun _ => rfl) r.nodup_keys
  have hint : ∀ {key : String} {v : Option Int}, (key, v.map int) ∈ r.fields → (obj (members r.fields)).field? key asInt? = some v :=
    field?_members int (fun _ => rfl) r.nodup_keys
  have hbool : ∀ {key : String} {v : Option Bool}, (key, v.map bool) ∈ r.fields →
      (obj (members r.fields)).field? key asBool? = some v :=
    field?_members bool (fun _ => rfl) r.nodup_keys
  have hid : (obj (members r.fields)).required? "id" asNat? = some r.id :=
    required?_members r.nodup_keys (v := nat r.id) rfl (by simp [fields])
  rw [toJson_eq, ofJson?, hid, @hint _ r.cutOffset (by simp [fields]), @hbool _ (r.cutNegative.filter fun b => b) (by simp [fields]),
    @hnat _ r.cutSprite (by simp [fields]), @hbool _ (r.door.filter fun b => b) (by simp [fields]), @hint _ r.mov (by simp [fields]),
    @hnat _ r.yadd (by simp [fields]), @hint _ r.layer (by simp [fields]), @hint _ r.offsetX (by simp [fields]),
    @hint _ r.offsetY (by simp [fields]), @hbool _ (r.noLighting.filter fun b => b) (by simp [fields])]
  rfl

theorem toJson_shown (r : Metadata) : r.shown.toJson = r.toJson := by
  rw [toJson_eq, toJson_eq]
  simp [fields, shown]

end Metadata

namespace Animation

open Json

def ofJson? (j : Json) : Option Animation := do
  let type ← j.required? "type" asString?
  if type = "pulse" then
    let period ← j.required? "period" asNat?
    let affects ← j.required? "affects" asString?
    let base ← j.field? "base" asInt?
    let amplitude ← j.field? "amplitude" asInt?
    some (pulse period affects base amplitude)
  else
    let frames ← j.required? "frames" asNat?
    let divisor ← j.required? "divisor" asNat?
    if type = "cycle" then some (cycle frames divisor)
    else if type = "position_cycle" then some (positionCycle frames divisor)
    else none

theorem ofJson?_toJson (a : Animation) : ofJson? a.toJson = some a := by
  cases a with
  | cycle frames divisor | positionCycle frames divisor => rfl
  | pulse period affects base amplitude => cases base <;> cases amplitude <;> rfl

end Animation

namespace ColorPulse

open Json

def ofJson? (j : Json) : Option ColorPulse := do
  let target ← (← j.required? "target" asString?) |> ColorSlot.ofName?
  let r ← j.required? "r" asNat?
  let g ← j.required? "g" asNat?
  let maxBlue ← j.required? "max_blue" asNat?
  let period ← j.required? "period" asNat?
  let divisor ← j.required? "divisor" asNat?
  let offset ← j.required? "offset" asNat?
  some ⟨target, r, g, maxBlue, period, divisor, offset⟩

theorem ofJson?_toJson (p : ColorPulse) : ofJson? p.toJson = some p := by
  rcases p with ⟨target, r, g, maxBlue, period, divisor, offset⟩
  cases target <;> rfl

end ColorPulse

namespace LightPulse

open Json

def ofJson? (j : Json) : Option LightPulse := do
  let max ← j.required? "max" asNat?
  let period ← j.required? "period" asNat?
  let divisor ← j.required? "divisor" asNat?
  let offset ← j.required? "offset" asNat?
  some ⟨max, period, divisor, offset⟩

theorem ofJson?_toJson (p : LightPulse) : ofJson? p.toJson = some p := rfl

end LightPulse

namespace Variant

open Json

/-- The record without the text to review. -/
def shown (r : Variant) : Variant := { r with needsReview := none }

def fields (r : Variant) : List (String × Option Json) :=
  [("id", some (nat r.id)), ("base_sprite", r.baseSprite.map int)] ++
    Channel.all.map (fun c => (c.field, (r.channels.get c).map int)) ++
    ColorSlot.all.map (fun slot => (slot.name, (r.colors.get slot).map nat)) ++
    [("animation", r.animation.map Animation.toJson), ("color_pulse", r.colorPulse.map ColorPulse.toJson),
      ("light_pulse", r.lightPulse.map LightPulse.toJson), ("comment", r.comment.map str)]

theorem nodup_keys (r : Variant) : (r.fields.map (·.1)).Nodup := by
  show ["id", "base_sprite", "scale", "cr", "cg", "cb", "light", "saturation", "shine", "c1", "c2", "c3", "animation", "color_pulse",
    "light_pulse", "comment"].Nodup
  decide

theorem toJson_eq (r : Variant) : r.toJson = obj (members r.fields) := by
  have hid : [("id", nat r.id)] = members [("id", some (nat r.id))] := rfl
  simp only [toJson, hid, member?_eq, flatMap_members, ← members_append]
  rw [fields]
  simp only [List.append_assoc, List.cons_append, List.nil_append]

def ofJson? (j : Json) : Option Variant := do
  let id ← j.required? "id" asNat?
  let baseSprite ← j.field? "base_sprite" asInt?
  let scale ← j.field? "scale" asInt?
  let cr ← j.field? "cr" asInt?
  let cg ← j.field? "cg" asInt?
  let cb ← j.field? "cb" asInt?
  let light ← j.field? "light" asInt?
  let saturation ← j.field? "saturation" asInt?
  let shine ← j.field? "shine" asInt?
  let c1 ← j.field? "c1" asNat?
  let c2 ← j.field? "c2" asNat?
  let c3 ← j.field? "c3" asNat?
  let animation ← j.field? "animation" Animation.ofJson?
  let colorPulse ← j.field? "color_pulse" ColorPulse.ofJson?
  let lightPulse ← j.field? "light_pulse" LightPulse.ofJson?
  let comment ← j.field? "comment" asString?
  some ⟨id, baseSprite, ⟨scale, cr, cg, cb, light, saturation, shine⟩, ⟨c1, c2, c3⟩, animation, colorPulse, lightPulse, comment, none⟩

theorem ofJson?_toJson (r : Variant) : ofJson? r.toJson = some r.shown := by
  have hid : (obj (members r.fields)).required? "id" asNat? = some r.id :=
    required?_members r.nodup_keys (v := nat r.id) rfl (by simp [fields])
  have hbase : (obj (members r.fields)).field? "base_sprite" asInt? = some r.baseSprite :=
    field?_members int (fun _ => rfl) r.nodup_keys (by simp [fields])
  have hchannel : ∀ c key, key = c.field → (obj (members r.fields)).field? key asInt? = some (r.channels.get c) := by
    rintro c key rfl
    exact field?_members int (fun _ => rfl) r.nodup_keys (by cases c <;> simp [fields, Channel.all])
  have hcolor : ∀ slot key, key = slot.name → (obj (members r.fields)).field? key asNat? = some (r.colors.get slot) := by
    rintro slot key rfl
    exact field?_members nat (fun _ => rfl) r.nodup_keys (by cases slot <;> simp [fields, ColorSlot.all])
  have hanimation : (obj (members r.fields)).field? "animation" Animation.ofJson? = some r.animation :=
    field?_members Animation.toJson Animation.ofJson?_toJson r.nodup_keys (by simp [fields])
  have hcolorPulse : (obj (members r.fields)).field? "color_pulse" ColorPulse.ofJson? = some r.colorPulse :=
    field?_members ColorPulse.toJson ColorPulse.ofJson?_toJson r.nodup_keys (by simp [fields])
  have hlightPulse : (obj (members r.fields)).field? "light_pulse" LightPulse.ofJson? = some r.lightPulse :=
    field?_members LightPulse.toJson LightPulse.ofJson?_toJson r.nodup_keys (by simp [fields])
  have hcomment : (obj (members r.fields)).field? "comment" asString? = some r.comment :=
    field?_members str (fun _ => rfl) r.nodup_keys (by simp [fields])
  rw [toJson_eq, ofJson?, hid, hbase, hchannel .scale "scale" rfl, hchannel .cr "cr" rfl, hchannel .cg "cg" rfl,
    hchannel .cb "cb" rfl, hchannel .light "light" rfl, hchannel .saturation "saturation" rfl, hchannel .shine "shine" rfl,
    hcolor .c1 "c1" rfl, hcolor .c2 "c2" rfl, hcolor .c3 "c3" rfl, hanimation, hcolorPulse, hlightPulse, hcomment]
  rfl

theorem toJson_shown (r : Variant) : r.shown.toJson = r.toJson := rfl

end Variant

/-! ### Documents -/

/-- What a document says of its records: all but the text to review and the flags that are false. -/
def Records.shown : Records → Records
  | metadata rs => .metadata (rs.map (·.shown))
  | variants rs => .variants (rs.map (·.shown))

theorem mapM_toJson {ρ : Type} {toJson : ρ → Json} {ofJson? : Json → Option ρ} {shown : ρ → ρ}
    (h : ∀ r, ofJson? (toJson r) = some (shown r)) (rs : List ρ) : (rs.map toJson).mapM ofJson? = some (rs.map shown) := by
  induction rs with
  | nil => rfl
  | cons r rs ih =>
    rw [List.map_cons, List.mapM_cons, h, ih]
    rfl

/-- The records that the items of a document of a kind decode to. -/
def DocumentKind.decode? (kind : DocumentKind) (items : List Json) : Option Records :=
  match kind with
  | metadata => (items.mapM Metadata.ofJson?).map .metadata
  | character | animated => (items.mapM Variant.ofJson?).map .variants

namespace Document
variable {d : Document}

/-- The records are of the type that documents of the kind list. -/
def Typed (d : Document) : Prop :=
  match d.kind, d.records with
  | .metadata, .metadata _ | .character, .variants _ | .animated, .variants _ => True
  | _, _ => False

/-- Whatever is extracted is typed. -/
theorem typed_extract (source : Source) (settings : Settings) (kind : DocumentKind) : (extract source settings kind).Typed := by
  cases kind <;> trivial

theorem decode?_recordsJson (h : d.Typed) : d.kind.decode? d.recordsJson = some d.records.shown := by
  obtain ⟨kind, phases, records⟩ := d
  cases kind <;> cases records <;> try exact h.elim
  · exact congrArg (Option.map Records.metadata) (mapM_toJson Metadata.ofJson?_toJson _)
  · exact congrArg (Option.map Records.variants) (mapM_toJson Variant.ofJson?_toJson _)
  · exact congrArg (Option.map Records.variants) (mapM_toJson Variant.ofJson?_toJson _)

theorem recordsJson_of_shown {e : Document} (h : e.records.shown = d.records.shown) : e.recordsJson = d.recordsJson := by
  have hshown : ∀ d : Document, d.recordsJson =
      match d.records.shown with
      | .metadata rs => rs.map Metadata.toJson
      | .variants rs => rs.map Variant.toJson := by
    rintro ⟨kind, phases, rs | rs⟩
    · show rs.map Metadata.toJson = (rs.map (·.shown)).map Metadata.toJson
      rw [List.map_map]
      exact List.map_congr_left fun r _ => r.toJson_shown.symm
    · show rs.map Variant.toJson = (rs.map (·.shown)).map Variant.toJson
      rw [List.map_map]
      exact List.map_congr_left fun r _ => r.toJson_shown.symm
  rw [hshown e, hshown d, h]

theorem toList_render (d : Document) : d.render.toList = d.toJson.print 0 ++ ['\n'] := String.toList_ofList

/-- Documents of a kind with the same text list the same items. -/
theorem recordsJson_of_render {e : Document} (h : e.render = d.render) : e.recordsJson = d.recordsJson := by
  have htext := congrArg String.toList h
  rw [toList_render, toList_render] at htext
  have hparse := congrArg Json.parse? (List.append_cancel_right htext)
  rw [Json.parse?_print, Json.parse?_print] at hparse
  have hmembers := Json.obj.inj (Option.some.inj hparse)
  exact Json.arr.inj (Prod.mk.inj (List.cons.inj (List.cons.inj hmembers).2).1).2

/-- The text of a document is one object and a newline. The object has the version of the format and the records under the
    key of the document, and each item decodes to what its record shows. Documents of a kind have the same text
    exactly if their records show the same. -/
theorem render_decodes (h : d.Typed) :
    ∃ text items, d.render.toList = text ++ ['\n'] ∧ text.head? = some '\x7b' ∧ text.getLast? = some '\x7d' ∧
      Json.parse? text = some (.obj [("version", .nat 1), (d.kind.key, .arr items)]) ∧
      d.kind.decode? items = some d.records.shown ∧
      ∀ e : Document, e.Typed → e.kind = d.kind → (e.render = d.render ↔ e.records.shown = d.records.shown) := by
  refine ⟨d.toJson.print 0, d.recordsJson, d.toList_render, rfl, Json.getLast?_print_obj _ _, Json.parse?_print _ _,
    decode?_recordsJson h, fun e he hkind => ⟨fun hrender => ?_, fun hshown => ?_⟩⟩
  · have hdecode := decode?_recordsJson he
    rw [recordsJson_of_render hrender, hkind, decode?_recordsJson h] at hdecode
    exact (Option.some.inj hdecode).symm
  · rw [render, render, toJson, toJson, recordsJson_of_shown hshown, hkind]

/-- A comment with a quote, a backslash, control characters and a letter beyond them, and a text to review that is not shown. -/
theorem render_decodes_escaped :
    let r : Variant := { id := 7, comment := some "a \"b\" \\ \n\x01é" }
    let d : Document := ⟨.character, [], .variants [{ r with needsReview := some "cr = foo;" }]⟩
    let e : Document := ⟨.character, [], .variants [r]⟩
    d.Typed ∧ e.render = d.render ∧ ∃ text items, d.render.toList = text ++ ['\n'] ∧
      Json.parse? text = some (.obj [("version", .nat 1), ("character_variants", .arr items)]) ∧
      (items.mapM Variant.ofJson?).map Records.variants = some (.variants [r]) := by
  intro r d e
  obtain ⟨text, items, htext, -, -, hparse, hdecode, hequal⟩ := render_decodes (d := d) trivial
  exact ⟨trivial, (hequal e trivial rfl).mpr rfl, text, items, htext, hparse, hdecode⟩

end Document
end SpriteFacts
