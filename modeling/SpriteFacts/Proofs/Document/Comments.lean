import SpriteFacts.Document.Basic
import SpriteFacts.Proofs.Switch.FunctionPlace

/-! What the comments of a source do to its records. Every pass reads the code of its function with the comments blanked
    out, and the text of a comment only reaches the field of that name. But the function is looked for in the
    source as it is written, so a comment that moves it changes the records, and no other comment does. -/

namespace SpriteFacts

open SpriteRecord Switch Pattern

/-! ### Records under a map -/

section Map
variable {ρ : Type} [SpriteRecord ρ]

/-- A map of records that goes along with everything a roster looks at. -/
structure Natural (f : ρ → ρ) : Prop where
  number : ∀ r, number (f r) = number r
  overlay : ∀ r s, overlay (f r) (f s) = f (overlay r s)
  isEmpty : ∀ r, isEmpty (f r) = isEmpty r

variable {f : ρ → ρ}

theorem Natural.map_place (h : Natural f) (r : ρ) (xs : List ρ) : (place r xs).map f = place (f r) (xs.map f) := by
  induction xs with
  | nil => rfl
  | cons x xs ih =>
    rw [List.map_cons, place, place, h.number, h.number, h.overlay]
    split
    · rfl
    · split
      · rfl
      · rw [List.map_cons, ih]

theorem Natural.map_addAll (h : Natural f) {t u : Roster ρ} (htu : t.records.map f = u.records) (rs : List ρ) :
    (t.addAll rs).records.map f = (u.addAll (rs.map f)).records := by
  induction rs generalizing t u with
  | nil => exact htu
  | cons r rs ih =>
    refine ih (t := t.add r) (u := u.add (f r)) ?_
    rw [Roster.add, h.map_place, htu]
    rfl

theorem Natural.map_finish (h : Natural f) (rs : List ρ) :
    (Roster.empty.addAll rs).finish.map f = (Roster.empty.addAll (rs.map f)).finish := by
  have hmap := h.map_addAll (t := Roster.empty) (u := Roster.empty) rfl rs
  rw [Roster.finish, Roster.finish, ← hmap, List.filter_map]
  simp [Function.comp_def, h.isEmpty]

end Map

/-- The record without its comment. -/
def Variant.uncommented (r : Variant) : Variant := { r with comment := none }

theorem Variant.natural_uncommented : Natural Variant.uncommented where
  number _ := rfl
  overlay _ _ := rfl
  isEmpty _ := rfl

/-- The records without their comments; the metadata of a sprite has none. -/
def Records.uncommented : Records → Records
  | metadata rs => metadata rs
  | variants rs => variants (rs.map Variant.uncommented)

/-! ### Records of the code -/

theorem map_code_find? (source : Source) (function : String) : (Located.find? source function).map Located.code =
    (FunctionBody.find? source.text function).map fun b => withoutComments b.text := by
  rw [Located.find?, Option.map_map]
  rfl

theorem fst_readLocated {settings : Settings} {pass : Pass} {l l' : Located} (h : l.code = l'.code) :
    (Metadata.readLocated settings pass l).1 = (Metadata.readLocated settings pass l').1 := by
  cases pass <;> simp [Metadata.readLocated, Metadata.presence, Metadata.readGroups, h]

variable {source source' : Source} {settings : Settings}

/-- The records of a metadata pass depend on the code of its function alone. -/
theorem fst_runPass {pass : Pass} (h : (Located.find? source (settings.functionFor pass)).map Located.code =
    (Located.find? source' (settings.functionFor pass)).map Located.code) :
    (Metadata.runPass source settings pass).1 = (Metadata.runPass source' settings pass).1 := by
  unfold Metadata.runPass
  cases hl : Located.find? source (settings.functionFor pass) with
  | none =>
    rw [hl, Option.map_none, eq_comm, Option.map_eq_none_iff] at h
    simp only [hl, h]
  | some l =>
    rw [hl, Option.map_some, eq_comm] at h
    obtain ⟨l', hl', hcode⟩ := Option.map_eq_some_iff.mp h
    simp only [hl, hl']
    exact fst_readLocated hcode.symm

theorem uncommented_records (p : VariantPass) (g : CaseGroup) (comment comment' : Option String) :
    (p.records g comment).map Variant.uncommented = (p.records g comment').map Variant.uncommented := by
  rw [VariantPass.records, VariantPass.records, List.map_map, List.map_map]
  rfl

/-- The records of a variant pass depend on the code of its function alone, but for their comments. -/
theorem uncommented_run {p : VariantPass} (h : (Located.find? source (settings.functionFor p.pass)).map Located.code =
    (Located.find? source' (settings.functionFor p.pass)).map Located.code) :
    (p.run source settings).1.map Variant.uncommented = (p.run source' settings).1.map Variant.uncommented := by
  unfold VariantPass.run
  cases hl : Located.find? source (settings.functionFor p.pass) with
  | none =>
    rw [hl, Option.map_none, eq_comm, Option.map_eq_none_iff] at h
    simp only [hl, h]
  | some l =>
    rw [hl, Option.map_some, eq_comm] at h
    obtain ⟨l', hl', hcode⟩ := Option.map_eq_some_iff.mp h
    simp only [hl, hl', Variant.natural_uncommented.map_finish, List.map_flatMap, List.flatMap_map, hcode]
    have hgroup : (fun g => (p.groupRecords l.body.text l.code g).map Variant.uncommented) =
        fun g => (p.groupRecords l'.body.text l.code g).map Variant.uncommented :=
      funext fun g => uncommented_records p g _ _
    rw [hgroup]

/-! ### The records of a source without comments -/

/-- The source with its comments blanked out. -/
def Source.blanked (s : Source) : Source := { s with text := withoutComments s.text }

/-- Comments that leave the functions in their place reach no record but by its comment. -/
theorem uncommented_extract_blanked {kind : DocumentKind}
    (h : ∀ pass ∈ kind.passes, Unmoved source.text (settings.functionFor pass)) :
    (Document.extract source.blanked settings kind).records.uncommented =
      (Document.extract source settings kind).records.uncommented := by
  have hcode : ∀ pass ∈ kind.passes, (Located.find? source.blanked (settings.functionFor pass)).map Located.code =
      (Located.find? source (settings.functionFor pass)).map Located.code := by
    intro pass hpass
    rw [map_code_find?, map_code_find?]
    exact (h pass hpass).code_eq
  cases kind with
  | metadata =>
    have hrecords : (DocumentKind.metadata.passes.map (Metadata.runPass source.blanked settings)).flatMap (·.1) =
        (DocumentKind.metadata.passes.map (Metadata.runPass source settings)).flatMap (·.1) := by
      rw [List.flatMap_def, List.flatMap_def, List.map_map, List.map_map]
      exact congrArg List.flatten (List.map_congr_left fun pass hpass => fst_runPass (hcode pass hpass))
    rw [Document.extract, Document.ofMetadata, Document.extract, Document.ofMetadata]
    exact congrArg (fun rs => Records.metadata (Roster.empty.addAll rs).finish) hrecords
  | character => exact congrArg Records.variants (uncommented_run (p := .character) (hcode .character (List.mem_singleton_self _)))
  | animated => exact congrArg Records.variants (uncommented_run (p := .animated) (hcode .animated (List.mem_singleton_self _)))

/-- A switch with a comment in front, one on a case and one that hides a case. -/
def commentedSwitch : Source := .ofString "sprites.c" <|
  "// int x() shows\nint _trans_asprite(int sprite)\n\x7b\nswitch (sprite) \x7b\ncase 1: // bright\nscale = 5;\n" ++
  "/* case 2: */ light = 4; break; // dim\ncase 3: cr = 7 /* red */; break;\n\x7d\n\x7d\n"

theorem uncommented_extract_blanked_switch :
    (∀ pass ∈ DocumentKind.animated.passes, Unmoved commentedSwitch.text (({} : Settings).functionFor pass)) ∧
      (Document.extract commentedSwitch.blanked {} .animated).records.uncommented =
        (Document.extract commentedSwitch {} .animated).records.uncommented := by
  have hplace : Unmoved commentedSwitch.text "_trans_asprite" := unmoved_of_headStop? (by decide +kernel) (by decide +kernel)
  have hunmoved : ∀ pass ∈ DocumentKind.animated.passes,
      Unmoved commentedSwitch.text (({} : Settings).functionFor pass) := by
    intro pass hpass
    obtain rfl := List.mem_singleton.mp hpass
    exact hplace
  exact ⟨hunmoved, uncommented_extract_blanked hunmoved⟩

/-- A function in a comment hides the function behind it, and its door is a record. -/
theorem comment_hides_function :
    let source := Source.ofString "sprites.c" <|
      "// int _is_door_sprite(int sprite) \x7b switch (sprite) \x7b case 5: return 1; \x7d return 0; \x7d\n" ++
      "int _is_door_sprite(int sprite)\n\x7b\nswitch (sprite) \x7b\ncase 7:\nreturn 1;\n\x7d\n\x7d\n"
    (Document.extract source {} .metadata).records.uncommented = .metadata [{ id := 5, door := some true }] ∧
      (Document.extract source.blanked {} .metadata).records.uncommented = .metadata [{ id := 7, door := some true }] := by
  decide +kernel

end SpriteFacts
