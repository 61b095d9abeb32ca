import SpriteFacts.Metadata.Record
import SpriteFacts.Proofs.Record.Contributions
import SpriteFacts.Variant.Record

/-! The last contribution wins, field by field. Whatever the order in which records were given to a roster,
    and whether they came one by one or in batches, its record of a number states for each field what the
    last contribution that states the field says. The three fields of a cut move as one: they are those of
    the last contribution with a cut, or of the first one if none has a cut. -/

namespace SpriteFacts

open SpriteRecord

/-! ### Calls -/

/-- A call on a roster: one record or a batch of them. -/
inductive Call (ρ : Type) where
  | add (record : ρ)
  | addAll (records : List ρ)

namespace Call
variable {ρ : Type} [SpriteRecord ρ]

def records : Call ρ → List ρ
  | add r => [r]
  | addAll rs => rs

def apply (t : Roster ρ) : Call ρ → Roster ρ
  | add r => t.add r
  | addAll rs => t.addAll rs

def run (calls : List (Call ρ)) : Roster ρ := calls.foldl apply Roster.empty

/-- Everything that calls contribute, in order. -/
def history (calls : List (Call ρ)) : List ρ := calls.flatMap records

theorem foldl_apply (calls : List (Call ρ)) (t : Roster ρ) : calls.foldl apply t = t.addAll (history calls) := by
  induction calls generalizing t with
  | nil => rfl
  | cons call calls ih =>
    have hcall : apply t call = t.addAll call.records := by cases call <;> rfl
    rw [List.foldl_cons, ih, hcall]
    show _ = t.addAll (call.records ++ history calls)
    rw [Roster.addAll, Roster.addAll, Roster.addAll, List.foldl_append]

theorem run_eq (calls : List (Call ρ)) : run calls = Roster.empty.addAll (history calls) := foldl_apply calls _

end Call

/-! ### What a field says after any history -/

/-- What the last of the records that state a field says. -/
def lastStated {ρ α : Type} (field : ρ → Option α) (rs : List ρ) : Option α := rs.reverse.findSome? field

theorem lastStated_cons {ρ α : Type} (field : ρ → Option α) (r : ρ) (rs : List ρ) :
    lastStated field (r :: rs) = (lastStated field rs).or (field r) := by
  unfold lastStated
  rw [List.reverse_cons, List.findSome?_append]
  cases h : field r <;> simp [h]

section Fold
variable {ρ α : Type} [SpriteRecord ρ]

/-- A field that the later of two records decides is decided by the last of many. -/
theorem field_foldl_overlay (field : ρ → Option α) (h : ∀ a b : ρ, field (overlay a b) = (field b).or (field a))
    (rs : List ρ) (r : ρ) : field (rs.foldl overlay r) = lastStated field (r :: rs) := by
  induction rs generalizing r with
  | nil => simp [lastStated]
  | cons s rs ih => rw [List.foldl_cons, ih, lastStated_cons, lastStated_cons, lastStated_cons, h, Option.or_assoc]

/-- Records laid over each other state something if one of them does. -/
theorem states_foldl_overlay {states : ρ → Prop} (h : ∀ a b : ρ, states (overlay a b) ↔ states a ∨ states b)
    (rs : List ρ) (r : ρ) : states (rs.foldl overlay r) ↔ ∃ x ∈ r :: rs, states x := by
  induction rs generalizing r with
  | nil => simp
  | cons s rs ih =>
    rw [List.foldl_cons, ih]
    simp only [List.mem_cons, exists_eq_or_imp, h, or_assoc]

end Fold

/-- The finished records of a history: they ascend, a number is there if a contribution of it states
    something, and its record is made of what its contributions state last. -/
structure LastWins {ρ : Type} [SpriteRecord ρ] (lastOf : Nat → List ρ → ρ) (states : ρ → Prop)
    (history result : List ρ) : Prop where
  ascending : Ascending result
  present : ∀ id, (∃ r ∈ result, number r = id) ↔ ∃ r ∈ history, number r = id ∧ states r
  fields : ∀ r ∈ result, r = lastOf (number r) (contributions (number r) history)

theorem lastWins_of_fold {ρ : Type} [SpriteRecord ρ] {lastOf : Nat → List ρ → ρ} {states : ρ → Prop}
    (hempty : ∀ r : ρ, isEmpty r = false ↔ states r)
    (hstates : ∀ a b : ρ, states (overlay a b) ↔ states a ∨ states b)
    (hfold : ∀ (r : ρ) (rs : List ρ), rs.foldl overlay r = lastOf (number r) (r :: rs)) (history : List ρ) :
    LastWins lastOf states history ((Roster.empty : Roster ρ).addAll history).finish where
  ascending := Roster.ascending_finish _
  present := fun id => by
    constructor
    · rintro ⟨r, hr, rfl⟩
      obtain ⟨hcomb, hne⟩ := (Roster.mem_finish_addAll history r).mp hr
      cases hown : contributions (number r) history with
      | nil =>
        rw [hown] at hcomb
        cases hcomb
      | cons s ss =>
        rw [hown] at hcomb
        obtain rfl : ss.foldl overlay s = r := Option.some.inj hcomb
        obtain ⟨x, hx, hst⟩ := (states_foldl_overlay hstates ss s).mp ((hempty _).mp hne)
        have hmem := hown ▸ hx
        exact ⟨x, (List.mem_filter.mp hmem).1, number_of_mem_contributions hmem, hst⟩
    · rintro ⟨x, hx, rfl, hst⟩
      have hmem : x ∈ contributions (number x) history := List.mem_filter.mpr ⟨hx, by simp⟩
      cases hown : contributions (number x) history with
      | nil =>
        rw [hown] at hmem
        cases hmem
      | cons s ss =>
        -- Overlaying keeps the number of the first contribution and every fact of the later ones.
        have hs : number s = number x := number_of_mem_contributions (hown ▸ List.mem_cons_self)
        have hnum : number (ss.foldl overlay s) = number x := (number_foldl_overlay ss s).trans hs
        have hst' : states (ss.foldl overlay s) := (states_foldl_overlay hstates ss s).mpr ⟨x, hown ▸ hmem, hst⟩
        refine ⟨_, (Roster.mem_finish_addAll history _).mpr ⟨?_, (hempty _).mpr hst'⟩, hnum⟩
        rw [hnum, hown]
        rfl
  fields := fun r hr => by
    obtain ⟨hcomb, -⟩ := (Roster.mem_finish_addAll history r).mp hr
    cases hown : contributions (number r) history with
    | nil =>
      rw [hown] at hcomb
      cases hcomb
    | cons s ss =>
      rw [hown] at hcomb
      have hs : number s = number r := number_of_mem_contributions (hown ▸ List.mem_cons_self)
      rw [← hs, ← hfold]
      exact (Option.some.inj hcomb).symm

/-! ### Metadata -/

namespace Metadata

/-- The record states a field other than the sign of a cut. -/
def States (r : Metadata) : Prop :=
  r.cutOffset ≠ none ∨ r.cutSprite ≠ none ∨ r.door ≠ none ∨ r.mov ≠ none ∨ r.yadd ≠ none ∨ r.layer ≠ none ∨
    r.offsetX ≠ none ∨ r.offsetY ≠ none ∨ r.noLighting ≠ none

/-- The last contribution with a cut, or the first one if none has a cut. -/
def cutSource (own : List Metadata) : Option Metadata := (own.reverse.find? hasCut).or own.head?

/-- The record that the contributions of a number make: every field as it was stated last, and the three
    fields of the cut from one contribution. -/
def lastOf (id : Nat) (own : List Metadata) : Metadata where
  id := id
  cutOffset := (cutSource own).bind (·.cutOffset)
  cutNegative := (cutSource own).bind (·.cutNegative)
  cutSprite := (cutSource own).bind (·.cutSprite)
  door := lastStated (·.door) own
  mov := lastStated (·.mov) own
  yadd := lastStated (·.yadd) own
  layer := lastStated (·.layer) own
  offsetX := lastStated (·.offsetX) own
  offsetY := lastStated (·.offsetY) own
  noLighting := lastStated (·.noLighting) own

theorem isEmpty_eq_false (r : Metadata) : isEmpty r = false ↔ r.States := by
  simp only [isEmpty, hasCut, hasOffset, States, Bool.and_eq_false_iff, Bool.not_eq_false', Bool.or_eq_true,
    Option.isSome_iff_ne_none, Option.isNone_eq_false_iff, or_assoc]

theorem hasCut_overlay (a b : Metadata) : (overlay a b).hasCut = (a.hasCut || b.hasCut) := by
  show ((if b.hasCut then b.cutOffset else a.cutOffset).isSome ||
    (if b.hasCut then b.cutSprite else a.cutSprite).isSome) = _
  cases hb : b.hasCut with
  | true => simpa [hasCut] using hb
  | false => simp [hasCut]

theorem states_overlay (a b : Metadata) : (overlay a b).States ↔ a.States ∨ b.States := by
  have hstates : ∀ r : Metadata, r.States ↔ r.hasCut = true ∨ r.door ≠ none ∨ r.mov ≠ none ∨ r.yadd ≠ none ∨
      r.layer ≠ none ∨ r.offsetX ≠ none ∨ r.offsetY ≠ none ∨ r.noLighting ≠ none := fun r => by
    simp [States, hasCut, Option.isSome_iff_ne_none, or_assoc]
  rw [hstates, hstates, hstates, hasCut_overlay]
  simp only [overlay, ne_eq, Option.or_eq_none_iff]
  grind

theorem cutSource_cons (r : Metadata) (rs : List Metadata) :
    cutSource (r :: rs) = some ((rs.reverse.find? hasCut).getD r) := by
  unfold cutSource
  rw [List.reverse_cons, List.find?_append, List.head?_cons]
  cases rs.reverse.find? hasCut <;> by_cases h : r.hasCut = true <;> simp [h]

theorem mem_of_cutSource {own : List Metadata} {s : Metadata} (h : cutSource own = some s) : s ∈ own := by
  rcases Option.or_eq_some_iff.mp h with h | ⟨-, h⟩
  · exact List.mem_reverse.mp (List.mem_of_find?_eq_some h)
  · exact List.mem_of_head? h

theorem cutSource_of_mem {own : List Metadata} {r : Metadata} (hr : r ∈ own) (hcut : r.hasCut = true) :
    ∃ s ∈ own, s.hasCut = true ∧ cutSource own = some s := by
  obtain ⟨s, hs⟩ := Option.isSome_iff_exists.mp (List.find?_isSome.mpr ⟨r, List.mem_reverse.mpr hr, hcut⟩)
  exact ⟨s, List.mem_reverse.mp (List.mem_of_find?_eq_some hs), List.find?_some hs, by rw [cutSource, hs]; rfl⟩

/-- A part of the cut that comes from the later record with a cut comes from the last one of many. -/
theorem cut_foldl_overlay {α : Type} {part : Metadata → α}
    (h : ∀ a b : Metadata, part (overlay a b) = if b.hasCut then part b else part a) (rs : List Metadata) (r : Metadata) :
    part (rs.foldl overlay r) = part ((rs.reverse.find? hasCut).getD r) := by
  induction rs generalizing r with
  | nil => rfl
  | cons s rs ih =>
    rw [List.foldl_cons, ih, List.reverse_cons, List.find?_append]
    cases rs.reverse.find? hasCut with
    | some x => rfl
    | none =>
      rw [Option.getD_none, h, Option.none_or]
      by_cases hs : s.hasCut = true <;> simp [hs]

theorem foldl_overlay_eq (r : Metadata) (rs : List Metadata) :
    rs.foldl SpriteRecord.overlay r = lastOf r.id (r :: rs) := by
  have hfield : ∀ {α : Type} {field : Metadata → Option α},
      (∀ a b : Metadata, field (overlay a b) = (field b).or (field a)) →
      field (rs.foldl overlay r) = lastStated field (r :: rs) := fun h => field_foldl_overlay _ h rs r
  have hcut : ∀ {α : Type} {part : Metadata → Option α},
      (∀ a b : Metadata, part (overlay a b) = if b.hasCut then part b else part a) →
      part (rs.foldl overlay r) = (cutSource (r :: rs)).bind part := fun h => by
    rw [cut_foldl_overlay h, cutSource_cons]
    rfl
  have hid : (rs.foldl overlay r).id = r.id := number_foldl_overlay rs r
  show rs.foldl overlay r = _
  rw [lastOf, ← hfield fun _ _ => rfl, ← hfield fun _ _ => rfl, ← hfield fun _ _ => rfl, ← hfield fun _ _ => rfl,
    ← hfield fun _ _ => rfl, ← hfield fun _ _ => rfl, ← hfield fun _ _ => rfl, ← hcut fun _ _ => rfl,
    ← hcut fun _ _ => rfl, ← hcut fun _ _ => rfl, ← hid]

end Metadata

/-! ### Variants -/

namespace Variant

/-- The record states a field other than the comment and the text to review. -/
def States (r : Variant) : Prop :=
  r.baseSprite ≠ none ∨ (∃ c, r.channels.get c ≠ none) ∨ (∃ slot, r.colors.get slot ≠ none) ∨ r.animation ≠ none ∨
    r.colorPulse ≠ none ∨ r.lightPulse ≠ none

/-- The record that the contributions of a number make: every field as it was stated last. -/
def lastOf (id : Nat) (own : List Variant) : Variant where
  id := id
  baseSprite := lastStated (·.baseSprite) own
  channels := .ofGet fun c => lastStated (·.channels.get c) own
  colors := ⟨lastStated (·.colors.c1) own, lastStated (·.colors.c2) own, lastStated (·.colors.c3) own⟩
  animation := lastStated (·.animation) own
  colorPulse := lastStated (·.colorPulse) own
  lightPulse := lastStated (·.lightPulse) own
  comment := lastStated (·.comment) own
  needsReview := lastStated (·.needsReview) own

theorem isEmpty_eq_false (r : Variant) : isEmpty r = false ↔ r.States := by
  have hchannels : r.channels = {} ↔ ∀ c, r.channels.get c = none := by
    constructor
    · intro h c
      rw [h]
      cases c <;> rfl
    · intro h
      rw [← Channels.ofGet_get r.channels, funext h]
      rfl
  have hcolors : r.colors = {} ↔ ∀ slot, r.colors.get slot = none := by
    constructor
    · intro h slot
      rw [h]
      cases slot <;> rfl
    · intro h
      rcases hcol : r.colors with ⟨c1, c2, c3⟩
      rw [hcol] at h
      rw [show c1 = none from h .c1, show c2 = none from h .c2, show c3 = none from h .c3]
  simp only [isEmpty, hasAnimation, States, Bool.and_eq_false_iff, Bool.not_eq_false', Bool.or_eq_true,
    Option.isSome_iff_ne_none, Option.isNone_eq_false_iff, or_assoc, decide_eq_false_iff_not, hchannels, hcolors,
    Classical.not_forall, ne_eq]

theorem states_overlay (a b : Variant) : (overlay a b).States ↔ a.States ∨ b.States := by
  have hcolors : ∀ slot, (a.colors.overlay b.colors).get slot = (b.colors.get slot).or (a.colors.get slot) :=
    fun slot => by cases slot <;> rfl
  simp only [States, overlay, hcolors, Channels.overlay, Channels.get_ofGet, ne_eq, Option.or_eq_none_iff,
    Classical.not_and_iff_not_or_not, exists_or]
  grind

theorem foldl_overlay_eq (r : Variant) (rs : List Variant) :
    rs.foldl SpriteRecord.overlay r = lastOf r.id (r :: rs) := by
  have hfield : ∀ {α : Type} {field : Variant → Option α},
      (∀ a b : Variant, field (overlay a b) = (field b).or (field a)) →
      field (rs.foldl overlay r) = lastStated field (r :: rs) := fun h => field_foldl_overlay _ h rs r
  have hchannel : ∀ c : Channel, (rs.foldl overlay r).channels.get c = lastStated (·.channels.get c) (r :: rs) :=
    fun c => field_foldl_overlay (·.channels.get c) (fun _ _ => Channels.get_ofGet _ c) rs r
  have hid : (rs.foldl overlay r).id = r.id := number_foldl_overlay rs r
  show rs.foldl overlay r = _
  rw [lastOf, ← funext hchannel, ← hfield fun _ _ => rfl, ← hfield fun _ _ => rfl, ← hfield fun _ _ => rfl,
    ← hfield fun _ _ => rfl, ← hfield fun _ _ => rfl, ← hfield fun _ _ => rfl, ← hfield fun _ _ => rfl,
    ← hfield fun _ _ => rfl, ← hfield fun _ _ => rfl, ← hid]
  rfl

end Variant

/-! ### The main result -/

/-- After any calls the last contribution wins, in the records of both kinds, and the records depend only on
    what was contributed for each number, in its order: neither the order among different numbers nor the way
    the contributions were parted into calls changes them. -/
theorem last_contribution_wins :
    (∀ calls : List (Call Metadata),
      LastWins Metadata.lastOf Metadata.States (Call.history calls) (Call.run calls).finish) ∧
    (∀ calls : List (Call Variant),
      LastWins Variant.lastOf Variant.States (Call.history calls) (Call.run calls).finish) ∧
    (∀ calls calls' : List (Call Metadata),
      (∀ id, contributions id (Call.history calls) = contributions id (Call.history calls')) →
        (Call.run calls).finish = (Call.run calls').finish) ∧
    (∀ calls calls' : List (Call Variant),
      (∀ id, contributions id (Call.history calls) = contributions id (Call.history calls')) →
        (Call.run calls).finish = (Call.run calls').finish) := by
  refine ⟨fun calls => ?_, fun calls => ?_, fun calls calls' h => ?_, fun calls calls' h => ?_⟩
  · rw [Call.run_eq]
    exact lastWins_of_fold Metadata.isEmpty_eq_false Metadata.states_overlay Metadata.foldl_overlay_eq _
  · rw [Call.run_eq]
    exact lastWins_of_fold Variant.isEmpty_eq_false Variant.states_overlay Variant.foldl_overlay_eq _
  · rw [Call.run_eq, Call.run_eq]
    exact Roster.finish_congr h
  · rw [Call.run_eq, Call.run_eq]
    exact Roster.finish_congr h

theorem last_contribution_wins_swapped :
    (Call.run [.add { id := 1, door := some true }, .add { id := 2, mov := some 7 : Metadata }]).finish =
        (Call.run [.addAll [{ id := 2, mov := some 7 }, { id := 1, door := some true }]]).finish ∧
      (Call.run [.add { id := 4, baseSprite := some 3 }, .add { id := 5, baseSprite := some 3 : Variant }]).finish =
        (Call.run [.addAll [{ id := 5, baseSprite := some 3 }, { id := 4, baseSprite := some 3 }]]).finish := by
  obtain ⟨-, -, hmetadata, hvariants⟩ := last_contribution_wins
  refine ⟨hmetadata _ _ fun id => ?_, hvariants _ _ fun id => ?_⟩
  · by_cases h1 : 1 = id
    · subst h1
      rfl
    · by_cases h2 : 2 = id <;> simp [contributions, Call.history, Call.records, SpriteRecord.number, h1, h2]
  · by_cases h4 : 4 = id
    · subst h4
      rfl
    · by_cases h5 : 5 = id <;> simp [contributions, Call.history, Call.records, SpriteRecord.number, h4, h5]

end SpriteFacts
