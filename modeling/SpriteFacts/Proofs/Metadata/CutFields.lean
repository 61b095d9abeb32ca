import SpriteFacts.Proofs.Metadata.PassOrder

/-! The three fields of a cut in a record. They fit each other if the cut is stated in one way at most and a sign
    stands only beside an offset. Every way in which a record comes about keeps them so, and on the records
    of one sprite that fit, laying over is a monoid in which every record is its own square. -/

namespace SpriteFacts.Metadata

open Switch SpriteRecord

/-- The fields of a cut fit each other. -/
structure GoodCut (r : Metadata) : Prop where
  exclusive : r.cutOffset = none ∨ r.cutSprite = none
  sign_beside : r.cutNegative ≠ none → r.cutOffset ≠ none
  sign_true : r.cutNegative ≠ some false

instance (r : Metadata) : Decidable r.GoodCut :=
  decidable_of_iff ((r.cutOffset = none ∨ r.cutSprite = none) ∧ (r.cutNegative ≠ none → r.cutOffset ≠ none) ∧
      r.cutNegative ≠ some false)
    ⟨fun ⟨h1, h2, h3⟩ => ⟨h1, h2, h3⟩, fun ⟨h1, h2, h3⟩ => ⟨h1, h2, h3⟩⟩

/-- Only the fields of a cut count. -/
theorem GoodCut.congr {r s : Metadata} (h : r.GoodCut) (hoffset : s.cutOffset = r.cutOffset)
    (hnegative : s.cutNegative = r.cutNegative) (hsprite : s.cutSprite = r.cutSprite) : s.GoodCut :=
  ⟨by rw [hoffset, hsprite]; exact h.exclusive, by rw [hoffset, hnegative]; exact h.sign_beside,
    by rw [hnegative]; exact h.sign_true⟩

theorem goodCut_blank (id : Nat) : GoodCut { id := id } := ⟨Or.inl rfl, fun h => absurd rfl h, nofun⟩

/-! ### What a change keeps -/

theorem goodCut_setCutOffset (r : Metadata) (offset : Int) (negative : Bool) : (r.setCutOffset offset negative).GoodCut where
  exclusive := Or.inr rfl
  sign_beside _ := nofun
  sign_true := by cases negative <;> exact nofun

theorem goodCut_setCutSprite (r : Metadata) (sprite : Nat) : (r.setCutSprite sprite).GoodCut :=
  ⟨Or.inl rfl, fun h => absurd rfl h, nofun⟩

theorem GoodCut.overlay {a b : Metadata} (ha : a.GoodCut) (hb : b.GoodCut) : (overlay a b).GoodCut := by
  cases hcut : b.hasCut with
  | true => exact hb.congr (if_pos hcut) (if_pos hcut) (if_pos hcut)
  | false =>
    have hnone : ¬b.hasCut = true := by simp [hcut]
    exact ha.congr (if_neg hnone) (if_neg hnone) (if_neg hnone)

/-- A change of a record. -/
inductive Change where
  | cutOffset (offset : Int) (negative : Bool)
  | cutSprite (sprite : Nat)
  | merge (other : Metadata)

namespace Change

def apply (r : Metadata) : Change → Metadata
  | cutOffset offset negative => r.setCutOffset offset negative
  | cutSprite sprite => r.setCutSprite sprite
  | merge other => overlay r other

/-- What is merged in has fields of a cut that fit. -/
def Sound : Change → Prop
  | cutOffset _ _ | cutSprite _ => True
  | merge other => other.GoodCut

instance (change : Change) : Decidable change.Sound :=
  match change with
  | cutOffset _ _ | cutSprite _ => isTrue trivial
  | merge other => inferInstanceAs (Decidable other.GoodCut)

/-- The record that changes make of a blank one. -/
def run (id : Nat) (changes : List Change) : Metadata := changes.foldl apply { id := id }

end Change

theorem GoodCut.apply {r : Metadata} (h : r.GoodCut) {change : Change} (hs : change.Sound) : (change.apply r).GoodCut := by
  cases change with
  | cutOffset offset negative => exact goodCut_setCutOffset r offset negative
  | cutSprite sprite => exact goodCut_setCutSprite r sprite
  | merge other => exact h.overlay hs

theorem id_apply (r : Metadata) (change : Change) : (change.apply r).id = r.id := by cases change <;> rfl

/-- A record of a sprite whose fields of a cut fit each other. -/
structure GoodOf (id : Nat) (r : Metadata) : Prop extends GoodCut r where
  id_eq : r.id = id

theorem GoodOf.foldl {id : Nat} {changes : List Change} (hs : ∀ c ∈ changes, c.Sound) :
    ∀ {r : Metadata}, GoodOf id r → GoodOf id (changes.foldl Change.apply r) := by
  induction changes with
  | nil => exact fun h => h
  | cons c cs ih =>
    intro r h
    exact ih (fun x hx => hs x (List.mem_cons_of_mem c hx))
      ⟨h.toGoodCut.apply (hs c List.mem_cons_self), (id_apply r c).trans h.id_eq⟩

/-! ### Documents -/

theorem goodCut_record (fact : Fact) (id : Nat) : (fact.record id).GoodCut := by
  cases fact with
  | cut value =>
    cases value with
    | relative offset negated => exact goodCut_setCutOffset _ offset negated
    | sprite number => exact goodCut_setCutSprite _ number
  | door | mov | yadd | layer | offset | noLighting => exact (goodCut_blank id).congr rfl rfl rfl

theorem goodCut_foldl {rs : List Metadata} (h : ∀ r ∈ rs, r.GoodCut) :
    ∀ {r : Metadata}, r.GoodCut → (rs.foldl overlay r).GoodCut := by
  induction rs with
  | nil => exact fun h => h
  | cons x xs ih => exact fun hr => ih (fun y hy => h y (List.mem_cons_of_mem x hy)) (hr.overlay (h x List.mem_cons_self))

/-- A roster of records that fit finishes with records that fit. -/
theorem goodCut_of_mem_finish {history : List Metadata} (h : ∀ r ∈ history, r.GoodCut) {r : Metadata}
    (hr : r ∈ ((Roster.empty : Roster Metadata).addAll history).finish) : r.GoodCut := by
  have hcombined := ((Roster.mem_finish_addAll history r).mp hr).1
  have hown : ∀ x ∈ contributions (number r) history, x.GoodCut := fun x hx => h x (List.mem_filter.mp hx).1
  cases hc : contributions (number r) history with
  | nil =>
    rw [hc] at hcombined
    cases hcombined
  | cons x xs =>
    rw [hc] at hcombined hown
    obtain rfl := Option.some.inj hcombined
    exact goodCut_foldl (fun y hy => hown y (List.mem_cons_of_mem x hy)) (hown x List.mem_cons_self)

theorem goodCut_of_mem_runPass {source : Source} {settings : Settings} {pass : Pass} {r : Metadata}
    (hr : r ∈ (runPass source settings pass).1) : r.GoodCut := by
  obtain ⟨fact, id, -, rfl⟩ := fact_of_mem_runPass hr
  exact goodCut_record fact id

/-! ### Laying over -/

theorem overlay_assoc (a b c : Metadata) : overlay (overlay a b) c = overlay a (overlay b c) := by
  -- The last record that states a cut gives it whole; every other field is the last one stated.
  have hcut : ∀ {α : Type} (x y z : α), (if c.hasCut then z else if b.hasCut then y else x) =
      if (overlay b c).hasCut then (if c.hasCut then z else y) else x := by
    intro α x y z
    rw [hasCut_overlay]
    cases b.hasCut <;> cases c.hasCut <;> rfl
  rw [overlay, overlay, mk.injEq]
  exact ⟨rfl, hcut _ _ _, hcut _ _ _, hcut _ _ _, Option.or_assoc.symm, Option.or_assoc.symm, Option.or_assoc.symm,
    Option.or_assoc.symm, Option.or_assoc.symm, Option.or_assoc.symm, Option.or_assoc.symm⟩

theorem overlay_self (r : Metadata) : overlay r r = r := by simp only [overlay, ite_self, Option.or_self]

/-- A record that fits has no sign without a cut, so nothing of it is lost over a blank record. -/
theorem GoodCut.blank_overlay {r : Metadata} (h : r.GoodCut) : Metadata.overlay { id := r.id } r = r := by
  cases hcut : r.hasCut with
  | true => simp only [Metadata.overlay, hcut, if_true, Option.or_none]
  | false =>
    obtain ⟨hoffset, hsprite⟩ : r.cutOffset = none ∧ r.cutSprite = none := by
      simpa [hasCut] using hcut
    have hsign : r.cutNegative = none := by
      by_contra hne
      exact h.sign_beside hne hoffset
    cases r
    simp_all [Metadata.overlay]

-- A lone sign would be lost over a blank record.
example : overlay { id := 4 } { id := 4, cutNegative := some true } = { id := 4 } := by decide

/-- Laying over is a monoid of idempotents on the records of a sprite that fit. -/
structure OverlayLaws (id : Nat) : Prop where
  closed : ∀ {a b}, GoodOf id a → GoodOf id b → GoodOf id (overlay a b)
  assoc : ∀ {a b c}, GoodOf id a → GoodOf id b → GoodOf id c → overlay (overlay a b) c = overlay a (overlay b c)
  idempotent : ∀ {a}, GoodOf id a → overlay a a = a
  blank_left : ∀ {a}, GoodOf id a → overlay { id := id } a = a
  blank_right : ∀ {a}, GoodOf id a → overlay a { id := id } = a

theorem overlayLaws (id : Nat) : OverlayLaws id where
  closed ha hb := ⟨ha.toGoodCut.overlay hb.toGoodCut, ha.id_eq⟩
  assoc {a b c} _ _ _ := overlay_assoc a b c
  idempotent {a} _ := overlay_self a
  blank_left {a} ha := by
    have h := ha.toGoodCut.blank_overlay
    rwa [ha.id_eq] at h
  blank_right {a} _ := overlay_blank a id

/-- The fields of a cut fit each other in every record that setting a cut and merging sound records can make, and in every
    record of every metadata document, and the records of a sprite that fit obey the laws of laying over. -/
theorem cut_fields_consistent (id : Nat) :
    (∀ changes : List Change, (∀ c ∈ changes, c.Sound) → GoodOf id (Change.run id changes)) ∧
    (∀ (source : Source) (settings : Settings),
      ∃ rs, (Document.extract source settings .metadata).records = .metadata rs ∧ ∀ r ∈ rs, r.GoodCut) ∧
    OverlayLaws id := by
  refine ⟨fun changes hs => GoodOf.foldl hs ⟨goodCut_blank id, rfl⟩, fun source settings => ?_, overlayLaws id⟩
  refine ⟨_, extract_metadata source settings, fun r hr => goodCut_of_mem_finish (fun x hx => ?_) hr⟩
  obtain ⟨pass, -, hx⟩ := List.mem_flatMap.mp hx
  exact goodCut_of_mem_runPass hx

theorem cut_fields_consistent_turned :
    let r := Change.run 9
      [.cutSprite 4, .merge { id := 9, mov := some 2 }, .cutOffset (-3) true, .merge { id := 9, door := some true }]
    r = { id := 9, cutOffset := some (-3), cutNegative := some true, door := some true, mov := some 2 } ∧
      GoodOf 9 r ∧ overlay { id := 9 } r = r := by
  intro r
  obtain ⟨hrun, -, hlaws⟩ := cut_fields_consistent 9
  have hgood : GoodOf 9 r := hrun _ (by decide)
  exact ⟨rfl, hgood, hlaws.blank_left hgood⟩

end SpriteFacts.Metadata
