import SpriteFacts.Proofs.Switch.LabelPlaces
import SpriteFacts.Proofs.Text.Slice

/-! The segmentation of a body with every slice checked: the code of each label, the code that a chain runs over, and the code in
    front of a terminator. The spans of the labels lie in order and end at labels or with the body, so no slice is refused
    and the groups are those of the unchecked segmentation. -/

namespace SpriteFacts.Switch

open Text Pattern

/-! ### The checked segmentation -/

def CaseLabel.code? (l : CaseLabel) (body : List Char) : Option (List Char) := slice? l.codeStart l.stop body

def ownSpanGroups? (terminator : Pattern) (body : List Char) (waiting : List CaseLabel) : List CaseLabel → Option (List CaseGroup)
  | [] => some []
  | l :: ls => do
    let text ← l.code? body
    match terminator.find? text with
    | some m => (groupOf waiting l text m :: ·) <$> ownSpanGroups? terminator body [] ls
    | none => ownSpanGroups? terminator body (if holdsNoCode text then waiting ++ [l] else []) ls

/-- The first label whose own span holds a terminator. The spans are looked at up to that one. -/
def firstTerminated? (terminator : Pattern) (body : List Char) : List CaseLabel → Option (Option CaseLabel)
  | [] => some none
  | l :: ls => do
    let text ← l.code? body
    if terminator.occursIn text then some (some l) else firstTerminated? terminator body ls

/-- The chain of a label up to the end of a later one. -/
def chainUpTo? (terminator : Pattern) (body : List Char) (l last : CaseLabel) : Option (Option CaseGroup) := do
  let text := withoutLabels (← slice? l.codeStart last.stop body)
  match terminator.find? text with
  | none => some none
  | some m =>
    let code ← slice? 0 m.start text
    some (if holdsNoCode code then none else some ⟨[l.id], text, m.start, l.start, l.codeStart, last.stop⟩)

/-- The chain of a label, given the labels behind it. -/
def chain? (terminator : Pattern) (body : List Char) (l : CaseLabel) (ls : List CaseLabel) : Option (Option CaseGroup) := do
  match ← firstTerminated? terminator body (l :: ls) with
  | none => some none
  | some last => chainUpTo? terminator body l last

def chains? (terminator : Pattern) (body : List Char) : List CaseLabel → Option (List CaseGroup)
  | [] => some []
  | l :: ls => do
    let chain ← chain? terminator body l ls
    (chain.toList ++ ·) <$> chains? terminator body ls

def caseGroups? (reach : Reach) (terminator : Pattern) (body : List Char) : Option (List CaseGroup) :=
  match reach with
  | .ownSpan => ownSpanGroups? terminator body [] (caseLabels body)
  | .fallThrough => joinChains <$> chains? terminator body (caseLabels body)

namespace CaseGroup

def code? (g : CaseGroup) : Option (List Char) := slice? 0 g.terminator g.text

def ending? (g : CaseGroup) : Option (List Char) := slice? g.terminator (byteLength g.text) g.text

def spanOf? (g : CaseGroup) (text : List Char) : Option (List Char) := slice? g.spanStart g.spanStop text

end CaseGroup

/-! ### The spans of labels -/

/-- The label owns a part of the body that lies between characters of it. -/
structure CaseLabel.Fits (l : CaseLabel) (body : List Char) : Prop where
  codeStart : IsBoundary l.codeStart body
  stop : IsBoundary l.stop body
  le : l.codeStart ≤ l.stop

section Labels
variable {body : List Char} {l : CaseLabel}

theorem fits_of_mem_caseLabels (h : l ∈ caseLabels body) : l.Fits body := by
  obtain ⟨before, gap, digits, gap', own, behind, hwritten⟩ := exists_written h
  have hcode : l.codeStart = byteLength (before ++ caseText gap digits gap') := by
    rw [hwritten.codeStart, hwritten.start, byteLength_append]
  have hsplit : body = (before ++ caseText gap digits gap') ++ (own ++ behind) := by rw [hwritten.split, List.append_assoc]
  exact ⟨⟨_, _, hsplit, hcode.symm⟩, ⟨_, behind, by rw [hsplit, ← List.append_assoc], by rw [byteLength_append, hwritten.stop, hcode]⟩,
    by rw [hwritten.stop]; exact Nat.le_add_right _ _⟩

/-- The code of a label starts behind the code of those before it. -/
theorem pairwise_codeStart (body : List Char) : (caseLabels body).Pairwise fun a b => a.codeStart ≤ b.codeStart := by
  obtain ⟨ms, hscan⟩ := Scan.exists_of_apart Landmark.apart none body
  rw [caseLabels_eq hscan, labelsOf, List.pairwise_map]
  refine (pairwise_stationsOf 0 ms).imp ?_
  rintro s t ⟨us, m, hat⟩
  rw [hat.codeStart, hat.start]
  omega

theorem CaseLabel.Fits.code?_eq (h : l.Fits body) : l.code? body = some (l.code body) :=
  slice?_of_boundaries h.le h.codeStart h.stop

end Labels

/-! ### Nothing is refused -/

section Groups
variable {terminator : Pattern} {body : List Char} {ls : List CaseLabel} {l last : CaseLabel}

/-- A match starts between characters of the text. -/
theorem isBoundary_of_find? {text : List Char} {m : Match} (h : terminator.find? text = some m) : IsBoundary m.start text := by
  obtain ⟨before, r, hstands, -⟩ := findFrom_eq_some h
  exact ⟨before, _, hstands.split, by rw [hstands.match_eq]; exact (Nat.zero_add _).symm⟩

theorem ownSpanGroups?_eq (h : ∀ l ∈ ls, l.Fits body) (waiting : List CaseLabel) :
    ownSpanGroups? terminator body waiting ls = some (ownSpanGroups terminator body waiting ls) := by
  induction ls generalizing waiting with
  | nil => rfl
  | cons l ls ih =>
    have hls := ih fun x hx => h x (List.mem_cons_of_mem l hx)
    rw [ownSpanGroups?, (h l List.mem_cons_self).code?_eq, Option.bind_eq_bind, Option.bind_some, ownSpanGroups]
    cases terminator.find? (l.code body) with
    | some m => simp [hls]
    | none =>
      dsimp only
      rw [hls]
      split <;> rfl

theorem firstTerminated?_eq (h : ∀ l ∈ ls, l.Fits body) :
    firstTerminated? terminator body ls = some (ls.find? fun l => terminator.occursIn (l.code body)) := by
  induction ls with
  | nil => rfl
  | cons l ls ih =>
    rw [firstTerminated?, (h l List.mem_cons_self).code?_eq, Option.bind_eq_bind, Option.bind_some, List.find?_cons,
      ih fun x hx => h x (List.mem_cons_of_mem l hx)]
    cases terminator.occursIn (l.code body) <;> rfl

theorem chainUpTo?_eq (hl : IsBoundary l.codeStart body) (hlast : IsBoundary last.stop body) (hle : l.codeStart ≤ last.stop) :
    chainUpTo? terminator body l last = some (chainOf? terminator body l last) := by
  rw [chainUpTo?, slice?_of_boundaries hle hl hlast, Option.bind_eq_bind, Option.bind_some, chainOf?]
  dsimp only
  cases hfind : terminator.find? (withoutLabels (slice l.codeStart last.stop body)) with
  | none => rfl
  | some m =>
    dsimp only
    rw [slice?_take (isBoundary_of_find? hfind)]
    rfl

theorem chain?_eq (h : ∀ x ∈ l :: ls, x.Fits body) (hle : ∀ x ∈ ls, l.codeStart ≤ x.codeStart) :
    chain? terminator body l ls =
      some (((l :: ls).find? fun x => terminator.occursIn (x.code body)).bind fun last => chainOf? terminator body l last) := by
  rw [chain?, firstTerminated?_eq h, Option.bind_eq_bind, Option.bind_some]
  cases hlast : (l :: ls).find? fun x => terminator.occursIn (x.code body) with
  | none => rfl
  | some last =>
    -- The label that ends the chain is the label itself or one behind it.
    have hmem := List.mem_of_find?_eq_some hlast
    refine chainUpTo?_eq (h l List.mem_cons_self).codeStart (h last hmem).stop (Nat.le_trans ?_ (h last hmem).le)
    rcases List.mem_cons.mp hmem with rfl | hmem
    · exact Nat.le_refl _
    · exact hle last hmem

theorem chains?_eq (h : ∀ l ∈ ls, l.Fits body) (hordered : ls.Pairwise fun a b => a.codeStart ≤ b.codeStart) :
    chains? terminator body ls = some (chains terminator body (ls.map fun l => (l, terminator.occursIn (l.code body)))) := by
  induction ls with
  | nil => rfl
  | cons l ls ih =>
    obtain ⟨hle, hordered⟩ := List.pairwise_cons.mp hordered
    have hls := ih (fun x hx => h x (List.mem_cons_of_mem l hx)) hordered
    have hfind : ((l :: ls).map fun l => (l, terminator.occursIn (l.code body))).find? (·.2) =
        ((l :: ls).find? fun l => terminator.occursIn (l.code body)).map fun l => (l, terminator.occursIn (l.code body)) :=
      List.find?_map
    rw [List.map_cons] at hfind ⊢
    rw [chains?, chain?_eq h hle, Option.bind_eq_bind, Option.bind_some, hls, chains, hfind, Option.bind_map]
    rfl

/-- The checked segmentation gives the groups of the segmentation. -/
theorem caseGroups?_eq (reach : Reach) (terminator : Pattern) (body : List Char) :
    caseGroups? reach terminator body = some (caseGroups reach terminator body) := by
  cases reach with
  | ownSpan => exact ownSpanGroups?_eq (fun l => fits_of_mem_caseLabels) []
  | fallThrough =>
    rw [caseGroups?, chains?_eq (fun l => fits_of_mem_caseLabels) (pairwise_codeStart body)]
    rfl

/-- What a group says about its own text. -/
structure CaseGroup.Fits (g : CaseGroup) : Prop where
  terminator : IsBoundary g.terminator g.text
  nonempty : g.ids ≠ []

variable {g : CaseGroup}

theorem fits_of_mem_caseGroups {reach : Reach} (h : g ∈ caseGroups reach terminator body) : g.Fits := by
  refine forall_mem_caseGroups (P := CaseGroup.Fits) (fun waiting l m _ hm => ?_) (fun l _ last x hx => ?_) (fun x ids hx => ?_) g h
  · exact ⟨isBoundary_of_find? hm, by simp [groupOf]⟩
  · obtain ⟨hids, -, m, hm, hterminator⟩ := eq_of_chainOf? hx
    exact ⟨hterminator ▸ isBoundary_of_find? hm, hids ▸ List.cons_ne_nil _ _⟩
  · exact ⟨hx.terminator, List.append_ne_nil_of_left_ne_nil hx.nonempty ids⟩

theorem CaseGroup.Fits.code?_eq (h : g.Fits) : g.code? = some g.code := slice?_take h.terminator

theorem CaseGroup.Fits.ending?_eq (h : g.Fits) : g.ending? = some g.ending := slice?_drop h.terminator

end Groups

end SpriteFacts.Switch
