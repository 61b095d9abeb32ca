import SpriteFacts.Proofs.Pattern.Occurrence
import SpriteFacts.Proofs.Variant.AssignmentCode

/-! Case groups whose code is assignments. Such a group gives a record for each of its numbers, which states what
    the assignments leave in the channels and the sprite and nothing else, and it is reported nowhere. -/

namespace SpriteFacts

open Switch Text Pattern

/-! ### What assignments leave behind -/

def lastAssigned (v : Variable) (as : List Assignment) : Option Int :=
  (as.reverse.find? fun a => a.target = v).map (·.value)

/-- The record of a number whose code makes the assignments. -/
def variantOf (id : Nat) (as : List Assignment) : Variant where
  id := id
  baseSprite := some ((lastAssigned .sprite as).getD id)
  channels := .ofGet fun c => lastAssigned (.channel c) as

/-- Of variables that are assigned once, the first assignment is the last. -/
theorem firstTo_of_nodup {as : List Assignment} (h : (as.map (·.target)).Nodup) (v : Variable) :
    (firstTo v as).map (·.value) = lastAssigned v as := by
  unfold firstTo lastAssigned
  congr 1
  induction as with
  | nil => rfl
  | cons a as ih =>
    rw [List.map_cons, List.nodup_cons] at h
    rw [List.reverse_cons, List.find?_append, ← ih h.2]
    by_cases hv : a.target = v
    · have hnone : as.find? (fun b => b.target = v) = none := by
        rw [List.find?_eq_none]
        intro b hb hbv
        rw [decide_eq_true_iff] at hbv
        exact h.1 (List.mem_map.mpr ⟨b, hb, hbv.trans hv.symm⟩)
      rw [hnone]
      simp [hv]
    · simp [hv]

/-! ### Code that no idiom covers -/

theorem leads_slot : Leads ["c1".toList, "c2".toList, "c3".toList]
    (seq (char 'c') (one fun c => c == '1' || c == '2' || c == '3')) := by
  intro last cs r hr
  obtain ⟨a, ha, b, hb, rfl⟩ := mem_readings_seq.mp hr
  obtain ⟨rest, rfl, rfl⟩ := mem_readings_char.mp ha
  obtain ⟨c, rest', hrest, hc, rfl⟩ := mem_readings_one.mp hb
  obtain rfl : rest = c :: rest' := hrest
  simp only [Bool.or_eq_true, beq_iff_eq] at hc
  have hpre : ∀ d : Char, ['c', d] <+: 'c' :: d :: rest' := fun d => ⟨rest', rfl⟩
  rcases hc with (rfl | rfl) | rfl
  · exact ⟨_, by simp, hpre '1'⟩
  · exact ⟨_, by simp, hpre '2'⟩
  · exact ⟨_, by simp, hpre '3'⟩

theorem begins_dynamicCode : Begins ["if".toList, "helper".toList, "rrand".toList] VariantPass.dynamicCode :=
  (begins_wordStart (s := "if") (by decide)).seq.alt
    ((begins_word (s := "helper") (by decide)).alt (begins_word (s := "rrand") (by decide)))

namespace Spells
variable {as : List Assignment} {t : List Char}

theorem occursIn_eq_false {ws : List (List Char)} {p : Pattern} (h : Begins ws p)
    (hws : unblank ws = true) (hforeign : ∀ v, foreign ws v = true) (hs : Spells as t) :
    p.occursIn t = false := by
  rw [occursIn, find?_eq_none h hws hs (foreign_all hforeign as)]
  rfl

theorem parenthesis_not_mem (hs : Spells as t) : '(' ∉ t :=
  hs.not_mem (by decide) (by decide) (by decide) (by decide)

theorem absCall_eq (hs : Spells as t) : VariantPass.absCall.occursIn t = false := by
  have hneeds : Needs '(' VariantPass.absCall := by simp [VariantPass.absCall, spaced, Pattern.char, Needs]
  rw [occursIn, hneeds.find?_eq_none hs.parenthesis_not_mem]
  rfl

theorem assignedSlots_eq (hs : Spells as t) : VariantPass.assignedSlots t = [] := by
  have hbegins : Begins ["c1".toList, "c2".toList, "c3".toList] VariantPass.slotAssignment :=
    (leads_slot.group.seq).begins (by decide)
  have hforeign : ∀ v, foreign ["c1".toList, "c2".toList, "c3".toList] v = true := Variable.of_all (by decide)
  rw [VariantPass.assignedSlots, findAll_eq_nil (clear hbegins (by decide) hs (foreign_all hforeign as)) (read?_nil hbegins (by decide) _)]
  rfl

theorem dynamicCode_eq (hs : Spells as t) : VariantPass.dynamicCode.occursIn t = false :=
  occursIn_eq_false begins_dynamicCode (by decide) (Variable.of_all (by decide)) hs

theorem tickWord_eq (hs : Spells as t) : VariantPass.tickWord.occursIn t = false :=
  occursIn_eq_false (begins_word (s := "attick") (by decide)) (by decide) (Variable.of_all (by decide)) hs

theorem colorPulse_eq (hs : Spells as t) (id : Nat) : Pulse.colorChain.value? ⟨id, t⟩ = none := by
  have hneeds : Needs '(' Pulse.colorPattern := by simp [Pulse.colorPattern, spaced, Pattern.char, Needs]
  rw [Pulse.colorChain, IdiomChain.value?_singleton]
  exact Idiom.read_of_needs hneeds hs.parenthesis_not_mem

theorem lightPulse_eq (hs : Spells as t) (id : Nat) : Pulse.lightChain.value? ⟨id, t⟩ = none := by
  have hneeds : Needs '(' (spaced [assignTo "light", Pulse.tickDistance 1]) := by
    simp [Pulse.tickDistance, Pattern.all, spaced, Pattern.char, Needs]
  rw [Pulse.lightChain, IdiomChain.value?_singleton]
  exact Idiom.read_of_needs hneeds hs.parenthesis_not_mem

/-! ### The records of a group -/

theorem shared_eq (hs : Spells as t) (hnodup : (as.map (·.target)).Nodup) (id : Nat) :
    VariantPass.shared ⟨id, t⟩ none = { id := id, channels := .ofGet fun c => lastAssigned (.channel c) as } := by
  have hchannels := hs.channels_eq id
  simp only [firstTo_of_nodup hnodup] at hchannels
  rw [VariantPass.shared, hchannels, hs.colors_eq, hs.colorPulse_eq, hs.lightPulse_eq]
  rfl

theorem reviewText_eq (hs : Spells as t) (r : Variant) (masked : Bool) : VariantPass.reviewText? t r masked = none := by
  rw [VariantPass.reviewText?, hs.dynamicCode_eq, hs.tickWord_eq]
  rfl

variable {g : CaseGroup}

theorem records_eq (hs : Spells as g.code) (hnodup : (as.map (·.target)).Nodup) :
    VariantPass.animated.records g none = g.ids.map fun id => variantOf id as := by
  have hremap : ∀ id, VariantPass.animated.remapOf? g id = some ⟨(lastAssigned .sprite as).getD id, none⟩ := by
    intro id
    have hread : ∀ id, Remap.animatedChain.value? ⟨id, g.code⟩ = some ⟨(lastAssigned .sprite as).getD id, none⟩ := by
      intro id
      rw [hs.remap_eq, firstTo_of_nodup hnodup]
    show (if (Remap.animatedChain.value? _).isSome then Remap.animatedChain.value? _ else none) = _
    rw [hread, hread]
    rfl
  rw [VariantPass.records]
  refine List.map_congr_left fun id _ => ?_
  simp only [hs.shared_eq hnodup, hremap]
  rw [VariantPass.recordOf, hs.reviewText_eq]
  rfl

theorem diagnostics_eq (hs : Spells as g.code) (l : Located) {rs : List Variant} (hrs : ∀ r ∈ rs, r.needsReview = none) :
    VariantPass.animated.diagnostics l g rs = [] := by
  have hread : (VariantPass.animated.remap.value? ⟨g.ids.headD 0, g.code⟩).isNone = false := by
    show (Remap.animatedChain.value? _).isNone = false
    rw [hs.remap_eq]
    rfl
  have hreview : rs.any (fun r => r.needsReview.isSome) = false := by
    rw [List.any_eq_false]
    intro r hr
    rw [hrs r hr]
    simp
  have hslots : ∀ r, VariantPass.unreadSlots g.code r = [] := by
    intro r
    rw [VariantPass.unreadSlots, hs.assignedSlots_eq]
    rfl
  simp only [VariantPass.diagnostics, hread, hs.absCall_eq, hslots, hreview]
  rfl

end Spells

/-! ### Comments -/

/-- What the pattern reads stands in front of no text without comments. -/
def NeedsComment (p : Pattern) : Prop :=
  ∀ (last : Option Char) (cs : List Char) (r : Reading), r ∈ p.readings last cs → ¬CommentFree cs

namespace NeedsComment
variable {p q : Pattern} {cs : List Char}

theorem behind (h : NeedsComment q) : NeedsComment (.seq p q) := by
  intro last cs r hr hfree
  obtain ⟨a, ha, b, hb, -⟩ := mem_readings_seq.mp hr
  rw [split_of_mem ha] at hfree
  exact h _ _ _ hb hfree.behind

theorem find?_eq_none (h : NeedsComment p) (hfree : CommentFree cs) : p.find? cs = none := by
  by_contra hsome
  obtain ⟨m, hm⟩ := Option.ne_none_iff_exists'.mp hsome
  obtain ⟨before, r, hstands, -⟩ := findFrom_eq_some hm
  rw [hstands.split] at hfree
  exact h _ _ _ (mem_of_read? hstands.read) hfree.behind

end NeedsComment

theorem needsComment_anyLineComment : NeedsComment VariantPass.anyLineComment := by
  intro last cs r hr hfree
  obtain ⟨a, ha, -⟩ := mem_readings_seq.mp hr
  obtain ⟨rest, rfl, -⟩ := mem_readings_literal.mp ha
  exact hfree [] _ rfl (Or.inl ⟨rest, rfl⟩)

theorem needsComment_trailingComment : NeedsComment VariantPass.trailingComment :=
  needsComment_anyLineComment.behind.behind.behind.behind.behind

/-- Text without comments has none to capture. -/
theorem capturedComment_eq {raw : List Char} (h : CommentFree raw) (blanked : List Char) :
    VariantPass.capturedComment? raw blanked = none := by
  unfold VariantPass.capturedComment?
  cases breakStatement.find? blanked with
  | none => rfl
  | some stop =>
    rw [← takeBytes_append_dropBytes stop.start raw] at h
    rw [Option.bind_some, needsComment_trailingComment.find?_eq_none h.behind, needsComment_anyLineComment.find?_eq_none h.before]
    rfl

end SpriteFacts
