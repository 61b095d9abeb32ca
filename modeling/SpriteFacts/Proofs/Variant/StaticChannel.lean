import SpriteFacts.Proofs.Expression.Grammar
import SpriteFacts.Proofs.Idiom.Chain
import SpriteFacts.Proofs.Pattern.Occurrence
import SpriteFacts.Proofs.Switch.FallThrough
import SpriteFacts.Proofs.Variant.AssignmentText
import SpriteFacts.Variant.Pass

/-! What becomes of the static channels that a case group assigns. The value of a channel is the first literal that is
    assigned to it and ends its statement or argument. A channel without such a literal is in none of the records, but
    for a pulse of the light and a swing of the red channel, and nothing is reported for its sake alone: the report
    names the group only if something else in its code calls for it. So a channel can be lost without a word, and
    the main statement says exactly when. -/

namespace SpriteFacts

open Switch Text Pattern

/-! ### Assignments of literals -/

/-- Digits, perhaps with a minus sign in front of them. -/
def IsSigned (t : List Char) : Prop := ∃ ds, (t = ds ∨ t = '-' :: ds) ∧ ds ≠ [] ∧ ds.all isDigit = true

theorem mem_readings_signedDigits {last : Option Char} {cs : List Char} {r : Reading} :
    r ∈ signedDigits.readings last cs ↔ ∃ t rest, cs = t ++ rest ∧ IsSigned t ∧ r = ⟨t, [], rest⟩ := by
  rw [signedDigits, mem_readings_seq]
  constructor
  · rintro ⟨a, ha, b, hb, rfl⟩
    obtain ⟨ds, rest, hrest, hne, hall, rfl⟩ := mem_readings_run1.mp hb
    rcases mem_readings_optional.mp ha with ha | rfl
    · obtain ⟨rest', rfl, rfl⟩ := mem_readings_char.mp ha
      obtain rfl : rest' = ds ++ rest := hrest
      exact ⟨'-' :: ds, rest, rfl, ⟨ds, Or.inr rfl, hne, hall⟩, rfl⟩
    · obtain rfl : cs = ds ++ rest := hrest
      exact ⟨ds, rest, rfl, ⟨ds, Or.inl rfl, hne, hall⟩, rfl⟩
  · rintro ⟨t, rest, rfl, ⟨ds, rfl | rfl, hne, hall⟩, rfl⟩
    · exact ⟨_, mem_readings_optional.mpr (Or.inr rfl), _, mem_readings_run1.mpr ⟨t, rest, rfl, hne, hall, rfl⟩, rfl⟩
    · exact ⟨_, mem_readings_optional.mpr (Or.inl (mem_readings_char.mpr ⟨ds ++ rest, rfl, rfl⟩)), _,
        mem_readings_run1.mpr ⟨ds, rest, rfl, hne, hall, rfl⟩, rfl⟩

theorem IsSigned.all_isNumeral {t : List Char} (h : IsSigned t) : t.all isNumeral = true := by
  obtain ⟨ds, ht, -, hall⟩ := h
  have hds : ds.all isNumeral = true := List.all_eq_true.mpr fun c hc => by
    rw [isNumeral, List.all_eq_true.mp hall c hc]
    rfl
  rcases ht with rfl | rfl
  · exact hds
  · exact hds

theorem IsSigned.ne_nil {t : List Char} (h : IsSigned t) : t ≠ [] := by
  obtain ⟨ds, rfl | rfl, hne, -⟩ := h
  · exact hne
  · exact List.cons_ne_nil _ _

def endsValue (c : Char) : Bool := c == ';' || c == ',' || c == ')'

/-- An assignment of a literal that ends its statement or argument, with the blanks between its parts. -/
structure LiteralAssignment (name : List Char) where
  beforeSign : Gap
  afterSign : Gap
  literal : List Char
  signed : IsSigned literal
  beforeEnd : Gap
  stop : Char
  ends : endsValue stop = true

namespace LiteralAssignment
variable {name : List Char}

/-- The literal and what stands around it behind the sign. -/
def right (a : LiteralAssignment name) : List Char := a.afterSign.text ++ (a.literal ++ (a.beforeEnd.text ++ [a.stop]))

def text (a : LiteralAssignment name) : List Char := name ++ (a.beforeSign.text ++ '=' :: a.right)

/-- The assignment stands in the code behind its first part, at the start of a word. -/
def StandsIn (a : LiteralAssignment name) (code before : List Char) : Prop :=
  (lastOf none before).any isWord = false ∧ ∃ rest, code = before ++ (a.text ++ rest)

/-- The assignment is the first of a literal to its variable. -/
def IsFirst (a : LiteralAssignment name) (code : List Char) : Prop :=
  ∃ before, a.StandsIn code before ∧
    ∀ (b : LiteralAssignment name) (before' : List Char), b.StandsIn code before' → before.length ≤ before'.length

/-- What begins with an assignment of a literal begins with no other. -/
theorem literal_unique {a b : LiteralAssignment name} {xs ys : List Char} (h : a.text ++ xs = b.text ++ ys) :
    a.literal = b.literal := by
  have hsplit : a.beforeSign.text ++ '=' :: (a.right ++ xs) = b.beforeSign.text ++ '=' :: (b.right ++ ys) := by
    simp only [text, List.append_assoc, List.cons_append] at h
    exact List.append_cancel_left h
  obtain ⟨-, hsign⟩ := span_unique hsplit a.beforeSign.blank b.beforeSign.blank rfl rfl
  have hvalue := (List.cons.inj hsign).2
  simp only [right, List.append_assoc, List.cons_append, List.nil_append] at hvalue
  have hstart : ∀ (a : LiteralAssignment name) (cs : List Char), (a.literal ++ cs).head?.all (fun c => !isBlank c) = true :=
    fun a cs => head_outside (fun _ => not_isBlank_of_isNumeral) a.signed.all_isNumeral fun hnil => absurd hnil a.signed.ne_nil
  have hend : ∀ (a : LiteralAssignment name) (cs : List Char),
      (a.beforeEnd.text ++ a.stop :: cs).head?.all (fun c => !isNumeral c) = true := fun a cs =>
    head_outside (fun _ => not_isNumeral_of_isBlank) a.beforeEnd.blank fun _ => by
      have hstop := a.ends
      rw [endsValue, Bool.or_eq_true, Bool.or_eq_true, beq_iff_eq, beq_iff_eq, beq_iff_eq] at hstop
      show (!isNumeral a.stop) = true
      rcases hstop with (h | h) | h <;> rw [h] <;> decide
  obtain ⟨-, hliteral⟩ := span_unique hvalue a.afterSign.blank b.afterSign.blank (hstart a _) (hstart b _)
  exact (span_unique hliteral a.signed.all_isNumeral b.signed.all_isNumeral (hend a _) (hend b _)).1

/-- Of the first assignments of literals there is one. -/
theorem IsFirst.unique {a b : LiteralAssignment name} {code : List Char} (ha : a.IsFirst code) (hb : b.IsFirst code) :
    a.literal = b.literal := by
  obtain ⟨before, ⟨hedge, xs, hxs⟩, hfirst⟩ := ha
  obtain ⟨before', ⟨hedge', ys, hys⟩, hfirst'⟩ := hb
  have hlength := Nat.le_antisymm (hfirst b before' ⟨hedge', ys, hys⟩) (hfirst' a before ⟨hedge, xs, hxs⟩)
  exact literal_unique (List.append_inj (hxs.symm.trans hys) hlength).2

end LiteralAssignment

/-! ### The value of a channel -/

namespace Channel
variable {c : Channel} {last : Option Char} {code cs : List Char} {r : Reading}

theorem word_head (c : Channel) : c.variableName.toList.head?.any isWord = true := by cases c <;> decide

theorem mem_readings_assignment : r ∈ c.assignment.readings last cs ↔ last.any isWord = false ∧
    ∃ (a : LiteralAssignment c.variableName.toList) (rest : List Char), cs = a.text ++ rest ∧
      r = ⟨a.text, [(1, a.literal)], rest⟩ := by
  unfold assignment
  simp only [spaced, assignTo]
  constructor
  · intro hr
    obtain ⟨x, hx, x', hx', rfl⟩ := mem_readings_seq.mp hr
    obtain ⟨w, hw, w', hw', rfl⟩ := mem_readings_seq.mp hx
    obtain ⟨hlast, rest1, rfl, rfl⟩ := (mem_readings_wordStart c.word_head).mp hw
    obtain ⟨y, hy, y', hy', rfl⟩ := mem_readings_seq.mp hw'
    obtain ⟨b1, rest2, rfl, hb1, rfl⟩ := mem_readings_run.mp hy
    obtain ⟨rest3, hrest2, rfl⟩ := mem_readings_char.mp hy'
    obtain ⟨z, hz, z', hz', rfl⟩ := mem_readings_seq.mp hx'
    obtain ⟨b2, rest4, hrest3, hb2, rfl⟩ := mem_readings_run.mp hz
    obtain ⟨l, hl, l', hl', rfl⟩ := mem_readings_seq.mp hz'
    obtain ⟨t, ht, rfl⟩ := mem_readings_group.mp hl
    obtain ⟨k, rest5, hrest4, hk, rfl⟩ := mem_readings_signedDigits.mp ht
    obtain ⟨u, hu, u', hu', rfl⟩ := mem_readings_seq.mp hl'
    obtain ⟨b3, rest6, hrest5, hb3, rfl⟩ := mem_readings_run.mp hu
    obtain ⟨stop, rest7, hrest6, hstop, rfl⟩ := mem_readings_one.mp hu'
    simp only [Reading.append, Reading.keep] at hrest2 hrest3 hrest4 hrest5 hrest6
    subst hrest2 hrest3 hrest4 hrest5 hrest6
    exact ⟨hlast, ⟨⟨b1, hb1⟩, ⟨b2, hb2⟩, k, hk, ⟨b3, hb3⟩, stop, hstop⟩, rest7,
      by simp [LiteralAssignment.text, LiteralAssignment.right],
      by simp [LiteralAssignment.text, LiteralAssignment.right, Reading.append, Reading.keep]⟩
  · rintro ⟨hlast, a, rest, rfl, rfl⟩
    refine mem_readings_seq.mpr ⟨⟨c.variableName.toList ++ (a.beforeSign.text ++ ['=']), [], a.right ++ rest⟩, ?_,
      ⟨a.right, [(1, a.literal)], rest⟩, ?_, by simp [Reading.append, LiteralAssignment.text]⟩
    · refine mem_readings_seq.mpr ⟨_, (mem_readings_wordStart c.word_head).mpr ⟨hlast,
        a.beforeSign.text ++ '=' :: (a.right ++ rest), by simp [LiteralAssignment.text], rfl⟩,
        ⟨a.beforeSign.text ++ ['='], [], a.right ++ rest⟩, ?_, by simp [Reading.append]⟩
      exact mem_readings_seq.mpr ⟨_, mem_readings_run.mpr ⟨a.beforeSign.text, _, rfl, a.beforeSign.blank, rfl⟩, _,
        mem_readings_char.mpr ⟨_, rfl, rfl⟩, by simp [Reading.append]⟩
    · refine mem_readings_seq.mpr ⟨_, mem_readings_run.mpr ⟨a.afterSign.text, a.literal ++ (a.beforeEnd.text ++ a.stop :: rest),
        by simp [LiteralAssignment.right], a.afterSign.blank, rfl⟩,
        ⟨a.literal ++ (a.beforeEnd.text ++ [a.stop]), [(1, a.literal)], rest⟩, ?_,
        by simp [Reading.append, LiteralAssignment.right]⟩
      refine mem_readings_seq.mpr ⟨_, mem_readings_group.mpr ⟨_, mem_readings_signedDigits.mpr ⟨a.literal, _, rfl, a.signed, rfl⟩,
        rfl⟩, ⟨a.beforeEnd.text ++ [a.stop], [], rest⟩, ?_, by simp [Reading.append, Reading.keep]⟩
      exact mem_readings_seq.mpr ⟨_, mem_readings_run.mpr ⟨a.beforeEnd.text, _, rfl, a.beforeEnd.blank, rfl⟩, _,
        mem_readings_one.mpr ⟨a.stop, rest, rfl, a.ends, rfl⟩, by simp [Reading.append]⟩

/-- A match of the channel's pattern keeps the first literal that is assigned. -/
theorem isFirst_of_find? {m : Match} (h : c.assignment.find? code = some m) :
    ∃ a : LiteralAssignment c.variableName.toList, a.IsFirst code ∧ m.group? 1 = some a.literal := by
  obtain ⟨before, r, hstands, hclear⟩ := @findFrom_eq_some _ none 0 _ _ h
  obtain ⟨hedge, a, rest, hrest, hr⟩ := mem_readings_assignment.mp (mem_of_read? hstands.read)
  refine ⟨a, ⟨before, ⟨hedge, rest, hstands.split.trans (congrArg (before ++ ·) hrest)⟩, ?_⟩, ?_⟩
  · -- In front of the match the code is clear of the pattern.
    rintro b before' ⟨hedge', rest', hcode⟩
    by_contra hlt
    rcases List.append_eq_append_iff.mp (hstands.split.symm.trans hcode) with ⟨w, rfl, -⟩ | ⟨w, rfl, hw⟩
    · exact hlt (by rw [List.length_append]; exact Nat.le_add_right _ _)
    · have hne : w ≠ [] := fun hnil => hlt (by simp [hnil])
      have hnone := clear_iff.mp hclear before' w rfl hne
      rw [← hw] at hnone
      exact read?_eq_none.mp hnone _ (mem_readings_assignment.mpr ⟨hedge', b, rest', rfl, rfl⟩)
  · rw [hstands.match_eq, hr]
    rfl

theorem exists_find?_of_standsIn {a : LiteralAssignment c.variableName.toList} {before : List Char} (h : a.StandsIn code before) :
    ∃ m, c.assignment.find? code = some m := by
  obtain ⟨hedge, rest, rfl⟩ := h
  exact exists_find? ⟨_, mem_readings_assignment.mpr ⟨hedge, a, rest, rfl, rfl⟩⟩

/-- The value of a channel is the first literal that is assigned to it, if it is in the range of integers. -/
theorem value?_eq_some {id : Nat} {n : Int} : c.chain.value? ⟨id, code⟩ = some n ↔
    ∃ a : LiteralAssignment c.variableName.toList, a.IsFirst code ∧ integer? a.literal = some n := by
  have hvalue : c.chain.value? ⟨id, code⟩ = (c.assignment.find? code).bind (·.integer? 1) :=
    IdiomChain.value?_singleton _ _ _
  rw [hvalue, Option.bind_eq_some_iff]
  constructor
  · rintro ⟨m, hm, hn⟩
    obtain ⟨a, ha, hgroup⟩ := isFirst_of_find? hm
    rw [Match.integer?, hgroup] at hn
    exact ⟨a, ha, hn⟩
  · rintro ⟨a, ha, hn⟩
    obtain ⟨m, hm⟩ := exists_find?_of_standsIn ha.choose_spec.1
    obtain ⟨b, hb, hgroup⟩ := isFirst_of_find? hm
    refine ⟨m, hm, ?_⟩
    rw [Match.integer?, hgroup, hb.unique ha]
    exact hn

/-- The code assigns the variable of the channel. -/
def AssignedIn (c : Channel) (code : List Char) : Prop :=
  ∃ before, (lastOf none before).any isWord = false ∧ ∃ (gap : Gap) (rest : List Char),
    code = before ++ (c.variableName.toList ++ (gap.text ++ '=' :: rest)) ∧ rest.head? ≠ some '='

/-- The first literal that the code assigns to the channel, if there is one, is in the range of integers. -/
def ReadIn (c : Channel) (code : List Char) : Prop :=
  ∃ (a : LiteralAssignment c.variableName.toList) (n : Int), a.IsFirst code ∧ integer? a.literal = some n

theorem readIn_iff (id : Nat) : c.ReadIn code ↔ (c.chain.value? ⟨id, code⟩).isSome = true := by
  rw [Option.isSome_iff_exists]
  simp only [value?_eq_some, ReadIn]
  exact exists_comm

end Channel

/-! ### What the records of a group state -/

/-- The channel swings with the tick. -/
def Animation.isSwing : Animation → Bool
  | pulse _ _ _ _ => true
  | cycle _ _ | positionCycle _ _ => false

/-- The record has a value for the channel, or for the light a pulse, or for the red channel a swing. -/
def Variant.StatesChannel (r : Variant) (c : Channel) : Prop :=
  (r.channels.get c).isSome = true ∨ (c = .light ∧ r.lightPulse.isSome = true) ∨ (c = .cr ∧ r.animation.any (·.isSwing) = true)

namespace VariantPass
variable {p : VariantPass} {g : CaseGroup} {c : Channel}

/-- What the idioms read: the first number of the group and its code. -/
def scope (g : CaseGroup) : Scope := ⟨g.ids.headD 0, g.code⟩

/-- A function that has one value for all its groups has one group, and that has the value. -/
theorem exists_only_group {source : Source} {function : String} {β : Type} {f : Located → CaseGroup → β} {b : β}
    (h : (Located.find? source function).map (fun l => (caseGroups .fallThrough breakStatement l.code).map (f l)) = some [b]) :
    ∃ l g, Located.find? source function = some l ∧ g ∈ caseGroups .fallThrough breakStatement l.code ∧ f l g = b := by
  obtain ⟨l, hl, hgroups⟩ := Option.map_eq_some_iff.mp h
  obtain ⟨g, hgroup, hg⟩ := List.map_eq_singleton_iff.mp hgroups
  exact ⟨l, g, hl, by rw [hgroup]; exact List.mem_singleton_self g, hg⟩

/-- The animation in the record of one number of a group. -/
def animationOf (p : VariantPass) (g : CaseGroup) (id : Nat) : Option Animation :=
  ((p.remapOf? g id).bind (·.animation)).or (p.maskPulse? (scope g))

theorem records_eq_map (p : VariantPass) (g : CaseGroup) (comment : Option String) : p.records g comment =
    g.ids.map fun id => recordOf g.code (shared (scope g) comment) (p.maskPulse? (scope g)) (p.remapOf? g id) id := rfl

theorem states_recordOf {comment : Option String} {id : Nat} :
    (recordOf g.code (shared (scope g) comment) (p.maskPulse? (scope g)) (p.remapOf? g id) id).StatesChannel c ↔
      c.ReadIn g.code ∨ (c = .light ∧ (Pulse.lightChain.value? (scope g)).isSome = true) ∨
        (c = .cr ∧ (p.animationOf g id).any (·.isSwing) = true) := by
  rw [Channel.readIn_iff (g.ids.headD 0)]
  simp only [Variant.StatesChannel, recordOf, shared, Channels.read, Channels.get_ofGet, animationOf, scope]

/-- Whether the record of a number moves: by an animation of its own or by a pulse of the group. -/
def Moves (p : VariantPass) (g : CaseGroup) (id : Nat) : Prop :=
  (p.animationOf g id).isSome = true ∨ (Pulse.colorChain.value? (scope g)).isSome = true ∨
    (Pulse.lightChain.value? (scope g)).isSome = true

/-! ### What calls for a diagnostic -/

/-- Nothing in the code of the group calls for a diagnostic. -/
structure Quiet (p : VariantPass) (g : CaseGroup) : Prop where
  /-- The assignment of the sprite is read. -/
  remapped : (p.remap.value? (scope g)).isSome = true
  /-- Where a distance is taken, a pulse is read. -/
  pulsed : absCall.occursIn g.code = true →
    (Pulse.colorChain.value? (scope g)).isSome = true ∨ (Pulse.lightChain.value? (scope g)).isSome = true
  /-- The packed colors that are assigned are read, as colors or as a pulse. -/
  colored : ∀ slot ∈ assignedSlots g.code, (((PackedColors.chain.value? (scope g)).getD {}).get slot).isSome = true ∨
    (Pulse.colorChain.value? (scope g)).any (fun pulse => pulse.target = slot) = true
  /-- Code that decides at run time belongs to a tick mask. -/
  decided : dynamicCode.occursIn g.code = true → (p.maskPulse? (scope g)).isSome = true
  /-- Code with a tick moves every record. -/
  moving : tickWord.occursIn g.code = true → ∀ id ∈ g.ids, p.Moves g id

theorem reviewText?_eq_none {code : List Char} {r : Variant} {masked : Bool} : reviewText? code r masked = none ↔
    (dynamicCode.occursIn code = true → masked = true) ∧ (tickWord.occursIn code = true → r.hasAnimation = true) := by
  rw [reviewText?]
  split
  · rename_i h
    simp only [Bool.or_eq_true, Bool.and_eq_true, Bool.not_eq_true'] at h
    rcases h with ⟨h, h'⟩ | ⟨h, h'⟩ <;> simp [h, h']
  · rename_i h
    simp only [Bool.or_eq_true, Bool.and_eq_true, Bool.not_eq_true', not_or, not_and, Bool.not_eq_false] at h
    simpa using h

/-- The record of a number is not kept for review if what decides at run time and what ticks is accounted for. -/
theorem needsReview_recordOf (comment : Option String) (id : Nat) :
    (recordOf g.code (shared (scope g) comment) (p.maskPulse? (scope g)) (p.remapOf? g id) id).needsReview = none ↔
      (dynamicCode.occursIn g.code = true → (p.maskPulse? (scope g)).isSome = true) ∧
        (tickWord.occursIn g.code = true → p.Moves g id) := by
  rw [recordOf, reviewText?_eq_none]
  simp only [Variant.hasAnimation, shared, Moves, animationOf, Bool.or_eq_true, or_assoc]

/-- No record of the group is kept for review if what decides at run time and what ticks is accounted for. -/
theorem needsReview_records (hids : g.ids ≠ []) (comment : Option String) :
    (p.records g comment).any (fun r => r.needsReview.isSome) = false ↔
      (dynamicCode.occursIn g.code = true → (p.maskPulse? (scope g)).isSome = true) ∧
        (tickWord.occursIn g.code = true → ∀ id ∈ g.ids, p.Moves g id) := by
  obtain ⟨first, hfirst⟩ := List.exists_mem_of_ne_nil _ hids
  simp only [records_eq_map, List.any_map, List.any_eq_false, Function.comp_apply, Option.not_isSome_iff_eq_none,
    needsReview_recordOf]
  constructor
  · intro h
    exact ⟨(h first hfirst).1, fun htick id hid => (h id hid).2 htick⟩
  · rintro ⟨hdecided, hmoving⟩ id hid
    exact ⟨hdecided, fun htick => hmoving htick id hid⟩

/-- A group is reported unless its code is quiet. -/
theorem diagnostics_eq_nil (hids : g.ids ≠ []) (l : Located) (comment : Option String) :
    p.diagnostics l g (p.records g comment) = [] ↔ p.Quiet g := by
  have hite : ∀ {b : Bool} {d : Diagnostic}, (if b then [d] else []) = [] ↔ b = false := by
    intro b d
    cases b <;> simp
  have hpulse : ∀ {b : Bool} {x : Option ColorPulse} {y : Option LightPulse}, (b && x.isNone && y.isNone) = false ↔
      (b = true → x.isSome = true ∨ y.isSome = true) := by
    intro b x y
    cases b <;> cases x <;> cases y <;> simp
  have hslot : ∀ {x : Option Nat} {b : Bool}, ¬(x.isNone && !b) = true ↔ x.isSome = true ∨ b = true := by
    intro x b
    cases x <;> cases b <;> simp
  simp only [diagnostics, List.append_eq_nil_iff, hite, hpulse, List.map_eq_nil_iff, needsReview_records hids, unreadSlots,
    List.filter_eq_nil_iff, hslot, Option.isNone_eq_false_iff]
  constructor
  · rintro ⟨⟨⟨hremap, habs⟩, hslots⟩, hdecided, hmoving⟩
    exact ⟨hremap, habs, hslots, hdecided, hmoving⟩
  · rintro ⟨hremap, habs, hslots, hdecided, hmoving⟩
    exact ⟨⟨⟨hremap, habs⟩, hslots⟩, hdecided, hmoving⟩

theorem ids_of_mem_diagnostics {l : Located} {records : List Variant} : ∀ d ∈ p.diagnostics l g records, d.ids = g.ids := by
  intro d hd
  simp only [diagnostics, List.mem_append, List.mem_map] at hd
  rcases hd with ((hd | hd) | ⟨slot, -, rfl⟩) | hd
  · split at hd
    · obtain rfl := List.mem_singleton.mp hd
      rfl
    · cases hd
  · split at hd
    · obtain rfl := List.mem_singleton.mp hd
      rfl
    · cases hd
  · rfl
  · split at hd
    · obtain rfl := List.mem_singleton.mp hd
      rfl
    · cases hd

/-! ### Channels that are lost -/

/-- Every record of the group states the channel. -/
def Recorded (p : VariantPass) (l : Located) (g : CaseGroup) (c : Channel) : Prop :=
  ∀ r ∈ p.groupRecords l.body.text l.code g, r.StatesChannel c

/-- The report of the pass names the numbers of the group. -/
def Reported (p : VariantPass) (source : Source) (settings : Settings) (g : CaseGroup) : Prop :=
  ∃ d ∈ (p.run source settings).2.diagnostics, d.ids = g.ids

/-- The code of a group among others gives no value for the channel, neither a literal nor a movement that counts for
    it, and nothing else in the code of a group with its numbers calls for a diagnostic. -/
structure Overlooked (p : VariantPass) (groups : List CaseGroup) (g : CaseGroup) (c : Channel) : Prop where
  unread : ¬c.ReadIn g.code
  steady : c = .light → (Pulse.lightChain.value? (scope g)).isSome = false
  still : c = .cr → ∃ id ∈ g.ids, (p.animationOf g id).any (·.isSwing) = false
  quiet : ∀ h ∈ groups, h.ids = g.ids → p.Quiet h

theorem recorded_iff {l : Located} (hids : g.ids ≠ []) : p.Recorded l g c ↔ c.ReadIn g.code ∨
    (c = .light ∧ (Pulse.lightChain.value? (scope g)).isSome = true) ∨
      (c = .cr ∧ ∀ id ∈ g.ids, (p.animationOf g id).any (·.isSwing) = true) := by
  obtain ⟨first, hfirst⟩ := List.exists_mem_of_ne_nil _ hids
  simp only [Recorded, groupRecords, records_eq_map, List.forall_mem_map, states_recordOf]
  constructor
  · intro h
    rcases h first hfirst with hread | hlight | ⟨hc, -⟩
    · exact Or.inl hread
    · exact Or.inr (Or.inl hlight)
    · by_cases hread : c.ReadIn g.code
      · exact Or.inl hread
      · refine Or.inr (Or.inr ⟨hc, fun id hid => ?_⟩)
        rcases h id hid with hread' | ⟨hlight, -⟩ | ⟨-, hswing⟩
        · exact absurd hread' hread
        · rw [hc] at hlight
          cases hlight
        · exact hswing
  · rintro (hread | hlight | ⟨hc, hswing⟩) id hid
    · exact Or.inl hread
    · exact Or.inr (Or.inl hlight)
    · exact Or.inr (Or.inr ⟨hc, hswing id hid⟩)

theorem reported_iff {source : Source} {settings : Settings} {l : Located}
    (hl : Located.find? source (settings.functionFor p.pass) = some l) (hids : g.ids ≠ []) : p.Reported source settings g ↔
      ∃ h ∈ caseGroups .fallThrough breakStatement l.code, h.ids = g.ids ∧ ¬p.Quiet h := by
  have hrun : (p.run source settings).2.diagnostics = l.unclosed ++ (caseGroups .fallThrough breakStatement l.code).flatMap
      fun h => p.diagnostics l h (p.groupRecords l.body.text l.code h) := by
    simp [run, hl, Located.report, List.flatMap_map]
  have hunclosed : ∀ d ∈ l.unclosed, d.ids = [] := by
    intro d hd
    unfold Located.unclosed at hd
    split at hd
    · cases hd
    · obtain rfl := List.mem_singleton.mp hd
      rfl
  rw [Reported, hrun]
  constructor
  · rintro ⟨d, hd, hdids⟩
    rcases List.mem_append.mp hd with hd | hd
    · exact absurd (hdids.symm.trans (hunclosed d hd)) hids
    · obtain ⟨h, hh, hd⟩ := List.mem_flatMap.mp hd
      refine ⟨h, hh, (ids_of_mem_diagnostics d hd).symm.trans hdids, fun hquiet => ?_⟩
      rw [groupRecords, (diagnostics_eq_nil (ids_ne_nil_of_mem_fallThrough hh) l _).mpr hquiet] at hd
      cases hd
  · rintro ⟨h, hh, hhids, hloud⟩
    have hne := mt (diagnostics_eq_nil (ids_ne_nil_of_mem_fallThrough hh) l
      (capturedComment? (h.spanOf l.body.text) (h.spanOf l.code))).mp hloud
    obtain ⟨d, hd⟩ := List.exists_mem_of_ne_nil _ hne
    exact ⟨d, List.mem_append_right _ (List.mem_flatMap.mpr ⟨h, hh, hd⟩), (ids_of_mem_diagnostics d hd).trans hhids⟩

/-- Every record of a group has the first literal that the group assigns to a channel. Any channel is in all the records,
    or the report names the group, unless the channel is overlooked. -/
theorem recorded_or_reported_iff {source : Source} {settings : Settings} {l : Located}
    (hl : Located.find? source (settings.functionFor p.pass) = some l)
    (hg : g ∈ caseGroups .fallThrough breakStatement l.code) (c : Channel) :
    (∀ (a : LiteralAssignment c.variableName.toList) (n : Int), a.IsFirst g.code → integer? a.literal = some n →
      ∀ r ∈ p.groupRecords l.body.text l.code g, r.channels.get c = some n) ∧
    ((p.Recorded l g c ∨ p.Reported source settings g) ↔
      ¬p.Overlooked (caseGroups .fallThrough breakStatement l.code) g c) := by
  have hids := ids_ne_nil_of_mem_fallThrough hg
  refine ⟨fun a n ha hn r hr => ?_, ?_⟩
  · obtain ⟨id, -, rfl⟩ := List.mem_map.mp hr
    show (Channels.read (scope g)).get c = some n
    rw [Channels.read, Channels.get_ofGet, scope, Channel.value?_eq_some]
    exact ⟨a, ha, hn⟩
  rw [recorded_iff hids, reported_iff hl hids]
  constructor
  · rintro ((hread | ⟨hc, hlight⟩ | ⟨hc, hswing⟩) | ⟨h, hh, hhids, hloud⟩) ho
    · exact ho.unread hread
    · exact absurd hlight (by rw [ho.steady hc]; simp)
    · obtain ⟨id, hid, hnone⟩ := ho.still hc
      exact absurd (hswing id hid) (by rw [hnone]; simp)
    · exact hloud (ho.quiet h hh hhids)
  · intro ho
    by_contra hlost
    simp only [not_or, not_and, not_exists, not_forall, Bool.not_eq_true, not_not] at hlost
    obtain ⟨⟨hread, hlight, hswing⟩, hquiet⟩ := hlost
    exact ho ⟨hread, hlight, fun hc => by simpa using hswing hc, hquiet⟩

theorem recorded_or_reported_iff_named :
    let source := Source.ofString "sprites.c" ("int _trans_asprite(int sprite)\n\x7b\nswitch (sprite) \x7b\n" ++
      "case 1:\ncr = foo; cg = 20;\nbreak;\ncase 2:\ncr = foo; c1 = foo;\nbreak;\n\x7d\n\x7d\n")
    ∃ l g, Located.find? source "_trans_asprite" = some l ∧ g ∈ caseGroups .fallThrough breakStatement l.code ∧ g.ids = [2] ∧
      ((∀ (a : LiteralAssignment "cr".toList) (n : Int), a.IsFirst g.code → integer? a.literal = some n →
          ∀ r ∈ animated.groupRecords l.body.text l.code g, r.channels.get .cr = some n) ∧
        ((animated.Recorded l g .cr ∨ animated.Reported source {} g) ↔
          ¬animated.Overlooked (caseGroups .fallThrough breakStatement l.code) g .cr)) ∧
      (animated.run source {}).2.diagnostics.map (fun d => (d.ids, d.message)) = [([2], "unrecognized c1 value")] := by
  intro source
  have hgroups : (Located.find? source "_trans_asprite").map
      (fun l => (caseGroups .fallThrough breakStatement l.code).map (·.ids)) = some [[1], [2]] := by decide +kernel
  obtain ⟨l, hl, hgroups⟩ := Option.map_eq_some_iff.mp hgroups
  obtain ⟨g, hg, hids⟩ : ∃ g ∈ caseGroups .fallThrough breakStatement l.code, g.ids = [2] :=
    List.mem_map.mp (by rw [hgroups]; decide)
  exact ⟨l, g, hl, hg, hids, @recorded_or_reported_iff animated g source {} l hl hg .cr, by decide +kernel⟩

/-- An assigned channel can be in no record with nothing reported. -/
theorem static_channel_lost :
    let source := Source.ofString "sprites.c"
      "int _trans_asprite(int sprite)\n\x7b\nswitch (sprite) \x7b\ncase 1:\ncr = foo;\nbreak;\n\x7d\n\x7d\n"
    ∃ l g, Located.find? source "_trans_asprite" = some l ∧ g ∈ caseGroups .fallThrough breakStatement l.code ∧
      Channel.cr.AssignedIn g.code ∧ ¬animated.Recorded l g .cr ∧ ¬animated.Reported source {} g := by
  intro source
  have hgroups : (Located.find? source "_trans_asprite").map (fun l => (caseGroups .fallThrough breakStatement l.code).map
      fun g => (g.code, (animated.groupRecords l.body.text l.code g).map fun r => (r.channels.cr, r.animation))) =
        some [("\ncr = foo;\n".toList, [(none, none)])] := by decide +kernel
  have hsilent : (animated.run source {}).2.diagnostics = [] := by decide +kernel
  obtain ⟨l, hl, hgroups⟩ := Option.map_eq_some_iff.mp hgroups
  obtain ⟨g, hgroup, hg⟩ := List.map_eq_singleton_iff.mp hgroups
  obtain ⟨hcode, hrecords⟩ := Prod.mk.inj hg
  obtain ⟨r, hr, hvalues⟩ := List.map_eq_singleton_iff.mp hrecords
  obtain ⟨hcr, hanimation⟩ := Prod.mk.inj hvalues
  refine ⟨l, g, hl, by rw [hgroup]; exact List.mem_singleton_self g, ?_, fun hrecorded => ?_, ?_⟩
  · rw [hcode]
    exact ⟨['\n'], by decide, ⟨[' '], by decide⟩, " foo;\n".toList, rfl, by decide⟩
  · have hstates := hrecorded r (by rw [hr]; exact List.mem_singleton_self r)
    simp [Variant.StatesChannel, Channels.get, hcr, hanimation] at hstates
  · rintro ⟨d, hd, -⟩
    rw [hsilent] at hd
    cases hd

end VariantPass
end SpriteFacts
