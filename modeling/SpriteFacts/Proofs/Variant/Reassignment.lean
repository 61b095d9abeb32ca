import SpriteFacts.Proofs.Variant.AssignmentGroup

/-! Channels that code assigns more than once, as happens when one label with code falls through into another. Running
    the code leaves the last value in a channel, but the chain of the channel reads the first, so the two agree
    exactly on the channels whose first value is also their last. -/

namespace SpriteFacts

open Switch Text Pattern

/-! ### Running assignments -/

/-- The channels after an assignment; the sprite is none of them. -/
def Assignment.apply (v : Channels) : Assignment → Channels
  | channel c k => v.set c k.value
  | sprite _ => v

/-- The channels after all assignments, one after another. -/
def channelsAfter (as : List Assignment) : Channels := as.foldl Assignment.apply {}

theorem Assignment.get_apply (v : Channels) (a : Assignment) (c : Channel) :
    (a.apply v).get c = if a.target = .channel c then some a.value else v.get c := by
  cases a with
  | channel d k =>
    show (v.set d k.value).get c = if Variable.channel d = Variable.channel c then some k.value else v.get c
    rw [Channels.set, Channels.get_ofGet]
    exact if_congr ⟨fun h => congrArg Variable.channel h.symm, fun h => (Variable.channel.inj h).symm⟩ rfl rfl
  | sprite n => rfl

theorem lastAssigned_cons (v : Variable) (a : Assignment) (as : List Assignment) :
    lastAssigned v (a :: as) = (lastAssigned v as).or (if a.target = v then some a.value else none) := by
  rw [lastAssigned, List.reverse_cons, List.find?_append, Option.map_or, ← lastAssigned]
  by_cases h : a.target = v <;> simp [h]

/-- Running the assignments leaves the last value in each channel. -/
theorem get_channelsAfter (as : List Assignment) (c : Channel) : (channelsAfter as).get c = lastAssigned (.channel c) as := by
  have hfold : ∀ v : Channels, (as.foldl Assignment.apply v).get c = (lastAssigned (.channel c) as).or (v.get c) := by
    induction as with
    | nil => exact fun v => rfl
    | cons a as ih =>
      intro v
      rw [List.foldl_cons, ih, lastAssigned_cons, a.get_apply, Option.or_assoc]
      by_cases h : a.target = .channel c <;> simp [h]
  rw [channelsAfter, hfold]
  have hnone : ({} : Channels).get c = none := by cases c <;> rfl
  rw [hnone, Option.or_none]

/-! ### Reading them -/

/-- The channel is assigned a first value and left with another. -/
def Reassigned (c : Channel) (as : List Assignment) : Prop :=
  ∃ first last, (firstTo (.channel c) as).map (·.value) = some first ∧ lastAssigned (.channel c) as = some last ∧ first ≠ last

theorem isSome_lastAssigned (v : Variable) (as : List Assignment) :
    (lastAssigned v as).isSome = ((firstTo v as).map (·.value)).isSome := by
  rw [lastAssigned, firstTo, Option.isSome_map, Option.isSome_map, List.isSome_find?, List.isSome_find?, List.any_reverse]

/-- The chain of a channel reads the first value that is assigned to it, and what running the code leaves there exactly
    if the channel is not reassigned. -/
theorem channel_last_iff_not_reassigned {as : List Assignment} {t : List Char} (hs : Spells as t) (id : Nat) (c : Channel) :
    c.chain.value? ⟨id, t⟩ = (firstTo (.channel c) as).map (·.value) ∧
      (c.chain.value? ⟨id, t⟩ = (channelsAfter as).get c ↔ ¬Reassigned c as) := by
  have hvalue : c.chain.value? ⟨id, t⟩ = (firstTo (.channel c) as).map (·.value) := by
    have hchannels := congrArg (·.get c) (hs.channels_eq id)
    simpa only [Channels.read, Channels.get_ofGet] using hchannels
  refine ⟨hvalue, ?_⟩
  rw [hvalue, get_channelsAfter]
  have hsome := isSome_lastAssigned (.channel c) as
  constructor
  · rintro heq ⟨first, last, hfirst, hlast, hne⟩
    rw [hfirst, hlast] at heq
    exact hne (Option.some.inj heq)
  · intro hnot
    cases hfirst : (firstTo (.channel c) as).map (·.value) with
    | none =>
      rw [hfirst, Option.isSome_none, Option.isSome_eq_false_iff, Option.isNone_iff_eq_none] at hsome
      exact hsome.symm
    | some first =>
      rw [hfirst, Option.isSome_some] at hsome
      obtain ⟨last, hlast⟩ := Option.isSome_iff_exists.mp hsome
      rw [hlast]
      by_contra hne
      exact hnot ⟨first, last, hfirst, hlast, fun h => hne (congrArg some h)⟩

/-- Two assignments to one channel, as a fall through brings them together. -/
def twice : List Assignment := [.channel .cr (.plain 1), .channel .cr (.plain 2)]

theorem spells_twice : Spells twice "cr = 1; cr = 2;".toList :=
  @Spells.assign [] _ _ _ rfl (@Spells.assign [' '] _ _ _ rfl (@Spells.blank [] rfl))

theorem channel_last_iff_not_reassigned_twice :
    Spells twice "cr = 1; cr = 2;".toList ∧ Channel.cr.chain.value? ⟨0, "cr = 1; cr = 2;".toList⟩ = some 1 ∧
      (Channel.light.chain.value? ⟨0, "cr = 1; cr = 2;".toList⟩ = none ↔ ¬Reassigned .light twice) :=
  ⟨spells_twice, (channel_last_iff_not_reassigned spells_twice 0 .cr).1, (channel_last_iff_not_reassigned spells_twice 0 .light).2⟩

/-- The chain reads the first of two values and not the last. -/
theorem channel_reads_first_value :
    Spells twice "cr = 1; cr = 2;".toList ∧ Channel.cr.chain.value? ⟨0, "cr = 1; cr = 2;".toList⟩ = some 1 ∧
      (channelsAfter twice).get .cr = some 2 :=
  ⟨spells_twice, by decide +kernel, rfl⟩

end SpriteFacts
