import SpriteFacts.Proofs.Variant.StaticChannel
import SpriteFacts.Proofs.Variant.TickBody

/-! Ticks that no idiom accounts for. Code with a tick is kept for review if its record does not move, and one idiom that
    reads a tick makes the record move. So a tick beside it that no idiom matches is passed over: a second statement of
    a kind, of which only the first is matched, or a statement that no idiom matches. The main statement says
    which ticks are stray and when the group is kept for review. -/

namespace SpriteFacts

open Switch Text Pattern

/-- The pass reads a movement with the idiom. -/
def TickIdiom.Reads (p : VariantPass) (s : Scope) : TickIdiom → Prop
  | baseCycle => ∃ r, p.remap.firstMatch? s = some ("base-cycle", r)
  | selfCycle => ∃ r, p.remap.firstMatch? s = some ("self-cycle", r)
  | mask => (p.maskPulse? s).isSome = true
  | color => (Pulse.colorChain.value? s).isSome = true
  | light => (Pulse.lightChain.value? s).isSome = true

namespace VariantPass

/-- Some tick stands outside of all that the idioms match from which a movement is read. -/
def StrayTick (p : VariantPass) (g : CaseGroup) : Prop :=
  ∃ before behind, Remap.Occurs "attick" g.code before behind ∧ ∀ (i : TickIdiom) (m : Match), i.Reads p (scope g) →
    (i.pattern p.spriteVariable).find? g.code = some m →
      ¬(m.start ≤ byteLength before ∧ byteLength (before ++ "attick".toList) ≤ m.stop)

/-- Every record of the group is kept for review, and the group has a diagnostic that asks for one. -/
def Flagged (p : VariantPass) (l : Located) (g : CaseGroup) : Prop :=
  (∀ r ∈ p.groupRecords l.body.text l.code g, r.needsReview.isSome = true) ∧
    ∃ d ∈ p.diagnostics l g (p.groupRecords l.body.text l.code g), d.severity = .review ∧ d.ids = g.ids

end VariantPass

/-! ### The ticks of a body -/

section Ticks
variable {ss : List TickStatement} {trail : Gap}

theorem TickStatement.ticks_iff (s : TickStatement) : s.ticks = true ↔ ∃ front back, TickAt s.text front back := by
  refine ⟨s.exists_tickAt, fun ⟨front, back, h⟩ => ?_⟩
  by_contra hticks
  refine s.tick_not_mem (Bool.not_eq_true _ ▸ hticks) ?_
  rw [h.split]
  simp

/-- Behind statements no word goes on. -/
theorem outside_statements (as : List TickStatement) : Outside (as.flatMap TickStatement.text) := by
  induction as with
  | nil => exact fun _ hlast => hlast
  | cons s as ih =>
    rw [List.flatMap_cons]
    exact Outside.append (fun last _ => s.isStatement_text.lastOf last) ih

/-- A tick of a body is the tick of one of its statements. -/
theorem occurs_tick_iff {before behind : List Char} : Remap.Occurs "attick" (tickBody ss trail) before behind ↔
    ∃ as s bs front back, ss = as ++ s :: bs ∧ TickAt s.text front back ∧ before = as.flatMap TickStatement.text ++ front ∧
      behind = back ++ (bs.flatMap TickStatement.text ++ trail.text) := by
  constructor
  · intro h
    -- The letter 'k' stands in a statement, and there it is that of the tick.
    have hsplit : ss.flatMap TickStatement.text ++ trail.text = (before ++ "attic".toList) ++ 'k' :: behind := by
      rw [← tickBody, h.split]
      simp
    obtain ⟨us, hus, rfl⟩ := exists_front hsplit (trail.not_mem (by decide))
    obtain ⟨as, s, bs, u, w, rfl, htext, hbefore, rfl⟩ := split_of_flatMap hus
    have hticks : s.ticks = true := by
      by_contra hticks
      exact s.tick_not_mem (Bool.not_eq_true _ ▸ hticks) (htext ▸ List.mem_append_right _ List.mem_cons_self)
    obtain ⟨front, back, htick⟩ := s.exists_tickAt hticks
    have hletter : (front ++ "attic".toList) ++ 'k' :: back = u ++ 'k' :: w := by
      rw [← htext, htick.split]
      simp
    obtain ⟨rfl, rfl⟩ := split_once (by simp [htick.alone.1]) htick.alone.2 hletter
    rw [← List.append_assoc] at hbefore
    exact ⟨as, s, bs, front, back, rfl, htick, List.append_cancel_right hbefore, by simp⟩
  · rintro ⟨as, s, bs, front, back, rfl, htick, rfl, rfl⟩
    refine ⟨by simp [tickBody, htick.split], (outside_statements as).append htick.outside none rfl, ?_⟩
    obtain ⟨c, rest, rfl, hc⟩ := htick.ends
    exact hc

theorem tickWord_occursIn_iff : VariantPass.tickWord.occursIn (tickBody ss trail) = true ↔ ∃ s ∈ ss, s.ticks = true := by
  rw [VariantPass.tickWord, occursIn_word (by decide) (by decide)]
  constructor
  · rintro ⟨before, behind, hsplit, hstarts, hends⟩
    obtain ⟨as, s, bs, front, back, rfl, htick, -⟩ := occurs_tick_iff.mp ⟨hsplit, hstarts, hends⟩
    exact ⟨s, by simp, s.ticks_iff.mpr ⟨front, back, htick⟩⟩
  · rintro ⟨s, hs, hticks⟩
    obtain ⟨as, bs, rfl⟩ := List.append_of_mem hs
    obtain ⟨front, back, htick⟩ := s.exists_tickAt hticks
    have h := (@occurs_tick_iff _ trail _ _).mpr ⟨as, s, bs, front, back, rfl, htick, rfl, rfl⟩
    exact ⟨_, _, h.split, h.startsWord, h.endsWord⟩

end Ticks

/-! ### What a pass reads from a body -/

namespace VariantPass
variable {p : VariantPass} {g : CaseGroup} {ss : List TickStatement} {trail : Gap}

/-- Where the two passes look for a cycle. -/
structure Draws (p : VariantPass) : Prop where
  variable_eq : SpriteVariable p.spriteVariable
  remap_eq : p.remap = Remap.chain p.spriteVariable

theorem draws (hp : p = character ∨ p = animated) : p.Draws := by
  rcases hp with rfl | rfl
  · exact ⟨Or.inl rfl, rfl⟩
  · exact ⟨Or.inr rfl, rfl⟩

theorem maskPulse?_body (p : VariantPass) (hcode : g.code = tickBody ss trail) : p.maskPulse? (scope g) = none := by
  rw [maskPulse?, scope, hcode, maskChain_eq_none, ite_self]

/-- A movement is read with an idiom exactly if one of the statements is of its kind. -/
theorem reads_iff (hp : p.Draws) (hcode : g.code = tickBody ss trail) (i : TickIdiom) :
    i.Reads p (scope g) ↔ ∃ s ∈ ss, s.idiom? p.spriteVariable = some i := by
  have hkind : ∀ {i : TickIdiom}, (∀ s : TickStatement, s.idiom? p.spriteVariable ≠ some i) →
      ¬∃ s ∈ ss, s.idiom? p.spriteVariable = some i := fun h ⟨s, _, hs⟩ => h s hs
  cases i with
  | baseCycle =>
    rw [TickIdiom.Reads, hp.remap_eq, scope, hcode]
    exact firstMatch?_baseCycle hp.variable_eq _
  | selfCycle =>
    rw [TickIdiom.Reads, hp.remap_eq, scope, hcode]
    exact iff_of_false (firstMatch?_ne_selfCycle hp.variable_eq _) (hkind fun s => (s.idiom?_ne _).2)
  | mask =>
    rw [TickIdiom.Reads, maskPulse?_body p hcode]
    exact iff_of_false Bool.false_ne_true (hkind fun s => (s.idiom?_ne _).1)
  | color =>
    rw [TickIdiom.Reads, scope, hcode]
    exact colorPulse_isSome_iff hp.variable_eq _
  | light =>
    rw [TickIdiom.Reads, scope, hcode]
    exact lightPulse_isSome_iff hp.variable_eq _

/-- The animation of every number comes from a cycle of the sprite variable. -/
theorem animationOf_isSome_iff (hp : p.Draws) (hcode : g.code = tickBody ss trail) (id : Nat) :
    (p.animationOf g id).isSome = true ↔ ∃ s ∈ ss, s.idiom? p.spriteVariable = some .baseCycle := by
  have hcycle := fun id => @cycle_isSome_iff p.spriteVariable ss trail hp.variable_eq id
  rw [animationOf, maskPulse?_body p hcode, Option.or_none, remapOf?, hp.remap_eq, hcode]
  split
  · exact hcycle id
  · rename_i hnone
    refine iff_of_false Bool.false_ne_true fun h => hnone ?_
    obtain ⟨a, ha⟩ := Option.isSome_iff_exists.mp ((hcycle (g.ids.headD 0)).mpr h)
    obtain ⟨r, hr, -⟩ := Option.bind_eq_some_iff.mp ha
    rw [hr]
    rfl

/-- The records of a body move exactly if an idiom accounts for one of its statements. -/
theorem moves_iff (hp : p.Draws) (hcode : g.code = tickBody ss trail) (id : Nat) :
    p.Moves g id ↔ ∃ s ∈ ss, (s.idiom? p.spriteVariable).isSome = true := by
  have hcolor : (Pulse.colorChain.value? (scope g)).isSome = true ↔ _ := reads_iff hp hcode .color
  have hlight : (Pulse.lightChain.value? (scope g)).isSome = true ↔ _ := reads_iff hp hcode .light
  rw [Moves, animationOf_isSome_iff hp hcode, hcolor, hlight]
  constructor
  · rintro (⟨s, hs, hkind⟩ | ⟨s, hs, hkind⟩ | ⟨s, hs, hkind⟩) <;> exact ⟨s, hs, by rw [hkind]; rfl⟩
  · rintro ⟨s, hs, hsome⟩
    obtain ⟨i, hi⟩ := Option.isSome_iff_exists.mp hsome
    cases i with
    | baseCycle => exact Or.inl ⟨s, hs, hi⟩
    | color => exact Or.inr (Or.inl ⟨s, hs, hi⟩)
    | light => exact Or.inr (Or.inr ⟨s, hs, hi⟩)
    | selfCycle => exact absurd hi (s.idiom?_ne _).2
    | mask => exact absurd hi (s.idiom?_ne _).1

/-! ### The ticks that are stray -/

/-- The idioms of statements take the sign of an assignment and a modulo. -/
theorem needs_pattern {v : String} {s : TickStatement} {i : TickIdiom} (h : s.idiom? v = some i) :
    Needs '=' (i.pattern v) ∧ Needs '%' (i.pattern v) := by
  cases i with
  | baseCycle => simp [TickIdiom.pattern, basePattern, Remap.laterModulus, Pattern.all, spaced, assignTo, Pattern.char, Needs]
  | color => simp [TickIdiom.pattern, Pulse.colorPattern, Pulse.tickDistance, Pattern.all, spaced, Pattern.char, Needs]
  | light => simp [TickIdiom.pattern, lightPattern, Pulse.tickDistance, Pattern.all, spaced, assignTo, Pattern.char, Needs]
  | selfCycle => exact absurd h (s.idiom?_ne v).2
  | mask => exact absurd h (s.idiom?_ne v).1

/-- Two places in a list are the same place, or one of them is behind the other. -/
theorem places {α : Type} {as as' bs bs' : List α} {s s' : α} (h : as ++ s :: bs = as' ++ s' :: bs') :
    (as = as' ∧ s = s') ∨ (∃ w, as' = as ++ s :: w) ∨ ∃ w, as = as' ++ s' :: w := by
  rcases List.append_eq_append_iff.mp h with ⟨_ | ⟨t, w⟩, has, hbs⟩ | ⟨_ | ⟨t, w⟩, has, hbs⟩
  · exact Or.inl ⟨by simpa using has.symm, (List.cons.inj hbs).1⟩
  · obtain ⟨rfl, -⟩ := List.cons.inj hbs
    exact Or.inr (Or.inl ⟨w, has⟩)
  · exact Or.inl ⟨by simpa using has, (List.cons.inj hbs).1.symm⟩
  · obtain ⟨rfl, -⟩ := List.cons.inj hbs
    exact Or.inr (Or.inr ⟨w, has⟩)

/-- What an idiom matches covers the tick of the first statement of its kind, and no other tick. -/
theorem covers_iff {v : String} (hv : SpriteVariable v) {i : TickIdiom} {m : Match} {as bs : List TickStatement}
    {s : TickStatement} {front back : List Char} (htick : TickAt s.text front back)
    (hm : (i.pattern v).find? (tickBody (as ++ s :: bs) trail) = some m) :
    (m.start ≤ byteLength (as.flatMap TickStatement.text ++ front) ∧
        byteLength (as.flatMap TickStatement.text ++ front ++ "attick".toList) ≤ m.stop) ↔
      s.idiom? v = some i ∧ ∀ t ∈ as, t.idiom? v ≠ some i := by
  have htext : byteLength s.text = byteLength front + (byteLength "attick".toList + byteLength back) := by
    rw [htick.split, byteLength_append, byteLength_append]
  have hlength : 0 < byteLength "attick".toList := by decide
  rcases i.search hv (as ++ s :: bs) trail with ⟨hnone, -⟩ | ⟨as', s', bs', m', hss, has', hkind, hs', hm'⟩
  · rw [hnone] at hm
    cases hm
  obtain rfl : m'.shift _ = m := Option.some.inj (hm'.symm.trans hm)
  simp only [Match.shift, byteLength_append]
  rcases places hss with ⟨rfl, rfl⟩ | ⟨w, rfl⟩ | ⟨w, rfl⟩
  · obtain ⟨hsign, hmodulo⟩ := needs_pattern hkind
    obtain ⟨hstart, hstop⟩ := htick.covered hsign hmodulo hs'
    rw [byteLength_append] at hstop
    refine iff_of_true ⟨?_, ?_⟩ ⟨hkind, has'⟩ <;> omega
  · -- The statement stands in front of the match.
    refine iff_of_false (fun h => ?_) fun h => has' s (by simp) h.1
    rw [List.flatMap_append, List.flatMap_cons, byteLength_append, byteLength_append] at h
    omega
  · -- The statement stands behind the match.
    have hend := stop_le_of_find? hs'
    refine iff_of_false (fun h => ?_) fun h => h.2 s' (by simp) hkind
    rw [List.flatMap_append, List.flatMap_cons, byteLength_append, byteLength_append] at h
    omega

/-- A tick is stray if no idiom matches its statement, or if an earlier statement is of the same kind. -/
theorem strayTick_iff (hp : p.Draws) (hcode : g.code = tickBody ss trail) : p.StrayTick g ↔
    ∃ as s bs, ss = as ++ s :: bs ∧ s.ticks = true ∧
      ∀ i, s.idiom? p.spriteVariable = some i → ∃ t ∈ as, t.idiom? p.spriteVariable = some i := by
  simp only [StrayTick, reads_iff hp hcode, hcode]
  constructor
  · rintro ⟨before, behind, hoccurs, houtside⟩
    obtain ⟨as, s, bs, front, back, rfl, htick, rfl, -⟩ := occurs_tick_iff.mp hoccurs
    refine ⟨as, s, bs, rfl, s.ticks_iff.mpr ⟨front, back, htick⟩, fun i hi => ?_⟩
    by_contra hfirst
    have hmem : s ∈ as ++ s :: bs := by simp
    rcases i.search hp.variable_eq (as ++ s :: bs) trail with ⟨-, hnone⟩ | ⟨as', s', bs', m, -, -, -, -, hm⟩
    · exact hnone s hmem hi
    · exact houtside i _ ⟨s, hmem, hi⟩ hm ((covers_iff hp.variable_eq htick hm).mpr ⟨hi, fun t ht hkind => hfirst ⟨t, ht, hkind⟩⟩)
  · rintro ⟨as, s, bs, rfl, hticks, hearlier⟩
    obtain ⟨front, back, htick⟩ := s.exists_tickAt hticks
    refine ⟨_, _, occurs_tick_iff.mpr ⟨as, s, bs, front, back, rfl, htick, rfl, rfl⟩, fun i m _ hm hcovers => ?_⟩
    obtain ⟨hi, hfirst⟩ := (covers_iff hp.variable_eq htick hm).mp hcovers
    obtain ⟨t, ht, hkind⟩ := hearlier i hi
    exact hfirst t ht hkind

/-! ### What is kept for review -/

/-- A diagnostic asks for a review exactly if a record is kept for one. -/
theorem exists_review_iff {l : Located} {rs : List Variant} :
    (∃ d ∈ p.diagnostics l g rs, d.severity = .review ∧ d.ids = g.ids) ↔ rs.any (fun r => r.needsReview.isSome) = true := by
  have hwarn : ∀ {b : Bool} {message : String} {d : Diagnostic}, d ∈ (if b then [l.diagnostic g .warning message] else []) →
      d.severity ≠ .review := by
    intro b message d hd
    cases b with
    | false => cases hd
    | true =>
      obtain rfl := List.mem_singleton.mp hd
      exact nofun
  simp only [diagnostics, List.mem_append]
  constructor
  · rintro ⟨d, ((hd | hd) | hd) | hd, hreview, -⟩
    · exact absurd hreview (hwarn hd)
    · exact absurd hreview (hwarn hd)
    · obtain ⟨slot, -, rfl⟩ := List.mem_map.mp hd
      cases hreview
    · by_contra hnone
      rw [if_neg hnone] at hd
      cases hd
  · intro hkept
    exact ⟨_, Or.inr (by rw [if_pos hkept]; exact List.mem_singleton_self _), rfl, rfl⟩

/-- A record of a body is kept for review exactly if there is a tick and no idiom accounts for any statement. -/
theorem needsReview_body (hp : p.Draws) (hcode : g.code = tickBody ss trail) (comment : Option String) (id : Nat) :
    (recordOf g.code (shared (scope g) comment) (p.maskPulse? (scope g)) (p.remapOf? g id) id).needsReview.isSome = true ↔
      (∃ s ∈ ss, s.ticks = true) ∧ ∀ s ∈ ss, s.idiom? p.spriteVariable = none := by
  have hquiet : (dynamicCode.occursIn g.code = true → (p.maskPulse? (scope g)).isSome = true) := by
    rw [hcode, dynamicCode_body]
    exact nofun
  rw [Option.isSome_iff_ne_none, Ne, needsReview_recordOf, and_iff_right hquiet, moves_iff hp hcode, hcode, tickWord_occursIn_iff,
    Classical.not_imp]
  simp

/-- A body is kept for review exactly if there is a tick and no idiom accounts for any statement. -/
theorem flagged_iff (hp : p.Draws) {l : Located} (hids : g.ids ≠ []) (hcode : g.code = tickBody ss trail) : p.Flagged l g ↔
    (∃ s ∈ ss, s.ticks = true) ∧ ∀ s ∈ ss, s.idiom? p.spriteVariable = none := by
  obtain ⟨first, hfirst⟩ := List.exists_mem_of_ne_nil _ hids
  rw [Flagged, exists_review_iff, groupRecords, records_eq_map]
  simp only [List.forall_mem_map, List.any_map, List.any_eq_true, Function.comp_apply, needsReview_body hp hcode]
  exact ⟨fun h => h.1 first hfirst, fun h => ⟨fun _ _ => h, first, hfirst, h⟩⟩

/-- In a body of statements a tick is stray if no idiom matches its statement or an earlier statement is of the same kind.
    The body is kept for review exactly if there is a tick and no idiom accounts for any statement. So a stray
    tick is flagged unless an idiom accounts for another statement beside it. -/
theorem stray_flagged_iff (hp : p = character ∨ p = animated) {l : Located} (hg : g ∈ caseGroups .fallThrough breakStatement l.code)
    (hcode : g.code = tickBody ss trail) :
    (p.StrayTick g ↔ ∃ as s bs, ss = as ++ s :: bs ∧ s.ticks = true ∧
      ∀ i, s.idiom? p.spriteVariable = some i → ∃ t ∈ as, t.idiom? p.spriteVariable = some i) ∧
    (p.Flagged l g ↔ (∃ s ∈ ss, s.ticks = true) ∧ ∀ s ∈ ss, s.idiom? p.spriteVariable = none) ∧
    ((p.StrayTick g → p.Flagged l g) ↔ ¬(p.StrayTick g ∧ ∃ s ∈ ss, s.idiom? p.spriteVariable ≠ none)) := by
  have hstray := strayTick_iff (draws hp) hcode
  have hflagged := flagged_iff (draws hp) (l := l) (ids_ne_nil_of_mem_fallThrough hg) hcode
  refine ⟨hstray, hflagged, fun h ⟨hs, s, hmem, hkind⟩ => hkind ((hflagged.mp (h hs)).2 s hmem), fun h hs => ?_⟩
  obtain ⟨as, s, bs, rfl, hticks, -⟩ := hstray.mp hs
  refine hflagged.mpr ⟨⟨s, by simp, hticks⟩, fun t ht => ?_⟩
  by_contra hkind
  exact h ⟨hs, t, ht, hkind⟩

def newline : Gap := ⟨"\n".toList, by decide⟩

/-- `cr = attick % 5;`, on a line of its own. -/
def redRemainder : TickStatement :=
  let five : Decimal := ⟨"5".toList, by decide, by decide⟩
  .remainder .cr ⟨newline, .space, .space, tickRemainder .space .space five, .none, .none⟩ .space .space five rfl

theorem stray_flagged_iff_remainder :
    let source := Source.ofString "stray.c"
      "int _trans_asprite(int sprite)\n\x7b\nswitch (sprite) \x7b\ncase 1:\ncr = attick % 5;\nbreak;\n\x7d\n\x7d\n"
    ∃ l g, Located.find? source "_trans_asprite" = some l ∧ g ∈ caseGroups .fallThrough breakStatement l.code ∧
      g.code = tickBody [redRemainder] newline ∧ animated.StrayTick g ∧ animated.Flagged l g := by
  intro source
  have hgroups : (Located.find? source "_trans_asprite").map (fun l => (caseGroups .fallThrough breakStatement l.code).map
      fun g => g.code) = some [tickBody [redRemainder] newline] := by decide +kernel
  obtain ⟨l, g, hl, hmem, hcode⟩ := exists_only_group hgroups
  obtain ⟨hstray, hflagged, -⟩ := stray_flagged_iff (Or.inr rfl) hmem hcode
  refine ⟨l, g, hl, hmem, hcode, hstray.mpr ⟨[], redRemainder, [], rfl, rfl, nofun⟩,
    hflagged.mpr ⟨⟨redRemainder, by simp, rfl⟩, ?_⟩⟩
  rw [List.forall_mem_singleton]
  rfl

/-- `light = abs(31 - (attick % 63));`, on a line of its own. -/
def lightDistance : TickStatement :=
  let distance : BareDistance :=
    { call := .none, beforePeak := .none, peak := ⟨"31".toList, by decide, by decide⟩, beforeMinus := .space, afterMinus := .space
      beforeTick := .none, beforeModulo := .space, afterModulo := .space, period := ⟨"63".toList, by decide, by decide⟩
      afterPeriod := .none, afterTick := .none, divisor := none, offset := none, undivided := rfl, unmoved := rfl, fits := by decide }
  .light ⟨newline, .space, .space, distance.expression, .none, .none⟩ distance rfl

/-- A tick that no idiom matches is passed over beside a pulse of the light. -/
theorem stray_tick_passed_over :
    let source := Source.ofString "stray.c" ("int _trans_asprite(int sprite)\n\x7b\nswitch (sprite) \x7b\ncase 1:\n" ++
      "light = abs(31 - (attick % 63));\ncr = attick % 5;\nbreak;\n\x7d\n\x7d\n")
    ∃ l g, Located.find? source "_trans_asprite" = some l ∧ g ∈ caseGroups .fallThrough breakStatement l.code ∧
      g.code = tickBody [lightDistance, redRemainder] newline ∧ animated.StrayTick g ∧ ¬animated.Flagged l g := by
  intro source
  have hgroups : (Located.find? source "_trans_asprite").map (fun l => (caseGroups .fallThrough breakStatement l.code).map
      fun g => g.code) = some [tickBody [lightDistance, redRemainder] newline] := by decide +kernel
  obtain ⟨l, g, hl, hmem, hcode⟩ := exists_only_group hgroups
  have hdraws : animated.Draws := draws (Or.inr rfl)
  have hstray : animated.StrayTick g := (strayTick_iff hdraws hcode).mpr ⟨[lightDistance], redRemainder, [], rfl, rfl, nofun⟩
  refine ⟨l, g, hl, hmem, hcode, hstray, fun hflagged => ?_⟩
  obtain ⟨-, hnone⟩ := (flagged_iff hdraws (ids_ne_nil_of_mem_fallThrough hmem) hcode).mp hflagged
  exact nomatch hnone lightDistance (by simp)

end VariantPass
end SpriteFacts
