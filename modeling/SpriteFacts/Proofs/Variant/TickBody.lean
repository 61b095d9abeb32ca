import SpriteFacts.Proofs.Variant.AssignmentGroup
import SpriteFacts.Proofs.Variant.TickMatch

/-! The idioms that account for the tick, in a body of statements. Each idiom matches in the first statement of its kind and
    in no other, for no statement assigns the sprite variable to itself or masks the tick. So a movement is
    read from a body exactly if one of its statements is of the kind. -/

namespace SpriteFacts

open Switch Text Pattern

namespace TickIdiom

/-- What the idiom searches for in code that draws the sprite of a variable. -/
def pattern (v : String) : TickIdiom → Pattern
  | baseCycle => basePattern v
  | selfCycle => seq (spaced [assignTo v, literal v, char '+']) (Remap.laterModulus 1)
  | mask => spaced [wordStart "attick", char '&', group 1 digits]
  | color => Pulse.colorPattern
  | light => lightPattern

end TickIdiom

/-- The code of statements, with blanks behind the last one. -/
def tickBody (ss : List TickStatement) (trail : Gap) : List Char := ss.flatMap TickStatement.text ++ trail.text

/-! ### A variable assigned to itself -/

namespace TickStatement

theorem text_eq (s : TickStatement) : s.text = (s.lead.text ++ (s.name.toList ++ s.beforeSign.text)) ++ '=' :: s.behind := by
  simp [text]

theorem sign_not_mem_front (s : TickStatement) : '=' ∉ s.lead.text ++ (s.name.toList ++ s.beforeSign.text) := by
  have hnames : ∀ n ∈ names, '=' ∉ n.toList := by decide
  simp (disch := decide) [Gap.not_mem, hnames _ s.name_mem]

/-- What a statement assigns begins with a digit or with the name of a call or of the tick. -/
theorem head_assigned (s : TickStatement) : ∃ c rest, s.assigned = c :: rest ∧ isBlank c = false ∧ c ≠ 'c' ∧ c ≠ 's' := by
  have hdecimal : ∀ n : Decimal, ∃ c rest, n.digits = c :: rest ∧ isBlank c = false ∧ c ≠ 'c' ∧ c ≠ 's' := by
    intro n
    obtain ⟨c, rest, hn⟩ := List.exists_cons_of_ne_nil n.nonempty
    have hall : n.digits.all isDigit = true := n.numeral.all_isDigit
    have hc : isDigit c = true := List.all_eq_true.mp hall c (hn ▸ List.mem_cons_self)
    refine ⟨c, rest, hn, not_isBlank_of_isDigit hc, ?_, ?_⟩ <;>
    · rintro rfl
      exact absurd hc (by decide)
  cases s with
  | light s f hvalue =>
    rw [assigned, hvalue]
    exact ⟨'a', _, rfl, by decide, by decide, by decide⟩
  | cycle _ _ s c hvalue =>
    obtain ⟨d, rest, hn, hd⟩ := hdecimal c.base
    rw [assigned, hvalue, c.text_eq, hn]
    exact ⟨d, _, rfl, hd⟩
  | color => exact ⟨'I', _, rfl, by decide, by decide, by decide⟩
  | literal _ s n hvalue =>
    obtain ⟨d, rest, hn, hd⟩ := hdecimal n
    rw [assigned, hvalue]
    exact ⟨d, _, congrArg (fun t => (t ++ []) ++ []) hn, hd⟩
  | remainder _ s before after n hvalue =>
    rw [assigned, hvalue]
    exact ⟨'a', _, rfl, by decide, by decide, by decide⟩

end TickStatement

namespace Remap
variable {v : String} {p : Pattern}

/-- Wherever the pattern is read, the variable stands behind a sign. -/
def AssignsSelf (v : String) (p : Pattern) : Prop :=
  ∀ (last : Option Char) (cs : List Char) (r : Reading), r ∈ p.readings last cs →
    ∃ (xs : List Char) (g : Gap) (rest : List Char), cs = xs ++ '=' :: (g.text ++ (v.toList ++ rest))

theorem assignsSelf_spaced (hv : SpriteVariable v) (q : Pattern) (ps : List Pattern) :
    AssignsSelf v (spaced (wordStart v :: char '=' :: literal v :: q :: ps)) := by
  intro last cs r hr
  obtain ⟨a, ha, g, rest, hrest, _, b, hb, -⟩ := exists_of_mem_spaced hr
  obtain ⟨-, behind, rfl, rfl⟩ := (mem_readings_wordStart (isWord_head hv.isName)).mp ha
  obtain ⟨c, hc, g', rest', hrest', _, d, hd, -⟩ := exists_of_mem_spaced hb
  obtain ⟨rest'', rfl, rfl⟩ := mem_readings_char.mp hc
  obtain ⟨e, he, -⟩ := exists_of_mem_spaced hd
  obtain ⟨more, rfl, -⟩ := mem_readings_literal.mp he
  simp only at hrest hrest'
  subst hrest hrest'
  exact ⟨v.toList ++ g.text, g', more, by simp⟩

theorem assignsSelf_selfCycle (hv : SpriteVariable v) : AssignsSelf v (TickIdiom.selfCycle.pattern v) := by
  intro last cs r hr
  obtain ⟨a, ha, -⟩ := mem_readings_seq.mp hr
  have hself : a ∈ (spaced [assignTo v, spaced [literal v, char '+']]).readings last cs := ha
  rw [readings_assignTo] at hself
  exact assignsSelf_spaced hv (char '+') [] _ _ _ hself

/-- No statement assigns the variable to itself. -/
theorem find?_assignsSelf (hv : SpriteVariable v) (h : AssignsSelf v p) (ss : List TickStatement) (trail : Gap) :
    p.find? (tickBody ss trail) = none := by
  by_contra hfound
  obtain ⟨m, hm⟩ := Option.ne_none_iff_exists'.mp hfound
  obtain ⟨before, r, hstands, -⟩ := findFrom_eq_some hm
  obtain ⟨xs, g, rest, hcs⟩ := h _ _ _ (mem_of_read? hstands.read)
  -- The sign stands in one of the statements, and what is assigned there begins with the variable.
  have hsplit := hstands.split
  rw [hcs, ← List.append_assoc, tickBody] at hsplit
  obtain ⟨us, hus, hbehind⟩ := exists_front hsplit (trail.not_mem (by decide))
  obtain ⟨as, s, bs, u, w, rfl, htext, -, rfl⟩ := split_of_flatMap hus
  obtain ⟨-, rfl⟩ := split_once s.sign_not_mem_front s.sign_not_mem_behind (s.text_eq.symm.trans htext)
  obtain ⟨afterSign, beforeEnd, trail', hassigned⟩ := s.exists_assigned
  obtain ⟨c, cs, hc, hblank, hne, hne'⟩ := s.head_assigned
  obtain ⟨d, ds, hd, hword⟩ : ∃ d ds, v.toList = d :: ds ∧ (d = 'c' ∨ d = 's') := by
    rcases hv with rfl | rfl
    · exact ⟨'c', _, rfl, Or.inl rfl⟩
    · exact ⟨'s', _, rfl, Or.inr rfl⟩
  rw [hassigned, hc, hd] at hbehind
  simp only [List.append_assoc, List.cons_append] at hbehind
  have hdblank : isBlank d = false := by rcases hword with rfl | rfl <;> decide
  obtain ⟨-, hhead⟩ := Gap.eq_of_append hbehind (by simp [hdblank]) (by simp [hblank])
  obtain ⟨rfl, -⟩ := List.cons.inj hhead
  rcases hword with rfl | rfl
  · exact hne rfl
  · exact hne' rfl

end Remap

/-! ### One statement -/

theorem TickStatement.ampersand_not_mem (s : TickStatement) : '&' ∉ s.text := by
  have hnames : ∀ n ∈ names, '&' ∉ n.toList := by decide
  exact s.not_mem_text (by decide) (by decide) (by decide) (hnames _ s.name_mem)

namespace TickIdiom
variable {v : String} (hv : SpriteVariable v)

include hv

theorem exists_begins (i : TickIdiom) : ∃ words, Begins words (i.pattern v) ∧ unblank words = true := by
  have hunblank : unblank [v.toList] = true := by rcases hv with rfl | rfl <;> decide
  cases i with
  | baseCycle | selfCycle => exact ⟨_, (begins_wordStart (Remap.isWord_head hv.isName)).seq.seq.seq, hunblank⟩
  | mask => exact ⟨_, (begins_wordStart (s := "attick") (by decide)).seq, by decide⟩
  | color => exact ⟨_, begins_colorPattern, by decide⟩
  | light => exact ⟨_, begins_lightPattern, by decide⟩

theorem shuns_pattern (i : TickIdiom) : (i.pattern v).Shuns ';' := by
  rcases hv with rfl | rfl <;> cases i <;>
    simp [pattern, basePattern, Pulse.colorPattern, lightPattern, Pulse.tickDistance, Remap.laterModulus, spaced, assignTo,
      wordStart, literal, Pattern.all, Pattern.optional, Pattern.char, digits, run1, blanks, Shuns] <;> decide

/-- An idiom matches the statements of its kind and no others. -/
theorem exists_find?_iff (i : TickIdiom) (s : TickStatement) :
    (∃ m, (i.pattern v).find? s.text = some m) ↔ s.idiom? v = some i := by
  have hnone : ∀ {p : Pattern}, p.find? s.text = none → ¬∃ m, p.find? s.text = some m := by
    rintro p hp ⟨m, hm⟩
    rw [hp] at hm
    cases hm
  cases i with
  | baseCycle =>
    have hassigning : Remap.Assigning v (pattern v .baseCycle) :=
      (Remap.assigning_assignTo hv.isName (Remap.signless_digits 1).seq).seq
    have hsign : Needs '=' (pattern v .baseCycle) := by simp [pattern, basePattern, spaced, assignTo, Pattern.char, Needs]
    constructor
    · rintro ⟨m, hm⟩
      obtain ⟨hv, s, c, hvalue, rfl⟩ := TickStatement.exists_cycle hv (TickStatement.name_of_find? hassigning hv.isName hsign hm)
      exact if_pos rfl
    · intro h
      obtain ⟨hv, s, c, hvalue, rfl⟩ := TickStatement.exists_baseCycle h
      exact TickStatement.exists_find?_cycle hv s c hvalue
  | selfCycle =>
    have hbody := Remap.find?_assignsSelf hv (Remap.assignsSelf_selfCycle hv) [s] .none
    rw [tickBody, List.flatMap_singleton, Gap.none, List.append_nil] at hbody
    exact iff_of_false (hnone hbody) (s.idiom?_ne v).2
  | mask =>
    have hneeds : Needs '&' (pattern v .mask) := by simp [pattern, spaced, Pattern.char, Needs]
    exact iff_of_false (hnone (hneeds.find?_eq_none s.ampersand_not_mem)) (s.idiom?_ne v).1
  | color =>
    constructor
    · rintro ⟨m, hm⟩
      exact (TickStatement.color_of_find? hm).1
    intro h
    obtain ⟨s, f, hblue, fits, rfl⟩ := TickStatement.exists_color h
    exact TickStatement.exists_find?_color s f hblue fits
  | light =>
    constructor
    · rintro ⟨m, hm⟩
      exact (TickStatement.light_of_find? hm).1
    intro h
    obtain ⟨s, f, hvalue, rfl⟩ := TickStatement.exists_light h
    exact TickStatement.exists_find?_light s f hvalue

end TickIdiom

/-! ### Movements of a remap -/

namespace Remap
variable {v : String} {s : Scope}

/-- A remap has a movement exactly if one of the idioms for cycles is the first that reads the code. -/
theorem animation_isSome_iff : (((chain v).value? s).bind (·.animation)).isSome = true ↔
    (∃ r, (chain v).firstMatch? s = some ("base-cycle", r)) ∨ ∃ r, (chain v).firstMatch? s = some ("self-cycle", r) := by
  have hstill : ∀ {base : Int} (name : String), name ≠ "base-cycle" → name ≠ "self-cycle" →
      ((⟨base, none⟩ : Remap).animation.isSome = true ↔ name = "base-cycle" ∨ name = "self-cycle") := fun _ h h' =>
    iff_of_false Bool.false_ne_true (not_or.mpr ⟨h, h'⟩)
  have hread : ∀ i ∈ (chain v).idioms, ∀ r, i.read s = some r →
      (r.animation.isSome = true ↔ i.name = "base-cycle" ∨ i.name = "self-cycle") := by
    intro i hi r hr
    simp only [chain, List.mem_cons, List.not_mem_nil, or_false] at hi
    rcases hi with rfl | rfl | rfl | rfl | rfl | rfl
    · obtain ⟨m, -, hvalue⟩ := Option.bind_eq_some_iff.mp hr
      obtain ⟨a, -, h1⟩ := Option.bind_eq_some_iff.mp hvalue
      obtain ⟨b, -, h2⟩ := Option.bind_eq_some_iff.mp h1
      obtain ⟨up, -, h3⟩ := Option.bind_eq_some_iff.mp h2
      obtain ⟨base, -, h4⟩ := Option.bind_eq_some_iff.mp h3
      exact Option.some.inj h4 ▸ hstill "offset-plus-minus" (by decide) (by decide)
    · obtain ⟨m, -, hvalue⟩ := Option.bind_eq_some_iff.mp hr
      obtain ⟨a, -, h1⟩ := Option.bind_eq_some_iff.mp hvalue
      obtain ⟨b, -, h2⟩ := Option.bind_eq_some_iff.mp h1
      obtain ⟨down, -, h3⟩ := Option.bind_eq_some_iff.mp h2
      obtain ⟨base, -, h4⟩ := Option.bind_eq_some_iff.mp h3
      exact Option.some.inj h4 ▸ hstill "offset-minus-plus" (by decide) (by decide)
    · obtain ⟨m, -, hvalue⟩ := Option.bind_eq_some_iff.mp hr
      obtain ⟨base, -, h1⟩ := Option.bind_eq_some_iff.mp hvalue
      obtain ⟨frames, -, h2⟩ := Option.bind_eq_some_iff.mp h1
      exact Option.some.inj h2 ▸ iff_of_true rfl (Or.inl rfl)
    · obtain ⟨m, -, hvalue⟩ := Option.bind_eq_some_iff.mp hr
      obtain ⟨frames, -, h1⟩ := Option.bind_eq_some_iff.mp hvalue
      exact Option.some.inj h1 ▸ iff_of_true rfl (Or.inr rfl)
    · obtain ⟨m, -, hvalue⟩ := Option.bind_eq_some_iff.mp hr
      obtain ⟨base, -, rfl⟩ := Option.map_eq_some_iff.mp hvalue
      exact hstill "direct" (by decide) (by decide)
    · have hidentity : (if (anyAssignment v).occursIn s.code then none else some ⟨s.id, none⟩) = some r := hr
      split at hidentity
      · cases hidentity
      · exact Option.some.inj hidentity ▸ hstill "identity" (by decide) (by decide)
  rw [IdiomChain.value?]
  cases hfirst : (chain v).firstMatch? s with
  | none => simp
  | some found =>
    obtain ⟨name, r⟩ := found
    obtain ⟨i, hi, hmap⟩ := List.exists_of_findSome?_eq_some hfirst
    obtain ⟨r', hr, heq⟩ := Option.map_eq_some_iff.mp hmap
    obtain ⟨rfl, rfl⟩ := Prod.mk.inj heq
    simpa using hread i hi r' hr

end Remap

/-! ### A body of statements -/

section Body
variable {v : String} {ss : List TickStatement} {trail : Gap}

/-- An idiom matches in the first statement of its kind. -/
theorem TickIdiom.search (hv : SpriteVariable v) (i : TickIdiom) (ss : List TickStatement) (trail : Gap) :
    ((i.pattern v).find? (tickBody ss trail) = none ∧ ∀ s ∈ ss, s.idiom? v ≠ some i) ∨
    ∃ as s bs m, ss = as ++ s :: bs ∧ (∀ a ∈ as, a.idiom? v ≠ some i) ∧ s.idiom? v = some i ∧ (i.pattern v).find? s.text = some m ∧
      (i.pattern v).find? (tickBody ss trail) = some (m.shift (byteLength (as.flatMap TickStatement.text))) := by
  obtain ⟨words, hbegins, hwords⟩ := i.exists_begins hv
  have hkind : ∀ s : TickStatement, (i.pattern v).find? s.text = none → s.idiom? v ≠ some i := fun s hs hkind => by
    obtain ⟨m, hm⟩ := (i.exists_find?_iff hv s).mpr hkind
    rw [hs] at hm
    cases hm
  rcases find?_row hbegins hwords (i.shuns_pattern hv) TickStatement.isStatement_text trail.blank ss with
    ⟨hnone, hall⟩ | ⟨as, s, bs, m, hss, has, hs, hm⟩
  · exact Or.inl ⟨hnone, fun s hs => hkind s (hall s hs)⟩
  · exact Or.inr ⟨as, s, bs, m, hss, fun a ha => hkind a (has a ha), (i.exists_find?_iff hv s).mp ⟨m, hs⟩, hs, hm⟩

/-- Where the value of an idiom depends on what is kept and is read in every statement of the kind, it is read in a body that
    has such a statement. -/
theorem TickIdiom.value_isSome_iff (hv : SpriteVariable v) (i : TickIdiom) {α : Type} {value : Match → Option α}
    (hshift : ∀ n m, value (m.shift n) = value m)
    (hvalue : ∀ (s : TickStatement) (m : Match), (i.pattern v).find? s.text = some m → (value m).isSome = true) :
    (((i.pattern v).find? (tickBody ss trail)).bind value).isSome = true ↔ ∃ s ∈ ss, s.idiom? v = some i := by
  rcases i.search hv ss trail with ⟨hnone, hall⟩ | ⟨as, s, bs, m, rfl, -, hkind, hs, hm⟩
  · rw [hnone]
    refine iff_of_false Bool.false_ne_true ?_
    rintro ⟨s, hs, hkind⟩
    exact hall s hs hkind
  · rw [hm, Option.bind_some, hshift]
    exact iff_of_true (hvalue s m hs) ⟨s, by simp, hkind⟩

theorem ampersand_not_mem (ss : List TickStatement) (trail : Gap) : '&' ∉ tickBody ss trail := by
  rw [tickBody, List.mem_append, List.mem_flatMap]
  rintro (⟨s, -, hs⟩ | htrail)
  · exact s.ampersand_not_mem hs
  · exact trail.not_mem (by decide) htrail

/-- The first idiom of a remap that reads a body with a cycle is the one for a literal base. -/
theorem firstMatch?_baseCycle (hv : SpriteVariable v) (id : Nat) :
    (∃ r, (Remap.chain v).firstMatch? ⟨id, tickBody ss trail⟩ = some ("base-cycle", r)) ↔
      ∃ s ∈ ss, s.idiom? v = some .baseCycle := by
  have hself : ∀ first second : Char, (Remap.shifted v first second).find? (tickBody ss trail) = none := fun _ _ =>
    Remap.find?_assignsSelf hv (Remap.assignsSelf_spaced hv _ _) ss trail
  have hnames : ∀ i ∈ (Remap.chain v).idioms.drop 3, i.name ≠ "base-cycle" := by
    simp [Remap.chain, Idiom.ofPattern]
  have hfirst : ((Remap.chain v).firstMatch? ⟨id, tickBody ss trail⟩).map (·.1) = some "base-cycle" ↔
      ((Idiom.ofPattern "base-cycle" (TickIdiom.baseCycle.pattern v) fun m s => do
        let base ← m.integer? 1
        let frames ← m.word? 2
        some (Remap.cycling base frames s.code)).read ⟨id, tickBody ss trail⟩).isSome = true := by
    rw [Remap.chain, IdiomChain.firstMatch?_cons, Idiom.read_of_find?_none (hself '+' '-'),
      IdiomChain.firstMatch?_cons, Idiom.read_of_find?_none (hself '-' '+')]
    exact @IdiomChain.name_firstMatch?_cons _ _ "" _ _ hnames
  have hname : ∀ first : Option (String × Remap), (∃ r, first = some ("base-cycle", r)) ↔ first.map (·.1) = some "base-cycle" := by
    simp [Option.map_eq_some_iff]
  rw [hname, hfirst]
  refine TickIdiom.baseCycle.value_isSome_iff hv (fun _ _ => rfl) fun s m hm => ?_
  obtain ⟨hv, s, c, hvalue, rfl⟩ := TickStatement.exists_baseCycle ((TickIdiom.baseCycle.exists_find?_iff hv s).mp ⟨m, hm⟩)
  obtain ⟨⟨base, hbase⟩, frames, hframes⟩ := TickStatement.cycle_of_find? hm
  simp [hbase, hframes]

theorem firstMatch?_ne_selfCycle (hv : SpriteVariable v) (id : Nat) :
    ¬∃ r, (Remap.chain v).firstMatch? ⟨id, tickBody ss trail⟩ = some ("self-cycle", r) := by
  rintro ⟨r, hfirst⟩
  have hnone := Remap.find?_assignsSelf hv (Remap.assignsSelf_selfCycle hv) ss trail
  obtain ⟨i, hi, hmap⟩ := List.exists_of_findSome?_eq_some hfirst
  obtain ⟨r', hr, heq⟩ := Option.map_eq_some_iff.mp hmap
  obtain ⟨hname, rfl⟩ := Prod.mk.inj heq
  simp only [Remap.chain, List.mem_cons, List.not_mem_nil, or_false] at hi
  rcases hi with rfl | rfl | rfl | rfl | rfl | rfl
  case inr.inr.inr.inl =>
    rw [Idiom.read_of_find?_none hnone] at hr
    cases hr
  all_goals exact absurd hname (by simp [Idiom.ofPattern])

/-- The remap of a body has a movement exactly if some statement is a cycle of the variable. -/
theorem cycle_isSome_iff (hv : SpriteVariable v) (id : Nat) :
    (((Remap.chain v).value? ⟨id, tickBody ss trail⟩).bind (·.animation)).isSome = true ↔
      ∃ s ∈ ss, s.idiom? v = some .baseCycle := by
  rw [Remap.animation_isSome_iff, firstMatch?_baseCycle hv, or_iff_left (firstMatch?_ne_selfCycle hv id)]

theorem colorPulse_isSome_iff (hv : SpriteVariable v) (id : Nat) :
    (Pulse.colorChain.value? ⟨id, tickBody ss trail⟩).isSome = true ↔ ∃ s ∈ ss, s.idiom? v = some .color := by
  rw [Pulse.colorChain, IdiomChain.value?_singleton]
  refine TickIdiom.color.value_isSome_iff hv (fun _ _ => rfl) fun s m hm => ?_
  exact (TickStatement.color_of_find? (v := v) hm).2

theorem lightPulse_isSome_iff (hv : SpriteVariable v) (id : Nat) :
    (Pulse.lightChain.value? ⟨id, tickBody ss trail⟩).isSome = true ↔ ∃ s ∈ ss, s.idiom? v = some .light := by
  rw [Pulse.lightChain, IdiomChain.value?_singleton]
  refine TickIdiom.light.value_isSome_iff hv (fun _ _ => rfl) fun s m hm => ?_
  exact (TickStatement.light_of_find? (v := v) hm).2

theorem maskChain_eq_none (id : Nat) : Pulse.maskChain.value? ⟨id, tickBody ss trail⟩ = none := by
  have hneeds : Needs '&' (TickIdiom.mask.pattern "") := by simp [TickIdiom.pattern, spaced, Pattern.char, Needs]
  rw [Pulse.maskChain, IdiomChain.value?_singleton]
  exact Idiom.read_of_needs hneeds (ampersand_not_mem ss trail)

/-- A body of statements decides nothing at run time. -/
theorem dynamicCode_body (ss : List TickStatement) (trail : Gap) : VariantPass.dynamicCode.occursIn (tickBody ss trail) = false := by
  have hshuns : VariantPass.dynamicCode.Shuns ';' := by
    simp [VariantPass.dynamicCode, Pattern.any, spaced, wordStart, word, literal, Pattern.all, Pattern.char, blanks, Shuns]
    decide
  rcases find?_row begins_dynamicCode (by decide) hshuns TickStatement.isStatement_text trail.blank ss with
    ⟨hnone, -⟩ | ⟨-, s, -, m, -, -, hs, -⟩
  · rw [occursIn, tickBody, hnone]
    rfl
  · -- No statement has all the letters of one of the words.
    obtain ⟨before, r, hstands, -⟩ := findFrom_eq_some hs
    obtain ⟨-, w, hw, hhead⟩ := begins_dynamicCode _ _ _ (mem_of_read? hstands.read)
    have hletter : ∀ c ∈ w, c ∈ s.text := fun c hc => by
      rw [hstands.split]
      exact List.mem_append_right _ (hhead.subset hc)
    have hnames : ∀ n ∈ TickStatement.names, 'f' ∉ n.toList ∧ 'd' ∉ n.toList ∧ ('h' ∉ n.toList ∨ 'p' ∉ n.toList) := by decide
    obtain ⟨hf, hd, hhp⟩ := hnames _ s.name_mem
    simp only [List.mem_cons, List.not_mem_nil, or_false] at hw
    rcases hw with rfl | rfl | rfl
    · exact absurd (hletter 'f' (by decide)) (s.not_mem_text (by decide) (by decide) (by decide) hf)
    · rcases hhp with hh | hp
      · exact absurd (hletter 'h' (by decide)) (s.not_mem_text (by decide) (by decide) (by decide) hh)
      · exact absurd (hletter 'p' (by decide)) (s.not_mem_text (by decide) (by decide) (by decide) hp)
    · exact absurd (hletter 'd' (by decide)) (s.not_mem_text (by decide) (by decide) (by decide) hd)

end Body

end SpriteFacts
