import SpriteFacts.Proofs.Expression.Unambiguous

/-! Cycles of frames as expressions. The tick may be divided by a literal and is then taken modulo another one, in
    any parentheses; the shapes fix what such an expression is worth at a tick. Its text holds one sign of
    each kind at most, and the literals stand behind the signs. -/

namespace SpriteFacts

open Text

/-! ### Shapes -/

/-- The tick, by itself or in parentheses that close right behind it. -/
inductive BareTick : Expression .atom → Prop
  | tick : BareTick .tick
  | parens (before : Gap) : BareTick (.parens before (.row (.row .tick .done) .done) .none)

/-- The tick in steps of a length: the tick itself, or its quotient by a literal. -/
inductive Paced : {p : Part} → Expression p → Nat → Prop
  | tick : Paced .tick 1
  | quotient {a : Expression .atom} (before after : Gap) (step : Decimal) (h : BareTick a) (hfit : step.value ≤ maxWord) :
      Paced (.row (r := .product) a (.next before .divide after (.number (.decimal step)) .done)) step.value
  | parens {e : Expression (.row .sum)} {step : Nat} (before after : Gap) (h : Paced e step) :
      Paced (.parens before e after) step
  | alone {r : Rank} {e : Expression r.operand} {step : Nat} (h : Paced e step) : Paced (.row e .done) step

/-- The paced tick modulo a literal number of frames. -/
inductive Cycle : {p : Part} → Expression p → Decimal → Nat → Prop
  | modulo {a : Expression .atom} {step : Nat} (before after : Gap) (frames : Decimal) (h : Paced a step) :
      Cycle (.row (r := .product) a (.next before .modulo after (.number (.decimal frames)) .done)) frames step
  | quotient {a : Expression .atom} (before after : Gap) (step : Decimal) (before' after' : Gap) (frames : Decimal)
      (h : BareTick a) (hfit : step.value ≤ maxWord) :
      Cycle (.row (r := .product) a (.next before .divide after (.number (.decimal step))
        (.next before' .modulo after' (.number (.decimal frames)) .done))) frames step.value
  | parens {e : Expression (.row .sum)} {frames : Decimal} {step : Nat} (before after : Gap) (h : Cycle e frames step) :
      Cycle (.parens before e after) frames step
  | alone {r : Rank} {e : Expression r.operand} {frames : Decimal} {step : Nat} (h : Cycle e frames step) :
      Cycle (.row e .done) frames step

/-- A base with something added to it. -/
def raised (base : Expression .atom) (before after : Gap) (e : Expression (.row .product)) : Expression (.row .sum) :=
  .row (.row base .done) (.next before .plus after e .done)

/-- A cycle of frames from a base, which is a decimal literal or the sprite. -/
inductive FrameCycle : Expression (.row .sum) → Prop
  | literal {e : Expression (.row .product)} {frames : Decimal} {step : Nat} (base : Decimal) (before after : Gap)
      (h : Cycle e frames step) : FrameCycle (raised (.number (.decimal base)) before after e)
  | sprite {e : Expression (.row .product)} {frames : Decimal} {step : Nat} (before after : Gap)
      (h : Cycle e frames step) : FrameCycle (raised .sprite before after e)

/-! ### Values -/

section Value
variable {p : Part} {e : Expression p} {a : Expression .atom} {frames : Decimal} {step id now : Nat} {sofar v : Int}

theorem BareTick.run_eq (h : BareTick a) : a.run id now sofar = some now := by cases h <;> rfl

/-- A quotient or a remainder by a literal has a value only if the literal is not zero. -/
theorem run_next {op : Operator .product} {f : Int → Int → Int} (hop : ∀ a b, op.apply a b = if b = 0 then none else some (f a b))
    {n : Decimal} {before after : Gap} {more : Expression (.rest .product)}
    (h : (Expression.next before op after (.number (.decimal n)) more).run id now sofar = some v) :
    n.value ≠ 0 ∧ more.run id now (f sofar n.value) = some v := by
  simp only [Expression.run, hop, Number.value, Option.bind_some, Int.natCast_eq_zero] at h
  split at h
  · cases h
  · rename_i hne
    exact ⟨hne, h⟩

theorem run_alone {r : Rank} {first : Expression r.operand} :
    (Expression.row first .done).run id now sofar = first.run id now sofar := by
  show (first.run id now sofar).bind some = _
  rw [Option.bind_fun_some]

theorem Paced.run_eq (h : Paced e step) (hv : e.run id now sofar = some v) : step ≠ 0 ∧ v = (now / step : Nat) := by
  induction h generalizing sofar v with
  | tick => exact ⟨Nat.one_ne_zero, by rw [Nat.div_one]; exact (Option.some.inj hv).symm⟩
  | quotient before after step h =>
    obtain ⟨w, hw, hv⟩ := Option.bind_eq_some_iff.mp hv
    obtain rfl := Option.some.inj (h.run_eq.symm.trans hw)
    obtain ⟨hne, hv⟩ := run_next (fun _ _ => rfl) hv
    exact ⟨hne, (Option.some.inj hv).symm⟩
  | parens before after h ih => exact ih hv
  | alone h ih => exact ih (run_alone.symm.trans hv)

theorem Cycle.run_eq (h : Cycle e frames step) (hv : e.run id now sofar = some v) :
    frames.value ≠ 0 ∧ step ≠ 0 ∧ v = (now / step % frames.value : Nat) := by
  induction h generalizing sofar v with
  | modulo before after frames h =>
    obtain ⟨w, hw, hv⟩ := Option.bind_eq_some_iff.mp hv
    obtain ⟨hstep, rfl⟩ := h.run_eq hw
    obtain ⟨hne, hv⟩ := run_next (fun _ _ => rfl) hv
    exact ⟨hne, hstep, (Option.some.inj hv).symm⟩
  | quotient before after step before' after' frames h =>
    obtain ⟨w, hw, hv⟩ := Option.bind_eq_some_iff.mp hv
    obtain rfl := Option.some.inj (h.run_eq.symm.trans hw)
    obtain ⟨hstep, hv⟩ := run_next (fun _ _ => rfl) hv
    obtain ⟨hne, hv⟩ := run_next (fun _ _ => rfl) hv
    exact ⟨hne, hstep, (Option.some.inj hv).symm⟩
  | parens before after h ih => exact ih hv
  | alone h ih => exact ih (run_alone.symm.trans hv)

/-- A base with a cycle over it is worth the base and the frame of the tick. -/
theorem value_raised {base : Expression .atom} {before after : Gap} {e : Expression (.row .product)} {b : Int}
    (hbase : base.run id now 0 = some b) (h : Cycle e frames step) (hv : (raised base before after e).value id now = some v) :
    frames.value ≠ 0 ∧ step ≠ 0 ∧ v = b + (now / step % frames.value : Nat) := by
  obtain ⟨w, hw, hv⟩ := Option.bind_eq_some_iff.mp hv
  obtain rfl := Option.some.inj (hbase.symm.trans (run_alone.symm.trans hw))
  obtain ⟨u, hu, hv⟩ := Option.bind_eq_some_iff.mp hv
  obtain ⟨c, hc, hsum⟩ := Option.bind_eq_some_iff.mp hu
  obtain ⟨hframes, hstep, rfl⟩ := h.run_eq hc
  refine ⟨hframes, hstep, ?_⟩
  rw [← Option.some.inj hv, ← Option.some.inj hsum]

end Value

/-! ### Signs -/

/-- The text holds the sign once, and behind it stands the literal. -/
def Marks (sign : Char) (n : Decimal) (cs : List Char) : Prop :=
  ∃ (xs : List Char) (g : Gap) (ys : List Char), cs = xs ++ sign :: (g.text ++ (n.digits ++ ys)) ∧
    sign ∉ xs ∧ sign ∉ ys ∧ ys.head?.all (fun c => !isDigit c) = true

/-- No word goes on behind the text. -/
def Outside (xs : List Char) : Prop := ∀ last : Option Char, last.any isWord = false → (lastOf last xs).any isWord = false

/-- The text holds one division, and it divides the tick by the literal. -/
def DividesTick (n : Decimal) (cs : List Char) : Prop :=
  ∃ (xs close : List Char) (g g' : Gap) (ys : List Char),
    cs = xs ++ ("attick".toList ++ (close ++ (g.text ++ '/' :: (g'.text ++ (n.digits ++ ys))))) ∧
      Outside xs ∧ (close = [] ∨ close = [')']) ∧ '/' ∉ xs ∧ '/' ∉ ys ∧ ys.head?.all (fun c => !isDigit c) = true

/-- The tick of the text goes in steps of the length. -/
def Steps (step : Nat) (cs : List Char) : Prop :=
  ('/' ∉ cs ∧ step = 1) ∨ ∃ n, DividesTick n cs ∧ n.value = step ∧ step ≤ maxWord

section Signs
variable {sign : Char} {n : Decimal} {cs as bs : List Char} {step : Nat}

theorem head_append_of_head {ok : Char → Bool} (hcs : cs.head?.all ok = true) (hbs : bs.head?.all ok = true) :
    (cs ++ bs).head?.all ok = true := by
  cases cs with
  | nil => exact hbs
  | cons c cs => exact hcs

theorem Marks.within (h : Marks sign n cs) (has : sign ∉ as) (hbs : sign ∉ bs)
    (hhead : bs.head?.all (fun c => !isDigit c) = true) : Marks sign n (as ++ (cs ++ bs)) := by
  obtain ⟨xs, g, ys, rfl, hxs, hys, hdigit⟩ := h
  exact ⟨as ++ xs, g, ys ++ bs, by simp, by simp [has, hxs], by simp [hys, hbs], head_append_of_head hdigit hhead⟩

theorem outside_of_blank {t : List Char} (ht : t.all isBlank = true) : Outside t := by
  induction t with
  | nil => exact fun _ hlast => hlast
  | cons c t ih =>
    rw [List.all_cons, Bool.and_eq_true] at ht
    exact fun _ _ => ih ht.2 (some c) (isWord_of_isBlank ht.1)

theorem Outside.append (has : Outside as) (hbs : Outside bs) : Outside (as ++ bs) := fun last hlast => by
  rw [lastOf_append]
  exact hbs _ (has last hlast)

/-- Behind a character that belongs to no word stands no word. -/
theorem Outside.behind {c : Char} (hc : isWord c = false) (hbs : Outside bs) (as : List Char) : Outside (as ++ c :: bs) := by
  intro last hlast
  rw [lastOf_append, lastOf_cons]
  exact hbs _ hc

theorem DividesTick.marks (h : DividesTick n cs) : Marks '/' n cs := by
  obtain ⟨xs, close, g, g', ys, rfl, -, hclose, hxs, hys, hdigit⟩ := h
  have hg : '/' ∉ g.text := not_mem_of_blank g.blank (by decide)
  refine ⟨xs ++ ("attick".toList ++ (close ++ g.text)), g', ys, by simp, ?_, hys, hdigit⟩
  rcases hclose with rfl | rfl <;> simp [hxs, hg]

theorem DividesTick.within (h : DividesTick n cs) (hout : Outside as) (has : '/' ∉ as) (hbs : '/' ∉ bs)
    (hhead : bs.head?.all (fun c => !isDigit c) = true) : DividesTick n (as ++ (cs ++ bs)) := by
  obtain ⟨xs, close, g, g', ys, rfl, hxsOut, hclose, hxs, hys, hdigit⟩ := h
  exact ⟨as ++ xs, close, g, g', ys ++ bs, by simp, hout.append hxsOut, hclose, by simp [has, hxs], by simp [hys, hbs],
    head_append_of_head hdigit hhead⟩

theorem Steps.within (h : Steps step cs) (hout : Outside as) (has : '/' ∉ as) (hbs : '/' ∉ bs)
    (hhead : bs.head?.all (fun c => !isDigit c) = true) : Steps step (as ++ (cs ++ bs)) := by
  rcases h with ⟨hcs, rfl⟩ | ⟨n, h, rfl, hfit⟩
  · exact Or.inl ⟨by simp [has, hcs, hbs], rfl⟩
  · exact Or.inr ⟨n, h.within hout has hbs hhead, rfl, hfit⟩

/-! ### Signs of the shapes -/

theorem BareTick.dividesTick {a : Expression .atom} (h : BareTick a) (before after : Gap) (n : Decimal) {ys : List Char}
    (hys : '/' ∉ ys) (hdigit : ys.head?.all (fun c => !isDigit c) = true) :
    DividesTick n (a.text ++ (before.text ++ '/' :: (after.text ++ (n.digits ++ ys)))) := by
  cases h with
  | tick => exact ⟨[], [], before, after, ys, rfl, fun _ h => h, Or.inl rfl, List.not_mem_nil, hys, hdigit⟩
  | parens g =>
    have hg : '/' ∉ g.text := not_mem_of_blank g.blank (by decide)
    refine ⟨'(' :: g.text, [')'], before, after, ys, ?_, (outside_of_blank g.blank).behind (by decide) [], Or.inr rfl, by simp [hg],
      hys, hdigit⟩
    simp [Expression.text, enclosed, Gap.none]

theorem Steps.enclosed {t : List Char} (h : Steps step t) (before after : Gap) : Steps step (enclosed before t after) := by
  have hgap : ∀ g : Gap, '/' ∉ g.text := fun g => not_mem_of_blank g.blank (by decide)
  exact h.within ((outside_of_blank before.blank).behind (by decide) []) (by simp [hgap]) (by simp [hgap])
    (after.head_sign (by decide) [])

theorem Marks.enclosed {t : List Char} (h : Marks '%' n t) (before after : Gap) : Marks '%' n (enclosed before t after) := by
  have hgap : ∀ g : Gap, '%' ∉ g.text := fun g => not_mem_of_blank g.blank (by decide)
  have hopen : '%' ∉ '(' :: before.text := by simp [hgap]
  exact h.within hopen (by simp [hgap]) (after.head_sign (by decide) [])

section Shapes
variable {p : Part} {e : Expression p} {frames : Decimal}

theorem text_alone {r : Rank} {first : Expression r.operand} : (Expression.row first .done).text = first.text :=
  List.append_nil _

theorem Paced.modulo_not_mem (h : Paced e step) : '%' ∉ e.text := by
  have hgap : ∀ g : Gap, '%' ∉ g.text := fun g => not_mem_of_blank g.blank (by decide)
  have hdigits : ∀ n : Decimal, '%' ∉ n.digits := fun n => n.numeral.not_mem (by decide)
  induction h with
  | tick => decide
  | quotient before after step h =>
    cases h <;> simp [Expression.text, enclosed, Operator.char, Number.text, Gap.none, hgap, hdigits]
  | parens before after h ih => simp [Expression.text, enclosed, hgap, ih]
  | alone h ih => rwa [text_alone]

theorem Paced.steps (h : Paced e step) : Steps step e.text := by
  induction h with
  | tick => exact Or.inl ⟨by decide, rfl⟩
  | quotient before after step h hfit =>
    have hnil : '/' ∉ ([] : List Char) := List.not_mem_nil
    exact Or.inr ⟨step, h.dividesTick before after step hnil rfl, rfl, hfit⟩
  | parens before after h ih => exact ih.enclosed before after
  | alone h ih => rwa [text_alone]

theorem Cycle.marks (h : Cycle e frames step) : Marks '%' frames e.text := by
  have hgap : ∀ g : Gap, '%' ∉ g.text := fun g => not_mem_of_blank g.blank (by decide)
  induction h with
  | @modulo a _ before after frames h =>
    refine ⟨a.text ++ before.text, after, [], (List.append_assoc a.text before.text _).symm, ?_, List.not_mem_nil, rfl⟩
    simp [h.modulo_not_mem, hgap]
  | @quotient a before after step before' after' frames h hfit =>
    have hpaced := (Paced.quotient before after step h hfit).modulo_not_mem
    refine ⟨(Expression.row (r := .product) a (.next before .divide after (.number (.decimal step)) .done)).text ++ before'.text,
      after', [], ?_, ?_, List.not_mem_nil, rfl⟩
    · simp [Expression.text, Operator.char, Number.text]
    · rw [List.mem_append, not_or]
      exact ⟨hpaced, hgap before'⟩
  | parens before after h ih => exact ih.enclosed before after
  | alone h ih => rwa [text_alone]

theorem Cycle.steps (h : Cycle e frames step) : Steps step e.text := by
  have hgap : ∀ g : Gap, '/' ∉ g.text := fun g => not_mem_of_blank g.blank (by decide)
  have hdigits : ∀ n : Decimal, '/' ∉ n.digits := fun n => n.numeral.not_mem (by decide)
  induction h with
  | modulo before after frames h =>
    have hnil : Outside [] := fun _ h => h
    exact h.steps.within hnil List.not_mem_nil (by simp [Expression.text, Operator.char, Number.text, hgap, hdigits])
      (before.head_sign (by decide) _)
  | quotient before after step before' after' frames h hfit =>
    exact Or.inr ⟨step, h.dividesTick before after step (by simp [Expression.text, Operator.char, Number.text, hgap, hdigits])
      (before'.head_sign (by decide) _), rfl, hfit⟩
  | parens before after h ih => exact ih.enclosed before after
  | alone h ih => rwa [text_alone]

end Shapes
end Signs
end SpriteFacts
