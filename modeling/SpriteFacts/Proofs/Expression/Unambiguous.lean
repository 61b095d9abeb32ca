import SpriteFacts.Proofs.Expression.Grammar
import SpriteFacts.Proofs.Pattern.Reading

/-! Every text is an expression in one way at most. A literal or a name goes as far as its word does, and behind a part
    of an expression stands a character that cannot go on with it; so two parts that begin one text, each with
    such a character behind it, are the same part. -/

namespace SpriteFacts

open Text Pattern

/-! ### What stands behind a part -/

def Rank.enders : Rank → List Char
  | sum => [')', ';']
  | product => [')', ';', '+', '-']

/-- The characters that may stand behind a part of an expression. -/
def Part.enders : Part → List Char
  | atom => [')', ';', '+', '-', '*', '/', '%']
  | row r | rest r => r.enders

/-- Behind blanks the text goes on with a character that may stand behind the part. -/
def Ends (p : Part) (xs : List Char) : Prop := ∃ g c rest, xs = g ++ c :: rest ∧ g.all isBlank = true ∧ c ∈ p.enders

theorem all_enders (p : Part) : p.enders.all (fun c => !isWord c && !isBlank c) = true := by
  rcases p with _ | r | r
  · decide
  · cases r <;> decide
  · cases r <;> decide

theorem not_isWord_of_enders {p : Part} {c : Char} (hc : c ∈ p.enders) : isWord c = false := by
  have h := List.all_eq_true.mp (all_enders p) c hc
  rw [Bool.and_eq_true, Bool.not_eq_true'] at h
  exact h.1

theorem not_isBlank_of_enders {p : Part} {c : Char} (hc : c ∈ p.enders) : isBlank c = false := by
  have h := List.all_eq_true.mp (all_enders p) c hc
  rw [Bool.and_eq_true, Bool.not_eq_true', Bool.not_eq_true'] at h
  exact h.2

theorem Ends.head {p : Part} {xs : List Char} (h : Ends p xs) : xs.head?.all (fun c => !isWord c) = true := by
  obtain ⟨g, c, rest, rfl, hg, hc⟩ := h
  refine head_outside (fun _ => isWord_of_isBlank) hg fun _ => ?_
  rw [List.head?_cons, Option.all_some, not_isWord_of_enders hc]
  rfl

theorem Ends.gap {p : Part} {xs : List Char} (h : Ends p xs) (g : Gap) : Ends p (g.text ++ xs) := by
  obtain ⟨g', c, rest, rfl, hg, hc⟩ := h
  exact ⟨g.text ++ g', c, rest, (List.append_assoc ..).symm, by rw [List.all_append, g.blank, hg]; rfl, hc⟩

theorem ends_cons {p : Part} {c : Char} (hc : c ∈ p.enders) (rest : List Char) : Ends p (c :: rest) :=
  ⟨[], c, rest, rfl, rfl, hc⟩

/-- What ends a row ends its last operand, and so does an operator. -/
theorem Ends.operand {r : Rank} (more : Expression (.rest r)) {xs : List Char} (h : Ends (.rest r) xs) :
    Ends r.operand (more.text ++ xs) := by
  cases more with
  | done =>
    obtain ⟨g, c, rest, rfl, hg, hc⟩ := h
    refine ⟨g, c, rest, rfl, hg, ?_⟩
    revert hc
    cases r
    · exact fun hc => List.mem_append_left ['+', '-'] hc
    · exact fun hc => List.mem_append_left ['*', '/', '%'] hc
  | next before op after operand more =>
    refine ⟨before.text, op.char, after.text ++ (operand.text ++ more.text) ++ xs, ?_, before.blank, ?_⟩
    · simp [Expression.text]
    · cases op <;> decide

theorem not_ends_next {r : Rank} {before : Gap} {op : Operator r} {xs : List Char} :
    ¬Ends (.rest r) (before.text ++ op.char :: xs) := by
  rintro ⟨g, c, rest, h, hg, hc⟩
  have hop : isBlank op.char = false := by cases op <;> decide
  have hblank : isBlank c = false := not_isBlank_of_enders hc
  obtain ⟨-, hrest⟩ := span_unique h before.blank hg (by simp [hop]) (by simp [hblank])
  obtain ⟨rfl, -⟩ := List.cons.inj hrest
  revert hc
  cases op <;> decide

/-! ### How a part begins -/

theorem isWord_of_isHexDigit {c : Char} (h : isHexDigit c = true) : isWord c = true := by
  rw [isWord, if_pos (isAscii_of_isHexDigit h)]
  simp only [isHexDigit, Bool.or_eq_true, Bool.and_eq_true, decide_eq_true_eq] at h
  have hletter (hcase : c.isUpper = true ∨ c.isLower = true) : c.isAlphanum = true :=
    (Bool.or_eq_true c.isAlpha c.isDigit).mpr (Or.inl ((Bool.or_eq_true c.isUpper c.isLower).mpr hcase))
  rw [Bool.or_eq_true]
  rcases h with (h | ⟨hlo, hhi⟩) | ⟨hlo, hhi⟩
  · exact Or.inl ((Bool.or_eq_true c.isAlpha c.isDigit).mpr (Or.inr h))
  · have hle : c.val ≤ 'z'.val := Nat.le_trans hhi (by decide)
    have hlower := (Bool.and_eq_true (decide (c.val ≥ 'a'.val)) _).mpr ⟨decide_eq_true hlo, decide_eq_true hle⟩
    exact Or.inl (hletter (Or.inr hlower))
  · have hle : c.val ≤ 'Z'.val := Nat.le_trans hhi (by decide)
    exact Or.inl (hletter (Or.inl (decide_eq_true (p := c.val ≥ 'A'.val ∧ c.val ≤ 'Z'.val) ⟨hlo, hle⟩)))

theorem Number.all_isWord (n : Number) : n.text.all isWord = true := by
  cases n with
  | decimal n =>
    exact List.all_eq_true.mpr fun c hc => isWord_of_isHexDigit (by simp [isHexDigit, List.all_eq_true.mp n.ascii c hc])
  | hexadecimal upper digits nonempty ascii =>
    have hdigits : digits.all isWord = true :=
      List.all_eq_true.mpr fun c hc => isWord_of_isHexDigit (List.all_eq_true.mp ascii c hc)
    have hmark : ['0', if upper then 'X' else 'x'].all isWord = true := by cases upper <;> decide
    rw [Number.text, List.all_cons, List.all_cons, hdigits]
    simpa using hmark

theorem Number.exists_cons (n : Number) : ∃ c cs, n.text = c :: cs ∧ c.isDigit = true := by
  cases n with
  | decimal n =>
    cases hn : n.digits with
    | nil => exact absurd hn n.nonempty
    | cons c cs => exact ⟨c, cs, hn, List.all_eq_true.mp n.ascii c (hn ▸ List.mem_cons_self)⟩
  | hexadecimal upper digits nonempty ascii => exact ⟨'0', _, rfl, by decide⟩

theorem Number.text_injective {m n : Number} (h : m.text = n.text) : m = n := by
  have hdecimal : ∀ (n : Decimal) (upper : Bool) (digits : List Char), n.digits ≠ '0' :: (if upper then 'X' else 'x') :: digits := by
    intro n upper digits hn
    have hmark := List.all_eq_true.mp n.ascii (if upper then 'X' else 'x') (hn ▸ by simp)
    cases upper <;> exact absurd hmark (by decide)
  cases m with
  | decimal m =>
    cases n with
    | decimal n => exact congrArg decimal (Decimal.ext h)
    | hexadecimal upper digits nonempty ascii => exact absurd h (hdecimal m upper digits)
  | hexadecimal upper digits nonempty ascii =>
    cases n with
    | decimal n => exact absurd h.symm (hdecimal n upper digits)
    | hexadecimal upper' digits' nonempty' ascii' =>
      obtain ⟨hmark, rfl⟩ := List.cons.inj (List.cons.inj h).2
      cases upper <;> cases upper' <;> first | rfl | exact absurd hmark (by decide)

theorem Rank.operand_ne_rest (r s : Rank) : r.operand ≠ .rest s := by
  cases r <;> exact Part.noConfusion

/-- No part but the rest of a row begins with a blank. -/
theorem Expression.head_text {p : Part} (e : Expression p) (hp : ∀ r, p ≠ .rest r) (xs : List Char) :
    (e.text ++ xs).head?.all (fun c => !isBlank c) = true := by
  induction e generalizing xs with
  | number n =>
    obtain ⟨c, cs, hn, -⟩ := n.exists_cons
    refine head_outside (fun _ => not_isBlank_of_isWord) n.all_isWord fun h => ?_
    rw [text, hn] at h
    cases h
  | tick | sprite | parens | abs => rfl
  | @row r first more ihfirst =>
    rw [text, List.append_assoc]
    exact ihfirst r.operand_ne_rest _
  | done | next => exact absurd rfl (hp _)

/-! ### One reading -/

theorem Gap.eq_of_append {g h : Gap} {xs ys : List Char} (heq : g.text ++ xs = h.text ++ ys)
    (hxs : xs.head?.all (fun c => !isBlank c) = true) (hys : ys.head?.all (fun c => !isBlank c) = true) : g = h ∧ xs = ys := by
  obtain ⟨htext, hrest⟩ := span_unique heq g.blank h.blank hxs hys
  exact ⟨Gap.ext htext, hrest⟩

/-- Text is split in one way at its last character that is no blank. -/
theorem Gap.split_last {g h : Gap} {as bs : List Char} {c d : Char} (hc : isBlank c = false) (hd : isBlank d = false)
    (heq : as ++ c :: g.text = bs ++ d :: h.text) : as = bs ∧ c = d := by
  rcases List.append_eq_append_iff.mp heq with ⟨w, rfl, hw⟩ | ⟨w, rfl, hw⟩
  · cases w with
    | nil => exact ⟨(List.append_nil as).symm, (List.cons.inj hw).1⟩
    | cons e w =>
      have hgap : g.text = w ++ d :: h.text := (List.cons.inj hw).2
      exact absurd (hgap ▸ List.mem_append_right _ List.mem_cons_self) (not_mem_of_blank g.blank hd)
  · cases w with
    | nil => exact ⟨List.append_nil bs, (List.cons.inj hw).1.symm⟩
    | cons e w =>
      have hgap : h.text = w ++ c :: g.text := (List.cons.inj hw).2
      exact absurd (hgap ▸ List.mem_append_right _ List.mem_cons_self) (not_mem_of_blank h.blank hc)

theorem Decimal.eq_of_append {n : Decimal} {t xs ys : List Char} (h : n.digits ++ xs = t ++ ys) (ht : t.all isDigit = true)
    (hxs : xs.head?.all (fun c => !isDigit c) = true) (hys : ys.head?.all (fun c => !isDigit c) = true) :
    t = n.digits ∧ xs = ys := by
  obtain ⟨rfl, hrest⟩ := span_unique h n.numeral.all_isDigit ht hxs hys
  exact ⟨rfl, hrest⟩

/-- Digits are no blanks. -/
theorem head_digits {t : List Char} (hne : t ≠ []) (hall : t.all isDigit = true) (xs : List Char) :
    (t ++ xs).head?.all (fun c => !isBlank c) = true :=
  head_outside (fun _ => not_isBlank_of_isDigit) hall fun hnil => absurd hnil hne

/-- Blanks and then a sign are no digits. -/
theorem Gap.head_sign (g : Gap) {sign : Char} (hsign : isDigit sign = false) (xs : List Char) :
    (g.text ++ sign :: xs).head?.all (fun c => !isDigit c) = true :=
  head_outside (fun _ => isDigit_of_isBlank) g.blank fun _ => by simp [hsign]

/-- Expressions that are read in one way are read in one way inside of parentheses. -/
theorem enclosed_unique {e f : Expression (.row .sum)} {before after before' after' : Gap} {xs ys : List Char}
    (unique : ∀ xs ys, e.text ++ xs = f.text ++ ys → Ends (.row .sum) xs → Ends (.row .sum) ys → e = f ∧ xs = ys)
    (h : enclosed before e.text after ++ xs = enclosed before' f.text after' ++ ys) :
    before = before' ∧ e = f ∧ after = after' ∧ xs = ys := by
  have hne : ∀ r, Part.row .sum ≠ .rest r := fun r h => nomatch h
  simp only [enclosed, List.cons_append, List.append_assoc, List.nil_append] at h
  obtain ⟨rfl, hinner⟩ := Gap.eq_of_append (List.cons.inj h).2 (e.head_text hne _) (f.head_text hne _)
  have hend : ∀ (g : Gap) (zs : List Char), Ends (.row .sum) (g.text ++ ')' :: zs) := fun g zs => (ends_cons (by decide) zs).gap g
  obtain ⟨rfl, hafter⟩ := unique _ _ hinner (hend after xs) (hend after' ys)
  obtain ⟨rfl, hrest⟩ := Gap.eq_of_append hafter rfl rfl
  exact ⟨rfl, rfl, rfl, (List.cons.inj hrest).2⟩

/-- Two parts that begin one text, each with what may stand behind it, are the same. -/
theorem Expression.unique {p : Part} (e : Expression p) : ∀ (f : Expression p) (xs ys : List Char),
    e.text ++ xs = f.text ++ ys → Ends p xs → Ends p ys → e = f ∧ xs = ys := by
  -- The first character tells apart the kinds of atoms; the two names that begin alike differ in the second.
  have hdigit : ∀ (n : Number) {c : Char} {cs xs ys : List Char}, c.isDigit = false → n.text ++ xs ≠ c :: cs ++ ys := by
    intro n c cs xs ys hc h
    obtain ⟨d, ds, hn, hd⟩ := n.exists_cons
    rw [hn] at h
    obtain ⟨rfl, -⟩ := List.cons.inj h
    rw [hc] at hd
    cases hd
  induction e with
  | number n =>
    intro f xs ys h hxs hys
    cases f with
    | number m =>
      obtain ⟨htext, hrest⟩ := span_unique h n.all_isWord m.all_isWord hxs.head hys.head
      exact ⟨congrArg number (Number.text_injective htext), hrest⟩
    | tick | sprite | parens | abs => exact absurd h (hdigit n (by decide))
  | tick =>
    intro f xs ys h hxs hys
    cases f with
    | number m => exact absurd h.symm (hdigit m (by decide))
    | tick => exact ⟨rfl, List.append_cancel_left h⟩
    | sprite | parens => exact absurd (List.cons.inj h).1 (by decide)
    | abs => exact absurd (List.cons.inj (List.cons.inj h).2).1 (by decide)
  | sprite =>
    intro f xs ys h hxs hys
    cases f with
    | number m => exact absurd h.symm (hdigit m (by decide))
    | sprite => exact ⟨rfl, List.append_cancel_left h⟩
    | tick | parens | abs => exact absurd (List.cons.inj h).1 (by decide)
  | parens before inner after ih =>
    intro f xs ys h hxs hys
    cases f with
    | number m => exact absurd h.symm (hdigit m (by decide))
    | tick | sprite | abs => exact absurd (List.cons.inj h).1 (by decide)
    | parens before' inner' after' =>
      obtain ⟨rfl, rfl, rfl, hrest⟩ := enclosed_unique (ih inner') h
      exact ⟨rfl, hrest⟩
  | abs gap before inner after ih =>
    intro f xs ys h hxs hys
    cases f with
    | number m => exact absurd h.symm (hdigit m (by decide))
    | tick => exact absurd (List.cons.inj (List.cons.inj h).2).1 (by decide)
    | sprite | parens => exact absurd (List.cons.inj h).1 (by decide)
    | abs gap' before' inner' after' =>
      rw [text, text, List.append_assoc, List.append_assoc, List.append_assoc, List.append_assoc] at h
      obtain ⟨rfl, hinner⟩ := Gap.eq_of_append (List.append_cancel_left h) rfl rfl
      obtain ⟨rfl, rfl, rfl, hrest⟩ := enclosed_unique (ih inner') hinner
      exact ⟨rfl, hrest⟩
  | row first more ihfirst ihmore =>
    intro f xs ys h hxs hys
    cases f with
    | row first' more' =>
      rw [text, text, List.append_assoc, List.append_assoc] at h
      obtain ⟨rfl, hmore⟩ := ihfirst first' _ _ h (Ends.operand more hxs) (Ends.operand more' hys)
      obtain ⟨rfl, hrest⟩ := ihmore more' _ _ hmore hxs hys
      exact ⟨rfl, hrest⟩
  | done =>
    intro f xs ys h hxs hys
    cases f with
    | done => exact ⟨rfl, h⟩
    | next before op after operand more =>
      rw [text, text, List.nil_append, List.append_assoc, List.cons_append] at h
      exact absurd (h ▸ hxs) not_ends_next
  | @next r before op after operand more ihoperand ihmore =>
    intro f xs ys h hxs hys
    cases f with
    | done =>
      rw [text, text, List.nil_append, List.append_assoc, List.cons_append] at h
      exact absurd (h ▸ hys) not_ends_next
    | next before' op' after' operand' more' =>
      have hop : ∀ op : Operator r, isBlank op.char = false := fun op => by cases op <;> decide
      simp only [text, List.append_assoc, List.cons_append] at h
      obtain ⟨rfl, hfrom⟩ := Gap.eq_of_append h (by simp [hop]) (by simp [hop])
      obtain ⟨hchar, hbehind⟩ := List.cons.inj hfrom
      obtain rfl : op = op' := by cases op <;> cases op' <;> first | rfl | exact absurd hchar (by decide)
      obtain ⟨rfl, hoperand⟩ := Gap.eq_of_append hbehind (operand.head_text r.operand_ne_rest _)
        (operand'.head_text r.operand_ne_rest _)
      obtain ⟨rfl, hmore⟩ := ihoperand operand' _ _ hoperand (Ends.operand more hxs) (Ends.operand more' hys)
      obtain ⟨rfl, hrest⟩ := ihmore more' _ _ hmore hxs hys
      exact ⟨rfl, hrest⟩

end SpriteFacts
