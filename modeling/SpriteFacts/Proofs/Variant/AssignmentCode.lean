import SpriteFacts.Proofs.Idiom.Chain
import SpriteFacts.Proofs.Switch.Spelled
import SpriteFacts.Proofs.Variant.AssignmentText
import SpriteFacts.Variant.Pass

/-! Code that is assignments with blanks between them, as the idioms of the animated variants see it. Each channel
    takes the value of the first assignment to it, the sprite is drawn from the value assigned to it or from
    itself, and no other idiom, no warning and no review has anything to say about such code. -/

namespace SpriteFacts

open Switch Text Pattern

/-- The text is the assignments, with blanks in front of each and at its end. -/
inductive Spells : List Assignment → List Char → Prop
  | blank {t : List Char} (h : t.all isBlank = true) : Spells [] t
  | assign {gap : List Char} {a : Assignment} {as : List Assignment} {t : List Char} (h : gap.all isBlank = true)
      (rest : Spells as t) : Spells (a :: as) (gap ++ (a.text ++ t))

theorem spells_iff_spelled {as : List Assignment} {t : List Char} : Spells as t ↔ Spelled as t := by
  constructor <;> intro h
  · induction h with
    | blank ht => exact .blank ht
    | assign ht _ ih => exact .code ht ih
  · induction h with
    | blank ht => exact .blank ht
    | code ht _ ih => exact .assign ht ih

def firstTo (v : Variable) (as : List Assignment) : Option Assignment := as.find? fun a => a.target = v

namespace Spells
variable {as : List Assignment} {t : List Char} {ws : List (List Char)} {p : Pattern}

/-! ### What is not in the code -/

theorem not_mem (h : Spells as t) {c : Char} (hblank : isBlank c = false) (hword : isWord c = false)
    (hdigit : c.isDigit = false) (hmark : c ∉ marks) : c ∉ t := by
  induction h with
  | blank ht => exact not_mem_of_blank ht hblank
  | @assign gap a as t ht rest ih =>
    simp only [List.mem_append, not_or]
    exact ⟨not_mem_of_blank ht hblank, a.not_mem_text hword hdigit hmark, ih⟩

theorem clear (h : Begins ws p) (hws : unblank ws = true) (hs : Spells as t)
    (hforeign : ∀ a ∈ as, foreign ws a.target = true) {last : Option Char} : p.Clear [] last t := by
  induction hs generalizing last with
  | blank ht => exact h.clear_of_blank hws ht
  | @assign gap a as t ht rest ih =>
    refine clear_append.mpr ⟨h.clear_of_blank hws ht, clear_append.mpr ⟨a.clear h (hforeign a List.mem_cons_self), ?_⟩⟩
    exact ih fun b hb => hforeign b (List.mem_cons_of_mem a hb)

theorem read?_nil (h : Begins ws p) (hws : unblank ws = true) (last : Option Char) :
    p.read? last [] = none := by
  refine h.read?_nil fun hnil => ?_
  have := List.all_eq_true.mp hws [] hnil
  cases this

theorem find?_eq_none (h : Begins ws p) (hws : unblank ws = true) (hs : Spells as t)
    (hforeign : ∀ a ∈ as, foreign ws a.target = true) : p.find? t = none :=
  findFrom_eq_none.mpr ⟨clear h hws hs hforeign, read?_nil h hws _⟩

end Spells

/-! ### The first assignment to a variable -/

def Variable.pattern : Variable → Pattern
  | channel c => c.assignment
  | sprite => assignmentOf "sprite" digits (· == ';')

theorem Variable.begins (v : Variable) : Begins [v.name] v.pattern := by
  cases v with
  | channel c => cases c <;> exact (begins_wordStart (by decide)).seq.seq
  | sprite => exact (begins_wordStart (by decide)).seq.seq

theorem Variable.unblank : ∀ v : Variable, Pattern.unblank [v.name] = true := of_all (by decide)

theorem foreign_of_ne {v w : Variable} (h : w ≠ v) : foreign [v.name] w = true := by
  have hpairs : ∀ v, (Variable.all.all fun w => decide (w = v) || foreign [v.name] w) = true := Variable.of_all (by decide)
  have hpair := Variable.of_all (hpairs v) w
  rwa [decide_eq_false h, Bool.false_or] at hpair

theorem Assignment.read?_pattern (a : Assignment) {last : Option Char} (hlast : last.any isWord = false) (rest : List Char) :
    ∃ r, a.target.pattern.read? last (a.text ++ rest) = some r ∧ r.kept = [(1, a.literal.text)] := by
  have htext : a.text ++ rest = a.target.name ++ ' ' :: '=' :: ' ' :: (a.literal.text ++ ';' :: rest) := by
    simp [text_eq]
  rw [htext]
  cases a with
  | channel c k =>
    have hstop : ∀ d : Char, (d == ';' || d == ',' || d == ')') = true → isNumeral d = false := by
      intro d hd
      simp only [Bool.or_eq_true, beq_iff_eq] at hd
      rcases hd with (rfl | rfl) | rfl <;> decide
    exact read?_assignmentOf (by cases c <;> decide) numeric_signedDigits hlast hstop (by decide) k.text_ne_nil k.all_isNumeral
      (fun _ _ => read_signedDigits k _ _) rest
  | sprite n =>
    have hstop : ∀ d : Char, (d == ';') = true → isNumeral d = false := by
      intro d hd
      rw [beq_iff_eq] at hd
      subst hd
      decide
    exact read?_assignmentOf (by decide) numeric_digits hlast hstop (by decide) n.nonempty (Literal.plain n).all_isNumeral
      (fun _ _ => read_digits n _ _) rest

/-- The literal of an assignment to the variable. -/
def Variable.literal? (v : Variable) (a : Assignment) : Option (List Char) :=
  if a.target = v then some a.literal.text else none

theorem Variable.literal?_eq_some {v : Variable} {a : Assignment} {k : List Char} :
    v.literal? a = some k ↔ a.target = v ∧ a.literal.text = k := by
  rw [literal?]
  split <;> simp_all

theorem Variable.literal?_eq_none {v : Variable} {a : Assignment} : v.literal? a = none ↔ a.target ≠ v := by
  rw [literal?]
  split <;> simp_all

theorem findSome?_literal? (v : Variable) (as : List Assignment) :
    as.findSome? v.literal? = (firstTo v as).map (·.literal.text) := by
  induction as with
  | nil => rfl
  | cons a as ih =>
    by_cases hv : a.target = v
    · rw [List.findSome?_cons, Variable.literal?_eq_some.mpr ⟨hv, rfl⟩, firstTo, List.find?_cons_of_pos (by simpa using hv)]
      rfl
    · have hfirst : firstTo v (a :: as) = firstTo v as := List.find?_cons_of_neg (by simpa using hv)
      rw [List.findSome?_cons, Variable.literal?_eq_none.mpr hv, hfirst]
      exact ih

theorem Variable.keeps (v : Variable) : Keeps v.pattern v.literal? where
  clear_blank := v.begins.clear_of_blank v.unblank
  read?_nil := Spells.read?_nil v.begins v.unblank
  clear _ hpart := Assignment.clear v.begins _ (foreign_of_ne (Variable.literal?_eq_none.mp hpart))
  read rest hlast hpart := by
    obtain ⟨rfl, rfl⟩ := Variable.literal?_eq_some.mp hpart
    exact Assignment.read?_pattern _ hlast rest

theorem integer?_of_group? {v : Variable} {as : List Assignment} {t : List Char}
    (h : (v.pattern.find? t).bind (·.group? 1) = (firstTo v as).map (·.literal.text)) :
    (v.pattern.find? t).bind (·.integer? 1) = (firstTo v as).map (·.value) := by
  have hfind := congrArg (Option.bind · Text.integer?) h
  rw [Option.bind_assoc] at hfind
  refine hfind.trans ?_
  cases firstTo v as with
  | none => rfl
  | some a => exact a.literal.integer?_eq

/-- The channels are the first assignments that their patterns find. -/
theorem channels_of_group? {as : List Assignment} {t : List Char}
    (h : ∀ c, ((Variable.channel c).pattern.find? t).bind (·.group? 1) = (firstTo (.channel c) as).map (·.literal.text)) (id : Nat) :
    Channels.read ⟨id, t⟩ = .ofGet fun c => (firstTo (.channel c) as).map (·.value) := by
  have hchain : ∀ c : Channel, c.chain.value? ⟨id, t⟩ = (firstTo (.channel c) as).map (·.value) := by
    intro c
    rw [Channel.chain, IdiomChain.value?_singleton]
    exact integer?_of_group? (h c)
  rw [Channels.read, funext hchain]

namespace Spells
variable {as : List Assignment} {t : List Char}

/-- The pattern of a variable finds the first assignment to it. -/
theorem find?_eq (hs : Spells as t) (v : Variable) :
    (v.pattern.find? t).bind (·.group? 1) = (firstTo v as).map (·.literal.text) :=
  (v.keeps.findFrom_eq (spells_iff_spelled.mp hs) rfl 0).trans (findSome?_literal? v as)

theorem integer?_eq (hs : Spells as t) (v : Variable) :
    (v.pattern.find? t).bind (·.integer? 1) = (firstTo v as).map (·.value) := integer?_of_group? (hs.find?_eq v)

end Spells

/-! ### What the idioms read -/

theorem foreign_all {ws : List (List Char)} (h : ∀ v, foreign ws v = true) (as : List Assignment) :
    ∀ a ∈ as, foreign ws a.target = true := fun a _ => h a.target

namespace Spells
variable {as : List Assignment} {t : List Char}

theorem channels_eq (hs : Spells as t) (id : Nat) :
    Channels.read ⟨id, t⟩ = .ofGet fun c => (firstTo (.channel c) as).map (·.value) :=
  channels_of_group? (fun c => hs.find?_eq (.channel c)) id

/-- The code draws from the value that is assigned to the sprite, or from the sprite itself. -/
theorem remap_eq (hs : Spells as t) (id : Nat) :
    Remap.animatedChain.value? ⟨id, t⟩ = some ⟨((firstTo .sprite as).map (·.value)).getD id, none⟩ := by
  have hplus : '+' ∉ t := hs.not_mem (by decide) (by decide) (by decide) (by decide)
  have hsums : ∀ i ∈ Remap.animatedChain.idioms.take 4, i.read ⟨id, t⟩ = none := by
    intro i hi
    simp only [Remap.animatedChain, Remap.chain, List.take, List.mem_cons, List.not_mem_nil, or_false] at hi
    rcases hi with rfl | rfl | rfl | rfl
    · exact Idiom.read_of_needs (c := '+') (by simp [Remap.shifted, spaced, Pattern.char, Needs]) hplus
    · exact Idiom.read_of_needs (c := '+') (by simp [Remap.shifted, spaced, Pattern.char, Needs]) hplus
    · exact Idiom.read_of_needs (c := '+') (by simp [spaced, Pattern.char, Needs]) hplus
    · exact Idiom.read_of_needs (c := '+') (by simp [spaced, Pattern.char, Needs]) hplus
  have hsplit : Remap.animatedChain =
      ⟨"base_sprite", Remap.animatedChain.idioms.take 4 ++ Remap.animatedChain.idioms.drop 4⟩ := rfl
  have hdirect : ∀ value : Option Int, (Variable.sprite.pattern.find? t).bind (·.integer? 1) = value →
      (Variable.sprite.pattern.find? t).bind (fun m => (m.integer? 1).map fun base => (⟨base, none⟩ : Remap)) =
        value.map fun base => ⟨base, none⟩ := by
    rintro value rfl
    cases Variable.sprite.pattern.find? t <;> rfl
  have hread := hdirect _ (hs.integer?_eq .sprite)
  rw [hsplit, IdiomChain.value?_append_of_none hsums]
  cases hfirst : firstTo .sprite as with
  | some a =>
    rw [hfirst] at hread
    exact IdiomChain.value?_of_some hread
  | none =>
    rw [hfirst] at hread
    have hforeign : ∀ a ∈ as, foreign ["sprite".toList] a.target = true := by
      intro a ha
      refine @foreign_of_ne .sprite _ fun htarget => ?_
      have := List.find?_eq_none.mp hfirst a ha
      simp [htarget] at this
    have hfind : (Remap.anyAssignment "sprite").find? t = none :=
      find?_eq_none (begins_wordStart (by decide)).seq (by decide) hs hforeign
    have hidentity : (if (Remap.anyAssignment "sprite").occursIn t then none else some (⟨id, none⟩ : Remap)) = some ⟨id, none⟩ := by
      rw [occursIn, hfind]
      rfl
    exact (IdiomChain.value?_cons_of_none hread).trans ((IdiomChain.value?_singleton _ _ _).trans hidentity)

theorem colors_eq (hs : Spells as t) (id : Nat) : PackedColors.chain.value? ⟨id, t⟩ = none := by
  have hassigned : ∀ slot, PackedColors.assigned? slot t = none := by
    intro slot
    have hforeign : ∀ v, foreign [slot.name.toList] v = true := by
      cases slot <;> exact Variable.of_all (by decide)
    have hfind : (spaced [assignTo slot.name, PackedColor.written]).find? t = none := by
      cases slot <;> exact find?_eq_none (begins_wordStart (by decide)).seq.seq (by decide) hs (foreign_all hforeign as)
    rw [PackedColors.assigned?, hfind]
    rfl
  have hchained : PackedColors.chained.find? t = none := by
    exact find?_eq_none (begins_wordStart (s := "c1") (by decide)).seq.seq (by decide) hs (foreign_all (Variable.of_all (by decide)) as)
  have heach : PackedColors.readEach ⟨id, t⟩ = none := by
    simp only [PackedColors.readEach, hassigned]
    rfl
  exact (IdiomChain.value?_cons_of_none (Idiom.read_of_find?_none hchained)).trans
    ((IdiomChain.value?_singleton _ _ _).trans heach)

end Spells

end SpriteFacts
