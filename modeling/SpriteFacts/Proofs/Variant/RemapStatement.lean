import SpriteFacts.Proofs.Variant.AssignedText
import SpriteFacts.Proofs.Variant.TickStatement

/-! The statements that draw a sprite from another one. A statement shifts the sprite by two literals, replaces it by a literal, or
    adds the frame of a cycle to a literal or to the sprite itself; the tick of a cycle may be divided, and then the position
    on the map may be added to it. Blanks stand between any two parts. Such a statement has one text for each
    sprite variable, and one remap for each sprite. -/

namespace SpriteFacts

open Text Pattern

/-! ### Shapes -/

/-- A shift counts a literal in and then another one out, or the other way around. -/
inductive Shift where
  | raise
  | lower
  deriving DecidableEq

/-- The base of a cycle: a literal, or the sprite itself. -/
inductive RemapBase where
  | literal (n : Decimal)
  | own

/-- The position on the map and the sign behind it, `(mn % MAPDX) +`. -/
structure MapTerm where
  lead : Gap
  afterOpen : Gap
  beforeModulo : Gap
  afterModulo : Gap
  beforeClose : Gap
  beforePlus : Gap

/-- The tick of a cycle. -/
inductive Pace where
  /-- `attick` -/
  | tick
  /-- `(attick / D)`, or `((mn % MAPDX) + attick / D)` -/
  | steps (position : Option MapTerm) (beforeTick beforeDivide afterDivide : Gap) (divisor : Decimal) (beforeClose : Gap)

/-- What a sprite variable is assigned. -/
inductive RemapExpression where
  /-- `v + A - B`, or `v - A + B` -/
  | shift (k : Shift) (beforeFirst afterFirst : Gap) (a : Decimal) (beforeSecond afterSecond : Gap) (b : Decimal)
  /-- `B` -/
  | direct (b : Decimal)
  /-- `B + attick % F`, where the sprite may stand for the literal `B` and the tick may be paced -/
  | cycle (base : RemapBase) (beforePlus afterPlus : Gap) (pace : Pace) (beforeModulo afterModulo : Gap) (frames : Decimal)

structure RemapStatement where
  lead : Gap
  beforeSign : Gap
  afterSign : Gap
  value : RemapExpression
  beforeEnd : Gap
  trail : Gap

/-! ### Texts -/

namespace Shift

def first : Shift → Char
  | raise => '+'
  | lower => '-'

def second : Shift → Char
  | raise => '-'
  | lower => '+'

end Shift

def RemapBase.text (v : String) : RemapBase → List Char
  | literal n => n.digits
  | own => v.toList

def MapTerm.text (t : MapTerm) : List Char :=
  t.lead.text ++ '(' :: (t.afterOpen.text ++ ("mn".toList ++ (t.beforeModulo.text ++ '%' :: (t.afterModulo.text ++
    ("MAPDX".toList ++ (t.beforeClose.text ++ ')' :: (t.beforePlus.text ++ ['+'])))))))

namespace Pace

/-- What stands in front of the tick. -/
def front : Pace → List Char
  | tick => []
  | steps none beforeTick _ _ _ _ => '(' :: beforeTick.text
  | steps (some t) beforeTick _ _ _ _ => '(' :: (t.text ++ beforeTick.text)

/-- What stands behind the tick. -/
def behind : Pace → List Char
  | tick => []
  | steps _ _ beforeDivide afterDivide divisor beforeClose =>
    beforeDivide.text ++ '/' :: (afterDivide.text ++ (divisor.digits ++ (beforeClose.text ++ [')'])))

def text (p : Pace) : List Char := p.front ++ ("attick".toList ++ p.behind)

end Pace

def RemapExpression.text (v : String) : RemapExpression → List Char
  | shift k beforeFirst afterFirst a beforeSecond afterSecond b =>
    v.toList ++ (beforeFirst.text ++ k.first :: (afterFirst.text ++ (a.digits ++ (beforeSecond.text ++ k.second ::
      (afterSecond.text ++ b.digits)))))
  | direct b => b.digits
  | cycle base beforePlus afterPlus pace beforeModulo afterModulo frames =>
    base.text v ++ (beforePlus.text ++ '+' :: (afterPlus.text ++ (pace.text ++ (beforeModulo.text ++ '%' ::
      (afterModulo.text ++ frames.digits)))))

namespace RemapStatement
variable (s : RemapStatement) (v : String)

/-- What stands behind the sign and its blanks. -/
def ending : List Char := s.value.text v ++ (s.beforeEnd.text ++ ';' :: s.trail.text)

/-- The statement that assigns a sprite variable. -/
def text : List Char := s.lead.text ++ (v.toList ++ (s.beforeSign.text ++ '=' :: (s.afterSign.text ++ s.ending v)))

end RemapStatement

/-! ### Remaps -/

/-- The base is in the range of integers. -/
def RemapBase.Fits : RemapBase → Prop
  | literal n => n.value ≤ maxInteger
  | own => True

def Pace.Fits : Pace → Prop
  | tick => True
  | steps _ _ _ _ divisor _ => divisor.value ≤ maxWord

/-- The literals are in the range of integers, the divisor and the number of frames in that of words. -/
def RemapExpression.Fits : RemapExpression → Prop
  | shift _ _ _ a _ _ b => a.value ≤ maxInteger ∧ b.value ≤ maxInteger
  | direct b => b.value ≤ maxInteger
  | cycle base _ _ pace _ _ frames => base.Fits ∧ pace.Fits ∧ frames.value ≤ maxWord

instance : (b : RemapBase) → Decidable b.Fits
  | .literal n => inferInstanceAs (Decidable ((n.value : Int) ≤ maxInteger))
  | .own => inferInstanceAs (Decidable True)

instance : (p : Pace) → Decidable p.Fits
  | .tick => inferInstanceAs (Decidable True)
  | .steps _ _ _ _ divisor _ => inferInstanceAs (Decidable (divisor.value ≤ maxWord))

instance : (e : RemapExpression) → Decidable e.Fits
  | .shift _ _ _ a _ _ b => inferInstanceAs (Decidable ((a.value : Int) ≤ maxInteger ∧ (b.value : Int) ≤ maxInteger))
  | .direct b => inferInstanceAs (Decidable ((b.value : Int) ≤ maxInteger))
  | .cycle base _ _ pace _ _ frames => inferInstanceAs (Decidable (base.Fits ∧ pace.Fits ∧ frames.value ≤ maxWord))

def RemapBase.value (id : Nat) : RemapBase → Int
  | literal n => n.value
  | own => id

def Pace.animation (frames : Nat) : Pace → Animation
  | tick => .cycle frames 1
  | steps none _ _ _ divisor _ => .cycle frames divisor.value
  | steps (some _) _ _ _ divisor _ => .positionCycle frames divisor.value

/-- The remap of a sprite. A shift whose sums leave the range of integers has none. -/
def RemapExpression.remap? (id : Nat) : RemapExpression → Option Remap
  | shift .raise _ _ a _ _ b => if id + (a.value : Int) ≤ maxInteger then some ⟨id + a.value - b.value, none⟩ else none
  | shift .lower _ _ a _ _ b =>
    if id - (a.value : Int) + b.value ≤ maxInteger then some ⟨id - a.value + b.value, none⟩ else none
  | direct b => some ⟨b.value, none⟩
  | cycle base _ _ pace _ _ frames => some ⟨base.value id, some (pace.animation frames.value)⟩

/-- The idiom meant for the shape. -/
def RemapExpression.idiom : RemapExpression → String
  | shift .raise _ _ _ _ _ _ => "offset-plus-minus"
  | shift .lower _ _ _ _ _ _ => "offset-minus-plus"
  | direct _ => "direct"
  | cycle (.literal _) _ _ _ _ _ _ => "base-cycle"
  | cycle .own _ _ _ _ _ _ => "self-cycle"

/-! ### Characters -/

section Characters
variable {c : Char}

theorem Pace.not_mem_front (p : Pace) (hblank : isBlank c = false) (hsigns : c ∉ "(mn%MAPDX)+".toList) : c ∉ p.front := by
  have hgap := Gap.not_mem hblank
  simp at hsigns
  cases p with
  | tick => exact List.not_mem_nil
  | steps position => cases position <;> simp [front, MapTerm.text, hgap, hsigns]

theorem RemapBase.not_mem_text (b : RemapBase) {v : String} (hdigit : c.isDigit = false) (hv : c ∉ v.toList) : c ∉ b.text v := by
  cases b with
  | literal n => exact Decimal.not_mem hdigit n
  | own => exact hv

variable (hblank : isBlank c = false) (hdigit : c.isDigit = false)

include hblank hdigit

theorem Pace.not_mem_behind (p : Pace) (hsigns : c ∉ "/)".toList) : c ∉ p.behind := by
  simp at hsigns
  cases p <;> simp [behind, Gap.not_mem hblank, Decimal.not_mem hdigit, hsigns]

theorem Pace.not_mem_text (p : Pace) (hsigns : c ∉ "attick/(mn%MAPDX)+".toList) : c ∉ p.text := by
  simp at hsigns
  have hfront := p.not_mem_front hblank (by simp [hsigns])
  have hbehind := p.not_mem_behind hblank hdigit (by simp [hsigns])
  simp [text, hfront, hbehind, hsigns]

namespace RemapExpression

theorem not_mem_shift {v : String} (hv : c ∉ v.toList) (k : Shift) (g₁ g₂ g₃ g₄ : Gap) (a b : Decimal)
    (hsigns : c ∉ "+-".toList) : c ∉ (shift k g₁ g₂ a g₃ g₄ b).text v := by
  simp at hsigns
  cases k <;> simp [text, Shift.first, Shift.second, Gap.not_mem hblank, Decimal.not_mem hdigit, hv, hsigns]

theorem not_mem_cycle {v : String} (hv : c ∉ v.toList) (base : RemapBase) (g₁ g₂ g₃ g₄ : Gap) {pace : Pace} (frames : Decimal)
    (hpace : c ∉ pace.text) (hsigns : c ∉ "+%".toList) : c ∉ (cycle base g₁ g₂ pace g₃ g₄ frames).text v := by
  simp at hsigns
  simp [text, Gap.not_mem hblank, Decimal.not_mem hdigit, base.not_mem_text hdigit hv, hpace, hsigns]

theorem not_mem_text {v : String} (hv : c ∉ v.toList) (e : RemapExpression) (hsigns : c ∉ "-attick/(mn%MAPDX)+".toList) :
    c ∉ e.text v := by
  simp at hsigns
  cases e with
  | shift => exact not_mem_shift hblank hdigit hv _ _ _ _ _ _ _ (by simp [hsigns])
  | direct b => exact Decimal.not_mem hdigit b
  | cycle _ _ _ pace =>
    have hpace := pace.not_mem_text hblank hdigit (by simp [hsigns])
    exact not_mem_cycle hblank hdigit hv _ _ _ _ _ _ hpace (by simp [hsigns])

end RemapExpression

end Characters

/-- A sprite variable is a word of small letters. -/
theorem SpriteVariable.not_mem {v : String} (hv : SpriteVariable v) {c : Char} (hc : c ∉ "csprite".toList) : c ∉ v.toList := by
  rcases hv with rfl | rfl
  · exact hc
  · exact fun h => hc (List.mem_cons_of_mem 'c' h)

namespace RemapStatement
variable (s : RemapStatement) {v : String}

theorem not_mem_ending {c : Char} (hblank : isBlank c = false) (hend : c ≠ ';') (hvalue : c ∉ s.value.text v) : c ∉ s.ending v := by
  simp [ending, Gap.not_mem hblank, hvalue, hend]

/-- A character that is missing from the variable and from what is assigned is missing from the statement. -/
theorem not_mem_text {c : Char} (hblank : isBlank c = false) (hsigns : c ∉ "=;".toList) (hv : c ∉ v.toList)
    (hvalue : c ∉ s.value.text v) : c ∉ s.text v := by
  simp at hsigns
  simp [text, Gap.not_mem hblank, hv, s.not_mem_ending hblank hsigns.2 hvalue, hsigns]

variable (hv : SpriteVariable v)

include hv

theorem head_ending : (s.ending v).head?.all (fun c => !isBlank c) = true := by
  have hdecimal : ∀ (n : Decimal) (cs : List Char), (n.digits ++ cs).head?.all (fun c => !isBlank c) = true := fun n cs =>
    head_digits n.nonempty n.numeral.all_isDigit cs
  have hname : ∀ cs : List Char, (v.toList ++ cs).head?.all (fun c => !isBlank c) = true := fun cs => hv.isName.head cs
  rw [ending]
  cases s.value with
  | shift k =>
    rw [RemapExpression.text, List.append_assoc]
    exact hname _
  | direct b => exact hdecimal b _
  | cycle base =>
    rw [RemapExpression.text, List.append_assoc]
    cases base with
    | literal n => exact hdecimal n _
    | own => exact hname _

/-- The statement as a text that is assigned to the variable. -/
def assigned : AssignedText where
  lead := s.lead
  beforeSign := s.beforeSign
  afterSign := s.afterSign
  ending := s.ending v
  unassigning :=
    s.not_mem_ending (by decide) (by decide)
      (RemapExpression.not_mem_text (by decide) (by decide) (hv.not_mem (by decide)) s.value (by decide))
  head := s.head_ending hv

end RemapStatement
end SpriteFacts
