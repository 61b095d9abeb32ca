import SpriteFacts.Proofs.Variant.RemapStatement

/-! The pace of the tick, read from the code around it. The code divides the tick by one literal at most and names the position on
    the map at most once, so the searches for them give the pace; and the modulus of the position has no literal behind it,
    so the literal behind a modulus is the number of frames. -/

namespace SpriteFacts

open Text Pattern

/-- The position on the map is found wherever its term stands. -/
theorem MapTerm.occursIn (t : MapTerm) (as bs : List Char) : Remap.mapPosition.occursIn (as ++ (t.text ++ bs)) = true := by
  have hout : Outside (as ++ (t.lead.text ++ '(' :: t.afterOpen.text)) := by
    rw [← List.append_assoc]
    exact (outside_of_blank t.afterOpen.blank).behind (by decide) _
  have hread : ∃ r, r ∈ Remap.mapPosition.readings (lastOf none (as ++ (t.lead.text ++ '(' :: t.afterOpen.text)))
      ("mn".toList ++ (t.beforeModulo.text ++ '%' :: (t.afterModulo.text ++ ("MAPDX".toList ++ (t.beforeClose.text ++ ')' ::
        (t.beforePlus.text ++ '+' :: bs)))))) := by
    apply exists_seq ((mem_readings_wordStart (by decide)).mpr ⟨hout none rfl, _, rfl, rfl⟩)
    apply exists_seq (mem_readings_run.mpr ⟨t.beforeModulo.text, _, rfl, t.beforeModulo.blank, rfl⟩)
    apply exists_seq (mem_readings_char.mpr ⟨_, rfl, rfl⟩)
    apply exists_seq (mem_readings_run.mpr ⟨t.afterModulo.text, _, rfl, t.afterModulo.blank, rfl⟩)
    exact ⟨_, mem_readings_literal.mpr ⟨_, rfl, rfl⟩⟩
  obtain ⟨r, hr⟩ := hread
  exact occursIn_iff.mpr ⟨_, _, r, by simp [text], hr⟩

namespace Pace

def divisor : Pace → Nat
  | tick => 1
  | steps _ _ _ _ divisor _ => divisor.value

def positional : Pace → Bool
  | tick => false
  | steps position _ _ _ _ _ => position.isSome

theorem animation_eq (p : Pace) (frames : Nat) : p.animation frames = .ofCycle frames p.divisor p.positional := by
  cases p with
  | tick => rfl
  | steps position => cases position <;> rfl

section Around
variable (p : Pace) {front tail : List Char}

/-- The code divides the tick as the pace does. -/
theorem steps_text (hfits : p.Fits) (hfront : '/' ∉ front) (htail : '/' ∉ tail) : Steps p.divisor (front ++ (p.text ++ tail)) := by
  cases p with
  | tick => exact Or.inl ⟨by simp [text, Pace.front, behind, hfront, htail], rfl⟩
  | steps position beforeTick beforeDivide afterDivide divisor beforeClose =>
    have hout : Outside (front ++ (steps position beforeTick beforeDivide afterDivide divisor beforeClose).front) := by
      cases position with
      | none => exact (outside_of_blank beforeTick.blank).behind (by decide) front
      | some t =>
        have hplus := (outside_of_blank beforeTick.blank).behind (c := '+') (by decide) (front ++ '(' :: (t.lead.text ++ '(' ::
          (t.afterOpen.text ++ ("mn".toList ++ (t.beforeModulo.text ++ '%' :: (t.afterModulo.text ++ ("MAPDX".toList ++
            (t.beforeClose.text ++ ')' :: t.beforePlus.text))))))))
        simpa [Pace.front, MapTerm.text] using hplus
    refine Or.inr ⟨divisor, ⟨_, [], beforeDivide, afterDivide, beforeClose.text ++ ')' :: tail, ?_, hout, Or.inl rfl, ?_, ?_,
      beforeClose.head_sign (by decide) _⟩, rfl, hfits⟩
    · simp [text, behind]
    · have hbefore := (steps position beforeTick beforeDivide afterDivide divisor beforeClose).not_mem_front
        (c := '/') (by decide) (by decide)
      simp [hfront, hbefore]
    · simp (disch := decide) [Gap.not_mem, htail]

/-- The modulus behind the tick points at the number of frames, for no literal stands behind the one of the position. -/
theorem points_text (hfront : '%' ∉ front) (htail : '%' ∉ tail) (hhead : tail.head?.all (fun c => !isDigit c) = true) (g g' : Gap)
    (frames : Decimal) : Points '%' frames (front ++ (p.text ++ (g.text ++ '%' :: (g'.text ++ (frames.digits ++ tail))))) := by
  have hmarks : ∀ xs, '%' ∉ xs → Points '%' frames (xs ++ (g.text ++ '%' :: (g'.text ++ (frames.digits ++ tail)))) := by
    intro xs hxs
    have hbefore : '%' ∉ xs ++ g.text := by simp (disch := decide) [Gap.not_mem, hxs]
    exact Marks.points ⟨xs ++ g.text, g', tail, by simp, hbefore, htail, hhead⟩ (by decide) (by decide)
  cases p with
  | tick =>
    rw [← List.append_assoc]
    exact hmarks _ (by simp [text, Pace.front, behind, hfront])
  | steps position beforeTick beforeDivide afterDivide divisor beforeClose =>
    cases position with
    | none =>
      rw [← List.append_assoc]
      refine hmarks _ ?_
      simp (disch := decide) [text, Pace.front, behind, hfront, Gap.not_mem, Decimal.not_mem]
    | some t =>
      have hrest := hmarks ('M' :: ("APDX".toList ++ (t.beforeClose.text ++ ')' :: (t.beforePlus.text ++ '+' :: (beforeTick.text ++
        ("attick".toList ++ (beforeDivide.text ++ '/' :: (afterDivide.text ++ (divisor.digits ++ (beforeClose.text ++ [')']))))))))))
        (by simp (disch := decide) [Gap.not_mem, Decimal.not_mem])
      have hbefore : '%' ∉ front ++ '(' :: (t.lead.text ++ '(' :: (t.afterOpen.text ++ ("mn".toList ++ t.beforeModulo.text))) := by
        simp (disch := decide) [Gap.not_mem, hfront]
      have hposition := Points.behind (g := t.afterModulo) hrest (by decide) hbefore (by decide) (by decide)
      simpa [text, Pace.front, behind, MapTerm.text] using hposition

/-- The code holds the position on the map if the pace adds it. -/
theorem occursIn_mapPosition (hfront : 'm' ∉ front) (htail : 'm' ∉ tail) :
    Remap.mapPosition.occursIn (front ++ (p.text ++ tail)) = p.positional := by
  have hneeds : Needs 'm' Remap.mapPosition := by
    simp [Remap.mapPosition, spaced, Pattern.wordStart, literal, Pattern.all, Pattern.char, Needs]
  have hnone : 'm' ∉ p.text → Remap.mapPosition.occursIn (front ++ (p.text ++ tail)) = false := fun htext => by
    rw [occursIn, hneeds.find?_eq_none (by simp [hfront, htail, htext])]
    rfl
  cases p with
  | tick => exact hnone (by decide)
  | steps position beforeTick beforeDivide afterDivide divisor beforeClose =>
    cases position with
    | none => exact hnone (by simp (disch := decide) [text, Pace.front, behind, Gap.not_mem, Decimal.not_mem])
    | some t =>
      have hoccurs := t.occursIn (front ++ ['(']) (beforeTick.text ++ ("attick".toList ++
        ((steps (some t) beforeTick beforeDivide afterDivide divisor beforeClose).behind ++ tail)))
      rw [positional, Option.isSome_some, ← hoccurs]
      simp [text, Pace.front]

/-- A cycle is read with the pace of the tick. -/
theorem cycling_eq (hfits : p.Fits) (hfront : 'm' ∉ front ∧ '/' ∉ front) (htail : 'm' ∉ tail ∧ '/' ∉ tail) (base : Int) (frames : Nat) :
    Remap.cycling base frames (front ++ (p.text ++ tail)) = ⟨base, some (p.animation frames)⟩ := by
  have hcycling : ∀ code, Remap.cycling base frames code =
      ⟨base, some (.ofCycle frames (Remap.tickDivisor code) (Remap.mapPosition.occursIn code))⟩ := fun _ => rfl
  rw [hcycling, Remap.tickDivisor_eq (p.steps_text hfits hfront.2 htail.2), p.occursIn_mapPosition hfront.1 htail.1, animation_eq]

end Around
end Pace

end SpriteFacts
