import SpriteFacts.Proofs.Pattern.Confined
import SpriteFacts.Proofs.Variant.IdentityRemap
import SpriteFacts.Proofs.Variant.PackedReport
import SpriteFacts.Proofs.Variant.RemapValue

/-! Statements with the tick, and the idioms that account for it. A statement gives the light a distance of the tick or the
    sprite a cycle, it packs a color whose blue is such a distance, or it assigns a channel a literal or a remainder of the
    tick. Each of the first three is the only kind that its idiom matches, and the match covers the tick; a
    remainder is matched by no idiom. -/

namespace SpriteFacts

open Text Pattern

/-! ### The tick of a text -/

/-- The tick stands in the text once, between the two parts and as a word; a modulo and no sign of an assignment follows. -/
structure TickAt (t front back : List Char) : Prop where
  split : t = front ++ ("attick".toList ++ back)
  outside : Outside front
  ends : ∃ c rest, back = c :: rest ∧ isWord c = false
  alone : 'k' ∉ front ∧ 'k' ∉ back
  modulo : '%' ∉ front
  sign : '=' ∉ back

namespace TickAt
variable {t front back as bs : List Char}

theorem within (h : TickAt t front back) (hout : Outside as) (hfront : 'k' ∉ as ∧ '%' ∉ as) (hback : 'k' ∉ bs ∧ '=' ∉ bs) :
    TickAt (as ++ (t ++ bs)) (as ++ front) (back ++ bs) where
  split := by simp [h.split]
  outside := hout.append h.outside
  ends := by
    obtain ⟨c, rest, hback, hc⟩ := h.ends
    exact ⟨c, rest ++ bs, by rw [hback]; rfl, hc⟩
  alone := by simp [hfront, hback, h.alone]
  modulo := by simp [hfront, h.modulo]
  sign := by simp [hback, h.sign]

/-- A match that takes a sign of an assignment and a modulo covers the tick. -/
theorem covered (h : TickAt t front back) {p : Pattern} (hsign : Needs '=' p) (hmodulo : Needs '%' p) {m : Match}
    (hm : p.find? t = some m) :
    m.start ≤ byteLength front ∧ byteLength (front ++ "attick".toList) ≤ m.stop := by
  obtain ⟨before, r, hstands, -⟩ := findFrom_eq_some hm
  have hmem := mem_of_read? hstands.read
  obtain ⟨u, v, huv⟩ := List.append_of_mem (hsign.mem hmem)
  obtain ⟨x, y, hxy⟩ := List.append_of_mem (hmodulo.mem hmem)
  have hstart : m.start = byteLength before := by simp [hstands.match_eq, Reading.toMatch]
  have hstop : m.stop = byteLength (before ++ r.text) := by simp [hstands.match_eq, Reading.toMatch]
  -- The sign stands in front of the tick, so the match begins there, and the modulo behind it, so the match goes on to there.
  have hsigned : front ++ ("attick".toList ++ back) = (before ++ u) ++ '=' :: (v ++ r.rest) := by
    rw [← h.split, hstands.split, huv]
    simp
  have hmoduled : (front ++ "attick".toList) ++ back = (before ++ x) ++ '%' :: (y ++ r.rest) := by
    rw [List.append_assoc front, ← h.split, hstands.split, hxy]
    simp
  obtain ⟨w, hfront, -⟩ := exists_front hsigned (by simp [h.sign])
  obtain ⟨z, hback, -⟩ := exists_behind hmoduled (by simp [h.modulo])
  constructor
  · rw [hstart, hfront]
    simp only [byteLength_append]
    omega
  · rw [hstop, hxy, ← List.append_assoc, hback]
    simp only [byteLength_append]
    omega

end TickAt

/-! ### Statements -/

/-- The distance of the tick from a peak, neither divided nor moved, its literals in the range of words. -/
structure BareDistance extends TickDistance where
  undivided : divisor = none
  unmoved : offset = none
  fits : peak.value ≤ maxWord ∧ period.value ≤ maxWord

/-- A frame of a cycle: a base, and the tick in steps and modulo a number of frames. -/
structure TickCycle where
  base : Decimal
  beforePlus : Gap
  afterPlus : Gap
  beforeTick : Gap
  beforeDivide : Gap
  afterDivide : Gap
  step : Decimal
  afterStep : Gap
  beforeModulo : Gap
  afterModulo : Gap
  frames : Decimal
  fits : base.value ≤ maxWord ∧ step.value ≤ maxWord ∧ frames.value ≤ maxWord

namespace TickCycle
variable (c : TickCycle)

def pace : Expression .atom :=
  .parens c.beforeTick (.row (.row .tick (.next c.beforeDivide .divide c.afterDivide (.number (.decimal c.step)) .done)) .done)
    c.afterStep

def frame : Expression (.row .product) :=
  .row c.pace (.next c.beforeModulo .modulo c.afterModulo (.number (.decimal c.frames)) .done)

def expression : Expression (.row .sum) := raised (.number (.decimal c.base)) c.beforePlus c.afterPlus c.frame

end TickCycle

/-- The color of a statement up to its closing parenthesis. -/
def ColorStatement.packed (s : ColorStatement) : List Char :=
  "IRGB".toList ++ (s.call.text ++ '(' :: (s.beforeRed.text ++ (s.red.digits ++ (s.afterRed.text ++ ',' ::
    (s.beforeGreen.text ++ (s.green.digits ++ (s.afterGreen.text ++ ',' ::
      (s.beforeBlue.text ++ (s.blue.text ++ (s.afterBlue.text ++ [')']))))))))))

theorem ColorStatement.color_eq (s : ColorStatement) : s.color = s.packed ++ (s.beforeEnd.text ++ ';' :: s.trail.text) := by
  simp [color, packed, ending]

/-- The text of a distance, in front of the tick and behind it. -/
theorem BareDistance.text_eq (f : BareDistance) : f.expression.text =
    ("abs".toList ++ (f.call.text ++ '(' :: (f.beforePeak.text ++ (f.peak.digits ++ (f.beforeMinus.text ++ '-' ::
      (f.afterMinus.text ++ '(' :: f.beforeTick.text)))))) ++ ("attick".toList ++ (f.beforeModulo.text ++ '%' ::
        (f.afterModulo.text ++ (f.period.digits ++ (f.afterPeriod.text ++ ')' :: (f.afterTick.text ++ [')'])))))) := by
  simp [TickDistance.expression, f.undivided, f.unmoved, TickDistance.division, TickDistance.addition, TickDistance.distance,
    TickDistance.phase, Expression.text, enclosed, Operator.char, Number.text]

/-- The text of a cycle, in front of the tick and behind it. -/
theorem TickCycle.text_eq (c : TickCycle) : c.expression.text =
    (c.base.digits ++ (c.beforePlus.text ++ '+' :: (c.afterPlus.text ++ '(' :: c.beforeTick.text))) ++
      ("attick".toList ++ (c.beforeDivide.text ++ '/' :: (c.afterDivide.text ++ (c.step.digits ++ (c.afterStep.text ++ ')' ::
        (c.beforeModulo.text ++ '%' :: (c.afterModulo.text ++ c.frames.digits))))))) := by
  simp [expression, raised, frame, pace, Expression.text, enclosed, Operator.char, Number.text]

/-- The tick modulo a literal. -/
def tickRemainder (before after : Gap) (n : Decimal) : Expression (.row .sum) :=
  .row (.row .tick (.next before .modulo after (.number (.decimal n)) .done)) .done

/-! ### The tick of an expression -/

theorem exists_cons_gap (g : Gap) {c : Char} (hc : isWord c = false) (rest : List Char) :
    ∃ d more, g.text ++ c :: rest = d :: more ∧ isWord d = false := by
  obtain ⟨t, ht⟩ := g
  cases t with
  | nil => exact ⟨c, rest, rfl, hc⟩
  | cons d t => exact ⟨d, t ++ c :: rest, rfl, isWord_of_isBlank (List.all_eq_true.mp ht d List.mem_cons_self)⟩

/-- Where a parenthesis opens, perhaps with blanks behind it, no word goes on. -/
theorem outside_open (as : List Char) (g : Gap) : Outside (as ++ '(' :: g.text) :=
  (outside_of_blank g.blank).behind (by decide) as

theorem BareDistance.exists_tickAt (f : BareDistance) : ∃ front back, TickAt f.expression.text front back := by
  refine ⟨_, _, f.text_eq, ?_, exists_cons_gap f.beforeModulo (by decide) _, ?_, ?_, ?_⟩
  · have hout := outside_open ("abs".toList ++ (f.call.text ++ '(' :: (f.beforePeak.text ++ (f.peak.digits ++
      (f.beforeMinus.text ++ '-' :: f.afterMinus.text))))) f.beforeTick
    simpa using hout
  all_goals simp (disch := decide) [Gap.not_mem, Decimal.not_mem]

theorem TickCycle.exists_tickAt (c : TickCycle) : ∃ front back, TickAt c.expression.text front back := by
  refine ⟨_, _, c.text_eq, ?_, exists_cons_gap c.beforeDivide (by decide) _, ?_, ?_, ?_⟩
  · have hout := outside_open (c.base.digits ++ (c.beforePlus.text ++ '+' :: c.afterPlus.text)) c.beforeTick
    simpa using hout
  all_goals simp (disch := decide) [Gap.not_mem, Decimal.not_mem]

theorem exists_tickAt_remainder (before after : Gap) (n : Decimal) :
    ∃ front back, TickAt (tickRemainder before after n).text front back := by
  refine ⟨[], before.text ++ '%' :: (after.text ++ n.digits), ?_, fun _ h => h, exists_cons_gap before (by decide) _, ?_, ?_, ?_⟩
  · simp [tickRemainder, Expression.text, Operator.char, Number.text]
  all_goals simp (disch := decide) [Gap.not_mem, Decimal.not_mem]

theorem ColorStatement.exists_tickAt (s : ColorStatement) {f : BareDistance} (h : s.blue = f.expression) :
    ∃ front back, TickAt s.packed front back := by
  obtain ⟨front, back, hblue⟩ := f.exists_tickAt
  have hout := (outside_of_blank s.beforeBlue.blank).behind (c := ',') (by decide) ("IRGB".toList ++ (s.call.text ++ '(' ::
    (s.beforeRed.text ++ (s.red.digits ++ (s.afterRed.text ++ ',' :: (s.beforeGreen.text ++ (s.green.digits ++ s.afterGreen.text)))))))
  have hback : 'k' ∉ s.afterBlue.text ++ [')'] ∧ '=' ∉ s.afterBlue.text ++ [')'] := by simp (disch := decide) [Gap.not_mem]
  have hplace := hblue.within hout (by simp (disch := decide) [Gap.not_mem, Decimal.not_mem]) hback
  exact ⟨_, _, by simpa [packed, h] using hplace⟩

/-- The variables that the passes draw a sprite from. -/
def SpriteVariable (v : String) : Prop := v = "csprite" ∨ v = "sprite"

theorem SpriteVariable.isName {v : String} (h : SpriteVariable v) : Switch.IsName v.toList := by
  rcases h with rfl | rfl <;> decide

/-- A statement of a variant that assigns a literal or something made from the tick. -/
inductive TickStatement where
  /-- `light = abs(M - (attick % P));` -/
  | light (s : ExpressionStatement) (f : BareDistance) (value : s.value = f.expression)
  /-- `sprite = B + (attick / D) % F;`, and so for the other variable of a sprite. -/
  | cycle (v : String) (drawn : SpriteVariable v) (s : ExpressionStatement) (c : TickCycle) (value : s.value = c.expression)
  /-- `c1 = IRGB(R, G, abs(M - (attick % P)));`, and so for the other slots. -/
  | color (s : ColorStatement) (f : BareDistance) (blue : s.blue = f.expression)
      (fits : s.red.value ≤ maxWord ∧ s.green.value ≤ maxWord)
  /-- `V = K;` for a channel. -/
  | literal (c : Channel) (s : ExpressionStatement) (n : Decimal) (value : s.value = Remap.alone n)
  /-- `V = attick % K;` for a channel. -/
  | remainder (c : Channel) (s : ExpressionStatement) (before after : Gap) (n : Decimal)
      (value : s.value = tickRemainder before after n)

/-- The idioms that account for a tick. -/
inductive TickIdiom where
  | baseCycle
  | selfCycle
  | mask
  | color
  | light
  deriving DecidableEq

namespace TickStatement

def lead : TickStatement → Gap
  | light s _ _ | cycle _ _ s _ _ | literal _ s _ _ | remainder _ s _ _ _ _ => s.lead
  | color s _ _ _ => s.lead

def name : TickStatement → String
  | light _ _ _ => "light"
  | cycle v _ _ _ _ => v
  | color s _ _ _ => s.slot.name
  | literal c _ _ _ | remainder c _ _ _ _ _ => c.variableName

def beforeSign : TickStatement → Gap
  | light s _ _ | cycle _ _ s _ _ | literal _ s _ _ | remainder _ s _ _ _ _ => s.beforeSign
  | color s _ _ _ => s.beforeSign

/-- What stands behind the sign. -/
def behind : TickStatement → List Char
  | light s _ _ | cycle _ _ s _ _ | literal _ s _ _ | remainder _ s _ _ _ _ => s.afterSign.text ++ s.ending
  | color s _ _ _ => s.afterSign.text ++ s.color

def text (s : TickStatement) : List Char := s.lead.text ++ (s.name.toList ++ (s.beforeSign.text ++ '=' :: s.behind))

/-- The statement holds the tick. -/
def ticks : TickStatement → Bool
  | literal _ _ _ _ => false
  | _ => true

/-- The idiom that matches the statement in code that draws the sprite of a variable. -/
def idiom? (v : String) : TickStatement → Option TickIdiom
  | light _ _ _ => some .light
  | cycle w _ _ _ _ => if w = v then some .baseCycle else none
  | color _ _ _ _ => some .color
  | literal _ _ _ _ | remainder _ _ _ _ _ _ => none

section Idiom
variable {s : TickStatement} {v : String}

theorem exists_light (h : s.idiom? v = some .light) : ∃ s' f hvalue, s = light s' f hvalue := by
  cases s with
  | light s f hvalue => exact ⟨s, f, hvalue, rfl⟩
  | cycle => simp [idiom?] at h
  | color | literal | remainder => cases h

theorem exists_color (h : s.idiom? v = some .color) : ∃ s' f hblue fits, s = color s' f hblue fits := by
  cases s with
  | color s f hblue fits => exact ⟨s, f, hblue, fits, rfl⟩
  | cycle => simp [idiom?] at h
  | light | literal | remainder => cases h

theorem exists_baseCycle (h : s.idiom? v = some .baseCycle) : ∃ hv s' c hvalue, s = cycle v hv s' c hvalue := by
  cases s with
  | cycle w hw s c hvalue =>
    obtain rfl : w = v := by simpa [idiom?] using h
    exact ⟨hw, s, c, hvalue, rfl⟩
  | light | color | literal | remainder => cases h

theorem idiom?_ne (s : TickStatement) (v : String) : s.idiom? v ≠ some .mask ∧ s.idiom? v ≠ some .selfCycle := by
  cases s <;> simp [idiom?]

end Idiom

def names : List String := ["light", "csprite", "sprite", "c1", "c2", "c3", "scale", "cr", "cg", "cb", "sat", "shine"]

theorem name_mem (s : TickStatement) : s.name ∈ names := by
  cases s with
  | light => simp [name, names]
  | cycle v hv => rcases hv with rfl | rfl <;> simp [name, names]
  | color s => cases h : s.slot <;> simp [name, names, h, ColorSlot.name]
  | literal c | remainder c => cases c <;> simp [name, names, Channel.variableName, Channel.field]

theorem name_all_isWord (s : TickStatement) : s.name.toList.all isWord = true := by
  have hall : ∀ n ∈ names, n.toList.all isWord = true := by decide
  exact hall _ s.name_mem

theorem sign_not_mem_behind (s : TickStatement) : '=' ∉ s.behind := by
  cases s with
  | light s | cycle _ _ s | literal _ s | remainder _ s => exact s.sign_not_mem
  | color s => exact s.sign_not_mem

/-- What a statement assigns, as it is written. -/
def assigned : TickStatement → List Char
  | light s _ _ | cycle _ _ s _ _ | literal _ s _ _ | remainder _ s _ _ _ _ => s.value.text
  | color s _ _ _ => s.packed

theorem exists_assigned (s : TickStatement) : ∃ afterSign beforeEnd trail : Gap,
    s.behind = afterSign.text ++ (s.assigned ++ (beforeEnd.text ++ ';' :: trail.text)) := by
  cases s with
  | light s | cycle _ _ s | literal _ s | remainder _ s => exact ⟨s.afterSign, s.beforeEnd, s.trail, rfl⟩
  | color s => exact ⟨s.afterSign, s.beforeEnd, s.trail, by rw [behind, s.color_eq]; rfl⟩

theorem isStatement_text (s : TickStatement) : IsStatement s.text := by
  obtain ⟨afterSign, beforeEnd, trail, hbehind⟩ := s.exists_assigned
  exact ⟨s.lead.text ++ (s.name.toList ++ (s.beforeSign.text ++ '=' :: (afterSign.text ++ (s.assigned ++ beforeEnd.text)))),
    trail.text, by simp [text, hbehind], trail.blank⟩

/-! ### Characters of a statement -/

section Characters
variable {c : Char} (hblank : isBlank c = false) (hdigit : c.isDigit = false) (hsigns : c ∉ "=;+-/%(),absattickIRGB".toList)

include hblank hdigit hsigns

theorem not_mem_assigned (s : TickStatement) : c ∉ s.assigned := by
  have hgap := Gap.not_mem hblank
  have hdigits := Decimal.not_mem hdigit
  have hdistance : ∀ f : BareDistance, c ∉ f.expression.text := fun f => by
    simp at hsigns
    simp [f.text_eq, hgap, hdigits, hsigns]
  simp at hsigns
  cases s with
  | light s f h =>
    rw [assigned, h]
    exact hdistance f
  | cycle _ _ s f h =>
    simp [assigned, h, TickCycle.text_eq, hgap, hdigits, hsigns]
  | color s f h => simp [assigned, ColorStatement.packed, h, hgap, hdigits, hsigns, hdistance]
  | literal _ s n h => simp [assigned, h, Remap.alone, Expression.text, Number.text, hdigits]
  | remainder _ s before after n h =>
    simp [assigned, h, tickRemainder, Expression.text, Number.text, Operator.char, hgap, hdigits, hsigns]

/-- The characters of a statement are blanks, digits, signs, and those of names. -/
theorem not_mem_text (s : TickStatement) (hname : c ∉ s.name.toList) : c ∉ s.text := by
  have hgap := Gap.not_mem hblank
  obtain ⟨afterSign, beforeEnd, trail, hbehind⟩ := s.exists_assigned
  have hassigned := s.not_mem_assigned hblank hdigit hsigns
  simp at hsigns
  simp [text, hbehind, hgap, hname, hassigned, hsigns]

end Characters

/-! ### The tick of a statement -/

theorem exists_tickAt_assigned (s : TickStatement) (h : s.ticks = true) : ∃ front back, TickAt s.assigned front back := by
  cases s with
  | light s f hvalue =>
    rw [assigned, hvalue]
    exact f.exists_tickAt
  | cycle _ _ s c hvalue =>
    rw [assigned, hvalue]
    exact c.exists_tickAt
  | color s f hblue => exact s.exists_tickAt hblue
  | literal => cases h
  | remainder _ s before after n hvalue =>
    rw [assigned, hvalue]
    exact exists_tickAt_remainder before after n

/-- The tick of a statement stands in it once. -/
theorem exists_tickAt (s : TickStatement) (h : s.ticks = true) : ∃ front back, TickAt s.text front back := by
  obtain ⟨front, back, hassigned⟩ := s.exists_tickAt_assigned h
  obtain ⟨afterSign, beforeEnd, trail, hbehind⟩ := s.exists_assigned
  have hname : ∀ n ∈ names, 'k' ∉ n.toList ∧ '%' ∉ n.toList := by decide
  have hout := (outside_of_blank afterSign.blank).behind (c := '=') (by decide) (s.lead.text ++ (s.name.toList ++ s.beforeSign.text))
  have hback : 'k' ∉ beforeEnd.text ++ ';' :: trail.text ∧ '=' ∉ beforeEnd.text ++ ';' :: trail.text := by
    simp (disch := decide) [Gap.not_mem]
  have hplace := hassigned.within hout (by simp (disch := decide) [Gap.not_mem, hname _ s.name_mem]) hback
  exact ⟨_, _, by simpa [text, hbehind] using hplace⟩

theorem tick_not_mem (s : TickStatement) (h : s.ticks = false) : 'k' ∉ s.text := by
  cases s with
  | literal c s n hvalue =>
    have hname : ∀ c : Channel, 'k' ∉ c.variableName.toList := fun c => by cases c <;> decide
    simp (disch := decide) [text, lead, name, beforeSign, behind, ExpressionStatement.ending, hvalue, Remap.alone, Expression.text,
      Number.text, Gap.not_mem, Decimal.not_mem, hname]
  | light | cycle | color | remainder => cases h

end TickStatement

end SpriteFacts
