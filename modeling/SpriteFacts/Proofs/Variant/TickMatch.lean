import SpriteFacts.Proofs.Variant.TickStatement

/-! The idioms that account for the tick, one statement at a time. A pulse of the light, a pulse of a color and a cycle each
    match the statements of one kind and no others, and what they keep is read, for the literals fit. The other
    idioms of a remap match none of the statements. -/

namespace SpriteFacts

open Text Pattern

/-! ### Readings put together from their parts -/

/-- Behind any character the pattern can be read up to the rest of the text. -/
def Reaches (p : Pattern) (cs rest : List Char) : Prop := ∀ last, ∃ r ∈ p.readings last cs, r.rest = rest

section Reaches
variable {p q : Pattern} {cs mid rest : List Char} {g g' : Gap}

theorem Reaches.seq (hp : Reaches p cs mid) (hq : Reaches q mid rest) : Reaches (.seq p q) cs rest := by
  intro last
  obtain ⟨a, ha, rfl⟩ := hp last
  obtain ⟨b, hb, rfl⟩ := hq (lastOf last a.text)
  exact ⟨_, mem_readings_seq.mpr ⟨a, ha, b, hb, rfl⟩, rfl⟩

theorem reaches_gap (g : Gap) (rest : List Char) : Reaches blanks (g.text ++ rest) rest := fun _ =>
  ⟨_, mem_readings_run.mpr ⟨g.text, rest, rfl, g.blank, rfl⟩, rfl⟩

theorem Reaches.spaced {ps : List Pattern} (hp : Reaches p cs (g.text ++ mid)) (hq : Reaches (Pattern.spaced (q :: ps)) mid rest) :
    Reaches (Pattern.spaced (p :: q :: ps)) cs rest := hp.seq ((reaches_gap g mid).seq hq)

theorem reaches_char (c : Char) (rest : List Char) : Reaches (char c) (c :: rest) rest := fun _ =>
  ⟨_, mem_readings_char.mpr ⟨rest, rfl, rfl⟩, rfl⟩

theorem reaches_literal (s : String) (rest : List Char) : Reaches (literal s) (s.toList ++ rest) rest := fun _ =>
  ⟨_, mem_readings_literal.mpr ⟨rest, rfl, rfl⟩, rfl⟩

theorem reaches_decimal (n : Decimal) (k : Nat) (rest : List Char) : Reaches (group k digits) (n.digits ++ rest) rest := fun _ =>
  ⟨_, mem_readings_digits.mpr ⟨n.digits, rest, rfl, n.nonempty, n.numeral.all_isDigit, rfl⟩, rfl⟩

theorem reaches_optional (p : Pattern) (cs : List Char) : Reaches (Pattern.optional p) cs cs := fun _ =>
  ⟨_, mem_readings_optional.mpr (Or.inr rfl), rfl⟩

/-- Behind a name and the sign a pattern is read where its rest is. -/
theorem exists_of_reaches {head : Pattern} {name : List Char} {last : Option Char}
    (hhead : ∃ a ∈ head.readings last (name ++ (g.text ++ '=' :: (g'.text ++ mid))), a.rest = g.text ++ '=' :: (g'.text ++ mid))
    (hq : Reaches q mid rest) :
    ∃ r ∈ (spaced [head, char '=', q]).readings last (name ++ (g.text ++ '=' :: (g'.text ++ mid))), r.rest = rest := by
  obtain ⟨a, ha, harest⟩ := hhead
  have hsign : Reaches (spaced [char '=', q]) ('=' :: (g'.text ++ mid)) rest := (reaches_char '=' _).spaced hq
  obtain ⟨b, hb, rfl⟩ := ((reaches_gap g _).seq hsign) (lastOf last a.text)
  exact ⟨_, mem_readings_seq.mpr ⟨a, ha, b, harest ▸ hb, rfl⟩, rfl⟩

/-- A bare distance is read to its end. -/
theorem reaches_tickDistance (f : BareDistance) (n : Nat) (rest : List Char) :
    Reaches (Pulse.tickDistance n) (f.expression.text ++ rest) rest := by
  rw [f.text_eq]
  simp only [List.append_assoc, List.cons_append, List.nil_append]
  refine Reaches.seq ?_ ((reaches_optional _ rest).seq (reaches_optional _ rest))
  exact (reaches_literal "abs" _).spaced <| (reaches_char '(' _).spaced <| (reaches_decimal f.peak n _).spaced <|
    (reaches_char '-' _).spaced <| (reaches_char '(' _).spaced <| (reaches_literal "attick" _).spaced <|
    (reaches_char '%' _).spaced <| (reaches_decimal f.period (n + 1) _).spaced <| (reaches_char ')' _).spaced <| reaches_char ')' rest

end Reaches

/-! ### The literals of a distance -/

namespace TickDistance
variable {f f' : TickDistance}

/-- The difference whose distance is taken. -/
def difference (f : TickDistance) : Expression (.row .sum) :=
  .row (.row (.number (.decimal f.peak)) .done) (.next f.beforeMinus .minus f.afterMinus (.row f.phase .done) .done)

/-- A text begins with the literals of one distance. -/
theorem literals_unique {xs ys : List Char} (h : f.distance.text ++ xs = f'.distance.text ++ ys) :
    f.peak = f'.peak ∧ f.period = f'.period := by
  have htext : ∀ f : TickDistance,
      f.distance.text = "abs".toList ++ (f.call.text ++ enclosed f.beforePeak f.difference.text f.afterTick) := fun _ => rfl
  rw [htext, htext, List.append_assoc, List.append_assoc, List.append_assoc, List.append_assoc] at h
  obtain ⟨-, hinner⟩ := Gap.eq_of_append (List.append_cancel_left h) rfl rfl
  obtain ⟨-, hdifference, -⟩ := enclosed_unique (Expression.unique f.difference f'.difference) hinner
  have hnumbers : [Number.decimal f.peak, .decimal f.period] = [.decimal f'.peak, .decimal f'.period] :=
    congrArg Expression.numbers hdifference
  simpa using hnumbers

end TickDistance

theorem Match.word?_of_group {m : Match} {k : Nat} {n : Decimal} (hgroup : m.group? k = some n.digits) (hfit : n.value ≤ maxWord) :
    m.word? k = some n.value := by
  rw [word?, hgroup, Option.bind_some, n.word?_eq_some.mpr ⟨rfl, hfit⟩]

theorem Match.integer?_of_group {m : Match} {k : Nat} {n : Decimal} (hgroup : m.group? k = some n.digits)
    (hfit : (n.value : Int) ≤ maxInteger) : m.integer? k = some (n.value : Int) := by
  have hmin : minInteger ≤ 0 := by decide
  rw [integer?, hgroup, Option.bind_some, n.integer?_eq, fitInteger?_eq_some]
  exact ⟨rfl, by omega, hfit⟩

/-- A slot is read at the start of a word. -/
theorem mem_readings_slotPattern (slot : ColorSlot) {last : Option Char} (hlast : last.any isWord = false) (cs : List Char) :
    ⟨slot.name.toList, [(1, slot.name.toList)], cs⟩ ∈ slotPattern.readings last (slot.name.toList ++ cs) := by
  refine mem_readings_seq.mpr ⟨_, mem_readings_wordEdge.mpr ⟨?_, rfl⟩, _,
    VariantPass.mem_readings_slotName.mpr ⟨slot, cs, rfl, rfl⟩, rfl⟩
  obtain ⟨d, hname, -⟩ := slot.exists_name
  rw [hlast, hname]
  exact (by decide : (false != isWord 'c') = true)

/-- The first numbers that are kept for a bare distance are its literals, and they fit. -/
theorem word?_of_kept {f : BareDistance} {f' : TickDistance} {xs ys : List Char} {m : Match} {n : Nat}
    {more : List (Nat × List Char)} (htext : f.expression.text ++ xs = f'.expression.text ++ ys)
    (hkept : m.kept = f'.kept n ++ more) :
    m.word? n = some f.peak.value ∧ m.word? (n + 1) = some f.period.value := by
  have hf : f.expression.text = f.distance.text := by
    show (f.distance.text ++ (TickDistance.division f.divisor).text) ++ (TickDistance.addition f.offset).text = _
    rw [f.undivided, f.unmoved]
    exact (List.append_nil _).trans (List.append_nil _)
  have hf' : f'.expression.text = f'.distance.text ++
      ((TickDistance.division f'.divisor).text ++ (TickDistance.addition f'.offset).text) :=
    List.append_assoc _ _ _
  rw [hf, hf', List.append_assoc] at htext
  obtain ⟨hpeak, hperiod⟩ := TickDistance.literals_unique htext
  exact ⟨Match.word?_of_group (hpeak ▸ TickDistance.group?_peak hkept) f.fits.1,
    Match.word?_of_group (hperiod ▸ TickDistance.group?_period hkept) f.fits.2⟩

/-! ### The parts of a cycle -/

namespace TickCycle

/-- What stands between the plus sign and the modulo. -/
def middle (c : TickCycle) : List Char :=
  c.afterPlus.text ++ '(' :: (c.beforeTick.text ++ ("attick".toList ++ (c.beforeDivide.text ++ '/' ::
    (c.afterDivide.text ++ (c.step.digits ++ (c.afterStep.text ++ ')' :: c.beforeModulo.text))))))

theorem not_mem_middle (c : TickCycle) {d : Char} (hblank : isBlank d = false) (hdigit : d.isDigit = false)
    (hsigns : d ∉ "(attick/)".toList) : d ∉ c.middle := by
  have hgap := Gap.not_mem hblank
  have hdigits := Decimal.not_mem hdigit
  simp at hsigns
  simp [middle, hgap, hdigits, hsigns]

theorem ending_eq (c : TickCycle) {s : ExpressionStatement} (h : s.value = c.expression) :
    s.ending = c.base.digits ++ (c.beforePlus.text ++ '+' :: (c.middle ++ '%' :: (c.afterModulo.text ++ (c.frames.digits ++
      (s.beforeEnd.text ++ ';' :: s.trail.text))))) := by
  simp [ExpressionStatement.ending, h, c.text_eq, middle]

end TickCycle

/-- The idiom of a cycle that a literal raises, for any variable. -/
def basePattern (v : String) : Pattern := seq (spaced [assignTo v, group 1 digits, char '+']) (Remap.laterModulus 2)

/-! ### The place of a match -/

namespace TickStatement
variable {s : TickStatement} {p : Pattern} {m : Match} {v : String}

/-- A pattern that begins with a word and holds the sign matches a statement at its name. -/
theorem read?_of_find? {words : List (List Char)} (hbegins : Begins words p) (hwords : ∀ w ∈ words, w.head?.any isWord = true)
    (hsign : Needs '=' p) (h : p.find? s.text = some m) :
    ∃ r, p.read? (lastOf none s.lead.text) (s.name.toList ++ (s.beforeSign.text ++ '=' :: s.behind)) = some r ∧
      m = r.toMatch (byteLength s.lead.text) :=
  SpriteFacts.read?_of_find? hbegins hwords hsign s.name_all_isWord s.sign_not_mem_behind h

/-- A word and the sign behind it are the name of the statement and its sign. -/
theorem name_eq {w : List Char} {g : Gap} {rest : List Char} (hw : w.all isWord = true)
    (h : s.name.toList ++ (s.beforeSign.text ++ '=' :: s.behind) = w ++ (g.text ++ '=' :: rest)) : s.name.toList = w := by
  have hhead : ∀ (g : Gap) (cs : List Char), (g.text ++ '=' :: cs).head?.all (fun c => !isWord c) = true := fun g cs =>
    head_outside (fun _ => isWord_of_isBlank) g.blank fun _ => show (!isWord '=') = true by decide
  exact (span_unique h s.name_all_isWord hw (hhead _ _) (hhead _ _)).1

theorem begins_of_assigning (h : Remap.Assigning v p) : Begins [v.toList] p := by
  intro last cs r hr
  obtain ⟨hlast, behind, rfl, -⟩ := h _ _ _ hr
  exact ⟨hlast, v.toList, List.mem_singleton_self _, behind, rfl⟩

/-- A pattern that assigns a variable matches only statements with its name. -/
theorem name_of_find? (hassigning : Remap.Assigning v p) (hv : Switch.IsName v.toList) (hsign : Needs '=' p)
    (h : p.find? s.text = some m) : s.name = v := by
  have hwords : ∀ w ∈ [v.toList], w.head?.any isWord = true := by
    rw [List.forall_mem_singleton]
    exact Remap.isWord_head hv
  obtain ⟨r, hr, -⟩ := read?_of_find? (begins_of_assigning hassigning) hwords hsign h
  obtain ⟨-, behind, hbehind, g, c, rest, -, rfl⟩ := hassigning _ _ _ (mem_of_read? hr)
  exact String.toList_injective (name_eq hv.2 hbehind)

/-! ### Pulses -/

theorem isName_light : Switch.IsName "light".toList := by decide

theorem assigning_lightPattern : Remap.Assigning "light" lightPattern := by
  refine Remap.assigning_assignTo isName_light fun last cs r hr => ?_
  obtain ⟨a, ha, -⟩ := mem_readings_seq.mp hr
  obtain ⟨b, hb, -⟩ := exists_of_mem_spaced ha
  obtain ⟨rest, rfl, -⟩ := mem_readings_literal.mp hb
  exact ⟨'a', _, rfl, by decide⟩

/-- What the light is assigned begins with a distance where its pulse is read. -/
theorem exists_tickDistance_of_find? {s' : ExpressionStatement} (htext : s.text = s'.text "light".toList)
    (h : lightPattern.find? s.text = some m) : ∃ (f : TickDistance) (rest : List Char),
      s'.ending = f.expression.text ++ rest ∧ m.kept = f.kept 1 := by
  have hsign : Needs '=' lightPattern := by simp [lightPattern, spaced, assignTo, Pattern.char, Needs]
  rw [htext] at h
  obtain ⟨r, hr, rfl⟩ := SpriteFacts.read?_of_find? begins_lightPattern (by decide) hsign (by decide) s'.sign_not_mem h
  have hmem := mem_of_read? hr
  rw [lightPattern, readings_assignTo] at hmem
  obtain ⟨_, b, hb, hkept, hrest⟩ := exists_of_mem_assigned (fun a ha => eq_of_mem_wordStart (by decide) ha)
    (unblank_tickDistance 1) s'.head_ending hmem
  obtain ⟨f, hf, hkept'⟩ := exists_tickDistance s'.plain_ending hb
  exact ⟨f, b.rest, by rw [← hf]; exact split_of_mem hb, by simpa [Reading.toMatch, hkept'] using hkept⟩

/-- A pulse of the light is found in no other statement than one that gives it a distance, and is read there. -/
theorem light_of_find? (h : lightPattern.find? s.text = some m) :
    s.idiom? v = some .light ∧ (Pulse.lightPulse? m).isSome = true := by
  have hsign : Needs '=' lightPattern := by simp [lightPattern, spaced, assignTo, Pattern.char, Needs]
  have hname : s.name = "light" := name_of_find? assigning_lightPattern isName_light hsign h
  cases s with
  | light s f hvalue =>
    refine ⟨rfl, ?_⟩
    obtain ⟨f', rest, hending, hkept⟩ := @exists_tickDistance_of_find? _ _ s rfl h
    rw [ExpressionStatement.ending, hvalue] at hending
    obtain ⟨hpeak, hperiod⟩ := word?_of_kept hending (hkept.trans (List.append_nil _).symm)
    simp [Pulse.lightPulse?, hpeak, hperiod]
  | cycle v hv =>
    have hne : v ≠ "light" := by rcases hv with rfl | rfl <;> decide
    exact absurd hname hne
  | color s =>
    have hne : ∀ slot : ColorSlot, slot.name ≠ "light" := fun slot => by cases slot <;> decide
    exact absurd hname (hne s.slot)
  | literal c s n hvalue =>
    have htext : (literal c s n hvalue).text = s.text "light".toList := congrArg (fun w : String => s.text w.toList) hname
    obtain ⟨f, rest, hending, -⟩ := exists_tickDistance_of_find? htext h
    have halone : (Remap.alone n).text = n.digits := (List.append_nil _).trans (List.append_nil _)
    rw [ExpressionStatement.ending, hvalue, halone] at hending
    exact absurd hending (Remap.digits_ne_cons n.nonempty n.numeral.all_isDigit (by decide))
  | remainder c s before after n hvalue =>
    have htext : (remainder c s before after n hvalue).text = s.text "light".toList :=
      congrArg (fun w : String => s.text w.toList) hname
    obtain ⟨f, rest, hending, -⟩ := exists_tickDistance_of_find? htext h
    rw [ExpressionStatement.ending, hvalue] at hending
    exact absurd (List.cons.inj (List.cons.inj hending).2).1 (by decide)

theorem exists_find?_light (s : ExpressionStatement) (f : BareDistance) (hvalue : s.value = f.expression) :
    ∃ m, lightPattern.find? (light s f hvalue).text = some m := by
  show ∃ m, lightPattern.find?
    (s.lead.text ++ ("light".toList ++ (s.beforeSign.text ++ '=' :: (s.afterSign.text ++ s.ending)))) = some m
  refine exists_find? ?_
  rw [lightPattern, readings_assignTo, ExpressionStatement.ending, hvalue]
  obtain ⟨r, hr, -⟩ := @exists_of_reaches _ _ _ s.beforeSign s.afterSign _ _ _
    ⟨_, (mem_readings_wordStart (s := "light") (by decide)).mpr ⟨outside_of_blank s.lead.blank none rfl, _, rfl, rfl⟩, rfl⟩
    (reaches_tickDistance f 1 (s.beforeEnd.text ++ ';' :: s.trail.text))
  exact ⟨r, hr⟩

/-- A pulse of a color is found in no other statement than a color with a distance, and is read there. -/
theorem color_of_find? (h : Pulse.colorPattern.find? s.text = some m) :
    s.idiom? v = some .color ∧ (Pulse.colorPulse? m).isSome = true := by
  have hsign : Needs '=' Pulse.colorPattern := by simp [Pulse.colorPattern, spaced, Pattern.char, Needs]
  obtain ⟨r, hr, -⟩ := read?_of_find? begins_colorPattern (by decide) hsign h
  -- The pattern begins with a slot and the sign, so the slot is the name of the statement.
  have hslot : ∃ slot : ColorSlot, s.name.toList = slot.name.toList := by
    obtain ⟨a, ha, g, rest, hrest, _, b, hb, -⟩ := exists_of_mem_spaced (mem_of_read? hr)
    obtain ⟨a', ha', c, hc, rfl⟩ := mem_readings_seq.mp ha
    obtain ⟨-, rfl⟩ := mem_readings_wordEdge.mp ha'
    obtain ⟨slot, rest', hsplit, rfl⟩ := VariantPass.mem_readings_slotName.mp hc
    obtain ⟨d, hd, -⟩ := exists_of_mem_spaced hb
    obtain ⟨rest'', rfl, -⟩ := mem_readings_char.mp hd
    have hword : slot.name.toList.all isWord = true := by cases slot <;> decide
    exact ⟨slot, name_eq hword (hsplit.trans (congrArg _ hrest))⟩
  cases s with
  | color s f hblue fits =>
    refine ⟨rfl, ?_⟩
    obtain ⟨f', hf', hkept⟩ := exists_of_find?_color (s := s) h
    have htext : f.expression.text ++ [] = f'.expression.text ++ [] :=
      congrArg (fun e => Expression.text e ++ []) (hblue.symm.trans hf')
    obtain ⟨hpeak, hperiod⟩ := word?_of_kept htext hkept
    have hgroup : ∀ k, k < 4 → m.group? k = _ := fun k hk => TickDistance.group?_of_lt hkept hk
    have htarget : ColorSlot.ofName? (String.ofList (m.group 1)) = some s.slot := by
      rw [Match.group, hgroup 1 (by decide)]
      exact VariantPass.ofName?_name s.slot
    have hred : m.word? 2 = some s.red.value := Match.word?_of_group (hgroup 2 (by decide)) fits.1
    have hgreen : m.word? 3 = some s.green.value := Match.word?_of_group (hgroup 3 (by decide)) fits.2
    simp [Pulse.colorPulse?, htarget, hred, hgreen, hpeak, hperiod]
  | light =>
    obtain ⟨slot, hslot⟩ := hslot
    cases slot <;> exact absurd hslot (by simp [name, ColorSlot.name])
  | cycle v hv =>
    obtain ⟨slot, hslot⟩ := hslot
    rcases hv with rfl | rfl <;> cases slot <;> exact absurd hslot (by simp [name, ColorSlot.name])
  | literal c | remainder c =>
    obtain ⟨slot, hslot⟩ := hslot
    cases c <;> cases slot <;> exact absurd hslot (by simp [name, ColorSlot.name, Channel.variableName, Channel.field])

theorem exists_find?_color (s : ColorStatement) (f : BareDistance) (hblue : s.blue = f.expression)
    (fits : s.red.value ≤ maxWord ∧ s.green.value ≤ maxWord) :
    ∃ m, Pulse.colorPattern.find? (color s f hblue fits).text = some m := by
  have hslot := mem_readings_slotPattern s.slot (outside_of_blank s.lead.blank none rfl)
  have hcolor : Reaches pulsingColor s.color (s.beforeEnd.text ++ ';' :: s.trail.text) := by
    rw [ColorStatement.color, ColorStatement.ending, hblue]
    exact (reaches_literal "IRGB" _).spaced <| (reaches_char '(' _).spaced <| (reaches_decimal s.red 2 _).spaced <|
      (reaches_char ',' _).spaced <| (reaches_decimal s.green 3 _).spaced <| (reaches_char ',' _).spaced <|
      (reaches_tickDistance f 4 _).spaced <| reaches_char ')' _
  show ∃ m, Pulse.colorPattern.find?
    (s.lead.text ++ (s.slot.name.toList ++ (s.beforeSign.text ++ '=' :: (s.afterSign.text ++ s.color)))) = some m
  refine exists_find? ?_
  obtain ⟨r, hr, -⟩ := exists_of_reaches ⟨_, hslot _, rfl⟩ hcolor
  exact ⟨r, hr⟩

/-! ### Cycles -/

/-- No other statement than a cycle assigns the variable of a sprite. -/
theorem exists_cycle (hv : SpriteVariable v) (h : s.name = v) : ∃ hv s' c hvalue, s = cycle v hv s' c hvalue := by
  cases s with
  | cycle w hw s c hvalue =>
    obtain rfl : w = v := h
    exact ⟨hw, s, c, hvalue, rfl⟩
  | light =>
    have hne : "light" ≠ v := by rcases hv with rfl | rfl <;> decide
    exact absurd h hne
  | color s =>
    have hne : ∀ slot : ColorSlot, slot.name ≠ v := fun slot => by rcases hv with rfl | rfl <;> cases slot <;> decide
    exact absurd h (hne s.slot)
  | literal c | remainder c =>
    have hne : ∀ c : Channel, c.variableName ≠ v := fun c => by rcases hv with rfl | rfl <;> cases c <;> decide
    exact absurd h (hne c)

theorem reaches_laterModulus {xs : List Char} (hxs : ';' ∉ xs) (k : Nat) (g : Gap) (n : Decimal) (rest : List Char) :
    Reaches (Remap.laterModulus k) (xs ++ '%' :: (g.text ++ (n.digits ++ rest))) rest := by
  have hall : xs.all (· != ';') = true := by
    rw [List.all_eq_true]
    exact fun c hc => bne_iff_ne.mpr (ne_of_mem_of_not_mem hc hxs)
  have hrun : Reaches (lazyRun (· != ';')) (xs ++ '%' :: (g.text ++ (n.digits ++ rest))) ('%' :: (g.text ++ (n.digits ++ rest))) :=
    fun _ => ⟨_, mem_readings_lazyRun.mpr ⟨xs, _, rfl, hall, rfl⟩, rfl⟩
  exact hrun.seq ((reaches_char '%' _).seq ((reaches_gap g _).seq (reaches_decimal n k rest)))

theorem exists_find?_cycle (hv : SpriteVariable v) (s : ExpressionStatement) (c : TickCycle) (hvalue : s.value = c.expression) :
    ∃ m, (basePattern v).find? (cycle v hv s c hvalue).text = some m := by
  have hending := c.ending_eq hvalue
  have hmiddle : ';' ∉ c.middle := c.not_mem_middle (by decide) (by decide) (by decide)
  have hbase : Reaches (spaced [group 1 digits, char '+']) s.ending (c.middle ++ '%' :: (c.afterModulo.text ++
      (c.frames.digits ++ (s.beforeEnd.text ++ ';' :: s.trail.text)))) := by
    rw [hending]
    exact (reaches_decimal c.base 1 _).spaced (reaches_char '+' _)
  have hmodulus := reaches_laterModulus hmiddle 2 c.afterModulo c.frames (s.beforeEnd.text ++ ';' :: s.trail.text)
  obtain ⟨a, ha, harest⟩ := @exists_of_reaches _ _ _ s.beforeSign s.afterSign _ _ _
    ⟨_, (mem_readings_wordStart (Remap.isWord_head hv.isName)).mpr ⟨outside_of_blank s.lead.blank none rfl, _, rfl, rfl⟩, rfl⟩ hbase
  obtain ⟨b, hb, -⟩ := hmodulus (lastOf (lastOf none s.lead.text) a.text)
  show ∃ m, (basePattern v).find?
    (s.lead.text ++ (v.toList ++ (s.beforeSign.text ++ '=' :: (s.afterSign.text ++ s.ending)))) = some m
  refine exists_find? ⟨a.append b, mem_readings_seq.mpr ⟨a, ?_, b, harest ▸ hb, rfl⟩⟩
  exact (readings_assignTo v (spaced [group 1 digits, char '+']) _ _).symm ▸ ha

variable {hv : SpriteVariable v} {c : TickCycle}

/-- What is kept for a cycle is its base and its frames. -/
theorem groups_cycle {s : ExpressionStatement} (hvalue : s.value = c.expression)
    (h : (basePattern v).find? (cycle v hv s c hvalue).text = some m) :
    m.group? 1 = some c.base.digits ∧ m.group? 2 = some c.frames.digits := by
  have hending := c.ending_eq hvalue
  obtain ⟨last, a, ha, g, tail, t, hrest, hkept⟩ := Remap.exists_base (Remap.isWord_head hv.isName) hv.isName.2 (unblank_digits 1) h
  obtain ⟨u, rest, hdigits, -, hall, rfl⟩ := mem_readings_digits.mp ha
  obtain rfl : rest = _ := hrest
  rw [hending] at hdigits
  obtain ⟨rfl, -⟩ := Decimal.eq_of_append hdigits hall (c.beforePlus.head_sign (by decide) _) (g.head_sign (by decide) _)
  have hmarks : Marks '%' c.frames (cycle v hv s c hvalue).text := by
    refine ⟨s.lead.text ++ (v.toList ++ (s.beforeSign.text ++ '=' :: (s.afterSign.text ++ (c.base.digits ++ (c.beforePlus.text ++
      '+' :: c.middle))))), c.afterModulo, s.beforeEnd.text ++ ';' :: s.trail.text, ?_, ?_, ?_, s.beforeEnd.head_sign (by decide) _⟩
    · simp [text, lead, name, beforeSign, behind, hending]
    · have hname : '%' ∉ v.toList := by rcases hv with rfl | rfl <;> decide
      have hmiddle : '%' ∉ c.middle := c.not_mem_middle (by decide) (by decide) (by decide)
      simp (disch := decide) [Gap.not_mem, Decimal.not_mem, hname, hmiddle]
    · simp (disch := decide) [Gap.not_mem]
  have hends : EndsInLiteral '%' 2 (basePattern v) := (endsInLiteral_signed '%' 2).seq.seq
  exact ⟨by simp [Match.group?, hkept], hends.group?_eq (by decide) (by decide) hmarks h⟩

/-- A cycle is read where it is found. -/
theorem cycle_of_find? {s : ExpressionStatement} {hvalue : s.value = c.expression}
    (h : (basePattern v).find? (cycle v hv s c hvalue).text = some m) :
    (∃ base, m.integer? 1 = some base) ∧ ∃ frames, m.word? 2 = some frames := by
  obtain ⟨hbase, hframes⟩ := groups_cycle hvalue h
  have hfit : c.base.value ≤ maxWord := c.fits.1
  have hword : (maxWord : Int) ≤ maxInteger := by decide
  exact ⟨⟨_, Match.integer?_of_group hbase (by omega)⟩, _, Match.word?_of_group hframes c.fits.2.2⟩

end TickStatement

end SpriteFacts
