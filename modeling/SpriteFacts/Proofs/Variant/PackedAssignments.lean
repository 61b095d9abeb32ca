import SpriteFacts.Proofs.Expression.FrameCycle
import SpriteFacts.Proofs.Variant.ColorRange

/-! Packed colors read back. A row of assignments to slots is cut at its signs: behind the sign of each slot stands its own
    color, so the search for a slot finds the color of that slot and no other, in whatever order and layout the assignments
    come. One assignment to all slots is read as one, and a color out of bounds leaves its slots unset. -/

namespace SpriteFacts

open Text Pattern

/-! ### Literals -/

namespace ColorLiteral

instance (a : ColorArgument) : Decidable a.Fits := inferInstanceAs (Decidable (_ ∧ _))

instance (x : ColorLiteral) : Decidable x.Fits :=
  match x with
  | triple _ r g b => inferInstanceAs (Decidable (r.Fits ∧ g.Fits ∧ b.Fits))
  | hexadecimal _ digits _ _ => inferInstanceAs (Decidable (valueOf 16 digits ≤ maxWord))
  | decimal n => inferInstanceAs (Decidable (n.digits.all Char.isDigit = true ∧ valueOf 10 n.digits ≤ maxWord))

/-- The color that the literal gives; none if it is out of bounds. -/
def color? (x : ColorLiteral) : Option Nat := if x.Fits then some x.value else none

theorem read?_eq (x : ColorLiteral) : PackedColor.read? x.text = x.color? := by
  refine Option.ext fun v => ?_
  rw [read?_text, color?]
  split
  · rename_i hfits
    rw [and_iff_right hfits, Option.some_inj, eq_comm]
  · rename_i hfits
    exact iff_of_false (fun h => hfits h.1) nofun

/-- A literal begins with the letter of a call or with a digit. -/
theorem exists_head (x : ColorLiteral) : ∃ c cs, x.text = c :: cs ∧ isBlank c = false ∧ (c = 'I' ∨ isDigit c = true) := by
  cases x with
  | triple gap r g b => exact ⟨'I', _, rfl, by decide, Or.inl rfl⟩
  | hexadecimal upper ds _ _ => exact ⟨'0', _, rfl, by decide, Or.inr (by decide)⟩
  | decimal n =>
    obtain ⟨c, cs, hn⟩ := List.exists_cons_of_ne_nil n.nonempty
    have hall := n.all_isDigit
    rw [hn] at hall
    have hc := List.all_eq_true.mp hall c List.mem_cons_self
    exact ⟨c, cs, hn, not_isBlank_of_isDigit hc, Or.inr hc⟩

theorem head_text (x : ColorLiteral) (xs : List Char) : (x.text ++ xs).head?.all (fun c => !isBlank c) = true := by
  obtain ⟨c, cs, hx, hblank, -⟩ := x.exists_head
  rw [hx]
  show (!isBlank c) = true
  rw [hblank]
  rfl

/-- A character that is no blank and no digit stands in no literal unless it is one of a few. -/
theorem not_mem (x : ColorLiteral) {c : Char} (hblank : isBlank c = false) (hdigit : isDigit c = false)
    (hhex : isHexDigit c = false) (hsigns : c ∉ "IRGB(,)0xX".toList) : c ∉ x.text := by
  simp at hsigns
  cases x with
  | triple gap r g b =>
    have hargument : ∀ a : ColorArgument, c ∉ a.text := fun a => by
      have hrun : c ∉ a.run.digits := fun h => by simp [List.all_eq_true.mp a.run.all_isDigit _ h] at hdigit
      simp [ColorArgument.text, Gap.not_mem hblank, hrun]
    simp [text, Gap.not_mem hblank, hargument, hsigns]
  | hexadecimal upper ds _ hds =>
    have hnot : c ∉ ds := fun h => by simp [List.all_eq_true.mp hds _ h] at hhex
    cases upper <;> simp [text, hnot, hsigns]
  | decimal n => exact fun h => by simp [List.all_eq_true.mp n.all_isDigit _ h] at hdigit

theorem sign_not_mem (x : ColorLiteral) : '=' ∉ x.text := x.not_mem (by decide) (by decide) (by decide) (by decide)

/-- A literal is a call up to its closing parenthesis, or a word that ends before every blank and every sign. -/
theorem text_cases (x : ColorLiteral) : (∃ ts, x.text = 'I' :: (ts ++ [')']) ∧ ')' ∉ ts) ∨
    x.text.head? ≠ some 'I' ∧ x.text.all (fun c => !(isBlank c || endsValue c)) = true := by
  have hinside : ∀ {ok : Char → Bool} {ds : List Char}, ds.all ok = true → (∀ c, ok c = true → isBlank c = false) →
      ok ';' = false → ok ',' = false → ok ')' = false → ds.all (fun c => !(isBlank c || endsValue c)) = true := by
    intro ok ds hds hblank h1 h2 h3
    refine List.all_eq_true.mpr fun c hc => ?_
    have hok := List.all_eq_true.mp hds c hc
    have hends : endsValue c = false := by
      rw [Bool.eq_false_iff]
      intro h
      simp only [endsValue, Bool.or_eq_true, beq_iff_eq] at h
      rcases h with (rfl | rfl) | rfl <;> simp_all
    rw [hblank c hok, hends]
    rfl
  cases x with
  | triple gap r g b =>
    have hargument : ∀ a : ColorArgument, ')' ∉ a.text := fun a => by
      have hrun : ')' ∉ a.run.digits := fun h => absurd (List.all_eq_true.mp a.run.all_isDigit _ h) (by decide)
      simp (disch := decide) [ColorArgument.text, Gap.not_mem, hrun]
    refine Or.inl ⟨"RGB".toList ++ (gap.text ++ '(' :: (r.text ++ ',' :: (g.text ++ ',' :: b.text))), by simp [text], ?_⟩
    simp (disch := decide) [Gap.not_mem, hargument]
  | hexadecimal upper ds _ hds =>
    have hdigits := hinside hds (fun c hc => isBlank_of_isHexDigit hc) (by decide) (by decide) (by decide)
    refine Or.inr ⟨fun h => absurd (Option.some.inj h) (by decide), ?_⟩
    cases upper <;> (rw [text, List.all_cons, List.all_cons, hdigits]; decide)
  | decimal n =>
    refine Or.inr ⟨fun h => ?_, hinside n.all_isDigit (fun c hc => not_isBlank_of_isDigit hc) (by decide) (by decide) (by decide)⟩
    exact absurd (List.all_eq_true.mp n.all_isDigit _ (List.mem_of_head? h)) (by decide)

/-- What begins with a literal and ends its statement or argument begins with no other literal. -/
theorem text_unique {x y : ColorLiteral} {g h : Gap} {s t : Char} {xs ys : List Char} (hs : endsValue s = true)
    (ht : endsValue t = true) (heq : x.text ++ (g.text ++ s :: xs) = y.text ++ (h.text ++ t :: ys)) : x.text = y.text := by
  have hstop : ∀ (g : Gap) {s : Char} (xs : List Char), endsValue s = true →
      (g.text ++ s :: xs).head?.all (fun c => !!(isBlank c || endsValue c)) = true := by
    intro g s xs hs
    cases hg : g.text with
    | nil => simp [hs]
    | cons c cs =>
      have hc : isBlank c = true := List.all_eq_true.mp g.blank c (hg ▸ List.mem_cons_self)
      simp [hc]
  have hheads : ∀ (x : ColorLiteral) (cs : List Char), (x.text ++ cs).head? = x.text.head? := fun x cs => by
    obtain ⟨c, ts, hx, -⟩ := x.exists_head
    rw [hx]
    rfl
  -- The first character tells a call from a word, so both literals are calls or both are words.
  have hfirst := congrArg List.head? heq
  rw [hheads, hheads] at hfirst
  rcases x.text_cases with ⟨us, hx, hus⟩ | ⟨hx, hxall⟩ <;> rcases y.text_cases with ⟨vs, hy, hvs⟩ | ⟨hy, hyall⟩
  · have hcall : us ++ ')' :: (g.text ++ s :: xs) = vs ++ ')' :: (h.text ++ t :: ys) := by
      rw [hx, hy] at heq
      simpa using heq
    rw [hx, hy, (split_first hus hvs hcall).1]
  · exact absurd (hfirst.symm.trans (by rw [hx]; rfl)) hy
  · exact absurd (hfirst.trans (by rw [hy]; rfl)) hx
  · exact (span_unique heq hxall hyall (hstop g xs hs) (hstop h ys ht)).1

end ColorLiteral

/-! ### Rows of assignments -/

/-- A slot and the sign behind it, with what stands between the sign and the next slot. -/
structure SlotSegment where
  lead : Gap
  slot : ColorSlot
  gap : Gap
  right : List Char
  unassigning : '=' ∉ right
  closed : right = [] ∨ ∃ ts, right = ts ++ [';']

namespace SlotSegment

def text (s : SlotSegment) : List Char := s.lead.text ++ (s.slot.head s.gap ++ s.right)

/-- The segments one behind the other, and blanks behind the last. -/
def textOf (ss : List SlotSegment) (tail : Gap) : List Char := ss.flatMap text ++ tail.text

variable {slot : ColorSlot} {gap tail : Gap} {front behind : List Char}

theorem textOf_cons (s : SlotSegment) (ss : List SlotSegment) :
    textOf (s :: ss) tail = s.lead.text ++ (s.slot.head s.gap ++ (s.right ++ textOf ss tail)) := by
  simp [textOf, text]

theorem not_mem_name {c : Char} (hc : isBlank c = false) (hname : ∀ slot : ColorSlot, c ∉ slot.name.toList) :
    c ∉ slot.name.toList ++ gap.text := by
  rw [List.mem_append, not_or]
  exact ⟨hname slot, Gap.not_mem hc gap⟩

/-- A head behind the sign of a segment stands behind the whole segment. -/
theorem exists_behind_right (s : SlotSegment) {rest w : List Char} (h : s.right ++ rest = w ++ (slot.head gap ++ behind)) :
    ∃ w', w = s.right ++ w' ∧ rest = w' ++ (slot.head gap ++ behind) := by
  have hsemicolon : ';' ∉ slot.name.toList ++ gap.text := not_mem_name (by decide) (fun slot => by cases slot <;> decide)
  have hsign : s.right ++ rest = (w ++ (slot.name.toList ++ gap.text)) ++ '=' :: behind := by rw [h, ColorSlot.head]; simp
  obtain ⟨v, hv, rfl⟩ := exists_behind hsign s.unassigning
  rcases s.closed with hnil | ⟨ts, hts⟩
  · rw [hnil, List.nil_append] at hv
    exact ⟨w, by rw [hnil, List.nil_append], by rw [← hv, ColorSlot.head]; simp⟩
  · rw [hts, List.append_assoc] at hv
    obtain ⟨w', rfl, rfl⟩ := exists_front (c := ';') hv hsemicolon
    exact ⟨w', by rw [hts]; simp, by rw [ColorSlot.head]; simp⟩

/-- A head in a row of segments is that of one of them, and behind it stands what is behind the sign of that segment. -/
theorem exists_of_head {ss : List SlotSegment} (h : textOf ss tail = front ++ (slot.head gap ++ behind)) :
    ∃ pre s post, ss = pre ++ s :: post ∧ s.slot = slot ∧ behind = s.right ++ textOf post tail := by
  induction ss generalizing front with
  | nil =>
    have hmem : '=' ∈ tail.text := by
      have htail : tail.text = front ++ (slot.head gap ++ behind) := h
      rw [htail, ColorSlot.head]
      simp
    exact absurd hmem (Gap.not_mem (by decide) tail)
  | cons s ss ih =>
    have hname : ∀ (slot : ColorSlot) (gap : Gap), '=' ∉ slot.name.toList ++ gap.text := fun slot gap =>
      not_mem_name (by decide) (fun slot => by cases slot <;> decide)
    have hlead : '=' ∉ s.lead.text ++ (s.slot.name.toList ++ s.gap.text) := by
      rw [List.mem_append, not_or]
      exact ⟨Gap.not_mem (by decide) _, hname _ _⟩
    have hsign : (s.lead.text ++ (s.slot.name.toList ++ s.gap.text)) ++ '=' :: (s.right ++ textOf ss tail) =
        (front ++ (slot.name.toList ++ gap.text)) ++ '=' :: behind := by
      rw [textOf_cons, ColorSlot.head, ColorSlot.head] at h
      simpa using h
    obtain ⟨w, hw, hrest⟩ := exists_behind hsign hlead
    -- No sign stands in front of that of the first segment, so the head has this one or a later one.
    cases w with
    | nil =>
      rw [List.append_nil] at hw
      have hheads : front ++ slot.head gap = s.lead.text ++ s.slot.head s.gap := by
        rw [ColorSlot.head, ColorSlot.head]
        simpa using congrArg (· ++ ['=']) hw
      obtain rfl := ColorSlot.front_unique hheads
      have hhead := List.append_cancel_left hheads
      obtain ⟨rfl, -, -⟩ := ColorSlot.head_unique (congrArg (· ++ ([] : List Char)) hhead)
      exact ⟨[], s, ss, rfl, rfl, (List.cons.inj hrest).2.symm⟩
    | cons c w =>
      obtain ⟨rfl, hlater⟩ := List.cons.inj hrest
      obtain ⟨v, -, rfl⟩ := exists_front hw (hname slot gap)
      have hright : s.right ++ textOf ss tail = v ++ (slot.head gap ++ behind) := by
        rw [ColorSlot.head]
        simpa using hlater
      obtain ⟨w', -, hbehind⟩ := s.exists_behind_right hright
      obtain ⟨pre, x, post, rfl, hslot, hx⟩ := ih hbehind
      exact ⟨s :: pre, x, post, rfl, hslot, hx⟩

end SlotSegment

/-- Behind a sign stands a color or the head of a slot, not both. -/
theorem ColorLiteral.not_before_head {x : ColorLiteral} {slot : ColorSlot} {g h gap : Gap} {xs ys : List Char}
    (heq : g.text ++ (x.text ++ xs) = h.text ++ (slot.head gap ++ ys)) : False := by
  obtain ⟨t, ht, -⟩ := slot.head_eq_cons gap
  rw [ht] at heq
  obtain ⟨-, hrest⟩ := Gap.eq_of_append heq (x.head_text xs) rfl
  obtain ⟨c, cs, hx, -, hc⟩ := x.exists_head
  rw [hx] at hrest
  obtain ⟨rfl, -⟩ := List.cons.inj hrest
  rcases hc with hc | hc
  · cases hc
  · cases hc

/-! ### One slot in a statement -/

/-- `cN = COLOR;` -/
structure PackedAssignment where
  lead : Gap
  slot : ColorSlot
  beforeSign : Gap
  afterSign : Gap
  color : ColorLiteral
  beforeEnd : Gap

namespace PackedAssignment

def right (a : PackedAssignment) : List Char := a.afterSign.text ++ (a.color.text ++ (a.beforeEnd.text ++ [';']))

def text (a : PackedAssignment) : List Char := a.lead.text ++ (a.slot.head a.beforeSign ++ a.right)

/-- The statements one behind the other, and blanks behind the last. -/
def textOf (as : List PackedAssignment) (tail : Gap) : List Char := as.flatMap text ++ tail.text

def segment (a : PackedAssignment) : SlotSegment where
  lead := a.lead
  slot := a.slot
  gap := a.beforeSign
  right := a.right
  unassigning := by simp (disch := decide) [right, Gap.not_mem, a.color.sign_not_mem]
  closed := Or.inr ⟨a.afterSign.text ++ (a.color.text ++ a.beforeEnd.text), by simp [right]⟩

variable {as : List PackedAssignment} {tail : Gap} {slot : ColorSlot}

theorem textOf_eq (as : List PackedAssignment) (tail : Gap) : textOf as tail = SlotSegment.textOf (as.map segment) tail := by
  rw [textOf, SlotSegment.textOf, List.flatMap_map]
  rfl

theorem exists_of_head {front behind : List Char} {gap : Gap} (h : textOf as tail = front ++ (slot.head gap ++ behind)) :
    ∃ a ∈ as, a.slot = slot ∧ ∃ rest, behind = a.afterSign.text ++ (a.color.text ++ (a.beforeEnd.text ++ ';' :: rest)) := by
  rw [textOf_eq] at h
  obtain ⟨pre, s, post, hsplit, hslot, rfl⟩ := SlotSegment.exists_of_head h
  obtain ⟨a, ha, rfl⟩ := List.mem_map.mp (hsplit ▸ List.mem_append_right pre List.mem_cons_self : s ∈ as.map segment)
  exact ⟨a, ha, hslot, SlotSegment.textOf post tail, by simp [segment, right]⟩

/-- The search for a slot finds the color of a statement for it. -/
theorem exists_of_find? {m : Match} (h : (spaced [assignTo slot.name, PackedColor.written]).find? (textOf as tail) = some m) :
    ∃ a ∈ as, a.slot = slot ∧ m.group 1 = a.color.text := by
  obtain ⟨front, gap, after, x, before, stop, rest, htext, -, hstop, hgroup⟩ := ColorSlot.exists_of_find?_slot h
  obtain ⟨a, ha, hslot, rest', hbehind⟩ := exists_of_head htext
  obtain ⟨-, hcolor⟩ := Gap.eq_of_append hbehind (x.head_text _) (a.color.head_text _)
  exact ⟨a, ha, hslot, hgroup.trans (ColorLiteral.text_unique hstop (by decide) hcolor)⟩

theorem chained_find? (as : List PackedAssignment) (tail : Gap) : PackedColors.chained.find? (textOf as tail) = none := by
  rw [Option.eq_none_iff_forall_ne_some]
  intro m hm
  obtain ⟨front, g1, b1, g2, b2, g3, after, x, before, stop, rest, htext, -⟩ := ColorSlot.exists_of_find?_chained hm
  obtain ⟨a, -, -, rest', hbehind⟩ := exists_of_head htext
  exact ColorLiteral.not_before_head hbehind.symm

theorem lastOf_text (as : List PackedAssignment) : (lastOf none (as.flatMap text)).any isWord = false := by
  induction as using List.reverseRecOn with
  | nil => rfl
  | append_singleton as a _ =>
    have hlast : (as ++ [a]).flatMap text = (as.flatMap text ++ (a.lead.text ++ (a.slot.head a.beforeSign ++
        (a.afterSign.text ++ (a.color.text ++ a.beforeEnd.text))))) ++ [';'] := by
      simp [text, right]
    rw [hlast, lastOf_append]
    rfl

theorem exists_find? {a : PackedAssignment} (ha : a ∈ as) :
    ∃ m, (spaced [assignTo a.slot.name, PackedColor.written]).find? (textOf as tail) = some m := by
  obtain ⟨pre, post, rfl⟩ := List.append_of_mem ha
  have hedge : (lastOf none (pre.flatMap text ++ a.lead.text)).any isWord = false := by
    rw [lastOf_append]
    exact outside_of_blank a.lead.blank _ (lastOf_text pre)
  have htext : textOf (pre ++ a :: post) tail = (pre.flatMap text ++ a.lead.text) ++ (a.slot.name.toList ++ (a.beforeSign.text ++
      '=' :: (a.afterSign.text ++ ((a.color.text ++ (a.beforeEnd.text ++ [';'])) ++ (post.flatMap text ++ tail.text))))) := by
    simp [textOf, text, right, ColorSlot.head]
  rw [htext]
  exact exists_find?_assignTo a.slot.isWord_head ColorLiteral.reads_written hedge
    ⟨a.color, a.beforeEnd, ';', rfl, rfl, rfl⟩

theorem assigned?_eq (hnodup : (as.map (·.slot)).Nodup) {a : PackedAssignment} (ha : a ∈ as) :
    PackedColors.assigned? a.slot (textOf as tail) = a.color.color? := by
  obtain ⟨m, hm⟩ := @exists_find? as tail a ha
  obtain ⟨b, hb, hslot, hgroup⟩ := exists_of_find? hm
  obtain rfl := List.inj_on_of_nodup_map hnodup hb ha hslot
  rw [PackedColors.assigned?, hm, Option.bind_some, hgroup, ColorLiteral.read?_eq]

theorem assigned?_eq_none (h : slot ∉ as.map (·.slot)) : PackedColors.assigned? slot (textOf as tail) = none := by
  rw [PackedColors.assigned?, Option.bind_eq_none_iff]
  intro m hm
  obtain ⟨a, ha, rfl, -⟩ := exists_of_find? hm
  exact absurd (List.mem_map_of_mem ha) h

/-- Statements for different slots set each slot to its own color, one channel at a time. -/
theorem firstMatch?_eq (hnodup : (as.map (·.slot)).Nodup) (tail : Gap) (id : Nat) : ∃ colors : PackedColors,
    PackedColors.chain.firstMatch? ⟨id, textOf as tail⟩ = (if colors = {} then none else some ("per-channel", colors)) ∧
      (∀ a ∈ as, colors.get a.slot = a.color.color?) ∧ ∀ slot, slot ∉ as.map (·.slot) → colors.get slot = none := by
  have hget : ∀ slot : ColorSlot, (PackedColors.mk (PackedColors.assigned? .c1 (textOf as tail))
      (PackedColors.assigned? .c2 (textOf as tail)) (PackedColors.assigned? .c3 (textOf as tail))).get slot =
        PackedColors.assigned? slot (textOf as tail) := fun slot => by cases slot <;> rfl
  refine ⟨_, ?_, fun a ha => (hget a.slot).trans (assigned?_eq hnodup ha), fun slot h => (hget slot).trans (assigned?_eq_none h)⟩
  rw [PackedColors.chain, IdiomChain.firstMatch?_cons, Idiom.read_of_find?_none (chained_find? as tail), Option.map_none,
    Option.none_or, IdiomChain.firstMatch?_cons]
  show ((PackedColors.readEach _).map _).or none = _
  rw [PackedColors.readEach, Option.or_none]
  split <;> rfl

end PackedAssignment

/-! ### All slots in one statement -/

/-- `c1 = c2 = c3 = COLOR;` -/
structure ChainedAssignment where
  /-- The blanks in front of each slot. -/
  lead : ColorSlot → Gap
  /-- The blanks between each slot and its sign. -/
  beforeSign : ColorSlot → Gap
  afterSign : Gap
  color : ColorLiteral
  beforeEnd : Gap
  tail : Gap

namespace ChainedAssignment

def right (a : ChainedAssignment) : List Char := a.afterSign.text ++ (a.color.text ++ (a.beforeEnd.text ++ [';']))

def opening (a : ChainedAssignment) (slot : ColorSlot) : List Char := (a.lead slot).text ++ slot.head (a.beforeSign slot)

def text (a : ChainedAssignment) : List Char :=
  a.opening .c1 ++ (a.opening .c2 ++ (a.opening .c3 ++ (a.right ++ a.tail.text)))

/-- The segment of a slot with nothing but blanks behind its sign. -/
def bare (a : ChainedAssignment) (slot : ColorSlot) : SlotSegment :=
  ⟨a.lead slot, slot, a.beforeSign slot, [], List.not_mem_nil, Or.inl rfl⟩

def final (a : ChainedAssignment) : SlotSegment where
  lead := a.lead .c3
  slot := .c3
  gap := a.beforeSign .c3
  right := a.right
  unassigning := by simp (disch := decide) [right, Gap.not_mem, a.color.sign_not_mem]
  closed := Or.inr ⟨a.afterSign.text ++ (a.color.text ++ a.beforeEnd.text), by simp [right]⟩

theorem text_eq (a : ChainedAssignment) : a.text = SlotSegment.textOf [a.bare .c1, a.bare .c2, a.final] a.tail := by
  simp [text, opening, SlotSegment.textOf, SlotSegment.text, bare, final]

/-- A slot of the statement with a color behind its sign is the last one, with the color of the statement. -/
theorem color_of_head {a : ChainedAssignment} {slot : ColorSlot} {front rest : List Char} {gap after before : Gap}
    {x : ColorLiteral} {stop : Char} (hstop : endsValue stop = true)
    (h : a.text = front ++ (slot.head gap ++ (after.text ++ (x.text ++ (before.text ++ stop :: rest))))) :
    slot = .c3 ∧ x.text = a.color.text := by
  rw [text_eq] at h
  obtain ⟨pre, s, post, hsplit, hslot, hbehind⟩ := SlotSegment.exists_of_head h
  have hnot : ∀ (s' : SlotSegment) (ss : List SlotSegment), after.text ++ (x.text ++ (before.text ++ stop :: rest)) ≠
      [] ++ SlotSegment.textOf (s' :: ss) a.tail := fun s' ss heq =>
    ColorLiteral.not_before_head (heq.trans (SlotSegment.textOf_cons s' ss))
  match pre with
  | [] =>
    obtain ⟨rfl, rfl⟩ := List.cons.inj hsplit
    exact absurd hbehind (hnot _ _)
  | [p] =>
    obtain ⟨rfl, rfl⟩ := List.cons.inj (List.cons.inj hsplit).2
    exact absurd hbehind (hnot _ _)
  | [p, q] =>
    obtain ⟨rfl, rfl⟩ := List.cons.inj (List.cons.inj (List.cons.inj hsplit).2).2
    have hcolor : after.text ++ (x.text ++ (before.text ++ stop :: rest)) =
        a.afterSign.text ++ (a.color.text ++ (a.beforeEnd.text ++ ';' :: a.tail.text)) := by
      simpa [final, right, SlotSegment.textOf] using hbehind
    obtain ⟨-, hliteral⟩ := Gap.eq_of_append hcolor (x.head_text _) (a.color.head_text _)
    exact ⟨hslot.symm, ColorLiteral.text_unique hstop (by decide) hliteral⟩
  | p :: q :: r :: pre =>
    have hlength := congrArg List.length hsplit
    simp at hlength

theorem exists_find? (a : ChainedAssignment) : ∃ m, PackedColors.chained.find? a.text = some m ∧ m.group 1 = a.color.text := by
  have hedge : (lastOf none (a.lead .c1).text).any isWord = false := outside_of_blank (a.lead .c1).blank none rfl
  obtain ⟨m, hm⟩ := @exists_find?_assignTo "c1" _ _ (by decide) ColorSlot.reads_chainedRest _ _ a.tail.text
    (a.beforeSign .c1) (a.lead .c2) _ hedge
    ⟨a.beforeSign .c2, a.lead .c3, a.beforeSign .c3, a.afterSign, a.color, a.beforeEnd, ';', rfl, rfl, rfl⟩
  have htext : (a.lead .c1).text ++ ("c1".toList ++ ((a.beforeSign .c1).text ++ '=' :: ((a.lead .c2).text ++
      ((ColorSlot.c2.head (a.beforeSign .c2) ++ ((a.lead .c3).text ++ (ColorSlot.c3.head (a.beforeSign .c3) ++
        (a.afterSign.text ++ (a.color.text ++ (a.beforeEnd.text ++ [';'])))))) ++ a.tail.text)))) = a.text := by
    simp [text, opening, right, ColorSlot.head, ColorSlot.name]
  rw [htext] at hm
  obtain ⟨front, g1, b1, g2, b2, g3, after, x, before, stop, rest, hsplit, -, hstop, hgroup⟩ := ColorSlot.exists_of_find?_chained hm
  have hthird : a.text = (front ++ (ColorSlot.c1.head g1 ++ (b1.text ++ (ColorSlot.c2.head g2 ++ b2.text)))) ++
      (ColorSlot.c3.head g3 ++ (after.text ++ (x.text ++ (before.text ++ stop :: rest)))) := by
    rw [hsplit]
    simp
  exact ⟨m, hm, hgroup.trans (color_of_head hstop hthird).2⟩

/-- The search for a single slot finds the color of the statement, if any. -/
theorem assigned?_eq_none {a : ChainedAssignment} (h : a.color.color? = none) (slot : ColorSlot) :
    PackedColors.assigned? slot a.text = none := by
  rw [PackedColors.assigned?, Option.bind_eq_none_iff]
  intro m hm
  obtain ⟨front, gap, after, x, before, stop, rest, htext, -, hstop, hgroup⟩ := ColorSlot.exists_of_find?_slot hm
  rw [hgroup, (color_of_head hstop htext).2, ColorLiteral.read?_eq, h]

/-- The statement sets all slots to its color, or none of them. -/
theorem firstMatch?_eq (a : ChainedAssignment) (id : Nat) : PackedColors.chain.firstMatch? ⟨id, a.text⟩ =
    a.color.color?.map fun v => ("chained-assignment", ⟨some v, some v, some v⟩) := by
  obtain ⟨m, hm, hgroup⟩ := a.exists_find?
  rw [PackedColors.chain, IdiomChain.firstMatch?_cons]
  have hread : (Idiom.ofPattern "chained-assignment" PackedColors.chained fun m _ =>
      (PackedColor.read? (m.group 1)).map fun color => PackedColors.mk (some color) (some color) (some color)).read ⟨id, a.text⟩ =
        a.color.color?.map fun v => ⟨some v, some v, some v⟩ := by
    show (PackedColors.chained.find? a.text).bind _ = _
    rw [hm, Option.bind_some]
    show (PackedColor.read? (m.group 1)).map _ = _
    rw [hgroup, ColorLiteral.read?_eq]
  rw [hread]
  cases hcolor : a.color.color? with
  | some v => rfl
  | none =>
    refine IdiomChain.firstMatch?_eq_none (List.forall_mem_singleton.mpr ?_)
    show PackedColors.readEach ⟨id, a.text⟩ = none
    simp only [PackedColors.readEach, assigned?_eq_none hcolor]
    rfl

end ChainedAssignment

/-! ### The main result -/

/-- Packed colors come back as they are written. The reader gives the value of every literal within its bounds and reads no
    other; a triple has fifteen bits, from which its arguments come back modulo 32. A statement for all slots sets them all,
    and statements for different slots set each to its own color; a color out of bounds sets nothing. -/
theorem packed_colors_recovered :
    (∀ (x : ColorLiteral) (v : Nat), PackedColor.read? x.text = some v ↔ x.Fits ∧ v = x.value) ∧
    (∀ (gap : Gap) (r g b : ColorArgument), (ColorLiteral.triple gap r g b).value < 2 ^ 15 ∧
      PackedColor.unpack (ColorLiteral.triple gap r g b).value = (r.value % 32, g.value % 32, b.value % 32)) ∧
    (∀ (a : ChainedAssignment) (id : Nat), PackedColors.chain.firstMatch? ⟨id, a.text⟩ =
      a.color.color?.map fun v => ("chained-assignment", ⟨some v, some v, some v⟩)) ∧
    ∀ (as : List PackedAssignment) (tail : Gap) (id : Nat), (as.map (·.slot)).Nodup → ∃ colors : PackedColors,
      PackedColors.chain.firstMatch? ⟨id, PackedAssignment.textOf as tail⟩ =
          (if colors = {} then none else some ("per-channel", colors)) ∧
        (∀ a ∈ as, colors.get a.slot = a.color.color?) ∧ ∀ slot, slot ∉ as.map (·.slot) → colors.get slot = none :=
  ⟨fun x _ => x.read?_text, fun _ r g b => ⟨PackedColor.pack_lt _ _ _, PackedColor.unpack_pack r.value g.value b.value⟩,
    ChainedAssignment.firstMatch?_eq, fun _ tail id hnodup => PackedAssignment.firstMatch?_eq hnodup tail id⟩

theorem packed_colors_recovered_swapped :
    let wide : PackedAssignment :=
      ⟨.none, .c3, .space, .space, .hexadecimal true "1fFf".toList (by decide) (by decide), .none⟩
    let large : PackedAssignment := ⟨.space, .c1, .none, .none, .decimal ⟨"4294967296".toList, by decide, by decide⟩, .space⟩
    PackedAssignment.textOf [wide, large] .none = "c3 = 0X1fFf; c1=4294967296 ;".toList ∧
      ∃ colors : PackedColors, PackedColors.chain.firstMatch? ⟨7, PackedAssignment.textOf [wide, large] .none⟩ =
        (if colors = {} then none else some ("per-channel", colors)) ∧
      colors.get .c1 = none ∧ colors.get .c2 = none ∧ colors.get .c3 = some 8191 := by
  intro wide large
  obtain ⟨-, -, -, hrow⟩ := packed_colors_recovered
  obtain ⟨colors, hmatch, hset, hother⟩ := hrow [wide, large] .none 7 (by decide)
  exact ⟨by decide, colors, hmatch, hset large (by simp), hother .c2 (by decide), hset wide (by simp)⟩

end SpriteFacts
