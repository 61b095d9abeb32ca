import SpriteFacts.Proofs.Pattern.WordStart
import SpriteFacts.Proofs.Text.Blank
import SpriteFacts.Switch.FunctionBody

/-! The head of a function that takes a sprite. It is read as a signature in one way only, whatever the name of the
    function and whatever stands behind. -/

namespace SpriteFacts.Switch

open Text Pattern

/-! ### Names -/

/-- A name: it starts with a letter or an underscore and holds word characters only. -/
def IsName (cs : List Char) : Prop := cs.head?.any isNameStart = true ∧ cs.all isWord = true

instance (cs : List Char) : Decidable (IsName cs) := inferInstanceAs (Decidable (_ ∧ _))

theorem isWord_of_isNameStart {c : Char} (h : isNameStart c = true) : isWord c = true := by
  rw [isNameStart, Bool.or_eq_true, beq_iff_eq] at h
  rcases h with h | rfl
  · have hascii : c.toNat < 0x80 := by
      rcases (Bool.or_eq_true c.isUpper c.isLower).mp h with hcase | hcase
      · obtain ⟨-, hle⟩ := of_decide_eq_true (p := c.val ≥ 'A'.val ∧ c.val ≤ 'Z'.val) hcase
        exact Nat.lt_of_le_of_lt (UInt32.le_iff_toNat_le.mp hle) (by decide)
      · obtain ⟨-, hle⟩ := (Bool.and_eq_true _ (decide (c.val ≤ 'z'.val))).mp hcase
        exact Nat.lt_of_le_of_lt (UInt32.le_iff_toNat_le.mp (of_decide_eq_true hle)) (by decide)
    have halphanum : c.isAlphanum = true := (Bool.or_eq_true c.isAlpha c.isDigit).mpr (Or.inl h)
    rw [isWord, if_pos hascii, halphanum]
    rfl
  · decide

section Readings
variable {last : Option Char} {cs : List Char} {r : Reading}

theorem mem_readings_name : r ∈ name.readings last cs ↔ ∃ t rest, cs = t ++ rest ∧ IsName t ∧ r = ⟨t, [], rest⟩ := by
  rw [name, mem_readings_seq]
  constructor
  · rintro ⟨a, ha, b, hb, rfl⟩
    obtain ⟨c, rest, rfl, hc, rfl⟩ := mem_readings_one.mp ha
    obtain ⟨t, rest', hrest, hall, rfl⟩ := mem_readings_run.mp hb
    subst hrest
    refine ⟨c :: t, rest', rfl, ⟨hc, ?_⟩, rfl⟩
    rw [List.all_cons, isWord_of_isNameStart hc, hall]
    rfl
  · rintro ⟨t, rest, rfl, ⟨hstart, hall⟩, rfl⟩
    cases t with
    | nil => cases hstart
    | cons c t =>
      rw [List.all_cons, Bool.and_eq_true] at hall
      exact ⟨_, mem_readings_one.mpr ⟨c, t ++ rest, rfl, hstart, rfl⟩, _,
        mem_readings_run.mpr ⟨t, rest, rfl, hall.2, rfl⟩, rfl⟩

theorem optional_word {s : String} {q : Pattern} (hs : s.toList.head?.any isWord = true) (hcs : ¬s.toList <+: cs) :
    r ∈ (Pattern.optional (.seq (wordStart s) q)).readings last cs ↔ r = ⟨[], [], cs⟩ := by
  rw [mem_readings_optional, mem_readings_seq]
  refine or_iff_right ?_
  rintro ⟨a, ha, -⟩
  obtain ⟨-, rest, rfl, -⟩ := (mem_readings_wordStart hs).mp ha
  exact hcs (List.prefix_append _ _)

end Readings

/-! ### The head -/

/-- The head of a function, with blanks in front of its opening brace. -/
def headText (name : String) (gap : List Char) : List Char :=
  "int ".toList ++ (name.toList ++ ("(int sprite)".toList ++ (gap ++ ['\x7b'])))

def functionHead (name : String) : List Char := "int ".toList ++ (name.toList ++ "(int sprite)\n\x7b".toList)

theorem functionHead_eq (name : String) : functionHead name = headText name ['\n'] := rfl

theorem IsName.head {t : List Char} (ht : IsName t) (cs : List Char) : (t ++ cs).head?.all (fun c => !isBlank c) = true :=
  head_outside (fun _ => not_isBlank_of_isWord) ht.2 fun hnil => by
    rw [hnil] at ht
    cases ht.1

/-- What follows the word `int` in a signature. -/
def afterInt : Pattern :=
  .all [blanks1, group 1 name, blanks, char '(', run (· != ')'), char ')', blanks, char '\x7b']

theorem mem_readings_afterInt {last : Option Char} {cs : List Char} {r : Reading} : r ∈ afterInt.readings last cs ↔
    ∃ gap t gap2 inner gap3 rest, cs = gap ++ (t ++ (gap2 ++ '(' :: (inner ++ ')' :: (gap3 ++ '\x7b' :: rest)))) ∧
      gap ≠ [] ∧ gap.all isBlank = true ∧ IsName t ∧ gap2.all isBlank = true ∧ inner.all (· != ')') = true ∧
      gap3.all isBlank = true ∧
      r = ⟨gap ++ (t ++ (gap2 ++ '(' :: (inner ++ ')' :: (gap3 ++ ['\x7b'])))), [(1, t)], rest⟩ := by
  unfold afterInt
  simp only [Pattern.all]
  constructor
  · intro hr
    obtain ⟨a, ha, a', ha', rfl⟩ := mem_readings_seq.mp hr
    obtain ⟨gap, rest1, rfl, hne, hgap, rfl⟩ := mem_readings_run1.mp ha
    obtain ⟨b, hb, b', hb', rfl⟩ := mem_readings_seq.mp ha'
    obtain ⟨n, hn, rfl⟩ := mem_readings_group.mp hb
    obtain ⟨t, rest2, hrest1, ht, rfl⟩ := mem_readings_name.mp hn
    obtain ⟨c, hc, c', hc', rfl⟩ := mem_readings_seq.mp hb'
    obtain ⟨gap2, rest3, hrest2, hgap2, rfl⟩ := mem_readings_run.mp hc
    obtain ⟨d, hd, d', hd', rfl⟩ := mem_readings_seq.mp hc'
    obtain ⟨rest4, hrest3, rfl⟩ := mem_readings_char.mp hd
    obtain ⟨e, he, e', he', rfl⟩ := mem_readings_seq.mp hd'
    obtain ⟨inner, rest5, hrest4, hinner, rfl⟩ := mem_readings_run.mp he
    obtain ⟨f, hf, f', hf', rfl⟩ := mem_readings_seq.mp he'
    obtain ⟨rest6, hrest5, rfl⟩ := mem_readings_char.mp hf
    obtain ⟨g, hg, g', hg', rfl⟩ := mem_readings_seq.mp hf'
    obtain ⟨gap3, rest7, hrest6, hgap3, rfl⟩ := mem_readings_run.mp hg
    obtain ⟨rest8, hrest7, rfl⟩ := mem_readings_char.mp hg'
    simp only [Reading.keep] at hrest1 hrest2 hrest3 hrest4 hrest5 hrest6 hrest7
    subst hrest1 hrest2 hrest3 hrest4 hrest5 hrest6 hrest7
    exact ⟨gap, t, gap2, inner, gap3, rest8, rfl, hne, hgap, ht, hgap2, hinner, hgap3, by simp [Reading.append, Reading.keep]⟩
  · rintro ⟨gap, t, gap2, inner, gap3, rest, rfl, hne, hgap, ht, hgap2, hinner, hgap3, rfl⟩
    refine mem_readings_seq.mpr ⟨_, mem_readings_run1.mpr ⟨gap, _, rfl, hne, hgap, rfl⟩,
      ⟨t ++ (gap2 ++ '(' :: (inner ++ ')' :: (gap3 ++ ['\x7b']))), [(1, t)], rest⟩, ?_, by simp [Reading.append]⟩
    refine mem_readings_seq.mpr ⟨_, mem_readings_group.mpr ⟨_, mem_readings_name.mpr ⟨t, _, rfl, ht, rfl⟩, rfl⟩,
      ⟨gap2 ++ '(' :: (inner ++ ')' :: (gap3 ++ ['\x7b'])), [], rest⟩, ?_, by simp [Reading.append, Reading.keep]⟩
    refine mem_readings_seq.mpr ⟨_, mem_readings_run.mpr ⟨gap2, _, rfl, hgap2, rfl⟩,
      ⟨'(' :: (inner ++ ')' :: (gap3 ++ ['\x7b'])), [], rest⟩, ?_, by simp [Reading.append]⟩
    refine mem_readings_seq.mpr ⟨_, mem_readings_char.mpr ⟨_, rfl, rfl⟩,
      ⟨inner ++ ')' :: (gap3 ++ ['\x7b']), [], rest⟩, ?_, by simp [Reading.append]⟩
    refine mem_readings_seq.mpr ⟨_, mem_readings_run.mpr ⟨inner, _, rfl, hinner, rfl⟩,
      ⟨')' :: (gap3 ++ ['\x7b']), [], rest⟩, ?_, by simp [Reading.append]⟩
    refine mem_readings_seq.mpr ⟨_, mem_readings_char.mpr ⟨_, rfl, rfl⟩, ⟨gap3 ++ ['\x7b'], [], rest⟩, ?_,
      by simp [Reading.append]⟩
    exact mem_readings_seq.mpr ⟨_, mem_readings_run.mpr ⟨gap3, _, rfl, hgap3, rfl⟩, _,
      mem_readings_char.mpr ⟨rest, rfl, rfl⟩, by simp [Reading.append]⟩

/-- Behind the word `int` a head is read in one way. -/
theorem afterInt_unique {t gap rest : List Char} (ht : IsName t) (hgap : gap.all isBlank = true) {last : Option Char}
    {r : Reading} (hr : r ∈ afterInt.readings last (' ' :: (t ++ ("(int sprite)".toList ++ (gap ++ '\x7b' :: rest))))) :
    r = ⟨' ' :: (t ++ ("(int sprite)".toList ++ (gap ++ ['\x7b']))), [(1, t)], rest⟩ := by
  obtain ⟨gap1, u, gap2, inner, gap3, rest', hsplit, -, hgap1, hu, hgap2, hinner, hgap3, rfl⟩ := mem_readings_afterInt.mp hr
  have hblank : [' '].all isBlank = true := by decide
  have hparen : ∀ {as cs : List Char}, as.all isBlank = true → (as ++ '(' :: cs).head?.all (fun c => !isWord c) = true :=
    fun has => head_outside (fun _ => isWord_of_isBlank) has fun _ => show (!isWord '(') = true by decide
  -- Each part is as long as its class of characters goes, so the two splits agree part by part.
  obtain ⟨rfl, hname⟩ := @span_unique isBlank [' '] _ _ _ hsplit hblank hgap1 (ht.head _) (hu.head _)
  obtain ⟨rfl, hopen⟩ := span_unique hname ht.2 hu.2 (@hparen [] _ rfl) (hparen hgap2)
  obtain ⟨rfl, hargs⟩ := @span_unique isBlank [] _ _ _ hopen rfl hgap2 rfl rfl
  have hargs' : "int sprite".toList ++ ')' :: (gap ++ '\x7b' :: rest) = inner ++ ')' :: (gap3 ++ '\x7b' :: rest') :=
    (List.cons.inj hargs).2
  obtain ⟨rfl, hclose⟩ := span_unique hargs' (by decide) hinner rfl rfl
  obtain ⟨rfl, hbody⟩ := span_unique (List.cons.inj hclose).2 hgap hgap3 rfl rfl
  obtain rfl := (List.cons.inj hbody).2
  rfl

/-- The head of a function is its signature, whatever stands behind. -/
theorem read?_headText {name : String} {gap : List Char} (hname : IsName name.toList) (hgap : gap.all isBlank = true)
    (rest : List Char) :
    signature.read? none (headText name gap ++ rest) = some ⟨headText name gap, [(1, name.toList)], rest⟩ := by
  have hhead : headText name gap ++ rest =
      "int".toList ++ ' ' :: (name.toList ++ ("(int sprite)".toList ++ (gap ++ '\x7b' :: rest))) := by
    simp only [headText, List.append_assoc]
    rfl
  have hexport : ¬"DLL_EXPORT".toList <+: headText name gap ++ rest := fun ⟨_, h⟩ => absurd (List.cons.inj h).1 (by decide)
  have hunsigned : ¬"unsigned".toList <+: headText name gap ++ rest := fun ⟨_, h⟩ => absurd (List.cons.inj h).1 (by decide)
  have hsignature : signature = .seq (Pattern.optional (.seq (wordStart "DLL_EXPORT") blanks1))
    (.seq (Pattern.optional (.seq (wordStart "unsigned") blanks1)) (.seq (wordStart "int") afterInt)) := rfl
  have hinner : "int sprite".toList.all (· != ')') = true := by decide
  rw [hsignature]
  refine read?_of_unique ?_ fun r hr => ?_
  · have hafter := (@mem_readings_afterInt (lastOf none "int".toList) _ _).mpr ⟨[' '], name.toList, [], "int sprite".toList,
      gap, rest, rfl, List.cons_ne_nil _ _, by decide, hname, rfl, hinner, hgap, rfl⟩
    refine mem_readings_seq.mpr ⟨_, (optional_word (by decide) hexport).mpr rfl, ⟨headText name gap, [(1, name.toList)], rest⟩,
      ?_, rfl⟩
    refine mem_readings_seq.mpr ⟨_, (optional_word (by decide) hunsigned).mpr rfl, ⟨headText name gap, [(1, name.toList)], rest⟩,
      ?_, rfl⟩
    exact mem_readings_seq.mpr ⟨_, (mem_readings_wordStart (by decide)).mpr ⟨rfl, _, hhead, rfl⟩, _, hafter, rfl⟩
  · obtain ⟨a, ha, a', ha', rfl⟩ := mem_readings_seq.mp hr
    obtain rfl := (optional_word (by decide) hexport).mp ha
    obtain ⟨b, hb, b', hb', rfl⟩ := mem_readings_seq.mp ha'
    obtain rfl := (optional_word (by decide) hunsigned).mp hb
    obtain ⟨c, hc, c', hc', rfl⟩ := mem_readings_seq.mp hb'
    obtain ⟨-, behind, hbehind, rfl⟩ := (mem_readings_wordStart (by decide)).mp hc
    obtain rfl := List.append_cancel_left (hhead.symm.trans hbehind)
    obtain rfl := afterInt_unique hname hgap hc'
    rfl

/-- A function that its source begins with is found, and its body starts behind its head. -/
theorem find?_headText {name : String} {gap : List Char} (hname : IsName name.toList) (hgap : gap.all isBlank = true)
    (rest : List Char) : FunctionBody.find? (headText name gap ++ rest) name =
      some ⟨(untilClosed 0 rest).1, byteLength (headText name gap), (untilClosed 0 rest).2⟩ := by
  have hpieces := piecesFrom_found (n := 0) (read?_headText hname hgap rest) (List.cons_ne_nil _ _)
  have hgroup : String.ofList (Match.group ⟨0, 0 + byteLength (headText name gap), headText name gap, [(1, name.toList)]⟩ 1) =
    name := String.ofList_toList
  rw [FunctionBody.find?, findAll]
  show (((signature.piecesFrom 0 (Pattern.place none 0) _).filterMap Piece.match?).find? _).map _ = _
  rw [hpieces, List.filterMap_cons]
  show ((_ :: _).find? _).map _ = _
  rw [List.find?_cons_of_pos (by rw [hgroup]; exact beq_self_eq_true name), Option.map_some, Nat.zero_add, dropBytes_append]

/-! ### The body -/

theorem untilClosed_open (depth : Nat) (cs : List Char) : untilClosed depth ('\x7b' :: cs) =
    ('\x7b' :: (untilClosed (depth + 1) cs).1, (untilClosed (depth + 1) cs).2) := by
  rw [untilClosed.eq_def]
  rfl

theorem untilClosed_close (depth : Nat) (cs : List Char) : untilClosed (depth + 1) ('\x7d' :: cs) =
    ('\x7d' :: (untilClosed depth cs).1, (untilClosed depth cs).2) := by
  rw [untilClosed.eq_def]
  rfl

theorem untilClosed_cons {c : Char} (hopen : c ≠ '\x7b') (hclose : c ≠ '\x7d') (depth : Nat) (cs : List Char) :
    untilClosed depth (c :: cs) = (c :: (untilClosed depth cs).1, (untilClosed depth cs).2) := by
  rw [untilClosed.eq_def]
  simp only [hopen, hclose, if_false]

theorem untilClosed_append {t : List Char} (ht : t.all (fun c => c != '\x7b' && c != '\x7d') = true) (depth : Nat)
    (cs : List Char) : untilClosed depth (t ++ cs) = (t ++ (untilClosed depth cs).1, (untilClosed depth cs).2) := by
  induction t with
  | nil => rfl
  | cons c t ih =>
    simp only [List.all_cons, Bool.and_eq_true, bne_iff_ne, ne_eq] at ht
    rw [List.cons_append, untilClosed_cons ht.1.1 ht.1.2, ih (by simpa using ht.2)]
    rfl

/-- The front of a text closes the body, whatever stands behind, or the body goes on behind it. -/
theorem untilClosed_front (depth : Nat) (front : List Char) :
    (∃ t, t <+: front ∧ ∀ cs, untilClosed depth (front ++ cs) = (t, true)) ∨
      ∃ d, ∀ cs, untilClosed depth (front ++ cs) = (front ++ (untilClosed d cs).1, (untilClosed d cs).2) := by
  induction front generalizing depth with
  | nil => exact Or.inr ⟨depth, fun cs => rfl⟩
  | cons c front ih =>
    -- A character that does not close the body changes the depth at most.
    have further : ∀ d, (∀ cs, untilClosed depth (c :: cs) = (c :: (untilClosed d cs).1, (untilClosed d cs).2)) →
        (∃ t, t <+: c :: front ∧ ∀ cs, untilClosed depth (c :: front ++ cs) = (t, true)) ∨
          ∃ d, ∀ cs, untilClosed depth (c :: front ++ cs) = (c :: front ++ (untilClosed d cs).1, (untilClosed d cs).2) := by
      intro d hstep
      rcases ih d with ⟨t, ht, hclosed⟩ | ⟨d', hopen⟩
      · exact Or.inl ⟨c :: t, List.prefix_cons_iff.mpr (Or.inr ⟨t, rfl, ht⟩), fun cs => by
          rw [List.cons_append, hstep, hclosed]⟩
      · exact Or.inr ⟨d', fun cs => by rw [List.cons_append, hstep, hopen]; rfl⟩
    by_cases hopen : c = '\x7b'
    · exact further (depth + 1) fun cs => by rw [hopen, untilClosed_open]
    · by_cases hclose : c = '\x7d'
      · cases depth with
        | zero =>
          refine Or.inl ⟨[], List.nil_prefix, fun cs => ?_⟩
          rw [List.cons_append, untilClosed, if_neg hopen, if_pos hclose]
        | succ depth => exact further depth fun cs => by rw [hclose, untilClosed_close]
      · exact further depth fun cs => untilClosed_cons hopen hclose depth cs

end SpriteFacts.Switch
