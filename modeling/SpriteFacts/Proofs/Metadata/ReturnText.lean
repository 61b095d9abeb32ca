import SpriteFacts.Metadata.Passes
import SpriteFacts.Proofs.Idiom.Chain
import SpriteFacts.Proofs.Switch.Lines

/-! Statements `return K;` with a numeral. A search for the word `return` finds the statement where it stands,
    the expression of a group that ends with it is the numeral, and of the idioms of a cut only the literal
    reads a numeral. -/

namespace SpriteFacts

open Switch Text Pattern

/-- A statement `return K;`. -/
structure Return where
  numeral : Numeral maxWord

namespace Return

def value (r : Return) : Nat := r.numeral.value

def text (r : Return) : List Char := "return".toList ++ ' ' :: (r.numeral.digits ++ [';'])

theorem text_eq (r : Return) : r.text = "return".toList ++ ' ' :: (r.numeral.digits ++ [';']) := rfl

/-- The characters of a statement besides its digits. -/
def letters : List Char := ['r', 'e', 't', 'u', 'n', ' ', ';']

theorem not_mem_text (r : Return) {c : Char} (hdigit : c.isDigit = false) (hletter : c ∉ letters) : c ∉ r.text := by
  have hsub : ∀ d ∈ ['r', 'e', 't', 'u', 'r', 'n'], d ∈ letters := by simp [letters]
  simp only [text_eq, List.mem_append, List.mem_cons, List.not_mem_nil, or_false, not_or]
  refine ⟨fun h => hletter (hsub c h), ?_, r.numeral.not_mem hdigit, ?_⟩
  · rintro rfl
    exact hletter (by decide)
  · rintro rfl
    exact hletter (by decide)

theorem text_append (r : Return) (cs : List Char) :
    r.text ++ cs = "return".toList ++ ' ' :: (r.numeral.digits ++ ';' :: cs) := by
  rw [text_eq, List.append_assoc, List.cons_append, List.append_assoc]
  rfl

instance : Statement Return where
  text := text
  clear r i _ _ _ := by
    refine (Landmark.begins i).clear_of_not_mem fun w hw => ?_
    obtain rfl := List.mem_singleton.mp hw
    cases i with
    | numbered => exact decide_eq_true (r.not_mem_text (c := 'c') (by decide) (by decide))
    | fallback => exact decide_eq_true (r.not_mem_text (c := 'd') (by decide) (by decide))
    | leave => exact decide_eq_true (r.not_mem_text (c := 'b') (by decide) (by decide))
  ends r last _ := by
    rw [text_eq, lastOf_append, lastOf_cons, lastOf_append]
    exact show isWord ';' = false by decide
  simple r := by
    refine List.all_eq_true.mpr fun c hc => ?_
    have hnot : ∀ d : Char, d.isDigit = false → d ∉ letters → (c != d) = true := fun d h1 h2 =>
      bne_iff_ne.mpr fun heq => r.not_mem_text h1 h2 (heq ▸ hc)
    rw [hnot _ (by decide) (by decide), hnot _ (by decide) (by decide), hnot _ (by decide) (by decide)]
    rfl

/-! ### The search for the statement -/

theorem read?_word (r : Return) {last : Option Char} (hlast : last.any isWord = false) (cs : List Char) :
    returnWord.read? last (r.text ++ cs) = some ⟨"return".toList, [], ' ' :: (r.numeral.digits ++ ';' :: cs)⟩ := by
  have hend : ∀ last : Option Char, (lastOf last "return".toList).any isWord = true := fun _ =>
    show isWord 'n' = true by decide
  refine read?_of_unique ((mem_readings_word (by decide) hend).mpr ⟨hlast, _, r.text_append cs, show isWord ' ' = false by decide, rfl⟩) fun s hs => ?_
  obtain ⟨-, rest, hrest, -, rfl⟩ := (mem_readings_word (by decide) hend).mp hs
  rw [text_append] at hrest
  rw [List.append_cancel_left hrest]

theorem begins_returnWord : Begins ["return".toList] returnWord := begins_word (by decide)

/-! ### The expression of the statement -/

theorem mem_readings_statement {last : Option Char} {cs : List Char} {s : Reading} :
    s ∈ Metadata.returnStatement.readings last cs ↔ last = none ∧ ∃ blanks expr rest,
      cs = "return".toList ++ (blanks ++ (expr ++ ';' :: rest)) ∧ blanks.all isBlank = true ∧
      expr.all (· != ';') = true ∧ s = ⟨"return".toList ++ (blanks ++ (expr ++ [';'])), [(1, expr)], rest⟩ := by
  unfold Metadata.returnStatement
  simp only [Pattern.all]
  rw [mem_readings_seq]
  constructor
  · rintro ⟨a, ha, b, hb, rfl⟩
    obtain ⟨rfl, rfl⟩ := mem_readings_textStart.mp ha
    obtain ⟨a1, ha1, b1, hb1, rfl⟩ := mem_readings_seq.mp hb
    obtain ⟨rest1, hrest1, rfl⟩ := mem_readings_literal.mp ha1
    obtain ⟨a2, ha2, b2, hb2, rfl⟩ := mem_readings_seq.mp hb1
    obtain ⟨blanks, rest2, hrest2, hblank, rfl⟩ := mem_readings_run.mp ha2
    obtain ⟨a3, ha3, b3, hb3, rfl⟩ := mem_readings_seq.mp hb2
    obtain ⟨a4, ha4, rfl⟩ := mem_readings_group.mp ha3
    obtain ⟨expr, rest3, hrest3, hexpr, rfl⟩ := mem_readings_run.mp ha4
    obtain ⟨rest4, hrest4, rfl⟩ := mem_readings_char.mp hb3
    simp only [Reading.keep] at hrest1 hrest2 hrest3 hrest4
    subst hrest1 hrest2 hrest3 hrest4
    exact ⟨rfl, blanks, expr, rest4, rfl, hblank, hexpr, by simp [Reading.append, Reading.keep]⟩
  · rintro ⟨rfl, blanks, expr, rest, rfl, hblank, hexpr, rfl⟩
    refine ⟨_, mem_readings_textStart.mpr ⟨rfl, rfl⟩,
      ⟨"return".toList ++ (blanks ++ (expr ++ [';'])), [(1, expr)], rest⟩, ?_, by simp [Reading.append]⟩
    refine mem_readings_seq.mpr ⟨_, mem_readings_literal.mpr ⟨_, rfl, rfl⟩,
      ⟨blanks ++ (expr ++ [';']), [(1, expr)], rest⟩, ?_, by simp [Reading.append]⟩
    refine mem_readings_seq.mpr ⟨_, mem_readings_run.mpr ⟨blanks, _, rfl, hblank, rfl⟩,
      ⟨expr ++ [';'], [(1, expr)], rest⟩, ?_, by simp [Reading.append]⟩
    exact mem_readings_seq.mpr ⟨_, mem_readings_group.mpr ⟨_, mem_readings_run.mpr ⟨expr, _, rfl, hexpr, rfl⟩, rfl⟩,
      ⟨[';'], [], rest⟩, mem_readings_char.mpr ⟨rest, rfl, rfl⟩, by simp [Reading.append, Reading.keep]⟩

/-- The expression of a group that ends with a statement is its numeral. -/
theorem returnExpression?_eq (r : Return) {g : CaseGroup} {more : List Char} (hending : g.ending = r.text ++ more) :
    Metadata.returnExpression? g = some r.numeral.digits := by
  have hsemicolon : r.numeral.digits.all (· != ';') = true := List.all_eq_true.mpr fun c hc => by
    rw [bne_iff_ne]
    rintro rfl
    exact r.numeral.not_mem (by decide) hc
  have hempty : r.numeral.digits.isEmpty = false := List.isEmpty_eq_false_iff.mpr r.numeral.nonempty
  have hsome : Metadata.returnStatement.read? none (r.text ++ more) ≠ none := fun hnone =>
    read?_eq_none.mp hnone _ (mem_readings_statement.mpr
      ⟨rfl, [' '], r.numeral.digits, more, r.text_append more, by decide, hsemicolon, rfl⟩)
  obtain ⟨s, hs⟩ := Option.ne_none_iff_exists'.mp hsome
  obtain ⟨-, blanks, expr, rest, hsplit, hblank, hexpr, rfl⟩ := mem_readings_statement.mp (mem_of_read? hs)
  -- The blank behind the word is read as a blank or as part of the expression: the words are the same.
  have hwords : oneLine expr = r.numeral.digits := by
    have hspan : blanks ++ expr = ' ' :: r.numeral.digits := by
      have hsplit' : ' ' :: r.numeral.digits ++ ';' :: more = (blanks ++ expr) ++ ';' :: rest := by
        rw [text_append] at hsplit
        rw [List.append_assoc]
        exact List.append_cancel_left hsplit
      refine (@span_unique (· != ';') _ _ _ _ hsplit' ?_ ?_ rfl rfl).1.symm
      · rw [List.all_cons, hsemicolon]
        rfl
      · rw [List.all_append, hexpr, Bool.and_true]
        refine List.all_eq_true.mpr fun c hc => bne_iff_ne.mpr ?_
        rintro rfl
        exact absurd (List.all_eq_true.mp hblank _ hc) (by decide)
    have : words expr = [r.numeral.digits] := by
      rw [← words_append_of_blank hblank, hspan, words_cons_blank (by decide), r.numeral.words_eq]
    rw [oneLine, this, List.intercalate_singleton]
  rw [Metadata.returnExpression?, hending, find?]
  show ((Metadata.returnStatement.findFrom (Pattern.place none 0) _).bind _) = _
  rw [findFrom_of_read hs]
  show (if (oneLine expr).isEmpty then none else some (oneLine expr)) = _
  rw [hwords, hempty]
  rfl

end Return

/-! ### The idioms of a cut -/

namespace Cut

theorem mem_readings_wholeDigits {last : Option Char} {cs : List Char} {r : Reading} :
    r ∈ (whole (group 1 digits)).readings last cs ↔
      last = none ∧ cs ≠ [] ∧ cs.all isDigit = true ∧ r = ⟨cs, [(1, cs)], []⟩ := by
  simp only [whole, Pattern.all]
  rw [mem_readings_seq]
  constructor
  · rintro ⟨a, ha, b, hb, rfl⟩
    obtain ⟨rfl, rfl⟩ := mem_readings_textStart.mp ha
    obtain ⟨a1, ha1, b1, hb1, rfl⟩ := mem_readings_seq.mp hb
    obtain ⟨d, hd, rfl⟩ := mem_readings_group.mp ha1
    obtain ⟨t, rest, rfl, hne, hdigit, rfl⟩ := mem_readings_run1.mp hd
    obtain ⟨hrest, rfl⟩ := mem_readings_textEnd.mp hb1
    simp only [Reading.keep] at hrest
    subst hrest
    exact ⟨rfl, by simpa using hne, by simpa using hdigit, by simp [Reading.append, Reading.keep]⟩
  · rintro ⟨rfl, hne, hdigit, rfl⟩
    exact ⟨_, mem_readings_textStart.mpr ⟨rfl, rfl⟩, ⟨cs, [(1, cs)], []⟩, mem_readings_seq.mpr
      ⟨_, mem_readings_group.mpr ⟨_, mem_readings_run1.mpr ⟨cs, [], (List.append_nil cs).symm, hne, hdigit, rfl⟩, rfl⟩,
        ⟨[], [], []⟩, mem_readings_textEnd.mpr ⟨rfl, rfl⟩, by simp [Reading.append, Reading.keep]⟩, by simp [Reading.append]⟩

/-- The idioms of a cut that read more than a literal. -/
def compound : List (Idiom CutValue) := chain.idioms.dropLast

theorem chain_numeral (id : Nat) (n : Numeral maxWord) : chain.value? ⟨id, n.digits⟩ = some (.sprite n.value) := by
  have hcompound : ∀ i ∈ compound, i.read ⟨id, n.digits⟩ = none := by
    have hparen : '(' ∉ n.digits := n.not_mem (by decide)
    have hplus : '+' ∉ n.digits := n.not_mem (by decide)
    have hminus : '-' ∉ n.digits := n.not_mem (by decide)
    intro i hi
    simp only [compound, chain, List.dropLast, List.mem_cons, List.not_mem_nil, or_false] at hi
    rcases hi with rfl | rfl | rfl | rfl | rfl | rfl | rfl | rfl
    · exact Idiom.read_of_needs (c := '-') (by simp [whole, spaced, Pattern.all, Pattern.char, Needs]) hminus
    · exact Idiom.read_of_needs (c := '-') (by simp [whole, spaced, Pattern.all, Pattern.char, Needs]) hminus
    · exact Idiom.read_of_needs (c := '(') (by simp [whole, intCast, inParens, spaced, Pattern.all, Pattern.char, Needs]) hparen
    · exact Idiom.read_of_needs (c := '(') (by simp [whole, intCast, inParens, spaced, Pattern.all, Pattern.char, Needs]) hparen
    · exact Idiom.read_of_needs (c := '+') (by simp [whole, sum, spaced, Pattern.all, Pattern.char, Needs]) hplus
    · exact Idiom.read_of_needs (c := '-') (by simp [whole, sum, spaced, Pattern.all, Pattern.char, Needs]) hminus
    · exact Idiom.read_of_needs (c := '-') (by simp [whole, spaced, Pattern.all, Pattern.char, Needs]) hminus
    · exact Idiom.read_of_needs (c := '-') (by simp [whole, spaced, Pattern.all, Pattern.char, Needs]) hminus
  have hread : (whole (group 1 digits)).read? none n.digits = some ⟨n.digits, [(1, n.digits)], []⟩ :=
    read?_of_unique (mem_readings_wholeDigits.mpr ⟨rfl, n.nonempty, n.all_isDigit, rfl⟩) fun _ hs =>
      (mem_readings_wholeDigits.mp hs).2.2.2
  have hsplit : chain = ⟨"cut", compound ++ [.ofPattern "literal" (whole (group 1 digits)) fun m _ => (m.word? 1).map .sprite]⟩ := rfl
  rw [hsplit, IdiomChain.value?_append_of_none hcompound]
  refine IdiomChain.value?_of_some ?_
  show ((whole (group 1 digits)).find? n.digits).bind _ = _
  rw [find?_of_read hread]
  show (word? n.digits).map CutValue.sprite = _
  rw [n.word?_eq]
  rfl

end Cut

end SpriteFacts
