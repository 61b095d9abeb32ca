import SpriteFacts.Text.Word

/-! Blanks and words of a text. A blank is no digit and belongs to no word. Blanks in front of a text
    change none of its words, a blank ends a word, and the words put together are the text without its
    blanks; so of two texts, one the end of the other, that have the same words, the longer has only
    blanks more. -/

namespace SpriteFacts.Text

/-! ### Classes of characters -/

/-- A character in one of two tables that have no code point in common is not in the other. -/
theorem not_inRanges_of_apart {as bs : List (Nat × Nat)} {c : Char}
    (apart : (as.all fun a => bs.all fun b => a.2 < b.1 || b.2 < a.1) = true) (h : inRanges as c = true) :
    inRanges bs c = false := by
  obtain ⟨a, ha, hc⟩ := List.any_eq_true.mp h
  rw [Bool.and_eq_true, decide_eq_true_eq, decide_eq_true_eq] at hc
  refine Bool.eq_false_iff.mpr fun hbs => ?_
  obtain ⟨b, hb, hd⟩ := List.any_eq_true.mp hbs
  rw [Bool.and_eq_true, decide_eq_true_eq, decide_eq_true_eq] at hd
  have hab := List.all_eq_true.mp (List.all_eq_true.mp apart a ha) b hb
  rw [Bool.or_eq_true, decide_eq_true_eq, decide_eq_true_eq] at hab
  omega

theorem isDigit_of_isBlank {c : Char} (h : isBlank c = true) : isDigit c = false := by
  unfold isDigit
  split
  · refine Bool.eq_false_iff.mpr fun hd => ?_
    have hdigit : inRanges [(0x30, 0x39)] c = true := by
      simp only [Char.isDigit, Bool.and_eq_true, decide_eq_true_eq] at hd
      have h1 := UInt32.le_iff_toNat_le.mp hd.1
      have h2 := UInt32.le_iff_toNat_le.mp hd.2
      simp only [inRanges, List.any_cons, List.any_nil, Bool.or_false, Bool.and_eq_true, decide_eq_true_eq]
      exact ⟨h1, h2⟩
    have := @not_inRanges_of_apart _ blankRanges _ (by decide) hdigit
    rw [isBlank, this] at h
    cases h
  · exact not_inRanges_of_apart (by decide) h

theorem not_isBlank_of_isDigit {c : Char} (h : isDigit c = true) : isBlank c = false := by
  refine Bool.eq_false_iff.mpr fun hblank => ?_
  rw [isDigit_of_isBlank hblank] at h
  cases h

theorem isWord_of_isBlank {c : Char} (h : isBlank c = true) : isWord c = false := by
  unfold isWord
  split
  · rename_i hascii
    have hcode : c.toNat = 32 ∨ 9 ≤ c.toNat ∧ c.toNat ≤ 13 := by
      simp only [isBlank, inRanges, blankRanges, List.any_cons, List.any_nil, Bool.or_false, Bool.or_eq_true,
        Bool.and_eq_true, decide_eq_true_eq] at h
      omega
    rw [← Char.ofNat_toNat c]
    generalize c.toNat = n at hcode
    obtain rfl | rfl | rfl | rfl | rfl | rfl : n = 32 ∨ n = 9 ∨ n = 10 ∨ n = 11 ∨ n = 12 ∨ n = 13 := by omega
    all_goals decide
  · split
    · exact not_inRanges_of_apart (by decide) h
    · split
      · exact not_inRanges_of_apart (by decide +kernel) h
      · exact not_inRanges_of_apart (by decide +kernel) h

theorem not_isBlank_of_isWord {c : Char} (h : isWord c = true) : isBlank c = false := by
  refine Bool.eq_false_iff.mpr fun hblank => ?_
  rw [isWord_of_isBlank hblank] at h
  cases h

theorem not_mem_of_blank {t : List Char} {c : Char} (ht : t.all isBlank = true) (hc : isBlank c = false) : c ∉ t := by
  intro hmem
  rw [List.all_eq_true.mp ht c hmem] at hc
  cases hc

/-! ### Edges -/

/-- A text that begins and ends with no blank is trimmed already. -/
theorem trim_eq_self {cs : List Char} (hfirst : cs.head?.all (fun c => !isBlank c) = true)
    (hlast : cs.getLast?.all (fun c => !isBlank c) = true) : trim cs = cs := by
  have drop : ∀ {cs : List Char}, cs.head?.all (fun c => !isBlank c) = true → cs.dropWhile isBlank = cs := fun {cs} h => by
    cases cs with
    | nil => rfl
    | cons c cs => exact List.dropWhile_cons_of_neg (by simpa using h)
  have hreverse : cs.reverse.head?.all (fun c => !isBlank c) = true := by rwa [List.head?_reverse]
  rw [trim, trimEnd, trimStart, drop hfirst, drop hreverse, List.reverse_reverse]

/-! ### Words -/

theorem splitWords_append {w cs : List Char} (h : w.all (fun c => !isBlank c) = true) :
    splitWords (w ++ cs) = (w ++ (splitWords cs).1, (splitWords cs).2) := by
  induction w with
  | nil => rfl
  | cons c w ih =>
    rw [List.all_cons, Bool.and_eq_true, Bool.not_eq_true'] at h
    simp [splitWords, ih h.2, h.1]

theorem splitWords_blank {c : Char} {cs : List Char} (h : isBlank c = true) : splitWords (c :: cs) = ([], words cs) := by
  simp [splitWords, words, h]

theorem words_cons_blank {c : Char} {cs : List Char} (h : isBlank c = true) : words (c :: cs) = words cs := by
  rw [words, splitWords_blank h]
  rfl

/-- Blanks in front of a text change none of its words. -/
theorem words_append_of_blank {as cs : List Char} (h : as.all isBlank = true) : words (as ++ cs) = words cs := by
  induction as with
  | nil => rfl
  | cons a as ih =>
    rw [List.all_cons, Bool.and_eq_true] at h
    rw [List.cons_append, words_cons_blank h.1, ih h.2]

theorem flatten_consWord (w : List Char) (ws : List (List Char)) : (consWord w ws).flatten = w ++ ws.flatten := by
  unfold consWord
  cases w <;> rfl

theorem flatten_splitWords (cs : List Char) :
    (splitWords cs).1 ++ (splitWords cs).2.flatten = cs.filter (fun c => !isBlank c) := by
  induction cs with
  | nil => rfl
  | cons c cs ih =>
    by_cases hc : isBlank c = true
    · simp [splitWords, hc, flatten_consWord, ih]
    · simp [splitWords, hc, ih]

/-- The words of a text put together are the text without its blanks. -/
theorem flatten_words (cs : List Char) : (words cs).flatten = cs.filter (fun c => !isBlank c) := by
  rw [words, flatten_consWord, flatten_splitWords]

/-- A text that has no other words than its end is blank up to that end. -/
theorem blank_of_words_append {as cs : List Char} (h : words (as ++ cs) = words cs) : as.all isBlank = true := by
  have hflat := congrArg List.flatten h
  rw [flatten_words, flatten_words, List.filter_append] at hflat
  have hnil : as.filter (fun c => !isBlank c) = [] := List.append_left_eq_self.mp hflat
  rw [List.filter_eq_nil_iff] at hnil
  exact List.all_eq_true.mpr fun c hc => by simpa using hnil c hc

end SpriteFacts.Text
