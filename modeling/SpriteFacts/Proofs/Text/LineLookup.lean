import Mathlib.Data.List.Count
import SpriteFacts.Proofs.Text.Replaced
import SpriteFacts.Proofs.Text.Utf8
import SpriteFacts.Source

/-! Lines told by newlines. No character but a newline holds the byte of one, neither in UTF-8 nor in Latin-1, so the lines of a
    file are counted in its bytes before it is decoded. The line of an offset is told by the newlines in front of it, also if
    the offset lies inside a character or behind the end, and a search in the table of line starts tells the same line. -/

namespace SpriteFacts

namespace Text

/-! ### Newlines among bytes -/

theorem newline_not_mem {c : Char} (h : c ≠ '\n') : newlineByte ∉ String.utf8EncodeChar c := byte_not_mem (by decide) h

/-- A character without its last byte holds no newline, since a newline is one byte. -/
theorem newline_not_mem_dropLast (c : Char) : newlineByte ∉ (String.utf8EncodeChar c).dropLast := by
  by_cases h : c = '\n'
  · subst h
    decide
  · exact fun hmem => newline_not_mem h ((List.dropLast_sublist _).mem hmem)

theorem utf8_ne_nil {cs : List Char} (h : cs ≠ []) : utf8 cs ≠ [] := by
  obtain ⟨c, cs, rfl⟩ := List.exists_cons_of_ne_nil h
  exact List.append_ne_nil_of_left_ne_nil String.utf8EncodeChar_ne_nil _

theorem dropLast_utf8_cons (c : Char) {cs : List Char} (h : cs ≠ []) :
    (utf8 (c :: cs)).dropLast = String.utf8EncodeChar c ++ (utf8 cs).dropLast :=
  List.dropLast_append_of_ne_nil (utf8_ne_nil h)

/-- A text has as many newlines in front of its last byte as it has in front of its last character. -/
theorem count_dropLast_utf8 (cs : List Char) : (utf8 cs).dropLast.count newlineByte = cs.dropLast.count '\n' := by
  rcases List.eq_nil_or_concat cs with rfl | ⟨as, c, rfl⟩
  · rfl
  · have hlast : utf8 [c] ≠ [] := utf8_ne_nil (List.cons_ne_nil c [])
    have hnone : (utf8 [c]).dropLast.count newlineByte = 0 := by
      rw [List.count_eq_zero, utf8_cons, utf8_nil, List.append_nil]
      exact newline_not_mem_dropLast c
    rw [List.concat_eq_append, utf8_append, List.dropLast_append_of_ne_nil hlast, List.count_append, hnone, Nat.add_zero,
      List.dropLast_concat, newlineByte, count_utf8 (by decide)]

/-! ### The table of line starts -/

theorem length_lineStartsAfter (n : Nat) (cs : List Char) : (lineStartsAfter n cs).length = cs.dropLast.count '\n' := by
  induction cs generalizing n with
  | nil => rfl
  | cons c cs ih =>
    rw [lineStartsAfter]
    cases cs with
    | nil => rw [if_neg fun h => h.2 rfl, ih]; rfl
    | cons d cs =>
      rw [List.dropLast_cons_of_ne_nil (List.cons_ne_nil d cs)]
      by_cases hc : c = '\n'
      · rw [if_pos ⟨hc, List.cons_ne_nil d cs⟩, List.length_cons, ih, hc, List.count_cons_self]
      · rw [if_neg fun h => hc h.1, ih, List.count_cons_of_ne hc]

theorem lineCount_eq (cs : List Char) : lineCount cs = 1 + cs.dropLast.count '\n' := by
  rw [lineCount, lineStarts, List.length_cons, length_lineStartsAfter, Nat.add_comm]

theorem takeWhile_lineStartsAfter_of_lt {n offset : Nat} (h : offset ≤ n) (cs : List Char) :
    (lineStartsAfter n cs).takeWhile (fun s => decide (s ≤ offset)) = [] := by
  cases hstarts : lineStartsAfter n cs with
  | nil => rfl
  | cons s ss =>
    have hlt := lt_of_mem_lineStartsAfter s (hstarts ▸ List.mem_cons_self)
    exact List.takeWhile_cons_of_neg (by simpa using Nat.lt_of_le_of_lt h hlt)

/-- The starts up to an offset are those behind the newlines in front of it. -/
theorem length_takeWhile_lineStartsAfter (n k : Nat) (cs : List Char) :
    ((lineStartsAfter n cs).takeWhile fun s => decide (s ≤ n + k)).length = ((utf8 cs).dropLast.take k).count newlineByte := by
  induction cs generalizing n k with
  | nil => simp [lineStartsAfter]
  | cons c cs ih =>
    rw [lineStartsAfter]
    by_cases hcs : cs = []
    · subst hcs
      rw [if_neg fun h => h.2 rfl, utf8_cons, utf8_nil, List.append_nil, List.count_eq_zero.mpr fun hmem =>
        newline_not_mem_dropLast c (List.mem_of_mem_take hmem)]
      rfl
    · rw [dropLast_utf8_cons c hcs]
      by_cases hc : c = '\n'
      · subst hc
        rw [if_pos ⟨rfl, hcs⟩, show String.utf8EncodeChar '\n' = [newlineByte] from rfl, List.singleton_append]
        cases k with
        | zero => rw [List.takeWhile_cons_of_neg (by simp), List.take_zero]; rfl
        | succ k =>
          rw [List.takeWhile_cons_of_pos (by simp), List.length_cons, List.take_succ_cons, List.count_cons_self, ← ih (n + 1) k,
            Nat.add_assoc n 1 k, Nat.add_comm 1 k]
      · have hnone : (String.utf8EncodeChar c).count newlineByte = 0 := List.count_eq_zero.mpr (newline_not_mem hc)
        rw [if_neg fun h => hc h.1]
        rcases Nat.le_total c.utf8Size k with hle | hle
        · obtain ⟨j, rfl⟩ := Nat.exists_eq_add_of_le hle
          rw [← Nat.add_assoc, ih, ← String.length_utf8EncodeChar c, List.take_length_add_append, List.count_append, hnone,
            Nat.zero_add]
        · -- The offset lies inside the character, so no line starts up to it.
          rw [takeWhile_lineStartsAfter_of_lt (Nat.add_le_add_left hle n),
            List.take_append_of_le_length (by rwa [String.length_utf8EncodeChar]),
            List.count_eq_zero.mpr fun hmem => newline_not_mem hc (List.mem_of_mem_take hmem)]
          rfl

theorem lineAt_eq (cs : List Char) (offset : Nat) :
    lineAt (lineStarts cs) offset = 1 + ((utf8 cs).dropLast.take offset).count newlineByte := by
  have hstarts := length_takeWhile_lineStartsAfter 0 offset cs
  rw [Nat.zero_add] at hstarts
  rw [lineAt, lineStarts, List.takeWhile_cons_of_pos (by simp), List.length_cons, hstarts, Nat.add_comm]

theorem lineAt_mono (cs : List Char) {m n : Nat} (h : m ≤ n) : lineAt (lineStarts cs) m ≤ lineAt (lineStarts cs) n := by
  rw [lineAt_eq, lineAt_eq]
  exact Nat.add_le_add_left ((List.take_sublist_take_left h).count_le newlineByte) 1

/-! ### Searching the table -/

/-- Where a value is in an ascending table, or where it would be put in if it is missing. -/
inductive Spot where
  | held (index : Nat)
  | missing (index : Nat)

namespace Spot

/-- The spot is one that a search for the value may answer. -/
def IsFor (table : List Nat) (value : Nat) : Spot → Prop
  | held i => table[i]? = some value
  | missing i => i ≤ table.length ∧ (∀ s ∈ table.take i, s < value) ∧ ∀ s ∈ table.drop i, value < s

/-- The line of an offset, from 1, given its spot among the starts of lines. -/
def line : Spot → Nat
  | held i => i + 1
  | missing i => max i 1

end Spot

section Table
variable {table as bs : List Nat} {value : Nat}

theorem ascending_lineStartsAfter (n : Nat) (cs : List Char) : (lineStartsAfter n cs).Pairwise (· < ·) := by
  induction cs generalizing n with
  | nil => exact List.Pairwise.nil
  | cons c cs ih =>
    rw [lineStartsAfter]
    split
    · exact List.pairwise_cons.mpr ⟨lt_of_mem_lineStartsAfter, ih _⟩
    · exact ih _

theorem ascending_lineStarts (cs : List Char) : (lineStarts cs).Pairwise (· < ·) :=
  List.pairwise_cons.mpr ⟨lt_of_mem_lineStartsAfter, ascending_lineStartsAfter 0 cs⟩

/-- Where the table changes over to larger values its values up to this one end. -/
theorem lineAt_of_split (has : ∀ s ∈ as, s ≤ value) (hbs : ∀ s ∈ bs, value < s) : lineAt (as ++ bs) value = as.length := by
  have hpos : ∀ s ∈ as, decide (s ≤ value) = true := fun s hs => decide_eq_true (has s hs)
  have hneg : bs.takeWhile (fun s => decide (s ≤ value)) = [] := by
    cases bs with
    | nil => rfl
    | cons s bs => exact List.takeWhile_cons_of_neg (by simpa using hbs s List.mem_cons_self)
  rw [lineAt, List.takeWhile_append_of_pos hpos, hneg, List.append_nil]

theorem lineAt_of_isFor {spot : Spot} (htable : (0 :: table).Pairwise (· < ·)) (h : spot.IsFor (0 :: table) value) :
    spot.line = lineAt (0 :: table) value := by
  cases spot with
  | held i =>
    obtain ⟨hi, hvalue⟩ := List.getElem?_eq_some_iff.mp h
    have hsplit : 0 :: table = (0 :: table).take (i + 1) ++ (0 :: table).drop (i + 1) := (List.take_append_drop _ _).symm
    have hlast : (0 :: table).take (i + 1) = (0 :: table).take i ++ [value] := by rw [List.take_succ_eq_append_getElem hi, hvalue]
    rw [hsplit, hlast] at htable
    obtain ⟨hfront, -, hcross⟩ := List.pairwise_append.mp htable
    obtain ⟨-, -, hbefore⟩ := List.pairwise_append.mp hfront
    have has : ∀ s ∈ (0 :: table).take i ++ [value], s ≤ value := fun s hs => by
      rcases List.mem_append.mp hs with hs | hs
      · exact Nat.le_of_lt (hbefore s hs value (List.mem_singleton_self value))
      · exact Nat.le_of_eq (List.mem_singleton.mp hs)
    have hbs : ∀ s ∈ (0 :: table).drop (i + 1), value < s := fun s hs =>
      hcross value (List.mem_append_right _ (List.mem_singleton_self value)) s hs
    rw [hsplit, hlast, lineAt_of_split has hbs, List.length_append, List.length_take, Nat.min_eq_left (Nat.le_of_lt hi)]
    rfl
  | missing i =>
    obtain ⟨hi, hbefore, hbehind⟩ := h
    -- The table starts with 0, so nothing is missing in front of it.
    have hpos : 1 ≤ i := by
      cases i with
      | zero => exact absurd (hbehind 0 List.mem_cons_self) (Nat.not_lt_zero value)
      | succ i => exact Nat.le_add_left 1 i
    have hline := lineAt_of_split (fun s hs => Nat.le_of_lt (hbefore s hs)) hbehind
    rw [List.take_append_drop, List.length_take, Nat.min_eq_left hi] at hline
    rw [hline]
    exact Nat.max_eq_left hpos

/-- Every value has a spot in an ascending table. -/
theorem exists_isFor (htable : table.Pairwise (· < ·)) (value : Nat) : ∃ spot : Spot, spot.IsFor table value := by
  by_cases hmem : value ∈ table
  · obtain ⟨i, hi⟩ := List.mem_iff_getElem?.mp hmem
    exact ⟨.held i, hi⟩
  · induction table with
    | nil => exact ⟨.missing 0, Nat.le_refl 0, nofun, nofun⟩
    | cons s table ih =>
      obtain ⟨hs, htable⟩ := List.pairwise_cons.mp htable
      rw [List.mem_cons, not_or] at hmem
      rcases Nat.lt_or_gt_of_ne hmem.1 with hlt | hgt
      · refine ⟨.missing 0, Nat.zero_le _, nofun, fun t ht => ?_⟩
        rcases List.mem_cons.mp ht with rfl | ht
        · exact hlt
        · exact Nat.lt_trans hlt (hs t ht)
      · obtain ⟨spot, hspot⟩ := ih htable hmem.2
        cases spot with
        | held i => exact absurd (List.mem_of_getElem? hspot) hmem.2
        | missing i =>
          obtain ⟨hi, hbefore, hbehind⟩ := hspot
          exact ⟨.missing (i + 1), Nat.succ_le_succ hi, List.forall_mem_cons.mpr ⟨hgt, hbefore⟩, hbehind⟩

end Table
end Text

/-! ### Sources -/

namespace Source

open Text

/-- The source is what its bytes say: the text that they are in UTF-8, or one character for each byte if they are no text. -/
structure Decodes (s : Source) (bytes : List UInt8) : Prop where
  valid : (∃ cs, utf8 cs = bytes) → s.encoding = .utf8 ∧ utf8 s.text = bytes
  fallback : (¬∃ cs, utf8 cs = bytes) → s.encoding = .latin1 ∧ s.text.map Char.toNat = bytes.map UInt8.toNat

theorem isValidUTF8_iff {bytes : ByteArray} : bytes.IsValidUTF8 ↔ ∃ cs, utf8 cs = bytes.data.toList := by
  constructor
  · rintro ⟨cs, rfl⟩
    exact ⟨cs, by rw [List.utf8Encode, List.toList_data_toByteArray]; rfl⟩
  · rintro ⟨cs, h⟩
    refine ⟨cs, ByteArray.ext (Array.ext' ?_)⟩
    rw [List.utf8Encode, List.toList_data_toByteArray]
    exact h.symm

theorem toNat_latin1 (b : UInt8) : (Char.ofNat b.toNat).toNat = b.toNat := by
  have hvalid : b.toNat.isValidChar := Or.inl (by have := b.toNat_lt; omega)
  rw [Char.ofNat, dif_pos hvalid]
  rfl

theorem decodes_ofBytes (path : String) (bytes : ByteArray) : (ofBytes path bytes).Decodes bytes.data.toList := by
  rw [ofBytes, decode, String.fromUTF8?]
  by_cases hvalid : bytes.IsValidUTF8
  · rw [dif_pos hvalid]
    exact ⟨fun _ => ⟨rfl, utf8_toList _⟩, fun hnone => absurd (isValidUTF8_iff.mp hvalid) hnone⟩
  · rw [dif_neg hvalid]
    refine ⟨fun hsome => absurd (isValidUTF8_iff.mpr hsome) hvalid, fun _ => ⟨rfl, ?_⟩⟩
    show (decodeLatin1 bytes).map Char.toNat = _
    rw [decodeLatin1, List.map_map]
    exact List.map_congr_left fun b _ => toNat_latin1 b

/-- A source has as many lines as its bytes have newlines in front of the last byte, and one. -/
theorem Decodes.lineCount_eq {s : Source} {bytes : List UInt8} (h : s.Decodes bytes) :
    s.lineCount = 1 + bytes.dropLast.count newlineByte := by
  rw [lineCount, Text.lineCount_eq]
  by_cases hvalid : ∃ cs, utf8 cs = bytes
  · rw [← (h.valid hvalid).2, count_dropLast_utf8]
  · -- Each byte is the character of its number, and a newline has the same number in both.
    have hchars := congrArg (fun ns => ns.dropLast.count '\n'.toNat) (h.fallback hvalid).2
    simp only [← List.map_dropLast] at hchars
    rw [List.count_map_of_injective _ _ fun c d => Char.toNat_inj.mp] at hchars
    rw [hchars, show '\n'.toNat = newlineByte.toNat from rfl, List.count_map_of_injective _ _ fun a b => UInt8.toNat_inj.mp]

/-- The lines of a source are told by the newlines of its bytes. -/
structure ToldByNewlines (s : Source) (bytes : List UInt8) : Prop where
  decodes : s.Decodes bytes
  lineCount : s.lineCount = 1 + bytes.dropLast.count newlineByte
  lineAt : ∀ offset, s.lineAt offset = 1 + ((utf8 s.text).dropLast.take offset).count newlineByte
  /-- Any search in the table of line starts tells the line as well. -/
  searched : ∀ offset, (∃ spot : Spot, spot.IsFor (lineStarts s.text) offset) ∧
    ∀ spot : Spot, spot.IsFor (lineStarts s.text) offset → spot.line = s.lineAt offset
  monotone : ∀ m n, m ≤ n → s.lineAt m ≤ s.lineAt n
  within : ∀ offset, 1 ≤ s.lineAt offset ∧ s.lineAt offset ≤ s.lineCount

/-- Whatever bytes a file has, its lines are told by its newlines: how many it has, by those in its bytes but for a last
    one, and which one holds an offset, by those in front of it in the decoded text, but for a last one too. -/
theorem toldByNewlines_ofBytes (path : String) (bytes : ByteArray) : (ofBytes path bytes).ToldByNewlines bytes.data.toList := by
  have hdecodes := decodes_ofBytes path bytes
  generalize ofBytes path bytes = s at hdecodes ⊢
  exact
    { decodes := hdecodes
      lineCount := hdecodes.lineCount_eq
      lineAt := lineAt_eq s.text
      searched := fun offset => ⟨exists_isFor (ascending_lineStarts s.text) offset, fun _ h =>
        lineAt_of_isFor (ascending_lineStarts s.text) h⟩
      monotone := fun _ _ hle => lineAt_mono s.text hle
      within := fun offset => ⟨lineAt_pos s.text offset, lineAt_le_lineCount s.text offset⟩ }

-- A byte that begins no character in UTF-8 makes the file Latin-1, and the last newline starts no line.
example :
    let s := ofBytes "sprite.c" ⟨#[0x61, 0x0A, 0xE9, 0x0A]⟩
    (s.text, s.lineCount, [0, 1, 2, 3, 4, 5, 9].map s.lineAt) = (['a', '\n', 'é', '\n'], 2, [1, 1, 2, 2, 2, 2, 2]) := by decide +kernel

end Source
end SpriteFacts
