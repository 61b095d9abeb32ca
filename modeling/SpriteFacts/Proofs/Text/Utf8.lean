import Mathlib.Tactic.SplitIfs
import SpriteFacts.Text.Bytes

/-! The bytes of a text in UTF-8. An ASCII character is one byte, and that byte stands for nothing else, so every
    beginning of the bytes holds as many of it as some beginning of the text. Two texts are in the order of their
    bytes if and only if they are in the order of their characters. -/

namespace SpriteFacts.Text

/-- The bytes of a text. -/
def utf8 (cs : List Char) : List UInt8 := cs.flatMap String.utf8EncodeChar

@[simp] theorem utf8_nil : utf8 [] = [] := rfl

@[simp] theorem utf8_cons (c : Char) (cs : List Char) : utf8 (c :: cs) = String.utf8EncodeChar c ++ utf8 cs := rfl

@[simp] theorem utf8_append (as bs : List Char) : utf8 (as ++ bs) = utf8 as ++ utf8 bs := List.flatMap_append

/-- The bytes of a text are those that its string is made of. -/
theorem utf8_toList (s : String) : utf8 s.toList = s.toByteArray.data.toList := by
  rw [← String.utf8Encode_toList, List.utf8Encode, List.toList_data_toByteArray]
  rfl

theorem length_utf8 (cs : List Char) : (utf8 cs).length = byteLength cs := by
  induction cs with
  | nil => rfl
  | cons c cs ih => rw [utf8_cons, List.length_append, String.length_utf8EncodeChar, ih, byteLength_cons]

/-! ### ASCII -/

/-- The byte of an ASCII character. -/
def asciiByte (c : Char) : UInt8 := UInt8.ofNat c.toNat

/-- The byte of a newline. -/
def newlineByte : UInt8 := asciiByte '\n'

section Ascii
variable {c d : Char}

theorem utf8EncodeChar_ascii (h : c.toNat < 0x80) : String.utf8EncodeChar c = [asciiByte c] := if_pos (Nat.le_of_lt_succ h)

theorem le_of_mem_utf8EncodeChar (h : 0x80 ≤ c.toNat) {b : UInt8} (hb : b ∈ String.utf8EncodeChar c) : 0x80 ≤ b.toNat := by
  have hc : ¬c.val.toNat ≤ 0x7f := Nat.not_le.mpr h
  simp only [String.utf8EncodeChar, if_neg hc] at hb
  split_ifs at hb
  all_goals
    simp only [List.mem_cons, List.not_mem_nil, or_false] at hb
    rcases hb with rfl | rfl | rfl | rfl <;> (rw [UInt8.toNat_ofNat']; omega)

theorem asciiByte_injective (hc : c.toNat < 0x80) (hd : d.toNat < 0x80) (h : asciiByte c = asciiByte d) : c = d := by
  have hnat := congrArg UInt8.toNat h
  rw [asciiByte, asciiByte, UInt8.toNat_ofNat', UInt8.toNat_ofNat'] at hnat
  exact Char.toNat_inj.mp (by omega)

/-- A character that is not ASCII holds no byte of one that is. -/
theorem asciiByte_not_mem (hc : 0x80 ≤ c.toNat) (hd : d.toNat < 0x80) : asciiByte d ∉ String.utf8EncodeChar c := fun hmem => by
  have hle := le_of_mem_utf8EncodeChar hc hmem
  rw [asciiByte, UInt8.toNat_ofNat'] at hle
  omega

theorem count_utf8EncodeChar (hd : d.toNat < 0x80) : (String.utf8EncodeChar c).count (asciiByte d) = [c].count d := by
  rcases Nat.lt_or_ge c.toNat 0x80 with hc | hc
  · rw [utf8EncodeChar_ascii hc, List.count_singleton, List.count_singleton]
    by_cases h : c = d
    · rw [h, beq_self_eq_true, beq_self_eq_true]
    · rw [beq_eq_false_iff_ne.mpr h, beq_eq_false_iff_ne.mpr fun hbyte => h (asciiByte_injective hc hd hbyte)]
  · have hne : d ≠ c := by
      rintro rfl
      omega
    rw [List.count_eq_zero.mpr (asciiByte_not_mem hc hd), List.count_eq_zero.mpr fun h => hne (List.mem_singleton.mp h)]

theorem byte_not_mem (hd : d.toNat < 0x80) (hne : c ≠ d) : asciiByte d ∉ String.utf8EncodeChar c := by
  rw [← List.count_eq_zero, count_utf8EncodeChar hd, List.count_eq_zero]
  exact fun hmem => hne (List.mem_singleton.mp hmem).symm

/-- A text has as many bytes of an ASCII character as it has of that character. -/
theorem count_utf8 (hd : d.toNat < 0x80) (cs : List Char) : (utf8 cs).count (asciiByte d) = cs.count d := by
  induction cs with
  | nil => rfl
  | cons c cs ih => rw [utf8_cons, List.count_append, count_utf8EncodeChar hd, ih, ← List.count_append, List.singleton_append]

/-- A beginning of the bytes of a text may cut a character, but none that is ASCII. -/
theorem exists_prefix {cs : List Char} {front : List UInt8} (h : front <+: utf8 cs) :
    ∃ us, us <+: cs ∧ ∀ d : Char, d.toNat < 0x80 → front.count (asciiByte d) = us.count d := by
  induction cs generalizing front with
  | nil =>
    obtain rfl := List.prefix_nil.mp h
    exact ⟨[], List.nil_prefix, fun d _ => rfl⟩
  | cons c cs ih =>
    rw [utf8_cons] at h
    rcases List.prefix_or_prefix_of_prefix h (List.prefix_append _ _) with hcut | ⟨more, rfl⟩
    · rcases Nat.lt_or_ge c.toNat 0x80 with hc | hc
      · rw [utf8EncodeChar_ascii hc, List.prefix_cons_iff] at hcut
        obtain rfl | ⟨rest, rfl, hrest⟩ := hcut
        · exact ⟨[], List.nil_prefix, fun d _ => rfl⟩
        · obtain rfl := List.prefix_nil.mp hrest
          refine ⟨[c], List.prefix_append [c] cs, fun d hd => ?_⟩
          rw [← utf8EncodeChar_ascii hc, count_utf8EncodeChar hd]
      · refine ⟨[], List.nil_prefix, fun d hd => List.count_eq_zero.mpr fun hmem => ?_⟩
        exact asciiByte_not_mem hc hd (hcut.subset hmem)
    · obtain ⟨us, hus, hcount⟩ := ih ((List.prefix_append_right_inj _).mp h)
      refine ⟨c :: us, (List.prefix_cons_inj c).mpr hus, fun d hd => ?_⟩
      rw [List.count_append, count_utf8EncodeChar hd, hcount d hd, ← List.count_append, List.singleton_append]

end Ascii

/-! ### Order -/

/-- The bytes of a smaller character come first, whatever stands behind both. -/
theorem utf8EncodeChar_lt {c d : Char} (h : c < d) (xs ys : List UInt8) :
    String.utf8EncodeChar c ++ xs < String.utf8EncodeChar d ++ ys := by
  have hlt : c.val.toNat < d.val.toNat := h
  have hd : d.val.toNat < 0x110000 := by
    have hvalid := d.valid
    unfold UInt32.isValidChar Nat.isValidChar at hvalid
    omega
  unfold String.utf8EncodeChar
  generalize c.val.toNat = m, d.val.toNat = n at hlt hd ⊢
  -- The bytes are digits of the two numbers, so they differ first where the numbers do.
  have hdigits : m / 4096 < n / 4096 ∨ m / 4096 = n / 4096 ∧ m % 4096 < n % 4096 := by omega
  simp only
  split_ifs
  all_goals
    simp only [List.cons_append, List.nil_append, List.cons_lt_cons_iff, UInt8.lt_iff_toNat_lt, ← UInt8.toNat_inj,
      UInt8.toNat_ofNat']
    rcases hdigits with hdigits | hdigits <;> omega

theorem utf8_lt_of_lt {as bs : List Char} (h : as < bs) : utf8 as < utf8 bs := by
  induction h with
  | @nil b bs =>
    obtain ⟨x, xs, hx⟩ := List.exists_cons_of_ne_nil (String.utf8EncodeChar_ne_nil (c := b))
    rw [utf8_cons, hx]
    exact List.nil_lt_cons x _
  | rel h => exact utf8EncodeChar_lt h _ _
  | cons _ ih => exact List.append_left_lt ih

/-- Texts are in the order of their bytes. -/
theorem utf8_lt_iff {as bs : List Char} : utf8 as < utf8 bs ↔ as < bs := by
  refine ⟨fun h => Decidable.byContradiction fun hnot => ?_, utf8_lt_of_lt⟩
  rcases List.le_iff_lt_or_eq.mp (List.not_lt.mp hnot) with hgt | rfl
  · exact List.lt_asymm h (utf8_lt_of_lt hgt)
  · exact List.lt_irrefl _ h

end SpriteFacts.Text
