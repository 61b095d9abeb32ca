import SpriteFacts.Proofs.Text.Blank
import SpriteFacts.Text.Numeral

/-! Runs of digits and numerals up to a limit. A reader with a limit reads a run that is written in ASCII digits and whose value
    is within the limit, and no other. A numeral is such a run; its digits are no blanks, so it is one word. -/

namespace SpriteFacts.Text

/-! ### What digits write -/

theorem digitValue_digitChar {d : Nat} (h : d < 10) : digitValue d.digitChar = d := by
  have hdigit : d.digitChar.isDigit = true := by rw [Nat.isDigit_digitChar, decide_eq_true h]
  rw [digitValue, if_pos hdigit, Nat.toNat_digitChar_sub_48_of_lt_ten h]

theorem valueOf_toDigits (n : Nat) : valueOf 10 (Nat.toDigits 10 n) = n := by
  induction n using Nat.strongRecOn with
  | ind n ih =>
    by_cases hn : n < 10
    · rw [Nat.toDigits_of_lt_base hn]
      simp [valueOf, digitValue_digitChar hn]
    · have hten : 10 ≤ n := Nat.le_of_not_lt hn
      have hfront := ih (n / 10) (by omega)
      rw [valueOf] at hfront
      rw [Nat.toDigits_of_base_le (by decide) hten, valueOf, List.foldl_append, hfront]
      simp only [List.foldl_cons, List.foldl_nil, digitValue_digitChar (Nat.mod_lt n (by decide))]
      omega

theorem le_of_word? {cs : List Char} {n : Nat} (h : word? cs = some n) : n ≤ maxWord :=
  of_decide_eq_true (Option.filter_eq_some_iff.mp h).2

/-- A reader with a limit reads a run of its digits whose value is within the limit, if no sign stands in front of it. -/
theorem unsigned?_eq_some {ok : Char → Bool} {base limit k : Nat} {cs : List Char} (hne : cs ≠ []) (hplus : dropPlus cs = cs) :
    unsigned? ok base limit cs = some k ↔ cs.all ok = true ∧ valueOf base cs ≤ limit ∧ valueOf base cs = k := by
  have hempty : cs.isEmpty = false := List.isEmpty_eq_false_iff.mpr hne
  rw [unsigned?, hplus, digits?, hempty, Bool.false_or, Option.filter_eq_some_iff, decide_eq_true_eq]
  cases hall : cs.all ok with
  | true =>
    constructor
    · rintro ⟨hk, hle⟩
      obtain rfl := Option.some.inj hk
      exact ⟨rfl, hle, rfl⟩
    · rintro ⟨-, hle, rfl⟩
      exact ⟨rfl, hle⟩
  | false => exact ⟨fun h => absurd h.1 (Option.some_ne_none k).symm, fun h => absurd h.1 Bool.false_ne_true⟩

/-! ### Runs of digits -/

/-- A run of digits of any script. -/
@[ext] structure DigitRun where
  digits : List Char
  nonempty : digits ≠ []
  all_isDigit : digits.all isDigit = true

namespace DigitRun
variable (n : DigitRun)

theorem head_ne {c : Char} (h : isDigit c = false) (cs : List Char) : n.digits ≠ c :: cs := fun heq => by
  have hdigit := List.all_eq_true.mp n.all_isDigit c (heq ▸ List.mem_cons_self)
  rw [h] at hdigit
  cases hdigit

theorem dropPlus_eq : dropPlus n.digits = n.digits :=
  dropPlus.eq_2 _ fun cs => n.head_ne (by decide) cs

theorem digits?_eq : digits? Char.isDigit 10 n.digits =
    if n.digits.all Char.isDigit = true then some (valueOf 10 n.digits) else none := by
  have hempty : n.digits.isEmpty = false := List.isEmpty_eq_false_iff.mpr n.nonempty
  rw [digits?, hempty, Bool.false_or]
  cases n.digits.all Char.isDigit <;> rfl

theorem word?_eq_some {k : Nat} :
    word? n.digits = some k ↔ n.digits.all Char.isDigit = true ∧ valueOf 10 n.digits ≤ maxWord ∧ valueOf 10 n.digits = k :=
  unsigned?_eq_some n.nonempty n.dropPlus_eq

theorem longWord?_eq_some {k : Nat} :
    longWord? n.digits = some k ↔ n.digits.all Char.isDigit = true ∧ valueOf 10 n.digits ≤ maxLongWord ∧ valueOf 10 n.digits = k :=
  unsigned?_eq_some n.nonempty n.dropPlus_eq

theorem integer?_eq_some {k : Int} :
    integer? n.digits = some k ↔
      n.digits.all Char.isDigit = true ∧ (valueOf 10 n.digits : Int) ≤ maxInteger ∧ (valueOf 10 n.digits : Int) = k := by
  have hsign : integer? n.digits = (digits? Char.isDigit 10 (dropPlus n.digits)).bind fun k => fitInteger? k :=
    integer?.eq_2 _ fun cs => n.head_ne (by decide) cs
  rw [hsign, n.dropPlus_eq, n.digits?_eq]
  split
  · rename_i hascii
    rw [Option.bind_some, fitInteger?_eq_some]
    have hmin : minInteger ≤ (valueOf 10 n.digits : Int) := by simp only [minInteger]; omega
    exact ⟨fun ⟨hk, _, hle⟩ => ⟨hascii, hle, hk⟩, fun ⟨_, hle, hk⟩ => ⟨hk, hmin, hle⟩⟩
  · rename_i hascii
    exact ⟨fun h => absurd h (Option.some_ne_none k).symm, fun h => absurd h.1 hascii⟩

theorem integer?_minus_eq_some {k : Int} :
    integer? ('-' :: n.digits) = some k ↔
      n.digits.all Char.isDigit = true ∧ minInteger ≤ -(valueOf 10 n.digits : Int) ∧ -(valueOf 10 n.digits : Int) = k := by
  rw [integer?, n.digits?_eq]
  split
  · rename_i hascii
    rw [Option.bind_some, fitInteger?_eq_some]
    have hmax : -(valueOf 10 n.digits : Int) ≤ maxInteger := by simp only [maxInteger]; omega
    exact ⟨fun ⟨hk, hle, _⟩ => ⟨hascii, hle, hk⟩, fun ⟨_, hle, hk⟩ => ⟨hk, hle, hmax⟩⟩
  · rename_i hascii
    exact ⟨fun h => absurd h (Option.some_ne_none k).symm, fun h => absurd h.1 hascii⟩

end DigitRun

/-! ### Numerals -/

/-- A decimal numeral up to a limit. -/
structure Numeral (limit : Nat) where
  digits : List Char
  nonempty : digits ≠ []
  ascii : digits.all Char.isDigit = true
  fits : valueOf 10 digits ≤ limit

namespace Numeral
variable {limit : Nat} (n : Numeral limit)

def value : Nat := valueOf 10 n.digits

/-! ### Its characters -/

theorem not_mem {c : Char} (h : c.isDigit = false) : c ∉ n.digits := fun hc => by
  rw [List.all_eq_true.mp n.ascii c hc] at h
  cases h

theorem all_isDigit : n.digits.all isDigit = true :=
  List.all_eq_true.mpr fun c hc => isDigit_of_ascii (List.all_eq_true.mp n.ascii c hc)

theorem all_not_isBlank : n.digits.all (fun c => !isBlank c) = true :=
  List.all_eq_true.mpr fun c hc => by
    rw [not_isBlank_of_isDigit (List.all_eq_true.mp n.all_isDigit c hc)]
    rfl

theorem words_eq : words n.digits = [n.digits] := by
  have hsplit := @splitWords_append n.digits [] n.all_not_isBlank
  have hempty : n.digits.isEmpty = false := List.isEmpty_eq_false_iff.mpr n.nonempty
  simp only [List.append_nil] at hsplit
  simp [words, hsplit, splitWords, consWord, hempty]

/-! ### Its value -/

def run : DigitRun := ⟨n.digits, n.nonempty, n.all_isDigit⟩

theorem digits?_eq : digits? Char.isDigit 10 n.digits = some n.value := n.run.digits?_eq.trans (if_pos n.ascii)

theorem head_ne {c : Char} (h : c.isDigit = false) (cs : List Char) : n.digits ≠ c :: cs := fun heq =>
  n.not_mem h (heq ▸ List.mem_cons_self)

theorem dropPlus_eq : dropPlus n.digits = n.digits := n.run.dropPlus_eq

theorem word?_eq (n : Numeral maxWord) : word? n.digits = some n.value := n.run.word?_eq_some.mpr ⟨n.ascii, n.fits, rfl⟩

/-! ### The numeral of a number -/

/-- The digits of a number, or of the limit if the number is beyond it. -/
def ofNat (n : Nat) : Numeral limit where
  digits := Nat.toDigits 10 (min n limit)
  nonempty := Nat.toDigits_ne_nil
  ascii := List.all_eq_true.mpr fun _ hc => Nat.isDigit_of_mem_toDigits (by decide) (by decide) hc
  fits := by
    rw [valueOf_toDigits]
    exact Nat.min_le_right n limit

instance (k : Nat) : OfNat (Numeral limit) k := ⟨ofNat k⟩

end Numeral
end SpriteFacts.Text
