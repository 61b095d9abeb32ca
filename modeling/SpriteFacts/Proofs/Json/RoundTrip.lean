import Mathlib.Tactic.SplitIfs
import SpriteFacts.Json.Print
import SpriteFacts.Proofs.Json.Reader
import SpriteFacts.Proofs.Text.Numeral

/-! Printed JSON reads back. Wherever a value is expected, the reader takes the print of a value to that value, whatever
    lists and objects are around it, as long as no digit follows. -/

namespace SpriteFacts.Json

open Text

namespace Reader
variable {r : Reader} {frames : List Frame} {c : Char} {cs rest : List Char}

theorem run_cons (r : Reader) (c : Char) (cs : List Char) : run r (c :: cs) = (step r c).bind (run · cs) := rfl

theorem run_cons_of_step {r' : Reader} (h : step r c = some r') (cs : List Char) : run r (c :: cs) = run r' cs := by
  rw [run_cons, h]
  rfl

/-! ### Blanks between the parts -/

theorem run_newline (h : ∀ c, isSpace c = true → step r c = some r) (level : Nat) (rest : List Char) :
    run r (newline level ++ rest) = run r rest := by
  have hspaces : ∀ n, run r (List.replicate n ' ' ++ rest) = run r rest := by
    intro n
    induction n with
    | zero => rfl
    | succ n ih =>
      rw [List.replicate_succ, List.cons_append, run_cons_of_step (h ' ' rfl), ih]
  rw [newline, List.cons_append, run_cons_of_step (h '\n' rfl), hspaces]

theorem step_value (h : isSpace c = true) : step ⟨.value, frames⟩ c = some ⟨.value, frames⟩ := if_pos h

theorem step_firstItem (h : isSpace c = true) : step ⟨.firstItem, frames⟩ c = some ⟨.firstItem, frames⟩ := if_pos h

theorem step_firstKey (h : isSpace c = true) : step ⟨.firstKey, frames⟩ c = some ⟨.firstKey, frames⟩ := if_pos h

theorem step_key {read : List (String × Json)} (h : isSpace c = true) : step ⟨.key read, frames⟩ c = some ⟨.key read, frames⟩ :=
  if_pos h

theorem step_done {v : Json} (h : isSpace c = true) : step ⟨.done v, frames⟩ c = some ⟨.done v, frames⟩ := if_pos h

/-! ### Strings -/

theorem hexDigit_spec (n : Nat) : isHexDigit (hexDigit n) = true ∧ digitValue (hexDigit n) = n % 16 := by
  have hall : ∀ d : Fin 16, isHexDigit (Nat.digitChar d) = true ∧ digitValue (Nat.digitChar d) = d := by decide
  exact hall ⟨n % 16, Nat.mod_lt n (by decide)⟩

/-- Two hexadecimal digits give the character that they number. -/
theorem run_unit (members : Option (List (String × Json))) (chars : List Char) {n : Nat} (hn : n < 256) (rest : List Char) :
    run ⟨.text members chars (.unit none 2 0), frames⟩ (hexDigit (n / 16) :: hexDigit n :: rest) =
      run ⟨.text members (Char.ofNat n :: chars) .plain, frames⟩ rest := by
  have hhigh : step ⟨.text members chars (.unit none 2 0), frames⟩ (hexDigit (n / 16)) =
      some ⟨.text members chars (.unit none 3 (n / 16)), frames⟩ := by
    have hmod : n / 16 % 16 = n / 16 := Nat.mod_eq_of_lt (by omega)
    simp [step, inText, hexDigit_spec, hmod]
  have hlow : step ⟨.text members chars (.unit none 3 (n / 16)), frames⟩ (hexDigit n) =
      some ⟨.text members (Char.ofNat n :: chars) .plain, frames⟩ := by
    have hsum : n / 16 * 16 + n % 16 = n := by omega
    have hfirst : ¬0xd800 ≤ n := by omega
    have hsecond : ¬0xdc00 ≤ n := by omega
    simp [step, inText, hexDigit_spec, hsum, closeUnit, hfirst, hsecond]
  rw [run_cons_of_step hhigh, run_cons_of_step hlow]

/-- The escape of a character reads as the character. -/
theorem run_escape (members : Option (List (String × Json))) (chars : List Char) (c : Char) (rest : List Char) :
    run ⟨.text members chars .plain, frames⟩ (escape c ++ rest) = run ⟨.text members (c :: chars) .plain, frames⟩ rest := by
  unfold escape
  split_ifs with h1 h2 h3 h4 h5 h6 h7 h8
  · subst h1; rfl
  · subst h2; rfl
  · subst h3; rfl
  · subst h4; rfl
  · subst h5; rfl
  · subst h6; rfl
  · subst h7; rfl
  · have hzeros : run ⟨.text members chars .plain, frames⟩
        (['\\', 'u', '0', '0', hexDigit (c.toNat / 16), hexDigit c.toNat] ++ rest) =
          run ⟨.text members chars (.unit none 2 0), frames⟩ (hexDigit (c.toNat / 16) :: hexDigit c.toNat :: rest) := rfl
    have hsmall : c.toNat < 256 := Nat.lt_trans h8 (by decide)
    rw [hzeros, run_unit members chars hsmall, Char.ofNat_toNat c]
  · have hstep : step ⟨.text members chars .plain, frames⟩ c = some ⟨.text members (c :: chars) .plain, frames⟩ := by
      simp [step, inText, h1, h2, h8]
    exact run_cons_of_step hstep rest

theorem run_quoted (members : Option (List (String × Json))) (cs rest : List Char) :
    run ⟨.text members [] .plain, frames⟩ (cs.flatMap escape ++ '"' :: rest) = run (closeText members cs.reverse frames) rest := by
  have hchars : ∀ chars, run ⟨.text members chars .plain, frames⟩ (cs.flatMap escape ++ '"' :: rest) =
      run (closeText members (cs.reverse ++ chars) frames) rest := by
    induction cs with
    | nil => exact fun chars => rfl
    | cons c cs ih =>
      intro chars
      rw [List.flatMap_cons, List.append_assoc, run_escape, ih, List.reverse_cons, List.append_assoc]
      rfl
  rw [hchars, List.append_nil]

theorem run_str (s : String) (rest : List Char) :
    run ⟨.value, frames⟩ (quoted s.toList ++ rest) = run ⟨.done (.str s), frames⟩ rest := by
  have hopen : step ⟨.value, frames⟩ '"' = some ⟨.text none [] .plain, frames⟩ := rfl
  rw [quoted, List.cons_append, List.append_assoc, List.singleton_append, run_cons_of_step hopen, run_quoted, closeText,
    List.reverse_reverse, String.ofList_toList]

/-! ### Numbers -/

theorem step_digit {negative : Bool} {value : Option Nat} (hvalue : value ≠ some 0) {d : Nat} (hd : d < 10) :
    step ⟨.number negative value, frames⟩ d.digitChar = some ⟨.number negative (some (value.getD 0 * 10 + d)), frames⟩ := by
  have hdigit : d.digitChar.isDigit = true := by rw [Nat.isDigit_digitChar, decide_eq_true hd]
  simp [step, hdigit, hvalue, digitValue_digitChar hd]

/-- The digits of a number read as the number. -/
theorem run_digits (frames : List Frame) (negative : Bool) (n : Nat) (rest : List Char) :
    run ⟨.number negative none, frames⟩ (Nat.toDigits 10 n ++ rest) = run ⟨.number negative (some n), frames⟩ rest := by
  induction n using Nat.strongRecOn generalizing rest with
  | ind n ih =>
    by_cases hn : n < 10
    · rw [Nat.toDigits_of_lt_base hn, List.singleton_append, run_cons_of_step (step_digit (by simp) hn)]
      simp
    · have hten : 10 ≤ n := Nat.le_of_not_lt hn
      have hlast : step ⟨.number negative (some (n / 10)), frames⟩ (n % 10).digitChar = some ⟨.number negative (some n), frames⟩ := by
        rw [step_digit (by simp; omega) (Nat.mod_lt n (by decide))]
        simp; omega
      rw [Nat.toDigits_of_base_le (by decide) hten, List.append_assoc, ih (n / 10) (by omega), List.singleton_append,
        run_cons_of_step hlast]

/-- What follows a value does not go on with it. -/
def Ends (rest : List Char) : Prop := ∃ c cs, rest = c :: cs ∧ c.isDigit = false

theorem run_number {negative : Bool} {n : Nat} (h : Ends rest) :
    run ⟨.number negative (some n), frames⟩ rest = run ⟨.done (signed negative n), frames⟩ rest := by
  obtain ⟨c, cs, rfl, hc⟩ := h
  have hstep : step ⟨.number negative (some n), frames⟩ c = step ⟨.done (signed negative n), frames⟩ c := by
    simp [step, hc]
  rw [run_cons, run_cons, hstep]

/-- A number may begin where a value is expected. -/
theorem step_value_digit (h : c.isDigit = true) : step ⟨.value, frames⟩ c = step ⟨.number false none, frames⟩ c := by
  have hne : ∀ d : Char, d.isDigit = false → c ≠ d := by
    rintro d hd rfl
    rw [h] at hd
    cases hd
  have hspace : isSpace c = false := by simp [isSpace, hne]
  simp [step, begin, hspace, h, hne]

theorem toList_ofNat (n : Nat) : (toString (Int.ofNat n)).toList = Nat.toDigits 10 n := Nat.toList_repr

theorem toList_negSucc (n : Nat) : (toString (Int.negSucc n)).toList = '-' :: Nat.toDigits 10 (n + 1) := by
  rw [Int.toString_eq_repr, Int.repr, String.toList_append, Nat.toList_repr]
  rfl

theorem toDigits_head (n : Nat) : ∃ d ds, Nat.toDigits 10 n = d :: ds ∧ d.isDigit = true := by
  cases hds : Nat.toDigits 10 n with
  | nil => exact absurd hds Nat.toDigits_ne_nil
  | cons d ds => exact ⟨d, ds, rfl, Nat.isDigit_of_mem_toDigits (by decide) (by decide) (hds ▸ List.mem_cons_self)⟩

/-- The reader is within the digits of a number when its text ends. -/
theorem run_toString (frames : List Frame) (n : Int) (rest : List Char) : ∃ negative value, signed negative value = .int n ∧
    run ⟨.value, frames⟩ ((toString n).toList ++ rest) = run ⟨.number negative (some value), frames⟩ rest := by
  cases n with
  | ofNat n =>
    refine ⟨false, n, rfl, ?_⟩
    obtain ⟨d, ds, hds, hd⟩ := toDigits_head n
    have hnumber := run_digits frames false n rest
    rw [hds, List.cons_append, run_cons, ← step_value_digit hd] at hnumber
    rw [toList_ofNat, hds, List.cons_append, run_cons, hnumber]
  | negSucc n =>
    have hsign : step ⟨.value, frames⟩ '-' = some ⟨.number true none, frames⟩ := rfl
    exact ⟨true, n + 1, rfl, by rw [toList_negSucc, List.cons_append, run_cons_of_step hsign, run_digits]⟩

theorem run_int (n : Int) (h : Ends rest) :
    run ⟨.value, frames⟩ ((toString n).toList ++ rest) = run ⟨.done (.int n), frames⟩ rest := by
  obtain ⟨negative, value, hn, hrun⟩ := run_toString frames n rest
  rw [hrun, run_number h, hn]

/-! ### Lists and objects -/

theorem ends_printItems (level : Nat) (vs : List Json) (rest : List Char) : Ends (printItems level vs ++ rest) := by
  cases vs with
  | nil => exact ⟨'\n', _, rfl, rfl⟩
  | cons v vs => exact ⟨',', _, rfl, rfl⟩

theorem ends_printMembers (level : Nat) (ms : List (String × Json)) (rest : List Char) : Ends (printMembers level ms ++ rest) := by
  cases ms with
  | nil => exact ⟨'\n', _, rfl, rfl⟩
  | cons m ms => exact ⟨',', _, rfl, rfl⟩

/-- A value begins with no blank and with no bracket that closes a list. -/
theorem print_head (level : Nat) (v : Json) : ∃ c cs, print level v = c :: cs ∧ isSpace c = false ∧ c ≠ ']' := by
  cases v with
  | null => exact ⟨_, _, rfl, by decide, by decide⟩
  | bool b => cases b <;> exact ⟨_, _, rfl, by decide, by decide⟩
  | str s => exact ⟨_, _, rfl, by decide, by decide⟩
  | arr vs => cases vs <;> exact ⟨_, _, rfl, by decide, by decide⟩
  | obj ms => cases ms <;> exact ⟨_, _, rfl, by decide, by decide⟩
  | int n =>
    cases n with
    | negSucc n => exact ⟨_, _, toList_negSucc n, by decide, by decide⟩
    | ofNat n =>
      obtain ⟨d, ds, hds, hd⟩ := toDigits_head n
      have hne : ∀ c : Char, c.isDigit = false → d ≠ c := by
        rintro c hc rfl
        rw [hd] at hc
        cases hc
      exact ⟨d, ds, (toList_ofNat n).trans hds, by simp [isSpace, hne], hne ']' rfl⟩

/-- A list that does not end at once begins with an item. -/
theorem run_firstItem (level : Nat) (v : Json) (rest : List Char) :
    run ⟨.firstItem, frames⟩ (print level v ++ rest) = run ⟨.value, .items [] :: frames⟩ (print level v ++ rest) := by
  obtain ⟨c, cs, hprint, hspace, hbracket⟩ := print_head level v
  have hstep : step ⟨.firstItem, frames⟩ c = step ⟨.value, .items [] :: frames⟩ c := by
    simp [step, hspace, hbracket]
  rw [hprint, List.cons_append, run_cons, run_cons, hstep]

/-- A key is read up to the value behind it. -/
theorem run_key {read : List (String × Json)} (h : step r '"' = some ⟨.text (some read) [] .plain, frames⟩) (key : String)
    (rest : List Char) : run r (quoted key.toList ++ ':' :: ' ' :: rest) = run ⟨.value, .members read key :: frames⟩ rest := by
  have hcolon : run ⟨.colon read key, frames⟩ (':' :: ' ' :: rest) = run ⟨.value, .members read key :: frames⟩ rest := rfl
  rw [quoted, List.cons_append, List.append_assoc, List.singleton_append, run_cons_of_step h, run_quoted, closeText,
    List.reverse_reverse, String.ofList_toList, hcolon]

mutual

/-- Where a value is expected, the print of a value reads as the value. Only a number could go on behind its print. -/
theorem run_print (v : Json) (level : Nat) (frames : List Frame) (rest : List Char) (h : ∀ n, v = .int n → Ends rest) :
    run ⟨.value, frames⟩ (print level v ++ rest) = run ⟨.done v, frames⟩ rest := by
  match v with
  | .null | .bool true | .bool false | .arr [] | .obj [] => rfl
  | .int n => exact run_int n (h n rfl)
  | .str s => exact run_str s rest
  | .arr (v :: vs) =>
    have hopen : step ⟨.value, frames⟩ '[' = some ⟨.firstItem, frames⟩ := rfl
    rw [print, List.cons_append, List.append_assoc, List.append_assoc, run_cons_of_step hopen,
      run_newline fun c => step_firstItem, run_firstItem, run_print v _ _ _ (fun _ _ => ends_printItems level vs rest),
      run_printItems]
    rfl
  | .obj ((key, v) :: ms) =>
    have hopen : step ⟨.value, frames⟩ '\x7b' = some ⟨.firstKey, frames⟩ := rfl
    have hquote : step ⟨.firstKey, frames⟩ '"' = some ⟨.text (some []) [] .plain, frames⟩ := rfl
    simp only [print, List.cons_append, List.append_assoc, List.nil_append]
    rw [run_cons_of_step hopen, run_newline fun c => step_firstKey, run_key hquote,
      run_print v _ _ _ (fun _ _ => ends_printMembers level ms rest), run_printMembers]
    rfl

theorem run_printItems (vs : List Json) (level : Nat) (frames : List Frame) (read : List Json) (v : Json) (rest : List Char) :
    run ⟨.done v, .items read :: frames⟩ (printItems level vs ++ rest) =
      run ⟨.done (.arr ((v :: read).reverse ++ vs)), frames⟩ rest := by
  match vs with
  | [] =>
    have hclose : step ⟨.done v, .items read :: frames⟩ ']' = some ⟨.done (.arr (v :: read).reverse), frames⟩ := rfl
    rw [printItems, List.append_assoc, run_newline fun c => step_done, List.singleton_append, run_cons_of_step hclose,
      List.append_nil]
  | w :: vs =>
    have hcomma : step ⟨.done v, .items read :: frames⟩ ',' = some ⟨.value, .items (v :: read) :: frames⟩ := rfl
    rw [printItems, List.cons_append, List.append_assoc, List.append_assoc, run_cons_of_step hcomma,
      run_newline fun c => step_value, run_print w _ _ _ (fun _ _ => ends_printItems level vs rest), run_printItems]
    simp

theorem run_printMembers (ms : List (String × Json)) (level : Nat) (frames : List Frame) (read : List (String × Json))
    (key : String) (v : Json) (rest : List Char) :
    run ⟨.done v, .members read key :: frames⟩ (printMembers level ms ++ rest) =
      run ⟨.done (.obj (((key, v) :: read).reverse ++ ms)), frames⟩ rest := by
  match ms with
  | [] =>
    have hclose : step ⟨.done v, .members read key :: frames⟩ '\x7d' = some ⟨.done (.obj ((key, v) :: read).reverse), frames⟩ := rfl
    rw [printMembers, List.append_assoc, run_newline fun c => step_done, List.singleton_append, run_cons_of_step hclose,
      List.append_nil]
  | (next, w) :: ms =>
    have hcomma : step ⟨.done v, .members read key :: frames⟩ ',' = some ⟨.key ((key, v) :: read), frames⟩ := rfl
    have hquote : step ⟨.key ((key, v) :: read), frames⟩ '"' = some ⟨.text (some ((key, v) :: read)) [] .plain, frames⟩ := rfl
    simp only [printMembers, List.cons_append, List.append_assoc, List.nil_append]
    rw [run_cons_of_step hcomma, run_newline fun c => step_key, run_key hquote,
      run_print w _ _ _ (fun _ _ => ends_printMembers level ms rest), run_printMembers]
    simp

end

end Reader

/-- The print of an object ends with its bracket. -/
theorem getLast?_print_obj (level : Nat) (ms : List (String × Json)) : (print level (.obj ms)).getLast? = some '\x7d' := by
  have hmembers : ∀ ms, ∃ front, printMembers level ms = front ++ ['\x7d'] := by
    intro ms
    induction ms with
    | nil => exact ⟨newline level, by rw [printMembers]⟩
    | cons m ms ih =>
      obtain ⟨front, hfront⟩ := ih
      obtain ⟨key, v⟩ := m
      refine ⟨',' :: (newline (level + 1) ++ quoted key.toList ++ [':', ' '] ++ print (level + 1) v ++ front), ?_⟩
      simp only [printMembers, hfront, List.cons_append, List.append_assoc]
  cases ms with
  | nil => rw [print]; rfl
  | cons m ms =>
    obtain ⟨key, v⟩ := m
    obtain ⟨front, hfront⟩ := hmembers ms
    rw [print, hfront, ← List.append_assoc, ← List.cons_append, List.getLast?_concat]

/-- The print of a value writes that value. -/
theorem parse?_print (v : Json) (level : Nat) : parse? (print level v) = some v := by
  have hread : (∀ n, v ≠ .int n) → parse? (print level v) = some v := by
    intro hv
    have hrun := Reader.run_print v level [] [] fun n hn => absurd hn (hv n)
    rw [List.append_nil] at hrun
    rw [parse?, hrun]
    rfl
  cases v with
  | int n =>
    obtain ⟨negative, value, hn, hrun⟩ := Reader.run_toString [] n []
    rw [List.append_nil] at hrun
    rw [parse?, print, hrun, ← hn]
    rfl
  | null | bool b | str s | arr vs | obj ms => exact hread fun n h => nomatch h

/-- The newline behind a printed value is blank. -/
theorem parse?_toText (v : Json) : parse? (toText v).toList = some v := by
  have hrun := Reader.run_print v 0 [] ['\n'] fun _ _ => ⟨'\n', [], rfl, rfl⟩
  rw [toText, String.toList_ofList, parse?, hrun, Reader.run_cons_of_step (Reader.step_done rfl)]
  rfl

end SpriteFacts.Json
