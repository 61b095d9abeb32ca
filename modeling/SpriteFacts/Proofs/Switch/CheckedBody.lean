import SpriteFacts.Proofs.Switch.BalancedBody
import SpriteFacts.Proofs.Text.Slice

/-! The search for a function's body, byte by byte and with every step checked. The depth starts at the block that the
    signature opens, no closing brace takes it below zero, and the body is a slice of the source. Nothing is ever
    refused: the search finds the body that it finds unchecked. -/

namespace SpriteFacts.Switch

open Text Pattern

/-- The byte offset of the brace that closes the outermost of `depth` blocks, if there is one, in bytes that stand at `offset`. The
    search fails if the depth would fall below zero. -/
def closingBrace? : Nat → Nat → List UInt8 → Option (Option Nat)
  | _, _, [] => some none
  | depth, offset, b :: bs =>
    if b = openByte then closingBrace? (depth + 1) (offset + 1) bs
    else if b = closeByte then
      match depth with
      | 0 => none
      | 1 => some (some offset)
      | inner + 2 => closingBrace? (inner + 1) (offset + 1) bs
    else closingBrace? depth (offset + 1) bs

/-- The bytes from an offset on; none if the offset lies behind the end. -/
def bytesFrom? (offset : Nat) (cs : List Char) : Option (List UInt8) :=
  if offset ≤ (utf8 cs).length then some ((utf8 cs).drop offset) else none

/-- The body that starts at a byte offset. -/
def bodyAt? (source : List Char) (start : Nat) : Option FunctionBody := do
  let bytes ← bytesFrom? start source
  let close ← closingBrace? 1 start bytes
  let text ← slice? start (close.getD (byteLength source)) source
  some ⟨text, start, close.isSome⟩

/-- The body of a function, if the source defines it. -/
def FunctionBody.findChecked (source : List Char) (name : String) : Option (Option FunctionBody) :=
  match headStop? source name with
  | none => some none
  | some start => (bodyAt? source start).map some

/-! ### The depth -/

theorem closingBrace?_open (depth offset : Nat) (bs : List UInt8) :
    closingBrace? depth offset (openByte :: bs) = closingBrace? (depth + 1) (offset + 1) bs := by
  rw [closingBrace?.eq_def]
  exact if_pos rfl

theorem closingBrace?_cons {b : UInt8} (hopen : b ≠ openByte) (hclose : b ≠ closeByte) (depth offset : Nat) (bs : List UInt8) :
    closingBrace? depth offset (b :: bs) = closingBrace? depth (offset + 1) bs := by
  rw [closingBrace?.eq_def]
  simp only [hopen, hclose, if_false]

theorem closingBrace?_append {ts bs : List UInt8} (h : openByte ∉ ts ∧ closeByte ∉ ts) (depth offset : Nat) :
    closingBrace? depth offset (ts ++ bs) = closingBrace? depth (offset + ts.length) bs := by
  induction ts generalizing offset with
  | nil => rfl
  | cons t ts ih =>
    simp only [List.mem_cons, not_or] at h
    rw [List.cons_append, closingBrace?_cons (Ne.symm h.1.1) (Ne.symm h.2.1), ih ⟨h.1.2, h.2.2⟩, List.length_cons, Nat.add_assoc,
      Nat.add_comm 1]

/-- In front of the closing brace the depth is never zero, so the search over bytes and the one over characters agree. -/
theorem closingBrace?_utf8 (depth offset : Nat) (cs : List Char) : closingBrace? (depth + 1) offset (utf8 cs) =
    some (if (untilClosed depth cs).2 then some (offset + byteLength (untilClosed depth cs).1) else none) := by
  induction cs generalizing depth offset with
  | nil => rfl
  | cons c cs ih =>
    by_cases hopen : c = '\x7b'
    · rw [hopen, untilClosed_open, utf8_cons, utf8EncodeChar_ascii (by decide), List.singleton_append, byteLength_cons,
        ← Nat.add_assoc]
      exact (closingBrace?_open (depth + 1) offset (utf8 cs)).trans (ih (depth + 1) (offset + 1))
    · by_cases hclose : c = '\x7d'
      · rw [hclose, utf8_cons, utf8EncodeChar_ascii (by decide), List.singleton_append]
        cases depth with
        | zero => rfl
        | succ depth =>
          rw [untilClosed_close, byteLength_cons, ← Nat.add_assoc]
          exact ih depth (offset + 1)
      · rw [untilClosed_cons hopen hclose, utf8_cons,
          closingBrace?_append ⟨byte_not_mem (by decide) hopen, byte_not_mem (by decide) hclose⟩, ih, byteLength_cons,
          String.length_utf8EncodeChar, ← Nat.add_assoc]

/-! ### The body -/

theorem bytesFrom?_append (front cs : List Char) : bytesFrom? (byteLength front) (front ++ cs) = some (utf8 cs) := by
  rw [bytesFrom?, if_pos (by simp [length_utf8]), utf8_append, ← length_utf8, List.drop_left]

theorem bodyAt?_append (front cs : List Char) :
    bodyAt? (front ++ cs) (byteLength front) = some (bodyAt (front ++ cs) (byteLength front)) := by
  obtain ⟨behind, hsplit, hnested⟩ := nested_untilClosed 0 cs
  have hstop : (if (untilClosed 0 cs).2 then some (byteLength front + byteLength (untilClosed 0 cs).1) else none).getD
      (byteLength (front ++ cs)) = byteLength front + byteLength (untilClosed 0 cs).1 := by
    cases hcomplete : (untilClosed 0 cs).2 with
    | true => rfl
    | false =>
      rw [hnested.unclosed hcomplete, List.append_nil] at hsplit
      rw [← hsplit]
      exact byteLength_append front cs
  have hslice := slice?_append front (untilClosed 0 cs).1 behind
  rw [← hsplit] at hslice
  rw [bodyAt?, bytesFrom?_append, Option.bind_eq_bind, Option.bind_some, closingBrace?_utf8, Option.bind_eq_bind, Option.bind_some, hstop,
    hslice, bodyAt_append]
  cases (untilClosed 0 cs).2 <;> rfl

/-- The checked search finds what the search finds. -/
theorem FunctionBody.findChecked_eq (source : List Char) (name : String) :
    findChecked source name = some (find? source name) := by
  rw [findChecked, find?_eq_bodyAt]
  cases hstop : headStop? source name with
  | none => rfl
  | some start =>
    obtain ⟨before, behind, rfl, rfl⟩ := split_of_headStop? hstop
    have hbody := bodyAt?_append (before ++ ['\x7b']) behind
    rw [byteLength_append, List.append_assoc] at hbody
    exact congrArg (Option.map some) hbody

end SpriteFacts.Switch
