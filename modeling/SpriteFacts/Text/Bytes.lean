/-! Byte offsets in a text. A text is a list of characters, and every position the library reports is a
    count of bytes in UTF-8, so a cut at a byte offset has to fall between two characters. Cutting
    never loses a character: what `takeBytes` keeps and what `dropBytes` keeps are the whole text. -/

namespace SpriteFacts.Text

/-- The number of bytes that a text takes in UTF-8. -/
def byteLength : List Char → Nat
  | [] => 0
  | c :: cs => c.utf8Size + byteLength cs

/-- The characters that start before byte offset `n`. -/
def takeBytes : Nat → List Char → List Char
  | 0, _ => []
  | _ + 1, [] => []
  | n + 1, c :: cs => c :: takeBytes (n + 1 - c.utf8Size) cs

/-- The characters that start at byte offset `n` or after it. -/
def dropBytes : Nat → List Char → List Char
  | 0, cs => cs
  | _ + 1, [] => []
  | n + 1, c :: cs => dropBytes (n + 1 - c.utf8Size) cs

def slice (start stop : Nat) (cs : List Char) : List Char :=
  takeBytes (stop - start) (dropBytes start cs)

/-- Byte offset `n` lies between two characters of the text, or at one of its ends. -/
def IsBoundary (n : Nat) (cs : List Char) : Prop := ∃ before after, cs = before ++ after ∧ byteLength before = n

@[simp] theorem byteLength_nil : byteLength [] = 0 := rfl

@[simp] theorem byteLength_cons (c : Char) (cs : List Char) :
    byteLength (c :: cs) = c.utf8Size + byteLength cs := rfl

@[simp] theorem byteLength_append (as bs : List Char) :
    byteLength (as ++ bs) = byteLength as + byteLength bs := by
  induction as with
  | nil => simp
  | cons c cs ih => simp [ih, Nat.add_assoc]

@[simp] theorem dropBytes_zero (cs : List Char) : dropBytes 0 cs = cs := by
  unfold dropBytes; rfl

@[simp] theorem takeBytes_zero (cs : List Char) : takeBytes 0 cs = [] := by
  unfold takeBytes; rfl

theorem takeBytes_append_dropBytes (n : Nat) (cs : List Char) : takeBytes n cs ++ dropBytes n cs = cs := by
  induction cs generalizing n with
  | nil => cases n <;> rfl
  | cons c cs ih => cases n <;> simp [takeBytes, dropBytes, ih]

theorem dropBytes_append (as bs : List Char) : dropBytes (byteLength as) (as ++ bs) = bs := by
  induction as with
  | nil => simp
  | cons c cs ih =>
    have hc := c.utf8Size_pos
    obtain ⟨k, hk⟩ : ∃ k, c.utf8Size + byteLength cs = k + 1 := ⟨c.utf8Size + byteLength cs - 1, by omega⟩
    rw [byteLength_cons, hk, List.cons_append, dropBytes, show k + 1 - c.utf8Size = byteLength cs by omega, ih]

theorem takeBytes_append (as bs : List Char) : takeBytes (byteLength as) (as ++ bs) = as := by
  have h := takeBytes_append_dropBytes (byteLength as) (as ++ bs)
  rw [dropBytes_append] at h
  exact List.append_cancel_right h

theorem takeBytes_append_of_le {n : Nat} {as : List Char} (h : n ≤ byteLength as) (bs : List Char) :
    takeBytes n (as ++ bs) = takeBytes n as := by
  induction as generalizing n with
  | nil =>
    obtain rfl := Nat.le_zero.mp h
    rw [takeBytes_zero, takeBytes_zero]
  | cons c cs ih =>
    cases n with
    | zero => rw [takeBytes_zero, takeBytes_zero]
    | succ n =>
      rw [byteLength_cons] at h
      rw [List.cons_append, takeBytes, takeBytes, ih (by omega)]

theorem dropBytes_add (as bs : List Char) (n : Nat) : dropBytes (n + byteLength as) (as ++ bs) = dropBytes n bs := by
  induction as with
  | nil => rfl
  | cons c cs ih =>
    have hc := c.utf8Size_pos
    obtain ⟨k, hk⟩ : ∃ k, n + (c.utf8Size + byteLength cs) = k + 1 := ⟨n + (c.utf8Size + byteLength cs) - 1, by omega⟩
    rw [byteLength_cons, hk, List.cons_append, dropBytes, show k + 1 - c.utf8Size = n + byteLength cs by omega, ih]

/-- A part of a text is cut from it whatever stands behind. -/
theorem slice_append_left {start stop : Nat} {as : List Char} (hstart : IsBoundary start as)
    (hstop : stop ≤ byteLength as) (bs : List Char) : slice start stop (as ++ bs) = slice start stop as := by
  obtain ⟨before, after, rfl, rfl⟩ := hstart
  have hlen : stop - byteLength before ≤ byteLength after := by
    rw [byteLength_append] at hstop
    omega
  rw [slice, slice, List.append_assoc, dropBytes_append, dropBytes_append, takeBytes_append_of_le hlen]

/-- A part of a text is cut from it behind another text as well, further on by the length of that. -/
theorem slice_append_right (start stop : Nat) (as bs : List Char) :
    slice (start + byteLength as) (stop + byteLength as) (as ++ bs) = slice start stop bs := by
  rw [slice, slice, dropBytes_add, Nat.add_sub_add_right]

end SpriteFacts.Text
