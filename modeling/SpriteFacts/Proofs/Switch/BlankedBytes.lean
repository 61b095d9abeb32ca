import SpriteFacts.Proofs.Switch.LabelPlaces
import SpriteFacts.Proofs.Switch.NeutralPart
import SpriteFacts.Proofs.Text.Utf8

/-! Blanking out comments, byte for byte. The comments of a text are told by reading it once from left to right, and the search
    for them finds these and no others. Blanking changes no byte outside of them, leaves spaces and newlines inside, and
    keeps every newline in its place, so each byte of the result stands for the byte of the text at the same offset. What
    is left opens no comment: blanking is final, and it changes every text that has a comment. -/

namespace SpriteFacts.Switch

open Text Pattern

/-! ### Reading comments from left to right -/

/-- The stretches of the comments in a text that stands at a byte offset: where no comment opens the reading goes on behind
    one character, a line comment is read up to the end of its line, and a block comment up to the first place that closes it. -/
inductive CommentsFrom : Nat → List Char → List (Nat × Nat) → Prop where
  | done {n : Nat} : CommentsFrom n [] []
  | code {n : Nat} {c : Char} {cs : List Char} {spans : List (Nat × Nat)} (closed : ¬Opens (c :: cs))
      (rest : CommentsFrom (n + c.utf8Size) cs spans) : CommentsFrom n (c :: cs) spans
  | line {n : Nat} {line cs : List Char} {spans : List (Nat × Nat)} (inLine : '\n' ∉ line) (ends : ∀ c ∈ cs.head?, c = '\n')
      (rest : CommentsFrom (n + byteLength ('/' :: '/' :: line)) cs spans) :
      CommentsFrom n ('/' :: '/' :: (line ++ cs)) ((n, n + byteLength ('/' :: '/' :: line)) :: spans)
  | block {n : Nat} {inner cs : List Char} {spans : List (Nat × Nat)} (first : NoClose (inner ++ ['*']))
      (rest : CommentsFrom (n + byteLength ('/' :: '*' :: (inner ++ ['*', '/']))) cs spans) :
      CommentsFrom n ('/' :: '*' :: (inner ++ '*' :: '/' :: cs)) ((n, n + byteLength ('/' :: '*' :: (inner ++ ['*', '/']))) :: spans)

/-- The stretch of a text that a match covers. -/
def stretch (m : Match) : Nat × Nat := (m.start, m.stop)

section Comments
variable {n : Nat} {cs text : List Char} {ms : List (Mark Unit)} {spans : List (Nat × Nat)}

theorem all_ne_newline_iff : cs.all (· != '\n') = true ↔ '\n' ∉ cs := by
  rw [List.all_eq_true]
  exact ⟨fun h hmem => absurd (h _ hmem) (by decide), fun h c hc => bne_iff_ne.mpr fun heq => h (heq ▸ hc)⟩

theorem head?_newline_iff : cs.head?.all (fun c => !(c != '\n')) = true ↔ ∀ c ∈ cs.head?, c = '\n' := by
  cases cs.head? <;> simp

/-- The marks of a scan for comments are what the reading finds. -/
theorem commentsFrom_of_scan {last : Option Char} (h : Scan (fun _ : Unit => comment) last cs ms) (n : Nat) :
    CommentsFrom n cs ((Mark.matchesOf () n ms).map stretch) := by
  induction h generalizing n with
  | nil => exact .done
  | plain none _ ih => exact .code (read?_comment.mp (none ())) (ih _)
  | found here _ _ _ ih =>
    rcases read?_comment_eq_some here with ⟨line, rest, hcs, hline, hends, hr⟩ | ⟨inner, rest, hcs, hfirst, hr⟩
    · obtain ⟨rfl, -, rfl⟩ := Reading.mk.inj hr
      rw [hcs]
      exact .line (all_ne_newline_iff.mp hline) (head?_newline_iff.mp hends) (ih _)
    · obtain ⟨rfl, -, rfl⟩ := Reading.mk.inj hr
      rw [hcs]
      exact .block hfirst (ih _)

/-- What the reading finds is marked by a scan. -/
theorem CommentsFrom.exists_scan (h : CommentsFrom n cs spans) :
    ∃ ms, Commented cs ms ∧ spans = (Mark.matchesOf () n ms).map stretch := by
  induction h with
  | done => exact ⟨[], .nil fun _ => read?_comment.mpr (by rintro (⟨_, h⟩ | ⟨_, _, h⟩) <;> cases h), rfl⟩
  | code closed _ ih =>
    obtain ⟨ms, hms, rfl⟩ := ih
    exact ⟨_, .plain (fun _ => read?_comment.mpr closed) (hms.behind _), rfl⟩
  | @line n line cs spans inLine ends _ ih =>
    obtain ⟨ms, hms, rfl⟩ := ih
    have hread := read?_line (all_ne_newline_iff.mpr inLine) (head?_newline_iff.mpr ends) none
    exact ⟨_, Commented.comment (t := '/' :: '/' :: line) hread hms, rfl⟩
  | @block n inner cs spans first _ ih =>
    obtain ⟨ms, hms, rfl⟩ := ih
    have hread := read?_block first cs none
    have hsplit : '/' :: '*' :: (inner ++ '*' :: '/' :: cs) = '/' :: '*' :: (inner ++ ['*', '/']) ++ cs := by simp
    rw [hsplit] at hread ⊢
    exact ⟨_, Commented.comment hread hms, rfl⟩

/-- The search for comments finds what the reading finds, in order. -/
theorem commentsFrom_iff (text : List Char) (spans : List (Nat × Nat)) :
    CommentsFrom 0 text spans ↔ spans = (comment.findAll text).map stretch := by
  obtain ⟨ms, hms⟩ := exists_commented text
  rw [hms.findAll_eq ()]
  constructor
  · intro h
    obtain ⟨ns, hns, rfl⟩ := h.exists_scan
    rw [hms.unique hns]
  · rintro rfl
    exact commentsFrom_of_scan hms 0

end Comments

/-! ### The bytes of marks -/

section Bytes
variable {text t : List Char} {as bs ms : List (Mark Unit)} {m : Mark Unit} {i : Nat}

/-- The mark that covers a byte. -/
theorem exists_mark_at (h : i < byteLength (Mark.textOf ms)) : ∃ as m bs, ms = as ++ m :: bs ∧
    byteLength (Mark.textOf as) ≤ i ∧ i < byteLength (Mark.textOf as) + byteLength m.text := by
  induction ms generalizing i with
  | nil => exact absurd h (Nat.not_lt_zero i)
  | cons m ms ih =>
    rw [Mark.textOf_cons, byteLength_append] at h
    rcases Nat.lt_or_ge i (byteLength m.text) with hlt | hge
    · exact ⟨[], m, ms, rfl, Nat.zero_le i, by rwa [Mark.textOf_nil, byteLength_nil, Nat.zero_add]⟩
    · obtain ⟨as, k, bs, rfl, hle, hlt⟩ := @ih (i - byteLength m.text) (by omega)
      refine ⟨m :: as, k, bs, rfl, ?_, ?_⟩ <;> rw [Mark.textOf_cons, byteLength_append] <;> omega

theorem getElem?_utf8_part {front part back : List Char} (hle : byteLength front ≤ i) (hlt : i < byteLength front + byteLength part) :
    (utf8 (front ++ (part ++ back)))[i]? = (utf8 part)[i - byteLength front]? := by
  rw [utf8_append, utf8_append, List.getElem?_append_right (by rwa [length_utf8]), length_utf8,
    List.getElem?_append_left (by rw [length_utf8]; omega)]

theorem getElem?_blanked (hle : byteLength (Mark.textOf as) ≤ i) (hlt : i < byteLength (Mark.textOf as) + byteLength m.text) :
    (utf8 (blanked (as ++ m :: bs)))[i]? = (utf8 (blanked [m]))[i - byteLength (Mark.textOf as)]? := by
  have hsplit : blanked (as ++ m :: bs) = blanked as ++ (blanked [m] ++ blanked bs) := by
    simp [blanked, Mark.replaced]
  have hpart : byteLength (blanked [m]) = byteLength m.text := by
    rw [byteLength_blanked, Mark.textOf_cons, Mark.textOf_nil, List.append_nil]
  rw [← byteLength_blanked as] at hle hlt ⊢
  rw [hsplit, getElem?_utf8_part hle (by rwa [hpart])]

/-- Blanked characters hold spaces and newlines only. -/
theorem mem_utf8_blankOut {b : UInt8} (h : b ∈ utf8 (t.flatMap blankOut)) : b = asciiByte ' ' ∨ b = newlineByte := by
  obtain ⟨c, hc, hb⟩ := List.mem_flatMap.mp h
  obtain ⟨d, -, hd⟩ := List.mem_flatMap.mp hc
  rcases mem_blankOut hd with rfl | rfl
  · exact Or.inr (List.mem_singleton.mp hb)
  · exact Or.inl (List.mem_singleton.mp hb)

/-- The question whether a byte is a newline. -/
def isNewline (b : UInt8) : Bool := b == newlineByte

theorem newlines_of_ne {c : Char} (h : c ≠ '\n') : (String.utf8EncodeChar c).map isNewline = List.replicate c.utf8Size false := by
  rw [List.eq_replicate_iff, List.length_map, String.length_utf8EncodeChar]
  refine ⟨rfl, fun b hb => ?_⟩
  obtain ⟨x, hx, rfl⟩ := List.mem_map.mp hb
  have hnone : newlineByte ∉ String.utf8EncodeChar c := byte_not_mem (by decide) h
  exact beq_eq_false_iff_ne.mpr fun heq => hnone (heq ▸ hx)

theorem newlines_blankOut (c : Char) : (utf8 (blankOut c)).map isNewline = (String.utf8EncodeChar c).map isNewline := by
  by_cases h : c = '\n'
  · subst h
    rfl
  · rw [newlines_of_ne h, blankOut, if_neg h]
    induction c.utf8Size with
    | zero => rfl
    | succ k ih => rw [List.replicate_succ, utf8_cons, List.map_append, ih]; rfl

/-- Blanking leaves every newline where it is. -/
theorem newlines_blanked (ms : List (Mark Unit)) : (utf8 (blanked ms)).map isNewline = (utf8 (Mark.textOf ms)).map isNewline := by
  have hblank : ∀ t : List Char, (utf8 (t.flatMap blankOut)).map isNewline = (utf8 t).map isNewline := fun t => by
    induction t with
    | nil => rfl
    | cons c t ih => rw [List.flatMap_cons, utf8_append, List.map_append, newlines_blankOut, ih, utf8_cons, List.map_append]
  induction ms with
  | nil => rfl
  | cons m ms ih =>
    have hms : blanked (m :: ms) = Mark.render () (fun t => t.flatMap blankOut) m ++ blanked ms := rfl
    rw [hms, Mark.textOf_cons, utf8_append, utf8_append, List.map_append, List.map_append, ih]
    cases m with
    | plain c => rfl
    | found i t kept => rw [render_found, hblank]; rfl

/-- Outside of the comments a byte stays as it is, since the mark that covers it is a character of the code. -/
theorem getElem?_outside (h : Commented text ms) (hout : OutsideComments text i (i + 1)) :
    (utf8 (blanked ms))[i]? = (utf8 text)[i]? := by
  rw [← h.textOf_eq]
  rcases Nat.lt_or_ge i (byteLength (Mark.textOf ms)) with hlt | hge
  · obtain ⟨as, m, bs, rfl, hle, hlt⟩ := exists_mark_at hlt
    rw [getElem?_blanked hle hlt, Mark.textOf_append, Mark.textOf_cons, getElem?_utf8_part hle hlt]
    cases m with
    | plain c => rfl
    | found j t kept =>
      have hm := hout _ (by rw [h.findAll_eq ()]; exact Mark.mem_matchesOf_iff.mpr ⟨as, t, kept, bs, rfl, rfl⟩)
      have htext : (Mark.found j t kept).text = t := rfl
      rw [htext] at hlt
      simp only [Nat.zero_add] at hm
      omega
  · rw [List.getElem?_eq_none (by rw [length_utf8, byteLength_blanked]; exact hge),
      List.getElem?_eq_none (by rw [length_utf8]; exact hge)]

/-- Inside of a comment a byte is a space or a newline. -/
theorem getElem?_inside (h : Commented text ms) (hin : ¬OutsideComments text i (i + 1)) :
    (utf8 (blanked ms))[i]? = some (asciiByte ' ') ∨ (utf8 (blanked ms))[i]? = some newlineByte := by
  simp only [OutsideComments, Classical.not_forall, not_or] at hin
  obtain ⟨k, hk, hstop, hstart⟩ := hin
  rw [h.findAll_eq ()] at hk
  obtain ⟨as, t, kept, bs, rfl, rfl⟩ := Mark.mem_matchesOf_iff.mp hk
  simp only [Nat.zero_add] at hstop hstart
  have hle : byteLength (Mark.textOf as) ≤ i := by omega
  have hlt : i < byteLength (Mark.textOf as) + byteLength (Mark.text (.found () t kept)) := by
    show i < byteLength (Mark.textOf as) + byteLength t
    omega
  have hblank : blanked [.found () t kept] = t.flatMap blankOut := by
    simp [blanked, Mark.replaced, render_found]
  have hlength : i - byteLength (Mark.textOf as) < (utf8 (t.flatMap blankOut)).length := by
    rw [length_utf8, byteLength_flatMap_blankOut]
    omega
  rw [getElem?_blanked hle hlt, hblank, List.getElem?_eq_getElem hlength, Option.some.injEq, Option.some.injEq]
  exact mem_utf8_blankOut (List.getElem_mem hlength)

end Bytes

/-! ### The main result -/

/-- The text is blanked out where it has comments and nowhere else, and no byte has moved. -/
structure BlanksOut (text out : List Char) : Prop where
  length : (utf8 out).length = (utf8 text).length
  newline : ∀ i : Nat, (utf8 out)[i]? = some newlineByte ↔ (utf8 text)[i]? = some newlineByte
  outside : ∀ i : Nat, OutsideComments text i (i + 1) → (utf8 out)[i]? = (utf8 text)[i]?
  inside : ∀ i : Nat, ¬OutsideComments text i (i + 1) → (utf8 out)[i]? = some (asciiByte ' ') ∨ (utf8 out)[i]? = some newlineByte
  free : CommentFree out

theorem blanksOut_withoutComments (text : List Char) : BlanksOut text (withoutComments text) := by
  obtain ⟨ms, hms⟩ := exists_commented text
  have heq : withoutComments text = blanked ms := hms.withoutComments_eq
  have hnewline : ∀ (bytes : List UInt8) (i : Nat), bytes[i]? = some newlineByte ↔ (bytes.map isNewline)[i]? = some true :=
    fun bytes i => by rw [List.getElem?_map, Option.map_eq_some_iff]; simp [isNewline]
  refine ⟨?_, fun i => ?_, fun i hout => ?_, fun i hin => ?_, commentFree_withoutComments text⟩
  · rw [length_utf8, length_utf8, byteLength_withoutComments]
  · rw [hnewline, hnewline, heq, newlines_blanked, hms.textOf_eq]
  · rw [heq, getElem?_outside hms hout]
  · rw [heq]
    exact getElem?_inside hms hin

/-- Blanking out comments blanks out what a reading from left to right finds as comments and nothing else, keeps the length
    and the place of every newline, is done after one time, and leaves a text as it is if and only if it has no comment. -/
theorem blanking_final (text : List Char) :
    (∀ spans, CommentsFrom 0 text spans ↔ spans = (comment.findAll text).map stretch) ∧
      BlanksOut text (withoutComments text) ∧
      withoutComments (withoutComments text) = withoutComments text ∧
      (withoutComments text = text ↔ CommentFree text) :=
  ⟨commentsFrom_iff text, blanksOut_withoutComments text, (commentFree_withoutComments text).withoutComments_eq,
    fun h => h ▸ commentFree_withoutComments text, CommentFree.withoutComments_eq⟩

-- A line comment hides the opening of a block, `/*/` opens a block but does not close it, and a block without an end is code.
example :
    let text := "a // /* é\n/*/ b // */ c /* d".toList
    (withoutComments text, (comment.findAll text).map stretch) =
      ("a         \n            c /* d".toList, [(2, 10), (11, 22)]) := by decide +kernel

end SpriteFacts.Switch
