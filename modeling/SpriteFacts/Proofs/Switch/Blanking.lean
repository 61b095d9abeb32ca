import SpriteFacts.Proofs.Pattern.Occurrence
import SpriteFacts.Proofs.Switch.CommentFree
import SpriteFacts.Proofs.Switch.FunctionHead

/-! Blanking out the comments of a whole source and of a part of it. Comments turn into blanks of the same size, so
    a character that is none stands outside of the comments and at the same place as before. Between two such
    characters the source has the same comments on its own, and so the body of a function holds the same code
    whether comments are blanked out in the source or in the body. -/

namespace SpriteFacts.Switch

open Text Pattern

/-! ### The comments of a part of a text -/

theorem blind_comment : comment.Blind := by
  simp [comment, blockComment, lineComment, literal, all, char, Blind]

theorem trims_comment : comment.Trims :=
  blind_comment.trims fun h => List.ne_nil_of_mem (needs_comment.mem (mem_of_read? h))

/-- The marks are those of a scan for comments. -/
abbrev Commented (cs : List Char) (ms : List (Mark Unit)) : Prop := Scan (fun _ => comment) none cs ms

/-- The text of the marks with their comments blanked out. -/
abbrev blanked (ms : List (Mark Unit)) : List Char := Mark.replaced () (fun t => t.flatMap blankOut) ms

theorem exists_commented (cs : List Char) : ∃ ms, Commented cs ms :=
  Scan.exists_of_apart (fun h => ⟨trims_comment.nonempty h, fun hj => absurd rfl hj⟩) none cs

section Commented
variable {cs : List Char} {as bs ms : List (Mark Unit)}

theorem Commented.withoutComments_eq (h : Commented cs ms) : withoutComments cs = blanked ms := h.replaceAll_eq () _

theorem Commented.drop (h : Commented cs (as ++ bs)) : Commented (Mark.textOf bs) bs :=
  (Scan.drop as h).behind fun _ _ => congrArg List.head? (blind_comment.readings_behind none)

theorem Commented.take (h : Commented cs (as ++ bs)) : Commented (Mark.textOf as) as :=
  Scan.take (fun _ => trims_comment) h

end Commented

/-! ### Places in a blanked text -/

theorem byteLength_blankOut (c : Char) : byteLength (blankOut c) = c.utf8Size := by
  unfold blankOut
  split
  · rename_i h
    rw [h]
    rfl
  · induction c.utf8Size with
    | zero => rfl
    | succ n ih => rw [List.replicate_succ, byteLength_cons, ih, Nat.add_comm]; rfl

theorem render_found (i : Unit) (t : List Char) (kept : List (Nat × List Char)) :
    Mark.render () (fun t => t.flatMap blankOut) (.found i t kept) = t.flatMap blankOut := by
  simp [Mark.render]

theorem byteLength_flatMap_blankOut (t : List Char) : byteLength (t.flatMap blankOut) = byteLength t := by
  induction t with
  | nil => rfl
  | cons c t ih => rw [List.flatMap_cons, byteLength_append, byteLength_blankOut, ih, byteLength_cons]

theorem byteLength_blanked (ms : List (Mark Unit)) : byteLength (blanked ms) = byteLength (Mark.textOf ms) := by
  induction ms with
  | nil => rfl
  | cons m ms ih =>
    have hms : byteLength (blanked (m :: ms)) = byteLength (Mark.render () (fun t => t.flatMap blankOut) m) +
        byteLength (blanked ms) := byteLength_append _ _
    rw [hms, ih, Mark.textOf_cons, byteLength_append]
    cases m with
    | plain c => rfl
    | found i t kept =>
      rw [render_found, byteLength_flatMap_blankOut]
      rfl

/-- Blanking out comments does not change the size of a text. -/
theorem byteLength_withoutComments (cs : List Char) : byteLength (withoutComments cs) = byteLength cs := by
  obtain ⟨ms, hms⟩ := exists_commented cs
  rw [hms.withoutComments_eq, byteLength_blanked, hms.textOf_eq]

/-- What is neither a space nor a newline in a blanked text stands outside of the comments. -/
theorem split_of_blanked {c : Char} {u v : List Char} {ms : List (Mark Unit)} (hspace : c ≠ ' ') (hline : c ≠ '\n')
    (h : blanked ms = u ++ c :: v) : ∃ as bs, ms = as ++ .plain c :: bs ∧ u = blanked as ∧ v = blanked bs := by
  obtain ⟨as, m, bs, u', v', rfl, hm, rfl, rfl⟩ := split_of_flatMap h
  cases m with
  | plain d =>
    cases u' with
    | nil =>
      obtain ⟨rfl, rfl⟩ := List.cons.inj hm
      exact ⟨as, bs, rfl, List.append_nil _, rfl⟩
    | cons e u' => simp [Mark.render] at hm
  | found i t kept =>
    have hc : c ∈ t.flatMap blankOut := by
      rw [← render_found i t kept, hm]
      exact List.mem_append_right _ List.mem_cons_self
    obtain ⟨d, -, hd⟩ := List.mem_flatMap.mp hc
    rcases mem_blankOut hd with rfl | rfl
    · exact absurd rfl hline
    · exact absurd rfl hspace

/-- A text is cut in one way at a byte offset that lies between two of its characters. -/
theorem append_inj_of_byteLength {as bs xs ys : List Char} (h : as ++ xs = bs ++ ys) (hlen : byteLength as = byteLength bs) :
    as = bs ∧ xs = ys := by
  have htake := takeBytes_append as xs
  rw [h, hlen, takeBytes_append] at htake
  subst htake
  exact ⟨rfl, List.append_cancel_left h⟩

end SpriteFacts.Switch
