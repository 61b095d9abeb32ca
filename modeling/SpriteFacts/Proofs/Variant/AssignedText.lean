import SpriteFacts.Proofs.Expression.FrameCycle
import SpriteFacts.Proofs.Pattern.Language
import SpriteFacts.Proofs.Variant.IdentityRemap

/-! A text assigned to a variable. A pattern that reads the variable, the sign and then the texts of a language is found in such
    an assignment exactly if the assigned text begins with a text of the language, and keeps what is kept of that text. -/

namespace SpriteFacts

open Text Pattern

/-- Code that assigns a text to a variable, with the blanks around the variable and its sign. -/
structure AssignedText where
  lead : Gap
  beforeSign : Gap
  afterSign : Gap
  ending : List Char
  unassigning : '=' ∉ ending
  head : ending.head?.all (fun c => !isBlank c) = true

namespace AssignedText
variable (a : AssignedText)

/-- The assignment to a variable. -/
def text (v : String) : List Char :=
  a.lead.text ++ (v.toList ++ (a.beforeSign.text ++ '=' :: (a.afterSign.text ++ a.ending)))

theorem sign_not_mem : '=' ∉ a.afterSign.text ++ a.ending := by
  simp (disch := decide) [Gap.not_mem, a.unassigning]

section Find
variable {a : AssignedText} {v : String} {q : Pattern} {L : TextLanguage} {m : Match} (hv : Switch.IsName v.toList)

include hv

/-- What is found is read at the beginning of the assigned text. -/
theorem exists_of_find? (hq : Unblank q) (hreads : Reads q L)
    (h : (spaced [wordStart v, char '=', q]).find? (a.text v) = some m) :
    ∃ t rest, a.ending = t ++ rest ∧ L t m.kept := by
  have hhead := Remap.isWord_head hv
  have hsign : Needs '=' (spaced [wordStart v, char '=', q]) := by simp [spaced, Pattern.char, Needs]
  obtain ⟨r, hr, rfl⟩ := read?_of_find? (begins_wordStart hhead).seq (List.forall_mem_singleton.mpr hhead) hsign hv.2
    a.sign_not_mem h
  obtain ⟨last, b, hb, hkept, -⟩ := exists_of_mem_assigned (fun _ ha => eq_of_mem_wordStart hhead ha) hq a.head (mem_of_read? hr)
  obtain ⟨hsplit, hlanguage⟩ := (hreads _ _ _).mp hb
  refine ⟨b.text, b.rest, hsplit, ?_⟩
  rw [Reading.toMatch, hkept, List.append_nil]
  exact hlanguage

/-- An assigned text that begins with a text of the language is found. -/
theorem exists_find? (hreads : Reads q L) {t rest : List Char} {kept : List (Nat × List Char)} (hending : a.ending = t ++ rest)
    (ht : L t kept) : ∃ m, (spaced [wordStart v, char '=', q]).find? (a.text v) = some m := by
  have hlead : (lastOf none a.lead.text).any isWord = false := outside_of_blank a.lead.blank none rfl
  rw [← find?_congr (readings_assignTo v q), text, hending]
  exact exists_find?_assignTo (Remap.isWord_head hv) hreads hlead ht

/-- Where all texts of the language at the beginning keep the same, the match keeps it. -/
theorem exists_find?_kept (hq : Unblank q) (hreads : Reads q L) {t rest : List Char} {kept : List (Nat × List Char)}
    (hending : a.ending = t ++ rest) (ht : L t kept)
    (unique : ∀ u rest' kept', a.ending = u ++ rest' → L u kept' → kept' = kept) :
    ∃ m, (spaced [wordStart v, char '=', q]).find? (a.text v) = some m ∧ m.kept = kept := by
  obtain ⟨m, hm⟩ := exists_find? hv hreads hending ht
  obtain ⟨u, rest', hsplit, hu⟩ := exists_of_find? hv hq hreads hm
  exact ⟨m, hm, unique u rest' _ hsplit hu⟩

/-- An assigned text that begins with no text of the language is not found. -/
theorem find?_eq_none (hq : Unblank q) (hreads : Reads q L) (h : ∀ t rest kept, a.ending = t ++ rest → ¬L t kept) :
    (spaced [wordStart v, char '=', q]).find? (a.text v) = none := by
  rw [Option.eq_none_iff_forall_ne_some]
  intro m hm
  obtain ⟨t, rest, hsplit, ht⟩ := exists_of_find? hv hq hreads hm
  exact h t rest _ hsplit ht

end Find
end AssignedText
end SpriteFacts
