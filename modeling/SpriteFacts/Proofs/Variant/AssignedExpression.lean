import SpriteFacts.Idiom.Chain
import SpriteFacts.Proofs.Expression.Unambiguous
import SpriteFacts.Proofs.Pattern.Language
import SpriteFacts.Proofs.Pattern.Occurrence
import SpriteFacts.Proofs.Pattern.Preference

/-! A variable assigned in one statement. A pattern that begins with a word and holds the sign of an assignment matches
    nowhere but at the variable, and what it reads behind the sign begins with the assigned expression. -/

namespace SpriteFacts

open Text Pattern

/-- A text is split in one way at a character that it holds once. -/
theorem split_once {c : Char} {as bs xs ys : List Char} (has : c ∉ as) (hbs : c ∉ bs) (h : as ++ c :: bs = xs ++ c :: ys) :
    as = xs ∧ bs = ys := by
  rcases List.append_eq_append_iff.mp h with ⟨w, rfl, hw⟩ | ⟨w, rfl, hw⟩
  · cases w with
    | nil => exact ⟨(List.append_nil as).symm, (List.cons.inj hw).2⟩
    | cons d w =>
      obtain ⟨rfl, rfl⟩ := List.cons.inj hw
      exact absurd (List.mem_append_right _ List.mem_cons_self) hbs
  · cases w with
    | nil => exact ⟨List.append_nil xs, (List.cons.inj hw).2.symm⟩
    | cons d w =>
      obtain ⟨rfl, -⟩ := List.cons.inj hw
      exact absurd (List.mem_append_right _ List.mem_cons_self) has

/-- A text is split in one way at the first place of a character. -/
theorem split_first {c : Char} {as bs xs ys : List Char} (has : c ∉ as) (hxs : c ∉ xs) (h : as ++ c :: bs = xs ++ c :: ys) :
    as = xs ∧ bs = ys := by
  have hall : ∀ {ts : List Char}, c ∉ ts → ts.all (· != c) = true := fun hts =>
    List.all_eq_true.mpr fun d hd => bne_iff_ne.mpr (ne_of_mem_of_not_mem hd hts)
  obtain ⟨hfront, hbehind⟩ := span_unique h (hall has) (hall hxs) (by simp) (by simp)
  exact ⟨hfront, (List.cons.inj hbehind).2⟩

/-- A character that is missing from the end of a text stands in its front. -/
theorem exists_front {c : Char} {as bs xs ys : List Char} (h : xs ++ ys = as ++ c :: bs) (hc : c ∉ ys) :
    ∃ w, xs = as ++ c :: w ∧ bs = w ++ ys := by
  rcases List.append_eq_append_iff.mp h with ⟨w, rfl, hys⟩ | ⟨w, hxs, hbs⟩
  · exact absurd (hys ▸ List.mem_append_right _ List.mem_cons_self) hc
  · cases w with
    | nil =>
      have hys : c :: bs = ys := hbs
      exact absurd (hys ▸ List.mem_cons_self) hc
    | cons d w =>
      obtain ⟨rfl, hrest⟩ := List.cons.inj hbs
      exact ⟨w, hxs, hrest⟩

/-- A character that is missing from the front of a text stands behind it. -/
theorem exists_behind {c : Char} {as bs xs ys : List Char} (h : xs ++ ys = as ++ c :: bs) (hc : c ∉ xs) :
    ∃ w, as = xs ++ w ∧ ys = w ++ c :: bs := by
  rcases List.append_eq_append_iff.mp h with ⟨w, has, hys⟩ | ⟨w, rfl, hbs⟩
  · exact ⟨w, has, hys⟩
  · cases w with
    | nil => exact ⟨[], by simp, hbs.symm⟩
    | cons d w =>
      obtain ⟨rfl, -⟩ := List.cons.inj hbs
      exact absurd (List.mem_append_right _ List.mem_cons_self) hc

/-! ### The place of the match -/

section Place
variable {p : Pattern} {words : List (List Char)} {lead g : Gap} {name t : List Char} {m : Match}

/-- What a word begins with stands at the name, for blanks stand before the name and between it and the sign. -/
theorem eq_lead {before rest : List Char} {c : Char} (hname : name.all isWord = true) (hc : isWord c = true)
    (hbefore : (lastOf none before).any isWord = false) (h : before ++ c :: rest = lead.text ++ (name ++ g.text)) :
    before = lead.text := by
  have hgap : ∀ (g : Gap), c ∉ g.text := fun g => not_mem_of_blank g.blank (not_isBlank_of_isWord hc)
  rcases List.append_eq_append_iff.mp h with ⟨w, hlead, hrest⟩ | ⟨w, rfl, hw⟩
  · cases w with
    | nil => exact (hlead.trans (List.append_nil _)).symm
    | cons d w =>
      obtain ⟨rfl, -⟩ := List.cons.inj hrest
      exact absurd (hlead ▸ List.mem_append_right _ List.mem_cons_self) (hgap lead)
  · rcases List.append_eq_append_iff.mp hw with ⟨u, rfl, hu⟩ | ⟨u, rfl, hu⟩
    · exact absurd (hu ▸ List.mem_append_right _ List.mem_cons_self) (hgap g)
    · rw [List.all_append, Bool.and_eq_true] at hname
      cases w with
      | nil => exact List.append_nil _
      | cons d w =>
        rw [lastOf_append, lastOf_word hname.1] at hbefore
        cases hbefore

/-- The match of a pattern that begins with a word and holds the sign stands at the name. -/
theorem read?_of_find? (hbegins : Begins words p) (hwords : ∀ w ∈ words, w.head?.any isWord = true) (hsign : Needs '=' p)
    (hname : name.all isWord = true) (ht : '=' ∉ t) (h : p.find? (lead.text ++ (name ++ (g.text ++ '=' :: t))) = some m) :
    ∃ r, p.read? (lastOf none lead.text) (name ++ (g.text ++ '=' :: t)) = some r ∧ m = r.toMatch (byteLength lead.text) := by
  obtain ⟨before, r, hstands, -⟩ := findFrom_eq_some h
  have hmem := mem_of_read? hstands.read
  obtain ⟨hbefore, w, hw, hprefix⟩ := hbegins _ _ _ hmem
  have hhead := hwords w hw
  obtain ⟨u, v, huv⟩ := List.append_of_mem (hsign.mem hmem)
  have hfront : '=' ∉ lead.text ++ (name ++ g.text) := by
    simp only [List.mem_append, not_or]
    exact ⟨not_mem_of_blank lead.blank (by decide),
      fun hmem => absurd (List.all_eq_true.mp hname _ hmem) (by decide), not_mem_of_blank g.blank (by decide)⟩
  -- The text has one sign, so what is read in front of the sign ends where the name and its blanks do.
  obtain ⟨hu, -⟩ : lead.text ++ (name ++ g.text) = before ++ u ∧ t = v ++ r.rest := by
    have hsplit := hstands.split
    rw [huv] at hsplit
    exact split_once hfront ht (by simpa using hsplit)
  obtain ⟨d, w, rfl⟩ : ∃ d w', w = d :: w' := List.ne_nil_iff_exists_cons.mp fun hnil => by simp [hnil] at hhead
  obtain ⟨z, hz⟩ := hprefix
  rw [huv] at hz
  have hlead : before = lead.text := by
    cases u with
    | nil =>
      obtain ⟨rfl, -⟩ := List.cons.inj hz
      exact absurd (show isWord '=' = true from hhead) (by decide)
    | cons c u =>
      obtain ⟨rfl, -⟩ := List.cons.inj hz
      exact eq_lead hname hhead hbefore hu.symm
  subst hlead
  have hsplit := List.append_cancel_left hstands.split
  exact ⟨r, hsplit ▸ hstands.read, by rw [hstands.match_eq, Nat.zero_add]⟩

end Place

/-! ### What is read behind the sign -/

section Behind
variable {p q : Pattern} {last : Option Char} {cs : List Char} {r : Reading}

/-- Parts with blanks between them are read one after the other. -/
theorem mem_readings_spaced {ps : List Pattern} : r ∈ (spaced (p :: q :: ps)).readings last cs ↔
    ∃ a ∈ p.readings last cs, ∃ (g : Gap) (rest : List Char), a.rest = g.text ++ rest ∧
      ∃ b ∈ (spaced (q :: ps)).readings (lastOf last (a.text ++ g.text)) rest,
        r = ⟨a.text ++ (g.text ++ b.text), b.kept ++ a.kept, b.rest⟩ := by
  constructor
  · intro h
    obtain ⟨a, ha, b, hb, rfl⟩ := mem_readings_seq.mp h
    obtain ⟨c, hc, d, hd, rfl⟩ := mem_readings_seq.mp hb
    obtain ⟨g, rest, hrest, hg, rfl⟩ := mem_readings_run.mp hc
    exact ⟨a, ha, ⟨g, hg⟩, rest, hrest, d, by rwa [lastOf_append], by simp [Reading.append]⟩
  · rintro ⟨a, ha, g, rest, hrest, b, hb, rfl⟩
    rw [lastOf_append] at hb
    exact mem_readings_seq.mpr ⟨a, ha, ⟨g.text ++ b.text, b.kept, b.rest⟩, mem_readings_seq.mpr
      ⟨⟨g.text, [], rest⟩, mem_readings_run.mpr ⟨g.text, rest, hrest, g.blank, rfl⟩, b, hb, by simp [Reading.append]⟩,
      by simp [Reading.append]⟩

theorem exists_of_mem_spaced {ps : List Pattern} (h : r ∈ (spaced (p :: q :: ps)).readings last cs) :
    ∃ a ∈ p.readings last cs, ∃ (g : Gap) (rest : List Char), a.rest = g.text ++ rest ∧
      ∃ last', ∃ b ∈ (spaced (q :: ps)).readings last' rest, r = ⟨a.text ++ (g.text ++ b.text), b.kept ++ a.kept, b.rest⟩ := by
  obtain ⟨a, ha, g, rest, hrest, b, hb, hr⟩ := mem_readings_spaced.mp h
  exact ⟨a, ha, g, rest, hrest, _, b, hb, hr⟩

/-- The pattern reads nothing where a blank stands. -/
def Unblank (p : Pattern) : Prop :=
  ∀ (last : Option Char) (cs : List Char) (r : Reading), r ∈ p.readings last cs → cs.head?.all (fun c => !isBlank c) = true

theorem Unblank.seq (h : Unblank p) : Unblank (.seq p q) := by
  intro last cs r hr
  obtain ⟨a, ha, -⟩ := mem_readings_seq.mp hr
  exact h _ _ _ ha

theorem unblank_literal {s : String} (hs : s.toList.head?.any (fun c => !isBlank c) = true) : Unblank (literal s) := by
  intro last cs r hr
  obtain ⟨rest, rfl, -⟩ := mem_readings_literal.mp hr
  cases h : s.toList with
  | nil => simp [h] at hs
  | cons c cs => simpa [h] using hs

theorem unblank_digits (n : Nat) : Unblank (.group n digits) := by
  intro last cs r hr
  obtain ⟨t, rest, rfl, hne, hall, -⟩ := mem_readings_digits.mp hr
  exact head_digits hne hall rest

/-- Behind a name and the sign the rest of a pattern is read from the assigned text on. -/
theorem exists_of_mem_assigned {head : Pattern} {name t : List Char} {kept : List (Nat × List Char)} {g g' : Gap}
    (hhead : ∀ a ∈ head.readings last (name ++ (g.text ++ '=' :: (g'.text ++ t))),
      a = ⟨name, kept, g.text ++ '=' :: (g'.text ++ t)⟩)
    (hq : Unblank q) (ht : t.head?.all (fun c => !isBlank c) = true)
    (h : r ∈ (spaced [head, char '=', q]).readings last (name ++ (g.text ++ '=' :: (g'.text ++ t)))) :
    ∃ last', ∃ b ∈ q.readings last' t, r.kept = b.kept ++ kept ∧ r.rest = b.rest := by
  obtain ⟨a, ha, g1, rest1, hrest1, last1, b, hb, rfl⟩ := exists_of_mem_spaced h
  obtain rfl := hhead a ha
  obtain ⟨c, hc, g2, rest2, hrest2, last2, d, hd, rfl⟩ := exists_of_mem_spaced hb
  obtain ⟨rest3, rfl, rfl⟩ := mem_readings_char.mp hc
  obtain ⟨-, hsign⟩ := Gap.eq_of_append hrest1 rfl rfl
  obtain rfl := (List.cons.inj hsign).2
  obtain ⟨-, rfl⟩ := Gap.eq_of_append hrest2 ht (hq _ _ _ hd)
  exact ⟨last2, d, hd, by simp, rfl⟩

/-- The sign may be read with the variable or with what follows it. -/
theorem readings_assignTo (v : String) (q : Pattern) (last : Option Char) (cs : List Char) :
    (spaced [assignTo v, q]).readings last cs = (spaced [wordStart v, char '=', q]).readings last cs := by
  have hinner : ∀ last cs, (seq (seq blanks (char '=')) (seq blanks q)).readings last cs =
      (seq blanks (seq (char '=') (seq blanks q))).readings last cs := readings_seq_assoc blanks (char '=') (seq blanks q)
  have houter := readings_seq_assoc (wordStart v) (seq blanks (char '=')) (seq blanks q) last cs
  refine houter.trans ?_
  show List.flatMap _ _ = List.flatMap _ _
  simp only [hinner]
  rfl

end Behind

theorem eq_of_mem_wordStart {v : String} {t : List Char} {last : Option Char} {r : Reading} (hv : v.toList.head?.any isWord = true)
    (h : r ∈ (wordStart v).readings last (v.toList ++ t)) : r = ⟨v.toList, [], t⟩ := by
  obtain ⟨-, rest, hrest, rfl⟩ := (mem_readings_wordStart hv).mp h
  rw [List.append_cancel_left hrest]

/-- An assignment that stands at the start of a word is found if what is assigned begins with a text of the language. -/
theorem exists_find?_assignTo {v : String} {q : Pattern} {L : TextLanguage} (hv : v.toList.head?.any isWord = true) (hq : Reads q L)
    {front t rest : List Char} {g g' : Gap} {kept : List (Nat × List Char)} (hedge : (lastOf none front).any isWord = false)
    (ht : L t kept) :
    ∃ m, (spaced [assignTo v, q]).find? (front ++ (v.toList ++ (g.text ++ '=' :: (g'.text ++ (t ++ rest))))) = some m := by
  apply exists_find?
  rw [readings_assignTo]
  apply exists_seq ((mem_readings_wordStart hv).mpr ⟨hedge, _, rfl, rfl⟩)
  apply exists_seq (mem_readings_run.mpr ⟨g.text, _, rfl, g.blank, rfl⟩)
  apply exists_seq (mem_readings_char.mpr ⟨_, rfl, rfl⟩)
  apply exists_seq (mem_readings_run.mpr ⟨g'.text, _, rfl, g'.blank, rfl⟩)
  exact ⟨⟨t, kept, rest⟩, (hq _ _ _).mpr ⟨rfl, ht⟩⟩

/-- The first match of the pattern ends where the statement does, but for blanks. -/
def matchEndsStatement (p : Pattern) (code : List Char) : Bool :=
  (p.find? code).any fun m => ((dropBytes m.stop code).dropWhile isBlank).head? == some ';'

theorem ends_of_matchEndsStatement {p : Pattern} {before code : List Char} {r : Reading}
    (hcode : code = before ++ (r.text ++ r.rest)) (hfind : p.find? code = some (r.toMatch (byteLength before)))
    (h : matchEndsStatement p code = true) : Ends (.row .sum) r.rest := by
  have hdrop : dropBytes (r.toMatch (byteLength before)).stop code = r.rest := by
    have hsplit := dropBytes_append (before ++ r.text) r.rest
    rw [byteLength_append, List.append_assoc, ← hcode] at hsplit
    exact hsplit
  rw [matchEndsStatement, hfind, Option.any_some, hdrop, beq_iff_eq] at h
  obtain ⟨rest, hrest⟩ := List.head?_eq_some_iff.mp h
  exact ⟨r.rest.takeWhile isBlank, ';', rest, by rw [← hrest, List.takeWhile_append_dropWhile],
    List.all_takeWhile, by decide⟩

/-! ### Kept literals -/

namespace Match
variable {m : Match} {k : Nat} {n : Decimal}

theorem eq_value_of_word? {v : Nat} (hgroup : m.group? k = some n.digits) (h : m.word? k = some v) : v = n.value := by
  rw [word?, hgroup, Option.bind_some] at h
  exact (n.word?_eq_some.mp h).1.symm

theorem eq_value_of_integer? {v : Int} (hgroup : m.group? k = some n.digits) (h : m.integer? k = some v) : v = n.value := by
  rw [integer?, hgroup, Option.bind_some] at h
  exact n.integer?_eq_some h

end Match

/-! ### The statement -/

/-- An assignment of an expression, with the blanks between its parts and around it. -/
structure ExpressionStatement where
  lead : Gap
  beforeSign : Gap
  afterSign : Gap
  value : Expression (.row .sum)
  beforeEnd : Gap
  trail : Gap

namespace ExpressionStatement
variable (s : ExpressionStatement)

/-- The expression and the end of the statement. -/
def ending : List Char := s.value.text ++ (s.beforeEnd.text ++ ';' :: s.trail.text)

/-- The assignment to a variable. -/
def text (name : List Char) : List Char :=
  s.lead.text ++ (name ++ (s.beforeSign.text ++ '=' :: (s.afterSign.text ++ s.ending)))

theorem ends_sum : Ends (.row .sum) (s.beforeEnd.text ++ ';' :: s.trail.text) := (ends_cons (by decide) _).gap s.beforeEnd

theorem sign_not_mem : '=' ∉ s.afterSign.text ++ s.ending := by
  have hgap : ∀ g : Gap, '=' ∉ g.text := fun g => not_mem_of_blank g.blank (by decide)
  have hvalue : '=' ∉ s.value.text := s.value.not_mem (by decide)
  simp [ending, hgap, hvalue]

theorem head_ending : s.ending.head?.all (fun c => !isBlank c) = true := s.value.head_text (fun _ => Part.noConfusion) _

/-- What stands in front of the end of the statement is the expression. -/
theorem value_eq {s : ExpressionStatement} {e : Expression (.row .sum)} (g : Gap) (tail : List Char)
    (h : s.ending = e.text ++ (g.text ++ ';' :: tail)) : s.value = e :=
  (s.value.unique e _ _ h s.ends_sum ((ends_cons (by decide) tail).gap g)).1

theorem plain_ending : PlainDigits s.ending := by
  have hgap : ∀ g : Gap, PlainDigits g.text := fun g => plainDigits_of_isCode g.all_isCode
  exact (plainDigits_of_isCode s.value.all_isCode).append ((hgap _).append ((hgap _).cons (by decide)))

end ExpressionStatement
end SpriteFacts
