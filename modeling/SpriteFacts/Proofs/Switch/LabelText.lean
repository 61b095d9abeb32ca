import SpriteFacts.Proofs.Pattern.Steady
import SpriteFacts.Proofs.Pattern.WordStart
import SpriteFacts.Proofs.Text.Blank
import SpriteFacts.Switch.CaseGroup

/-! The texts that labels and terminators are written with: a number label, a default label and `break;`.
    Each has one way to be read at a place, which depends on nothing behind it, and begins at the start of a
    word whose first letter none of the others holds. So they never overlap, and one scan marks all of them. -/

namespace SpriteFacts.Switch

open Text Pattern

/-! ### Labels of a number -/

/-- A label `case N:` with its blanks and its digits. -/
def caseText (before digits after : List Char) : List Char := "case".toList ++ (before ++ (digits ++ (after ++ [':'])))

theorem mem_readings_case {last : Option Char} {cs : List Char} {r : Reading} :
    r ∈ casePattern.readings last cs ↔ last.any isWord = false ∧ ∃ before digits after rest,
      cs = caseText before digits after ++ rest ∧ before ≠ [] ∧ before.all isBlank = true ∧
      digits ≠ [] ∧ digits.all isDigit = true ∧ after.all isBlank = true ∧
      r = ⟨caseText before digits after, [(1, digits)], rest⟩ := by
  unfold casePattern
  simp only [Pattern.all]
  rw [mem_readings_seq]
  constructor
  · rintro ⟨a, ha, b, hb, rfl⟩
    obtain ⟨hlast, rest, rfl, rfl⟩ := (mem_readings_wordStart (by decide)).mp ha
    obtain ⟨b1, hb1, b2, hb2, rfl⟩ := mem_readings_seq.mp hb
    obtain ⟨before, rest1, hrest, hne, hblank, rfl⟩ := mem_readings_run1.mp hb1
    obtain ⟨c1, hc1, c2, hc2, rfl⟩ := mem_readings_seq.mp hb2
    obtain ⟨d, hd, rfl⟩ := mem_readings_group.mp hc1
    obtain ⟨digits, rest2, hrest1, hne', hdigit, rfl⟩ := mem_readings_run1.mp hd
    obtain ⟨e1, he1, e2, he2, rfl⟩ := mem_readings_seq.mp hc2
    obtain ⟨after, rest3, hrest2, hblank', rfl⟩ := mem_readings_run.mp he1
    obtain ⟨rest4, hrest3, rfl⟩ := mem_readings_char.mp he2
    simp only [Reading.keep] at hrest hrest1 hrest2 hrest3
    subst hrest hrest1 hrest2 hrest3
    exact ⟨hlast, before, digits, after, rest4, by simp [caseText], hne, hblank, hne', hdigit, hblank',
      by simp [Reading.append, Reading.keep, caseText]⟩
  · rintro ⟨hlast, before, digits, after, rest, rfl, hne, hblank, hne', hdigit, hblank', rfl⟩
    refine ⟨⟨"case".toList, [], before ++ (digits ++ (after ++ ':' :: rest))⟩, ?_,
      ⟨before ++ (digits ++ (after ++ [':'])), [(1, digits)], rest⟩, ?_, by simp [Reading.append, caseText]⟩
    · exact (mem_readings_wordStart (by decide)).mpr ⟨hlast, _, by simp [caseText], rfl⟩
    · refine mem_readings_seq.mpr ⟨⟨before, [], digits ++ (after ++ ':' :: rest)⟩, ?_,
        ⟨digits ++ (after ++ [':']), [(1, digits)], rest⟩, ?_, by simp [Reading.append]⟩
      · exact mem_readings_run1.mpr ⟨before, _, rfl, hne, hblank, rfl⟩
      · refine mem_readings_seq.mpr ⟨⟨digits, [(1, digits)], after ++ ':' :: rest⟩, ?_,
          ⟨after ++ [':'], [], rest⟩, ?_, by simp [Reading.append]⟩
        · exact mem_readings_group.mpr ⟨⟨digits, [], _⟩, mem_readings_run1.mpr ⟨digits, _, rfl, hne', hdigit, rfl⟩, rfl⟩
        · exact mem_readings_seq.mpr ⟨⟨after, [], ':' :: rest⟩, mem_readings_run.mpr ⟨after, _, rfl, hblank', rfl⟩,
            ⟨[':'], [], rest⟩, mem_readings_char.mpr ⟨rest, rfl, rfl⟩, rfl⟩

/-- No two ways to read a label from one place. -/
theorem case_unique {last : Option Char} {cs : List Char} {r s : Reading} (hr : r ∈ casePattern.readings last cs)
    (hs : s ∈ casePattern.readings last cs) : s = r := by
  obtain ⟨-, before, digits, after, rest, rfl, -, hb, hne, hd, ha, rfl⟩ := mem_readings_case.mp hr
  obtain ⟨-, before', digits', after', rest', h, -, hb', hne', hd', ha', rfl⟩ := mem_readings_case.mp hs
  simp only [caseText, List.append_assoc, List.append_cancel_left_eq] at h
  have head : ∀ {ds x : List Char}, ds ≠ [] → ds.all isDigit = true →
      (ds ++ x).head?.all (fun c => !isBlank c) = true := fun hne hall =>
    head_outside (fun _ => not_isBlank_of_isDigit) hall fun hnil => absurd hnil hne
  have tail : ∀ {bs x : List Char}, bs.all isBlank = true →
      (bs ++ ([':'] ++ x)).head?.all (fun c => !isDigit c) = true := fun hall =>
    head_outside (fun _ => isDigit_of_isBlank) hall fun _ => show (!isDigit ':') = true by decide
  have colon : ∀ x : List Char, ([':'] ++ x).head?.all (fun c => !isBlank c) = true := fun _ =>
    show (!isBlank ':') = true by decide
  obtain ⟨rfl, h1⟩ := span_unique h hb hb' (head hne hd) (head hne' hd')
  obtain ⟨rfl, h2⟩ := span_unique h1 hd hd' (tail ha) (tail ha')
  obtain ⟨rfl, h3⟩ := span_unique h2 ha ha' (colon rest) (colon rest')
  obtain rfl := List.append_cancel_left h3
  rfl

theorem read?_case {last : Option Char} {cs : List Char} {r : Reading} :
    casePattern.read? last cs = some r ↔ r ∈ casePattern.readings last cs :=
  ⟨mem_of_read?, fun h => read?_of_unique h fun _ hs => case_unique h hs⟩

theorem steady_case : casePattern.Steady where
  nonempty h := by
    obtain ⟨-, before, digits, after, rest, -, -, -, -, -, -, rfl⟩ := mem_readings_case.mp (mem_of_read? h)
    simp [caseText]
  behind h rest' := by
    obtain ⟨hlast, before, digits, after, rest, -, h1, h2, h3, h4, h5, h6⟩ := mem_readings_case.mp (mem_of_read? h)
    obtain ⟨rfl, rfl, rfl⟩ := Reading.mk.inj h6
    exact read?_case.mpr (mem_readings_case.mpr ⟨hlast, before, digits, after, rest', rfl, h1, h2, h3, h4, h5, rfl⟩)
  before hlast cs := by
    refine Option.ext fun r => ?_
    rw [read?_case, read?_case, mem_readings_case, mem_readings_case, hlast]

theorem begins_case : Begins ["case".toList] casePattern := (begins_wordStart (by decide)).seq

/-! ### A word and a mark -/

/-- A word, blanks and a mark that is not blank: `default:` and `break;`. -/
def markedWord (s : String) (mark : Char) : Pattern := .all [.wordStart s, .blanks, .char mark]

section Marked
variable {s : String} {mark : Char} {last : Option Char} {cs : List Char} {r t : Reading}

theorem mem_readings_markedWord (hs : s.toList.head?.any isWord = true) :
    r ∈ (markedWord s mark).readings last cs ↔ last.any isWord = false ∧ ∃ blanks rest,
      cs = s.toList ++ (blanks ++ mark :: rest) ∧ blanks.all isBlank = true ∧
      r = ⟨s.toList ++ (blanks ++ [mark]), [], rest⟩ := by
  unfold markedWord
  simp only [Pattern.all]
  rw [mem_readings_seq]
  constructor
  · rintro ⟨a, ha, b, hb, rfl⟩
    obtain ⟨hlast, rest, rfl, rfl⟩ := (mem_readings_wordStart hs).mp ha
    obtain ⟨c, hc, d, hd, rfl⟩ := mem_readings_seq.mp hb
    obtain ⟨blanks, rest1, hrest, hblank, rfl⟩ := mem_readings_run.mp hc
    obtain ⟨rest2, hrest1, rfl⟩ := mem_readings_char.mp hd
    simp only at hrest hrest1
    subst hrest hrest1
    exact ⟨hlast, blanks, rest2, rfl, hblank, rfl⟩
  · rintro ⟨hlast, blanks, rest, rfl, hblank, rfl⟩
    exact ⟨⟨s.toList, [], blanks ++ mark :: rest⟩, (mem_readings_wordStart hs).mpr ⟨hlast, _, rfl, rfl⟩,
      ⟨blanks ++ [mark], [], rest⟩, mem_readings_seq.mpr ⟨⟨blanks, [], mark :: rest⟩,
        mem_readings_run.mpr ⟨blanks, _, rfl, hblank, rfl⟩, ⟨[mark], [], rest⟩,
        mem_readings_char.mpr ⟨rest, rfl, rfl⟩, rfl⟩, rfl⟩

theorem markedWord_unique (hs : s.toList.head?.any isWord = true) (hm : isBlank mark = false)
    (hr : r ∈ (markedWord s mark).readings last cs) (ht : t ∈ (markedWord s mark).readings last cs) : t = r := by
  obtain ⟨-, blanks, rest, rfl, hb, rfl⟩ := (mem_readings_markedWord hs).mp hr
  obtain ⟨-, blanks', rest', h, hb', rfl⟩ := (mem_readings_markedWord hs).mp ht
  obtain ⟨rfl, h1⟩ := span_unique (List.append_cancel_left h) hb hb' (by simp [hm]) (by simp [hm])
  obtain ⟨-, rfl⟩ := List.cons.inj h1
  rfl

theorem read?_markedWord (hs : s.toList.head?.any isWord = true) (hm : isBlank mark = false) :
    (markedWord s mark).read? last cs = some r ↔ r ∈ (markedWord s mark).readings last cs :=
  ⟨mem_of_read?, fun h => read?_of_unique h fun _ ht => markedWord_unique hs hm h ht⟩

theorem steady_markedWord (hs : s.toList.head?.any isWord = true) (hm : isBlank mark = false) :
    (markedWord s mark).Steady where
  nonempty h := by
    obtain ⟨-, blanks, rest, -, -, rfl⟩ := (mem_readings_markedWord hs).mp (mem_of_read? h)
    simp
  behind h rest' := by
    obtain ⟨hlast, blanks, rest, -, hblank, h1⟩ := (mem_readings_markedWord hs).mp (mem_of_read? h)
    obtain ⟨rfl, rfl, rfl⟩ := Reading.mk.inj h1
    refine (read?_markedWord hs hm).mpr ((mem_readings_markedWord hs).mpr ⟨hlast, blanks, rest', ?_, hblank, rfl⟩)
    rw [List.append_assoc, List.append_assoc]
    rfl
  before hlast cs := by
    refine Option.ext fun r => ?_
    rw [read?_markedWord hs hm, read?_markedWord hs hm, mem_readings_markedWord hs, mem_readings_markedWord hs, hlast]

theorem begins_markedWord (hs : s.toList.head?.any isWord = true) : Begins [s.toList] (markedWord s mark) :=
  (begins_wordStart hs).seq

end Marked

/-! ### Landmarks -/

/-- What a scan of a switch looks for. -/
inductive Landmark where
  /-- A label `case N:`. -/
  | numbered
  /-- A label `default:`. -/
  | fallback
  /-- A statement `break;`. -/
  | leave
  deriving DecidableEq, Repr

namespace Landmark

def pattern : Landmark → Pattern
  | numbered => casePattern
  | fallback => defaultPattern
  | leave => breakStatement

def word : Landmark → List Char
  | numbered => "case".toList
  | fallback => "default".toList
  | leave => "break".toList

def mark : Landmark → Char
  | numbered | fallback => ':'
  | leave => ';'

theorem begins (i : Landmark) : Begins [i.word] i.pattern := by
  cases i with
  | numbered => exact begins_case
  | fallback | leave => exact begins_markedWord (by decide)

theorem steady (i : Landmark) : i.pattern.Steady := by
  cases i with
  | numbered => exact steady_case
  | fallback | leave => exact steady_markedWord (by decide) (by decide)

/-- A landmark stands behind no word, starts with its word and ends with its mark; what it holds besides is
    blanks and digits. -/
theorem shape {i : Landmark} {last : Option Char} {cs : List Char} {r : Reading} (h : i.pattern.read? last cs = some r) :
    last.any isWord = false ∧ ∃ inner, r.text = i.word ++ (inner ++ [i.mark]) ∧
      inner.all (fun c => isBlank c || isDigit c) = true := by
  have weaken : ∀ {t : List Char}, t.all isBlank = true → t.all (fun c => isBlank c || isDigit c) = true := fun ht =>
    List.all_eq_true.mpr fun c hc => by simp [List.all_eq_true.mp ht c hc]
  cases i with
  | numbered =>
    obtain ⟨hlast, before, digits, after, rest, -, -, hb, -, hd, ha, rfl⟩ := mem_readings_case.mp (mem_of_read? h)
    refine ⟨hlast, before ++ (digits ++ after), ?_, ?_⟩
    · rw [List.append_assoc, List.append_assoc]
      rfl
    · rw [List.all_append, List.all_append, weaken hb, weaken ha, Bool.true_and, Bool.and_true]
      exact List.all_eq_true.mpr fun c hc => by simp [List.all_eq_true.mp hd c hc]
  | fallback | leave =>
    obtain ⟨hlast, blanks, rest, -, hb, rfl⟩ := (mem_readings_markedWord (by decide)).mp (mem_of_read? h)
    exact ⟨hlast, blanks, rfl, weaken hb⟩

/-- No word goes on behind a landmark. -/
theorem behind {i : Landmark} {last : Option Char} {cs : List Char} {r : Reading} (h : i.pattern.read? last cs = some r)
    (before : Option Char) : (lastOf before r.text).any isWord = false := by
  obtain ⟨-, inner, htext, -⟩ := shape h
  rw [htext, lastOf_append, lastOf_append]
  cases i <;> exact show isWord _ = false by decide

/-- A character that is neither blank nor a digit stands in a landmark only where it stands in its word or is its mark. -/
theorem not_mem_text {i : Landmark} {last : Option Char} {cs : List Char} {r : Reading} {c : Char}
    (h : i.pattern.read? last cs = some r) (hc : (isBlank c || isDigit c) = false) (hi : c ∉ i.word ++ [i.mark]) :
    c ∉ r.text := by
  obtain ⟨-, inner, htext, hinner⟩ := shape h
  rw [htext]
  intro hmem
  simp only [List.mem_append, not_or] at hmem hi
  rcases hmem with hmem | hmem | hmem
  · exact hi.1 hmem
  · rw [List.all_eq_true.mp hinner c hmem] at hc
    cases hc
  · exact hi.2 hmem

theorem apart : Scan.Apart pattern := by
  intro i j last cs r h
  refine ⟨(steady i).nonempty h, fun hj => (begins j).clear_of_not_mem fun w hw => ?_⟩
  obtain rfl := List.mem_singleton.mp hw
  cases j with
  | numbered => exact decide_eq_true (not_mem_text h (by decide) (by cases i <;> first | decide | exact absurd rfl hj))
  | fallback => exact decide_eq_true (not_mem_text h (by decide) (by cases i <;> first | decide | exact absurd rfl hj))
  | leave => exact decide_eq_true (not_mem_text h (by decide) (by cases i <;> first | decide | exact absurd rfl hj))

end Landmark

theorem alone_break : breakStatement.Alone := by
  intro last c t rest kept h
  obtain ⟨-, blanks, rest', -, hb, h1⟩ := (mem_readings_markedWord (s := "break") (by decide)).mp (mem_of_read? h)
  obtain ⟨htext, -, -⟩ := Reading.mk.inj h1
  obtain ⟨rfl, rfl⟩ := List.cons.inj htext
  refine (Landmark.begins .leave).clear_of_not_mem fun w hw => ?_
  obtain rfl := List.mem_singleton.mp hw
  refine decide_eq_true fun hmem => ?_
  rcases List.mem_append.mp hmem with hmem | hmem
  · revert hmem
    decide
  · rcases List.mem_append.mp hmem with hmem | hmem
    · exact absurd (List.all_eq_true.mp hb _ hmem) (by decide)
    · revert hmem
      decide

end SpriteFacts.Switch
