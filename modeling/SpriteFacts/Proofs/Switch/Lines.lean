import SpriteFacts.Proofs.Switch.FunctionHead
import SpriteFacts.Proofs.Switch.Stations
import SpriteFacts.Proofs.Text.Numeral
import SpriteFacts.Report.Phase

/-! Switches written line by line. A line is a case label, a default label, a `break;` or a statement, with
    blanks in front of it, and the text of a function is one switch of such lines. The marks of that text,
    its labels and the code that each label owns are then read off the lines. -/

namespace SpriteFacts.Switch

open Text Pattern

/-! ### Lines -/

/-- Statements that are no landmark and hold none, nor a brace or a slash. -/
class Statement (σ : Type) where
  text : σ → List Char
  clear : ∀ (s : σ) (i : Landmark) {behind : List Char} {last : Option Char}, last.any isWord = false →
    i.pattern.Clear behind last (text s)
  ends : ∀ (s : σ) {last : Option Char}, last.any isWord = false → (lastOf last (text s)).any isWord = false
  simple : ∀ s : σ, (text s).all (fun c => c != '\x7b' && c != '\x7d' && c != '/') = true

/-- What stands on a line. -/
inductive Item (σ : Type) where
  | label (n : Numeral maxWord)
  | fallback
  | leave
  | code (s : σ)

/-- An item with blanks in front of it. -/
structure Line (σ : Type) where
  gap : List Char
  blank : gap.all isBlank = true
  item : Item σ

/-- An item on a line of its own. -/
def Line.of {σ : Type} (i : Item σ) : Line σ := ⟨['\n'], by decide, i⟩

section Lines
variable {σ : Type} [Statement σ]

def Item.text : Item σ → List Char
  | label n => caseText [' '] n.digits []
  | fallback => "default:".toList
  | leave => "break;".toList
  | code s => Statement.text s

def Item.marks : Item σ → List LandMark
  | label n => [.found .numbered (caseText [' '] n.digits []) [(1, n.digits)]]
  | fallback => [.found .fallback "default:".toList []]
  | leave => [.found .leave "break;".toList []]
  | code s => (Statement.text s).map .plain

def linesText (ls : List (Line σ)) : List Char := ls.flatMap fun l => l.gap ++ l.item.text

def linesMarks (ls : List (Line σ)) : List LandMark := ls.flatMap fun l => l.gap.map .plain ++ l.item.marks

theorem textOf_item (i : Item σ) : Mark.textOf i.marks = i.text := by
  cases i with
  | label n => exact List.append_nil _
  | fallback | leave => rfl
  | code s => exact textOf_plain _

/-! ### The scan of lines -/

theorem lastOf_blank {t : List Char} {last : Option Char} (ht : t.all isBlank = true) (hlast : last.any isWord = false) :
    (lastOf last t).any isWord = false := by
  induction t generalizing last with
  | nil => exact hlast
  | cons c t ih =>
    rw [List.all_cons, Bool.and_eq_true] at ht
    exact ih ht.2 (isWord_of_isBlank ht.1)

theorem Item.read?_label {last : Option Char} (hlast : last.any isWord = false) (n : Numeral maxWord) (cs : List Char) :
    casePattern.read? last (caseText [' '] n.digits [] ++ cs) =
      some ⟨caseText [' '] n.digits [], [(1, n.digits)], cs⟩ := by
  exact read?_case.mpr (mem_readings_case.mpr
    ⟨hlast, [' '], n.digits, [], cs, rfl, by simp, by decide, n.nonempty, n.all_isDigit, rfl, rfl⟩)

theorem Item.read?_word {s : String} {mark : Char} {last : Option Char} (hs : s.toList.head?.any isWord = true)
    (hm : isBlank mark = false) (hlast : last.any isWord = false) (cs : List Char) :
    (markedWord s mark).read? last (s.toList ++ [mark] ++ cs) = some ⟨s.toList ++ [mark], [], cs⟩ := by
  rw [List.append_assoc]
  exact (read?_markedWord hs hm).mpr ((mem_readings_markedWord hs).mpr ⟨hlast, [], cs, rfl, rfl, rfl⟩)

theorem scan_landmark {i : Landmark} {last : Option Char} {t cs : List Char} {kept : List (Nat × List Char)}
    {ms : List LandMark} (here : i.pattern.read? last (t ++ cs) = some ⟨t, kept, cs⟩)
    (rest : ∀ {last : Option Char}, last.any isWord = false → Scan Landmark.pattern last cs ms) :
    Scan Landmark.pattern last (t ++ cs) (.found i t kept :: ms) :=
  .found here ((Landmark.steady i).nonempty here) (fun _ hj => (Landmark.apart here).2 hj) (rest (Landmark.behind here _))

theorem scan_item (i : Item σ) {last : Option Char} (hlast : last.any isWord = false) {cs : List Char}
    {ms : List LandMark} (rest : ∀ {last : Option Char}, last.any isWord = false → Scan Landmark.pattern last cs ms) :
    Scan Landmark.pattern last (i.text ++ cs) (i.marks ++ ms) := by
  cases i with
  | label n => exact scan_landmark (i := .numbered) (Item.read?_label hlast n cs) rest
  | fallback => exact scan_landmark (i := .fallback) (Item.read?_word (by decide) (by decide) hlast cs) rest
  | leave => exact scan_landmark (i := .leave) (Item.read?_word (by decide) (by decide) hlast cs) rest
  | code s => exact Scan.prepend (fun i => Statement.clear s i hlast) (rest (Statement.ends s hlast))

/-- Lines are marked line by line, whatever is marked behind them. -/
theorem scan_lines (ls : List (Line σ)) {last : Option Char} (hlast : last.any isWord = false) {cs : List Char}
    {ms : List LandMark} (rest : ∀ {last : Option Char}, last.any isWord = false → Scan Landmark.pattern last cs ms) :
    Scan Landmark.pattern last (linesText ls ++ cs) (linesMarks ls ++ ms) := by
  induction ls generalizing last with
  | nil => exact rest hlast
  | cons l ls ih =>
    simp only [linesText, linesMarks, List.flatMap_cons, List.append_assoc]
    exact Scan.prepend (fun i => clear_blank i l.blank) (scan_item l.item (lastOf_blank l.blank hlast) ih)

/-! ### The switch of a function -/

def switchHead : List Char := "\nswitch (sprite) \x7b".toList

def switchTail : List Char := "\n\x7d\n".toList

/-- A function body that is one switch of lines. -/
def switchText (ls : List (Line σ)) : List Char := switchHead ++ (linesText ls ++ switchTail)

def switchMarks (ls : List (Line σ)) : List LandMark :=
  switchHead.map .plain ++ (linesMarks ls ++ switchTail.map .plain)

theorem clear_of_startless (i : Landmark) {behind t : List Char} {last : Option Char}
    (ht : startless (fun c => c == 'c' || c == 'd' || c == 'b') last t = true) : i.pattern.Clear behind last t := by
  refine (Landmark.begins i).clear_of_startless (fun w hw => ?_) ht
  obtain rfl := List.mem_singleton.mp hw
  cases i <;> decide

theorem scan_switch (ls : List (Line σ)) : Scan Landmark.pattern none (switchText ls) (switchMarks ls) := by
  refine Scan.prepend (fun i => clear_of_startless i (by decide)) ?_
  refine scan_lines ls (by decide) fun {last} _ => ?_
  have hend : Scan Landmark.pattern (lastOf last switchTail) [] [] := .nil fun i => (Landmark.steady i).read?_nil
  have htail := Scan.prepend (fun i => clear_of_startless i (startless_of_all (by decide))) hend
  simpa using htail

/-- A function whose body is one switch of lines. -/
def functionText (name : String) (ls : List (Line σ)) : List Char :=
  functionHead name ++ (switchText ls ++ "\x7d\n".toList)

theorem simple_lines (ls : List (Line σ)) :
    (linesText ls).all (fun c => c != '\x7b' && c != '\x7d' && c != '/') = true := by
  have hclass : ∀ (p : Char → Bool) {t : List Char}, t.all p = true → (∀ c, p c = true → c ≠ '\x7b' ∧ c ≠ '\x7d' ∧ c ≠ '/') →
      t.all (fun c => c != '\x7b' && c != '\x7d' && c != '/') = true := fun p t ht hp =>
    List.all_eq_true.mpr fun c hc => by simpa [and_assoc] using hp c (List.all_eq_true.mp ht c hc)
  rw [linesText, List.all_flatMap]
  refine List.all_eq_true.mpr fun l _ => ?_
  have hgap := hclass isBlank l.blank fun c hc => by
    refine ⟨?_, ?_, ?_⟩ <;> · rintro rfl; exact absurd hc (by decide)
  rw [List.all_append, hgap, Bool.true_and]
  cases l.item with
  | label n =>
    have hdigits := hclass Char.isDigit n.ascii fun c hc => by
      refine ⟨?_, ?_, ?_⟩ <;> · rintro rfl; exact absurd hc (by decide)
    show (caseText [' '] n.digits []).all _ = true
    rw [caseText, List.all_append, List.all_append, List.all_append, hdigits]
    rfl
  | fallback | leave => rfl
  | code s => exact Statement.simple s

/-- The braces of a switch close, if there is none in it. -/
theorem untilClosed_braced {t : List Char} (ht : t.all (fun c => c != '\x7b' && c != '\x7d') = true) :
    untilClosed 0 (switchHead ++ (t ++ switchTail) ++ "\x7d\n".toList) = (switchHead ++ (t ++ switchTail), true) := by
  have htail : untilClosed 1 (switchTail ++ "\x7d\n".toList) = (switchTail, true) := by decide
  have hhead : switchHead = "\nswitch (sprite) ".toList ++ ['\x7b'] := rfl
  rw [hhead, List.append_assoc, List.append_assoc, List.append_assoc, List.append_assoc,
    untilClosed_append (by decide), List.singleton_append, untilClosed, if_pos rfl, Nat.zero_add,
    untilClosed_append ht, htail]
  rfl

theorem untilClosed_switch (ls : List (Line σ)) :
    untilClosed 0 (switchText ls ++ "\x7d\n".toList) = (switchText ls, true) := by
  refine untilClosed_braced (List.all_eq_true.mpr fun c hc => ?_)
  have := List.all_eq_true.mp (simple_lines ls) c hc
  rw [Bool.and_eq_true] at this
  exact this.1

/-- A function whose body closes and has no comments is located, and its code is the body as it is written. -/
theorem located_of_closed {source : Source} {name : String} {body : List Char} (hname : IsName name.toList)
    (htext : source.text = functionHead name ++ (body ++ "\x7d\n".toList))
    (hclosed : untilClosed 0 (body ++ "\x7d\n".toList) = (body, true)) (hfree : CommentFree body) :
    ∃ l, Located.find? source name = some l ∧ l.body.text = body ∧ l.code = body ∧ l.unclosed = [] := by
  have hfind : FunctionBody.find? source.text name = some ⟨body, byteLength (functionHead name), true⟩ := by
    rw [htext, functionHead_eq, find?_headText hname (by decide), hclosed]
  refine ⟨_, by rw [Located.find?, hfind, Option.map_some], rfl, ?_, rfl⟩
  exact hfree.withoutComments_eq

theorem slash_not_mem_switch (ls : List (Line σ)) : '/' ∉ switchText ls := by
  have hlines : '/' ∉ linesText ls := fun h => by
    have := List.all_eq_true.mp (simple_lines ls) _ h
    revert this
    decide
  simp only [switchText, List.mem_append, not_or]
  exact ⟨by decide, hlines, by decide⟩

theorem commentFree_switch (ls : List (Line σ)) : CommentFree (switchText ls) :=
  commentFree_of_not_mem (slash_not_mem_switch ls)

/-- The function is located, and its code is the switch as it is written. -/
theorem located_functionText {source : Source} {name : String} {ls : List (Line σ)} (hname : IsName name.toList)
    (htext : source.text = functionText name ls) :
    ∃ l, Located.find? source name = some l ∧ l.body.text = switchText ls ∧ l.code = switchText ls ∧ l.unclosed = [] :=
  located_of_closed hname htext (untilClosed_switch ls) (commentFree_switch ls)

/-! ### The labels of the lines -/

/-- The labels among lines, each with the lines behind it. -/
def labelled : List (Line σ) → List (Numeral maxWord × List (Line σ))
  | [] => []
  | l :: ls =>
    match l.item with
    | .label n => (n, ls) :: labelled ls
    | _ => labelled ls

theorem number?_label (n : Numeral maxWord) :
    number? (.found .numbered (caseText [' '] n.digits []) [(1, n.digits)]) = some n.value := n.word?_eq

theorem stationsOf_plain (t : List Char) (n : Nat) (ms : List LandMark) :
    stationsOf n (t.map .plain ++ ms) = stationsOf (n + byteLength t) ms := by
  rw [stationsOf_append_of_none fun m hm => number?_of_mem_plain hm, textOf_plain]

theorem labelsOf_plain (t : List Char) (n : Nat) (ms : List LandMark) :
    labelsOf n (t.map .plain ++ ms) = labelsOf (n + byteLength t) ms :=
  congrArg (List.map Station.label) (stationsOf_plain t n ms)

theorem stations_lines (ls : List (Line σ)) {ms : List LandMark} (hms : ∀ m ∈ ms, number? m = none) (n : Nat) :
    (stationsOf n (linesMarks ls ++ ms)).map (fun s => (s.label.id, s.marks)) =
      (labelled ls).map fun p => (p.1.value, linesMarks p.2 ++ ms) := by
  induction ls generalizing n with
  | nil =>
    have := stationsOf_append_of_none hms n []
    rw [List.append_nil] at this
    rw [show linesMarks ([] : List (Line σ)) ++ ms = ms from rfl, this]
    rfl
  | cons l ls ih =>
    have hcons : linesMarks (l :: ls) ++ ms = l.gap.map .plain ++ (l.item.marks ++ (linesMarks ls ++ ms)) := by
      simp [linesMarks]
    rw [hcons, stationsOf_plain, labelled]
    cases l.item with
    | label n =>
      rw [Item.marks, List.singleton_append, stationsOf_some (number?_label n), List.map_cons, ih, List.map_cons]
    | fallback | leave => rw [Item.marks, List.singleton_append, stationsOf_none rfl, ih]
    | code s =>
      rw [Item.marks, stationsOf_plain, ih]

/-- The stations of a switch are the labels of its lines. -/
theorem stations_switch (ls : List (Line σ)) :
    (stationsOf 0 (switchMarks ls)).map (fun s => (s.label.id, s.marks)) =
      (labelled ls).map fun p => (p.1.value, linesMarks p.2 ++ switchTail.map .plain) := by
  rw [switchMarks, stationsOf_plain]
  exact stations_lines ls (fun m hm => number?_of_mem_plain hm) _

/-! ### What a label owns -/

/-- The text from the lines behind a label up to the next label or default label. -/
def sectionText : List (Line σ) → List Char
  | [] => switchTail
  | l :: ls =>
    match l.item with
    | .label _ | .fallback => l.gap
    | i => l.gap ++ (i.text ++ sectionText ls)

theorem textOf_owned (ls : List (Line σ)) :
    Mark.textOf (owned (linesMarks ls ++ switchTail.map .plain)) = sectionText ls := by
  induction ls with
  | nil => rfl
  | cons l ls ih =>
    have hcons : linesMarks (l :: ls) ++ switchTail.map .plain =
        l.gap.map .plain ++ (l.item.marks ++ (linesMarks ls ++ switchTail.map .plain)) := by simp [linesMarks]
    rw [hcons, owned_append_of_not_ends (fun m hm => endsSpan_of_mem_plain hm), Mark.textOf_append, textOf_plain, sectionText]
    cases l.item with
    | label n =>
      have hends : endsSpan (.found .numbered (caseText [' '] n.digits []) [(1, n.digits)]) = true := by
        rw [endsSpan, number?_label]
        rfl
      rw [Item.marks, List.singleton_append, owned, List.takeWhile_cons_of_neg (by rw [hends]; simp)]
      exact List.append_nil _
    | fallback => exact List.append_nil _
    | leave =>
      rw [owned_append_of_not_ends (fun m hm => by rw [List.mem_singleton.mp hm]; rfl), Mark.textOf_append, textOf_item, ih]
    | code s =>
      rw [Item.marks, owned_append_of_not_ends (fun m hm => endsSpan_of_mem_plain hm), Mark.textOf_append, textOf_plain, ih]
      rfl

end Lines

end SpriteFacts.Switch
