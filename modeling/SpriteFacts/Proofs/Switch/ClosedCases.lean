import Mathlib.Data.List.Forall2
import SpriteFacts.Proofs.Expression.FrameCycle
import SpriteFacts.Proofs.Switch.Execution
import SpriteFacts.Proofs.Switch.Locality

/-! Switches of cases that each end in a `break;` of their own. The case groups of such a switch are its cases: each group
    has the number of one label and the code between that label and its `break;`, whatever blanks stand around the two. -/

namespace SpriteFacts.Switch

open Text Pattern

/-! ### Slashes that divide -/

/-- Behind every slash of the text stands a character with which it opens no comment. -/
def SlashesDivide (t : List Char) : Prop :=
  ∀ as bs, t = as ++ '/' :: bs → bs.head?.any (fun c => c != '/' && c != '*') = true

theorem slashesDivide_of_not_mem {t : List Char} (h : '/' ∉ t) : SlashesDivide t := fun as bs ht => absurd (by simp [ht]) h

namespace SlashesDivide
variable {t u : List Char}

theorem append (ht : SlashesDivide t) (hu : SlashesDivide u) : SlashesDivide (t ++ u) := by
  intro as bs h
  rcases List.append_eq_append_iff.mp h with ⟨w, rfl, hw⟩ | ⟨w, hw, hrest⟩
  · exact hu w bs hw
  · cases w with
    | nil => exact hu [] bs hrest.symm
    | cons c w =>
      obtain ⟨rfl, rfl⟩ := List.cons.inj hrest
      have hhead := ht as w hw
      cases w with
      | nil => cases hhead
      | cons d w => exact hhead

theorem flatMap {α : Type} {f : α → List Char} {xs : List α} (h : ∀ x ∈ xs, SlashesDivide (f x)) : SlashesDivide (xs.flatMap f) := by
  induction xs with
  | nil => exact slashesDivide_of_not_mem List.not_mem_nil
  | cons x xs ih => exact (h x List.mem_cons_self).append (ih fun y hy => h y (List.mem_cons_of_mem x hy))

theorem commentFree (h : SlashesDivide t) : CommentFree t := by
  rintro as bs rfl (⟨ds, rfl⟩ | ⟨inner, ds, rfl⟩)
  · exact absurd (h as _ rfl) (by simp)
  · exact absurd (h as _ rfl) (by simp)

end SlashesDivide

/-! ### Text without landmarks -/

/-- All words of landmarks have the letter `e`, so in text without it no landmark starts, if no word goes on behind the text. -/
theorem Landmark.clear_of_outside (i : Landmark) {t behind : List Char} {last : Option Char} (hletter : 'e' ∉ t)
    (hedge : (lastOf last t).any isWord = false) : i.pattern.Clear behind last t := by
  rw [clear_iff]
  rintro as bs rfl hne
  refine i.begins.read?_eq_none (Or.inr fun w hw hprefix => ?_)
  obtain rfl := List.mem_singleton.mp hw
  obtain ⟨rest, hrest⟩ := hprefix
  rcases List.append_eq_append_iff.mp hrest with ⟨more, rfl, -⟩ | ⟨more, hmore, -⟩
  · exact hletter (List.mem_append_right _ (List.mem_append_left _ (by cases i <;> decide)))
  · have hall : i.word.all isWord = true := by cases i <;> decide
    rw [hmore, List.all_append, Bool.and_eq_true] at hall
    cases bs with
    | nil => exact hne rfl
    | cons b bs =>
      rw [lastOf_append, lastOf_word hall.1] at hedge
      cases hedge

/-- No landmark starts in the text, whatever stands around it. -/
def Unmarked (t : List Char) : Prop :=
  ∀ (i : Landmark) {behind : List Char} {last : Option Char}, i.pattern.Clear behind last t

theorem unmarked_nil : Unmarked [] := fun _ => trivial

theorem unmarked_switchTail : Unmarked switchTail := fun i => clear_of_startless i (startless_of_all (by decide))

section Clear
variable {t : List Char} {last : Option Char}

theorem scan_of_clear (h : ∀ i : Landmark, i.pattern.Clear [] last t) : Scan Landmark.pattern last t (t.map .plain) := by
  have hend : Scan Landmark.pattern (lastOf last t) [] [] := .nil fun i => i.steady.read?_nil
  simpa using Scan.prepend h hend

theorem caseLabels_of_clear (h : ∀ i : Landmark, i.pattern.Clear [] none t) : caseLabels t = [] := by
  have hnone := labelsOf_plain t 0 []
  rw [List.append_nil] at hnone
  rw [caseLabels_eq (scan_of_clear h), hnone]
  rfl

theorem caseGroups_of_clear (h : ∀ i : Landmark, i.pattern.Clear [] none t) (terminator : Pattern) :
    caseGroups .fallThrough terminator t = [] := by
  rw [caseGroups, caseLabels_of_clear h]
  rfl

end Clear

/-! ### Cases -/

/-- Statements that can stand in a case: they are not blank, hold no landmark, no comment and no brace, and no word goes on
    behind them. -/
class CaseCode (σ : Type) where
  text : σ → List Char
  solid : ∀ s : σ, (text s).all isBlank = false
  clear : ∀ (s : σ) (i : Landmark) {behind : List Char} {last : Option Char}, last.any isWord = false →
    i.pattern.Clear behind last (text s)
  outside : ∀ s : σ, Outside (text s)
  divides : ∀ s : σ, SlashesDivide (text s)
  unbraced : ∀ s : σ, '\x7b' ∉ text s ∧ '\x7d' ∉ text s

/-- A case that ends in a `break;` of its own, with any blanks. -/
structure ClosedCase (σ : Type) where
  beforeNumber : Gap
  separated : beforeNumber.text ≠ []
  number : Numeral maxWord
  afterNumber : Gap
  code : σ
  beforeEnd : Gap
  behind : Gap

namespace ClosedCase
variable {σ : Type}

section Delimiters
variable (c : ClosedCase σ)

def label : List Char := caseText c.beforeNumber.text c.number.digits c.afterNumber.text

def leave : List Char := "break".toList ++ (c.beforeEnd.text ++ [';'])

def labelMark : LandMark := .found .numbered c.label [(1, c.number.digits)]

theorem number?_labelMark : number? c.labelMark = some c.number.value := c.number.word?_eq

theorem read?_label (rest : List Char) :
    casePattern.read? none (c.label ++ rest) = some ⟨c.label, [(1, c.number.digits)], rest⟩ :=
  read?_case.mpr (mem_readings_case.mpr ⟨rfl, _, _, _, rest, rfl, c.separated, c.beforeNumber.blank, c.number.nonempty,
    c.number.all_isDigit, c.afterNumber.blank, rfl⟩)

theorem read?_leave {last : Option Char} (hlast : last.any isWord = false) (rest : List Char) :
    breakStatement.read? last (c.leave ++ rest) = some ⟨c.leave, [], rest⟩ :=
  (read?_markedWord (by decide) (by decide)).mpr ((mem_readings_markedWord (by decide)).mpr
    ⟨hlast, c.beforeEnd.text, rest, by simp [leave], c.beforeEnd.blank, rfl⟩)

end Delimiters

variable [CaseCode σ] (c : ClosedCase σ)

def text : List Char := c.label ++ (CaseCode.text c.code ++ (c.leave ++ c.behind.text))

/-- The marks behind the label, if the text behind the case holds no landmark. -/
def marks (more : List Char) : List LandMark :=
  (CaseCode.text c.code).map .plain ++ .found .leave c.leave [] :: (c.behind.text ++ more).map .plain

/-- The group says what the case says. -/
structure Shows (c : ClosedCase σ) (g : CaseGroup) : Prop where
  ids : g.ids = [c.number.value]
  code : g.code = CaseCode.text c.code

section Marks
variable (more : List Char)

theorem not_endsSpan : ∀ m ∈ c.marks more, endsSpan m = false := by
  intro m hm
  rcases List.mem_append.mp hm with hm | hm
  · exact endsSpan_of_mem_plain hm
  · rcases List.mem_cons.mp hm with rfl | hm
    · rfl
    · exact endsSpan_of_mem_plain hm

theorem owned_marks : owned (c.marks more) = c.marks more := by
  have hall := owned_append_of_not_ends (c.not_endsSpan more) []
  rwa [List.append_nil, show owned [] = [] from rfl, List.append_nil] at hall

theorem hasBreak_marks : hasBreak (c.marks more) = true := by simp [marks, hasBreak, Mark.isOf]

theorem unlabelled_marks : unlabelled (c.marks more) = CaseCode.text c.code ++ (c.leave ++ (c.behind.text ++ more)) := by
  rw [marks, unlabelled_append, unlabelled_plain]
  show _ ++ (c.leave ++ unlabelled _) = _
  rw [unlabelled_plain]

theorem stationsOf_marks : ∃ s : Station, stationsOf 0 (c.labelMark :: c.marks more) = [s] ∧
    s.label.id = c.number.value ∧ s.marks = c.marks more := by
  have hnone := stationsOf_append_of_none (fun m hm => number?_of_not_ends (c.not_endsSpan more m hm))
    (0 + byteLength c.labelMark.text) []
  rw [List.append_nil] at hnone
  exact ⟨_, by rw [stationsOf_some c.number?_labelMark, hnone]; rfl, rfl, rfl⟩

theorem exists_chain {s : Station} (hid : s.label.id = c.number.value) (hmarks : s.marks = c.marks more) :
    ∃ g, s.chain = some g ∧ c.Shows g := by
  have hclear : breakStatement.Clear (c.leave ++ (c.behind.text ++ more)) none (CaseCode.text c.code) := CaseCode.clear c.code .leave rfl
  have hfind : breakStatement.find? (unlabelled (c.marks more)) =
      some (Reading.toMatch (0 + byteLength (CaseCode.text c.code)) ⟨c.leave, [], c.behind.text ++ more⟩) := by
    rw [c.unlabelled_marks]
    exact (findFrom_of_clear hclear).trans (findFrom_of_read (c.read?_leave (CaseCode.outside c.code _ rfl) _))
  have htake : takeBytes (0 + byteLength (CaseCode.text c.code)) (unlabelled (c.marks more)) = CaseCode.text c.code := by
    rw [Nat.zero_add, c.unlabelled_marks, takeBytes_append]
  have hcode : holdsNoCode (CaseCode.text c.code) = false := by
    rw [(CaseCode.divides c.code).commentFree.holdsNoCode_eq, CaseCode.solid]
  have hchain : s.chain = some ⟨[c.number.value], unlabelled (c.marks more), 0 + byteLength (CaseCode.text c.code), s.label.start,
      s.label.codeStart, s.label.codeStart + byteLength (Mark.textOf (c.marks more))⟩ := by
    rw [Station.chain, hmarks, hid, toBreak, c.owned_marks, if_pos (c.hasBreak_marks more), Option.bind_some, chainAt, hfind]
    show (if holdsNoCode (takeBytes (0 + byteLength (CaseCode.text c.code)) _) then _ else _) = _
    rw [htake, hcode]
    rfl
  exact ⟨_, hchain, rfl, htake⟩

end Marks

section Alone
variable {more : List Char} (hmore : Unmarked more)

include hmore

theorem scan : Scan Landmark.pattern none (c.text ++ more) (c.labelMark :: c.marks more) := by
  have hbehind : ∀ {last : Option Char}, Scan Landmark.pattern last (c.behind.text ++ more) ((c.behind.text ++ more).map .plain) :=
    scan_of_clear fun i => clear_append.mpr ⟨clear_blank i c.behind.blank, hmore i⟩
  have htext : c.text ++ more = c.label ++ (CaseCode.text c.code ++ (c.leave ++ (c.behind.text ++ more))) := by simp [text]
  rw [htext]
  exact scan_landmark (i := .numbered) (c.read?_label _) fun hlast => Scan.prepend (fun i => CaseCode.clear c.code i hlast)
    (scan_landmark (i := .leave) (c.read?_leave (CaseCode.outside c.code _ hlast) _) fun _ => hbehind)

/-- The only label of the case has a `break;`. -/
theorem done : ∀ l ∈ (caseLabels (c.text ++ more)).getLast?, breakStatement.occursIn (l.code (c.text ++ more)) = true := by
  intro l hl
  have hscan := c.scan hmore
  have hanswered := (marksAt_of_scan hscan).answered_some c.number?_labelMark
  obtain ⟨s, hs, -, -⟩ := c.stationsOf_marks more
  have hlabels : caseLabels (c.text ++ more) = [s.label] := by rw [caseLabels_eq hscan, labelsOf, hs]; rfl
  rw [hlabels] at hl
  obtain rfl := Option.some.inj hl
  rw [← caseLabels_eq hscan, hlabels, c.owned_marks, c.hasBreak_marks] at hanswered
  exact congrArg Prod.snd (List.cons.inj hanswered).1

theorem exists_group : ∃ g, caseGroups .fallThrough breakStatement (c.text ++ more) = [g] ∧ c.Shows g := by
  obtain ⟨s, hs, hid, hmarks⟩ := c.stationsOf_marks more
  obtain ⟨g, hchain, hshows⟩ := c.exists_chain more hid hmarks
  refine ⟨g, ?_, hshows⟩
  rw [caseGroups_eq (c.scan hmore), chainsOf, hs, List.filterMap_cons, hchain]
  rfl

end Alone

/-! ### Switches of cases -/

theorem startsWithLabel (rest : List Char) : StartsWithLabel (c.text ++ rest) :=
  ⟨_, _, _, CaseCode.text c.code ++ (c.leave ++ (c.behind.text ++ rest)), c.number.value, by simp [text, label], c.separated,
    c.beforeNumber.blank, c.number.nonempty, c.number.all_isDigit, c.afterNumber.blank, c.number.word?_eq⟩

theorem edge : (lastOf none c.text).any isWord = false := by
  have htext : c.text = (c.label ++ (CaseCode.text c.code ++ ("break".toList ++ c.beforeEnd.text))) ++ ';' :: c.behind.text := by
    simp [text, leave]
  rw [htext]
  exact (outside_of_blank c.behind.blank).behind (by decide) _ none rfl

variable {cs : List (ClosedCase σ)}

theorem shows_shift {gs : List CaseGroup} (h : List.Forall₂ Shows cs gs) (k : Nat) : List.Forall₂ Shows cs (gs.map (·.shift k)) :=
  List.forall₂_map_right_iff.mpr (h.imp fun _ _ hg => ⟨hg.ids, hg.code⟩)

/-- The groups of cases are the cases. -/
theorem groups_cases (cs : List (ClosedCase σ)) :
    List.Forall₂ Shows cs (caseGroups .fallThrough breakStatement (cs.flatMap text ++ switchTail)) := by
  induction cs with
  | nil =>
    have hnone := caseGroups_of_clear (fun i => unmarked_switchTail i) breakStatement
    exact hnone ▸ List.Forall₂.nil
  | cons c cs ih =>
    rw [List.flatMap_cons, List.append_assoc]
    cases cs with
    | nil =>
      obtain ⟨g, hg, hshows⟩ := c.exists_group unmarked_switchTail
      exact hg ▸ .cons hshows .nil
    | cons d ds =>
      -- The case leaves nothing open, and the next one starts with a label.
      have hlabel : StartsWithLabel ((d :: ds).flatMap text ++ switchTail) := by
        rw [List.flatMap_cons, List.append_assoc]
        exact d.startsWithLabel _
      have hdone := c.done unmarked_nil
      obtain ⟨g, hg, hshows⟩ := c.exists_group unmarked_nil
      rw [List.append_nil] at hdone hg
      rw [caseGroups_append .fallThrough breakStatement c.edge hdone hlabel, hg]
      exact .cons hshows (shows_shift ih _)

/-- A function body that is one switch of cases. -/
def switchOf (lead : Gap) (cs : List (ClosedCase σ)) : List Char := switchHead ++ ((lead.text ++ cs.flatMap text) ++ switchTail)

theorem groups_switchOf (lead : Gap) (cs : List (ClosedCase σ)) :
    List.Forall₂ Shows cs (caseGroups .fallThrough breakStatement (switchOf lead cs)) := by
  have hclear : ∀ (i : Landmark) (behind : List Char), i.pattern.Clear behind none (switchHead ++ lead.text) := fun i behind =>
    clear_append.mpr ⟨clear_of_startless i (by decide), clear_blank i lead.blank⟩
  have htext : switchOf lead cs = (switchHead ++ lead.text) ++ (cs.flatMap text ++ switchTail) := by simp [switchOf]
  rw [htext]
  cases cs with
  | nil =>
    have hnone := @caseGroups_of_clear ((switchHead ++ lead.text) ++ switchTail)
      (fun i => clear_append.mpr ⟨hclear i _, unmarked_switchTail i⟩) breakStatement
    exact hnone ▸ List.Forall₂.nil
  | cons c cs =>
    have hlabel : StartsWithLabel ((c :: cs).flatMap text ++ switchTail) := by
      rw [List.flatMap_cons, List.append_assoc]
      exact c.startsWithLabel _
    have hnone : caseLabels (switchHead ++ lead.text) = [] := caseLabels_of_clear fun i => hclear i []
    have hedge : (lastOf none (switchHead ++ lead.text)).any isWord = false := by
      rw [lastOf_append]
      exact outside_of_blank lead.blank _ (by decide)
    rw [caseGroups_append .fallThrough breakStatement hedge (by rw [hnone]; simp) hlabel,
      caseGroups_of_clear (fun i => hclear i []), List.nil_append]
    exact shows_shift (groups_cases _) _

theorem divides_text : SlashesDivide c.text := by
  have hgap : ∀ g : Gap, '/' ∉ g.text := Gap.not_mem (by decide)
  have hdigits : '/' ∉ c.number.digits := c.number.not_mem (by decide)
  have hlabel : SlashesDivide c.label := slashesDivide_of_not_mem (by simp [label, caseText, hgap, hdigits])
  exact hlabel.append ((CaseCode.divides c.code).append (slashesDivide_of_not_mem (by simp [leave, hgap])))

theorem unbraced_text : '\x7b' ∉ c.text ∧ '\x7d' ∉ c.text := by
  obtain ⟨hopen, hclose⟩ := CaseCode.unbraced c.code
  constructor <;> simp (disch := decide) [text, label, leave, caseText, Gap.not_mem, Numeral.not_mem, hopen, hclose]

theorem commentFree_switchOf (lead : Gap) (cs : List (ClosedCase σ)) : CommentFree (switchOf lead cs) := by
  have hcases : SlashesDivide (cs.flatMap text) := .flatMap fun c _ => c.divides_text
  have hlead := (slashesDivide_of_not_mem (Gap.not_mem (by decide) lead)).append hcases
  exact ((slashesDivide_of_not_mem (by decide)).append (hlead.append (slashesDivide_of_not_mem (by decide)))).commentFree

/-- A function whose body is one switch of cases is located, and its code is the switch as it is written. -/
theorem located_switchOf {source : Source} {name : String} {lead : Gap} (hname : IsName name.toList)
    (htext : source.text = functionHead name ++ (switchOf lead cs ++ "\x7d\n".toList)) :
    ∃ l, Located.find? source name = some l ∧ l.body.text = switchOf lead cs ∧ l.code = switchOf lead cs ∧ l.unclosed = [] := by
  refine located_of_closed hname htext (untilClosed_braced (List.all_eq_true.mpr fun d hd => ?_)) (commentFree_switchOf lead cs)
  have hunbraced : '\x7b' ∉ lead.text ++ cs.flatMap text ∧ '\x7d' ∉ lead.text ++ cs.flatMap text := by
    constructor <;> simp (disch := decide) [Gap.not_mem, unbraced_text]
  have hopen : d ≠ '\x7b' := fun h => hunbraced.1 (h ▸ hd)
  have hclose : d ≠ '\x7d' := fun h => hunbraced.2 (h ▸ hd)
  simp [hopen, hclose]

end ClosedCase

end SpriteFacts.Switch
