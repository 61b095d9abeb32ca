import SpriteFacts.Proofs.Switch.Execution
import SpriteFacts.Proofs.Switch.FallThrough

/-! The case groups of a switch of lines against the statements that run. In a switch without a default label the code of
    a label up to the first `break;` spells the statements that run behind it. A label is in a group exactly if there is
    such a `break;` and a statement in front of it, and all labels of a group run the statements that the code of the
    group spells, because statements are known from their text without blanks. -/

namespace SpriteFacts.Switch

open Text Pattern

def solid (t : List Char) : List Char := t.filter fun c => !isBlank c

/-- Statements that are known from their text without blanks, one after another. -/
class Spelling (σ : Type) extends Statement σ where
  solid_ne_nil : ∀ s : σ, solid (text s) ≠ []
  solid_unique : ∀ {s s' : σ} {xs ys : List Char}, solid (text s) ++ xs = solid (text s') ++ ys → s = s' ∧ xs = ys

theorem solid_append (t u : List Char) : solid (t ++ u) = solid t ++ solid u := List.filter_append ..

theorem solid_of_blank {t : List Char} (h : t.all isBlank = true) : solid t = [] := by
  refine List.filter_eq_nil_iff.mpr fun c hc => ?_
  rw [List.all_eq_true.mp h c hc]
  exact Bool.false_ne_true

theorem solid_eq_of_words {t u : List Char} (h : words t = words u) : solid t = solid u := by
  rw [solid, solid, ← flatten_words, ← flatten_words, h]

/-- The text is the statements, with blanks in front of each and at its end. -/
inductive Spelled {σ : Type} [Statement σ] : List σ → List Char → Prop
  | blank {t : List Char} (h : t.all isBlank = true) : Spelled [] t
  | code {gap : List Char} {s : σ} {ss : List σ} {t : List Char} (h : gap.all isBlank = true) (rest : Spelled ss t) :
      Spelled (s :: ss) (gap ++ (Statement.text s ++ t))

/-- What a pattern keeps of a statement that stands at the start of a word, and that it reads nothing in any other. -/
structure Keeps {σ : Type} [Statement σ] (p : Pattern) (part : σ → Option (List Char)) : Prop where
  clear_blank : ∀ {gap behind : List Char} {last : Option Char}, gap.all isBlank = true → p.Clear behind last gap
  read?_nil : ∀ last, p.read? last [] = none
  clear : ∀ {s : σ} {behind : List Char} {last : Option Char}, last.any isWord = false → part s = none →
    p.Clear behind last (Statement.text s)
  read : ∀ {s : σ} {k : List Char} {last : Option Char} (rest : List Char), last.any isWord = false → part s = some k →
    ∃ r, p.read? last (Statement.text s ++ rest) = some r ∧ r.kept = [(1, k)]

/-- A pattern that reads single statements finds the first one that it reads. -/
theorem Keeps.findFrom_eq {σ : Type} [Statement σ] {p : Pattern} {part : σ → Option (List Char)} (h : Keeps p part)
    {ss : List σ} {t : List Char} (ht : Spelled ss t) {last : Option Char} (hlast : last.any isWord = false) (n : Nat) :
    (p.findFrom (Pattern.place last n) t).bind (·.group? 1) = ss.findSome? part := by
  induction ht generalizing last n with
  | blank ht =>
    have hnone : p.findFrom (Pattern.place last n) _ = none := findFrom_eq_none.mpr ⟨h.clear_blank ht, h.read?_nil _⟩
    rw [hnone]
    rfl
  | @code gap s ss t ht rest ih =>
    have hedge := lastOf_blank ht hlast
    rw [findFrom_of_clear (h.clear_blank ht)]
    cases hpart : part s with
    | some k =>
      obtain ⟨r, hr, hkept⟩ := h.read t hedge hpart
      rw [findFrom_of_read hr, List.findSome?_cons, hpart]
      show ((r.kept.find? fun k => k.1 == 1).map (·.2)) = _
      rw [hkept]
      rfl
    | none =>
      rw [findFrom_of_clear (h.clear hedge hpart), ih (Statement.ends s hedge), List.findSome?_cons, hpart]

namespace Spelled

theorem prepend {σ : Type} [Statement σ] {ss : List σ} {gap t : List Char} (hgap : gap.all isBlank = true) (h : Spelled ss t) :
    Spelled ss (gap ++ t) := by
  cases h with
  | blank ht => exact .blank (by rw [List.all_append, hgap, ht]; rfl)
  | code ht rest =>
    rw [← List.append_assoc]
    exact .code (by rw [List.all_append, hgap, ht]; rfl) rest

variable {σ : Type} [Spelling σ] {ss : List σ} {t : List Char}

theorem solid_eq (h : Spelled ss t) : solid t = ss.flatMap fun s => solid (Statement.text s) := by
  induction h with
  | blank ht => exact solid_of_blank ht
  | code ht rest ih => rw [solid_append, solid_append, solid_of_blank ht, ih, List.nil_append, List.flatMap_cons]

/-- Only code without a statement is blank. -/
theorem all_isBlank (h : Spelled ss t) : t.all isBlank = ss.isEmpty := by
  cases h with
  | blank ht => exact ht
  | @code gap s ss t ht rest =>
    refine Bool.eq_false_iff.mpr fun hall => Spelling.solid_ne_nil s ?_
    rw [List.all_append, List.all_append, Bool.and_eq_true, Bool.and_eq_true] at hall
    exact solid_of_blank hall.2.1

/-- Code with the same words spells the same statements. -/
theorem unique {ss' : List σ} {u : List Char} (ht : Spelled ss t) (hu : Spelled ss' u) (h : words t = words u) : ss = ss' := by
  have hsolid : (ss.flatMap fun s => solid (Statement.text s)) = ss'.flatMap fun s => solid (Statement.text s) := by
    rw [← ht.solid_eq, ← hu.solid_eq, solid_eq_of_words h]
  have hne : ∀ (s : σ) (xs : List Char), solid (Statement.text s) ++ xs ≠ [] := fun s xs hnil =>
    Spelling.solid_ne_nil s (List.append_eq_nil_iff.mp hnil).1
  clear ht hu h
  induction ss generalizing ss' with
  | nil =>
    cases ss' with
    | nil => rfl
    | cons s' ss' => exact absurd hsolid.symm (hne s' _)
  | cons s ss ih =>
    cases ss' with
    | nil => exact absurd hsolid (hne s _)
    | cons s' ss' =>
      obtain ⟨rfl, hrest⟩ := Spelling.solid_unique hsolid
      rw [ih hrest]

end Spelled

/-- The code up to the first `break;` is the statements that run. -/
theorem spelled_execute {σ : Type} [Statement σ] {ls : List (Line σ)} (hplain : ∀ l ∈ ls, l.item ≠ .fallback) {ss : List σ}
    (hrun : execute ls = some ss) (tail : List Char) :
    Spelled ss (unlabelled (beforeBreak (linesMarks ls ++ tail.map .plain))) := by
  induction ls generalizing ss with
  | nil => cases hrun
  | cons l ls ih =>
    have htail := @ih fun x hx => hplain x (List.mem_cons_of_mem l hx)
    have hitem := hplain l List.mem_cons_self
    rw [linesMarks_cons, beforeBreak_plain, unlabelled_append, unlabelled_plain]
    rw [execute] at hrun
    cases hi : l.item with
    | label n =>
      rw [hi] at hrun
      exact (htail hrun).prepend l.blank
    | fallback => exact absurd hi hitem
    | leave =>
      rw [hi] at hrun
      obtain rfl := Option.some.inj hrun
      refine .blank ?_
      rw [List.all_append, l.blank]
      rfl
    | code s =>
      rw [hi] at hrun
      obtain ⟨rest, hrest, rfl⟩ := Option.map_eq_some_iff.mp hrun
      rw [Item.marks, beforeBreak_plain, unlabelled_append, unlabelled_plain]
      exact .code l.blank (htail hrest)

/-! ### Labels of the text and labels of the lines -/

section Labels
variable {σ : Type} [Spelling σ] {ls : List (Line σ)} {l : CaseLabel} {p : Numeral maxWord × List (Line σ)}

/-- A label of the text is that of the lines behind it. -/
structure LabelOf (ls : List (Line σ)) (l : CaseLabel) (p : Numeral maxWord × List (Line σ)) : Prop where
  number : l.id = p.1.value
  resolved_eq : resolved (switchText ls) l = (execute p.2).any fun ss => !ss.isEmpty
  spelled : ∀ ss, execute p.2 = some ss → Spelled ss (codeToBreak (switchText ls) l)

theorem labelOf_of_station (hplain : ∀ l ∈ ls, l.item ≠ .fallback) (hp : p ∈ labelled ls) {s : Station}
    (hs : s ∈ stationsOf 0 (switchMarks ls)) (hsp : (s.label.id, s.marks) = (p.1.value, linesMarks p.2 ++ switchTail.map .plain)) :
    LabelOf ls s.label p := by
  obtain ⟨hid, hmarks⟩ := Prod.mk.inj hsp
  have hscan := scan_switch ls
  obtain ⟨front, hbehind⟩ := exists_behind hscan hs
  obtain ⟨us, m, hat⟩ := mem_stationsOf hs
  have hplain' : ∀ l ∈ p.2, l.item ≠ .fallback := fun l hl => hplain l ((labelled_suffix hp).subset hl)
  have hspelled : ∀ ss, execute p.2 = some ss → Spelled ss (codeToBreak (switchText ls) s.label) := by
    intro ss hrun
    rw [hbehind.codeToBreak_eq, hmarks]
    exact spelled_execute hplain' hrun _
  refine ⟨hid, ?_, hspelled⟩
  rw [resolved, hat.reachesBreak_eq hscan, hmarks, isSome_toBreak (not_fallback_lines hplain' _), hasBreak_lines]
  cases hrun : execute p.2 with
  | none => rfl
  | some ss =>
    rw [(hspelled ss hrun).all_isBlank]
    rfl

theorem exists_lines (hplain : ∀ l ∈ ls, l.item ≠ .fallback) (hl : l ∈ caseLabels (switchText ls)) :
    ∃ p ∈ labelled ls, LabelOf ls l p := by
  rw [caseLabels_eq (scan_switch ls)] at hl
  obtain ⟨s, hs, rfl⟩ := List.mem_map.mp hl
  have hmem : (s.label.id, s.marks) ∈ (stationsOf 0 (switchMarks ls)).map fun s => (s.label.id, s.marks) :=
    List.mem_map_of_mem hs
  rw [stations_switch] at hmem
  obtain ⟨p, hp, hsp⟩ := List.mem_map.mp hmem
  exact ⟨p, hp, labelOf_of_station hplain hp hs hsp.symm⟩

theorem exists_label (hplain : ∀ l ∈ ls, l.item ≠ .fallback) (hp : p ∈ labelled ls) :
    ∃ l ∈ caseLabels (switchText ls), LabelOf ls l p := by
  have hmem : (p.1.value, linesMarks p.2 ++ switchTail.map .plain) ∈
      (labelled ls).map fun p => (p.1.value, linesMarks p.2 ++ switchTail.map .plain) := List.mem_map_of_mem hp
  rw [← stations_switch] at hmem
  obtain ⟨s, hs, hsp⟩ := List.mem_map.mp hmem
  refine ⟨s.label, ?_, labelOf_of_station hplain hp hs hsp⟩
  rw [caseLabels_eq (scan_switch ls)]
  exact List.mem_map_of_mem hs

theorem ids_switch (ls : List (Line σ)) : (caseLabels (switchText ls)).map (·.id) = (labelled ls).map (·.1.value) := by
  have hids := congrArg (List.map Prod.fst) (stations_switch ls)
  rw [List.map_map, List.map_map] at hids
  rw [caseLabels_eq (scan_switch ls), labelsOf, List.map_map]
  exact hids

theorem mem_runs {run : List CaseLabel} (hrun : run ∈ runs (switchText ls)) (hl : l ∈ run) :
    l ∈ caseLabels (switchText ls) ∧ resolved (switchText ls) l = true := by
  have hmem : l ∈ (runs (switchText ls)).flatten := List.mem_flatten.mpr ⟨run, hrun, hl⟩
  rw [runs, List.flatten_splitBy] at hmem
  exact List.mem_filter.mp hmem

/-- All labels of a run come to the statements of the run's code. -/
theorem execute_of_mem_runs (hplain : ∀ l ∈ ls, l.item ≠ .fallback) {run : List CaseLabel} (hrun : run ∈ runs (switchText ls))
    {first : CaseLabel} (hfirst : first ∈ run) :
    ∃ ss ≠ [], Spelled ss (codeToBreak (switchText ls) first) ∧
      ∀ l ∈ run, ∃ p ∈ labelled ls, l.id = p.1.value ∧ execute p.2 = some ss := by
  have hruns : ∀ l ∈ run, ∃ p ∈ labelled ls, l.id = p.1.value ∧ ∃ ss ≠ [], execute p.2 = some ss ∧
      Spelled ss (codeToBreak (switchText ls) l) := by
    intro l hl
    obtain ⟨hlabel, hresolved⟩ := mem_runs hrun hl
    obtain ⟨p, hp, hof⟩ := exists_lines hplain hlabel
    rw [hof.resolved_eq, Option.any_eq_true] at hresolved
    obtain ⟨ss, hss, hne⟩ := hresolved
    exact ⟨p, hp, hof.number, ss, by simpa using hne, hss, hof.spelled ss hss⟩
  obtain ⟨-, -, -, ss, hne, -, hspelled⟩ := hruns first hfirst
  refine ⟨ss, hne, hspelled, fun l hl => ?_⟩
  obtain ⟨p, hp, hid, ss', -, hss', hspelled'⟩ := hruns l hl
  rw [hspelled.unique hspelled' (words_eq_of_mem_runs hrun hfirst hl)]
  exact ⟨p, hp, hid, hss'⟩

end Labels

/-! ### Groups and the lines behind their labels -/

theorem ids_of_outcomes {code : CaseLabel → List Char} : ∀ {gs : List CaseGroup} {rs : List (List CaseLabel)},
    gs.map (some ·.outcome) = rs.map (outcomeOf code) → gs.flatMap (·.ids) = rs.flatten.map (·.id)
  | [], [], _ => rfl
  | [], _ :: _, h => nomatch h
  | _ :: _, [], h => nomatch h
  | g :: gs, r :: rs, h => by
    obtain ⟨hhead, htail⟩ := List.cons.inj h
    obtain ⟨-, -, hids, -⟩ := outcomeOf_eq_some hhead.symm
    rw [List.flatMap_cons, List.flatten_cons, List.map_append, ids_of_outcomes htail]
    exact congrArg (· ++ _) hids

/-- The case groups of a switch. -/
def switchGroups {σ : Type} [Statement σ] (ls : List (Line σ)) : List CaseGroup :=
  caseGroups .fallThrough breakStatement (switchText ls)

theorem outcomes_switch {σ : Type} [Statement σ] (ls : List (Line σ)) :
    (switchGroups ls).map (some ·.outcome) = (runs (switchText ls)).map (outcomeOf (codeToBreak (switchText ls))) :=
  outcomes_eq_runs (createsNone_switch ls) (commentFree_unlabelled_switch ls)

theorem slash_not_mem_span {σ : Type} [Statement σ] (ls : List (Line σ)) (g : CaseGroup) : '/' ∉ g.spanOf (switchText ls) := by
  intro h
  refine slash_not_mem_switch ls ?_
  rw [← takeBytes_append_dropBytes g.spanStart (switchText ls)]
  refine List.mem_append.mpr (Or.inr ?_)
  rw [← takeBytes_append_dropBytes (g.spanStop - g.spanStart) (dropBytes g.spanStart (switchText ls))]
  exact List.mem_append.mpr (Or.inl h)

section Groups
variable {σ : Type} [Spelling σ] {ls : List (Line σ)} {g : CaseGroup}

/-- The code of a group spells what runs from each of its labels. -/
theorem spelled_of_mem_groups (hplain : ∀ l ∈ ls, l.item ≠ .fallback) (hg : g ∈ switchGroups ls) :
    ∃ ss ≠ [], Spelled ss g.code ∧ ∀ id ∈ g.ids, ∃ p ∈ labelled ls, p.1.value = id ∧ execute p.2 = some ss := by
  have hmem : some g.outcome ∈ (switchGroups ls).map (some ·.outcome) := List.mem_map.mpr ⟨g, hg, rfl⟩
  rw [outcomes_switch] at hmem
  obtain ⟨run, hrun, houtcome⟩ := List.mem_map.mp hmem
  obtain ⟨first, hfirst, hids, hcode⟩ := outcomeOf_eq_some houtcome
  obtain ⟨ss, hne, hspelled, hlabels⟩ := execute_of_mem_runs hplain hrun hfirst
  refine ⟨ss, hne, show Spelled ss g.outcome.code from hcode ▸ hspelled, fun id hid => ?_⟩
  rw [show g.ids = run.map (·.id) from hids] at hid
  obtain ⟨l, hl, rfl⟩ := List.mem_map.mp hid
  obtain ⟨p, hp, hnumber, hexecute⟩ := hlabels l hl
  exact ⟨p, hp, hnumber.symm, hexecute⟩

/-- A label that comes to a `break;` after a statement is in a group. -/
theorem exists_group (hplain : ∀ l ∈ ls, l.item ≠ .fallback) {p : Numeral maxWord × List (Line σ)} (hp : p ∈ labelled ls)
    {ss : List σ} (hexecute : execute p.2 = some ss) (hne : ss ≠ []) : ∃ g ∈ switchGroups ls, p.1.value ∈ g.ids := by
  obtain ⟨l, hl, hof⟩ := exists_label hplain hp
  have hresolved : resolved (switchText ls) l = true := by
    rw [hof.resolved_eq, hexecute]
    simpa using hne
  have hmem : l ∈ (runs (switchText ls)).flatten := by
    rw [runs, List.flatten_splitBy]
    exact List.mem_filter.mpr ⟨hl, hresolved⟩
  obtain ⟨run, hrun, hlrun⟩ := List.mem_flatten.mp hmem
  have houtcome := @List.mem_map_of_mem _ _ _ _ (outcomeOf (codeToBreak (switchText ls))) hrun
  rw [← outcomes_switch] at houtcome
  obtain ⟨g, hg, houtcome⟩ := List.mem_map.mp houtcome
  obtain ⟨-, -, hids, -⟩ := outcomeOf_eq_some houtcome.symm
  refine ⟨g, hg, ?_⟩
  rw [← hof.number, show g.ids = run.map (·.id) from hids]
  exact List.mem_map_of_mem hlrun

/-- Labels with different numbers have their numbers in different places of the groups. -/
theorem nodup_ids_groups (hdistinct : ((labelled ls).map (·.1.value)).Nodup) : ((switchGroups ls).flatMap (·.ids)).Nodup := by
  have hsub : (runs (switchText ls)).flatten.Sublist (caseLabels (switchText ls)) := by
    rw [runs, List.flatten_splitBy]
    exact List.filter_sublist
  rw [ids_of_outcomes (outcomes_switch ls)]
  exact (ids_switch ls ▸ hdistinct).sublist (hsub.map _)

end Groups
end SpriteFacts.Switch
