import SpriteFacts.Proofs.Metadata.CutSwitch
import SpriteFacts.Proofs.Switch.LabelsAround

/-! Returns under a condition. The cut pass looks for the first return of a section and at nothing in front of it, so a
    condition is as good as absent: a label gets the value of its first return, and no diagnostic tells of the condition.
    That value is returned whatever the conditions are exactly if all returns that control can come to are of this
    value, down to one without a condition. -/

namespace SpriteFacts

open Switch Text Pattern

/-! ### Statements -/

/-- The name of a condition. -/
structure Flag where
  name : List Char
  isName : IsName name
  not_return : name ≠ "return".toList
  deriving DecidableEq

/-- A statement `return K;` or `if (x) return K;`. -/
structure Exit where
  condition : Option Flag
  statement : Return

namespace Exit

def lead (e : Exit) : List Char :=
  match e.condition with
  | none => []
  | some x => "if (".toList ++ (x.name ++ ") ".toList)

def text (e : Exit) : List Char := e.lead ++ e.statement.text

def value (e : Exit) : Nat := e.statement.value

end Exit

theorem Flag.not_mem (x : Flag) {c : Char} (h : isWord c = false) : c ∉ x.name := fun hc => by
  rw [List.all_eq_true.mp x.isName.2 c hc] at h
  cases h

/-- In front of a character that no landmark holds there is none that would need its mark. -/
theorem Switch.Landmark.clear_before {i : Landmark} {u behind : List Char} {c : Char} {last : Option Char}
    (hc : (isBlank c || isDigit c) = false) (hi : c ∉ i.word ++ [i.mark]) (hmark : i.mark ∉ u) :
    i.pattern.Clear (c :: behind) last u := by
  rw [clear_iff]
  rintro as bs rfl -
  refine Option.eq_none_iff_forall_ne_some.mpr fun r hr => ?_
  have hnot : c ∉ r.text := not_mem_text hr hc hi
  obtain ⟨-, inner, htext, -⟩ := shape hr
  have hmem : i.mark ∈ r.text := by simp [htext]
  have hsplit : r.text ++ r.rest = bs ++ c :: behind := (split_of_mem (mem_of_read? hr)).symm
  rcases List.append_eq_append_iff.mp hsplit with ⟨more, rfl, -⟩ | ⟨more, htext', hrest⟩
  · exact hmark (List.mem_append_right _ (List.mem_append_left _ hmem))
  · cases more with
    | nil =>
      rw [List.append_nil] at htext'
      exact hmark (List.mem_append_right _ (htext' ▸ hmem))
    | cons d more =>
      obtain ⟨rfl, -⟩ := List.cons.inj hrest
      exact hnot (htext' ▸ List.mem_append_right _ List.mem_cons_self)

namespace Exit

theorem ends_lead (e : Exit) {last : Option Char} (hlast : last.any isWord = false) :
    (Text.lastOf last e.lead).any isWord = false := by
  rw [lead]
  split
  · exact hlast
  · rw [lastOf_append, lastOf_append]
    exact show isWord ' ' = false by decide

theorem clear_lead (e : Exit) (i : Landmark) {behind : List Char} {last : Option Char} :
    i.pattern.Clear behind last e.lead := by
  rw [lead]
  split
  · trivial
  · rename_i x _
    have hmark : i.mark ∉ "if (".toList ++ x.name := by
      rw [List.mem_append, not_or]
      exact ⟨by cases i <;> decide, x.not_mem (by cases i <;> decide)⟩
    rw [← List.append_assoc]
    refine clear_append.mpr ⟨Landmark.clear_before (c := ')') (by decide) (by cases i <;> decide) hmark, ?_⟩
    exact clear_of_startless i (startless_of_all (by decide))

theorem simple_lead (e : Exit) : e.lead.all (fun c => c != '\x7b' && c != '\x7d' && c != '/') = true := by
  rw [lead]
  split
  · rfl
  · rename_i x _
    have hname : x.name.all (fun c => c != '\x7b' && c != '\x7d' && c != '/') = true := List.all_eq_true.mpr fun c hc => by
      have hnot : ∀ d : Char, isWord d = false → (c != d) = true := fun d hd =>
        bne_iff_ne.mpr fun heq => x.not_mem hd (heq ▸ hc)
      rw [hnot _ (by decide), hnot _ (by decide), hnot _ (by decide)]
      rfl
    rw [List.all_append, List.all_append, hname]
    decide

instance : Statement Exit where
  text := text
  clear e i _ _ hlast := clear_append.mpr ⟨e.clear_lead i, Statement.clear e.statement i (e.ends_lead hlast)⟩
  ends e last hlast := by
    rw [text, lastOf_append]
    exact Statement.ends e.statement (e.ends_lead hlast)
  simple e := by
    rw [text, List.all_append, e.simple_lead]
    exact Statement.simple e.statement

/-- The name of a condition may begin with the word of a return, but it is longer then. -/
theorem clear_return (e : Exit) {behind : List Char} {last : Option Char} : returnWord.Clear behind last e.lead := by
  rw [lead]
  split
  · trivial
  · rename_i x _
    have hname : ∀ (more : List Char) (last : Option Char), returnWord.Clear (')' :: more) last x.name := fun more last =>
      Return.begins_returnWord.clear_of_head x.isName.2 <| read?_eq_none.mpr fun r hr => by
        have hend : ∀ last : Option Char, (Text.lastOf last "return".toList).any isWord = true := fun _ =>
          show isWord 'n' = true by decide
        obtain ⟨-, rest, hsplit, hedge, -⟩ := (mem_readings_word (by decide) hend).mp hr
        have hhead : rest.head?.all (fun c => !isWord c) = true := by
          cases rest with
          | nil => rfl
          | cons c rest => exact (Bool.not_eq_true' _).mpr hedge
        exact x.not_return (span_unique hsplit x.isName.2 (by decide) (show (!isWord ')') = true by decide) hhead).1
    refine clear_append.mpr ⟨Metadata.clear_startless (startless_of_all (by decide)), clear_append.mpr ⟨hname _ _, ?_⟩⟩
    exact Metadata.clear_startless (startless_of_all (by decide))

instance : Metadata.Returning Exit where
  lead := lead
  exit := statement
  text_eq _ := rfl
  lead_clear e _ _ _ := e.clear_return
  lead_ends e _ hlast := e.ends_lead hlast

end Exit

/-! ### What the switch returns -/

namespace Metadata

/-- The value that is returned when control runs forward through the lines with the flags as given; none if a `break;`
    comes first. -/
def returnedUnder (flags : Flag → Bool) : List (Line Exit) → Option Nat
  | [] => none
  | l :: ls =>
    match l.item with
    | .code e => if e.condition.all flags then some e.value else returnedUnder flags ls
    | .leave => none
    | .label _ | .fallback => returnedUnder flags ls

/-- With the flags of a list unset, control comes to a return, and to none that is not of the value. -/
def agrees (v : Nat) (unset : List Flag) : List (Line Exit) → Bool
  | [] => false
  | l :: ls =>
    match l.item with
    | .code ⟨none, r⟩ => r.value = v
    | .code ⟨some x, r⟩ => if x ∈ unset then agrees v unset ls else r.value = v && agrees v (x :: unset) ls
    | .leave => false
    | .label _ | .fallback => agrees v unset ls

/-- A return under a condition that nothing is known of: the value is this one, and it is what comes behind with the
    condition unset. -/
theorem forall_conditional {v w : Nat} {x : Flag} {unset : List Flag} {rest : (Flag → Bool) → Option Nat} (hx : x ∉ unset) :
    (∀ flags : Flag → Bool, (∀ y ∈ unset, flags y = false) → (if flags x = true then some w else rest flags) = some v) ↔
      w = v ∧ ∀ flags : Flag → Bool, (∀ y ∈ x :: unset, flags y = false) → rest flags = some v := by
  constructor
  · intro h
    constructor
    · -- Set the flag alone.
      have hset := h (fun y => y = x) fun y hy => decide_eq_false fun heq => hx (heq ▸ hy)
      exact Option.some.inj ((if_pos (decide_eq_true rfl)).symm.trans hset)
    · intro flags hunset
      obtain ⟨hflag, hothers⟩ := List.forall_mem_cons.mp hunset
      exact (if_neg (by rw [hflag]; exact Bool.false_ne_true)).symm.trans (h flags hothers)
  · rintro ⟨rfl, hrest⟩ flags hunset
    cases hflag : flags x with
    | true => rfl
    | false => exact hrest flags (List.forall_mem_cons.mpr ⟨hflag, hunset⟩)

theorem agrees_iff {v : Nat} {ls : List (Line Exit)} (unset : List Flag) : agrees v unset ls = true ↔
    ∀ flags : Flag → Bool, (∀ x ∈ unset, flags x = false) → returnedUnder flags ls = some v := by
  have never : ∀ unset : List Flag,
      ¬∀ flags : Flag → Bool, (∀ x ∈ unset, flags x = false) → (none : Option Nat) = some v :=
    fun _ h => nomatch h (fun _ => false) fun _ _ => rfl
  induction ls generalizing unset with
  | nil => exact iff_of_false Bool.false_ne_true (never unset)
  | cons l ls ih =>
    simp only [agrees, returnedUnder]
    cases l.item with
    | leave => exact iff_of_false Bool.false_ne_true (never unset)
    | label n | fallback => exact ih unset
    | code e =>
      obtain ⟨_ | x, r⟩ := e
      · exact ⟨fun hv _ _ => congrArg some (of_decide_eq_true hv),
          fun h => decide_eq_true (Option.some.inj (h (fun _ => false) fun _ _ => rfl))⟩
      · show (if x ∈ unset then agrees v unset ls else r.value = v && agrees v (x :: unset) ls) = true ↔
          ∀ flags : Flag → Bool, (∀ y ∈ unset, flags y = false) →
            (if flags x = true then some r.value else returnedUnder flags ls) = some v
        by_cases hx : x ∈ unset
        · rw [if_pos hx]
          refine (ih unset).trans (forall₂_congr fun flags hunset => ?_)
          rw [if_neg (by rw [hunset x hx]; exact Bool.false_ne_true)]
        · rw [if_neg hx, Bool.and_eq_true, decide_eq_true_eq, forall_conditional hx]
          exact and_congr_right' (ih (x :: unset))

/-- The value that is attributed to the label with these lines behind it depends on a condition, or control passes it. -/
def undecided (ls : List (Line Exit)) : Bool := (attributed false (plain ls)).any fun v => !agrees v [] ls

theorem undecided_eq_false {ls : List (Line Exit)} : undecided ls = false ↔
    ∀ v, attributed false (plain ls) = some v → ∀ flags, returnedUnder flags ls = some v := by
  rw [undecided]
  cases attributed false (plain ls) with
  | none => exact iff_of_true rfl fun _ h => nomatch h
  | some v =>
    have hagrees := @agrees_iff v ls []
    simp only [List.not_mem_nil, false_implies, implies_true, true_implies] at hagrees
    show (!agrees v [] ls) = false ↔ _
    rw [Bool.not_eq_false', hagrees]
    exact ⟨fun h w hw => Option.some.inj hw ▸ h, fun h => h v rfl⟩

/-! ### The diagnostics of the pass -/

theorem ending_of_mem_ownSpanGroups {terminator : Pattern} {body : List Char} {waiting labels : List CaseLabel}
    {g : CaseGroup} (h : g ∈ ownSpanGroups terminator body waiting labels) :
    ∃ l ∈ labels, ∃ m, terminator.find? (l.code body) = some m ∧ g.ending = dropBytes m.start (l.code body) := by
  induction labels generalizing waiting with
  | nil => cases h
  | cons l labels ih =>
    have later : ∀ {held : List CaseLabel}, g ∈ ownSpanGroups terminator body held labels →
        ∃ l' ∈ l :: labels, ∃ m, terminator.find? (l'.code body) = some m ∧ g.ending = dropBytes m.start (l'.code body) := by
      intro held hg
      obtain ⟨l', hl', hend⟩ := ih hg
      exact ⟨l', List.mem_cons_of_mem l hl', hend⟩
    rw [ownSpanGroups] at h
    split at h
    · rename_i m hm
      rcases List.mem_cons.mp h with rfl | h
      · exact ⟨l, List.mem_cons_self, m, hm, rfl⟩
      · exact later h
    · split at h <;> exact later h

section Lines
variable {σ : Type} [Returning σ] {ls : List (Line σ)} {body : List Char}

/-- The code of each label is the text of the lines of a section. -/
theorem code_switch (hbody : body = switchText ls) {l : CaseLabel} (hl : l ∈ caseLabels body) :
    ∃ behind : List (Line σ), l.code body = sectionText behind := by
  subst hbody
  have hscan := scan_switch ls
  rw [caseLabels_eq hscan] at hl
  obtain ⟨s, hs, rfl⟩ := List.mem_map.mp hl
  have hmem := List.mem_map_of_mem (f := fun s : Station => (s.label.id, s.marks)) hs
  rw [stations_switch] at hmem
  obtain ⟨p, -, hp⟩ := List.mem_map.mp hmem
  refine ⟨p.2, ((marksAt_of_scan hscan).code_station s hs).1.trans ?_⟩
  rw [Station.owns, ← (Prod.mk.inj hp).2, textOf_owned]

/-- Each group of the pass gives a cut. -/
theorem returnFact_switch (constants : LayerConstants) {g : CaseGroup}
    (hg : g ∈ caseGroups .ownSpan returnWord (switchText ls)) :
    ∃ v, returnFact constants .cut g = .ok (some (.cut (.sprite v))) := by
  obtain ⟨l, hl, m, hfind, hending⟩ := ending_of_mem_ownSpanGroups hg
  obtain ⟨behind, hcode⟩ := code_switch rfl hl
  rw [hcode] at hfind hending
  cases hsec : sectionReturn (plain behind) with
  | none =>
    rw [find?_section_none hsec] at hfind
    cases hfind
  | some v =>
    obtain ⟨m', r, more, hfind', -, hdrop⟩ := find?_section hsec
    obtain rfl := Option.some.inj (hfind'.symm.trans hfind)
    exact ⟨r.value, returnFact_cut constants r (hending.trans hdrop)⟩

theorem diagnostics_cut {source : Source} {settings : Settings} (hname : settings.functionFor .cut = "_is_cut_sprite")
    (htext : source.text = functionText "_is_cut_sprite" ls) : (runPass source settings .cut).2.diagnostics = [] := by
  obtain ⟨l, hl, -, hcode, hclosed⟩ := located_functionText (by decide) htext
  rw [runPass_some (hname ▸ hl)]
  show l.unclosed ++ (caseGroups .ownSpan returnWord l.code).flatMap _ = []
  rw [hclosed, hcode, List.nil_append, List.flatMap_eq_nil_iff]
  intro g hg
  obtain ⟨v, hv⟩ := returnFact_switch settings.constants hg
  rw [hv]
  rfl

end Lines

/-! ### The document -/

/-- The pass reports nothing, and each label gets the value of its first return as if there were no conditions. The
    values are returned whatever the conditions are exactly if no label is undecided. -/
theorem cut_unconditional_iff_not_undecided {source : Source} {settings : Settings} {ls : List (Line Exit)}
    (hname : settings.functionFor .cut = "_is_cut_sprite") (htext : source.text = functionText "_is_cut_sprite" ls)
    (hdistinct : ((labelled ls).map (·.1.value)).Nodup) :
    let d := Document.extract source settings .metadata
    let warned := (runPass source settings .cut).2.diagnostics
    warned = [] ∧
    (∀ id value, GivesCut d id value ↔ ∃ p ∈ labelled ls, p.1.value = id ∧ attributed false (plain p.2) = some value) ∧
    ((∀ p ∈ labelled ls, ∀ value, GivesCut d p.1.value value → (∀ w ∈ warned, p.1.value ∉ w.ids) →
        ∀ flags, returnedUnder flags p.2 = some value) ↔ ∀ p ∈ labelled ls, undecided p.2 = false) := by
  intro d warned
  have hquiet : warned = [] := diagnostics_cut hname htext
  have hgives := givesCut_lines hname htext hdistinct
  refine ⟨hquiet, hgives, ?_, ?_⟩
  · intro hsound p hp
    refine undecided_eq_false.mpr fun v hv => hsound p hp v ((hgives _ v).mpr ⟨p, hp, rfl, hv⟩) fun w hw => ?_
    rw [hquiet] at hw
    cases hw
  · intro hdecided p hp v hgiven _
    obtain ⟨q, hq, hqp, hv⟩ := (hgives _ v).mp hgiven
    obtain rfl : q = p := List.inj_on_of_nodup_map hdistinct hq hp hqp
    exact undecided_eq_false.mp (hdecided q hq) v hv

/-- Conditional returns that agree with the return behind them. -/
def agreeing : List (Line Exit) :=
  [.of (.label 1), .of (.code ⟨some ⟨['x'], by decide, by decide⟩, ⟨7⟩⟩), .of (.label 2), .of (.code ⟨none, ⟨7⟩⟩)]

theorem cut_unconditional_iff_not_undecided_agreeing :
    let source := Source.ofString "agreeing.c"
      "int _is_cut_sprite(int sprite)\n\x7b\nswitch (sprite) \x7b\ncase 1:\nif (x) return 7;\ncase 2:\nreturn 7;\n\x7d\n\x7d\n"
    source.text = functionText "_is_cut_sprite" agreeing ∧ GivesCut (Document.extract source {} .metadata) 1 7 ∧
      ∀ p ∈ labelled agreeing, ∀ value, GivesCut (Document.extract source {} .metadata) p.1.value value →
        ∀ flags, returnedUnder flags p.2 = some value := by
  intro source
  have htext : source.text = functionText "_is_cut_sprite" agreeing := by decide +kernel
  obtain ⟨hquiet, hgives, hsound⟩ := @cut_unconditional_iff_not_undecided source {} agreeing rfl htext (by decide)
  refine ⟨htext, (hgives 1 7).mpr ⟨_, List.mem_cons_self, rfl, by decide⟩, fun p hp v hv => ?_⟩
  refine hsound.mpr (by decide) p hp v hv fun w hw => ?_
  rw [hquiet] at hw
  cases hw

/-- A label gets the value of a return that control comes to only under a condition, and the pass reports nothing. -/
theorem cut_conditional :
    let source := Source.ofString "conditional.c"
      "int _is_cut_sprite(int sprite)\n\x7b\nswitch (sprite) \x7b\ncase 1:\nif (x) return 5;\nreturn 7;\n\x7d\n\x7d\n"
    ∃ ls : List (Line Exit), source.text = functionText "_is_cut_sprite" ls ∧
      (runPass source {} .cut).2.diagnostics = [] ∧
      ∃ p ∈ labelled ls, GivesCut (Document.extract source {} .metadata) p.1.value 5 ∧
        returnedUnder (fun _ => false) p.2 = some 7 := by
  intro source
  let ls : List (Line Exit) :=
    [.of (.label 1), .of (.code ⟨some ⟨['x'], by decide, by decide⟩, ⟨5⟩⟩), .of (.code ⟨none, ⟨7⟩⟩)]
  have htext : source.text = functionText "_is_cut_sprite" ls := by decide +kernel
  have hgives := @givesCut_lines source {} Exit _ ls rfl htext (by decide) 1 5
  exact ⟨ls, htext, diagnostics_cut rfl htext, _, List.mem_cons_self,
    hgives.mpr ⟨_, List.mem_cons_self, rfl, by decide⟩, by decide⟩

end Metadata
end SpriteFacts
