import Mathlib.Data.List.Nodup
import SpriteFacts.Document.Basic
import SpriteFacts.Proofs.Metadata.ReturnText
import SpriteFacts.Proofs.Record.LastWins

/-! The cut pass against the switch that it reads. The lines behind a label say what the function returns for its
    number when control runs forward through them, and what the pass attributes to it. The two are not the same:
    a `break;` does not hide a return behind it, and a label that runs into a default section waits for the
    next label. The document states the attributed value, so it is right exactly if no label is misread. -/

namespace SpriteFacts.Metadata

open Switch Text Pattern

/-! ### Statements that return -/

/-- Statements that end with a return and hold its word only there. -/
class Returning (σ : Type) extends Statement σ where
  lead : σ → List Char
  exit : σ → Return
  text_eq : ∀ s : σ, text s = lead s ++ (exit s).text
  lead_clear : ∀ (s : σ) {behind : List Char} {last : Option Char}, last.any isWord = false → returnWord.Clear behind last (lead s)
  lead_ends : ∀ (s : σ) {last : Option Char}, last.any isWord = false → (Text.lastOf last (lead s)).any isWord = false

instance : Returning Return where
  lead _ := []
  exit r := r
  text_eq _ := rfl
  lead_clear _ _ _ _ := trivial
  lead_ends _ _ hlast := hlast

section Plain
variable {σ : Type} [Returning σ]

/-- The item with its return alone. -/
def plainItem : Item σ → Item Return
  | .label n => .label n
  | .fallback => .fallback
  | .leave => .leave
  | .code s => .code (Returning.exit s)

/-- The lines with the returns alone, whatever leads to them. -/
def plain (ls : List (Line σ)) : List (Line Return) := ls.map fun l => ⟨l.gap, l.blank, plainItem l.item⟩

theorem plain_cons (l : Line σ) (ls : List (Line σ)) : plain (l :: ls) = ⟨l.gap, l.blank, plainItem l.item⟩ :: plain ls := rfl

end Plain

theorem plain_return (ls : List (Line Return)) : plain ls = ls := by
  have hitem : ∀ i : Item Return, plainItem i = i := fun i => by cases i <;> rfl
  induction ls with
  | nil => rfl
  | cons l ls ih => rw [plain_cons, hitem, ih]

/-! ### What a label returns and what is attributed to it -/

/-- The value that is returned when control runs forward through the lines; none if a `break;` comes first. -/
def returned : List (Line Return) → Option Nat
  | [] => none
  | l :: ls =>
    match l.item with
    | .code r => some r.value
    | .leave => none
    | .label _ | .fallback => returned ls

/-- The first value that the lines return before the next label. -/
def sectionReturn : List (Line Return) → Option Nat
  | [] => none
  | l :: ls =>
    match l.item with
    | .code r => some r.value
    | .leave => sectionReturn ls
    | .label _ | .fallback => none

/-- The value that is attributed to a label with the lines behind it. A blank label waits for the next label and
    `skips` what a default section holds. -/
def attributed (skips : Bool) : List (Line Return) → Option Nat
  | [] => none
  | l :: ls =>
    match l.item with
    | .label _ => attributed false ls
    | .fallback => attributed true ls
    | .leave => if skips then attributed true ls else sectionReturn ls
    | .code r => if skips then attributed true ls else some r.value

/-- The label with these lines behind it gets a value that is not returned for it: only labels stand before a
    `break;` with a return behind it, or before a default label behind which the next label gets a value
    that is not what control comes to there. -/
def misread : List (Line Return) → Bool
  | [] => false
  | l :: ls =>
    match l.item with
    | .label _ => misread ls
    | .fallback => (attributed true ls).isSome && attributed true ls != returned ls
    | .leave => (sectionReturn ls).isSome
    | .code _ => false

theorem misread_iff (ls : List (Line Return)) :
    misread ls = true ↔ ∃ v, attributed false ls = some v ∧ returned ls ≠ some v := by
  induction ls with
  | nil => simp [misread, attributed]
  | cons l ls ih =>
    rw [misread, attributed, returned]
    cases l.item with
    | label n => exact ih
    | fallback =>
      cases attributed true ls with
      | none => simp
      | some v =>
        show (true && some v != returned ls) = true ↔ _
        rw [Bool.true_and, bne_iff_ne]
        refine ⟨fun hne => ⟨v, rfl, hne.symm⟩, fun ⟨w, hw, hne⟩ => ?_⟩
        obtain rfl := Option.some.inj hw
        exact hne.symm
    | leave => cases h : sectionReturn ls <;> simp
    | code r => simp

/-! ### The text of a section -/

/-- The first line is a label, so the section before it is blank. -/
def startsWithLabel : List (Line Return) → Bool
  | [] => false
  | l :: _ =>
    match l.item with
    | .label _ | .fallback => true
    | .leave | .code _ => false

theorem attributed_of_label {ls : List (Line Return)} (h : startsWithLabel ls = true) :
    attributed false ls = attributed true ls ∧ sectionReturn ls = none := by
  cases ls with
  | nil => cases h
  | cons l ls =>
    rw [startsWithLabel] at h
    rw [attributed, attributed, sectionReturn]
    cases hi : l.item with
    | label n | fallback => exact ⟨rfl, rfl⟩
    | leave | code r =>
      rw [hi] at h
      cases h

theorem startsWithLabel_of_return {ls : List (Line Return)} {v : Nat} (h : sectionReturn ls = some v) :
    startsWithLabel ls = false := by
  cases hstart : startsWithLabel ls with
  | false => rfl
  | true =>
    rw [(attributed_of_label hstart).2] at h
    cases h

theorem attributed_of_code {ls : List (Line Return)} (h : startsWithLabel ls = false) :
    attributed false ls = sectionReturn ls := by
  cases ls with
  | nil => rfl
  | cons l ls =>
    rw [startsWithLabel] at h
    rw [attributed, sectionReturn]
    cases hi : l.item with
    | leave | code r => rfl
    | label n | fallback =>
      rw [hi] at h
      cases h

theorem clear_gap {σ : Type} (l : Line σ) {behind : List Char} {last : Option Char} : returnWord.Clear behind last l.gap :=
  Return.begins_returnWord.clear_of_blank (by decide) l.blank

theorem clear_startless {behind t : List Char} {last : Option Char} (ht : startless (· == 'r') last t = true) :
    returnWord.Clear behind last t :=
  Return.begins_returnWord.clear_of_startless (fun w hw => by rw [List.mem_singleton.mp hw]; decide) ht

theorem clear_leave {behind : List Char} {last : Option Char} : returnWord.Clear behind last "break;".toList := by
  refine clear_startless ?_
  show ((last.any isWord || true) && startless (· == 'r') (some 'b') "reak;".toList) = true
  rw [Bool.or_true]
  decide

section Section
variable {σ : Type} [Returning σ]

theorem all_isBlank_section (ls : List (Line σ)) : (sectionText ls).all isBlank = startsWithLabel (plain ls) := by
  cases ls with
  | nil => exact show switchTail.all isBlank = false by decide
  | cons l ls =>
    rw [sectionText, plain_cons, startsWithLabel]
    cases l.item with
    | label n | fallback => exact l.blank
    | leave =>
      rw [List.all_append, List.all_append]
      show (_ && (false && _)) = false
      rw [Bool.false_and, Bool.and_false]
    | code s =>
      have hword : "return".toList.all isBlank = false := by decide
      have hreturn : (Returning.exit s).text.all isBlank = false := by rw [Return.text_eq, List.all_append, hword, Bool.false_and]
      have hcode : (Statement.text s).all isBlank = false := by rw [Returning.text_eq s, List.all_append, hreturn, Bool.and_false]
      show (l.gap ++ (Statement.text s ++ sectionText ls)).all isBlank = false
      rw [List.all_append, List.all_append, hcode, Bool.false_and, Bool.and_false]

theorem clear_section {ls : List (Line σ)} (h : sectionReturn (plain ls) = none) {last : Option Char} :
    returnWord.Clear [] last (sectionText ls) := by
  induction ls generalizing last with
  | nil => exact clear_startless (t := switchTail) (startless_of_all (by decide))
  | cons l ls ih =>
    rw [plain_cons, sectionReturn] at h
    rw [sectionText]
    cases hi : l.item with
    | label n | fallback => exact clear_gap l
    | leave =>
      rw [hi] at h
      exact clear_append.mpr ⟨clear_gap l, clear_append.mpr ⟨clear_leave, ih h⟩⟩
    | code r =>
      rw [hi] at h
      cases h

/-- The first return of a section is the first place where the word stands. -/
theorem split_section {ls : List (Line σ)} {v : Nat} (h : sectionReturn (plain ls) = some v) {last : Option Char}
    (hlast : last.any isWord = false) : ∃ (front : List Char) (r : Return) (more : List Char), r.value = v ∧
      sectionText ls = front ++ (r.text ++ more) ∧ returnWord.Clear (r.text ++ more) last front ∧
      (Text.lastOf last front).any isWord = false := by
  induction ls generalizing last with
  | nil => cases h
  | cons l ls ih =>
    have hgap := lastOf_blank l.blank hlast
    rw [plain_cons, sectionReturn] at h
    rw [sectionText]
    cases hi : l.item with
    | label n | fallback =>
      rw [hi] at h
      cases h
    | leave =>
      rw [hi] at h
      have hbreak : (Text.lastOf (Text.lastOf last l.gap) "break;".toList).any isWord = false := show isWord ';' = false by decide
      obtain ⟨front, r, more, hv, htext, hclear, hedge⟩ := ih h hbreak
      refine ⟨l.gap ++ ("break;".toList ++ front), r, more, hv, ?_, ?_, ?_⟩
      · rw [htext, List.append_assoc, List.append_assoc]
        rfl
      · exact clear_append.mpr ⟨clear_gap l, clear_append.mpr ⟨clear_leave, hclear⟩⟩
      · rw [lastOf_append, lastOf_append]
        exact hedge
    | code s =>
      rw [hi] at h
      refine ⟨l.gap ++ Returning.lead s, Returning.exit s, sectionText ls, Option.some.inj h, ?_, ?_, ?_⟩
      · show l.gap ++ (Statement.text s ++ sectionText ls) = _
        rw [Returning.text_eq s, List.append_assoc, List.append_assoc]
      · exact clear_append.mpr ⟨clear_gap l, Returning.lead_clear s hgap⟩
      · rw [lastOf_append]
        exact Returning.lead_ends s hgap

/-- A search for the word finds the first return of a section. -/
theorem find?_section {ls : List (Line σ)} {v : Nat} (h : sectionReturn (plain ls) = some v) :
    ∃ (m : Match) (r : Return) (more : List Char), returnWord.find? (sectionText ls) = some m ∧ r.value = v ∧
      dropBytes m.start (sectionText ls) = r.text ++ more := by
  obtain ⟨front, r, more, hv, htext, hclear, hedge⟩ := @split_section σ _ ls v h none rfl
  obtain ⟨m, hfind, hstart⟩ : ∃ m, returnWord.find? (sectionText ls) = some m ∧ m.start = byteLength front := by
    rw [htext, find?]
    exact ⟨_, (findFrom_of_clear hclear).trans (findFrom_of_read (r.read?_word hedge more)), Nat.zero_add _⟩
  exact ⟨m, r, more, hfind, hv, by rw [hstart, htext, dropBytes_append]⟩

theorem find?_section_none {ls : List (Line σ)} (h : sectionReturn (plain ls) = none) : returnWord.find? (sectionText ls) = none :=
  findFrom_eq_none.mpr ⟨clear_section h, Return.begins_returnWord.read?_nil (by decide)⟩

end Section

/-! ### The groups of the pass -/

def cutRecord (id value : Nat) : Metadata := (Fact.cut (.sprite value)).record id

/-- The records that the cut pass makes of groups. -/
def cutRecords (constants : LayerConstants) (groups : List CaseGroup) : List Metadata :=
  groups.flatMap fun g => groupRecords g (returnFact constants .cut g)

theorem returnFact_cut (constants : LayerConstants) (r : Return) {g : CaseGroup} {more : List Char}
    (hending : g.ending = r.text ++ more) : returnFact constants .cut g = .ok (some (.cut (.sprite r.value))) := by
  have hread : readReturn constants .cut ⟨g.ids.headD 0, r.numeral.digits⟩ = .ok (some (.cut (.sprite r.value))) := by
    rw [readReturn, Cut.chain_numeral]
    rfl
  simp only [returnFact, r.returnExpression?_eq hending, hread]

section Groups
variable {σ : Type} [Returning σ] {body : List Char} {ls : List (Line σ)} {l : CaseLabel} {waiting labels : List CaseLabel}
  {constants : LayerConstants}

/-- A label with a return in its section and the labels that wait for it get the value. -/
theorem cutRecords_return {v : Nat} (hcode : l.code body = sectionText ls) (h : sectionReturn (plain ls) = some v) :
    cutRecords constants (ownSpanGroups returnWord body waiting (l :: labels)) =
      (waiting ++ [l]).map (fun w => cutRecord w.id v) ++ cutRecords constants (ownSpanGroups returnWord body [] labels) := by
  obtain ⟨m, r, more, hfind, rfl, hdrop⟩ := find?_section h
  rw [← hcode] at hfind hdrop
  have hending : (groupOf waiting l (l.code body) m).ending = r.text ++ more := hdrop
  have hfact := returnFact_cut constants r hending
  rw [ownSpanGroups, hfind]
  show groupRecords _ (returnFact constants .cut _) ++ _ = _
  rw [hfact]
  show ((waiting ++ [l]).map (·.id)).map _ ++ _ = _
  rw [List.map_map]
  rfl

/-- A blank label waits, and any other label without a return ends the wait. -/
theorem cutRecords_none (hcode : l.code body = sectionText ls) (hfree : CommentFree (sectionText ls))
    (h : sectionReturn (plain ls) = none) : ownSpanGroups returnWord body waiting (l :: labels) =
      ownSpanGroups returnWord body (if startsWithLabel (plain ls) then waiting ++ [l] else []) labels := by
  have hnone : returnWord.find? (l.code body) = none := by rw [hcode, find?_section_none h]
  rw [ownSpanGroups, hnone, hcode, hfree.holdsNoCode_eq, all_isBlank_section]
  cases startsWithLabel (plain ls) <;> rfl

/-- The pass makes a record for each label that a value is attributed to, and for the labels that wait when the
    next label gets a value. -/
theorem mem_cutRecords (constants : LayerConstants) (hfree : CommentFree body) {n : Nat} (waiting : List CaseLabel)
    (hat : MarksAt body n (linesMarks ls ++ switchTail.map .plain)) (c : Metadata) :
    c ∈ cutRecords constants (ownSpanGroups returnWord body waiting (labelsOf n (linesMarks ls ++ switchTail.map .plain))) ↔
      (∃ w ∈ waiting, ∃ v, attributed true (plain ls) = some v ∧ c = cutRecord w.id v) ∨
        ∃ p ∈ labelled ls, ∃ v, attributed false (plain p.2) = some v ∧ c = cutRecord p.1.value v := by
  induction ls generalizing n waiting with
  | nil =>
    have hnone := labelsOf_plain switchTail n []
    rw [List.append_nil] at hnone
    rw [show linesMarks ([] : List (Line σ)) ++ switchTail.map .plain = switchTail.map .plain from rfl, hnone]
    simp [labelsOf, stationsOf, ownSpanGroups, cutRecords, plain, attributed, labelled]
  | cons l ls ih =>
    have hcons : linesMarks (l :: ls) ++ switchTail.map .plain =
        l.gap.map .plain ++ (l.item.marks ++ (linesMarks ls ++ switchTail.map .plain)) := by simp [linesMarks]
    rw [hcons] at hat ⊢
    have hitem := hat.drop
    rw [textOf_plain] at hitem
    rw [labelsOf_plain, labelled, plain_cons, attributed]
    cases hi : l.item with
    | label k =>
      rw [hi, Item.marks, List.singleton_append] at hitem
      -- Waiting labels get what the section of this one returns, and wait on only if it is blank.
      have hcode := hitem.tail.code_eq k.value (n + byteLength l.gap)
      rw [textOf_owned] at hcode
      have hownfree : CommentFree (sectionText ls) := hcode ▸ hfree.slice _ _
      rw [Item.marks, List.singleton_append, labelsOf_some (number?_label k), textOf_owned]
      show _ ↔ (∃ w ∈ waiting, ∃ v, attributed false (plain ls) = some v ∧ c = cutRecord w.id v) ∨
        ∃ p ∈ (k, ls) :: labelled ls, ∃ v, attributed false (plain p.2) = some v ∧ c = cutRecord p.1.value v
      simp only [List.mem_cons, exists_eq_or_imp]
      cases hsec : sectionReturn (plain ls) with
      | some v =>
        rw [cutRecords_return hcode hsec, List.mem_append, ih [] hitem.tail,
          attributed_of_code (startsWithLabel_of_return hsec), hsec]
        simp [or_assoc, eq_comm]
      | none =>
        rw [cutRecords_none hcode hownfree hsec, ih _ hitem.tail]
        cases hstart : startsWithLabel (plain ls) with
        | true =>
          rw [(attributed_of_label hstart).1]
          simp [or_and_right, exists_or, or_assoc]
        | false =>
          rw [attributed_of_code hstart, hsec]
          simp
    | fallback | leave =>
      rw [hi, Item.marks] at hitem
      rw [Item.marks, List.singleton_append, labelsOf_none rfl]
      exact ih waiting hitem.tail
    | code r =>
      rw [hi, Item.marks] at hitem
      have hrest := hitem.drop
      rw [textOf_plain] at hrest
      rw [Item.marks, labelsOf_plain]
      exact ih waiting hrest

end Groups

/-! ### The records of the document -/

theorem hasCut_record {fact : Fact} (h : ∀ v, fact ≠ .cut v) (id : Nat) : (fact.record id).hasCut = false := by
  cases fact with
  | cut v => exact absurd rfl (h v)
  | door | mov v | yadd v | layer v | offset v | noLighting => rfl

theorem hasCut_readGroups {l : Located} {pass : Pass} {terminator : Pattern} {read : CaseGroup → GroupFact}
    (h : ∀ g fact, read g = .ok (some fact) → ∀ v, fact ≠ .cut v) :
    ∀ r ∈ (readGroups l pass terminator read).1, r.hasCut = false := by
  intro r hr
  obtain ⟨g, -, hr⟩ := List.mem_flatMap.mp hr
  unfold groupRecords at hr
  split at hr
  · rename_i fact hfact
    obtain ⟨id, -, rfl⟩ := List.mem_map.mp hr
    exact hasCut_record (h g fact hfact) id
  · cases hr

theorem readReturn_ne_cut {constants : LayerConstants} {pass : Pass} (hpass : pass ≠ .cut) {s : Scope} {v : CutValue} :
    readReturn constants pass s ≠ .ok (some (.cut v)) := by
  have hmap : ∀ {α : Type} {f : α → Fact} {o : Option α}, (∀ a, f a ≠ .cut v) →
      (Except.ok (o.map f) : Except LayerError (Option Fact)) ≠ .ok (some (.cut v)) := fun hf h => by
    obtain ⟨a, -, ha⟩ := Option.map_eq_some_iff.mp (Except.ok.inj h)
    exact hf a ha
  cases pass with
  | cut => exact absurd rfl hpass
  | mov | yadd => exact hmap fun _ h => nomatch h
  | layer =>
    rw [readReturn]
    split
    · exact fun h => nomatch h
    · rename_i e _
      cases e.resolve constants <;> exact fun h => nomatch h
  | door | offset | noLighting | character | animated => exact fun h => nomatch h

theorem returnFact_ne_cut {constants : LayerConstants} {pass : Pass} (hpass : pass ≠ .cut) {g : CaseGroup} {fact : Fact}
    (h : returnFact constants pass g = .ok (some fact)) (v : CutValue) : fact ≠ .cut v := by
  rintro rfl
  unfold returnFact at h
  split at h
  · cases h
  · split at h
    · cases h
    · cases h
    · rename_i hread
      obtain rfl := Option.some.inj (Except.ok.inj h)
      exact readReturn_ne_cut hpass hread

theorem offsetFact_ne_cut {g : CaseGroup} {fact : Fact} (h : offsetFact g = .ok (some fact)) (v : CutValue) :
    fact ≠ .cut v := by
  rintro rfl
  unfold offsetFact at h
  split at h
  · cases h
  · split at h <;> cases h

theorem runPass_some {source : Source} {settings : Settings} {pass : Pass} {l : Located}
    (h : Located.find? source (settings.functionFor pass) = some l) :
    runPass source settings pass = readLocated settings pass l := by
  simp only [runPass, h]

/-- Only the cut pass states a cut. -/
theorem hasCut_runPass {source : Source} {settings : Settings} {pass : Pass} (hpass : pass ≠ .cut) :
    ∀ r ∈ (runPass source settings pass).1, r.hasCut = false := by
  intro r hr
  have hpresence : ∀ {l : Located} {fact : Fact}, r ∈ presence l fact → (∀ v, fact ≠ .cut v) → r.hasCut = false :=
    fun hr hfact => by
      obtain ⟨label, -, rfl⟩ := List.mem_map.mp hr
      exact hasCut_record hfact _
  cases hl : Located.find? source (settings.functionFor pass) with
  | none =>
    simp only [runPass, hl] at hr
    cases hr
  | some l =>
    rw [runPass_some hl] at hr
    cases pass with
    | cut => exact absurd rfl hpass
    | door | noLighting => exact hpresence hr fun _ h => nomatch h
    | offset => exact hasCut_readGroups (fun _ _ h => offsetFact_ne_cut h) r hr
    | mov | yadd | layer | character | animated => exact hasCut_readGroups (fun _ _ h => returnFact_ne_cut hpass h) r hr

section Document
variable {source : Source} {settings : Settings}

section Records
variable {σ : Type} [Returning σ] {ls : List (Line σ)}

theorem mem_runPass_cut (hname : settings.functionFor .cut = "_is_cut_sprite")
    (htext : source.text = functionText "_is_cut_sprite" ls) (c : Metadata) :
    c ∈ (runPass source settings .cut).1 ↔
      ∃ p ∈ labelled ls, ∃ v, attributed false (plain p.2) = some v ∧ c = cutRecord p.1.value v := by
  obtain ⟨l, hl, -, hcode, -⟩ := located_functionText (by decide) htext
  have hscan := scan_switch ls
  have hgroups := mem_cutRecords settings.constants (commentFree_switch ls) [] (marksAt_of_scan hscan).drop c
  rw [textOf_plain, ← labelsOf_plain] at hgroups
  rw [runPass_some (hname ▸ hl)]
  show c ∈ cutRecords settings.constants (ownSpanGroups returnWord l.code [] (caseLabels l.code)) ↔ _
  rw [hcode, caseLabels_eq hscan, switchMarks]
  simpa using hgroups

end Records

/-- A document gives a sprite a value of `cut_sprite`. -/
def GivesCut (d : Document) (id value : Nat) : Prop :=
  ∃ rs, d.records = .metadata rs ∧ ∃ r ∈ rs, r.id = id ∧ r.cutSprite = some value

/-- Everything that the passes of the metadata document contribute, in order. -/
def history (source : Source) (settings : Settings) : List Metadata :=
  DocumentKind.metadata.passes.flatMap fun pass => (runPass source settings pass).1

theorem extract_metadata (source : Source) (settings : Settings) :
    (Document.extract source settings .metadata).records = .metadata (Roster.empty.addAll (history source settings)).finish := by
  rw [history, ← List.flatMap_map]
  rfl

/-- The document gives each label the value that is attributed to it, and nothing else. -/
theorem givesCut_lines {σ : Type} [Returning σ] {ls : List (Line σ)} (hname : settings.functionFor .cut = "_is_cut_sprite")
    (htext : source.text = functionText "_is_cut_sprite" ls) (hdistinct : ((labelled ls).map (·.1.value)).Nodup)
    (id value : Nat) : GivesCut (Document.extract source settings .metadata) id value ↔
      ∃ p ∈ labelled ls, p.1.value = id ∧ attributed false (plain p.2) = some value := by
  -- Among everything that the passes contribute, the records with a cut are those of the cut pass.
  have hcut : ∀ c : Metadata, c.hasCut = true →
      (c ∈ history source settings ↔ ∃ p ∈ labelled ls, ∃ v, attributed false (plain p.2) = some v ∧ c = cutRecord p.1.value v) :=
    fun c hc => by
      rw [← mem_runPass_cut hname htext]
      refine ⟨fun h => ?_, fun h => List.mem_flatMap.mpr ⟨.cut, by decide, h⟩⟩
      obtain ⟨pass, -, hpass⟩ := List.mem_flatMap.mp h
      by_cases hp : pass = .cut
      · rwa [hp] at hpass
      · rw [hasCut_runPass hp c hpass] at hc
        cases hc
  have hwins := lastWins_of_fold isEmpty_eq_false states_overlay foldl_overlay_eq (history source settings)
  rw [GivesCut, extract_metadata]
  constructor
  · rintro ⟨rs, hrs, r, hr, rfl, hvalue⟩
    obtain rfl := Records.metadata.inj hrs
    rw [hwins.fields r hr] at hvalue
    obtain ⟨s, hs, hsprite⟩ := Option.bind_eq_some_iff.mp (show (cutSource _).bind _ = some value from hvalue)
    have hown := mem_of_cutSource hs
    have hscut : s.hasCut = true := by rw [hasCut, hsprite, Option.isSome_some, Bool.or_true]
    obtain ⟨p, hp, v, hv, rfl⟩ := (hcut s hscut).mp (List.mem_filter.mp hown).1
    exact ⟨p, hp, number_of_mem_contributions hown, by rw [hv]; exact hsprite⟩
  · rintro ⟨p, hp, rfl, hv⟩
    have hmem := (hcut (cutRecord p.1.value value) rfl).mpr ⟨p, hp, value, hv, rfl⟩
    have hstates : (cutRecord p.1.value value).States := Or.inr (Or.inl (Option.some_ne_none _))
    obtain ⟨r, hr, hid⟩ := (hwins.present p.1.value).mpr ⟨_, hmem, rfl, hstates⟩
    refine ⟨_, rfl, r, hr, hid, ?_⟩
    have hown : cutRecord p.1.value value ∈ contributions (SpriteRecord.number r) (history source settings) :=
      List.mem_filter.mpr ⟨hmem, by rw [hid]; exact beq_self_eq_true _⟩
    obtain ⟨s, hs, hscut, hsource⟩ := cutSource_of_mem hown rfl
    obtain ⟨q, hq, w, hw, rfl⟩ := (hcut s hscut).mp (List.mem_filter.mp hs).1
    have hqp : q.1.value = p.1.value := by
      rw [← hid]
      exact number_of_mem_contributions hs
    -- Other contributions with a cut are of the same number, hence of the same label.
    obtain rfl : q = p := List.inj_on_of_nodup_map hdistinct hq hp hqp
    rw [hv] at hw
    obtain rfl := Option.some.inj hw
    rw [hwins.fields r hr]
    show (cutSource _).bind _ = _
    rw [hsource]
    rfl

variable {ls : List (Line Return)}

theorem givesCut_iff (hname : settings.functionFor .cut = "_is_cut_sprite")
    (htext : source.text = functionText "_is_cut_sprite" ls) (hdistinct : ((labelled ls).map (·.1.value)).Nodup)
    (id value : Nat) : GivesCut (Document.extract source settings .metadata) id value ↔
      ∃ p ∈ labelled ls, p.1.value = id ∧ attributed false p.2 = some value := by
  simpa only [plain_return] using givesCut_lines hname htext hdistinct id value

/-- A document never gives a label a value that is not returned for it, unless a label is misread. -/
theorem cut_sound_iff_not_misread (hname : settings.functionFor .cut = "_is_cut_sprite")
    (htext : source.text = functionText "_is_cut_sprite" ls) (hdistinct : ((labelled ls).map (·.1.value)).Nodup) :
    (∀ id value, GivesCut (Document.extract source settings .metadata) id value ↔
      ∃ p ∈ labelled ls, p.1.value = id ∧ attributed false p.2 = some value) ∧
    ((∀ p ∈ labelled ls, ∀ value, GivesCut (Document.extract source settings .metadata) p.1.value value →
        returned p.2 = some value) ↔ ∀ p ∈ labelled ls, misread p.2 = false) := by
  have hgives := givesCut_iff hname htext hdistinct
  refine ⟨hgives, ?_, ?_⟩
  · intro hsound p hp
    refine Bool.eq_false_iff.mpr fun hmis => ?_
    obtain ⟨v, hv, hne⟩ := (misread_iff p.2).mp hmis
    exact hne (hsound p hp v ((hgives _ v).mpr ⟨p, hp, rfl, hv⟩))
  · intro hread p hp v hgiven
    obtain ⟨q, hq, hqp, hv⟩ := (hgives _ v).mp hgiven
    obtain rfl : q = p := List.inj_on_of_nodup_map hdistinct hq hp hqp
    refine Classical.byContradiction fun hne => ?_
    have hmis := (misread_iff q.2).mpr ⟨v, hv, hne⟩
    rw [hread q hq] at hmis
    cases hmis

end Document

theorem cut_sound_iff_not_misread_shared :
    let source := Source.ofString "shared.c"
      "int _is_cut_sprite(int sprite)\n\x7b\nswitch (sprite) \x7b\ncase 1:\ncase 2:\nreturn 7;\nbreak;\n\x7d\n\x7d\n"
    ∃ ls, source.text = functionText "_is_cut_sprite" ls ∧
      (∀ p ∈ labelled ls, ∀ value, GivesCut (Document.extract source {} .metadata) p.1.value value →
        returned p.2 = some value) ∧ GivesCut (Document.extract source {} .metadata) 1 7 := by
  intro source
  let one : Numeral maxWord := ⟨['1'], by decide, by decide, by decide⟩
  let two : Numeral maxWord := ⟨['2'], by decide, by decide, by decide⟩
  let seven : Numeral maxWord := ⟨['7'], by decide, by decide, by decide⟩
  let behind : List (Line Return) := [.of (.label two), .of (.code ⟨seven⟩), .of .leave]
  have htext : source.text = functionText "_is_cut_sprite" (.of (.label one) :: behind) := rfl
  obtain ⟨hgives, hsound⟩ := @cut_sound_iff_not_misread source {} _ rfl htext (by decide)
  exact ⟨_, htext, hsound.mpr (by decide), (hgives 1 7).mpr ⟨(one, behind), List.mem_cons_self, rfl, rfl⟩⟩

/-- A label that runs into a default section gets the value of the next label, not the one that is returned. -/
theorem cut_unsound_default :
    let source := Source.ofString "default.c"
      "int _is_cut_sprite(int sprite)\n\x7b\nswitch (sprite) \x7b\ncase 1:\ndefault:\nreturn 5;\ncase 2:\nreturn 7;\n\x7d\n\x7d\n"
    ∃ ls, source.text = functionText "_is_cut_sprite" ls ∧ ∃ p ∈ labelled ls,
      GivesCut (Document.extract source {} .metadata) p.1.value 7 ∧ returned p.2 = some 5 := by
  intro source
  let one : Numeral maxWord := ⟨['1'], by decide, by decide, by decide⟩
  let two : Numeral maxWord := ⟨['2'], by decide, by decide, by decide⟩
  let five : Numeral maxWord := ⟨['5'], by decide, by decide, by decide⟩
  let seven : Numeral maxWord := ⟨['7'], by decide, by decide, by decide⟩
  let behind : List (Line Return) := [.of .fallback, .of (.code ⟨five⟩), .of (.label two), .of (.code ⟨seven⟩)]
  have htext : source.text = functionText "_is_cut_sprite" (.of (.label one) :: behind) := rfl
  have hgives := @givesCut_iff source {} _ rfl htext (by decide) 1 7
  exact ⟨_, htext, (one, behind), List.mem_cons_self,
    hgives.mpr ⟨(one, behind), List.mem_cons_self, rfl, rfl⟩, rfl⟩

end SpriteFacts.Metadata
