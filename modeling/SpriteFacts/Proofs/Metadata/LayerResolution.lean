import SpriteFacts.Config
import SpriteFacts.Proofs.Metadata.CutSwitch
import SpriteFacts.Proofs.Metadata.LayerGrammar
import SpriteFacts.Proofs.Metadata.ReturnGroups

/-! What the layer pass makes of a return expression. It records the exact value of the expression for every number of the
    group, and nothing else; where the expression has no value, it records nothing and gives one warning, which says
    why: a name that the table lacks, a difference below the range of integers, or a text that is no expression
    within that range. No value ever wraps. -/

namespace SpriteFacts

open Switch Text

/-! ### Constants within the range of integers -/

/-- Every constant has a value that a field with a sign can hold. -/
def LayerConstants.InRange (t : LayerConstants) : Prop :=
  ∀ name v, t.value? name = some v → minInteger ≤ v ∧ v ≤ maxInteger

theorem inRange_builtIn : LayerConstants.builtIn.InRange := by
  intro name v h
  obtain ⟨as, bs, hentries, -⟩ := List.lookup_eq_some_iff.mp h
  have hmem : (name, v) ∈ LayerConstants.builtIn.entries := by
    rw [hentries]
    exact List.mem_append_right _ List.mem_cons_self
  simp only [LayerConstants.builtIn, List.mem_cons, Prod.mk.injEq, List.not_mem_nil, or_false] at hmem
  rcases hmem with ⟨-, rfl⟩ | ⟨-, rfl⟩ | ⟨-, rfl⟩ <;> decide

theorem LayerConstants.InRange.insert {t : LayerConstants} (h : t.InRange) {name : String} {v : Int}
    (hv : minInteger ≤ v ∧ v ≤ maxInteger) : (t.insert name v).InRange := by
  intro n w hw
  rw [value?_insert] at hw
  split at hw
  · obtain rfl := Option.some.inj hw
    exact hv
  · exact h n w hw

namespace Settings

theorem foldlM_keeps {α : Type} {P : Settings → Prop} {f : Settings → α → Except ConfigFault Settings}
    (h : ∀ s a s', f s a = .ok s' → P s → P s') {as : List α} {s s' : Settings} (hfold : as.foldlM f s = .ok s') (hs : P s) : P s' := by
  induction as generalizing s with
  | nil =>
    obtain rfl := Except.ok.inj hfold
    exact hs
  | cons a as ih =>
    rw [List.foldlM_cons] at hfold
    cases ha : f s a with
    | error e =>
      rw [ha] at hfold
      cases hfold
    | ok s₁ =>
      rw [ha] at hfold
      exact ih hfold (h s a s₁ ha hs)

theorem inRange_withConstant {s s' : Settings} {e : String × Yaml} (h : withConstant s e = .ok s') (hs : s.constants.InRange) :
    s'.constants.InRange := by
  unfold withConstant at h
  split at h
  · rename_i n hn
    obtain rfl := Except.ok.inj h
    obtain ⟨m, -, hm⟩ := Option.bind_eq_some_iff.mp hn
    obtain ⟨rfl, hrange⟩ := fitInteger?_eq_some.mp hm
    exact hs.insert hrange
  · cases h

theorem constants_withFunction (s : Settings) (e : String × Yaml) : (withFunction s e).constants = s.constants := by
  unfold withFunction
  split <;> rfl

theorem inRange_withEntry {s s' : Settings} {e : String × Yaml} (h : withEntry s e = .ok s') (hs : s.constants.InRange) :
    s'.constants.InRange := by
  unfold withEntry at h
  split at h
  · obtain rfl := Except.ok.inj h
    exact hs
  · exact foldlM_keeps (P := (·.constants.InRange)) (fun _ _ _ => inRange_withConstant) h hs
  · obtain rfl := Except.ok.inj h
    have hfold : ∀ (es : List (String × Yaml)) (s : Settings), (es.foldl withFunction s).constants = s.constants := fun es => by
      induction es with
      | nil => exact fun _ => rfl
      | cons e es ih => exact fun s => (ih _).trans (constants_withFunction s e)
    rw [hfold]
    exact hs
  · obtain rfl := Except.ok.inj h
    exact hs

/-- The constants of a configuration file are within the range of integers. -/
theorem inRange_ofYaml {v : Yaml} {s : Settings} (h : ofYaml v = .ok s) : s.constants.InRange :=
  foldlM_keeps (P := (·.constants.InRange)) (fun _ _ _ => inRange_withEntry) h inRange_builtIn

end Settings

namespace Layer

variable {constants : LayerConstants} {text : List Char} {v : Int}

/-! ### Values and complaints -/

/-- The layer that an expression states: its exact value, with every part of it within the range of integers. -/
inductive States (constants : LayerConstants) : LayerExpression → Int → Prop
  | literal {negative : Bool} {n : DigitRun} (fits : (LayerExpression.literal negative n).Fits) :
      States constants (.literal negative n) (LayerExpression.literalValue negative n)
  | constant {name : ConstantName} {v : Int} (held : constants.value? name.string = some v) : States constants (.constant name) v
  | difference {name : ConstantName} {before after : Gap} {n : DigitRun} {base : Int}
      (held : constants.value? name.string = some base) (fits : (LayerExpression.difference name before after n).Fits)
      (least : minInteger ≤ base - valueOf 10 n.digits) :
      States constants (.difference name before after n) (base - valueOf 10 n.digits)

/-- The text is an expression that states the layer. -/
def Stated (constants : LayerConstants) (text : List Char) (v : Int) : Prop :=
  ∃ e : LayerExpression, e.text = text ∧ States constants e v

/-- What the warning about a text says if it states no layer. -/
inductive Complaint (constants : LayerConstants) (text : List Char) : String → Prop
  | unknown {e : LayerExpression} {name : ConstantName} (written : e.text = text) (fits : e.Fits) (named : e.name? = some name)
      (missing : constants.value? name.string = none) :
      Complaint constants text ("unknown layer constant `" ++ name.string ++ "`" ++ " in `" ++ String.ofList text ++ "`")
  | outOfRange {e : LayerExpression} {name : ConstantName} {base : Int} (written : e.text = text) (fits : e.Fits)
      (named : e.name? = some name) (held : constants.value? name.string = some base) (below : base - e.minus < minInteger) :
      Complaint constants text ("layer constant `" ++ name.string ++ "` out of range" ++ " in `" ++ String.ofList text ++ "`")
  | unrecognized (none : ∀ e : LayerExpression, e.text = text → ¬e.Fits) :
      Complaint constants text ("unrecognized return expression `" ++ String.ofList text ++ "`")

/-- The text names a constant that the table lacks, or takes more from it than the range of integers allows. -/
def Unresolved (constants : LayerConstants) (text : List Char) (name : ConstantName) : Prop :=
  ∃ e : LayerExpression, e.text = text ∧ e.name? = some name ∧
    ∀ base, constants.value? name.string = some base → base - e.minus < minInteger

/-! ### One text -/

theorem resolve_held (hrange : constants.InRange) {name : String} {base : Int} {minus : Nat} (held : constants.value? name = some base)
    (hmin : minInteger ≤ base - minus) : (LayerExpr.constant name minus).resolve constants = .ok (base - minus) := by
  have hmax : base - minus ≤ maxInteger := by
    have hbase := (hrange _ _ held).2
    omega
  simp only [LayerExpr.resolve, held, fitInteger?_eq_some.mpr ⟨rfl, hmin, hmax⟩]

theorem resolve_below {name : String} {base minus : Int} (held : constants.value? name = some base) (hlow : base - minus < minInteger) :
    (LayerExpr.constant name minus).resolve constants = .error (.outOfRange name) := by
  have hnone : fitInteger? (base - minus) = none := if_neg fun h => Int.not_le.mpr hlow h.1
  simp only [LayerExpr.resolve, held, hnone]

theorem resolve_missing {name : String} (minus : Int) (missing : constants.value? name = none) :
    (LayerExpr.constant name minus).resolve constants = .error (.unknownConstant name) := by
  simp only [LayerExpr.resolve, missing]

theorem States.resolve {e : LayerExpression} (hrange : constants.InRange) (h : States constants e v) :
    e.meaning.resolve constants = .ok v := by
  cases h with
  | literal fits => rfl
  | constant held =>
    have hmin : minInteger ≤ v - ((0 : Nat) : Int) := by
      rw [Int.ofNat_zero, Int.sub_zero]
      exact (hrange _ _ held).1
    have hresolve := resolve_held hrange held hmin
    rwa [Int.ofNat_zero, Int.sub_zero] at hresolve
  | difference held fits least => exact resolve_held hrange held least

/-- An expression whose literal fits states a layer, or it is an error to complain about. -/
theorem states_or_complaint (e : LayerExpression) (hfits : e.Fits) :
    (∃ v, States constants e v) ∨ ∃ cause, e.meaning.resolve constants = .error cause ∧
      Complaint constants e.text (cause.message ++ " in `" ++ String.ofList e.text ++ "`") := by
  have hnamed : ∀ {name : ConstantName}, e.name? = some name → e.meaning = .constant name.string e.minus →
      (∀ base, constants.value? name.string = some base → minInteger ≤ base - e.minus → ∃ v, States constants e v) →
        (∃ v, States constants e v) ∨ ∃ cause, e.meaning.resolve constants = .error cause ∧
          Complaint constants e.text (cause.message ++ " in `" ++ String.ofList e.text ++ "`") := by
    intro name hname hmeaning hstates
    rw [hmeaning]
    cases hvalue : constants.value? name.string with
    | none => exact Or.inr ⟨_, resolve_missing _ hvalue, .unknown rfl hfits hname hvalue⟩
    | some base =>
      by_cases hmin : minInteger ≤ base - e.minus
      · exact Or.inl (hstates base hvalue hmin)
      · have hlow := Int.not_le.mp hmin
        exact Or.inr ⟨_, resolve_below hvalue hlow, .outOfRange rfl hfits hname hvalue hlow⟩
  cases e with
  | literal negative n => exact Or.inl ⟨_, .literal hfits⟩
  | constant name => exact hnamed rfl rfl fun base hbase _ => ⟨base, .constant hbase⟩
  | difference name before after n => exact hnamed rfl rfl fun base hbase hmin => ⟨_, .difference hbase hfits hmin⟩

theorem States.fits {e : LayerExpression} (h : States constants e v) : e.Fits := by
  cases h with
  | literal fits => exact fits
  | constant held => trivial
  | difference held fits least => exact fits

theorem States.unique {e : LayerExpression} {w : Int} (h : States constants e v) (h' : States constants e w) : v = w := by
  cases h with
  | literal fits => cases h'; rfl
  | constant held =>
    cases h' with
    | constant held' => exact Option.some.inj (held.symm.trans held')
  | difference held fits least =>
    cases h' with
    | difference held' _ _ =>
      obtain rfl := Option.some.inj (held.symm.trans held')
      rfl

theorem Stated.unique {w : Int} (h : Stated constants text v) (h' : Stated constants text w) : v = w := by
  obtain ⟨e, rfl, he⟩ := h
  obtain ⟨e', htext, he'⟩ := h'
  obtain rfl := LayerExpression.text_injective htext
  exact he.unique he'

/-- A text that does not resolve states nothing. -/
theorem Unresolved.not_stated {name : ConstantName} (hrange : constants.InRange) (h : Unresolved constants text name) :
    ¬Stated constants text v := by
  rintro ⟨e', htext, he'⟩
  obtain ⟨e, rfl, hname, hbelow⟩ := h
  obtain rfl := LayerExpression.text_injective htext
  cases he' with
  | literal fits => cases hname
  | constant held =>
    obtain rfl := Option.some.inj hname
    have hlow := hbelow _ held
    have hmin := (hrange _ _ held).1
    simp only [LayerExpression.minus] at hlow
    omega
  | difference held fits least =>
    obtain rfl := Option.some.inj hname
    exact absurd (hbelow _ held) (Int.not_lt.mpr least)

/-- The complaint about a text that does not resolve holds its name. -/
theorem Complaint.names {name : ConstantName} {message : String} (h : Complaint constants text message)
    (hname : Unresolved constants text name) : name.text <:+: message.toList := by
  obtain ⟨e, htext, hnamed, -⟩ := hname
  have of_own : ∀ {e' : LayerExpression} {name' : ConstantName}, e'.text = text → e'.name? = some name' → name = name' := by
    intro e' name' htext' hnamed'
    obtain rfl := LayerExpression.text_injective (htext'.trans htext.symm)
    exact Option.some.inj (hnamed.symm.trans hnamed')
  cases h with
  | unknown written fits named missing =>
    obtain rfl := of_own written named
    exact ⟨"unknown layer constant `".toList, ("`" ++ " in `" ++ String.ofList text ++ "`").toList, by simp [ConstantName.string]⟩
  | outOfRange written fits named held below =>
    obtain rfl := of_own written named
    exact ⟨"layer constant `".toList, ("` out of range" ++ " in `" ++ String.ofList text ++ "`").toList, by simp [ConstantName.string]⟩
  | unrecognized none =>
    obtain ⟨rest, hrest⟩ : ∃ rest, text = name.text ++ rest := by
      cases e with
      | literal negative n => cases hnamed
      | constant name' =>
        obtain rfl := Option.some.inj hnamed
        exact ⟨[], by rw [List.append_nil]; exact htext.symm⟩
      | difference name' before after n =>
        obtain rfl := Option.some.inj hnamed
        exact ⟨_, htext.symm⟩
    exact ⟨"unrecognized return expression `".toList, rest ++ ['`'], by simp [hrest]⟩

/-- The idioms and the table give a layer for exactly the texts that state it. -/
theorem resolves_iff (hrange : constants.InRange) {s : Scope} :
    (∃ x, chain.value? s = some x ∧ x.resolve constants = .ok v) ↔ Stated constants s.code v := by
  constructor
  · rintro ⟨x, hx, hresolve⟩
    obtain ⟨e, htext, hfits, rfl⟩ := value?_eq_some.mp hx
    rcases @states_or_complaint constants e hfits with ⟨w, hw⟩ | ⟨cause, herror, -⟩
    · obtain rfl := Except.ok.inj ((hw.resolve hrange).symm.trans hresolve)
      exact ⟨e, htext, hw⟩
    · rw [herror] at hresolve
      cases hresolve
  · rintro ⟨e, htext, he⟩
    exact ⟨_, value?_eq_some.mpr ⟨e, htext, he.fits, rfl⟩, he.resolve hrange⟩

/-! ### One group -/

section Group
variable {l : Located} {g : CaseGroup}

/-- A group whose expression states a layer gives that layer. -/
theorem returnFact_of_stated (hrange : constants.InRange) (hexpr : Metadata.returnExpression? g = some text)
    (h : Stated constants text v) : Metadata.returnFact constants .layer g = .ok (some (.layer v)) := by
  obtain ⟨x, hx, hresolve⟩ := (resolves_iff hrange (s := ⟨g.ids.headD 0, text⟩)).mpr h
  have hread : Metadata.readReturn constants .layer ⟨g.ids.headD 0, text⟩ = .ok (some (.layer v)) := by
    simp only [Metadata.readReturn, hx, hresolve]
    rfl
  simp only [Metadata.returnFact, hexpr, hread]

/-- A group whose expression states none gives an error with a complaint about it. -/
theorem returnFact_of_not_stated (hexpr : Metadata.returnExpression? g = some text) (h : ¬∃ v, Stated constants text v) :
    ∃ error : FactError, Metadata.returnFact constants .layer g = .error error ∧ Complaint constants text error.message := by
  cases hx : chain.value? ⟨g.ids.headD 0, text⟩ with
  | none =>
    have hread : Metadata.readReturn constants .layer ⟨g.ids.headD 0, text⟩ = .ok none := by
      simp only [Metadata.readReturn, hx]
    refine ⟨.unrecognized (String.ofList text), by simp only [Metadata.returnFact, hexpr, hread], ?_⟩
    refine .unrecognized fun e htext hfits => ?_
    have hsome := (value?_eq_some (s := ⟨g.ids.headD 0, text⟩)).mpr ⟨e, htext, hfits, rfl⟩
    rw [hx] at hsome
    cases hsome
  | some x =>
    obtain ⟨e, rfl, hfits, rfl⟩ := value?_eq_some.mp hx
    rcases @states_or_complaint constants e hfits with ⟨w, hw⟩ | ⟨cause, herror, hcomplaint⟩
    · exact absurd ⟨w, e, rfl, hw⟩ h
    · have hread : Metadata.readReturn constants .layer ⟨g.ids.headD 0, e.text⟩ = .error cause := by
        simp only [Metadata.readReturn, hx, herror]
        rfl
      exact ⟨.layer cause (String.ofList e.text), by simp only [Metadata.returnFact, hexpr, hread], hcomplaint⟩

/-- What the pass makes of a group with a return expression: the layer that the expression states for every number and no
    warning, or no record and one warning with a complaint, which holds the name of a constant that does not resolve. -/
structure Resolved (constants : LayerConstants) (l : Located) (g : CaseGroup) (text : List Char) (records : List Metadata)
    (warnings : List Diagnostic) : Prop where
  recorded_iff : ∀ v, records = g.ids.map (fun id => { id := id, layer := some v }) ↔ Stated constants text v
  silent : ∀ v, Stated constants text v → warnings = []
  warned : (¬∃ v, Stated constants text v) →
    records = [] ∧ ∃ message, warnings = [l.diagnostic g .warning message] ∧ Complaint constants text message
  named : ∀ name, Unresolved constants text name →
    ∃ message, warnings = [l.diagnostic g .warning message] ∧ name.text <:+: message.toList

theorem resolved_returnFact (hrange : constants.InRange) (hids : g.ids ≠ []) (hexpr : Metadata.returnExpression? g = some text) :
    Resolved constants l g text (Metadata.groupRecords g (Metadata.returnFact constants .layer g))
      (Metadata.groupDiagnostics l g (Metadata.returnFact constants .layer g)) := by
  have hstated : ∀ v, Stated constants text v → Metadata.groupRecords g (Metadata.returnFact constants .layer g) =
      g.ids.map (fun id => { id := id, layer := some v }) := fun v h => by
    rw [returnFact_of_stated hrange hexpr h]
    rfl
  have hwarned : (¬∃ v, Stated constants text v) → Metadata.groupRecords g (Metadata.returnFact constants .layer g) = [] ∧
      ∃ message, Metadata.groupDiagnostics l g (Metadata.returnFact constants .layer g) = [l.diagnostic g .warning message] ∧
        Complaint constants text message := fun h => by
    obtain ⟨error, herror, hcomplaint⟩ := returnFact_of_not_stated hexpr h
    rw [herror]
    exact ⟨rfl, _, rfl, hcomplaint⟩
  obtain ⟨first, more, hcons⟩ := List.exists_cons_of_ne_nil hids
  refine { recorded_iff := fun v => ⟨fun h => ?_, hstated v⟩, silent := fun v h => ?_, warned := hwarned, named := fun name h => ?_ }
  · by_cases hany : ∃ w, Stated constants text w
    · obtain ⟨w, hw⟩ := hany
      have hsame := (hstated w hw).symm.trans h
      rw [hcons, List.map_cons, List.map_cons] at hsame
      obtain rfl := Option.some.inj (congrArg Metadata.layer (List.cons.inj hsame).1)
      exact hw
    · rw [(hwarned hany).1, hcons] at h
      cases h
  · rw [returnFact_of_stated hrange hexpr h]
    rfl
  · obtain ⟨-, message, hwarning, hcomplaint⟩ := hwarned fun ⟨_, h'⟩ => h.not_stated hrange h'
    exact ⟨message, hwarning, hcomplaint.names h⟩

end Group

/-! ### The whole pass -/

/-- The layer pass resolves every return expression exactly: it records the value that the expression states, for all numbers
    of its group, or it gives one warning that says what is wrong, and nothing wraps. A text has one value at most,
    and no text is read by two of the three idioms. -/
theorem layer_resolved_exactly {source : Source} {settings : Settings} {l : Located} (hrange : settings.constants.InRange)
    (hl : Located.find? source (settings.functionFor .layer) = some l) :
    (∃ records warnings, Metadata.Account l .layer (Metadata.runPass source settings .layer) records warnings ∧
      ∀ g ∈ caseGroups .ownSpan returnWord l.code, ∀ text, Metadata.returnExpression? g = some text →
        Resolved settings.constants l g text (records g) (warnings g)) ∧
    (∀ (s : Scope) (v : Int),
      (∃ x, chain.value? s = some x ∧ x.resolve settings.constants = .ok v) ↔ Stated settings.constants s.code v) ∧
    (∀ (text : List Char) (v w : Int), Stated settings.constants text v → Stated settings.constants text w → v = w) ∧
    (chain.idioms = Form.all.map grammar.idiom ∧
      ∀ (f g : Form) (text : List Char), f.pattern.occursIn text = true → g.pattern.occursIn text = true → f = g) := by
  refine ⟨?_, fun s v => resolves_iff hrange, fun text v w => Stated.unique, idioms_eq, fun f g text => Form.eq_of_occursIn⟩
  have hrun : Metadata.runPass source settings .layer =
      Metadata.readGroups l .layer returnWord (Metadata.returnFact settings.constants .layer) :=
    Metadata.runPass_some hl
  have haccount := Metadata.account_readGroups settings .layer l
  rw [hrun]
  exact ⟨_, _, haccount, fun g hg text hexpr => resolved_returnFact hrange (haccount.groups g hg).1 hexpr⟩

theorem layer_resolved_exactly_edge :
    let source := Source.ofString "layers.c" ("int _get_lay_sprite(int sprite)\n\x7b\nswitch (sprite) \x7b\ncase 1:\ncase 2:\n" ++
      "return LOW_LAY - 1;\ncase 3:\nreturn LOW_LAY;\ncase 4:\nreturn FLY_LAY - 2;\n\x7d\n\x7d\n")
    let settings := ({} : Settings).setConstant "LOW_LAY" minInteger
    ∃ l g, settings.constants.InRange ∧ Located.find? source (settings.functionFor .layer) = some l ∧
      g ∈ caseGroups .ownSpan returnWord l.code ∧ g.ids = [1, 2] ∧
      (∃ records warnings, Metadata.Account l .layer (Metadata.runPass source settings .layer) records warnings ∧
        Resolved settings.constants l g "LOW_LAY - 1".toList (records g) (warnings g)) ∧
      ((Metadata.runPass source settings .layer).1,
          (Metadata.runPass source settings .layer).2.diagnostics.map fun d => (d.ids, d.message)) =
        ([{ id := 3, layer := some minInteger }],
          [([1, 2], "layer constant `LOW_LAY` out of range in `LOW_LAY - 1`"),
           ([4], "unknown layer constant `FLY_LAY` in `FLY_LAY - 2`")]) := by
  intro source settings
  have hgroups : (Located.find? source (settings.functionFor .layer)).map (fun l => (caseGroups .ownSpan returnWord l.code).map
      fun g => (g.ids, Metadata.returnExpression? g)) = some [([1, 2], some "LOW_LAY - 1".toList), ([3], some "LOW_LAY".toList),
        ([4], some "FLY_LAY - 2".toList)] := by decide +kernel
  obtain ⟨l, hl, hgroups⟩ := Option.map_eq_some_iff.mp hgroups
  obtain ⟨g, hg, hpair⟩ : ∃ g ∈ caseGroups .ownSpan returnWord l.code,
      (g.ids, Metadata.returnExpression? g) = ([1, 2], some "LOW_LAY - 1".toList) := List.mem_map.mp (by rw [hgroups]; decide)
  obtain ⟨hids, hexpr⟩ := Prod.mk.inj hpair
  have hrange : settings.constants.InRange := inRange_builtIn.insert (by decide)
  obtain ⟨⟨records, warnings, haccount, hresolved⟩, -⟩ := layer_resolved_exactly hrange hl
  exact ⟨l, g, hrange, hl, hg, hids, ⟨records, warnings, haccount, hresolved g hg _ hexpr⟩, by decide +kernel⟩

end Layer
end SpriteFacts
