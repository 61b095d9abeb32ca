import SpriteFacts.Proofs.Switch.ClosedCases
import SpriteFacts.Proofs.Variant.AnimatedSwitch
import SpriteFacts.Proofs.Variant.PulseStatement

/-! Animated variants whose cases pulse. In a switch of cases with one pulse each, every case gives one record: the number of
    its label is the sprite and its base, the parameters are those of the pulse, and nothing else is stated or reported. -/

namespace SpriteFacts

open Switch Text Pattern

/-! ### Pulses as the code of cases -/

theorem slashesDivide_cons {t : List Char} (hne : t ≠ []) (hslash : '/' ∉ t) (hstar : '*' ∉ t) : SlashesDivide ('/' :: t) := by
  intro as bs h
  cases as with
  | nil =>
    obtain rfl := (List.cons.inj h).2
    cases t with
    | nil => exact absurd rfl hne
    | cons c t =>
      have hc : c ≠ '/' ∧ c ≠ '*' := ⟨fun heq => hslash (heq ▸ List.mem_cons_self), fun heq => hstar (heq ▸ List.mem_cons_self)⟩
      simp [hc]
  | cons a as =>
    obtain ⟨-, rfl⟩ := List.cons.inj h
    exact absurd (List.mem_append_right as List.mem_cons_self) hslash

theorem slashesDivide_term (t : Option Term) : SlashesDivide (termText '/' t) := by
  cases t with
  | none => exact slashesDivide_of_not_mem List.not_mem_nil
  | some t =>
    have hne : t.after.text ++ t.literal.digits ≠ [] := by simp [t.literal.nonempty]
    refine (slashesDivide_of_not_mem (Gap.not_mem (by decide) t.before)).append (slashesDivide_cons hne ?_ ?_) <;>
      simp (disch := decide) [Gap.not_mem, Decimal.not_mem]

theorem TickDistance.slashesDivide (f : TickDistance) : SlashesDivide f.expression.text := by
  have hdistance : '/' ∉ f.opening ++ ')' :: (f.afterTick.text ++ [')']) := by
    simp (disch := decide) [opening, Gap.not_mem, Decimal.not_mem]
  have hoffset : '/' ∉ termText '+' f.offset := by
    cases f.offset <;> simp (disch := decide) [termText, Gap.not_mem, Decimal.not_mem]
  rw [expression_text, distance_text]
  exact (slashesDivide_of_not_mem hdistance).append ((slashesDivide_term f.divisor).append (slashesDivide_of_not_mem hoffset))

namespace PulseStatement
variable (s : PulseStatement)

/-- A statement is its distance, with no other slash around it, up to its end and blanks. -/
theorem exists_distance : ∃ (front close : List Char) (f : TickDistance) (trail : Gap),
    s.text = (front ++ (f.expression.text ++ close)) ++ ';' :: trail.text ∧ '/' ∉ front ∧ '/' ∉ close := by
  cases s with
  | color s f hblue =>
    have hname : '/' ∉ s.slot.name.toList := by cases s.slot <;> decide
    refine ⟨s.lead.text ++ (s.slot.name.toList ++ (s.beforeSign.text ++ '=' :: (s.afterSign.text ++ ("IRGB".toList ++ (s.call.text ++
      '(' :: (s.beforeRed.text ++ (s.red.digits ++ (s.afterRed.text ++ ',' :: (s.beforeGreen.text ++ (s.green.digits ++
        (s.afterGreen.text ++ ',' :: s.beforeBlue.text))))))))))), s.afterBlue.text ++ ')' :: s.beforeEnd.text, f, s.trail, ?_, ?_, ?_⟩
    · simp [text, ColorStatement.text, ColorStatement.color, ColorStatement.ending, hblue]
    · simp (disch := decide) [Gap.not_mem, Decimal.not_mem, hname]
    · simp (disch := decide) [Gap.not_mem]
  | light s f hvalue =>
    refine ⟨s.lead.text ++ ("light".toList ++ (s.beforeSign.text ++ '=' :: s.afterSign.text)), s.beforeEnd.text, f, s.trail, ?_, ?_, ?_⟩
    · simp [text, ExpressionStatement.text, ExpressionStatement.ending, hvalue]
    · simp (disch := decide) [Gap.not_mem]
    · simp (disch := decide) [Gap.not_mem]

theorem outside : Outside s.text := by
  obtain ⟨front, close, f, trail, htext, -, -⟩ := s.exists_distance
  rw [htext]
  exact (outside_of_blank trail.blank).behind (by decide) _

theorem slashesDivide : SlashesDivide s.text := by
  obtain ⟨front, close, f, trail, htext, hfront, hclose⟩ := s.exists_distance
  have hend : '/' ∉ ';' :: trail.text := by simp (disch := decide) [Gap.not_mem]
  rw [htext]
  exact ((slashesDivide_of_not_mem hfront).append (f.slashesDivide.append (slashesDivide_of_not_mem hclose))).append
    (slashesDivide_of_not_mem hend)

end PulseStatement

instance : CaseCode PulseStatement where
  text := PulseStatement.text
  solid s := by
    have hsign : '=' ∈ s.text := by simp [s.text_eq]
    exact Bool.eq_false_iff.mpr fun hall => absurd (List.all_eq_true.mp hall _ hsign) (by decide)
  clear s i _ _ hlast := i.clear_of_outside (s.not_mem_text (by decide) (by decide) (by decide)) (s.outside _ hlast)
  outside := PulseStatement.outside
  divides := PulseStatement.slashesDivide
  unbraced s := ⟨s.not_mem_text (by decide) (by decide) (by decide), s.not_mem_text (by decide) (by decide) (by decide)⟩

/-! ### The document -/

def caseVariant (c : ClosedCase PulseStatement) : Variant := c.code.variant c.number.value

section Cases
variable {cs : List (ClosedCase PulseStatement)} {c : ClosedCase PulseStatement} {g : CaseGroup} {body : List Char}

theorem groupRecords_of_shows (hfree : CommentFree body) (h : c.Shows g) :
    VariantPass.animated.groupRecords body body g = [caseVariant c] := by
  have hspan : CommentFree (g.spanOf body) := hfree.slice g.spanStart g.spanStop
  rw [VariantPass.groupRecords, capturedComment_eq hspan, PulseStatement.records_eq h.code, h.ids]
  rfl

theorem history_of_shows (hfree : CommentFree body) {gs : List CaseGroup} (h : List.Forall₂ ClosedCase.Shows cs gs) :
    gs.flatMap (VariantPass.animated.groupRecords body body) = cs.map caseVariant := by
  induction h with
  | nil => rfl
  | cons hshows _ ih =>
    rw [List.flatMap_cons, groupRecords_of_shows hfree hshows, ih]
    rfl

theorem diagnostics_of_shows (l : Located) {gs : List CaseGroup} (h : List.Forall₂ ClosedCase.Shows cs gs) :
    (gs.flatMap fun g => VariantPass.animated.diagnostics l g (VariantPass.animated.groupRecords body body g)) = [] := by
  induction h with
  | nil => rfl
  | cons hshows _ ih =>
    have hids := hshows.ids ▸ List.cons_ne_nil _ []
    rw [List.flatMap_cons, ih, List.append_nil, VariantPass.groupRecords]
    exact PulseStatement.diagnostics_eq_nil hshows.code hids l _

end Cases

/-- Pulses are read back, and only once. A group whose code is a pulse has the record of the pulse for each of its numbers, in
    whatever switch it stands. The document of a switch of pulses has these records and no other. Neither is reported. -/
theorem canonical_pulses_recovered :
    (∀ (s : PulseStatement) (l : Located) (g : CaseGroup), g.code = s.text → g.ids ≠ [] →
      VariantPass.animated.records g none = g.ids.map s.variant ∧
        VariantPass.animated.diagnostics l g (VariantPass.animated.records g none) = []) ∧
    ∀ (source : Source) (settings : Settings) (lead : Gap) (cs : List (ClosedCase PulseStatement)),
      IsName (settings.functionFor .animated).toList →
      source.text = functionHead (settings.functionFor .animated) ++ (ClosedCase.switchOf lead cs ++ "\x7d\n".toList) →
      (cs.map (·.number.value)).Nodup →
      ∃ rs, (Document.extract source settings .animated).records = .variants rs ∧ Ascending rs ∧
        rs.Perm (cs.map caseVariant) ∧
        (Document.extract source settings .animated).diagnostics = [] := by
  refine ⟨fun s l g hcode hids => ⟨PulseStatement.records_eq hcode none, PulseStatement.diagnostics_eq_nil hcode hids l none⟩, ?_⟩
  intro source settings lead cs hname htext hdistinct
  obtain ⟨l, hl, hbody, hcode, hclosed⟩ := ClosedCase.located_switchOf hname htext
  obtain ⟨hrecords, hdiagnostics⟩ := extract_of_run (VariantPass.run_of_located (p := .animated) hl hbody hcode)
  have hgroups := ClosedCase.groups_switchOf lead cs
  rw [history_of_shows (ClosedCase.commentFree_switchOf lead cs) hgroups] at hrecords
  -- The numbers differ, so no record is merged with another one.
  have hnumbers : ((cs.map caseVariant).map SpriteRecord.number).Nodup := by
    rw [List.map_map]
    exact hdistinct
  refine ⟨_, hrecords, Roster.ascending_finish _, Roster.perm_finish_of_nodup hnumbers fun r hr => ?_, ?_⟩
  · obtain ⟨c, -, rfl⟩ := List.mem_map.mp hr
    rfl
  · rw [hdiagnostics]
    show l.unclosed ++ _ = []
    rw [hclosed, diagnostics_of_shows l hgroups]
    rfl

/-- `abs(31 - (attick % 63))`. -/
def plainSwing : TickDistance := { swing with divisor := none, offset := none }

theorem fits_swing : swing.Fits := by constructor <;> simp [swing] <;> decide

theorem fits_plainSwing : plainSwing.Fits := by constructor <;> simp [plainSwing, swing] <;> decide

/-- `case 250: c2 = IRGB(5, 7, abs(31 - (attick % 63)) / 2 + 8); break;` -/
def swingingColorCase : ClosedCase PulseStatement where
  beforeNumber := .space
  separated := by decide
  number := ⟨"250".toList, by decide, by decide, by decide⟩
  afterNumber := .none
  code := .color { swingingColor with lead := .space, trail := .space } swing rfl fits_swing (by decide)
  beforeEnd := .none
  behind := .space

/-- `case 007 : light = abs(31 - (attick % 63)); break;` -/
def swingingLightCase : ClosedCase PulseStatement where
  beforeNumber := .space
  separated := by decide
  number := ⟨"007".toList, by decide, by decide, by decide⟩
  afterNumber := .space
  code := .light ⟨.space, .space, .space, plainSwing.expression, .none, .space⟩ plainSwing rfl fits_plainSwing
  beforeEnd := .none
  behind := .none

theorem canonical_pulses_recovered_swinging :
    let source := Source.ofString "swinging.c" ("int _trans_asprite(int sprite)\n\x7b\nswitch (sprite) \x7b " ++
      "case 250: c2 = IRGB(5, 7, abs(31 - (attick % 63)) / 2 + 8); break; case 007 : light = abs(31 - (attick % 63)); break;" ++
      "\n\x7d\n\x7d\n")
    let color (id : Nat) : Variant := { id := id, baseSprite := some (id : Int), colorPulse := some ⟨.c2, 5, 7, 31, 63, 2, 8⟩ }
    let light (id : Nat) : Variant := { id := id, baseSprite := some (id : Int), lightPulse := some ⟨31, 63, 1, 0⟩ }
    (Document.extract source {} .animated).records = .variants [light 7, color 250] ∧
      (Document.extract source {} .animated).diagnostics = [] ∧
      VariantPass.animated.records
        ⟨[5, 6], " c2 = IRGB(5, 7, abs(31 - (attick % 63)) / 2 + 8); break;".toList, 51, 0, 0, 0⟩ none = [color 5, color 6] := by
  intro source color light
  have hname : IsName ((({} : Settings).functionFor .animated).toList) := by decide
  have htext : source.text = functionHead (({} : Settings).functionFor .animated) ++
      (ClosedCase.switchOf .space [swingingColorCase, swingingLightCase] ++ "\x7d\n".toList) := by decide +kernel
  obtain ⟨rs, hrecords, hasc, hperm, hdiagnostics⟩ := canonical_pulses_recovered.2 source {} _ _ hname htext (by decide)
  have hswapped : rs.Perm [light 7, color 250] := hperm.trans (List.Perm.swap (light 7) (color 250) [])
  have hsorted : Ascending [light 7, color 250] := List.pairwise_pair.mpr (by decide : 7 < 250)
  have hgroup := canonical_pulses_recovered.1 swingingColorCase.code ⟨source, "_trans_asprite", ⟨[], 0, true⟩⟩
    ⟨[5, 6], " c2 = IRGB(5, 7, abs(31 - (attick % 63)) / 2 + 8); break;".toList, 51, 0, 0, 0⟩ (by decide) (by decide)
  refine ⟨?_, hdiagnostics, hgroup.1⟩
  rw [hrecords, hasc.eq_of_mem_iff hsorted fun r => hswapped.mem_iff]

end SpriteFacts
