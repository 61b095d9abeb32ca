import Mathlib.Data.List.SplitBy
import SpriteFacts.Proofs.Switch.Stations
import SpriteFacts.Proofs.Text.Numeral

/-! Code that falls through is resolved exactly. Every label whose code a `break;` ends, and whose code up to
    the first `break;` is not blank, is in one group, and no other label is in any. Labels follow each other
    in one group as long as there are only blanks and labels between two of them, and the code of a group is
    the code of its first label up to the first `break;`, which is the code of all its labels but for blanks. -/

namespace SpriteFacts.Switch

open Text Pattern

/-! ### The numbers of a group -/

theorem ids_ne_nil_of_mem_chains {terminator : Pattern} {body : List Char} {ls : List (CaseLabel × Bool)} {g : CaseGroup}
    (h : g ∈ chains terminator body ls) : g.ids ≠ [] := by
  induction ls with
  | nil => cases h
  | cons l ls ih =>
    rw [chains] at h
    rcases List.mem_append.mp h with h | h
    · obtain ⟨last, -, hchain⟩ := Option.bind_eq_some_iff.mp (Option.mem_toList.mp h)
      simp only [chainOf?] at hchain
      split at hchain
      · split at hchain
        · cases hchain
        · obtain rfl := Option.some.inj hchain
          exact List.cons_ne_nil _ _
      · cases hchain
    · exact ih h

theorem ids_ne_nil_of_mem_joinNext {current : CaseGroup} {gs : List CaseGroup} (hcurrent : current.ids ≠ [])
    (hgs : ∀ g ∈ gs, g.ids ≠ []) : ∀ g ∈ joinNext current gs, g.ids ≠ [] := by
  induction gs generalizing current with
  | nil => exact fun g hg => List.mem_singleton.mp hg ▸ hcurrent
  | cons x gs ih =>
    have hrest := fun g hg => hgs g (List.mem_cons_of_mem x hg)
    rw [joinNext]
    split
    · exact ih (fun hnil => hcurrent (List.append_eq_nil_iff.mp hnil).1) hrest
    · intro g hg
      rcases List.mem_cons.mp hg with rfl | hg
      · exact hcurrent
      · exact ih (hgs x List.mem_cons_self) hrest g hg

/-- Every group of labels that fall through has a number. -/
theorem ids_ne_nil_of_mem_fallThrough {terminator : Pattern} {body : List Char} {g : CaseGroup}
    (h : g ∈ caseGroups .fallThrough terminator body) : g.ids ≠ [] := by
  rw [caseGroups] at h
  generalize hchains : chains terminator body _ = gs at h
  have hgs : ∀ x ∈ gs, x.ids ≠ [] := fun x hx => ids_ne_nil_of_mem_chains (hchains ▸ hx)
  cases gs with
  | nil => cases h
  | cons x gs =>
    exact ids_ne_nil_of_mem_joinNext (hgs x List.mem_cons_self) (fun y hy => hgs y (List.mem_cons_of_mem x hy)) g h

theorem mem_ids_of_mem_chains {terminator : Pattern} {body : List Char} {ls : List (CaseLabel × Bool)} {g : CaseGroup}
    (h : g ∈ chains terminator body ls) : ∀ id ∈ g.ids, ∃ l ∈ ls, l.1.id = id := by
  induction ls with
  | nil => cases h
  | cons l ls ih =>
    rw [chains] at h
    rcases List.mem_append.mp h with h | h
    · obtain ⟨last, -, hchain⟩ := Option.bind_eq_some_iff.mp (Option.mem_toList.mp h)
      simp only [chainOf?] at hchain
      split at hchain
      · split at hchain
        · cases hchain
        · obtain rfl := Option.some.inj hchain
          exact fun id hid => ⟨l, List.mem_cons_self, (List.mem_singleton.mp hid).symm⟩
      · cases hchain
    · intro id hid
      obtain ⟨l', hl', hnumber⟩ := ih h id hid
      exact ⟨l', List.mem_cons_of_mem l hl', hnumber⟩

/-- Joining brings no new numbers. -/
theorem mem_ids_of_mem_joinNext {current : CaseGroup} {gs : List CaseGroup} :
    ∀ g ∈ joinNext current gs, ∀ id ∈ g.ids, id ∈ current.ids ∨ ∃ h ∈ gs, id ∈ h.ids := by
  induction gs generalizing current with
  | nil => exact fun g hg id hid => Or.inl (List.mem_singleton.mp hg ▸ hid)
  | cons x gs ih =>
    intro g hg id hid
    rw [joinNext] at hg
    split at hg
    · rcases ih g hg id hid with hid | ⟨h, hh, hid⟩
      · exact (List.mem_append.mp hid).imp_right fun hid => ⟨x, List.mem_cons_self, hid⟩
      · exact Or.inr ⟨h, List.mem_cons_of_mem x hh, hid⟩
    · rcases List.mem_cons.mp hg with rfl | hg
      · exact Or.inl hid
      · rcases ih g hg id hid with hid | ⟨h, hh, hid⟩
        · exact Or.inr ⟨x, List.mem_cons_self, hid⟩
        · exact Or.inr ⟨h, List.mem_cons_of_mem x hh, hid⟩

/-- The numbers of a group are numbers of labels. -/
theorem mem_ids_of_mem_fallThrough {terminator : Pattern} {body : List Char} {g : CaseGroup}
    (h : g ∈ caseGroups .fallThrough terminator body) : ∀ id ∈ g.ids, ∃ l ∈ caseLabels body, l.id = id := by
  rw [caseGroups] at h
  generalize hchains : chains terminator body _ = gs at h
  have hgs : ∀ x ∈ gs, ∀ id ∈ x.ids, ∃ l ∈ caseLabels body, l.id = id := fun x hx id hid => by
    obtain ⟨p, hp, rfl⟩ := mem_ids_of_mem_chains (hchains ▸ hx) id hid
    obtain ⟨l, hl, rfl⟩ := List.mem_map.mp hp
    exact ⟨l, hl, rfl⟩
  cases gs with
  | nil => cases h
  | cons x gs =>
    intro id hid
    rcases mem_ids_of_mem_joinNext g h id hid with hid | ⟨y, hy, hid⟩
    · exact hgs x List.mem_cons_self id hid
    · exact hgs y (List.mem_cons_of_mem x hy) id hid

theorem ids_spanLabels (defaults : List Nat) (total : Nat) (ls : List CaseLabel) :
    (spanLabels defaults total ls).map (·.id) = ls.map (·.id) := by
  induction ls with
  | nil => rfl
  | cons l ls ih => rw [spanLabels, List.map_cons, List.map_cons, ih]

/-- The numbers of a group are sprite numbers. -/
theorem le_maxWord_of_mem_fallThrough {terminator : Pattern} {body : List Char} {g : CaseGroup}
    (h : g ∈ caseGroups .fallThrough terminator body) : ∀ id ∈ g.ids, id ≤ maxWord := by
  intro id hid
  obtain ⟨l, hl, rfl⟩ := mem_ids_of_mem_fallThrough h id hid
  have hmem := List.mem_map_of_mem (f := CaseLabel.id) hl
  rw [caseLabels, ids_spanLabels] at hmem
  obtain ⟨l', hl', hid⟩ := List.mem_map.mp hmem
  obtain ⟨m, -, hm⟩ := List.mem_filterMap.mp hl'
  obtain ⟨n, hn, rfl⟩ := Option.map_eq_some_iff.mp hm
  exact hid ▸ le_of_word? hn

/-! ### Joining chains -/

/-- What a group says: the numbers of its labels, the code before its terminator, and where it starts. -/
structure Outcome where
  ids : List Nat
  code : List Char
  offset : Nat
  deriving DecidableEq, Repr

def CaseGroup.outcome (g : CaseGroup) : Outcome := ⟨g.ids, g.code, g.offset⟩

/-- What a run of labels says, whose code is that of the first. -/
def outcomeOf (code : CaseLabel → List Char) (run : List CaseLabel) : Option Outcome :=
  run.head?.map fun l => ⟨run.map (·.id), code l, l.start⟩

/-- What decides whether two chains are joined. -/
def CaseGroup.key (g : CaseGroup) : Nat × List (List Char) := (g.spanStop, words (withoutComments g.text))

theorem joins_iff {g h : CaseGroup} :
    (h.spanStop = g.spanStop ∧ sameCode g.text h.text = true) ↔ g.key = h.key := by
  rw [sameCode, beq_iff_eq, CaseGroup.key, CaseGroup.key, Prod.mk.injEq, eq_comm]

theorem outcomeOf_eq_some {code : CaseLabel → List Char} {run : List CaseLabel} {o : Outcome}
    (h : outcomeOf code run = some o) : ∃ l ∈ run, o.ids = run.map (·.id) ∧ o.code = code l := by
  cases run with
  | nil => cases h
  | cons l run =>
    obtain rfl := Option.some.inj h
    exact ⟨l, List.mem_cons_self, rfl, rfl⟩

theorem outcomeOf_concat {code : CaseLabel → List Char} {run : List CaseLabel} {o : Outcome}
    (h : outcomeOf code run = some o) (l : CaseLabel) :
    outcomeOf code (run ++ [l]) = some { o with ids := o.ids ++ [l.id] } := by
  cases run with
  | nil => cases h
  | cons f run =>
    obtain rfl := Option.some.inj h
    simp [outcomeOf]

/-- Joining goes on from the current group as splitting a list goes on from its current run. -/
theorem outcomes_joinNext {R : CaseLabel → CaseLabel → Bool} {code : CaseLabel → List Char} :
    ∀ {ps : List (CaseLabel × CaseGroup)} {a : CaseLabel × CaseGroup} {g : List CaseLabel} {gs : List (List CaseLabel)}
      {current : CaseGroup},
      (a :: ps).Pairwise (fun p q => R p.1 q.1 = true ↔ p.2.key = q.2.key) → current.key = a.2.key →
      (∀ p ∈ ps, outcomeOf code [p.1] = some p.2.outcome) → outcomeOf code (a.1 :: g).reverse = some current.outcome →
      gs.reverse.map (outcomeOf code) ++ (joinNext current (ps.map (·.2))).map (some ·.outcome) =
        (List.splitBy.loop R (ps.map (·.1)) a.1 g gs).map (outcomeOf code)
  | [], a, g, gs, current, hpairs, hkey, hps, hcurrent => by
    simp [joinNext, List.splitBy.loop, ← hcurrent]
  | p :: ps, a, g, gs, current, hpairs, hkey, hps, hcurrent => by
    obtain ⟨ha, htail⟩ := List.pairwise_cons.mp hpairs
    have hR := ha p List.mem_cons_self
    have hp := hps p List.mem_cons_self
    have hps' : ∀ q ∈ ps, outcomeOf code [q.1] = some q.2.outcome := fun q hq => hps q (List.mem_cons_of_mem p hq)
    rw [List.map_cons, List.map_cons, joinNext, List.splitBy.loop]
    cases hr : R a.1 p.1 with
    | true =>
      have hjoins := joins_iff.mpr (hkey.trans (hR.mp hr))
      have hids : p.2.ids = [p.1.id] := congrArg Outcome.ids (Option.some.inj hp).symm
      rw [if_pos hjoins]
      refine outcomes_joinNext htail (hkey.trans (hR.mp hr)) hps' ?_
      rw [List.reverse_cons, outcomeOf_concat hcurrent, ← hids]
      rfl
    | false =>
      -- The current group has the key of its last chain, so it refuses what the relation refuses.
      have hsplits : ¬(p.2.spanStop = current.spanStop ∧ sameCode current.text p.2.text = true) := fun h => by
        have := hR.mpr (hkey.symm.trans (joins_iff.mp h))
        rw [hr] at this
        cases this
      rw [if_neg hsplits, ← outcomes_joinNext (g := []) htail rfl hps' hp, List.reverse_cons, List.map_append, List.map_singleton,
        hcurrent, List.append_assoc]
      rfl

/-- Joined chains say what the runs of their labels say. -/
theorem outcomes_joinChains {R : CaseLabel → CaseLabel → Bool} {code : CaseLabel → List Char}
    {ps : List (CaseLabel × CaseGroup)} (hpairs : ps.Pairwise fun p q => R p.1 q.1 = true ↔ p.2.key = q.2.key)
    (hps : ∀ p ∈ ps, outcomeOf code [p.1] = some p.2.outcome) :
    (joinChains (ps.map (·.2))).map (some ·.outcome) = ((ps.map (·.1)).splitBy R).map (outcomeOf code) := by
  cases ps with
  | nil => rfl
  | cons p ps =>
    have hrest : ∀ q ∈ ps, outcomeOf code [q.1] = some q.2.outcome := fun q hq => hps q (List.mem_cons_of_mem p hq)
    exact @outcomes_joinNext R code ps p [] [] p.2 hpairs rfl hrest (hps p List.mem_cons_self)

/-! ### Neighbours -/

section Neighbours
variable {m : LandMark} {us rest : List LandMark}

theorem mem_of_mem_owned (hm : endsSpan m = true) : ∀ {us : List LandMark}, ∀ x ∈ owned (us ++ m :: rest), x ∈ us
  | [], x, hx => by simp [owned, hm] at hx
  | u :: us, x, hx => by
    unfold owned at hx
    rw [List.cons_append, List.takeWhile_cons] at hx
    split at hx
    · rcases List.mem_cons.mp hx with rfl | hx
      · exact List.mem_cons_self
      · exact List.mem_cons_of_mem u (mem_of_mem_owned hm x hx)
    · cases hx

theorem hasBreak_owned (hm : endsSpan m = true) (hus : hasBreak us = false) : hasBreak (owned (us ++ m :: rest)) = false :=
  List.any_eq_false.mpr fun x hx => List.any_eq_false.mp hus x (mem_of_mem_owned hm x hx)

/-- A chain runs on over marks without a `break;` to the next label, and from there as that label's chain does. -/
theorem toBreak_of_no_break (hid : (number? m).isSome = true) (hus : hasBreak us = false) (rest : List LandMark) :
    toBreak (us ++ m :: rest) = (toBreak rest).map fun taken => us ++ m :: taken := by
  have hm : endsSpan m = true := by rw [endsSpan, hid, Bool.true_or]
  have hlater : ∀ {us : List LandMark}, hasBreak us = false →
      toLaterBreak (us ++ m :: rest) = (toBreak rest).map fun taken => us ++ m :: taken := by
    intro us hus
    induction us with
    | nil =>
      rw [List.nil_append, toLaterBreak, hid, Bool.true_and, toBreak]
      split <;> rfl
    | cons u us ih =>
      have htail : hasBreak us = false := by
        have : (u.isOf .leave || hasBreak us) = false := hus
        exact (Bool.or_eq_false_iff.mp this).2
      rw [List.cons_append, toLaterBreak, hasBreak_owned hm htail, Bool.and_false, if_neg (by simp), ih htail, Option.map_map]
      rfl
  rw [toBreak, hasBreak_owned hm hus, if_neg (by simp), hlater hus]

/-- Of the beginnings of one list of marks, no two have the same length. -/
theorem eq_of_byteLength {as bs xs ys : List LandMark} (h : as ++ xs = bs ++ ys) (hne : ∀ m ∈ as ++ xs, m.text ≠ [])
    (hlen : byteLength (Mark.textOf as) = byteLength (Mark.textOf bs)) : as = bs := by
  have hnil : ∀ {ws : List LandMark}, (∀ m ∈ ws, m.text ≠ []) → byteLength (Mark.textOf ws) = 0 → ws = [] := by
    intro ws hws h0
    cases ws with
    | nil => rfl
    | cons w ws =>
      have hpos := byteLength_pos (hws w List.mem_cons_self)
      rw [Mark.textOf_cons, byteLength_append] at h0
      omega
  rcases List.append_eq_append_iff.mp h with ⟨w, rfl, rfl⟩ | ⟨w, rfl, rfl⟩
  · rw [Mark.textOf_append, byteLength_append] at hlen
    obtain rfl : w = [] := hnil (fun m hm => hne m (by simp [hm])) (by omega)
    exact (List.append_nil as).symm
  · rw [Mark.textOf_append, byteLength_append] at hlen
    obtain rfl : w = [] := hnil (fun m hm => hne m (by simp [hm])) (by omega)
    exact List.append_nil bs

end Neighbours

section Body
variable {body : List Char} {front us : List LandMark} {m : LandMark} {s t : Station}

theorem Station.Behind.runsOn_eq (h : s.Behind body front) (hat : t.At s.label.codeStart s.marks us m) :
    runsOn body s.label t.label = (unlabelled us).all isBlank := by
  rw [runsOn, hat.start, MarksBehind.withoutLabels_eq (hat.split ▸ h.marksBehind)]

theorem hasBreak_of_blank {last : Option Char} {cs : List Char} {ms : List LandMark}
    (hscan : Scan Landmark.pattern last cs (us ++ ms)) (hblank : (unlabelled us).all isBlank = true) : hasBreak us = false := by
  refine List.any_eq_false.mpr fun x hx => ?_
  match x with
  | .plain c | .found .numbered t kept | .found .fallback t kept => exact Bool.false_ne_true
  | .found .leave t kept =>
    obtain ⟨as, bs, rfl⟩ := List.append_of_mem hx
    rw [List.append_assoc] at hscan
    obtain ⟨rest, -, here⟩ := (hscan.drop as).here
    obtain ⟨-, inner, htext, -⟩ := Landmark.shape here
    have hmem : 'b' ∈ unlabelled (as ++ .found .leave t kept :: bs) := by
      rw [unlabelled_append]
      refine List.mem_append.mpr (Or.inr (List.mem_append.mpr (Or.inl ?_)))
      show 'b' ∈ t
      rw [show t = _ from htext]
      exact List.mem_cons_self
    exact absurd (List.all_eq_true.mp hblank _ hmem) (by decide)

/-- What a chain says, and what decides whether it is joined. -/
theorem Station.Behind.tells (h : s.Behind body front) (hcreates : CreatesNone breakStatement body)
    (hfree : CommentFree (withoutLabels body)) {c : CaseGroup} (hc : s.chain = some c) :
    c.outcome = ⟨[s.label.id], codeToBreak body s.label, s.label.start⟩ ∧ ∃ taken, toBreak s.marks = some taken ∧
      c.key = (s.label.codeStart + byteLength (Mark.textOf taken), words (unlabelled taken)) := by
  obtain ⟨taken, htaken, -⟩ := Option.bind_eq_some_iff.mp hc
  have hcode : takeBytes (byteLength (codeToBreak body s.label)) (unlabelled taken) = codeToBreak body s.label := by
    obtain ⟨ending, hending⟩ := h.taken_eq htaken
    rw [hending, takeBytes_append]
  have hwords := (h.commentFree hfree htaken).withoutComments_eq
  rw [h.chain_eq hcreates hfree htaken] at hc
  split at hc
  · cases hc
  · obtain rfl := Option.some.inj hc
    refine ⟨?_, taken, htaken, ?_⟩
    · rw [CaseGroup.outcome, CaseGroup.code, hcode]
    · rw [CaseGroup.key, hwords]

/-- Two chains are joined exactly if there are only blanks and labels between their labels. -/
theorem Station.Behind.runsOn_iff (h : s.Behind body front) (hat : t.At s.label.codeStart s.marks us m)
    (hcreates : CreatesNone breakStatement body) (hfree : CommentFree (withoutLabels body)) {cs ct : CaseGroup}
    (hs : s.chain = some cs) (ht : t.chain = some ct) : runsOn body s.label t.label = true ↔ cs.key = ct.key := by
  have hbehind := hat.behind h.scan h.codeStart
  obtain ⟨-, taken, htaken, hskey⟩ := h.tells hcreates hfree hs
  obtain ⟨-, later, hlater, htkey⟩ := hbehind.tells hcreates hfree ht
  obtain ⟨text, kept, rfl⟩ := isFound_of_number? hat.number
  have hstart : t.label.codeStart = s.label.codeStart + byteLength (Mark.textOf us) + byteLength text := by
    rw [hat.codeStart, hat.start]
    rfl
  have hlength : byteLength (Mark.textOf (us ++ .found .numbered text kept :: later)) =
      byteLength (Mark.textOf us) + byteLength text + byteLength (Mark.textOf later) := by
    rw [Mark.textOf_append, byteLength_append, Mark.textOf_cons, byteLength_append, ← Nat.add_assoc]
    rfl
  have hdeleted : unlabelled (us ++ .found .numbered text kept :: later) = unlabelled us ++ unlabelled later :=
    unlabelled_append us _
  rw [h.runsOn_eq hat, hskey, htkey, Prod.mk.injEq, hstart]
  constructor
  · intro hblank
    have hscan := h.scan.drop front
    rw [hat.split] at hscan
    -- Blanks hold no `break;`, so the chain of the first label runs on into that of the second.
    have htoBreak := toBreak_of_no_break (Option.isSome_of_eq_some hat.number) (hasBreak_of_blank hscan hblank) t.marks
    rw [← hat.split, htaken, hlater] at htoBreak
    obtain rfl := Option.some.inj htoBreak
    rw [hlength, hdeleted, words_append_of_blank hblank]
    exact ⟨by omega, rfl⟩
  · rintro ⟨hstop, hwords⟩
    obtain ⟨more, hmore⟩ := toBreak_append htaken
    obtain ⟨more', hmore'⟩ := toBreak_append hlater
    have hsplit : taken ++ more = (us ++ .found .numbered text kept :: later) ++ more' := by
      rw [← hmore, hat.split, hmore', List.append_assoc, List.cons_append]
    -- Chains with one end take the same marks, and the words they share leave only blanks between the labels.
    have hne : ∀ x ∈ taken ++ more, x.text ≠ [] := fun x hx =>
      h.scan.text_ne_nil x (List.mem_append.mpr (Or.inr (hmore ▸ hx)))
    obtain rfl := eq_of_byteLength hsplit hne (by rw [hlength]; omega)
    rw [hdeleted] at hwords
    exact blank_of_words_append hwords

/-! ### The main result -/

/-- The chains of a body, each with its label. -/
def chained (ss : List Station) : List (CaseLabel × CaseGroup) := ss.filterMap fun s => s.chain.map (s.label, ·)

theorem chained_snd (ss : List Station) : (chained ss).map (·.2) = ss.filterMap Station.chain := by
  rw [chained, List.map_filterMap]
  congr 1
  funext s
  rw [Option.map_map]
  exact Option.map_id'

theorem chained_fst {ss : List Station} {r : CaseLabel → Bool} (h : ∀ s ∈ ss, r s.label = s.chain.isSome) :
    (chained ss).map (·.1) = (ss.map (·.label)).filter r := by
  induction ss with
  | nil => rfl
  | cons s ss ih =>
    have hs := h s List.mem_cons_self
    have htail := ih fun t ht => h t (List.mem_cons_of_mem s ht)
    cases hc : s.chain with
    | none => simp_all [chained]
    | some c => simp_all [chained]

theorem ascending_labels {n : Nat} {ms : List LandMark} (hne : ∀ m ∈ ms, m.text ≠ []) :
    (labelsOf n ms).Pairwise fun a b => a.start < b.start := by
  induction ms generalizing n with
  | nil => exact List.Pairwise.nil
  | cons m ms ih =>
    have htail := ih (n := n + byteLength m.text) fun x hx => hne x (List.mem_cons_of_mem m hx)
    cases hid : number? m with
    | none =>
      rw [labelsOf_none hid]
      exact htail
    | some id =>
      rw [labelsOf_some hid]
      refine List.pairwise_cons.mpr ⟨fun l hl => ?_, htail⟩
      have hpos := byteLength_pos (hne m List.mem_cons_self)
      have hle := le_start l hl
      show n < l.start
      omega

theorem ascending_caseLabels (body : List Char) : (caseLabels body).Pairwise fun a b => a.start < b.start := by
  obtain ⟨ms, hscan⟩ := Scan.exists_of_apart Landmark.apart none body
  rw [caseLabels_eq hscan]
  exact ascending_labels hscan.text_ne_nil

/-- Labels with only blanks and labels between them have the same code but for blanks. -/
theorem Station.Behind.words_eq (h : s.Behind body front) (hat : t.At s.label.codeStart s.marks us m)
    (hruns : runsOn body s.label t.label = true) : words (codeToBreak body s.label) = words (codeToBreak body t.label) := by
  rw [h.runsOn_eq hat] at hruns
  have hscan := h.scan.drop front
  rw [hat.split] at hscan
  have hfront : ∀ x ∈ us, (!x.isOf .leave) = true := fun x hx => by
    simpa using List.any_eq_false.mp (hasBreak_of_blank hscan hruns) x hx
  obtain ⟨text, kept, rfl⟩ := isFound_of_number? hat.number
  have hmarks : unlabelled (beforeBreak s.marks) = unlabelled us ++ unlabelled (beforeBreak t.marks) := by
    rw [hat.split, beforeBreak, List.takeWhile_append_of_pos hfront, unlabelled_append]
    rfl
  rw [h.codeToBreak_eq, (hat.behind h.scan h.codeStart).codeToBreak_eq, hmarks, words_append_of_blank hruns]

/-- What neighbours agree on, all elements of a chain agree on. -/
theorem agree_of_isChain {α β : Type} {f : α → β} {R : α → α → Prop} :
    ∀ {x : α} {xs : List α}, (x :: xs).IsChain R → (x :: xs).Pairwise (fun a b => R a b → f a = f b) →
      ∀ a ∈ x :: xs, f a = f x
  | x, [], _, _, a, ha => by rw [List.mem_singleton.mp ha]
  | x, y :: ys, hchain, hpairs, a, ha => by
    obtain ⟨hxy, hchain'⟩ := List.isChain_cons_cons.mp hchain
    obtain ⟨hx, hpairs'⟩ := List.pairwise_cons.mp hpairs
    rcases List.mem_cons.mp ha with rfl | ha
    · rfl
    · exact (agree_of_isChain hchain' hpairs' a ha).trans (hx y List.mem_cons_self hxy).symm

/-- A label is in a group exactly if it is resolved. -/
theorem Station.At.resolved_eq {ms : List LandMark} (hat : s.At 0 ms us m) (hscan : Scan Landmark.pattern none body ms)
    (hcreates : CreatesNone breakStatement body) (hfree : CommentFree (withoutLabels body)) :
    resolved body s.label = s.chain.isSome := by
  have hbehind : s.Behind body ([] ++ (us ++ [m])) := hat.behind hscan rfl
  rw [resolved, hat.reachesBreak_eq hscan]
  cases htaken : toBreak s.marks with
  | none =>
    rw [Station.chain, htaken]
    rfl
  | some taken =>
    rw [hbehind.chain_eq hcreates hfree htaken]
    cases (codeToBreak body s.label).all isBlank <;> rfl

/-! ### The groups of a body -/

/-- The labels that are resolved, parted into the runs of labels with only blanks and labels between them. -/
def runs (body : List Char) : List (List CaseLabel) := ((caseLabels body).filter (resolved body)).splitBy (runsOn body)

theorem exists_behind {ms : List LandMark} (hscan : Scan Landmark.pattern none body ms) {s : Station}
    (hs : s ∈ stationsOf 0 ms) : ∃ front, s.Behind body front := by
  obtain ⟨us, m, hat⟩ := mem_stationsOf hs
  exact ⟨[] ++ (us ++ [m]), hat.behind hscan rfl⟩

/-- The groups of a body say what its runs say. -/
theorem outcomes_eq_runs (hcreates : CreatesNone breakStatement body) (hfree : CommentFree (withoutLabels body)) :
    (caseGroups .fallThrough breakStatement body).map (some ·.outcome) = (runs body).map (outcomeOf (codeToBreak body)) := by
  obtain ⟨ms, hscan⟩ := Scan.exists_of_apart Landmark.apart none body
  have hfst : (chained (stationsOf 0 ms)).map (·.1) = (caseLabels body).filter (resolved body) := by
    rw [caseLabels_eq hscan, labelsOf]
    refine chained_fst fun s hs => ?_
    obtain ⟨us, m, hat⟩ := mem_stationsOf hs
    exact hat.resolved_eq hscan hcreates hfree
  have hjoined : (chained (stationsOf 0 ms)).Pairwise fun p q => runsOn body p.1 q.1 = true ↔ p.2.key = q.2.key := by
    refine (List.Pairwise.and_mem.mp (pairwise_stationsOf 0 ms)).filterMap _ fun s t ⟨hs, _, us, m, hat⟩ p hp q hq => ?_
    obtain ⟨cs, hcs, rfl⟩ := Option.map_eq_some_iff.mp hp
    obtain ⟨ct, hct, rfl⟩ := Option.map_eq_some_iff.mp hq
    obtain ⟨front, hfront⟩ := exists_behind hscan hs
    exact hfront.runsOn_iff hat hcreates hfree hcs hct
  have htells : ∀ p ∈ chained (stationsOf 0 ms), outcomeOf (codeToBreak body) [p.1] = some p.2.outcome := fun p hp => by
    obtain ⟨s, hs, hmap⟩ := List.mem_filterMap.mp hp
    obtain ⟨c, hc, rfl⟩ := Option.map_eq_some_iff.mp hmap
    obtain ⟨front, hfront⟩ := exists_behind hscan hs
    rw [(hfront.tells hcreates hfree hc).1]
    rfl
  rw [caseGroups_eq hscan, chainsOf, ← chained_snd, outcomes_joinChains hjoined htells, hfst, runs]

theorem words_eq_of_mem_runs {run : List CaseLabel} (hrun : run ∈ runs body) {a b : CaseLabel} (ha : a ∈ run) (hb : b ∈ run) :
    words (codeToBreak body a) = words (codeToBreak body b) := by
  obtain ⟨ms, hscan⟩ := Scan.exists_of_apart Landmark.apart none body
  have hagree : (caseLabels body).Pairwise fun a b =>
      runsOn body a b = true → words (codeToBreak body a) = words (codeToBreak body b) := by
    rw [caseLabels_eq hscan, labelsOf, List.pairwise_map]
    refine (List.Pairwise.and_mem.mp (pairwise_stationsOf 0 ms)).imp fun ⟨hs, _, us, m, hat⟩ hruns => ?_
    obtain ⟨front, hfront⟩ := exists_behind hscan hs
    exact hfront.words_eq hat hruns
  have hsub : run.Sublist (caseLabels body) := by
    have := List.sublist_flatten_of_mem hrun
    rw [runs, List.flatten_splitBy] at this
    exact this.trans List.filter_sublist
  have hchain := List.isChain_of_mem_splitBy hrun
  cases run with
  | nil => cases ha
  | cons x xs =>
    have hfirst := agree_of_isChain hchain (hagree.sublist hsub)
    exact (hfirst a ha).trans (hfirst b hb).symm

end Body

/-- Fall-through is resolved exactly in a body without comments, if taking its labels out brings no text together
    that reads as a terminator or as the delimiter of a comment. The groups are the runs of the resolved labels,
    a new run wherever more than blanks and labels stand between two of them. -/
theorem fallThrough_exact (source : List Char)
    (hbreak : CreatesNone breakStatement (withoutComments source))
    (hline : CreatesNone (literal "//") (withoutComments source))
    (hopening : CreatesNone (literal "/*") (withoutComments source))
    (hclosing : CreatesNone (literal "*/") (withoutComments source)) :
    let body := withoutComments source
    let runs := ((caseLabels body).filter (resolved body)).splitBy (runsOn body)
    ((caseLabels body).Pairwise fun a b => a.start < b.start) ∧
      (caseGroups .fallThrough breakStatement body).map (some ·.outcome) = runs.map (outcomeOf (codeToBreak body)) ∧
      ∀ run ∈ runs, ∀ a ∈ run, ∀ b ∈ run, words (codeToBreak body a) = words (codeToBreak body b) := by
  intro body runs
  have hfree := commentFree_withoutLabels (commentFree_withoutComments source) hline hopening hclosing
  refine ⟨?_, outcomes_eq_runs hbreak hfree, fun run hrun a ha b hb => words_eq_of_mem_runs hrun ha hb⟩
  obtain ⟨ms, hscan⟩ := Scan.exists_of_apart Landmark.apart none body
  rw [caseLabels_eq hscan]
  exact ascending_labels hscan.text_ne_nil

set_option maxRecDepth 10000 in
theorem fallThrough_exact_shared :
    let body := withoutComments "case 1:\ncr = 1;\ncase 2:\ncase 3: // both\ncg = 2;\nbreak;\ncase 4:\nbreak;\n".toList
    (caseGroups .fallThrough breakStatement body).map (some ·.outcome) =
        (((caseLabels body).filter (resolved body)).splitBy (runsOn body)).map (outcomeOf (codeToBreak body)) ∧
      (caseGroups .fallThrough breakStatement body).map (·.ids) = [[1], [2, 3]] :=
  ⟨(fallThrough_exact _ (by decide +kernel) (by decide +kernel) (by decide +kernel) (by decide +kernel)).2.1,
    by decide +kernel⟩

end SpriteFacts.Switch
