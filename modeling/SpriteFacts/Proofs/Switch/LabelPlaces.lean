import SpriteFacts.Proofs.Switch.Blanking
import SpriteFacts.Proofs.Switch.OwnSpanGroups

/-! The places of labels and groups in a body. Every label is written out where it starts, and the text that it owns stands
    right behind its colon. Every group starts at the label of its first number, whatever terminator the groups end at.
    A word of the blanked body stands in the body itself, at the same place and outside of the comments. -/

namespace SpriteFacts.Switch

open Text Pattern

/-! ### Labels -/

/-- The label is written in the body, with the text that it owns behind it. -/
structure CaseLabel.Written (l : CaseLabel) (body before gap digits gap' own behind : List Char) : Prop where
  split : body = before ++ (caseText gap digits gap' ++ (own ++ behind))
  start : l.start = byteLength before
  codeStart : l.codeStart = l.start + byteLength (caseText gap digits gap')
  stop : l.stop = l.codeStart + byteLength own
  number : word? digits = some l.id
  edge : (lastOf none before).any isWord = false
  separated : gap ≠ []
  blanks : gap.all isBlank = true ∧ gap'.all isBlank = true

theorem stop_of_mem_stationsOf {s : Station} {n : Nat} {ms : List LandMark} (h : s ∈ stationsOf n ms) :
    s.label.stop = s.label.codeStart + byteLength (Mark.textOf (owned s.marks)) := by
  induction ms generalizing n with
  | nil => cases h
  | cons m ms ih =>
    cases hid : number? m with
    | none =>
      rw [stationsOf_none hid] at h
      exact ih h
    | some id =>
      rw [stationsOf_some hid] at h
      rcases List.mem_cons.mp h with rfl | h
      · rfl
      · exact ih h

theorem exists_written {l : CaseLabel} {body : List Char} (h : l ∈ caseLabels body) :
    ∃ before gap digits gap' own behind, l.Written body before gap digits gap' own behind := by
  obtain ⟨ms, hscan⟩ := Scan.exists_of_apart Landmark.apart none body
  rw [caseLabels_eq hscan] at h
  obtain ⟨s, hs, rfl⟩ := List.mem_map.mp h
  obtain ⟨us, m, hat⟩ := mem_stationsOf hs
  obtain ⟨t, kept, rfl⟩ := isFound_of_number? hat.number
  obtain ⟨rest, -, hread⟩ := ((hat.split ▸ hscan).drop us).here
  obtain ⟨hedge, gap, digits, gap', rest', -, hne, hgap, -, -, hgap', hreading⟩ := mem_readings_case.mp (mem_of_read? hread)
  obtain ⟨rfl, rfl, rfl⟩ := Reading.mk.inj hreading
  obtain ⟨more, hmore⟩ := owned_append s.marks
  refine ⟨Mark.textOf us, gap, digits, gap', Mark.textOf (owned s.marks), Mark.textOf more, ?_, ?_, hat.codeStart,
    stop_of_mem_stationsOf hs, hat.number, hedge, hne, hgap, hgap'⟩
  · rw [← hscan.textOf_eq, hat.split, ← Mark.textOf_append, ← hmore]
    simp [Mark.text]
  · rw [hat.start, Nat.zero_add]

/-! ### Groups -/

section Groups
variable {terminator : Pattern} {body : List Char} {g : CaseGroup} {P : CaseGroup → Prop}

theorem forall_mem_ownSpanGroups {labels : List CaseLabel}
    (hown : ∀ waiting l m, (∀ x ∈ waiting ++ [l], x ∈ labels) → terminator.find? (l.code body) = some m →
      P (groupOf waiting l (l.code body) m)) {waiting ls : List CaseLabel} (hlabels : ∀ x ∈ waiting ++ ls, x ∈ labels) :
    ∀ g ∈ ownSpanGroups terminator body waiting ls, P g := by
  induction ls generalizing waiting with
  | nil => exact nofun
  | cons l ls ih =>
    rw [← List.singleton_append, ← List.append_assoc] at hlabels
    have hbehind : ∀ g ∈ ownSpanGroups terminator body [] ls, P g := ih fun x hx => hlabels x (List.mem_append_right _ hx)
    intro g hg
    rw [ownSpanGroups] at hg
    split at hg
    · rename_i m hm
      rcases List.mem_cons.mp hg with rfl | hg
      · exact hown waiting l m (fun x hx => hlabels x (List.mem_append_left ls hx)) hm
      · exact hbehind g hg
    · split at hg
      · exact ih hlabels g hg
      · exact hbehind g hg

theorem forall_mem_chains {ls : List (CaseLabel × Bool)}
    (hchain : ∀ l ∈ ls, ∀ last x, chainOf? terminator body l.1 last = some x → P x) : ∀ g ∈ chains terminator body ls, P g := by
  induction ls with
  | nil => exact nofun
  | cons l ls ih =>
    intro g hg
    rw [chains] at hg
    rcases List.mem_append.mp hg with hg | hg
    · obtain ⟨last, -, hg⟩ := Option.bind_eq_some_iff.mp (Option.mem_toList.mp hg)
      exact hchain l List.mem_cons_self last.1 g hg
    · exact ih (fun x hx => hchain x (List.mem_cons_of_mem l hx)) g hg

theorem forall_mem_joinNext (hjoin : ∀ x ids, P x → P { x with ids := x.ids ++ ids }) {current : CaseGroup} {gs : List CaseGroup}
    (hall : ∀ x ∈ current :: gs, P x) : ∀ g ∈ joinNext current gs, P g := by
  induction gs generalizing current with
  | nil => exact hall
  | cons x gs ih =>
    obtain ⟨hcurrent, hall⟩ := List.forall_mem_cons.mp hall
    intro g hg
    rw [joinNext] at hg
    split at hg
    · exact ih (List.forall_mem_cons.mpr ⟨hjoin current x.ids hcurrent, fun y hy => hall y (List.mem_cons_of_mem x hy)⟩) g hg
    · rcases List.mem_cons.mp hg with rfl | hg
      · exact hcurrent
      · exact ih hall g hg

/-- What holds of a group of labels with a terminator of their own, of a chain, and of a group that takes more numbers, holds of
    every group. -/
theorem forall_mem_caseGroups {reach : Reach}
    (hown : ∀ waiting l m, (∀ x ∈ waiting ++ [l], x ∈ caseLabels body) → terminator.find? (l.code body) = some m →
      P (groupOf waiting l (l.code body) m))
    (hchain : ∀ l ∈ caseLabels body, ∀ last x, chainOf? terminator body l last = some x → P x)
    (hjoin : ∀ x ids, P x → P { x with ids := x.ids ++ ids }) : ∀ g ∈ caseGroups reach terminator body, P g := by
  cases reach with
  | ownSpan => exact forall_mem_ownSpanGroups hown fun x hx => hx
  | fallThrough =>
    have hchains := @forall_mem_chains terminator body P ((caseLabels body).map fun l => (l, terminator.occursIn (l.code body)))
      fun asked hasked last x hx => by
        obtain ⟨l, hl, rfl⟩ := List.mem_map.mp hasked
        exact hchain l hl last x hx
    rw [caseGroups]
    revert hchains
    generalize chains terminator body _ = gs
    intro hchains
    cases gs with
    | nil =>
      intro g hg
      cases hg
    | cons x gs => exact forall_mem_joinNext hjoin hchains

theorem eq_of_chainOf? {l last : CaseLabel} (h : chainOf? terminator body l last = some g) :
    g.ids = [l.id] ∧ g.offset = l.start ∧ ∃ m, terminator.find? g.text = some m ∧ g.terminator = m.start := by
  simp only [chainOf?] at h
  split at h
  · rename_i m hm
    split at h
    · cases h
    · obtain rfl := Option.some.inj h
      exact ⟨rfl, rfl, m, hm, rfl⟩
  · cases h

/-- The group starts at the label of its first number. -/
def CaseGroup.StartsAt (g : CaseGroup) (l : CaseLabel) : Prop := g.offset = l.start ∧ g.ids.head? = some l.id

theorem startsAt_of_mem_caseGroups {reach : Reach} (h : g ∈ caseGroups reach terminator body) :
    ∃ l ∈ caseLabels body, g.StartsAt l := by
  refine forall_mem_caseGroups (P := fun g => ∃ l ∈ caseLabels body, g.StartsAt l) (fun waiting l m hlabels _ => ?_)
    (fun l hl last x hx => ?_) (fun x ids hx => ?_) g h
  · cases waiting with
    | nil => exact ⟨l, hlabels l List.mem_cons_self, rfl, rfl⟩
    | cons first waiting => exact ⟨first, hlabels first List.mem_cons_self, rfl, rfl⟩
  · obtain ⟨hids, hoffset, -⟩ := eq_of_chainOf? hx
    exact ⟨l, hl, hoffset, by rw [hids]; rfl⟩
  · obtain ⟨l, hl, hoffset, hhead⟩ := hx
    exact ⟨l, hl, hoffset, by rw [List.head?_append, hhead]; rfl⟩

end Groups

/-! ### Words outside of comments -/

section Words
variable {body w front back : List Char} {ms : List (Mark Unit)}

/-- Characters that blanking out leaves behind are those of the body. -/
theorem split_word {c : Char} (h : Commented body ms) (hword : ∀ d ∈ c :: w, d ≠ ' ' ∧ d ≠ '\n')
    (hsplit : blanked ms = front ++ (c :: w ++ back)) :
    ∃ as bs, ms = as ++ ((c :: w).map .plain ++ bs) ∧ front = blanked as := by
  induction w generalizing body c ms front with
  | nil =>
    obtain ⟨hspace, hline⟩ := hword c List.mem_cons_self
    obtain ⟨as, bs, rfl, rfl, -⟩ := split_of_blanked hspace hline hsplit
    exact ⟨as, bs, rfl, rfl⟩
  | cons d w ih =>
    obtain ⟨hspace, hline⟩ := hword c List.mem_cons_self
    obtain ⟨as, bs, rfl, rfl, hbs⟩ := split_of_blanked hspace hline hsplit
    rw [List.append_cons] at h
    have hbehind := h.drop
    obtain ⟨as', bs', rfl, hnil⟩ := @ih _ [] _ d hbehind (fun e he => hword e (List.mem_cons_of_mem c he)) hbs.symm
    -- No comment stands between the two characters, since it would have left blanks behind.
    obtain rfl : as' = [] := by
      cases as' with
      | nil => rfl
      | cons m as' =>
        have hempty := byteLength_blanked (m :: as')
        rw [← hnil, Mark.textOf_cons, byteLength_append] at hempty
        have hpos := byteLength_pos (hbehind.text_ne_nil m List.mem_cons_self)
        rw [byteLength_nil] at hempty
        omega
    exact ⟨as, bs', rfl, rfl⟩

/-- No comment of the text covers a byte of the stretch. -/
def OutsideComments (text : List Char) (start stop : Nat) : Prop := ∀ m ∈ comment.findAll text, m.stop ≤ start ∨ stop ≤ m.start

theorem matchesOf_plain (n : Nat) (t : List Char) : Mark.matchesOf () n (t.map .plain) = [] := by
  induction t generalizing n with
  | nil => rfl
  | cons c t ih => exact ih _

theorem outsideComments_of_plain {as bs : List (Mark Unit)} (h : Commented body (as ++ (w.map .plain ++ bs))) :
    OutsideComments body (byteLength (Mark.textOf as)) (byteLength (Mark.textOf as) + byteLength w) := by
  intro m hm
  rw [h.findAll_eq (), Mark.matchesOf_append, Mark.matchesOf_append, matchesOf_plain, List.nil_append, textOf_plain] at hm
  rcases List.mem_append.mp hm with hm | hm
  · obtain ⟨xs, t, kept, ys, rfl, rfl⟩ := Mark.mem_matchesOf_iff.mp hm
    exact Or.inl (by simp [Mark.text])
  · obtain ⟨xs, t, kept, ys, rfl, rfl⟩ := Mark.mem_matchesOf_iff.mp hm
    exact Or.inr (by simp)

/-- A word of the blanked body stands in the body, at the same place and outside of the comments. -/
theorem exists_outside_word (hne : w ≠ []) (hword : ∀ d ∈ w, d ≠ ' ' ∧ d ≠ '\n')
    (hsplit : withoutComments body = front ++ (w ++ back)) :
    ∃ before behind, body = before ++ (w ++ behind) ∧ byteLength before = byteLength front ∧
      OutsideComments body (byteLength before) (byteLength before + byteLength w) := by
  obtain ⟨ms, hms⟩ := exists_commented body
  obtain ⟨c, w, rfl⟩ := List.exists_cons_of_ne_nil hne
  rw [hms.withoutComments_eq] at hsplit
  obtain ⟨as, bs, rfl, rfl⟩ := split_word hms hword hsplit
  refine ⟨Mark.textOf as, Mark.textOf bs, ?_, (byteLength_blanked as).symm, outsideComments_of_plain hms⟩
  rw [← hms.textOf_eq, Mark.textOf_append, Mark.textOf_append, textOf_plain]

end Words

end SpriteFacts.Switch
