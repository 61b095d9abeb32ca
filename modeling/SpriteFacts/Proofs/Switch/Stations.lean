import SpriteFacts.Proofs.Switch.Deletion

/-! A body as its labels see it. A station is a label together with the marks behind it. What the text says
    about a label (whether a `break;` ends its code, and what its code is up to the first one) is what the
    marks of its station say, so the chain of a station can be told from the text alone. -/

namespace SpriteFacts.Switch

open Text Pattern

/-! ### What the text says about a label -/

/-- Where the first `break;` at or after the code of a label starts, or the end of the body. -/
def breakAfter (body : List Char) (l : CaseLabel) : Nat :=
  (((breakStatement.findAll body).map (·.start)).find? fun n => l.codeStart ≤ n).getD (byteLength body)

/-- The code of a label up to the first `break;`, without the labels inside it. -/
def codeToBreak (body : List Char) (l : CaseLabel) : List Char :=
  withoutLabels (slice l.codeStart (breakAfter body l) body)

/-- The span of the label or of one behind it holds a `break;`. -/
def reachesBreak (body : List Char) (l : CaseLabel) : Bool :=
  (caseLabels body).any fun k => decide (l.start ≤ k.start) && breakStatement.occursIn (k.code body)

/-- A `break;` ends the code of the label, and the code up to the first one is not blank. -/
def resolved (body : List Char) (l : CaseLabel) : Bool := reachesBreak body l && !(codeToBreak body l).all isBlank

/-- Between two labels there are only blanks and labels. -/
def runsOn (body : List Char) (a b : CaseLabel) : Bool := (withoutLabels (slice a.codeStart b.start body)).all isBlank

/-! ### Stations -/

/-- The station stands behind its label among marks that start at a byte offset. -/
structure Station.At (n : Nat) (ms : List LandMark) (s : Station) (us : List LandMark) (m : LandMark) : Prop where
  split : ms = us ++ m :: s.marks
  number : number? m = some s.label.id
  start : s.label.start = n + byteLength (Mark.textOf us)
  codeStart : s.label.codeStart = s.label.start + byteLength m.text

theorem mem_stationsOf {s : Station} {n : Nat} {ms : List LandMark} (h : s ∈ stationsOf n ms) : ∃ us m, s.At n ms us m := by
  induction ms generalizing n with
  | nil => cases h
  | cons m ms ih =>
    have later : s ∈ stationsOf (n + byteLength m.text) ms → ∃ us m', s.At n (m :: ms) us m' := fun h => by
      obtain ⟨us, m', hat⟩ := ih h
      refine ⟨m :: us, m', congrArg (m :: ·) hat.split, hat.number, ?_, hat.codeStart⟩
      rw [hat.start, byteLength_text_cons]
    cases hid : number? m with
    | none =>
      rw [stationsOf_none hid] at h
      exact later h
    | some id =>
      rw [stationsOf_some hid] at h
      rcases List.mem_cons.mp h with rfl | h
      · exact ⟨[], m, rfl, hid, rfl, rfl⟩
      · exact later h

/-- Each station stands among the marks of those before it. -/
theorem pairwise_stationsOf (n : Nat) (ms : List LandMark) :
    (stationsOf n ms).Pairwise fun s t => ∃ us m, t.At s.label.codeStart s.marks us m := by
  induction ms generalizing n with
  | nil => exact List.Pairwise.nil
  | cons m ms ih =>
    cases hid : number? m with
    | none =>
      rw [stationsOf_none hid]
      exact ih _
    | some id =>
      rw [stationsOf_some hid]
      exact List.pairwise_cons.mpr ⟨fun t ht => mem_stationsOf ht, ih _⟩

/-! ### What the marks say about a station -/

def beforeBreak (ms : List LandMark) : List LandMark := ms.takeWhile fun m => !m.isOf .leave

theorem stationsOf_append (n : Nat) (as bs : List LandMark) :
    ∃ pre, labelsOf n (as ++ bs) = pre ++ labelsOf (n + byteLength (Mark.textOf as)) bs ∧
      ((∀ m ∈ as, m.text ≠ []) → ∀ l ∈ pre, l.start < n + byteLength (Mark.textOf as)) := by
  induction as generalizing n with
  | nil => exact ⟨[], rfl, fun _ l hl => absurd hl List.not_mem_nil⟩
  | cons m as ih =>
    obtain ⟨pre, hpre, hlt⟩ := ih (n + byteLength m.text)
    rw [byteLength_text_cons, List.cons_append]
    cases hid : number? m with
    | none => exact ⟨pre, by rw [labelsOf_none hid, hpre], fun hne => hlt fun x hx => hne x (List.mem_cons_of_mem m hx)⟩
    | some id =>
      refine ⟨_ :: pre, by rw [labelsOf_some hid, hpre, List.cons_append], fun hne l hl => ?_⟩
      rcases List.mem_cons.mp hl with rfl | hl
      · have hpos := byteLength_pos (hne m List.mem_cons_self)
        show n < _
        omega
      · exact hlt (fun x hx => hne x (List.mem_cons_of_mem m hx)) l hl

theorem le_start {n : Nat} {ms : List LandMark} : ∀ l ∈ labelsOf n ms, n ≤ l.start := by
  intro l hl
  obtain ⟨s, hs, rfl⟩ := List.mem_map.mp hl
  obtain ⟨us, m, hat⟩ := mem_stationsOf hs
  rw [hat.start]
  exact Nat.le_add_right _ _

theorem start_lt (i : Landmark) {n : Nat} {ms : List LandMark} (hne : ∀ m ∈ ms, m.text ≠ []) :
    ∀ d ∈ (Mark.matchesOf i n ms).map (·.start), d < n + byteLength (Mark.textOf ms) := by
  induction ms generalizing n with
  | nil => exact fun d hd => absurd hd List.not_mem_nil
  | cons m ms ih =>
    have hpos := byteLength_pos (hne m List.mem_cons_self)
    intro d hd
    rw [starts_cons] at hd
    rw [byteLength_text_cons]
    rcases List.mem_append.mp hd with hd | hd
    · split at hd
      · obtain rfl := List.mem_singleton.mp hd
        omega
      · cases hd
    · exact ih (fun x hx => hne x (List.mem_cons_of_mem m hx)) d hd

/-! ### Stations of a body -/

/-- The marks of the station are those of the body behind the front, which ends with the label. -/
structure Station.Behind (body : List Char) (front : List LandMark) (s : Station) : Prop where
  scan : Scan Landmark.pattern none body (front ++ s.marks)
  codeStart : s.label.codeStart = byteLength (Mark.textOf front)
  edge : (lastOf none (Mark.textOf front)).any isWord = false

section Body
variable {body : List Char} {front ms us : List LandMark} {m : LandMark} {s : Station}

theorem Station.At.behind {n : Nat} (h : s.At n ms us m) (hscan : Scan Landmark.pattern none body (front ++ ms))
    (hn : n = byteLength (Mark.textOf front)) : s.Behind body (front ++ (us ++ [m])) where
  scan := by
    rw [List.append_assoc, List.append_assoc, List.singleton_append, ← h.split]
    exact hscan
  codeStart := by
    rw [h.codeStart, h.start, hn, Mark.textOf_append, Mark.textOf_append, byteLength_append, byteLength_append, Nat.add_assoc]
    show _ = _ + (_ + byteLength (m.text ++ []))
    rw [List.append_nil]
  edge := by
    obtain ⟨t, kept, rfl⟩ := isFound_of_number? h.number
    obtain ⟨rest, -, here⟩ := Scan.here (((h.split ▸ hscan).drop front).drop us)
    rw [Mark.textOf_append, Mark.textOf_append, lastOf_append, lastOf_append]
    show (lastOf _ (t ++ [])).any isWord = false
    rw [List.append_nil]
    exact Landmark.behind here _

theorem Station.Behind.marksBehind (h : s.Behind body front) : MarksBehind body s.label.codeStart s.marks :=
  ⟨Mark.textOf front, by rw [← h.scan.textOf_eq, Mark.textOf_append], h.codeStart.symm, h.edge, h.scan.drop front⟩

theorem Station.Behind.codeToBreak_eq (h : s.Behind body front) :
    codeToBreak body s.label = unlabelled (beforeBreak s.marks) := by
  have hne : ∀ m ∈ front, m.text ≠ [] := fun m hm => h.scan.text_ne_nil m (List.mem_append.mpr (Or.inl hm))
  have hbefore : breakAfter body s.label = s.label.codeStart + byteLength (Mark.textOf (beforeBreak s.marks)) := by
    have hall := h.scan.findAll_eq .leave
    have hearlier := start_lt .leave (n := 0) hne
    have hnext := nextStart_eq .leave (Nat.le_refl s.label.codeStart) s.marks
      (by rwa [h.codeStart, ← Nat.zero_add (byteLength (Mark.textOf front))])
    rw [Mark.matchesOf_append, Nat.zero_add, ← h.codeStart] at hall
    have htotal : byteLength body = s.label.codeStart + byteLength (Mark.textOf s.marks) := by
      rw [← h.scan.textOf_eq, Mark.textOf_append, byteLength_append, h.codeStart]
    rw [← htotal, ← List.map_append, ← hall] at hnext
    exact hnext
  have hsplit : s.marks = beforeBreak s.marks ++ s.marks.dropWhile fun m => !m.isOf .leave :=
    List.takeWhile_append_dropWhile.symm
  rw [codeToBreak, hbefore]
  exact MarksBehind.withoutLabels_eq (hsplit ▸ h.marksBehind)

theorem find?_answered (ls : List CaseLabel) :
    ((answered body ls).find? (·.2)).isSome = ls.any fun k => breakStatement.occursIn (k.code body) := by
  rw [answered, List.find?_map, Option.isSome_map, Bool.eq_iff_iff, List.find?_isSome, List.any_eq_true]
  exact Iff.rfl

/-- A `break;` ends the code of a label if its chain ends. -/
theorem Station.At.reachesBreak_eq (h : s.At 0 ms us m) (hscan : Scan Landmark.pattern none body ms) :
    reachesBreak body s.label = (toBreak s.marks).isSome := by
  obtain ⟨pre, hlabels, hpre⟩ := stationsOf_append 0 us (m :: s.marks)
  have hne : ∀ x ∈ us, x.text ≠ [] := fun x hx => hscan.text_ne_nil x (by rw [h.split]; exact List.mem_append.mpr (Or.inl hx))
  have hat : MarksAt body s.label.start (m :: s.marks) := by
    have hsplit := h.split ▸ hscan
    refine ⟨Mark.textOf us, ?_, ?_, hsplit.drop us⟩
    · rw [← hsplit.textOf_eq, Mark.textOf_append]
    · rw [h.start, Nat.zero_add]
  have hearlier : pre.any (fun k => decide (s.label.start ≤ k.start) && breakStatement.occursIn (k.code body)) = false := by
    rw [List.any_eq_false]
    intro k hk
    have := hpre hne k hk
    rw [← h.start] at this
    simp [Nat.not_le.mpr this]
  have hlater : ∀ k ∈ labelsOf s.label.start (m :: s.marks),
      (decide (s.label.start ≤ k.start) && breakStatement.occursIn (k.code body)) = breakStatement.occursIn (k.code body) :=
    fun k hk => by simp [le_start k hk]
  have hstop := congrArg Option.isSome (hat.stop_eq_toBreak h.number)
  rw [Option.isSome_map, Option.isSome_map, find?_answered] at hstop
  rw [reachesBreak, caseLabels_eq hscan, h.split, hlabels, ← h.start, List.any_append, hearlier, Bool.false_or, ← hstop]
  rw [Bool.eq_iff_iff, List.any_eq_true, List.any_eq_true]
  exact exists_congr fun k => and_congr_right fun hk => by rw [hlater k hk]

theorem toLaterBreak_hasBreak : ∀ {ms taken : List LandMark}, toLaterBreak ms = some taken → hasBreak taken = true
  | m :: ms, taken, h => by
    unfold toLaterBreak at h
    split at h
    · rename_i hm
      obtain rfl := Option.some.inj h
      rw [Bool.and_eq_true] at hm
      show (m.isOf .leave || hasBreak (owned ms)) = true
      rw [hm.2, Bool.or_true]
    · obtain ⟨rest, hrest, rfl⟩ := Option.map_eq_some_iff.mp h
      show (m.isOf .leave || hasBreak rest) = true
      rw [toLaterBreak_hasBreak hrest, Bool.or_true]

theorem toBreak_hasBreak {ms taken : List LandMark} (h : toBreak ms = some taken) : hasBreak taken = true := by
  unfold toBreak at h
  split at h
  · rename_i hb
    rw [← Option.some.inj h]
    exact hb
  · exact toLaterBreak_hasBreak h

theorem split_beforeBreak : ∀ {ms : List LandMark}, hasBreak ms = true →
    ∃ t kept vs, ms = beforeBreak ms ++ .found .leave t kept :: vs
  | m :: ms, h => by
    cases hm : m.isOf .leave with
    | true =>
      match m with
      | .found .leave t kept => exact ⟨t, kept, ms, rfl⟩
      | .plain c | .found .numbered t kept | .found .fallback t kept => cases hm
    | false =>
      have htail : hasBreak ms = true := by
        have : (m.isOf .leave || hasBreak ms) = true := h
        rwa [hm, Bool.false_or] at this
      obtain ⟨t, kept, vs, hvs⟩ := split_beforeBreak htail
      refine ⟨t, kept, vs, ?_⟩
      rw [beforeBreak, List.takeWhile_cons_of_pos (by rw [hm]; rfl), List.cons_append]
      exact congrArg (m :: ·) hvs

theorem hasBreak_beforeBreak (ms : List LandMark) : hasBreak (beforeBreak ms) = false := by
  have hall : (beforeBreak ms).all (fun m => !m.isOf .leave) = true := List.all_takeWhile
  refine List.any_eq_false.mpr fun m hm => ?_
  simpa using List.all_eq_true.mp hall m hm

theorem beforeBreak_append : ∀ {ms : List LandMark}, hasBreak ms = true → ∀ more, beforeBreak (ms ++ more) = beforeBreak ms
  | m :: ms, h, more => by
    cases hm : m.isOf .leave with
    | true => simp [beforeBreak, hm]
    | false =>
      have htail : hasBreak ms = true := by
        have : (m.isOf .leave || hasBreak ms) = true := h
        rwa [hm, Bool.false_or] at this
      have := beforeBreak_append htail more
      unfold beforeBreak at this ⊢
      rw [List.cons_append, List.takeWhile_cons_of_pos (by rw [hm]; rfl), List.takeWhile_cons_of_pos (by rw [hm]; rfl), this]

theorem Station.Behind.withoutLabels_eq (h : s.Behind body front) :
    withoutLabels body = unlabelled front ++ unlabelled s.marks := by
  rw [← unlabelled_append]
  exact h.scan.replaceAll_eq .numbered fun _ => []

theorem Station.Behind.commentFree (h : s.Behind body front) (hfree : CommentFree (withoutLabels body))
    {taken : List LandMark} (htaken : toBreak s.marks = some taken) : CommentFree (unlabelled taken) := by
  obtain ⟨more, hmore⟩ := toBreak_append htaken
  rw [h.withoutLabels_eq, hmore, unlabelled_append] at hfree
  exact hfree.part

/-- What a chain takes begins with the code up to the first `break;`. -/
theorem Station.Behind.taken_eq (h : s.Behind body front) {taken : List LandMark} (htaken : toBreak s.marks = some taken) :
    ∃ ending, unlabelled taken = codeToBreak body s.label ++ ending := by
  obtain ⟨more, hmore⟩ := toBreak_append htaken
  have hbreak := toBreak_hasBreak htaken
  obtain ⟨t, kept, vs, hvs⟩ := split_beforeBreak hbreak
  refine ⟨unlabelled (.found .leave t kept :: vs), ?_⟩
  rw [h.codeToBreak_eq, hmore, beforeBreak_append hbreak, ← unlabelled_append, ← hvs]

/-- The chain of a station whose `break;` is reached, told from the text: there is none if the code up to the
    first `break;` is blank. -/
theorem Station.Behind.chain_eq (h : s.Behind body front) (hcreates : CreatesNone breakStatement body)
    (hfree : CommentFree (withoutLabels body)) {taken : List LandMark} (htaken : toBreak s.marks = some taken) :
    s.chain = if (codeToBreak body s.label).all isBlank then none else
      some ⟨[s.label.id], unlabelled taken, byteLength (codeToBreak body s.label), s.label.start, s.label.codeStart,
        s.label.codeStart + byteLength (Mark.textOf taken)⟩ := by
  obtain ⟨more, hmore⟩ := toBreak_append htaken
  have hbreak := toBreak_hasBreak htaken
  obtain ⟨t, kept, vs, hvs⟩ := split_beforeBreak hbreak
  have hcode : codeToBreak body s.label = unlabelled (beforeBreak taken) := by
    rw [h.codeToBreak_eq, hmore, beforeBreak_append hbreak]
  have hscan := h.scan
  rw [hmore, hvs] at hscan
  have hfind := find?_unlabelled hcreates hscan h.edge (hasBreak_beforeBreak taken)
  rw [← hvs, ← hcode] at hfind
  obtain ⟨ending, htext⟩ := h.taken_eq htaken
  have hcodefree : CommentFree (codeToBreak body s.label) := by
    have hall := h.commentFree hfree htaken
    rw [htext] at hall
    exact hall.before
  rw [Station.chain, htaken, Option.bind_some, chainAt, hfind]
  show (if holdsNoCode (takeBytes (byteLength (codeToBreak body s.label)) (unlabelled taken)) then none else _) = _
  rw [htext, takeBytes_append, hcodefree.holdsNoCode_eq, ← htext]

end Body

end SpriteFacts.Switch
