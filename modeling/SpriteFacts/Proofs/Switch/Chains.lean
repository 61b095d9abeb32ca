import SpriteFacts.Proofs.Switch.Labels

/-! Chains of code that falls through, read off the marks of a body. A label runs from its code to the end of
    the first span, its own or a later one, that holds a `break;`, and its chain is that code without the
    labels inside it. -/

namespace SpriteFacts.Switch

open Text Pattern

/-- The text of marks without the labels of a number. -/
def unlabelled (ms : List LandMark) : List Char := Mark.replaced .numbered (fun _ => []) ms

def hasBreak (ms : List LandMark) : Bool := ms.any (Mark.isOf .leave)

/-- The marks up to the end of the span of the first label among them whose span holds a `break;`. -/
def toLaterBreak : List LandMark → Option (List LandMark)
  | [] => none
  | m :: ms =>
    if (number? m).isSome && hasBreak (owned ms) then some (m :: owned ms) else (toLaterBreak ms).map (m :: ·)

/-- The marks behind a label up to the end of the first span, its own or a later one, that holds a `break;`. -/
def toBreak (ms : List LandMark) : Option (List LandMark) :=
  if hasBreak (owned ms) then some (owned ms) else toLaterBreak ms

/-- The chain of a label whose code starts at an offset and takes the given marks. -/
def chainAt (id start codeStart : Nat) (taken : List LandMark) : Option CaseGroup :=
  let text := unlabelled taken
  match breakStatement.find? text with
  | some m =>
    if holdsNoCode (takeBytes m.start text) then none
    else some ⟨[id], text, m.start, start, codeStart, codeStart + byteLength (Mark.textOf taken)⟩
  | none => none

def Station.chain (s : Station) : Option CaseGroup :=
  (toBreak s.marks).bind (chainAt s.label.id s.label.start s.label.codeStart)

/-- The chains of the labels among marks that start at a byte offset. -/
def chainsOf (n : Nat) (ms : List LandMark) : List CaseGroup := (stationsOf n ms).filterMap Station.chain

theorem unlabelled_append (as bs : List LandMark) : unlabelled (as ++ bs) = unlabelled as ++ unlabelled bs :=
  List.flatMap_append

@[simp] theorem hasBreak_append (as bs : List LandMark) : hasBreak (as ++ bs) = (hasBreak as || hasBreak bs) :=
  List.any_append

/-! ### Marks of a part of the body -/

/-- The marks are those of the body from a byte offset on. -/
def MarksAt (body : List Char) (n : Nat) (ms : List LandMark) : Prop :=
  ∃ before, body = before ++ Mark.textOf ms ∧ byteLength before = n ∧
    Scan Landmark.pattern (lastOf none before) (Mark.textOf ms) ms

/-- The marks are those of the body from a byte offset on that stands behind no word. -/
def MarksBehind (body : List Char) (n : Nat) (ms : List LandMark) : Prop :=
  ∃ before, body = before ++ Mark.textOf ms ∧ byteLength before = n ∧ (lastOf none before).any isWord = false ∧
    Scan Landmark.pattern (lastOf none before) (Mark.textOf ms) ms

theorem isFound_of_number? {m : LandMark} {id : Nat} (h : number? m = some id) :
    ∃ t kept, m = .found .numbered t kept := by
  match m with
  | .found .numbered t kept => exact ⟨t, kept, rfl⟩
  | .plain c => cases h
  | .found .fallback t kept => cases h
  | .found .leave t kept => cases h

section Part
variable {body : List Char} {n : Nat} {m : LandMark} {as bs ms : List LandMark}

theorem marksAt_of_scan (h : Scan Landmark.pattern none body ms) : MarksAt body 0 ms := by
  obtain rfl := h.textOf_eq
  exact ⟨[], rfl, rfl, h⟩

theorem MarksBehind.marksAt (h : MarksBehind body n ms) : MarksAt body n ms := by
  obtain ⟨before, hbody, hn, -, hscan⟩ := h
  exact ⟨before, hbody, hn, hscan⟩

theorem MarksAt.tail (h : MarksAt body n (m :: ms)) : MarksAt body (n + byteLength m.text) ms := by
  obtain ⟨before, hbody, hn, hscan⟩ := h
  refine ⟨before ++ m.text, ?_, ?_, ?_⟩
  · rw [hbody, Mark.textOf_cons, List.append_assoc]
  · rw [byteLength_append, hn]
  · have := hscan.drop [m]
    rw [lastOf_append]
    simpa using this

theorem MarksAt.drop (h : MarksAt body n (as ++ ms)) : MarksAt body (n + byteLength (Mark.textOf as)) ms := by
  induction as generalizing n with
  | nil => exact h
  | cons a as ih =>
    rw [byteLength_text_cons]
    exact ih h.tail

/-- The character before the code of a label is its colon. -/
theorem MarksAt.behind {id : Nat} (h : MarksAt body n (m :: ms)) (hid : number? m = some id) :
    MarksBehind body (n + byteLength m.text) ms := by
  obtain ⟨t, kept, rfl⟩ := isFound_of_number? hid
  obtain ⟨before, hbody, hn, hscan⟩ := h
  obtain ⟨rest, htext, here⟩ := hscan.here
  obtain rfl : Mark.textOf ms = rest := List.append_cancel_left htext
  refine ⟨before ++ t, ?_, ?_, ?_, ?_⟩
  · rw [hbody, Mark.textOf_cons, List.append_assoc]
    rfl
  · rw [byteLength_append, hn]
    rfl
  · rw [lastOf_append]
    exact Landmark.behind here _
  · have := hscan.drop [.found Landmark.numbered t kept]
    rw [lastOf_append]
    simpa [Mark.text] using this

theorem MarksBehind.scan (h : MarksBehind body n (as ++ bs)) : Scan Landmark.pattern none (Mark.textOf as) as := by
  obtain ⟨before, -, -, hlast, hscan⟩ := h
  exact Scan.take (fun i => (Landmark.steady i).trims) (hscan.before Landmark.steady hlast)

theorem MarksAt.slice_eq (h : MarksAt body n (as ++ bs)) :
    slice n (n + byteLength (Mark.textOf as)) body = Mark.textOf as := by
  obtain ⟨before, rfl, rfl, -⟩ := h
  rw [slice, Nat.add_sub_cancel_left, dropBytes_append, Mark.textOf_append, takeBytes_append]

theorem owned_append (ms : List LandMark) : ∃ more, ms = owned ms ++ more :=
  ⟨_, (List.takeWhile_append_dropWhile (p := fun m => !endsSpan m) (l := ms)).symm⟩

/-- The code of a label is what it owns. -/
theorem MarksAt.code_eq {body : List Char} {n : Nat} {ms : List LandMark} (hat : MarksAt body n ms) (id start : Nat) :
    CaseLabel.code ⟨id, start, n, n + byteLength (Mark.textOf (owned ms))⟩ body = Mark.textOf (owned ms) := by
  obtain ⟨more, hmore⟩ := owned_append ms
  exact MarksAt.slice_eq (hmore ▸ hat)

theorem MarksBehind.occursIn_eq (h : MarksBehind body n (as ++ bs)) :
    breakStatement.occursIn (slice n (n + byteLength (Mark.textOf as)) body) = hasBreak as := by
  rw [h.marksAt.slice_eq]
  have hnone := h.scan.find?_eq_none (Landmark.steady .leave) alone_break
  show (Landmark.leave.pattern.find? _).isSome = _
  rw [Bool.eq_iff_iff, Option.isSome_iff_ne_none, ne_eq, hnone, Bool.not_eq_false]
  rfl

theorem MarksBehind.withoutLabels_eq (h : MarksBehind body n (as ++ bs)) :
    withoutLabels (slice n (n + byteLength (Mark.textOf as)) body) = unlabelled as := by
  rw [h.marksAt.slice_eq]
  exact h.scan.replaceAll_eq .numbered fun _ => []

/-! ### The chain of every label -/

/-- The labels, each with the answer whether its span holds a `break;`. -/
def answered (body : List Char) (ls : List CaseLabel) : List (CaseLabel × Bool) :=
  ls.map fun l => (l, breakStatement.occursIn (l.code body))

theorem answered_none (hid : number? m = none) :
    answered body (labelsOf n (m :: ms)) = answered body (labelsOf (n + byteLength m.text) ms) := by
  rw [labelsOf_none hid]

theorem MarksAt.answered_some {id : Nat} (h : MarksAt body n (m :: ms)) (hid : number? m = some id) :
    answered body (labelsOf n (m :: ms)) =
      (⟨id, n, n + byteLength m.text, n + byteLength m.text + byteLength (Mark.textOf (owned ms))⟩,
        hasBreak (owned ms)) :: answered body (labelsOf (n + byteLength m.text) ms) := by
  obtain ⟨more, hmore⟩ := owned_append ms
  have hown := MarksBehind.occursIn_eq (hmore ▸ h.behind hid)
  rw [labelsOf_some hid]
  exact congrArg (fun b => (_, b) :: _) hown

/-- The first label whose span holds a `break;` ends where the marks up to that place do. -/
theorem MarksAt.stop_eq (h : MarksAt body n ms) :
    ((answered body (labelsOf n ms)).find? (·.2)).map (·.1.stop) =
      (toLaterBreak ms).map fun taken => n + byteLength (Mark.textOf taken) := by
  induction ms generalizing n with
  | nil => rfl
  | cons m ms ih =>
    have htail := ih h.tail
    have hmap : (toLaterBreak ms).map (fun taken => n + byteLength m.text + byteLength (Mark.textOf taken)) =
        ((toLaterBreak ms).map (m :: ·)).map fun taken => n + byteLength (Mark.textOf taken) := by
      rw [Option.map_map]
      congr 1
      funext taken
      exact (byteLength_text_cons m taken n).symm
    cases hid : number? m with
    | none => simpa [answered_none hid, toLaterBreak, hid, hmap] using htail
    | some id =>
      rw [h.answered_some hid, toLaterBreak, hid]
      cases hb : hasBreak (owned ms) with
      | true => exact congrArg some (byteLength_text_cons m (owned ms) n).symm
      | false => simpa [hmap] using htail

/-- The first of a label and those behind it whose span holds a `break;` ends where the label's chain does. -/
theorem MarksAt.stop_eq_toBreak {id : Nat} (h : MarksAt body n (m :: ms)) (hid : number? m = some id) :
    ((answered body (labelsOf n (m :: ms))).find? (·.2)).map (·.1.stop) =
      (toBreak ms).map fun taken => n + byteLength m.text + byteLength (Mark.textOf taken) := by
  rw [h.answered_some hid, toBreak]
  cases hb : hasBreak (owned ms) with
  | true => rfl
  | false => exact h.tail.stop_eq

theorem toLaterBreak_append : ∀ {ms taken : List LandMark}, toLaterBreak ms = some taken → ∃ more, ms = taken ++ more
  | m :: ms, taken, h => by
    unfold toLaterBreak at h
    split at h
    · obtain rfl := Option.some.inj h
      obtain ⟨more, hmore⟩ := owned_append ms
      exact ⟨more, congrArg (m :: ·) hmore⟩
    · obtain ⟨rest, hrest, rfl⟩ := Option.map_eq_some_iff.mp h
      obtain ⟨more, rfl⟩ := toLaterBreak_append hrest
      exact ⟨more, rfl⟩

theorem toBreak_append {taken : List LandMark} (h : toBreak ms = some taken) : ∃ more, ms = taken ++ more := by
  unfold toBreak at h
  split at h
  · obtain rfl := Option.some.inj h
    exact owned_append ms
  · exact toLaterBreak_append h

theorem MarksBehind.chainOf?_eq (h : MarksBehind body n (as ++ bs)) (id start stop : Nat) {last : CaseLabel}
    (hlast : last.stop = n + byteLength (Mark.textOf as)) :
    chainOf? breakStatement body ⟨id, start, n, stop⟩ last = chainAt id start n as := by
  have hcode := h.withoutLabels_eq
  cases hfind : breakStatement.find? (unlabelled as) with
  | none => simp only [chainOf?, chainAt, hlast, hcode, hfind]
  | some m => simp only [chainOf?, chainAt, hlast, hcode, hfind]

theorem filterMap_toList {α β : Type} (f : α → Option β) (x : α) (xs : List α) :
    (f x).toList ++ xs.filterMap f = (x :: xs).filterMap f := by
  rw [List.filterMap_cons]
  cases f x <;> rfl

/-- The chains of a body are those of its marks. -/
theorem MarksAt.chains_eq (h : MarksAt body n ms) :
    chains breakStatement body (answered body (labelsOf n ms)) = chainsOf n ms := by
  induction ms generalizing n with
  | nil => rfl
  | cons m ms ih =>
    cases hid : number? m with
    | none =>
      rw [answered_none hid, chainsOf, stationsOf_none hid]
      exact ih h.tail
    | some id =>
      have hstop := h.stop_eq_toBreak hid
      rw [h.answered_some hid] at hstop ⊢
      rw [chains, ih h.tail, chainsOf, chainsOf, stationsOf_some hid, ← filterMap_toList]
      refine congrArg (Option.toList · ++ _) ?_
      unfold Station.chain
      cases htaken : toBreak ms with
      | none =>
        rw [htaken, Option.map_none, Option.map_eq_none_iff] at hstop
        rw [hstop]
        rfl
      | some taken =>
        obtain ⟨more, hmore⟩ := toBreak_append htaken
        rw [htaken, Option.map_some, Option.map_eq_some_iff] at hstop
        obtain ⟨last, hlast, hstop⟩ := hstop
        rw [hlast]
        exact MarksBehind.chainOf?_eq (hmore ▸ h.behind hid) id n _ hstop

theorem caseGroups_eq (h : Scan Landmark.pattern none body ms) :
    caseGroups .fallThrough breakStatement body = joinChains (chainsOf 0 ms) := by
  rw [caseGroups, caseLabels_eq h]
  exact congrArg joinChains (marksAt_of_scan h).chains_eq

end Part
end SpriteFacts.Switch
