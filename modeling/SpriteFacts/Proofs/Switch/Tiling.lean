import Mathlib.Data.List.Basic
import SpriteFacts.Proofs.Pattern.Occurrence
import SpriteFacts.Proofs.Switch.Labels
import SpriteFacts.Proofs.Text.Numeral

/-! The spans of labels tile a switch. Two searches, one for number labels and one for default labels, give their matches in
    order; the numbers that are no sprite numbers are dropped, and what is left is given its spans in one walk. The walk
    gives each label all it can own: its span ends at the first place behind its colon at which a listed label or a
    default label starts, so no span holds the start of one and no two spans overlap. -/

namespace SpriteFacts

open Text

/-! ### Matches in order -/

theorem Mark.pairwise_matchesOf {ι : Type} [DecidableEq ι] (i : ι) (n : Nat) (ms : List (Mark ι)) :
    (matchesOf i n ms).Pairwise fun a b => a.stop ≤ b.start := by
  induction ms generalizing n with
  | nil => exact List.Pairwise.nil
  | cons m ms ih =>
    cases m with
    | plain c => exact ih _
    | found j t kept =>
      rw [matchesOf]
      split
      · refine List.pairwise_cons.mpr ⟨fun b hb => ?_, ih _⟩
        obtain ⟨as, u, kept', bs, -, rfl⟩ := mem_matchesOf_iff.mp hb
        exact Nat.le_add_right _ _
      · exact ih _

namespace Switch

open Pattern

section Matches
variable {body : List Char} {m : Match}

theorem Landmark.pairwise_findAll (i : Landmark) (body : List Char) :
    (i.pattern.findAll body).Pairwise fun a b => a.stop ≤ b.start := by
  obtain ⟨ms, hscan⟩ := Scan.exists_of_apart Landmark.apart none body
  rw [hscan.findAll_eq i]
  exact Mark.pairwise_matchesOf i 0 ms

theorem Landmark.within_of_mem {i : Landmark} (h : m ∈ i.pattern.findAll body) : m.start < m.stop ∧ m.stop ≤ byteLength body := by
  obtain ⟨before, r, hstands⟩ := mem_findAll h
  have hpos := byteLength_pos (i.steady.nonempty hstands.read)
  rw [hstands.match_eq, hstands.split]
  simp only [Reading.toMatch, byteLength_append]
  omega

/-! ### Labels with a number -/

/-- The digits of a number label are ASCII and write a sprite number. -/
def hasNumber (m : Match) : Bool := (m.group 1).all Char.isDigit && valueOf 10 (m.group 1) ≤ maxWord

theorem labelOf?_eq (h : m ∈ casePattern.findAll body) :
    labelOf? m = if hasNumber m then some ⟨valueOf 10 (m.group 1), m.start, m.stop, m.stop⟩ else none := by
  obtain ⟨before, r, hstands⟩ := mem_findAll h
  obtain ⟨-, gap, digits, gap', rest, -, -, -, hne, hall, -, hr⟩ := mem_readings_case.mp (mem_of_read? hstands.read)
  have hgroup : m.group 1 = digits := by
    rw [hstands.match_eq, hr]
    rfl
  have hword := @DigitRun.word?_eq_some ⟨digits, hne, hall⟩
  rw [labelOf?, hasNumber, hgroup]
  split
  · rename_i hnumber
    rw [Bool.and_eq_true, decide_eq_true_eq] at hnumber
    rw [hword.mpr ⟨hnumber.1, hnumber.2, rfl⟩]
    rfl
  · rename_i hnumber
    rw [Option.map_eq_none_iff, Option.eq_none_iff_forall_ne_some]
    intro k hk
    obtain ⟨hascii, hle, -⟩ := hword.mp hk
    exact hnumber (by rw [hascii, decide_eq_true hle]; rfl)

theorem filterMap_labelOf? (body : List Char) : (casePattern.findAll body).filterMap labelOf? =
    ((casePattern.findAll body).filter hasNumber).map fun m => ⟨valueOf 10 (m.group 1), m.start, m.stop, m.stop⟩ := by
  rw [← List.filterMap_eq_map, List.filterMap_filter]
  exact List.filterMap_congr fun m hm => labelOf?_eq hm

end Matches

/-! ### Spans -/

section Spans
variable {defaults : List Nat} {total offset d : Nat} {ls : List CaseLabel}

theorem nextDefault_cases (defaults : List Nat) (total offset : Nat) : nextDefault defaults total offset = total ∨
    nextDefault defaults total offset ∈ defaults ∧ offset ≤ nextDefault defaults total offset := by
  rw [nextDefault]
  cases h : defaults.find? fun d => decide (offset ≤ d) with
  | none => exact Or.inl rfl
  | some d =>
    have hle := List.find?_some h
    exact Or.inr ⟨List.mem_of_find?_eq_some h, of_decide_eq_true hle⟩

theorem nextDefault_le (h : defaults.Pairwise (· ≤ ·)) (hd : d ∈ defaults) (hle : offset ≤ d) :
    nextDefault defaults total offset ≤ d := by
  rw [nextDefault]
  induction defaults with
  | nil => cases hd
  | cons e defaults ih =>
    obtain ⟨hfirst, hrest⟩ := List.pairwise_cons.mp h
    rw [List.find?_cons]
    split
    · rcases List.mem_cons.mp hd with rfl | hd
      · exact Nat.le_refl _
      · exact hfirst d hd
    · rename_i hearlier
      refine ih hrest ((List.mem_cons.mp hd).resolve_left ?_)
      rintro rfl
      rw [decide_eq_true hle] at hearlier
      cases hearlier

/-- The walk changes the ends of labels only. -/
theorem map_spanLabels {α : Type} {f : CaseLabel → α} (hf : ∀ l stop, f { l with stop := stop } = f l) :
    (spanLabels defaults total ls).map f = ls.map f := by
  induction ls with
  | nil => rfl
  | cons l ls ih => rw [spanLabels, List.map_cons, List.map_cons, ih, hf]

/-- Labels own spans within a text of a length, each as far as it can, given where its default labels start. -/
structure Tiles (defaults : List Nat) (total : Nat) (labels : List CaseLabel) : Prop where
  within : ∀ l ∈ labels, l.start < l.codeStart ∧ l.codeStart ≤ l.stop ∧ l.stop ≤ total
  ordered : labels.Pairwise fun a b => a.stop ≤ b.start
  ends : ∀ {i l}, labels[i]? = some l →
    l.stop = total ∨ (∃ next, labels[i + 1]? = some next ∧ l.stop = next.start) ∨ l.stop ∈ defaults
  noDefault : ∀ l ∈ labels, ∀ d ∈ defaults, ¬(l.codeStart ≤ d ∧ d < l.stop)

/-- Where the first of the labels starts, or the end of the text. -/
def nextLabel (total : Nat) (labels : List CaseLabel) : Nat := (labels.head?.map (·.start)).getD total

section Tiles
variable {labels : List CaseLabel} {l k : CaseLabel}

theorem nextLabel_cases (total : Nat) (labels : List CaseLabel) :
    nextLabel total labels = total ∨ ∃ k, labels[0]? = some k ∧ nextLabel total labels = k.start := by
  cases labels with
  | nil => exact Or.inl rfl
  | cons k labels => exact Or.inr ⟨k, rfl, rfl⟩

theorem le_nextLabel (h : offset ≤ total) (hlater : ∀ k ∈ labels, offset ≤ k.start) : offset ≤ nextLabel total labels := by
  rcases nextLabel_cases total labels with heq | ⟨k, hk, heq⟩
  · rwa [heq]
  · rw [heq]
    exact hlater k (List.mem_of_getElem? hk)

theorem le_nextDefault (h : offset ≤ total) : offset ≤ nextDefault defaults total offset := by
  rcases nextDefault_cases defaults total offset with heq | ⟨-, hle⟩
  · rwa [heq]
  · exact hle

theorem Tiles.nextLabel_le (h : Tiles defaults total labels) : nextLabel total labels ≤ total := by
  rcases nextLabel_cases total labels with heq | ⟨k, hk, heq⟩
  · exact Nat.le_of_eq heq
  · obtain ⟨hstart, hcode, hstop⟩ := h.within k (List.mem_of_getElem? hk)
    omega

theorem Tiles.nextLabel_le_start (h : Tiles defaults total labels) (hk : k ∈ labels) : nextLabel total labels ≤ k.start := by
  cases labels with
  | nil => cases hk
  | cons j labels =>
    rcases List.mem_cons.mp hk with rfl | hk
    · exact Nat.le_refl _
    · have hj := h.within j List.mem_cons_self
      have hjk := (List.pairwise_cons.mp h.ordered).1 k hk
      show j.start ≤ k.start
      omega

/-- One more label in front owns what lies between its colon and the next label or the next default label. -/
theorem Tiles.cons (h : Tiles defaults total labels) (hdefaults : defaults.Pairwise (· ≤ ·)) (hstart : l.start < l.codeStart)
    (hcode : l.codeStart ≤ total) (hlater : ∀ k ∈ labels, l.codeStart ≤ k.start) :
    Tiles defaults total ({ l with stop := min (nextLabel total labels) (nextDefault defaults total l.codeStart) } :: labels) where
  within := by
    have hlabel : l.codeStart ≤ nextLabel total labels := le_nextLabel hcode hlater
    have hdefault : l.codeStart ≤ nextDefault defaults total l.codeStart := le_nextDefault hcode
    have htotal := Nat.le_trans (Nat.min_le_left _ (nextDefault defaults total l.codeStart)) h.nextLabel_le
    exact List.forall_mem_cons.mpr ⟨⟨hstart, Nat.le_min.mpr ⟨hlabel, hdefault⟩, htotal⟩, h.within⟩
  ordered := List.pairwise_cons.mpr ⟨fun _ hk => Nat.le_trans (Nat.min_le_left _ _) (h.nextLabel_le_start hk), h.ordered⟩
  ends := by
    rintro (_ | i) k hk
    · obtain rfl := Option.some.inj hk
      show min _ _ = total ∨ (∃ k, labels[0]? = some k ∧ min _ _ = k.start) ∨ min _ _ ∈ defaults
      rcases Nat.le_total (nextLabel total labels) (nextDefault defaults total l.codeStart) with hle | hle
      · rw [Nat.min_eq_left hle]
        exact (nextLabel_cases total labels).imp_right Or.inl
      · rw [Nat.min_eq_right hle]
        exact (nextDefault_cases defaults total l.codeStart).imp_right fun hmem => Or.inr hmem.1
    · exact h.ends hk
  noDefault := List.forall_mem_cons.mpr ⟨fun d hd hin => by
    have hle : nextDefault defaults total l.codeStart ≤ d := nextDefault_le hdefaults hd hin.1
    have hlt := Nat.lt_of_lt_of_le hin.2 (Nat.min_le_right _ _)
    exact absurd hlt (Nat.not_lt.mpr hle), h.noDefault⟩

theorem Tiles.le_next (h : Tiles defaults total labels) {i : Nat} {next : CaseLabel} (hl : labels[i]? = some l)
    (hnext : labels[i + 1]? = some next) : l.stop ≤ next.start := by
  obtain ⟨hi, rfl⟩ := List.getElem?_eq_some_iff.mp hl
  obtain ⟨hj, rfl⟩ := List.getElem?_eq_some_iff.mp hnext
  exact List.pairwise_iff_getElem.mp h.ordered i (i + 1) hi hj (Nat.lt_succ_self i)

/-- No label starts inside of another one or of its span. -/
theorem Tiles.noLabel (h : Tiles defaults total labels) (hl : l ∈ labels) (hk : k ∈ labels) :
    ¬(l.start + 1 ≤ k.start ∧ k.start < l.stop) := by
  rintro ⟨hafter, hinside⟩
  obtain ⟨i, hi, rfl⟩ := List.mem_iff_getElem.mp hl
  obtain ⟨j, hj, rfl⟩ := List.mem_iff_getElem.mp hk
  have hordered := List.pairwise_iff_getElem.mp h.ordered
  rcases Nat.lt_trichotomy i j with hlt | rfl | hlt
  · have := hordered i j hi hj hlt
    omega
  · omega
  · have := hordered j i hj hi hlt
    have := h.within _ hk
    omega

end Tiles

/-- The walk over labels in order gives them spans that tile the text. -/
theorem tiles_spanLabels (hdefaults : defaults.Pairwise (· ≤ ·)) (hordered : ls.Pairwise fun a b => a.codeStart ≤ b.start)
    (hlabels : ∀ l ∈ ls, l.start < l.codeStart ∧ l.codeStart ≤ total) :
    Tiles defaults total (spanLabels defaults total ls) := by
  induction ls with
  | nil => exact ⟨nofun, List.Pairwise.nil, nofun, nofun⟩
  | cons l ls ih =>
    obtain ⟨hbehind, hordered⟩ := List.pairwise_cons.mp hordered
    obtain ⟨⟨hstart, hcode⟩, hlabels⟩ := List.forall_mem_cons.mp hlabels
    have hstarts : (spanLabels defaults total ls).map (·.start) = ls.map (·.start) := map_spanLabels fun _ _ => rfl
    have hlater : ∀ k ∈ spanLabels defaults total ls, l.codeStart ≤ k.start := fun k hk => by
      obtain ⟨j, hj, heq⟩ := List.mem_map.mp (hstarts ▸ List.mem_map_of_mem hk)
      exact heq ▸ hbehind j hj
    have hcons := (ih hordered hlabels).cons hdefaults hstart hcode hlater
    rwa [nextLabel, ← List.head?_map, hstarts, List.head?_map] at hcons

end Spans

/-- The labels of a body are the matches whose digits write a sprite number, in source order, and their spans tile the
    body: each begins behind its label and ends at the end of the body, at the next label or at a default label, and no
    label and no default label starts inside of it. -/
theorem label_spans_tile (body : List Char) :
    (caseLabels body).map (fun l => (l.id, l.start, l.codeStart)) =
        ((casePattern.findAll body).filter hasNumber).map (fun m => (valueOf 10 (m.group 1), m.start, m.stop)) ∧
      Tiles ((defaultPattern.findAll body).map (·.start)) (byteLength body) (caseLabels body) ∧
      (∀ {i : Nat} {l next}, (caseLabels body)[i]? = some l → (caseLabels body)[i + 1]? = some next → l.stop ≤ next.start) ∧
      ∀ l ∈ caseLabels body, ∀ k ∈ caseLabels body, ¬(l.start + 1 ≤ k.start ∧ k.start < l.stop) := by
  have hdefaults : ((defaultPattern.findAll body).map (·.start)).Pairwise (· ≤ ·) := by
    refine List.pairwise_map.mpr ((Landmark.fallback.pairwise_findAll body).imp_of_mem fun ha _ hle => ?_)
    exact Nat.le_trans (Nat.le_of_lt (Landmark.within_of_mem (i := .fallback) ha).1) hle
  have hlabels : ∀ l ∈ (casePattern.findAll body).filterMap labelOf?, l.start < l.codeStart ∧ l.codeStart ≤ byteLength body := by
    rw [filterMap_labelOf?]
    intro l hl
    obtain ⟨m, hm, rfl⟩ := List.mem_map.mp hl
    exact Landmark.within_of_mem (i := .numbered) (List.mem_filter.mp hm).1
  have hordered : ((casePattern.findAll body).filterMap labelOf?).Pairwise fun a b => a.codeStart ≤ b.start := by
    rw [filterMap_labelOf?]
    exact List.pairwise_map.mpr ((Landmark.numbered.pairwise_findAll body).filter _)
  have htiles := tiles_spanLabels hdefaults hordered hlabels
  refine ⟨?_, htiles, htiles.le_next, fun l hl k hk => htiles.noLabel hl hk⟩
  rw [caseLabels, map_spanLabels fun _ _ => rfl, filterMap_labelOf?, List.map_map]
  rfl

-- The second number is too large, so its text belongs to the first label, and the default label ends that span.
example :
    (caseLabels "case 1:\ncase 4294967296:\nx;\ndefault:\ncase 2:".toList).map (fun l => (l.id, l.start, l.codeStart, l.stop)) =
      [(1, 0, 7, 28), (2, 37, 44, 44)] := by decide +kernel

end Switch
end SpriteFacts
