import Mathlib.Data.List.Nodup
import SpriteFacts.Proofs.Variant.PulseFormula
import SpriteFacts.Proofs.Variant.StaticChannel

/-! Packed colors that a case group assigns. A slot is searched for by its name and a sign, and the match takes one more
    character, to tell the sign from a comparison. Matches do not overlap, so an assignment that stands right behind the sign
    of one that is found is passed over, and so is one at the end of the code. The main statement says that these are all
    the assignments that can be lost: every other one is recorded or has one warning. -/

namespace SpriteFacts

open Switch Text Pattern

namespace ColorSlot

/-! ### Assignments of slots -/

/-- The head of an assignment: the slot and the sign, with the blanks between them. -/
def head (slot : ColorSlot) (gap : Gap) : List Char := slot.name.toList ++ (gap.text ++ ['='])

/-- The code assigns the slot: its name stands at the start of a word, and the sign behind it is not that of a comparison. -/
def AssignedIn (slot : ColorSlot) (code : List Char) : Prop :=
  ∃ front gap rest, code = front ++ (slot.head gap ++ rest) ∧ (lastOf none front).any isWord = false ∧ rest.head? ≠ some '='

/-- At the end of the text stand so many heads of assignments, each right behind the one before it. -/
inductive HeadsBefore : Nat → List Char → Prop
  | zero {front : List Char} (headless : ∀ (slot : ColorSlot) (gap : Gap) (before : List Char), front = before ++ slot.head gap →
      (lastOf none before).any isWord = true) : HeadsBefore 0 front
  | next {k : Nat} {before : List Char} {slot : ColorSlot} {gap : Gap} (edge : (lastOf none before).any isWord = false)
      (more : HeadsBefore k before) : HeadsBefore (k + 1) (before ++ slot.head gap)

/-- The code assigns the slot where the search sees it: something stands behind the sign, and the heads of assignments
    right in front of it pair up. -/
def SeenIn (slot : ColorSlot) (code : List Char) : Prop :=
  ∃ front gap c rest k, code = front ++ (slot.head gap ++ c :: rest) ∧ (lastOf none front).any isWord = false ∧ c ≠ '=' ∧
    HeadsBefore k front ∧ k % 2 = 0

variable {slot slot' : ColorSlot} {gap gap' : Gap} {code front behind xs ys : List Char}

theorem exists_name (slot : ColorSlot) : ∃ d, slot.name.toList = ['c', d] ∧ (d == '1' || d == '2' || d == '3') = true ∧
    isWord d = true ∧ isBlank d = false := by
  cases slot
  · exact ⟨'1', rfl, by decide⟩
  · exact ⟨'2', rfl, by decide⟩
  · exact ⟨'3', rfl, by decide⟩

theorem name_injective (h : slot.name.toList = slot'.name.toList) : slot = slot' := by
  cases slot <;> cases slot' <;> first | rfl | exact absurd h (by decide)

theorem head_eq_cons (slot : ColorSlot) (gap : Gap) : ∃ t, slot.head gap = 'c' :: t ∧ 'c' ∉ t := by
  obtain ⟨d, hname, hdigit, -⟩ := slot.exists_name
  refine ⟨d :: (gap.text ++ ['=']), by rw [head, hname]; rfl, ?_⟩
  have hd : 'c' ≠ d := by
    rintro rfl
    cases hdigit
  simp (disch := decide) [hd, Gap.not_mem]

theorem SeenIn.assigned (h : slot.SeenIn code) : slot.AssignedIn code := by
  obtain ⟨front, gap, c, rest, k, rfl, hedge, hc, -, -⟩ := h
  exact ⟨front, gap, c :: rest, rfl, hedge, fun heq => hc (Option.some.inj heq)⟩

/-- A text begins with one head at most. -/
theorem head_unique (h : slot.head gap ++ xs = slot'.head gap' ++ ys) : slot = slot' ∧ gap = gap' ∧ xs = ys := by
  obtain ⟨d, hname, -⟩ := slot.exists_name
  obtain ⟨d', hname', -⟩ := slot'.exists_name
  simp only [head, hname, hname', List.cons_append, List.nil_append, List.append_assoc] at h
  obtain ⟨rfl, hgap⟩ := List.cons.inj (List.cons.inj h).2
  obtain ⟨rfl, hsign⟩ := Gap.eq_of_append hgap rfl rfl
  exact ⟨name_injective (hname.trans hname'.symm), rfl, (List.cons.inj hsign).2⟩

/-- A text ends with one head at most. -/
theorem front_unique {before before' : List Char} (h : before ++ slot.head gap = before' ++ slot'.head gap') : before = before' := by
  obtain ⟨d, hname, -, -, hd⟩ := slot.exists_name
  obtain ⟨d', hname', -, -, hd'⟩ := slot'.exists_name
  have hsign : (before ++ ['c']) ++ d :: gap.text ++ ['='] = (before' ++ ['c']) ++ d' :: gap'.text ++ ['='] := by
    rw [head, head, hname, hname'] at h
    simpa using h
  exact List.append_cancel_right (Gap.split_last hd hd' (List.append_cancel_right hsign)).1

theorem exists_headsBefore (front : List Char) : ∃ k, HeadsBefore k front := by
  induction hn : front.length using Nat.strongRecOn generalizing front with
  | ind n ih =>
    by_cases hex : ∃ (slot : ColorSlot) (gap : Gap) (before : List Char), front = before ++ slot.head gap ∧
        (lastOf none before).any isWord = false
    · obtain ⟨slot, gap, before, rfl, hedge⟩ := hex
      obtain ⟨t, ht, -⟩ := slot.head_eq_cons gap
      have hlt : before.length < n := by
        rw [List.length_append, ht, List.length_cons] at hn
        omega
      obtain ⟨k, hk⟩ := ih before.length hlt before rfl
      exact ⟨k + 1, .next hedge hk⟩
    · refine ⟨0, .zero fun slot gap before hfront => ?_⟩
      by_contra hedge
      exact hex ⟨slot, gap, before, hfront, by simpa using hedge⟩

end ColorSlot

/-- The record has a color in the slot, or a pulse of its color. -/
def Variant.StatesSlot (r : Variant) (slot : ColorSlot) : Prop :=
  (r.colors.get slot).isSome = true ∨ r.colorPulse.any (fun pulse => pulse.target = slot) = true

namespace VariantPass

open ColorSlot

/-! ### The search -/

section Search
variable {last : Option Char} {cs code front behind : List Char} {r : Reading} {slot : ColorSlot} {gap : Gap}

/-- The name of a slot is read from its two characters. -/
theorem mem_readings_slotName : r ∈ (group 1 (seq (char 'c') (one fun c => c == '1' || c == '2' || c == '3'))).readings last cs ↔
    ∃ (slot : ColorSlot) (rest : List Char), cs = slot.name.toList ++ rest ∧
      r = ⟨slot.name.toList, [(1, slot.name.toList)], rest⟩ := by
  rw [mem_readings_group]
  constructor
  · rintro ⟨a, ha, rfl⟩
    obtain ⟨b, hb, c, hc, rfl⟩ := mem_readings_seq.mp ha
    obtain ⟨rest, rfl, rfl⟩ := mem_readings_char.mp hb
    obtain ⟨d, rest', rfl, hd, rfl⟩ := mem_readings_one.mp hc
    simp only [Bool.or_eq_true, beq_iff_eq] at hd
    rcases hd with (rfl | rfl) | rfl
    · exact ⟨.c1, rest', rfl, rfl⟩
    · exact ⟨.c2, rest', rfl, rfl⟩
    · exact ⟨.c3, rest', rfl, rfl⟩
  · rintro ⟨slot, rest, rfl, rfl⟩
    obtain ⟨d, hname, hdigit, -⟩ := slot.exists_name
    rw [hname]
    exact ⟨_, mem_readings_seq.mpr ⟨_, mem_readings_char.mpr ⟨d :: rest, rfl, rfl⟩, _,
      mem_readings_one.mpr ⟨d, rest, rfl, hdigit, rfl⟩, rfl⟩, rfl⟩

theorem mem_readings_slotAssignment : r ∈ slotAssignment.readings last cs ↔ last.any isWord = false ∧
    ∃ (slot : ColorSlot) (gap : Gap) (c : Char) (rest : List Char), c ≠ '=' ∧ cs = slot.head gap ++ c :: rest ∧
      r = ⟨slot.head gap ++ [c], [(1, slot.name.toList)], rest⟩ := by
  have hedge : ∀ (slot : ColorSlot) (rest : List Char),
      (last.any isWord != (slot.name.toList ++ rest).head?.any isWord) = true ↔ last.any isWord = false := by
    intro slot rest
    obtain ⟨d, hname, -⟩ := slot.exists_name
    rw [hname]
    show (last.any isWord != true) = true ↔ _
    rw [bne_iff_ne, ne_eq, Bool.not_eq_true]
  simp only [slotAssignment, Pattern.all]
  rw [mem_readings_seq]
  constructor
  · rintro ⟨a, ha, b, hb, rfl⟩
    obtain ⟨hlast, rfl⟩ := mem_readings_wordEdge.mp ha
    obtain ⟨n, hn, x, hx, rfl⟩ := mem_readings_seq.mp hb
    obtain ⟨slot, rest1, rfl, rfl⟩ := mem_readings_slotName.mp hn
    obtain ⟨g, hg, y, hy, rfl⟩ := mem_readings_seq.mp hx
    obtain ⟨gap, rest2, hrest1, hgap, rfl⟩ := mem_readings_run.mp hg
    obtain ⟨e, he, f, hf, rfl⟩ := mem_readings_seq.mp hy
    obtain ⟨rest3, hrest2, rfl⟩ := mem_readings_char.mp he
    obtain ⟨c, rest, hrest3, hc, rfl⟩ := mem_readings_one.mp hf
    simp only at hrest1 hrest2 hrest3
    subst hrest1 hrest2 hrest3
    exact ⟨(hedge slot _).mp hlast, slot, ⟨gap, hgap⟩, c, rest, by simpa using hc, by simp [head], by simp [head, Reading.append]⟩
  · rintro ⟨hlast, slot, gap, c, rest, hc, rfl, rfl⟩
    refine ⟨_, mem_readings_wordEdge.mpr ⟨?_, rfl⟩, ⟨slot.head gap ++ [c], [(1, slot.name.toList)], rest⟩, ?_, rfl⟩
    · rw [head, List.append_assoc]
      exact (hedge slot _).mpr hlast
    refine mem_readings_seq.mpr ⟨_, mem_readings_slotName.mpr ⟨slot, gap.text ++ '=' :: c :: rest, by simp [head], rfl⟩,
      ⟨gap.text ++ ['=', c], [], rest⟩, ?_, by simp [head, Reading.append]⟩
    refine mem_readings_seq.mpr ⟨_, mem_readings_run.mpr ⟨gap.text, _, rfl, gap.blank, rfl⟩, ⟨['=', c], [], rest⟩, ?_,
      by simp [Reading.append]⟩
    exact mem_readings_seq.mpr ⟨_, mem_readings_char.mpr ⟨_, rfl, rfl⟩, _,
      mem_readings_one.mpr ⟨c, rest, rfl, by simpa using hc, rfl⟩, rfl⟩

/-- At a head the search reads the head and one character behind it. -/
theorem read?_slotAssignment {c : Char} {rest : List Char} (hlast : last.any isWord = false) (hc : c ≠ '=') :
    slotAssignment.read? last (slot.head gap ++ c :: rest) = some ⟨slot.head gap ++ [c], [(1, slot.name.toList)], rest⟩ := by
  refine read?_of_unique (mem_readings_slotAssignment.mpr ⟨hlast, slot, gap, c, rest, hc, rfl, rfl⟩) fun s hs => ?_
  obtain ⟨-, slot', gap', c', rest', -, hsplit, rfl⟩ := mem_readings_slotAssignment.mp hs
  obtain ⟨rfl, rfl, hbehind⟩ := head_unique hsplit
  obtain ⟨rfl, rfl⟩ := List.cons.inj hbehind
  rfl

theorem exists_scan (code : List Char) : ∃ ms, Scan (fun _ : Unit => slotAssignment) none code ms := by
  refine Scan.exists_of_apart (fun {i j last cs r} h => ⟨?_, fun hj => absurd rfl hj⟩) none code
  obtain ⟨-, slot, gap, c, rest, -, -, rfl⟩ := mem_readings_slotAssignment.mp (mem_of_read? h)
  exact fun hnil => List.cons_ne_nil c [] (List.append_eq_nil_iff.mp hnil).2

/-! ### What the search skips -/

/-- One of the marks begins where the first part of the text ends. -/
def Visited (ms : List (Mark Unit)) (front : List Char) : Prop := ∃ as bs, ms = as ++ bs ∧ Mark.textOf as = front

variable {ms : List (Mark Unit)}

/-- A letter that a name may begin with starts a mark, or it is the last character of a match. -/
theorem visited_or_last (h : Scan (fun _ : Unit => slotAssignment) none code ms) (hcode : code = front ++ 'c' :: behind) :
    Visited ms front ∨ ∃ (before : List Char) (slot : ColorSlot) (gap : Gap), Visited ms before ∧
      front = before ++ slot.head gap ∧ (lastOf none before).any isWord = false := by
  have htext : ms.flatMap Mark.text = front ++ 'c' :: behind := h.textOf_eq.trans hcode
  obtain ⟨as, m, bs, u, v, rfl, hm, rfl, -⟩ := split_of_flatMap htext
  cases m with
  | plain c =>
    obtain ⟨rfl, -⟩ : u = [] ∧ v = [] := by
      have hlength := congrArg List.length hm
      simp only [Mark.text, List.length_append, List.length_cons, List.length_nil] at hlength
      exact ⟨List.length_eq_zero_iff.mp (by omega), List.length_eq_zero_iff.mp (by omega)⟩
    exact Or.inl ⟨as, .plain c :: bs, rfl, (List.append_nil _).symm⟩
  | found i t kept =>
    obtain ⟨rest, -, hread⟩ := (h.drop as).here
    obtain ⟨hlast, slot, gap, c, rest', hc, -, hr⟩ := mem_readings_slotAssignment.mp (mem_of_read? hread)
    obtain ⟨rfl, -, -⟩ := Reading.mk.inj hr
    obtain ⟨w, hhead, hw⟩ := slot.head_eq_cons gap
    cases u with
    | nil => exact Or.inl ⟨as, _, rfl, (List.append_nil _).symm⟩
    | cons d u =>
      -- The letter is the first of a head and stands in it once, so it can only be the character behind the head.
      refine Or.inr ⟨Mark.textOf as, slot, gap, ⟨as, _, rfl, rfl⟩, ?_, hlast⟩
      rw [Mark.text, hhead] at hm
      obtain ⟨rfl, htail⟩ := List.cons.inj hm
      rcases List.append_eq_append_iff.mp htail with ⟨x, rfl, hx⟩ | ⟨x, rfl, hx⟩
      · cases x with
        | nil => rw [hhead, List.append_nil]; rfl
        | cons e x => exact absurd (congrArg List.length (List.cons.inj hx).2) (by simp)
      · cases x with
        | nil => rw [hhead, List.append_nil]; rfl
        | cons e x =>
          obtain ⟨rfl, -⟩ := List.cons.inj hx
          exact absurd (List.mem_append_right _ List.mem_cons_self) hw

/-- A head that is visited is found, with the character behind it. -/
theorem found_of_visited {c : Char} {rest : List Char} (h : Scan (fun _ : Unit => slotAssignment) none code ms)
    (hv : Visited ms front) (hcode : code = front ++ (slot.head gap ++ c :: rest))
    (hedge : (lastOf none front).any isWord = false) (hc : c ≠ '=') :
    ∃ as bs, ms = as ++ .found () (slot.head gap ++ [c]) [(1, slot.name.toList)] :: bs ∧ Mark.textOf as = front := by
  obtain ⟨as, bs, rfl, rfl⟩ := hv
  have htext : Mark.textOf bs = slot.head gap ++ c :: rest := by
    have hall := h.textOf_eq.trans hcode
    rw [Mark.textOf_append] at hall
    exact List.append_cancel_left hall
  have hread := @read?_slotAssignment _ slot gap c rest hedge hc
  have hscan := h.drop as
  obtain ⟨t, ht, -⟩ := slot.head_eq_cons gap
  cases bs with
  | nil =>
    rw [ht] at htext
    cases htext
  | cons m bs =>
    cases m with
    | plain d =>
      have hnone : slotAssignment.read? (lastOf none (Mark.textOf as)) (Mark.textOf (.plain d :: bs)) = none := hscan.unread ()
      rw [htext, hread] at hnone
      cases hnone
    | found i t kept =>
      obtain ⟨rest', hsplit, hfound⟩ := hscan.here
      rw [← hsplit, htext, hread] at hfound
      obtain ⟨rfl, rfl, rfl⟩ := Reading.mk.inj (Option.some.inj hfound)
      exact ⟨as, bs, rfl, rfl⟩

/-- Of heads that stand side by side the search visits every second one, beginning with the first. -/
theorem visited_iff {k : Nat} (h : Scan (fun _ : Unit => slotAssignment) none code ms) (hk : HeadsBefore k front)
    (hcode : code = front ++ 'c' :: behind) : Visited ms front ↔ k % 2 = 0 := by
  induction hk generalizing behind with
  | @zero front headless =>
    refine iff_of_true ?_ rfl
    rcases visited_or_last h hcode with hv | ⟨before, slot, gap, -, hfront, hedge⟩
    · exact hv
    · rw [headless slot gap before hfront] at hedge
      cases hedge
  | @next k before slot gap edge _ ih =>
    obtain ⟨t, ht, -⟩ := slot.head_eq_cons gap
    have hbefore : code = before ++ (slot.head gap ++ 'c' :: behind) := hcode.trans (List.append_assoc _ _ _)
    have ih' : Visited ms before ↔ k % 2 = 0 := @ih (t ++ 'c' :: behind) (by rw [hbefore, ht]; rfl)
    by_cases hv : Visited ms before
    · obtain ⟨as, bs, rfl, rfl⟩ := found_of_visited h hv hbefore edge (by decide)
      -- The match of the head takes the letter as well.
      have hinside : ¬Visited (as ++ .found () (slot.head gap ++ ['c']) [(1, slot.name.toList)] :: bs)
          (Mark.textOf as ++ slot.head gap) := fun ⟨as', bs', hms, htext⟩ =>
        Mark.textOf_ne_inside hms (u := slot.head gap) (v := ['c']) rfl (by rw [ht]; exact List.cons_ne_nil _ _)
          (List.cons_ne_nil 'c' []) htext
      have heven := ih'.mp hv
      exact iff_of_false hinside (by omega)
    · have hodd : ¬k % 2 = 0 := fun h => hv (ih'.mpr h)
      refine iff_of_true ?_ (by omega)
      rcases visited_or_last h hcode with hfront | ⟨before', slot', gap', hv', hfront, -⟩
      · exact hfront
      · rw [← front_unique hfront] at hv'
        exact absurd hv' hv

theorem ofName?_name (slot : ColorSlot) : ColorSlot.ofName? (String.ofList slot.name.toList) = some slot := by
  cases slot <;> decide

/-- The slots that are listed are those that are assigned where the search sees it. -/
theorem mem_assignedSlots : slot ∈ assignedSlots code ↔ slot.SeenIn code := by
  obtain ⟨ms, hms⟩ := exists_scan code
  rw [assignedSlots, List.mem_eraseDups, List.mem_filterMap, hms.findAll_eq ()]
  constructor
  · rintro ⟨m, hm, hname⟩
    obtain ⟨as, t, kept, bs, rfl, rfl⟩ := Mark.mem_matchesOf_iff.mp hm
    obtain ⟨rest, hsplit, hread⟩ := (hms.drop as).here
    obtain ⟨hedge, slot', gap, c, rest', hc, hcs, hr⟩ := mem_readings_slotAssignment.mp (mem_of_read? hread)
    obtain ⟨rfl, rfl, rfl⟩ := Reading.mk.inj hr
    obtain rfl : slot' = slot := Option.some.inj ((ofName?_name slot').symm.trans hname)
    have hcode : code = Mark.textOf as ++ (slot'.head gap ++ c :: rest) := by
      rw [← hcs, ← hsplit, ← Mark.textOf_append]
      exact hms.textOf_eq.symm
    obtain ⟨k, hk⟩ := exists_headsBefore (Mark.textOf as)
    obtain ⟨t, ht, -⟩ := slot'.head_eq_cons gap
    exact ⟨_, gap, c, rest, k, hcode, hedge, hc, hk,
      (visited_iff hms hk (hcode.trans (by rw [ht]; rfl))).mp ⟨as, _, rfl, rfl⟩⟩
  · rintro ⟨front, gap, c, rest, k, rfl, hedge, hc, hk, heven⟩
    obtain ⟨t, ht, -⟩ := slot.head_eq_cons gap
    have hcode : front ++ (slot.head gap ++ c :: rest) = front ++ 'c' :: (t ++ c :: rest) := by rw [ht]; rfl
    have hvisited : Visited ms front := (visited_iff hms hk hcode).mpr heven
    obtain ⟨as, bs, rfl, -⟩ := found_of_visited hms hvisited rfl hedge hc
    exact ⟨_, Mark.mem_matchesOf_iff.mpr ⟨as, _, _, bs, rfl, rfl⟩, ofName?_name slot⟩

end Search

/-! ### The warnings of a group -/

theorem nodup_eraseDups (slots : List ColorSlot) : slots.eraseDups.Nodup := by
  induction hn : slots.length using Nat.strongRecOn generalizing slots with
  | ind n ih =>
    cases slots with
    | nil => exact List.nodup_nil
    | cons slot slots =>
      rw [List.eraseDups_cons, List.nodup_cons]
      refine ⟨fun hmem => ?_, ih _ ?_ _ rfl⟩
      · have hne := (List.mem_filter.mp (List.mem_eraseDups.mp hmem)).2
        simp at hne
      · rw [← hn, List.length_cons]
        exact Nat.lt_succ_of_le (List.length_filter_le _ _)

def slotMessage (slot : ColorSlot) : String := "unrecognized " ++ slot.name ++ " value"

/-- The diagnostics of a group that say that the value of the slot is not read. -/
def slotWarnings (p : VariantPass) (l : Located) (g : CaseGroup) (slot : ColorSlot) : List Diagnostic :=
  (p.diagnostics l g (p.groupRecords l.body.text l.code g)).filter fun d => d.message = slotMessage slot

/-- Every record of the group states the slot. -/
def SlotRecorded (p : VariantPass) (l : Located) (g : CaseGroup) (slot : ColorSlot) : Prop :=
  ∀ r ∈ p.groupRecords l.body.text l.code g, r.StatesSlot slot

section Warnings
variable {p : VariantPass} {l : Located} {g : CaseGroup} {slot slot' : ColorSlot}

theorem slotMessage_injective (h : slotMessage slot = slotMessage slot') : slot = slot' := by
  cases slot <;> cases slot' <;> first | rfl | exact absurd h (by decide)

/-- A message that ends with quoted code is not about a slot. -/
theorem quoted_ne_slotMessage (s : String) : s ++ "`" ≠ slotMessage slot := by
  intro h
  have hlast := congrArg (fun s : String => s.toList.getLast?) h
  have hquote : (s ++ "`").toList.getLast? = some '`' := by simp [String.toList_append]
  have hvalue : (slotMessage slot).toList.getLast? = some 'e' := by cases slot <;> decide
  rw [hquote, hvalue] at hlast
  exact absurd (Option.some.inj hlast) (by decide)

theorem slotRecorded_iff (hids : g.ids ≠ []) : p.SlotRecorded l g slot ↔ (shared (scope g) none).StatesSlot slot := by
  obtain ⟨first, hfirst⟩ := List.exists_mem_of_ne_nil _ hids
  simp only [SlotRecorded, groupRecords, records_eq_map, List.forall_mem_map]
  exact ⟨fun h => h first hfirst, fun h _ _ => h⟩

theorem mem_unreadSlots : slot ∈ unreadSlots g.code (shared (scope g) none) ↔
    slot.SeenIn g.code ∧ ¬(shared (scope g) none).StatesSlot slot := by
  rw [unreadSlots, List.mem_filter, mem_assignedSlots, Variant.StatesSlot]
  refine and_congr_right fun _ => ?_
  cases (shared (scope g) none).colors.get slot <;> simp

/-- The warnings about a slot are those that the listed slots give rise to. -/
theorem slotWarnings_eq : p.slotWarnings l g slot =
    List.replicate ((unreadSlots g.code (shared (scope g) none)).count slot) (l.diagnostic g .warning (slotMessage slot)) := by
  have hother : ∀ {b : Bool} {d : Diagnostic}, d.message ≠ slotMessage slot →
      (if b then [d] else []).filter (fun d => d.message = slotMessage slot) = [] := by
    intro b d hd
    cases b <;> simp [hd]
  have hslots : ∀ slots : List ColorSlot, (slots.map fun s => l.diagnostic g .warning (slotMessage s)).filter
      (fun d => d.message = slotMessage slot) = List.replicate (slots.count slot) (l.diagnostic g .warning (slotMessage slot)) := by
    intro slots
    have hsame : ((fun d : Diagnostic => decide (d.message = slotMessage slot)) ∘ fun s => l.diagnostic g .warning (slotMessage s)) =
        fun s => s == slot := by
      funext s
      by_cases hs : s = slot
      · subst hs
        simp [Located.diagnostic]
      · have hne : slotMessage s ≠ slotMessage slot := fun h => hs (slotMessage_injective h)
        simp [Located.diagnostic, hs, hne]
    rw [List.filter_map, hsame, List.filter_beq, List.map_replicate]
  have hquoted : ∀ a b : String, a ++ (b ++ "`") ≠ slotMessage slot := fun a b => by
    rw [← String.append_assoc]
    exact quoted_ne_slotMessage _
  simp only [slotWarnings, diagnostics, List.filter_append]
  rw [hother (hquoted _ _), hother (hquoted _ _), hother (quoted_ne_slotMessage _), List.append_nil, List.append_nil, List.nil_append]
  exact hslots _

/-- The code assigns the slot, no record states it, and the search does not see the assignment. -/
structure Swallowed (p : VariantPass) (l : Located) (g : CaseGroup) (slot : ColorSlot) : Prop where
  assigned : slot.AssignedIn g.code
  unstated : ¬p.SlotRecorded l g slot
  unseen : ¬slot.SeenIn g.code

/-- The value of a slot is warned of once at most, and only if the code assigns the slot and no record states it. An
    assigned slot is in all the records or has its warning, unless it is swallowed. -/
theorem packed_recorded_or_reported_iff (hg : g ∈ caseGroups .fallThrough breakStatement l.code) (slot : ColorSlot) :
    (p.slotWarnings l g slot = [] ∨ p.slotWarnings l g slot = [l.diagnostic g .warning (slotMessage slot)]) ∧
    (p.slotWarnings l g slot ≠ [] → slot.AssignedIn g.code ∧ ¬p.SlotRecorded l g slot) ∧
    (slot.AssignedIn g.code → ((p.SlotRecorded l g slot ∨ (p.slotWarnings l g slot).length = 1) ↔ ¬p.Swallowed l g slot)) := by
  have hids := ids_ne_nil_of_mem_fallThrough hg
  have hnodup : (unreadSlots g.code (shared (scope g) none)).Nodup := (nodup_eraseDups _).filter _
  have hwarned := @mem_unreadSlots g slot
  rw [← slotRecorded_iff (p := p) (l := l) hids] at hwarned
  rw [slotWarnings_eq]
  by_cases hmem : slot ∈ unreadSlots g.code (shared (scope g) none)
  · obtain ⟨hseen, hrecorded⟩ := hwarned.mp hmem
    rw [List.count_eq_one_of_mem hnodup hmem]
    exact ⟨Or.inr rfl, fun _ => ⟨hseen.assigned, hrecorded⟩, fun _ => iff_of_true (Or.inr rfl) fun h => h.unseen hseen⟩
  · rw [List.count_eq_zero_of_not_mem hmem]
    refine ⟨Or.inl rfl, fun h => absurd rfl h, fun hassigned => ⟨?_, fun h => ?_⟩⟩
    · rintro (hrecorded | hone) hswallowed
      · exact hswallowed.unstated hrecorded
      · cases hone
    · by_contra hnot
      exact h ⟨hassigned, fun hrecorded => hnot (Or.inl hrecorded),
        fun hseen => hmem (hwarned.mpr ⟨hseen, fun hrecorded => hnot (Or.inl hrecorded)⟩)⟩

end Warnings

theorem packed_recorded_or_reported_iff_spaced :
    let source := Source.ofString "packed.c"
      "int _trans_asprite(int sprite)\n\x7b\nswitch (sprite) \x7b\ncase 1:\nc1 = c2 = foo;\nbreak;\n\x7d\n\x7d\n"
    ∃ l g, Located.find? source "_trans_asprite" = some l ∧ g ∈ caseGroups .fallThrough breakStatement l.code ∧
      ColorSlot.c2.AssignedIn g.code ∧ (animated.slotWarnings l g .c2).length = 1 ∧ ¬animated.SlotRecorded l g .c2 ∧
      ¬animated.Swallowed l g .c2 := by
  intro source
  have hgroups : (Located.find? source "_trans_asprite").map (fun l => (caseGroups .fallThrough breakStatement l.code).map
      fun g => (g.code, (animated.slotWarnings l g .c2).length)) = some [("\nc1 = c2 = foo;\n".toList, 1)] := by decide +kernel
  obtain ⟨l, g, hl, hmem, hg⟩ := exists_only_group hgroups
  obtain ⟨hcode, hlength⟩ := Prod.mk.inj hg
  have hassigned : ColorSlot.c2.AssignedIn g.code := by
    rw [hcode]
    exact ⟨"\nc1 = ".toList, .space, " foo;\n".toList, rfl, by decide, by decide⟩
  obtain ⟨-, hwarned, hiff⟩ := @packed_recorded_or_reported_iff animated l g hmem .c2
  have hne : animated.slotWarnings l g .c2 ≠ [] := fun hnil => by
    rw [hnil] at hlength
    cases hlength
  exact ⟨l, g, hl, hmem, hassigned, hlength, (hwarned hne).2, (hiff hassigned).mp (Or.inr hlength)⟩

/-- An assignment right behind the sign of another can be in no record with nothing reported. -/
theorem chained_slot_swallowed :
    let source := Source.ofString "packed.c"
      "int _trans_asprite(int sprite)\n\x7b\nswitch (sprite) \x7b\ncase 1:\nc1=c2=foo;\nbreak;\n\x7d\n\x7d\n"
    ∃ l g, Located.find? source "_trans_asprite" = some l ∧ g ∈ caseGroups .fallThrough breakStatement l.code ∧
      ColorSlot.c2.AssignedIn g.code ∧ ¬animated.SlotRecorded l g .c2 ∧ animated.slotWarnings l g .c2 = [] := by
  intro source
  have hgroups : (Located.find? source "_trans_asprite").map (fun l => (caseGroups .fallThrough breakStatement l.code).map
      fun g => (g.code, (animated.slotWarnings l g .c2).length, (animated.groupRecords l.body.text l.code g).map
        fun r => r.colors.c2.isSome || r.colorPulse.isSome)) = some [("\nc1=c2=foo;\n".toList, 0, [false])] := by decide +kernel
  obtain ⟨l, g, hl, hmem, hg⟩ := exists_only_group hgroups
  simp only [Prod.mk.injEq] at hg
  obtain ⟨hcode, hsilent, hrecords⟩ := hg
  obtain ⟨r, hr, hnone⟩ := List.map_eq_singleton_iff.mp hrecords
  rw [Bool.or_eq_false_iff, Option.isSome_eq_false_iff, Option.isSome_eq_false_iff, Option.isNone_iff_eq_none,
    Option.isNone_iff_eq_none] at hnone
  refine ⟨l, g, hl, hmem, ?_, fun hrecorded => ?_, List.length_eq_zero_iff.mp hsilent⟩
  · rw [hcode]
    exact ⟨"\nc1=".toList, .none, "foo;\n".toList, rfl, by decide, by decide⟩
  · have hstates := hrecorded r (by rw [hr]; exact List.mem_singleton_self r)
    simp [Variant.StatesSlot, PackedColors.get, hnone] at hstates

end VariantPass
end SpriteFacts
