import SpriteFacts.Proofs.Pattern.Scan

/-! Patterns that begin with a word. Such a pattern matches only where one of its words stands at the start
    of a word of the text, so text without the start of a word is clear of it, whatever stands behind.
    Some patterns also need a certain character, and text without that character holds no match. -/

namespace SpriteFacts

open Text

namespace Pattern

/-! ### Words and runs -/

section Mem
variable {p : Pattern} {ok : Char → Bool} {last : Option Char} {cs : List Char} {r : Reading}

theorem mem_readings_optional : r ∈ (Pattern.optional p).readings last cs ↔ r ∈ p.readings last cs ∨ r = ⟨[], [], cs⟩ := by
  rw [Pattern.optional, mem_readings_alt]
  exact or_congr_right List.mem_singleton

theorem mem_readings_run1 : r ∈ (run1 ok).readings last cs ↔
    ∃ t rest, cs = t ++ rest ∧ t ≠ [] ∧ t.all ok = true ∧ r = ⟨t, [], rest⟩ := by
  rw [run1, mem_readings_seq]
  constructor
  · rintro ⟨a, ha, b, hb, rfl⟩
    obtain ⟨c, rest, rfl, hc, rfl⟩ := mem_readings_one.mp ha
    obtain ⟨t, rest', hrest, hall, rfl⟩ := mem_readings_run.mp hb
    subst hrest
    exact ⟨c :: t, rest', rfl, List.cons_ne_nil c t, by simp [hc, hall], rfl⟩
  · rintro ⟨t, rest, rfl, hne, hall, rfl⟩
    cases t with
    | nil => exact absurd rfl hne
    | cons c t =>
      rw [List.all_cons, Bool.and_eq_true] at hall
      exact ⟨_, mem_readings_one.mpr ⟨c, t ++ rest, rfl, hall.1, rfl⟩, _,
        mem_readings_run.mpr ⟨t, rest, rfl, hall.2, rfl⟩, rfl⟩

theorem mem_readings_wordStart {s : String} (hs : s.toList.head?.any isWord = true) :
    r ∈ (wordStart s).readings last cs ↔
      last.any isWord = false ∧ ∃ rest, cs = s.toList ++ rest ∧ r = ⟨s.toList, [], rest⟩ := by
  have head : ∀ rest, (s.toList ++ rest).head?.any isWord = true := fun rest => by
    cases h : s.toList with
    | nil => simp [h] at hs
    | cons c cs => simpa [h] using hs
  rw [wordStart, mem_readings_seq]
  constructor
  · rintro ⟨a, ha, b, hb, rfl⟩
    obtain ⟨hedge, rfl⟩ := mem_readings_wordEdge.mp ha
    obtain ⟨rest, hrest, rfl⟩ := mem_readings_literal.mp hb
    simp only at hrest
    subst hrest
    rw [head rest, bne_iff_ne, ne_eq, Bool.not_eq_true] at hedge
    exact ⟨hedge, rest, rfl, rfl⟩
  · rintro ⟨hlast, rest, rfl, rfl⟩
    refine ⟨⟨[], [], s.toList ++ rest⟩, mem_readings_wordEdge.mpr ⟨?_, rfl⟩, ⟨s.toList, [], rest⟩,
      mem_readings_literal.mpr ⟨rest, rfl, rfl⟩, rfl⟩
    rw [head rest, hlast]
    rfl

theorem mem_readings_word {s : String} (hs : s.toList.head?.any isWord = true)
    (hend : ∀ last : Option Char, (lastOf last s.toList).any isWord = true) :
    r ∈ (word s).readings last cs ↔
      last.any isWord = false ∧ ∃ rest, cs = s.toList ++ rest ∧ rest.head?.any isWord = false ∧ r = ⟨s.toList, [], rest⟩ := by
  have hassoc : (word s).readings last cs = (seq (wordStart s) wordEdge).readings last cs :=
    (readings_seq_assoc wordEdge (literal s) wordEdge last cs).symm
  rw [hassoc, mem_readings_seq]
  constructor
  · rintro ⟨a, ha, b, hb, rfl⟩
    obtain ⟨hlast, rest, rfl, rfl⟩ := (mem_readings_wordStart hs).mp ha
    obtain ⟨hedge, rfl⟩ := mem_readings_wordEdge.mp hb
    rw [hend, bne_iff_ne, ne_eq, Eq.comm, Bool.not_eq_true] at hedge
    exact ⟨hlast, rest, rfl, hedge, by simp [Reading.append]⟩
  · rintro ⟨hlast, rest, rfl, hedge, rfl⟩
    refine ⟨_, (mem_readings_wordStart hs).mpr ⟨hlast, rest, rfl, rfl⟩, ⟨[], [], rest⟩,
      mem_readings_wordEdge.mpr ⟨?_, rfl⟩, by simp [Reading.append]⟩
    rw [hend, hedge]
    rfl

end Mem

/-! ### Patterns that begin with a word -/

/-- Every reading begins with one of the words. -/
def Leads (words : List (List Char)) (p : Pattern) : Prop :=
  ∀ (last : Option Char) (cs : List Char) (r : Reading), r ∈ p.readings last cs → ∃ w ∈ words, w <+: cs

/-- Every reading begins with one of the words, at the start of a word of the text. -/
def Begins (words : List (List Char)) (p : Pattern) : Prop :=
  ∀ (last : Option Char) (cs : List Char) (r : Reading), r ∈ p.readings last cs →
    last.any isWord = false ∧ ∃ w ∈ words, w <+: cs

section Leads
variable {words more : List (List Char)} {p q : Pattern}

theorem leads_literal (s : String) : Leads [s.toList] (literal s) := by
  intro last cs r h
  obtain ⟨rest, rfl, -⟩ := mem_readings_literal.mp h
  exact ⟨_, List.mem_singleton_self _, List.prefix_append _ _⟩

theorem Leads.seq (h : Leads words p) : Leads words (.seq p q) := by
  intro last cs r hr
  obtain ⟨a, ha, -⟩ := mem_readings_seq.mp hr
  exact h _ _ _ ha

theorem Leads.group {n : Nat} (h : Leads words p) : Leads words (.group n p) := by
  intro last cs r hr
  obtain ⟨a, ha, -⟩ := mem_readings_group.mp hr
  exact h _ _ _ ha

theorem Leads.begins (h : Leads words p) (hw : ∀ w ∈ words, w.head?.any isWord = true) :
    Begins words (.seq wordEdge p) := by
  intro last cs r hr
  obtain ⟨a, ha, b, hb, rfl⟩ := mem_readings_seq.mp hr
  obtain ⟨hedge, rfl⟩ := mem_readings_wordEdge.mp ha
  obtain ⟨w, hmem, hpre⟩ := h _ _ _ hb
  refine ⟨?_, w, hmem, hpre⟩
  have hhead : cs.head?.any isWord = true := by
    have := hw w hmem
    obtain ⟨rest, rfl⟩ := hpre
    cases w <;> simp_all
  rw [hhead, bne_iff_ne, ne_eq, Bool.not_eq_true] at hedge
  exact hedge

theorem begins_wordStart {s : String} (hs : s.toList.head?.any isWord = true) : Begins [s.toList] (wordStart s) :=
  (leads_literal s).begins fun w hw => by
    obtain rfl := List.mem_singleton.mp hw
    exact hs

theorem begins_word {s : String} (hs : s.toList.head?.any isWord = true) : Begins [s.toList] (word s) :=
  (leads_literal s).seq.begins fun w hw => by
    obtain rfl := List.mem_singleton.mp hw
    exact hs

theorem Begins.seq (h : Begins words p) : Begins words (.seq p q) := by
  intro last cs r hr
  obtain ⟨a, ha, -⟩ := mem_readings_seq.mp hr
  exact h _ _ _ ha

theorem Begins.alt (hp : Begins words p) (hq : Begins more q) : Begins (words ++ more) (.alt p q) := by
  intro last cs r hr
  rcases mem_readings_alt.mp hr with hr | hr
  · obtain ⟨hlast, w, hw, hpre⟩ := hp _ _ _ hr
    exact ⟨hlast, w, List.mem_append.mpr (Or.inl hw), hpre⟩
  · obtain ⟨hlast, w, hw, hpre⟩ := hq _ _ _ hr
    exact ⟨hlast, w, List.mem_append.mpr (Or.inr hw), hpre⟩

theorem Begins.read?_eq_none (h : Begins words p) {last : Option Char} {cs : List Char}
    (hcs : last.any isWord = true ∨ ∀ w ∈ words, ¬w <+: cs) : p.read? last cs = none := by
  rw [Pattern.read?_eq_none]
  intro r hr
  obtain ⟨hlast, w, hw, hpre⟩ := h _ _ _ hr
  rcases hcs with hcs | hcs
  · rw [hlast] at hcs
    cases hcs
  · exact hcs w hw hpre

theorem Begins.clear_of_not_mem (h : Begins words p) {behind t : List Char} {last : Option Char}
    (ht : ∀ w ∈ words, w.head?.any (fun c => decide (c ∉ t)) = true) : p.Clear behind last t := by
  rw [clear_iff]
  rintro as bs rfl hne
  refine h.read?_eq_none (Or.inr fun w hw hpre => ?_)
  have hw' := ht w hw
  cases w with
  | nil => simp at hw'
  | cons c w =>
    cases bs with
    | nil => exact hne rfl
    | cons b bs =>
      obtain ⟨rest, hrest⟩ := hpre
      have : b = c := (List.cons.inj hrest).1.symm
      simp [this] at hw'

end Leads

end Pattern

namespace Text

theorem lastOf_word {last : Option Char} {c : Char} {w : List Char} (h : (c :: w).all isWord = true) :
    (lastOf last (c :: w)).any isWord = true := by
  induction w generalizing last c with
  | nil => simpa using h
  | cons d w ih =>
    rw [List.all_cons, Bool.and_eq_true] at h
    rw [lastOf_cons]
    exact ih h.2

/-- No word of the text starts with a character of the class, given the character before the text. -/
def startless (ok : Char → Bool) : Option Char → List Char → Bool
  | _, [] => true
  | last, c :: cs => (last.any isWord || !ok c) && startless ok (some c) cs

theorem startless_of_all {ok : Char → Bool} {last : Option Char} {cs : List Char} (h : cs.all (fun c => !ok c) = true) :
    startless ok last cs = true := by
  induction cs generalizing last with
  | nil => rfl
  | cons c cs ih =>
    rw [List.all_cons, Bool.and_eq_true] at h
    rw [startless, h.1, ih h.2, Bool.or_true, Bool.and_true]

end Text

namespace Pattern

variable {words : List (List Char)} {p : Pattern}

/-- Text in which no word starts with the first letter of one of the words is clear, whatever stands behind it. -/
theorem Begins.clear_of_startless (h : Begins words p) {ok : Char → Bool} (hw : ∀ w ∈ words, w.head?.any ok = true)
    {behind t : List Char} {last : Option Char} (ht : startless ok last t = true) : p.Clear behind last t := by
  induction t generalizing last with
  | nil => trivial
  | cons c t ih =>
    rw [startless, Bool.and_eq_true, Bool.or_eq_true, Bool.not_eq_true'] at ht
    refine ⟨h.read?_eq_none ?_, ih ht.2⟩
    rcases ht.1 with hlast | hc
    · exact Or.inl hlast
    · refine Or.inr fun w hmem hpre => ?_
      obtain ⟨rest, hrest⟩ := hpre
      have hw' := hw w hmem
      cases w with
      | nil => simp at hw'
      | cons d w =>
        obtain ⟨rfl, -⟩ := List.cons.inj hrest
        simp [hc] at hw'

/-- None of the words begins with a blank. -/
def unblank (words : List (List Char)) : Bool := words.all fun w => w.head?.any fun c => !isBlank c

theorem Begins.clear_of_blank (h : Begins words p) (hw : unblank words = true) {behind t : List Char} {last : Option Char}
    (ht : t.all isBlank = true) : p.Clear behind last t := by
  refine h.clear_of_not_mem fun w hmem => ?_
  have hhead := List.all_eq_true.mp hw w hmem
  cases w with
  | nil => cases hhead
  | cons c w =>
    refine decide_eq_true fun hc => ?_
    have hblank : (!isBlank c) = true := hhead
    rw [List.all_eq_true.mp ht c hc] at hblank
    cases hblank

/-- Inside a word no match starts, so only its start matters. -/
theorem Begins.clear_of_head (h : Begins words p) {behind t : List Char} {last : Option Char} (ht : t.all isWord = true)
    (hhead : p.read? last (t ++ behind) = none) : p.Clear behind last t := by
  cases t with
  | nil => trivial
  | cons c t =>
    refine ⟨hhead, ?_⟩
    clear hhead
    induction t generalizing c with
    | nil => trivial
    | cons d t ih =>
      rw [List.all_cons, Bool.and_eq_true] at ht
      exact ⟨h.read?_eq_none (Or.inl ht.1), ih d ht.2⟩

theorem Begins.clear_of_word (h : Begins words p) {behind t : List Char} {last : Option Char}
    (ht : t.all isWord = true) (hw : ∀ w ∈ words, ¬w <+: t ++ behind) : p.Clear behind last t :=
  h.clear_of_head ht (h.read?_eq_none (Or.inr hw))

theorem Begins.read?_nil (h : Begins words p) (hw : [] ∉ words) {last : Option Char} : p.read? last [] = none :=
  h.read?_eq_none (Or.inr fun _ hmem hpre => hw (List.prefix_nil.mp hpre ▸ hmem))

/-! ### Patterns that need a character -/

/-- Every text that the pattern reads holds the character. -/
def Needs (c : Char) : Pattern → Prop
  | one ok => ∀ d, ok d = true → d = c
  | seq p q => Needs c p ∨ Needs c q
  | alt p q => Needs c p ∧ Needs c q
  | group _ p => Needs c p
  | _ => False

theorem Needs.mem {c : Char} (h : Needs c p) {last : Option Char} {cs : List Char} {r : Reading}
    (hr : r ∈ p.readings last cs) : c ∈ r.text := by
  induction p generalizing last cs r with
  | empty | run | lazyRun | wordEdge | textStart | textEnd => exact False.elim h
  | one ok =>
    obtain ⟨d, rest, -, hd, rfl⟩ := mem_readings_one.mp hr
    exact List.mem_singleton.mpr (h d hd).symm
  | seq p q ihp ihq =>
    obtain ⟨a, ha, b, hb, rfl⟩ := mem_readings_seq.mp hr
    rcases h with h | h
    · exact List.mem_append.mpr (Or.inl (ihp h ha))
    · exact List.mem_append.mpr (Or.inr (ihq h hb))
  | alt p q ihp ihq =>
    rcases mem_readings_alt.mp hr with hr | hr
    · exact ihp h.1 hr
    · exact ihq h.2 hr
  | group n p ih =>
    obtain ⟨a, ha, rfl⟩ := mem_readings_group.mp hr
    exact ih (r := a) h ha

theorem Needs.read?_eq_none {c : Char} (h : Needs c p) {last : Option Char} {cs : List Char} (hc : c ∉ cs) :
    p.read? last cs = none := by
  rw [Pattern.read?_eq_none]
  intro r hr
  apply hc
  rw [split_of_mem hr]
  exact List.mem_append.mpr (Or.inl (h.mem hr))

theorem Needs.clear {c : Char} (h : Needs c p) {last : Option Char} {behind cs : List Char}
    (hc : c ∉ cs ++ behind) : p.Clear behind last cs := by
  rw [clear_iff]
  rintro as bs rfl -
  refine h.read?_eq_none fun hmem => hc ?_
  simp only [List.mem_append] at hmem ⊢
  rcases hmem with hmem | hmem
  · exact Or.inl (Or.inr hmem)
  · exact Or.inr hmem

theorem Needs.find?_eq_none {c : Char} (h : Needs c p) {cs : List Char} (hc : c ∉ cs) : p.find? cs = none :=
  findFrom_eq_none.mpr ⟨h.clear (by rwa [List.append_nil]), h.read?_eq_none (by simp)⟩

end Pattern
end SpriteFacts
