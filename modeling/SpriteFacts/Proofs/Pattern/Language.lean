import SpriteFacts.Proofs.Expression.Grammar
import SpriteFacts.Proofs.Pattern.Occurrence
import SpriteFacts.Proofs.Pattern.Preference

/-! Patterns that do not look around. Such a pattern reads a text the same way wherever it stands, so it is known by its
    language: the texts that it takes, each with what it keeps of them. A pattern that must cover the whole text is found
    exactly in the texts of its language. -/

namespace SpriteFacts.Pattern

open Text

/-- Texts, each with what is kept of it. -/
def TextLanguage := List Char → List (Nat × List Char) → Prop

namespace TextLanguage

/-- One text, of which nothing is kept. -/
def just (t : List Char) : TextLanguage := fun u kept => u = t ∧ kept = []

/-- A run of digits that is kept under a number. -/
def digits (n : Nat) : TextLanguage := fun t kept => t ≠ [] ∧ t.all isDigit = true ∧ kept = [(n, t)]

/-- Characters of a class, if any. -/
def many (ok : Char → Bool) : TextLanguage := fun t kept => t.all ok = true ∧ kept = []

/-- Characters of a class, at least one of them. -/
def chars (ok : Char → Bool) : TextLanguage := fun t kept => t ≠ [] ∧ t.all ok = true ∧ kept = []

/-- The texts of two languages. -/
def either (L M : TextLanguage) : TextLanguage := fun t kept => L t kept ∨ M t kept

/-- The texts of a language, each kept under a number. -/
def keptAs (n : Nat) (L : TextLanguage) : TextLanguage := fun t kept => ∃ j, L t j ∧ kept = (n, t) :: j

/-- A text of one language and right behind it a text of another. -/
def append (L M : TextLanguage) : TextLanguage := fun t kept =>
  ∃ (u : List Char) (j : List (Nat × List Char)) (w : List Char) (l : List (Nat × List Char)),
    L u j ∧ M w l ∧ t = u ++ w ∧ kept = l ++ j

/-- A text of one language, blanks, and a text of another. -/
def spaced (L M : TextLanguage) : TextLanguage := fun t kept =>
  ∃ (u : List Char) (j : List (Nat × List Char)) (g : Gap) (w : List Char) (l : List (Nat × List Char)),
    L u j ∧ M w l ∧ t = u ++ (g.text ++ w) ∧ kept = l ++ j

theorem just_self (t : List Char) : just t t [] := ⟨rfl, rfl⟩

theorem digits_self (n : Nat) (d : Decimal) : digits n d.digits [(n, d.digits)] := ⟨d.nonempty, d.numeral.all_isDigit, rfl⟩

theorem spaced_of {L M : TextLanguage} {u w : List Char} {j l : List (Nat × List Char)} (hu : L u j) (g : Gap) (hw : M w l) :
    L.spaced M (u ++ (g.text ++ w)) (l ++ j) := ⟨u, j, g, w, l, hu, hw, rfl, rfl⟩

theorem append_of {L M : TextLanguage} {u w : List Char} {j l : List (Nat × List Char)} (hu : L u j) (hw : M w l) :
    L.append M (u ++ w) (l ++ j) := ⟨u, j, w, l, hu, hw, rfl, rfl⟩

end TextLanguage

/-- The pattern reads the texts of the language, whatever stands around them. -/
def Reads (p : Pattern) (L : TextLanguage) : Prop :=
  ∀ (last : Option Char) (cs : List Char) (r : Reading), r ∈ p.readings last cs ↔ cs = r.text ++ r.rest ∧ L r.text r.kept

section Reads
variable {p q : Pattern} {ps : List Pattern} {L M : TextLanguage} {last : Option Char} {cs : List Char} {r : Reading}
  {m : Match}

theorem Reads.congr (h : Reads p L) (same : ∀ t kept, L t kept ↔ M t kept) : Reads p M :=
  fun last cs r => (h last cs r).trans (and_congr_right fun _ => same r.text r.kept)

theorem reads_literal (s : String) : Reads (literal s) (.just s.toList) := by
  intro last cs ⟨t, kept, rest⟩
  rw [mem_readings_literal]
  constructor
  · rintro ⟨rest', rfl, hr⟩
    cases hr
    exact ⟨rfl, rfl, rfl⟩
  · rintro ⟨rfl, rfl, rfl⟩
    exact ⟨rest, rfl, rfl⟩

theorem reads_char (c : Char) : Reads (char c) (.just [c]) := by
  intro last cs ⟨t, kept, rest⟩
  rw [mem_readings_char]
  constructor
  · rintro ⟨rest', rfl, hr⟩
    cases hr
    exact ⟨rfl, rfl, rfl⟩
  · rintro ⟨rfl, rfl, rfl⟩
    exact ⟨rest, rfl, rfl⟩

theorem reads_digits (n : Nat) : Reads (group n digits) (.digits n) := by
  intro last cs ⟨t, kept, rest⟩
  rw [mem_readings_digits]
  constructor
  · rintro ⟨t', rest', rfl, hne, hall, hr⟩
    cases hr
    exact ⟨rfl, hne, hall, rfl⟩
  · rintro ⟨rfl, hne, hall, hkept⟩
    obtain rfl : kept = [(n, t)] := hkept
    exact ⟨t, rest, rfl, hne, hall, rfl⟩

theorem reads_one (ok : Char → Bool) : Reads (one ok) fun t kept => ∃ c, ok c = true ∧ t = [c] ∧ kept = [] := by
  intro last cs ⟨t, kept, rest⟩
  rw [mem_readings_one]
  constructor
  · rintro ⟨c, rest', rfl, hc, hr⟩
    cases hr
    exact ⟨rfl, c, hc, rfl, rfl⟩
  · rintro ⟨rfl, c, hc, rfl, rfl⟩
    exact ⟨c, rest, rfl, hc, rfl⟩

theorem reads_run (ok : Char → Bool) : Reads (run ok) (.many ok) := by
  intro last cs ⟨t, kept, rest⟩
  rw [mem_readings_run]
  constructor
  · rintro ⟨t', rest', rfl, hall, hr⟩
    cases hr
    exact ⟨rfl, hall, rfl⟩
  · rintro ⟨rfl, hall, rfl⟩
    exact ⟨t, rest, rfl, hall, rfl⟩

/-- A lazy run reads what a greedy run does, in another order. -/
theorem reads_lazyRun (ok : Char → Bool) : Reads (lazyRun ok) (.many ok) := fun last cs r => by
  rw [mem_readings_lazyRun]
  exact mem_readings_run.symm.trans (reads_run ok last cs r)

theorem reads_run1 (ok : Char → Bool) : Reads (run1 ok) (.chars ok) := by
  intro last cs ⟨t, kept, rest⟩
  rw [mem_readings_run1]
  constructor
  · rintro ⟨t', rest', rfl, hne, hall, hr⟩
    cases hr
    exact ⟨rfl, hne, hall, rfl⟩
  · rintro ⟨rfl, hne, hall, rfl⟩
    exact ⟨t, rest, rfl, hne, hall, rfl⟩

theorem Reads.alt (hp : Reads p L) (hq : Reads q M) : Reads (.alt p q) (L.either M) := fun last cs r => by
  rw [mem_readings_alt, hp, hq, ← and_or_left]
  rfl

theorem Reads.group {n : Nat} (hp : Reads p L) : Reads (.group n p) (L.keptAs n) := by
  intro last cs ⟨t, kept, rest⟩
  rw [mem_readings_group]
  constructor
  · rintro ⟨a, ha, hr⟩
    obtain ⟨hsplit, ht⟩ := (hp _ _ _).mp ha
    cases hr
    exact ⟨hsplit, _, ht, rfl⟩
  · rintro ⟨rfl, j, ht, hkept⟩
    obtain rfl : kept = (n, t) :: j := hkept
    exact ⟨⟨t, j, rest⟩, (hp _ _ _).mpr ⟨rfl, ht⟩, rfl⟩

theorem Reads.seq (hp : Reads p L) (hq : Reads q M) : Reads (.seq p q) (L.append M) := by
  intro last cs ⟨t, kept, rest⟩
  rw [mem_readings_seq]
  constructor
  · rintro ⟨a, ha, b, hb, hr⟩
    obtain ⟨rfl, hu⟩ := (hp _ _ _).mp ha
    obtain ⟨hrest, hw⟩ := (hq _ _ _).mp hb
    cases hr
    exact ⟨by rw [hrest, List.append_assoc], _, _, _, _, hu, hw, rfl, rfl⟩
  · rintro ⟨rfl, u, j, w, l, hu, hw, htext, hkept⟩
    obtain ⟨rfl, rfl⟩ : t = u ++ w ∧ kept = l ++ j := ⟨htext, hkept⟩
    exact ⟨⟨u, j, w ++ rest⟩, (hp _ _ _).mpr ⟨List.append_assoc _ _ _, hu⟩, ⟨w, l, rest⟩, (hq _ _ _).mpr ⟨rfl, hw⟩, rfl⟩

theorem Reads.spaced (hp : Reads p L) (hq : Reads (Pattern.spaced (q :: ps)) M) :
    Reads (Pattern.spaced (p :: q :: ps)) (L.spaced M) := by
  intro last cs r
  constructor
  · intro hr
    refine ⟨split_of_mem hr, ?_⟩
    obtain ⟨a, ha, b, hb, rfl⟩ := mem_readings_seq.mp hr
    obtain ⟨c, hc, d, hd, rfl⟩ := mem_readings_seq.mp hb
    obtain ⟨g, rest, -, hg, rfl⟩ := mem_readings_run.mp hc
    exact ⟨a.text, a.kept, ⟨g, hg⟩, d.text, d.kept, ((hp _ _ _).mp ha).2, ((hq _ _ _).mp hd).2, rfl,
      by simp [Reading.append]⟩
  · obtain ⟨t, kept, rest⟩ := r
    rintro ⟨rfl, u, j, g, w, l, hu, hw, rfl, rfl⟩
    refine mem_readings_seq.mpr
      ⟨⟨u, j, g.text ++ (w ++ rest)⟩, (hp _ _ _).mpr ⟨by simp, hu⟩, ⟨g.text ++ w, l, rest⟩, ?_, rfl⟩
    exact mem_readings_seq.mpr ⟨⟨g.text, [], w ++ rest⟩, mem_readings_run.mpr ⟨g.text, _, rfl, g.blank, rfl⟩,
      ⟨w, l, rest⟩, (hq _ _ _).mpr ⟨rfl, hw⟩, by simp [Reading.append]⟩

theorem Reads.pair (hp : Reads p L) (hq : Reads q M) : Reads (Pattern.spaced [p, q]) (L.spaced M) :=
  have hlast : Reads (Pattern.spaced (q :: [])) M := hq
  hp.spaced hlast

/-! ### Patterns that cover the whole text -/

theorem mem_readings_whole (h : Reads p L) :
    r ∈ (whole p).readings last cs ↔ last = none ∧ r = ⟨cs, r.kept, []⟩ ∧ L cs r.kept := by
  simp only [whole, Pattern.all]
  rw [mem_readings_seq]
  constructor
  · rintro ⟨a, ha, b, hb, rfl⟩
    obtain ⟨rfl, rfl⟩ := mem_readings_textStart.mp ha
    obtain ⟨c, hc, d, hd, rfl⟩ := mem_readings_seq.mp hb
    obtain ⟨hrest, rfl⟩ := mem_readings_textEnd.mp hd
    obtain ⟨hsplit, hlanguage⟩ := (h _ _ _).mp hc
    simp only [hrest, List.append_nil] at hsplit
    subst hsplit
    refine ⟨rfl, ?_, ?_⟩ <;> simp [Reading.append, hrest, hlanguage]
  · rintro ⟨rfl, hr, hlanguage⟩
    rw [hr]
    refine ⟨_, mem_readings_textStart.mpr ⟨rfl, rfl⟩, ⟨cs, r.kept, []⟩, mem_readings_seq.mpr ?_, by simp [Reading.append]⟩
    exact ⟨⟨cs, r.kept, []⟩, (h _ _ _).mpr ⟨(List.append_nil cs).symm, hlanguage⟩, ⟨[], [], []⟩,
      mem_readings_textEnd.mpr ⟨rfl, rfl⟩, by simp [Reading.append]⟩

theorem eq_nil_of_lastOf {before : List Char} (h : lastOf none before = none) : before = [] := by
  cases before with
  | nil => rfl
  | cons c cs =>
    have hsome : ∀ (d : Char) (cs : List Char), lastOf (some d) cs ≠ none := fun d cs => by
      induction cs generalizing d with
      | nil => exact Option.some_ne_none d
      | cons e cs ih => exact ih e
    exact absurd h (hsome c cs)

/-- The pattern occurs in the texts of its language. -/
theorem occursIn_whole (h : Reads p L) : (whole p).occursIn cs = true ↔ ∃ kept, L cs kept := by
  rw [occursIn_iff]
  constructor
  · rintro ⟨before, behind, r, rfl, hr⟩
    obtain ⟨hlast, -, hlanguage⟩ := (mem_readings_whole h).mp hr
    rw [eq_nil_of_lastOf hlast]
    exact ⟨r.kept, hlanguage⟩
  · rintro ⟨kept, hlanguage⟩
    exact ⟨[], cs, ⟨cs, kept, []⟩, rfl, (mem_readings_whole h).mpr ⟨rfl, rfl, hlanguage⟩⟩

/-- What the match keeps is kept of the whole text. -/
theorem kept_of_find?_whole (h : Reads p L) (hm : (whole p).find? cs = some m) : L cs m.kept := by
  obtain ⟨before, r, hstands, -⟩ := findFrom_eq_some hm
  obtain ⟨hlast, -, hlanguage⟩ := (mem_readings_whole h).mp (mem_of_read? hstands.read)
  rw [hstands.match_eq, hstands.split, eq_nil_of_lastOf hlast]
  exact hlanguage

end Reads
end SpriteFacts.Pattern
