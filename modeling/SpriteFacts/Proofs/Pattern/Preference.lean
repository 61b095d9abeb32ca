import SpriteFacts.Proofs.Pattern.WordStart

/-! The preferred reading of a sequence ends with the preferred reading of its last part, and a greedy run is preferred as
    long as it can be. So what ends a pattern is read to its end, whatever its first parts skip; and where each part can go
    on from what the part before it prefers, the whole prefers these texts one behind the other. -/

namespace SpriteFacts

open Text

namespace Pattern

section Preference
variable {p q : Pattern} {ok : Char → Bool} {last : Option Char} {cs : List Char} {r : Reading}

theorem read?_seq (h : (seq p q).read? last cs = some r) :
    ∃ a ∈ p.readings last cs, ∃ b, q.read? (lastOf last a.text) a.rest = some b ∧ r = a.append b := by
  rw [read?, readings, List.head?_flatMap] at h
  obtain ⟨a, ha, hr⟩ := List.exists_of_findSome?_eq_some h
  rw [List.head?_map] at hr
  obtain ⟨b, hb, rfl⟩ := Option.map_eq_some_iff.mp hr
  exact ⟨a, ha, b, hb, rfl⟩

theorem read?_group {n : Nat} (h : (group n p).read? last cs = some r) : ∃ a, p.read? last cs = some a ∧ r = a.keep n := by
  rw [read?, readings, List.head?_map] at h
  obtain ⟨a, ha, rfl⟩ := Option.map_eq_some_iff.mp h
  exact ⟨a, ha, rfl⟩

/-- A greedy run goes on as long as its class does. -/
theorem read?_run (h : (run ok).read? last cs = some r) : r.rest.head?.all (fun c => !ok c) = true := by
  rw [read?, readings] at h
  induction cs generalizing r with
  | nil =>
    obtain rfl := Option.some.inj h
    rfl
  | cons c cs ih =>
    rw [runReadings, List.head?_append] at h
    by_cases hc : ok c = true
    · rw [if_pos hc, List.head?_map] at h
      cases hhead : (runReadings ok cs).head? with
      | none => cases cs <;> simp [runReadings] at hhead
      | some s =>
        rw [hhead] at h
        obtain rfl := Option.some.inj h
        have hrest := ih hhead
        exact hrest
    · rw [if_neg hc] at h
      obtain rfl := Option.some.inj h
      simpa using hc

/-! ### Digits -/

theorem mem_readings_digits {n : Nat} : r ∈ (group n digits).readings last cs ↔
    ∃ t rest, cs = t ++ rest ∧ t ≠ [] ∧ t.all isDigit = true ∧ r = ⟨t, [(n, t)], rest⟩ := by
  rw [mem_readings_group]
  constructor
  · rintro ⟨a, ha, rfl⟩
    obtain ⟨t, rest, rfl, hne, hall, rfl⟩ := mem_readings_run1.mp ha
    exact ⟨t, rest, rfl, hne, hall, rfl⟩
  · rintro ⟨t, rest, rfl, hne, hall, rfl⟩
    exact ⟨_, mem_readings_run1.mpr ⟨t, rest, rfl, hne, hall, rfl⟩, rfl⟩

theorem read?_digits {n : Nat} (h : (group n digits).read? last cs = some r) :
    ∃ t rest, cs = t ++ rest ∧ t ≠ [] ∧ t.all isDigit = true ∧ rest.head?.all (fun c => !isDigit c) = true ∧
      r = ⟨t, [(n, t)], rest⟩ := by
  obtain ⟨t, rest, rfl, hne, hall, rfl⟩ := mem_readings_digits.mp (mem_of_read? h)
  refine ⟨t, rest, rfl, hne, hall, ?_, rfl⟩
  obtain ⟨a, ha, heq⟩ := read?_group h
  obtain ⟨b, -, c, hc, rfl⟩ := read?_seq ha
  have hrest : rest = c.rest := congrArg Reading.rest heq
  exact hrest ▸ read?_run hc

end Preference

/-! ### Texts that are preferred -/

/-- Whatever stands in front of the text, with the rest behind it the pattern reads the text first of all. -/
def Prefers (p : Pattern) (t : List Char) (kept : List (Nat × List Char)) (rest : List Char) : Prop :=
  ∀ last, p.read? last (t ++ rest) = some ⟨t, kept, rest⟩

section Prefers
variable {p q : Pattern} {ps : List Pattern} {t u gap rest cs : List Char} {j k : List (Nat × List Char)} {last : Option Char}

/-- The first choices of two parts are the first choice of both, if the second part can go on from the first. -/
theorem read?_seq_of_read? {a b : Reading} (ha : p.read? last cs = some a) (hb : q.read? (lastOf last a.text) a.rest = some b) :
    (seq p q).read? last cs = some (a.append b) := by
  obtain ⟨more, hmore⟩ := List.head?_eq_some_iff.mp ha
  rw [read?] at hb
  rw [read?, readings, List.head?_flatMap, hmore, List.findSome?_cons, List.head?_map, hb]
  rfl

theorem Prefers.seq (hp : Prefers p t j (u ++ rest)) (hq : Prefers q u k rest) : Prefers (.seq p q) (t ++ u) (k ++ j) rest := by
  intro last
  rw [List.append_assoc]
  exact read?_seq_of_read? (hp last) (hq _)

theorem prefers_char (c : Char) (rest : List Char) : Prefers (char c) [c] [] rest := fun last =>
  read?_of_unique (mem_readings_char.mpr ⟨rest, rfl, rfl⟩) fun r hr => by
    obtain ⟨rest', hrest, rfl⟩ := mem_readings_char.mp hr
    obtain rfl : rest = rest' := (List.cons.inj hrest).2
    rfl

theorem prefers_literal (s : String) (rest : List Char) : Prefers (literal s) s.toList [] rest := fun last =>
  read?_of_unique (mem_readings_literal.mpr ⟨rest, rfl, rfl⟩) fun r hr => by
    obtain ⟨rest', hrest, rfl⟩ := mem_readings_literal.mp hr
    rw [List.append_cancel_left hrest]

/-- A greedy run is read up to the first character that is not of its class. -/
theorem prefers_run {ok : Char → Bool} (ht : t.all ok = true) (hrest : rest.head?.all (fun c => !ok c) = true) :
    Prefers (run ok) t [] rest := by
  intro last
  cases h : (run ok).read? last (t ++ rest) with
  | none => exact absurd (mem_readings_run.mpr ⟨t, rest, rfl, ht, rfl⟩) (read?_eq_none.mp h _)
  | some r =>
    obtain ⟨t', rest', hsplit, ht', rfl⟩ := mem_readings_run.mp (mem_of_read? h)
    obtain ⟨rfl, rfl⟩ := span_unique hsplit ht ht' hrest (read?_run h)
    rfl

theorem prefers_digits {n : Nat} (hne : t ≠ []) (ht : t.all isDigit = true) (hrest : rest.head?.all (fun c => !isDigit c) = true) :
    Prefers (group n digits) t [(n, t)] rest := by
  intro last
  cases h : (group n digits).read? last (t ++ rest) with
  | none => exact absurd (mem_readings_digits.mpr ⟨t, rest, rfl, hne, ht, rfl⟩) (read?_eq_none.mp h _)
  | some r =>
    obtain ⟨t', rest', hsplit, -, ht', hrest', rfl⟩ := read?_digits h
    obtain ⟨rfl, rfl⟩ := span_unique hsplit ht ht' hrest hrest'
    rfl

/-- Blanks between two parts are read up to the second part. -/
theorem Prefers.spaced (hp : Prefers p t j (gap ++ (u ++ rest))) (hgap : gap.all isBlank = true)
    (hu : (u ++ rest).head?.all (fun c => !isBlank c) = true) (hq : Prefers (Pattern.spaced (q :: ps)) u k rest) :
    Prefers (Pattern.spaced (p :: q :: ps)) (t ++ (gap ++ u)) (k ++ j) rest := by
  have hblanks : Prefers (.seq blanks (Pattern.spaced (q :: ps))) (gap ++ u) (k ++ []) rest := (prefers_run hgap hu).seq hq
  rw [List.append_nil] at hblanks
  exact Prefers.seq (by rwa [List.append_assoc]) hblanks

/-- An optional part is read if it can be. -/
theorem Prefers.optional (h : Prefers p t k rest) : Prefers (Pattern.optional p) t k rest := by
  intro last
  show (p.readings last (t ++ rest) ++ empty.readings last (t ++ rest)).head? = _
  rw [List.head?_append, show (p.readings last (t ++ rest)).head? = _ from h last]
  rfl

theorem prefers_nothing (h : ∀ last, p.read? last rest = none) : Prefers (Pattern.optional p) [] [] rest := by
  intro last
  show (p.readings last rest ++ empty.readings last rest).head? = _
  rw [List.head?_append, show (p.readings last rest).head? = none from h last]
  rfl

end Prefers

end Pattern
end SpriteFacts
