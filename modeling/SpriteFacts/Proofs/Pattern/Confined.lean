import Mathlib.Data.List.Basic
import SpriteFacts.Proofs.Pattern.Steady
import SpriteFacts.Proofs.Switch.Lines

/-! Searching a row of statements. A pattern that takes no semicolon reads what it reads in the statement that it starts in,
    whatever stands behind the statement. So the first match in a row of statements is the first match in the first
    statement that has one by itself. -/

namespace SpriteFacts

open Text

def Match.shift (n : Nat) (m : Match) : Match := { m with start := n + m.start, stop := n + m.stop }

namespace Pattern

/-- The pattern takes no such character, and it does not ask for an end of the text. -/
def Shuns (c : Char) : Pattern → Prop
  | one ok | run ok | lazyRun ok => ok c = false
  | empty | wordEdge => True
  | textStart | textEnd => False
  | seq p q | alt p q => Shuns c p ∧ Shuns c q
  | group _ p => Shuns c p

section Shuns
variable {c : Char} {p : Pattern} {ok : Char → Bool} {last last' : Option Char} {xs more : List Char} {r : Reading}

theorem Shuns.not_mem (h : p.Shuns c) {cs : List Char} (hr : r ∈ p.readings last cs) : c ∉ r.text := by
  have hall : ∀ {ok : Char → Bool} {t : List Char}, ok c = false → t.all ok = true → c ∉ t := by
    intro ok t hc ht hmem
    rw [List.all_eq_true.mp ht c hmem] at hc
    cases hc
  induction p generalizing last cs r with
  | empty =>
    obtain rfl := List.mem_singleton.mp hr
    exact List.not_mem_nil
  | one ok =>
    obtain ⟨d, rest, -, hd, rfl⟩ := mem_readings_one.mp hr
    exact hall h (by simpa using hd)
  | run ok =>
    obtain ⟨t, rest, -, ht, rfl⟩ := mem_readings_run.mp hr
    exact hall h ht
  | lazyRun ok =>
    obtain ⟨t, rest, -, ht, rfl⟩ := mem_readings_lazyRun.mp hr
    exact hall h ht
  | wordEdge =>
    obtain ⟨-, rfl⟩ := mem_readings_wordEdge.mp hr
    exact List.not_mem_nil
  | textStart | textEnd => exact h.elim
  | seq p q ihp ihq =>
    obtain ⟨a, ha, b, hb, rfl⟩ := mem_readings_seq.mp hr
    simp [Reading.append, ihp h.1 ha, ihq h.2 hb]
  | alt p q ihp ihq =>
    rcases mem_readings_alt.mp hr with hr | hr
    · exact ihp h.1 hr
    · exact ihq h.2 hr
  | group n p ih =>
    obtain ⟨a, ha, rfl⟩ := mem_readings_group.mp hr
    exact ih (r := a) h ha

theorem runReadings_shun (hc : ok c = false) :
    runReadings ok (xs ++ c :: more) = (runReadings ok (xs ++ [c])).map (Reading.extend more) := by
  induction xs with
  | nil => simp [runReadings, hc, Reading.extend]
  | cons d xs ih => by_cases hd : ok d <;> simp [runReadings, hd, ih, Reading.extend, Reading.cons, Function.comp_def]

theorem lazyReadings_shun (hc : ok c = false) :
    lazyReadings ok (xs ++ c :: more) = (lazyReadings ok (xs ++ [c])).map (Reading.extend more) := by
  induction xs with
  | nil => simp [lazyReadings, hc, Reading.extend]
  | cons d xs ih => by_cases hd : ok d <;> simp [lazyReadings, hd, ih, Reading.extend, Reading.cons, Function.comp_def]

/-- Behind the first such character nothing is looked at, and before the text only whether a word ends there. -/
theorem Shuns.readings_eq (h : p.Shuns c) (hlast : last.any isWord = last'.any isWord) (xs more : List Char) :
    p.readings last (xs ++ c :: more) = (p.readings last' (xs ++ [c])).map (Reading.extend more) := by
  induction p generalizing last last' xs with
  | empty => simp [readings, Reading.extend]
  | one ok =>
    cases xs with
    | nil => simp [readings, show ok c = false from h]
    | cons d xs => by_cases hd : ok d <;> simp [readings, hd, Reading.extend]
  | run ok => exact runReadings_shun h
  | lazyRun ok => exact lazyReadings_shun h
  | wordEdge =>
    have hhead : (xs ++ c :: more).head? = (xs ++ [c]).head? := by cases xs <;> rfl
    simp only [readings, hhead, hlast]
    split <;> simp [Reading.extend]
  | textStart | textEnd => exact h.elim
  | seq p q ihp ihq =>
    rw [readings, ihp h.1 hlast, List.flatMap_map, readings, List.map_flatMap]
    refine List.flatMap_congr fun a ha => ?_
    -- The first part does not take the character, so it still stands ahead of the second.
    obtain ⟨ys, hys⟩ : ∃ ys, a.rest = ys ++ [c] := by
      have hsplit := split_of_mem ha
      rcases List.eq_nil_or_concat' a.rest with hnil | ⟨ys, d, hrest⟩
      · rw [hnil, List.append_nil] at hsplit
        exact absurd (hsplit ▸ List.mem_append_right xs (List.mem_singleton_self c)) (h.1.not_mem ha)
      · rw [hrest, ← List.append_assoc] at hsplit
        obtain ⟨-, hd⟩ := List.append_inj' hsplit rfl
        exact ⟨ys, by rw [hrest, List.singleton_inj.mp hd]⟩
    have hword : (lastOf last a.text).any isWord = (lastOf last' a.text).any isWord := by
      by_cases hnil : a.text = []
      · rw [hnil]
        exact hlast
      · exact congrArg (Option.any isWord) (lastOf_of_ne_nil hnil)
    have hrest : (a.extend more).rest = ys ++ c :: more := by simp [Reading.extend, hys]
    show (q.readings (lastOf last a.text) (a.extend more).rest).map (a.extend more).append = _
    rw [hrest, ihq h.2 hword, hys, List.map_map, List.map_map]
    rfl
  | alt p q ihp ihq => rw [readings, ihp h.1 hlast, ihq h.2 hlast, readings, List.map_append]
  | group n p ih =>
    rw [readings, ih h hlast, readings, List.map_map, List.map_map]
    rfl

theorem Shuns.matchAt_eq (h : p.Shuns c) (hlast : last.any isWord = last'.any isWord) (n k : Nat) (xs more more' : List Char) :
    p.matchAt (place last (n + k)) (xs ++ c :: more) = (p.matchAt (place last' k) (xs ++ c :: more')).map (Match.shift n) := by
  have hhere := h.readings_eq hlast xs more
  have hthere := h.readings_eq (rfl : last'.any isWord = last'.any isWord) xs more'
  rw [Pattern.matchAt_eq, Pattern.matchAt_eq, read?, read?, hhere, hthere, List.head?_map, List.head?_map]
  cases (p.readings last' (xs ++ [c])).head? with
  | none => rfl
  | some r => simp [Reading.toMatch, Reading.extend, Match.shift, Nat.add_assoc]

end Shuns

/-! ### A row of statements -/

/-- A text that ends with a semicolon, perhaps with blanks behind it. -/
def IsStatement (t : List Char) : Prop := ∃ xs trail, t = xs ++ ';' :: trail ∧ trail.all isBlank = true

section Row
variable {p : Pattern} {words : List (List Char)} {last last' : Option Char} {t trail : List Char} {ts : List (List Char)}

theorem IsStatement.lastOf (h : IsStatement t) (last : Option Char) : (lastOf last t).any isWord = false := by
  obtain ⟨xs, trail, rfl, htrail⟩ := h
  rw [lastOf_append, lastOf_cons]
  exact Switch.lastOf_blank htrail (by decide)

theorem findFrom_cons (p : Pattern) (last : Option Char) (n : Nat) (c : Char) (cs : List Char) :
    p.findFrom (place last n) (c :: cs) =
      (p.matchAt (place last n) (c :: cs)).or (p.findFrom (place (some c) (n + c.utf8Size)) cs) := by
  rw [findFrom, ← place_push]
  cases p.matchAt (place last n) (c :: cs) <;> rfl

/-- A search goes through a statement as if the statement were alone, and then on behind it. -/
theorem findFrom_statement (hbegins : Begins words p) (hwords : unblank words = true) (hshuns : p.Shuns ';')
    (ht : IsStatement t) (hlast : last.any isWord = last'.any isWord) (n k : Nat) (more : List Char) :
    p.findFrom (place last (n + k)) (t ++ more) = ((p.findFrom (place last' k) t).map (Match.shift n)).or
      (p.findFrom (place (Text.lastOf last t) (n + k + byteLength t)) more) := by
  obtain ⟨xs, trail, rfl, htrail⟩ := ht
  induction xs generalizing last last' k with
  | nil =>
    have hnil : p.read? (Text.lastOf (some ';') trail) [] = none :=
      hbegins.read?_nil fun hmem => nomatch List.all_eq_true.mp hwords [] hmem
    have hbehind : p.findFrom (place (some ';') (k + ';'.utf8Size)) trail = none :=
      findFrom_eq_none.mpr ⟨hbegins.clear_of_blank hwords htrail, hnil⟩
    have hmatch := hshuns.matchAt_eq hlast n k [] (trail ++ more) trail
    simp only [List.nil_append, List.cons_append] at hmatch ⊢
    rw [findFrom_cons, findFrom_cons, hmatch, hbehind, Option.or_none, findFrom_of_clear (hbegins.clear_of_blank hwords htrail),
      byteLength_cons, Nat.add_assoc (n + k)]
    rfl
  | cons d xs ih =>
    have hmatch := hshuns.matchAt_eq hlast n k (d :: xs) (trail ++ more) trail
    have hrest := @ih (some d) (some d) rfl (k + d.utf8Size)
    simp only [List.cons_append, List.append_assoc] at hmatch hrest ⊢
    rw [findFrom_cons, findFrom_cons, hmatch, Option.map_or, Option.or_assoc, Nat.add_assoc n, hrest, byteLength_cons]
    simp only [Nat.add_assoc, lastOf_cons]

/-- The first match in a row of statements is that of the first statement that has one by itself. -/
theorem find?_row (hbegins : Begins words p) (hwords : unblank words = true) (hshuns : p.Shuns ';') {α : Type}
    {text : α → List Char} (htext : ∀ s, IsStatement (text s)) (htrail : trail.all isBlank = true) (ss : List α) :
    (p.find? (ss.flatMap text ++ trail) = none ∧ ∀ s ∈ ss, p.find? (text s) = none) ∨
    ∃ as s bs m, ss = as ++ s :: bs ∧ (∀ a ∈ as, p.find? (text a) = none) ∧ p.find? (text s) = some m ∧
      p.find? (ss.flatMap text ++ trail) = some (m.shift (byteLength (as.flatMap text))) := by
  -- A search that begins at any place outside of a word goes through the statements one by one.
  suffices hplace : ∀ (last : Option Char) (n : Nat), last.any isWord = false →
      (p.findFrom (place last n) (ss.flatMap text ++ trail) = none ∧ ∀ s ∈ ss, p.find? (text s) = none) ∨
      ∃ as s bs m, ss = as ++ s :: bs ∧ (∀ a ∈ as, p.find? (text a) = none) ∧ p.find? (text s) = some m ∧
        p.findFrom (place last n) (ss.flatMap text ++ trail) = some (m.shift (n + byteLength (as.flatMap text))) by
    have hstart := hplace none 0 rfl
    simp only [Nat.zero_add] at hstart
    exact hstart
  induction ss with
  | nil =>
    intro last n _
    have hnil : p.read? (lastOf last trail) [] = none :=
      hbegins.read?_nil fun hmem => nomatch List.all_eq_true.mp hwords [] hmem
    exact Or.inl ⟨findFrom_eq_none.mpr ⟨hbegins.clear_of_blank hwords htrail, hnil⟩, nofun⟩
  | cons s ss ih =>
    intro last n hlast
    have hfind : p.findFrom (place last n) ((s :: ss).flatMap text ++ trail) = ((p.find? (text s)).map (Match.shift n)).or
        (p.findFrom (place (lastOf last (text s)) (n + byteLength (text s))) (ss.flatMap text ++ trail)) := by
      have hstart : last.any isWord = (none : Option Char).any isWord := hlast
      rw [List.flatMap_cons, List.append_assoc]
      exact findFrom_statement hbegins hwords hshuns (htext s) hstart n 0 _
    rw [hfind]
    cases hs : p.find? (text s) with
    | some m => exact Or.inr ⟨[], s, ss, m, rfl, nofun, hs, rfl⟩
    | none =>
      rcases ih _ (n + byteLength (text s)) ((htext s).lastOf last) with ⟨hnone, hall⟩ | ⟨as, t, bs, m, rfl, has, ht, hm⟩
      · exact Or.inl ⟨hnone, List.forall_mem_cons.mpr ⟨hs, hall⟩⟩
      · refine Or.inr ⟨s :: as, t, bs, m, rfl, List.forall_mem_cons.mpr ⟨hs, has⟩, ht, ?_⟩
        rw [List.flatMap_cons, byteLength_append, ← Nat.add_assoc]
        exact hm

end Row
end Pattern
end SpriteFacts
