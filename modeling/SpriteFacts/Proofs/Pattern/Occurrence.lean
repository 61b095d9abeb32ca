import SpriteFacts.Proofs.Pattern.WordStart

/-! Where the matches of a search stand. Every match that a search finds is the preferred reading at its place, and
    in front of the first match the text is clear. -/

namespace SpriteFacts

open Text

namespace Pattern

variable {p : Pattern} {last : Option Char} {n : Nat} {cs : List Char} {m : Match}

/-- The match is the preferred reading behind the first part of a text that stands at a place. -/
structure StandsAt (p : Pattern) (last : Option Char) (n : Nat) (cs before : List Char) (r : Reading) (m : Match) :
    Prop where
  split : cs = before ++ (r.text ++ r.rest)
  read : p.read? (lastOf last before) (r.text ++ r.rest) = some r
  match_eq : m = r.toMatch (n + byteLength before)

theorem standsAt_of_read? {r : Reading} (h : p.read? last cs = some r) : StandsAt p last n cs [] r (r.toMatch n) := by
  have hsplit := split_of_mem (mem_of_read? h)
  exact ⟨hsplit, hsplit ▸ h, rfl⟩

theorem StandsAt.cons {c : Char} {before : List Char} {r : Reading}
    (h : StandsAt p (some c) (n + c.utf8Size) cs before r m) : StandsAt p last n (c :: cs) (c :: before) r m where
  split := congrArg (c :: ·) h.split
  read := h.read
  match_eq := by rw [h.match_eq, byteLength_cons, Nat.add_assoc]

/-- The first match stands behind clear text. -/
theorem findFrom_eq_some (h : p.findFrom (place last n) cs = some m) :
    ∃ before r, StandsAt p last n cs before r m ∧ p.Clear (r.text ++ r.rest) last before := by
  induction cs generalizing last n with
  | nil =>
    rw [findFrom_nil] at h
    obtain ⟨r, hr, rfl⟩ := Option.map_eq_some_iff.mp h
    exact ⟨[], r, standsAt_of_read? hr, trivial⟩
  | cons c cs ih =>
    rw [findFrom, matchAt_eq] at h
    cases hr : p.read? last (c :: cs) with
    | some r =>
      rw [hr] at h
      obtain rfl := Option.some.inj h
      exact ⟨[], r, standsAt_of_read? hr, trivial⟩
    | none =>
      rw [hr] at h
      obtain ⟨before, r, hstands, hclear⟩ := ih (place_push last n c ▸ h)
      exact ⟨c :: before, r, hstands.cons, hstands.split ▸ hr, hclear⟩

/-- A match stops within the text. -/
theorem stop_le_of_find? (h : p.find? cs = some m) : m.stop ≤ byteLength cs := by
  obtain ⟨before, r, hstands, -⟩ := findFrom_eq_some h
  rw [hstands.match_eq, hstands.split]
  simp only [Reading.toMatch, byteLength_append]
  omega

/-- A text that can be read somewhere is matched. -/
theorem exists_find? {before : List Char} (h : ∃ r, r ∈ p.readings (lastOf none before) cs) :
    ∃ m, p.find? (before ++ cs) = some m := by
  obtain ⟨r, h⟩ := h
  have hread : p.read? (lastOf none before) cs ≠ none := fun hnone => read?_eq_none.mp hnone r h
  rw [← Option.ne_none_iff_exists']
  intro hnone
  obtain ⟨hclear, hend⟩ := findFrom_eq_none.mp hnone
  cases cs with
  | nil => exact hread (by simpa using hend)
  | cons c cs => exact hread (by simpa using clear_iff.mp hclear before (c :: cs) rfl (List.cons_ne_nil c cs))

/-- A pattern occurs in a text if it can be read somewhere in it. -/
theorem occursIn_iff : p.occursIn cs = true ↔
    ∃ before behind r, cs = before ++ behind ∧ r ∈ p.readings (lastOf none before) behind := by
  rw [occursIn, Option.isSome_iff_exists]
  constructor
  · rintro ⟨m, hm⟩
    obtain ⟨before, r, hstands, -⟩ := @findFrom_eq_some p none 0 cs m hm
    exact ⟨before, _, r, hstands.split, mem_of_read? hstands.read⟩
  · rintro ⟨before, behind, r, rfl, hr⟩
    exact exists_find? ⟨r, hr⟩

/-- A word occurs in a text where it stands between characters of no word. -/
theorem occursIn_word {s : String} (hs : s.toList.head?.any isWord = true) (hall : s.toList.all isWord = true) :
    (word s).occursIn cs = true ↔ ∃ before behind, cs = before ++ (s.toList ++ behind) ∧
      (lastOf none before).any isWord = false ∧ behind.head?.any isWord = false := by
  have hend : ∀ last : Option Char, (lastOf last s.toList).any isWord = true := by
    intro last
    cases h : s.toList with
    | nil =>
      rw [h] at hs
      cases hs
    | cons c w => exact lastOf_word (h ▸ hall)
  rw [occursIn_iff]
  constructor
  · rintro ⟨before, _, r, rfl, hr⟩
    obtain ⟨hlast, behind, rfl, hbehind, -⟩ := (mem_readings_word hs hend).mp hr
    exact ⟨before, behind, rfl, hlast, hbehind⟩
  · rintro ⟨before, behind, rfl, hlast, hbehind⟩
    exact ⟨before, _, _, rfl, (mem_readings_word hs hend).mpr ⟨hlast, behind, rfl, hbehind, rfl⟩⟩

/-- A sequence can be read where its parts can be. -/
theorem exists_seq {q : Pattern} {a : Reading} (ha : a ∈ p.readings last cs)
    (hb : ∃ b, b ∈ q.readings (lastOf last a.text) a.rest) : ∃ r, r ∈ (seq p q).readings last cs := by
  obtain ⟨b, hb⟩ := hb
  exact ⟨a.append b, mem_readings_seq.mpr ⟨a, ha, b, hb, rfl⟩⟩

theorem mem_piecesFrom {resume : Nat} (h : .found m ∈ p.piecesFrom resume (place last n) cs) :
    ∃ before r, StandsAt p last n cs before r m := by
  induction cs generalizing last n resume with
  | nil =>
    rw [piecesFrom] at h
    split at h
    · cases h
    · rw [matchAt_eq] at h
      cases hr : p.read? last [] with
      | none =>
        rw [hr] at h
        cases h
      | some r =>
        rw [hr] at h
        obtain rfl := Piece.found.inj (List.mem_singleton.mp h)
        exact ⟨[], r, standsAt_of_read? hr⟩
  | cons c cs ih =>
    have later : ∀ {resume : Nat}, .found m ∈ p.piecesFrom resume ((place last n).push c) cs →
        ∃ before r, StandsAt p last n (c :: cs) before r m := by
      intro resume h
      obtain ⟨before, r, hstands⟩ := ih (place_push last n c ▸ h)
      exact ⟨c :: before, r, hstands.cons⟩
    rw [piecesFrom] at h
    split at h
    · exact later h
    · rw [matchAt_eq] at h
      cases hr : p.read? last (c :: cs) with
      | none =>
        rw [hr] at h
        rcases List.mem_cons.mp h with h | h
        · cases h
        · exact later h
      | some r =>
        rw [hr, Option.map_some] at h
        dsimp only at h
        -- An empty match is followed by the character that it stands before.
        split at h
        · rcases List.mem_cons.mp h with h | h
          · obtain rfl := Piece.found.inj h
            exact ⟨[], r, standsAt_of_read? hr⟩
          · rcases List.mem_cons.mp h with h | h
            · cases h
            · exact later h
        · rcases List.mem_cons.mp h with h | h
          · obtain rfl := Piece.found.inj h
            exact ⟨[], r, standsAt_of_read? hr⟩
          · exact later h

theorem mem_findAll (h : m ∈ p.findAll cs) : ∃ before r, StandsAt p none 0 cs before r m := by
  obtain ⟨piece, hpiece, hm⟩ := List.mem_filterMap.mp h
  cases piece with
  | plain c => cases hm
  | found m' =>
    obtain rfl := Option.some.inj hm
    exact mem_piecesFrom hpiece

end Pattern
end SpriteFacts
