import SpriteFacts.Proofs.Pattern.Reading

/-! Searching through a text. A stretch of text is clear of a pattern if no match starts in it, and a search
    passes over clear text. A scan walks through a text once for a whole family of patterns that never
    overlap, and marks what each of them finds; what a search for all matches of one of them gives, and
    what is left when its matches are replaced, is then read off the marks. -/

namespace SpriteFacts

open Text

namespace Pattern

/-! ### Clear text -/

/-- No match of the pattern starts in the text, given what stands before it and behind it. -/
def Clear (p : Pattern) (behind : List Char) : Option Char → List Char → Prop
  | _, [] => True
  | last, c :: cs => p.read? last (c :: (cs ++ behind)) = none ∧ Clear p behind (some c) cs

theorem clear_append {p : Pattern} {behind as bs : List Char} {last : Option Char} :
    p.Clear behind last (as ++ bs) ↔ p.Clear (bs ++ behind) last as ∧ p.Clear behind (lastOf last as) bs := by
  induction as generalizing last with
  | nil => simp [Clear]
  | cons a as ih => simp [Clear, ih, and_assoc]

theorem clear_iff {p : Pattern} {behind cs : List Char} {last : Option Char} :
    p.Clear behind last cs ↔
      ∀ as bs, cs = as ++ bs → bs ≠ [] → p.read? (lastOf last as) (bs ++ behind) = none := by
  induction cs generalizing last with
  | nil =>
    refine ⟨fun _ as bs h hne => ?_, fun _ => trivial⟩
    exact absurd (List.append_eq_nil_iff.mp h.symm).2 hne
  | cons c cs ih =>
    simp only [Clear, ih]
    constructor
    · rintro ⟨h0, h⟩ as bs heq hne
      cases as with
      | nil =>
        rw [List.nil_append] at heq
        subst heq
        exact h0
      | cons a as =>
        obtain ⟨rfl, rfl⟩ := List.cons.inj heq
        exact h as bs rfl hne
    · intro h
      refine ⟨h [] (c :: cs) rfl (by simp), fun as bs heq hne => ?_⟩
      exact h (c :: as) bs (by rw [heq]; rfl) hne

/-! ### The first match -/

theorem findFrom_nil (p : Pattern) (last : Option Char) (n : Nat) :
    p.findFrom (place last n) [] = (p.read? last []).map (Reading.toMatch n) := by
  rw [findFrom, matchAt_eq]

theorem findFrom_of_read {p : Pattern} {last : Option Char} {n : Nat} {cs : List Char} {r : Reading}
    (h : p.read? last cs = some r) : p.findFrom (place last n) cs = some (r.toMatch n) := by
  cases cs with
  | nil => rw [findFrom_nil, h, Option.map_some]
  | cons c cs => rw [findFrom, matchAt_eq, h, Option.map_some]

theorem find?_of_read {p : Pattern} {cs : List Char} {r : Reading} (h : p.read? none cs = some r) :
    p.find? cs = some (r.toMatch 0) := findFrom_of_read h

@[simp] theorem place_offset (last : Option Char) (n : Nat) : (place last n).offset = n := rfl

theorem place_push (last : Option Char) (n : Nat) (c : Char) :
    (place last n).push c = place (some c) (n + c.utf8Size) := rfl

/-- A search is a question about readings. -/
theorem find?_congr {p q : Pattern} (h : ∀ last cs, p.readings last cs = q.readings last cs) (cs : List Char) :
    p.find? cs = q.find? cs := by
  have same : ∀ last n, p.findFrom (place last n) cs = q.findFrom (place last n) cs := by
    induction cs with
    | nil =>
      intro last n
      rw [findFrom_nil, findFrom_nil, read?, read?, h]
    | cons c cs ih =>
      intro last n
      rw [findFrom, findFrom, matchAt_eq, matchAt_eq, place_push, ih, read?, read?, h]
  exact same none 0

/-- A search passes over clear text. -/
theorem findFrom_of_clear {p : Pattern} {behind cs : List Char} {last : Option Char} {n : Nat}
    (h : p.Clear behind last cs) :
    p.findFrom (place last n) (cs ++ behind) = p.findFrom (place (lastOf last cs) (n + byteLength cs)) behind := by
  induction cs generalizing last n with
  | nil => rfl
  | cons c cs ih =>
    obtain ⟨h0, h⟩ := h
    rw [List.cons_append, findFrom, matchAt_eq, h0, Option.map_none]
    show p.findFrom ((place last n).push c) (cs ++ behind) = _
    rw [place_push, ih h, lastOf_cons, byteLength_cons, Nat.add_assoc]

theorem findFrom_eq_none {p : Pattern} {cs : List Char} {last : Option Char} {n : Nat} :
    p.findFrom (place last n) cs = none ↔ p.Clear [] last cs ∧ p.read? (lastOf last cs) [] = none := by
  induction cs generalizing last n with
  | nil => simp [findFrom_nil, Clear]
  | cons c cs ih =>
    rw [findFrom, matchAt_eq, Clear, List.append_nil, lastOf_cons]
    cases h : p.read? last (c :: cs) with
    | none =>
      show p.findFrom ((place last n).push c) cs = none ↔ _
      rw [place_push, ih]
      simp
    | some r => simp

/-! ### Scans -/

end Pattern

/-- What a scan marks: a character that no match covers, or the match of one pattern of the family. -/
inductive Mark (ι : Type) where
  | plain (c : Char)
  | found (which : ι) (text : List Char) (kept : List (Nat × List Char))

namespace Mark
variable {ι : Type}

def text : Mark ι → List Char
  | plain c => [c]
  | found _ t _ => t

def textOf (ms : List (Mark ι)) : List Char := ms.flatMap text

@[simp] theorem textOf_nil : textOf ([] : List (Mark ι)) = [] := rfl

@[simp] theorem textOf_cons (m : Mark ι) (ms : List (Mark ι)) : textOf (m :: ms) = m.text ++ textOf ms := rfl

@[simp] theorem textOf_append (ms ns : List (Mark ι)) : textOf (ms ++ ns) = textOf ms ++ textOf ns :=
  List.flatMap_append

variable [DecidableEq ι]

/-- The matches of one pattern among marks that start at a byte offset. -/
def matchesOf (i : ι) : Nat → List (Mark ι) → List Match
  | _, [] => []
  | n, plain c :: ms => matchesOf i (n + c.utf8Size) ms
  | n, found j t kept :: ms =>
    (if j = i then [⟨n, n + byteLength t, t, kept⟩] else []) ++ matchesOf i (n + byteLength t) ms

/-- The text that a mark covers, or what stands in its place if it is a match of the pattern. -/
def render (i : ι) (replacement : List Char → List Char) : Mark ι → List Char
  | plain c => [c]
  | found j t _ => if j = i then replacement t else t

/-- The text that marks cover, with the matches of one pattern replaced. -/
def replaced (i : ι) (replacement : List Char → List Char) (ms : List (Mark ι)) : List Char :=
  ms.flatMap (render i replacement)

end Mark

/-- The marks are what a scan for the family finds in the text, given the character before it. -/
inductive Scan {ι : Type} (ps : ι → Pattern) : Option Char → List Char → List (Mark ι) → Prop
  | nil {last : Option Char} (none : ∀ i, (ps i).read? last [] = none) : Scan ps last [] []
  | plain {last : Option Char} {c : Char} {cs : List Char} {ms : List (Mark ι)}
      (none : ∀ i, (ps i).read? last (c :: cs) = none) (rest : Scan ps (some c) cs ms) :
      Scan ps last (c :: cs) (.plain c :: ms)
  | found {last : Option Char} {i : ι} {t cs : List Char} {kept : List (Nat × List Char)} {ms : List (Mark ι)}
      (here : (ps i).read? last (t ++ cs) = some ⟨t, kept, cs⟩) (nonempty : t ≠ [])
      (clear : ∀ j, j ≠ i → (ps j).Clear cs last t) (rest : Scan ps (lastOf last t) cs ms) :
      Scan ps last (t ++ cs) (.found i t kept :: ms)

namespace Scan
variable {ι : Type} {ps : ι → Pattern} {last : Option Char} {cs : List Char} {ms : List (Mark ι)}

theorem textOf_eq (h : Scan ps last cs ms) : Mark.textOf ms = cs := by
  induction h with
  | nil => rfl
  | plain _ _ ih => simp [Mark.text, ih]
  | found _ _ _ _ ih => simp [Mark.text, ih]

theorem prepend {as : List Char} (clear : ∀ i, (ps i).Clear cs last as) (h : Scan ps (lastOf last as) cs ms) :
    Scan ps last (as ++ cs) (as.map .plain ++ ms) := by
  induction as generalizing last with
  | nil => exact h
  | cons a as ih => exact .plain (fun i => (clear i).1) (ih (fun i => (clear i).2) h)

/-- Two patterns of the family never overlap. -/
def Apart (ps : ι → Pattern) : Prop :=
  ∀ {i j : ι} {last : Option Char} {cs : List Char} {r : Reading},
    (ps i).read? last cs = some r → r.text ≠ [] ∧ (j ≠ i → (ps j).Clear r.rest last r.text)

/-- Every text can be scanned for patterns that never overlap. -/
theorem exists_of_apart (apart : Apart ps) (last : Option Char) (cs : List Char) : ∃ ms, Scan ps last cs ms := by
  -- The text left behind a match is shorter, since no match is empty.
  induction hn : cs.length using Nat.strongRecOn generalizing last cs with
  | ind n ih =>
    by_cases hfound : ∃ i r, (ps i).read? last cs = some r
    · obtain ⟨i, ⟨t, kept, rest⟩, hr⟩ := hfound
      have hne : t ≠ [] := (apart (j := i) hr).1
      obtain rfl : cs = t ++ rest := Pattern.split_of_mem (List.mem_of_head? hr)
      have hlt : rest.length < n := by
        have := List.length_pos_iff.mpr hne
        rw [List.length_append] at hn
        omega
      obtain ⟨ms, hms⟩ := ih rest.length hlt (lastOf last t) rest rfl
      exact ⟨_, .found hr hne (fun j hj => (apart hr).2 hj) hms⟩
    · have hnone : ∀ i, (ps i).read? last cs = none := fun i => by
        cases h : (ps i).read? last cs with
        | none => rfl
        | some r => exact absurd ⟨i, r, h⟩ hfound
      cases cs with
      | nil => exact ⟨[], .nil hnone⟩
      | cons c cs =>
        have hlt : cs.length < n := by
          rw [List.length_cons] at hn
          omega
        obtain ⟨ms, hms⟩ := ih cs.length hlt (some c) cs rfl
        exact ⟨_, .plain hnone hms⟩

/-- A text is scanned in one way only. -/
theorem unique {ns : List (Mark ι)} (h : Scan ps last cs ms) (h' : Scan ps last cs ns) : ns = ms := by
  induction h generalizing ns with
  | @nil last none =>
    generalize hcs : ([] : List Char) = cs at h'
    cases h' with
    | nil => rfl
    | plain => cases hcs
    | found _ nonempty => exact absurd (List.append_eq_nil_iff.mp hcs.symm).1 nonempty
  | @plain last c cs ms none _ ih =>
    generalize hcs : c :: cs = ds at h'
    cases h' with
    | nil => cases hcs
    | plain _ rest =>
      obtain ⟨rfl, rfl⟩ := List.cons.inj hcs
      rw [ih rest]
    | found here =>
      rw [← hcs, none] at here
      cases here
  | @found last i t cs kept ms here nonempty clear _ ih =>
    generalize hcs : t ++ cs = ds at h'
    cases h' with
    | nil => exact absurd (List.append_eq_nil_iff.mp hcs).1 nonempty
    | plain none =>
      have hnone := none i
      rw [← hcs, here] at hnone
      cases hnone
    | @found _ j _ _ _ _ here' _ _ rest =>
      rw [← hcs] at here'
      by_cases hj : j = i
      · subst hj
        obtain ⟨rfl, rfl, rfl⟩ := Reading.mk.inj (Option.some.inj (here'.symm.trans here))
        rw [ih rest]
      · -- No match of another pattern starts where this one does.
        obtain ⟨c, t, rfl⟩ := List.exists_cons_of_ne_nil nonempty
        exact absurd here' (by rw [List.cons_append, (clear j hj).1]; exact nofun)

end Scan

namespace Pattern

/-! ### All matches -/

theorem piecesFrom_resume {p : Pattern} {resume : Nat} {b : Trail} {cs : List Char} (h : resume ≤ b.offset) :
    p.piecesFrom resume b cs = p.piecesFrom 0 b cs := by
  induction cs generalizing b with
  | nil => simp [piecesFrom, Nat.not_lt.mpr h]
  | cons c cs ih =>
    have hnext : resume ≤ (b.push c).offset := Nat.le_trans h (Nat.le_add_right _ _)
    simp only [piecesFrom, Nat.not_lt.mpr h, Nat.not_lt_zero, if_false, ih hnext]

/-- Inside a match that was found the search goes on without looking. -/
theorem piecesFrom_inside (p : Pattern) (t cs : List Char) (last : Option Char) (n : Nat) :
    p.piecesFrom (n + byteLength t) (place last n) (t ++ cs) =
      p.piecesFrom 0 (place (lastOf last t) (n + byteLength t)) cs := by
  induction t generalizing last n with
  | nil => exact piecesFrom_resume (Nat.le_refl _)
  | cons c t ih =>
    have hlt : n < n + byteLength (c :: t) := by
      have := c.utf8Size_pos
      rw [byteLength_cons]
      omega
    rw [List.cons_append, piecesFrom, place_offset, if_pos hlt, place_push]
    have hlen : n + byteLength (c :: t) = n + c.utf8Size + byteLength t := by rw [byteLength_cons, Nat.add_assoc]
    rw [hlen, ih, lastOf_cons]

theorem piecesFrom_cons_none {p : Pattern} {last : Option Char} {n : Nat} {c : Char} {cs : List Char}
    (h : p.read? last (c :: cs) = none) :
    p.piecesFrom 0 (place last n) (c :: cs) = .plain c :: p.piecesFrom 0 (place (some c) (n + c.utf8Size)) cs := by
  rw [piecesFrom, if_neg (Nat.not_lt_zero _), matchAt_eq, h, place_push]
  rfl

theorem piecesFrom_found {p : Pattern} {last : Option Char} {n : Nat} {t cs : List Char}
    {kept : List (Nat × List Char)} (h : p.read? last (t ++ cs) = some ⟨t, kept, cs⟩) (hne : t ≠ []) :
    p.piecesFrom 0 (place last n) (t ++ cs) =
      .found ⟨n, n + byteLength t, t, kept⟩ :: p.piecesFrom 0 (place (lastOf last t) (n + byteLength t)) cs := by
  cases t with
  | nil => exact absurd rfl hne
  | cons c t =>
    have hpos := c.utf8Size_pos
    rw [List.cons_append] at h ⊢
    rw [piecesFrom, if_neg (Nat.not_lt_zero _), matchAt_eq, h, Option.map_some, place_push]
    have hstop : ¬(n + byteLength (c :: t) = n) := by
      rw [byteLength_cons]
      omega
    have hlen : n + byteLength (c :: t) = n + c.utf8Size + byteLength t := by rw [byteLength_cons, Nat.add_assoc]
    show (if n + byteLength (c :: t) = n then _ else _) = _
    rw [if_neg hstop]
    show .found ⟨n, n + byteLength (c :: t), c :: t, kept⟩ ::
      p.piecesFrom (n + byteLength (c :: t)) (place (some c) (n + c.utf8Size)) (t ++ cs) = _
    rw [hlen, piecesFrom_inside, lastOf_cons]

theorem piecesFrom_of_clear {p : Pattern} {last : Option Char} {n : Nat} {t cs : List Char} (h : p.Clear cs last t) :
    p.piecesFrom 0 (place last n) (t ++ cs) =
      t.map .plain ++ p.piecesFrom 0 (place (lastOf last t) (n + byteLength t)) cs := by
  induction t generalizing last n with
  | nil => rfl
  | cons c t ih =>
    rw [List.cons_append, piecesFrom_cons_none h.1, ih h.2, byteLength_cons, ← Nat.add_assoc]
    rfl

theorem pieces_of_clear {p : Pattern} {cs : List Char} (h : p.Clear [] none cs) (hend : p.read? (lastOf none cs) [] = none) :
    p.pieces cs = cs.map .plain := by
  have hpieces := piecesFrom_of_clear (n := 0) h
  rw [List.append_nil, piecesFrom, if_neg (Nat.not_lt_zero _), matchAt_eq, hend] at hpieces
  rw [← List.append_nil (cs.map Piece.plain)]
  exact hpieces

theorem filterMap_plain (t : List Char) : (t.map Piece.plain).filterMap Piece.match? = [] := by
  induction t with
  | nil => rfl
  | cons c t ih => exact ih

theorem findAll_eq_nil {p : Pattern} {cs : List Char} (h : p.Clear [] none cs) (hend : p.read? (lastOf none cs) [] = none) :
    p.findAll cs = [] := by
  rw [findAll, pieces_of_clear h hend, filterMap_plain]

end Pattern

namespace Scan
variable {ι : Type} [DecidableEq ι] {ps : ι → Pattern} {last : Option Char} {cs : List Char} {ms : List (Mark ι)}

theorem matchesFrom (h : Scan ps last cs ms) (i : ι) (n : Nat) :
    ((ps i).piecesFrom 0 (Pattern.place last n) cs).filterMap Piece.match? = Mark.matchesOf i n ms := by
  induction h generalizing n with
  | @nil last none =>
    rw [Pattern.piecesFrom, if_neg (Nat.not_lt_zero _), Pattern.matchAt_eq, none i]
    rfl
  | plain none _ ih =>
    rw [Pattern.piecesFrom_cons_none (none i)]
    exact ih _
  | @found last j t cs kept ms here nonempty clear _ ih =>
    by_cases hj : j = i
    · subst hj
      rw [Pattern.piecesFrom_found here nonempty, Mark.matchesOf, if_pos rfl, ← ih]
      rfl
    · rw [Pattern.piecesFrom_of_clear (clear i (Ne.symm hj)), List.filterMap_append, Pattern.filterMap_plain,
        List.nil_append, ih, Mark.matchesOf, if_neg hj, List.nil_append]

/-- All matches of a pattern are those that the scan marks. -/
theorem findAll_eq (h : Scan ps none cs ms) (i : ι) : (ps i).findAll cs = Mark.matchesOf i 0 ms := h.matchesFrom i 0

theorem replacedFrom (h : Scan ps last cs ms) (i : ι) (n : Nat) (f : List Char → List Char) :
    (((ps i).piecesFrom 0 (Pattern.place last n) cs).flatMap fun
      | .plain c => [c]
      | .found m => f m.text) = Mark.replaced i f ms := by
  induction h generalizing n with
  | @nil last none =>
    rw [Pattern.piecesFrom, if_neg (Nat.not_lt_zero _), Pattern.matchAt_eq, none i]
    rfl
  | plain none _ ih =>
    rw [Pattern.piecesFrom_cons_none (none i), List.flatMap_cons, ih]
    rfl
  | @found last j t cs kept ms here nonempty clear _ ih =>
    by_cases hj : j = i
    · subst hj
      rw [Pattern.piecesFrom_found here nonempty, List.flatMap_cons, ih]
      simp [Mark.replaced, Mark.render]
    · rw [Pattern.piecesFrom_of_clear (clear i (Ne.symm hj)), List.flatMap_append, ih, List.flatMap_map]
      simp [Mark.replaced, Mark.render, hj]

/-- Replacing all matches of a pattern replaces those that the scan marks. -/
theorem replaceAll_eq (h : Scan ps none cs ms) (i : ι) (f : List Char → List Char) :
    (ps i).replaceAll (fun m => f m.text) cs = Mark.replaced i f ms := h.replacedFrom i 0 f

end Scan
end SpriteFacts
