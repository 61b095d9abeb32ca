import SpriteFacts.Proofs.Pattern.Scan

/-! Searching the beginning of a text. A pattern that looks at nothing but what it takes has the same readings
    in the beginning of a text as in the whole text, in the same order, but for those that reach over the end. So
    a match of the whole text that lies in the beginning is the match there, and where the whole text has no match
    the beginning has none. -/

namespace SpriteFacts

open Text

namespace Reading

/-- The reading with more text ahead of it. -/
def extend (more : List Char) (r : Reading) : Reading := { r with rest := r.rest ++ more }

/-- At least so many characters are left ahead of the reading. -/
def leaves (n : Nat) (r : Reading) : Bool := decide (n ≤ r.rest.length)

end Reading

namespace Pattern

/-- The pattern looks at nothing but the text that it takes. -/
def Blind : Pattern → Prop
  | wordEdge | textStart | textEnd => False
  | seq p q | alt p q => Blind p ∧ Blind q
  | group _ p => Blind p
  | _ => True

section Blind
variable {p : Pattern} {ok : Char → Bool} {last : Option Char} {cs more : List Char}

theorem filter_leaves_eq_nil {rs : List Reading} {n : Nat} (h : ∀ r ∈ rs, r.rest.length < n) :
    rs.filter (Reading.leaves n) = [] :=
  List.filter_eq_nil_iff.mpr fun r hr => by simpa [Reading.leaves] using h r hr

theorem length_rest_le {r : Reading} (h : r ∈ p.readings last cs) : r.rest.length ≤ cs.length := by
  rw [split_of_mem h, List.length_append]
  exact Nat.le_add_left _ _

theorem filter_map_cons (c : Char) (n : Nat) (rs : List Reading) :
    (rs.map (Reading.cons c)).filter (Reading.leaves n) = (rs.filter (Reading.leaves n)).map (Reading.cons c) :=
  List.filter_map

theorem filter_runReadings : (runReadings ok (cs ++ more)).filter (Reading.leaves more.length) =
    (runReadings ok cs).map (Reading.extend more) := by
  induction cs with
  | nil =>
    cases more with
    | nil => rfl
    | cons c more =>
      have hover : ∀ r ∈ runReadings ok more, r.rest.length < more.length + 1 := fun r hr =>
        Nat.lt_succ_of_le (@length_rest_le (run ok) none more r hr)
      by_cases hc : ok c
      · simpa [runReadings, hc, Reading.leaves, Reading.extend, Reading.cons] using hover
      · simp [runReadings, hc, Reading.leaves, Reading.extend]
  | cons c cs ih =>
    have hhere : Reading.leaves more.length ⟨[], [], c :: (cs ++ more)⟩ = true := by simp [Reading.leaves]; omega
    by_cases hc : ok c
    · simp [runReadings, hc, hhere, filter_map_cons, ih, Reading.extend, Reading.cons, Function.comp_def]
    · simp [runReadings, hc, hhere, Reading.extend]

theorem filter_lazyReadings : (lazyReadings ok (cs ++ more)).filter (Reading.leaves more.length) =
    (lazyReadings ok cs).map (Reading.extend more) := by
  induction cs with
  | nil =>
    cases more with
    | nil => rfl
    | cons c more =>
      have hover : ∀ r ∈ lazyReadings ok more, r.rest.length < more.length + 1 := fun r hr =>
        Nat.lt_succ_of_le (@length_rest_le (lazyRun ok) none more r hr)
      by_cases hc : ok c
      · simpa [lazyReadings, hc, Reading.leaves, Reading.extend, Reading.cons] using hover
      · simp [lazyReadings, hc, Reading.leaves, Reading.extend]
  | cons c cs ih =>
    have hhere : Reading.leaves more.length ⟨[], [], c :: (cs ++ more)⟩ = true := by simp [Reading.leaves]; omega
    by_cases hc : ok c
    · simp [lazyReadings, hc, hhere, filter_map_cons, ih, Reading.extend, Reading.cons, Function.comp_def]
    · simp [lazyReadings, hc, hhere, Reading.extend]

/-- The readings that stay in the beginning of a text are its readings. -/
theorem Blind.filter_readings (h : p.Blind) : (p.readings last (cs ++ more)).filter (Reading.leaves more.length) =
    (p.readings last cs).map (Reading.extend more) := by
  induction p generalizing last cs with
  | empty => simp [readings, Reading.leaves, Reading.extend]
  | one ok =>
    cases cs with
    | nil =>
      cases more with
      | nil => rfl
      | cons c more => by_cases hc : ok c <;> simp [readings, hc, Reading.leaves]
    | cons c cs => by_cases hc : ok c <;> simp [readings, hc, Reading.leaves, Reading.extend]
  | run ok => exact filter_runReadings
  | lazyRun ok => exact filter_lazyReadings
  | wordEdge | textStart | textEnd => exact h.elim
  | seq p q ihp ihq =>
    -- Behind a first part that reaches over the end, so does the whole.
    have hover : ∀ a ∈ p.readings last (cs ++ more), Reading.leaves more.length a = false →
        ((q.readings (lastOf last a.text) a.rest).map a.append).filter (Reading.leaves more.length) = [] := by
      intro a _ ha
      refine filter_leaves_eq_nil fun r hr => ?_
      obtain ⟨b, hb, rfl⟩ := List.mem_map.mp hr
      rw [Reading.leaves, decide_eq_false_iff_not, Nat.not_le] at ha
      exact Nat.lt_of_le_of_lt (length_rest_le (r := b) hb) ha
    have hkeep : ∀ rs : List Reading, (∀ a ∈ rs, a ∈ p.readings last (cs ++ more)) →
        (rs.flatMap fun a => (q.readings (lastOf last a.text) a.rest).map a.append).filter (Reading.leaves more.length) =
          (rs.filter (Reading.leaves more.length)).flatMap fun a =>
            ((q.readings (lastOf last a.text) a.rest).map a.append).filter (Reading.leaves more.length) := by
      intro rs hrs
      induction rs with
      | nil => rfl
      | cons a rs ih =>
        rw [List.flatMap_cons, List.filter_append, ih fun b hb => hrs b (List.mem_cons_of_mem _ hb)]
        by_cases ha : Reading.leaves more.length a = true
        · rw [List.filter_cons_of_pos ha, List.flatMap_cons]
        · rw [hover a (hrs a List.mem_cons_self) (by simpa using ha), List.filter_cons_of_neg ha, List.nil_append]
    rw [readings, hkeep _ fun _ ha => ha, ihp h.1, readings, List.flatMap_map, List.map_flatMap]
    refine congrArg (List.flatMap · _) (funext fun a => ?_)
    have hq := @ihq (lastOf last a.text) a.rest h.2
    have hmap : ((q.readings (lastOf last a.text) (a.rest ++ more)).map (a.extend more).append).filter
        (Reading.leaves more.length) = ((q.readings (lastOf last a.text) (a.rest ++ more)).filter
          (Reading.leaves more.length)).map (a.extend more).append := List.filter_map
    show ((q.readings (lastOf last a.text) (a.rest ++ more)).map (a.extend more).append).filter _ = _
    rw [hmap, hq, List.map_map, List.map_map]
    rfl
  | alt p q ihp ihq => rw [readings, List.filter_append, ihp h.1, ihq h.2, readings, List.map_append]
  | group n p ih =>
    have hmap : ((p.readings last (cs ++ more)).map (Reading.keep n)).filter (Reading.leaves more.length) =
        ((p.readings last (cs ++ more)).filter (Reading.leaves more.length)).map (Reading.keep n) := List.filter_map
    rw [readings, hmap, ih h, readings, List.map_map, List.map_map]
    rfl

theorem Blind.readings_behind (h : p.Blind) (last' : Option Char) : p.readings last cs = p.readings last' cs := by
  induction p generalizing last last' cs with
  | empty | run ok | lazyRun ok => rfl
  | one ok => cases cs <;> rfl
  | wordEdge | textStart | textEnd => exact h.elim
  | seq p q ihp ihq =>
    rw [readings, readings, ihp h.1 last']
    exact congrArg (List.flatMap · _) (funext fun a => by rw [ihq h.2])
  | alt p q ihp ihq => rw [readings, readings, ihp h.1 last', ihq h.2 last']
  | group n p ih => rw [readings, readings, ih h last']

end Blind

/-- What the pattern reads is not empty, and what it reads in a text it reads in every beginning that holds the match. -/
structure Trims (p : Pattern) : Prop where
  nonempty : ∀ {last : Option Char} {cs : List Char} {r : Reading}, p.read? last cs = some r → r.text ≠ []
  trim : ∀ {last : Option Char} {t rest more : List Char} {kept : List (Nat × List Char)},
    p.read? last (t ++ (rest ++ more)) = some ⟨t, kept, rest ++ more⟩ → p.read? last (t ++ rest) = some ⟨t, kept, rest⟩
  none : ∀ {last : Option Char} {cs : List Char} (more : List Char), p.read? last (cs ++ more) = none → p.read? last cs = none

theorem Blind.trims {p : Pattern} (h : p.Blind)
    (nonempty : ∀ {last : Option Char} {cs : List Char} {r : Reading}, p.read? last cs = some r → r.text ≠ []) :
    p.Trims where
  nonempty := nonempty
  trim := by
    intro last t rest more kept hread
    have hfilter := @Blind.filter_readings p last (t ++ rest) more h
    rw [List.append_assoc] at hfilter
    obtain ⟨others, hothers⟩ := List.head?_eq_some_iff.mp hread
    rw [hothers, List.filter_cons_of_pos (by simp [Reading.leaves])] at hfilter
    cases hrs : p.readings last (t ++ rest) with
    | nil =>
      rw [hrs] at hfilter
      cases hfilter
    | cons r rs =>
      rw [hrs] at hfilter
      obtain ⟨hr, -⟩ := List.cons.inj hfilter
      obtain ⟨htext, hkept, hrest⟩ := Reading.mk.inj hr
      rw [read?, hrs, List.head?_cons]
      exact congrArg some (Reading.mk.injEq .. ▸ ⟨htext.symm, hkept.symm, (List.append_cancel_right hrest).symm⟩)
  none := by
    intro last cs more hread
    have hfilter := @Blind.filter_readings p last cs more h
    rw [read?, List.head?_eq_none_iff] at hread
    rw [hread] at hfilter
    rw [read?, List.map_eq_nil_iff.mp hfilter.symm]
    rfl

section Trims
variable {p : Pattern} {last : Option Char} {cs : List Char}

theorem Trims.read?_nil (h : p.Trims) : p.read? last [] = Option.none := by
  cases hr : p.read? last [] with
  | none => rfl
  | some r =>
    have hsplit : [] = r.text ++ r.rest := split_of_mem (mem_of_read? hr)
    exact absurd (List.append_eq_nil_iff.mp hsplit.symm).1 (h.nonempty hr)

theorem Trims.clear (h : p.Trims) {behind more : List Char} (hc : p.Clear (behind ++ more) last cs) :
    p.Clear behind last cs := by
  induction cs generalizing last with
  | nil => trivial
  | cons c cs ih =>
    refine ⟨h.none more ?_, ih hc.2⟩
    rw [List.cons_append, List.append_assoc]
    exact hc.1

end Trims

end Pattern

/-- The marks of a scan up to a place are what a scan of the text up to there finds. -/
theorem Scan.take {ι : Type} {ps : ι → Pattern} {last : Option Char} {cs : List Char} {as bs : List (Mark ι)}
    (trims : ∀ i, (ps i).Trims) (h : Scan ps last cs (as ++ bs)) : Scan ps last (Mark.textOf as) as := by
  induction as generalizing last cs with
  | nil => exact .nil fun i => (trims i).read?_nil
  | cons m as ih =>
    cases h with
    | plain none rest =>
      refine .plain (fun i => (trims i).none (Mark.textOf bs) ?_) (ih rest)
      have htext : Mark.textOf as ++ Mark.textOf bs = _ := (Mark.textOf_append as bs).symm.trans rest.textOf_eq
      show (ps i).read? last (_ :: (Mark.textOf as ++ Mark.textOf bs)) = _
      rw [htext]
      exact none i
    | found here hne clear rest =>
      have htext : Mark.textOf as ++ Mark.textOf bs = _ := (Mark.textOf_append as bs).symm.trans rest.textOf_eq
      subst htext
      exact .found ((trims _).trim here) hne (fun j hj => (trims j).clear (clear j hj)) (ih rest)

end SpriteFacts
