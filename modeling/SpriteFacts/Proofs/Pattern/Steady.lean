import SpriteFacts.Proofs.Pattern.Trim

/-! Patterns that a part of a text can be searched for as well as the whole. What a steady pattern reads at a
    place depends on nothing behind its match, and on the character before the place only by whether that
    belongs to a word; so a part of scanned text is scanned the same. The hits of a pattern in a text are the
    places where it matches, and where its matches do not overlap they are the matches that a search finds. -/

namespace SpriteFacts

open Text

namespace Pattern

/-- What the pattern reads is not empty, and depends on its own text alone and on whether that stands behind a word. -/
structure Steady (p : Pattern) : Prop where
  nonempty : ∀ {last : Option Char} {cs : List Char} {r : Reading}, p.read? last cs = some r → r.text ≠ []
  behind : ∀ {last : Option Char} {t rest : List Char} {kept : List (Nat × List Char)},
    p.read? last (t ++ rest) = some ⟨t, kept, rest⟩ → ∀ rest', p.read? last (t ++ rest') = some ⟨t, kept, rest'⟩
  before : ∀ {last last' : Option Char}, last.any isWord = last'.any isWord → ∀ cs, p.read? last cs = p.read? last' cs

/-- Matches of the pattern never overlap. -/
def Alone (p : Pattern) : Prop :=
  ∀ {last : Option Char} {c : Char} {t rest : List Char} {kept : List (Nat × List Char)},
    p.read? last (c :: (t ++ rest)) = some ⟨c :: t, kept, rest⟩ → p.Clear rest (some c) t

section Steady
variable {p : Pattern} {last last' : Option Char} {cs : List Char}

theorem Steady.read?_append (h : p.Steady) {r : Reading} (hr : p.read? last cs = some r) (more : List Char) :
    p.read? last (cs ++ more) = some ⟨r.text, r.kept, r.rest ++ more⟩ := by
  obtain rfl : cs = r.text ++ r.rest := split_of_mem (mem_of_read? hr)
  rw [List.append_assoc]
  exact h.behind hr _

theorem Steady.trims (h : p.Steady) : p.Trims where
  nonempty := h.nonempty
  trim hr := h.behind hr _
  none := by
    intro last cs more hr
    cases hcs : p.read? last cs with
    | none => rfl
    | some r =>
      rw [h.read?_append hcs more] at hr
      cases hr

theorem Steady.read?_nil (h : p.Steady) : p.read? last [] = none := h.trims.read?_nil

theorem clear_behind (same : ∀ cs, p.read? last cs = p.read? last' cs) {behind : List Char} (hc : p.Clear behind last cs) :
    p.Clear behind last' cs := by
  cases cs with
  | nil => trivial
  | cons c cs => exact ⟨same _ ▸ hc.1, hc.2⟩

end Steady
end Pattern

theorem Text.lastOf_of_ne_nil {last last' : Option Char} {t : List Char} (h : t ≠ []) : lastOf last t = lastOf last' t := by
  cases t with
  | nil => exact absurd rfl h
  | cons c t => rfl

/-! ### Parts of scanned text -/

namespace Scan
variable {ι : Type} {ps : ι → Pattern} {last last' : Option Char} {cs : List Char} {as bs ms : List (Mark ι)}

theorem text_ne_nil (h : Scan ps last cs ms) : ∀ m ∈ ms, m.text ≠ [] := by
  induction h with
  | nil => simp
  | plain _ _ ih => simpa [Mark.text] using ih
  | found _ hne _ _ ih => simpa [Mark.text, hne] using ih

theorem here {i : ι} {t : List Char} {kept : List (Nat × List Char)} (h : Scan ps last cs (.found i t kept :: ms)) :
    ∃ rest, cs = t ++ rest ∧ (ps i).read? last (t ++ rest) = some ⟨t, kept, rest⟩ := by
  cases h with
  | found here hne clear rest => exact ⟨_, rfl, here⟩

theorem unread {c : Char} (h : Scan ps last cs (.plain c :: ms)) (i : ι) : (ps i).read? last (c :: Mark.textOf ms) = none := by
  cases h with
  | plain none rest =>
    rw [rest.textOf_eq]
    exact none i

theorem drop (as : List (Mark ι)) (h : Scan ps last cs (as ++ bs)) : Scan ps (lastOf last (Mark.textOf as)) (Mark.textOf bs) bs := by
  induction as generalizing last cs with
  | nil =>
    obtain rfl := h.textOf_eq
    exact h
  | cons m as ih =>
    rw [Mark.textOf_cons, lastOf_append]
    cases h with
    | plain _ rest => exact ih rest
    | found _ _ _ rest => exact ih rest

/-- If no pattern reads the text differently behind another character, it is scanned the same there. -/
theorem behind (same : ∀ i cs, (ps i).read? last cs = (ps i).read? last' cs) (h : Scan ps last cs ms) :
    Scan ps last' cs ms := by
  cases h with
  | nil none => exact .nil fun i => same i [] ▸ none i
  | plain none rest => exact .plain (fun i => same i _ ▸ none i) rest
  | found here hne clear rest =>
    exact .found (same _ _ ▸ here) hne (fun j hj => Pattern.clear_behind (same j) (clear j hj)) (lastOf_of_ne_nil hne ▸ rest)

/-- What stands before scanned text matters only by whether it belongs to a word. -/
theorem before (steady : ∀ i, (ps i).Steady) (hlast : last.any isWord = last'.any isWord) (h : Scan ps last cs ms) :
    Scan ps last' cs ms := h.behind fun i => (steady i).before hlast

end Scan

/-! ### Hits -/

namespace Pattern
variable {p : Pattern} {last last' : Option Char} {behind as bs cs : List Char}

/-- The number of places in a text where the pattern matches, given what stands before the text and behind it. -/
def hits (p : Pattern) (behind : List Char) : Option Char → List Char → Nat
  | _, [] => 0
  | last, c :: cs => (if (p.read? last (c :: (cs ++ behind))).isSome then 1 else 0) + p.hits behind (some c) cs

theorem hits_append :
    p.hits behind last (as ++ bs) = p.hits (bs ++ behind) last as + p.hits behind (lastOf last as) bs := by
  induction as generalizing last with
  | nil => simp [hits]
  | cons a as ih => simp [hits, ih, Nat.add_assoc]

theorem hits_eq_zero : p.hits behind last cs = 0 ↔ p.Clear behind last cs := by
  induction cs generalizing last with
  | nil => simp [hits, Clear]
  | cons c cs ih => simp [hits, Clear, ih]

theorem Steady.hits_le_behind (h : p.Steady) (behind : List Char) : p.hits [] last cs ≤ p.hits behind last cs := by
  induction cs generalizing last with
  | nil => exact Nat.le_refl _
  | cons c cs ih =>
    refine Nat.add_le_add ?_ ih
    rw [List.append_nil]
    split
    · rename_i hr
      obtain ⟨r, hr⟩ := Option.isSome_iff_exists.mp hr
      have := h.read?_append hr behind
      rw [List.cons_append] at this
      rw [this]
      exact Nat.le_refl 1
    · exact Nat.zero_le _

theorem Steady.hits_before (h : p.Steady) (hlast : last.any isWord = last'.any isWord) :
    p.hits behind last cs = p.hits behind last' cs := by
  cases cs with
  | nil => rfl
  | cons c cs => simp only [hits, h.before hlast]

theorem hits_pos {t : List Char} {r : Reading} (h : p.read? last (t ++ behind) = some r) (hne : t ≠ []) :
    1 ≤ p.hits behind last t := by
  cases t with
  | nil => exact absurd rfl hne
  | cons c t =>
    rw [hits, ← List.cons_append, h]
    exact Nat.le_add_right 1 _

theorem hits_found (alone : p.Alone) {t rest : List Char} {kept : List (Nat × List Char)}
    (here : p.read? last (t ++ rest) = some ⟨t, kept, rest⟩) (hne : t ≠ []) : p.hits rest last t = 1 := by
  cases t with
  | nil => exact absurd rfl hne
  | cons c t =>
    rw [List.cons_append] at here
    rw [hits, here, hits_eq_zero.mpr (alone here)]
    rfl

end Pattern

namespace Mark
variable {ι : Type}

/-- No mark begins inside of another. -/
theorem textOf_ne_inside {as bs as' bs' : List (Mark ι)} {m : Mark ι} {u v : List Char} (hms : as ++ m :: bs = as' ++ bs')
    (hm : m.text = u ++ v) (hu : u ≠ []) (hv : v ≠ []) : textOf as' ≠ textOf as ++ u := by
  intro htext
  rcases List.append_eq_append_iff.mp hms with ⟨w, rfl, hw⟩ | ⟨w, rfl, hw⟩
  · rw [textOf_append] at htext
    have hw' : textOf w = u := List.append_cancel_left htext
    cases w with
    | nil => exact hu hw'.symm
    | cons x w =>
      obtain ⟨rfl, -⟩ := List.cons.inj hw
      rw [textOf_cons, hm, List.append_assoc, List.append_right_eq_self] at hw'
      exact hv (List.append_eq_nil_iff.mp hw').1
  · rw [textOf_append, List.append_assoc, List.self_eq_append_right] at htext
    exact hu (List.append_eq_nil_iff.mp htext).2

variable [DecidableEq ι]

def isOf (i : ι) : Mark ι → Bool
  | plain _ => false
  | found j _ _ => j == i

theorem length_matchesOf (i : ι) (n : Nat) (ms : List (Mark ι)) :
    (matchesOf i n ms).length = ms.countP (isOf i) := by
  induction ms generalizing n with
  | nil => rfl
  | cons m ms ih =>
    cases m with
    | plain c => simp [matchesOf, isOf, ih]
    | found j t kept => by_cases hj : j = i <;> simp [matchesOf, isOf, ih, hj]

theorem matchesOf_append (i : ι) (n : Nat) (as bs : List (Mark ι)) :
    matchesOf i n (as ++ bs) = matchesOf i n as ++ matchesOf i (n + byteLength (textOf as)) bs := by
  induction as generalizing n with
  | nil => rfl
  | cons m as ih => cases m <;> simp [matchesOf, ih, text, Nat.add_assoc]

/-- The matches of a pattern among marks are the marks of that pattern, each where its text begins. -/
theorem mem_matchesOf_iff {i : ι} {n : Nat} {ms : List (Mark ι)} {m : Match} : m ∈ matchesOf i n ms ↔
    ∃ as t kept bs, ms = as ++ .found i t kept :: bs ∧
      m = ⟨n + byteLength (textOf as), n + byteLength (textOf as) + byteLength t, t, kept⟩ := by
  induction ms generalizing n with
  | nil => simp [matchesOf]
  | cons mark ms ih =>
    have later : (∃ as t kept bs, ms = as ++ .found i t kept :: bs ∧ m = ⟨n + byteLength mark.text + byteLength (textOf as),
          n + byteLength mark.text + byteLength (textOf as) + byteLength t, t, kept⟩) →
        ∃ as t kept bs, mark :: ms = as ++ .found i t kept :: bs ∧
          m = ⟨n + byteLength (textOf as), n + byteLength (textOf as) + byteLength t, t, kept⟩ := by
      rintro ⟨as, t, kept, bs, rfl, rfl⟩
      exact ⟨mark :: as, t, kept, bs, rfl, by simp [Nat.add_assoc]⟩
    cases mark with
    | plain c =>
      rw [matchesOf, ih]
      refine ⟨fun h => later (by simpa [Mark.text] using h), ?_⟩
      rintro ⟨as, t, kept, bs, hms, rfl⟩
      cases as with
      | nil => cases hms
      | cons a as =>
        obtain ⟨rfl, rfl⟩ := List.cons.inj hms
        exact ⟨as, t, kept, bs, rfl, by simp [Mark.text, Nat.add_assoc]⟩
    | found j u kept' =>
      rw [matchesOf, List.mem_append, ih]
      constructor
      · rintro (h | h)
        · split at h
          · rename_i hj
            subst hj
            obtain rfl := List.mem_singleton.mp h
            exact ⟨[], u, kept', ms, rfl, by simp⟩
          · cases h
        · exact later h
      · rintro ⟨as, t, kept, bs, hms, rfl⟩
        cases as with
        | nil =>
          obtain ⟨hmark, rfl⟩ := List.cons.inj hms
          obtain ⟨rfl, rfl, rfl⟩ := Mark.found.inj hmark
          exact Or.inl (by simp)
        | cons a as =>
          obtain ⟨rfl, rfl⟩ := List.cons.inj hms
          exact Or.inr ⟨as, t, kept, bs, rfl, by simp [Mark.text, Nat.add_assoc]⟩

end Mark

namespace Scan
variable {ι : Type} [DecidableEq ι] {ps : ι → Pattern} {last : Option Char} {cs : List Char} {ms : List (Mark ι)}

/-- Where matches never overlap, a text has as many hits as a scan marks. -/
theorem hits_eq {i : ι} (alone : (ps i).Alone) (h : Scan ps last cs ms) : (ps i).hits [] last cs = ms.countP (Mark.isOf i) := by
  induction h with
  | nil => rfl
  | plain none _ ih => simp [Pattern.hits, none i, Mark.isOf, ih]
  | @found last j t cs kept ms here hne clear _ ih =>
    rw [Pattern.hits_append, List.append_nil, ih]
    by_cases hj : j = i
    · subst hj
      rw [Pattern.hits_found alone here hne]
      simp [Mark.isOf, Nat.add_comm]
    · rw [Pattern.hits_eq_zero.mpr (clear i (Ne.symm hj))]
      simp [Mark.isOf, hj]

theorem clear {i : ι} (h : Scan ps last cs ms) (hnone : ms.countP (Mark.isOf i) = 0) : (ps i).Clear [] last cs := by
  induction h with
  | nil => trivial
  | plain none _ ih =>
    rw [List.countP_cons_of_neg (by simp [Mark.isOf])] at hnone
    exact ⟨by rw [List.append_nil]; exact none i, ih hnone⟩
  | @found last j t cs kept ms here hne clear _ ih =>
    by_cases hj : j = i
    · rw [List.countP_cons_of_pos (by simp [Mark.isOf, hj])] at hnone
      omega
    · rw [List.countP_cons_of_neg (by simp [Mark.isOf, hj])] at hnone
      refine Pattern.clear_append.mpr ⟨?_, ih hnone⟩
      rw [List.append_nil]
      exact clear i (Ne.symm hj)

theorem length_findAll (h : Scan ps none cs ms) (i : ι) : ((ps i).findAll cs).length = ms.countP (Mark.isOf i) := by
  rw [h.findAll_eq, Mark.length_matchesOf]

theorem find?_eq_none {i : ι} (steady : (ps i).Steady) (alone : (ps i).Alone) (h : Scan ps none cs ms) :
    (ps i).find? cs = none ↔ ms.any (Mark.isOf i) = false := by
  have hcount : (ps i).Clear [] none cs ↔ ms.any (Mark.isOf i) = false := by
    rw [← Pattern.hits_eq_zero, h.hits_eq alone, List.countP_eq_zero, List.any_eq_false]
  rw [← hcount]
  exact Pattern.findFrom_eq_none.trans (and_iff_left steady.read?_nil)

end Scan
end SpriteFacts
