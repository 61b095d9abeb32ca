import SpriteFacts.Proofs.Variant.CyclePace
import SpriteFacts.Proofs.Variant.RemapRule
import SpriteFacts.Proofs.Variant.TickMatch

/-! Remaps read back from their statements. Each shape of a statement is found by the pattern of one idiom, which keeps its
    literals, and no idiom in front of that one reads it: a shift needs both signs in their order, and a cycle needs a
    modulus. The modulus of the position stands in front of the one of the frames, but no literal follows it. -/

namespace SpriteFacts

open Text Pattern

/-! ### Languages of the idioms -/

/-- The variable, a literal behind one sign, another one behind the other, and the end of the statement. -/
def shiftLanguage (v : String) (k : Shift) : TextLanguage :=
  .spaced (.just v.toList) <| .spaced (.just [k.first]) <| .spaced (.digits 1) <| .spaced (.just [k.second]) <|
    .spaced (.digits 2) (.just [';'])

theorem reads_shift (v : String) (k : Shift) : Reads (spaced [literal v, char k.first, group 1 digits, char k.second, group 2 digits, char ';'])
    (shiftLanguage v k) :=
  (reads_literal v).spaced <| (reads_char k.first).spaced <| (reads_digits 1).spaced <| (reads_char k.second).spaced <|
    (reads_digits 2).pair (reads_char ';')

/-- A base with something added, and a modulus before the statement ends. -/
def cycleLanguage (base : TextLanguage) (k : Nat) : TextLanguage :=
  (base.spaced (.just ['+'])).append <| (TextLanguage.many (· != ';')).append <| (TextLanguage.just ['%']).append <|
    (TextLanguage.many isBlank).append (.digits k)

theorem reads_cycle {p : Pattern} {L : TextLanguage} (h : Reads p L) (k : Nat) :
    Reads (seq (spaced [p, char '+']) (Remap.laterModulus k)) (cycleLanguage L k) :=
  (h.pair (reads_char '+')).seq <| (reads_lazyRun _).seq <| (reads_char '%').seq <| (reads_run _).seq (reads_digits k)

section CycleLanguage
variable {L : TextLanguage} {k : Nat} {u t : List Char} {j kept : List (Nat × List Char)}

theorem cycleLanguage_of_text (hu : L u j) (g g' : Gap) {middle : List Char} (hmiddle : ';' ∉ middle) (n : Decimal) :
    cycleLanguage L k (u ++ (g.text ++ '+' :: (middle ++ '%' :: (g'.text ++ n.digits)))) ((k, n.digits) :: j) := by
  have hall : middle.all (· != ';') = true := List.all_eq_true.mpr fun c hc => bne_iff_ne.mpr (ne_of_mem_of_not_mem hc hmiddle)
  have hmodulus : (TextLanguage.many isBlank).append (.digits k) (g'.text ++ n.digits) [(k, n.digits)] :=
    TextLanguage.append_of ⟨g'.blank, rfl⟩ (TextLanguage.digits_self k n)
  have htext : cycleLanguage L k _ _ := TextLanguage.append_of (TextLanguage.spaced_of hu g (TextLanguage.just_self ['+']))
    (TextLanguage.append_of ⟨hall, rfl⟩ (TextLanguage.append_of (TextLanguage.just_self ['%']) hmodulus))
  simpa using htext

theorem exists_of_cycleLanguage (h : cycleLanguage L k t kept) : ∃ (u : List Char) (j : List (Nat × List Char)) (g : Gap)
    (ys x : List Char), L u j ∧ t = u ++ (g.text ++ '+' :: ys) ∧ kept = (k, x) :: j := by
  obtain ⟨_, _, _, _, ⟨u, _, g, _, _, hu, ⟨rfl, rfl⟩, rfl, rfl⟩, ⟨middle, _, _, _, ⟨-, rfl⟩, ⟨_, _, _, _, ⟨rfl, rfl⟩,
    ⟨g', _, x, _, ⟨-, rfl⟩, ⟨-, -, rfl⟩, rfl, rfl⟩, rfl, rfl⟩, rfl, rfl⟩, rfl, rfl⟩ := h
  exact ⟨u, _, g, middle ++ '%' :: (g' ++ x), x, hu, by simp, rfl⟩

end CycleLanguage

namespace Remap

/-- The sign may be read with the variable or with what follows it. -/
theorem readings_cycle (v : String) (p : Pattern) (k : Nat) (last : Option Char) (cs : List Char) :
    (seq (spaced [assignTo v, p, char '+']) (laterModulus k)).readings last cs =
      (spaced [wordStart v, char '=', seq (spaced [p, char '+']) (laterModulus k)]).readings last cs := by
  rw [← readings_assignTo]
  have hinner : ∀ last cs, (seq (seq blanks (spaced [p, char '+'])) (laterModulus k)).readings last cs =
      (seq blanks (seq (spaced [p, char '+']) (laterModulus k))).readings last cs := readings_seq_assoc _ _ _
  refine (readings_seq_assoc (assignTo v) (seq blanks (spaced [p, char '+'])) (laterModulus k) last cs).trans ?_
  show List.flatMap _ _ = List.flatMap _ _
  simp only [hinner]
  rfl

/-! ### The idioms that do not look at the size of the number -/

section Idioms
variable {v : String} {code : List Char} {id : Nat}

/-- The idiom of a cycle from a literal. -/
def baseCycle (v : String) : Idiom Remap := (chain v).idioms.get ⟨2, Nat.lt_of_sub_eq_succ rfl⟩

/-- The idiom of a cycle from the sprite itself. -/
def selfCycle (v : String) : Idiom Remap := (chain v).idioms.get ⟨3, Nat.lt_of_sub_eq_succ rfl⟩

/-- The idiom of a literal by itself. -/
def direct (v : String) : Idiom Remap := (chain v).idioms.get ⟨4, Nat.lt_of_sub_eq_succ rfl⟩

theorem sizeless_eq (v : String) : sizeless v = [baseCycle v, selfCycle v, direct v, identity v] := rfl

/-- Behind idioms that read nothing, one that reads a remap decides. -/
theorem firstMatch?_of_read {s : Scope} {r : Remap} (is : List (Idiom Remap)) (i : Idiom Remap) (js : List (Idiom Remap))
    (hsplit : (chain v).idioms = is ++ i :: js) (hnone : ∀ j ∈ is, j.read s = none) (hread : i.read s = some r) :
    (chain v).firstMatch? s = some (i.name, r) := by
  have hchain : chain v = ⟨"base_sprite", is ++ i :: js⟩ := congrArg (IdiomChain.mk "base_sprite") hsplit
  rw [hchain]
  exact IdiomChain.firstMatch?_of_read "base_sprite" i js hnone hread

/-- A shift needs a minus sign. -/
theorem shifts_read_eq_none (h : '-' ∉ code) : ∀ i ∈ [raising v, lowering v], i.read ⟨id, code⟩ = none := by
  have hneeds : ∀ first second, '-' = first ∨ '-' = second → Needs '-' (shifted v first second) := by
    rintro first second (rfl | rfl) <;> simp [shifted, spaced, Pattern.char, Needs]
  rw [List.forall_mem_cons, List.forall_mem_singleton]
  exact ⟨Idiom.read_of_needs (hneeds '+' '-' (Or.inr rfl)) h, Idiom.read_of_needs (hneeds '-' '+' (Or.inl rfl)) h⟩

/-- A cycle needs a modulus. -/
theorem cycles_read_eq_none (h : '%' ∉ code) : ∀ i ∈ [baseCycle v, selfCycle v], i.read ⟨id, code⟩ = none := by
  have hneeds : ∀ p k, Needs '%' (seq (spaced [assignTo v, p, char '+']) (laterModulus k)) := fun p k =>
    Or.inr (by simp [laterModulus, Pattern.all, Pattern.char, Needs])
  rw [List.forall_mem_cons, List.forall_mem_singleton]
  exact ⟨Idiom.read_of_needs (hneeds (group 1 digits) 2) h, Idiom.read_of_needs (hneeds (literal v) 1) h⟩

end Idioms
end Remap

/-! ### Shifts -/

namespace Shift

theorem not_isBlank_first (k : Shift) : isBlank k.first = false := by cases k <;> decide

theorem not_isBlank_second (k : Shift) : isBlank k.second = false := by cases k <;> decide

theorem not_isDigit_second (k : Shift) : isDigit k.second = false := by cases k <;> decide

theorem first_injective {k l : Shift} (h : k.first = l.first) : k = l := by
  cases k <;> cases l <;> first | rfl | exact absurd h (by decide)

end Shift

/-- A text that begins with a shift begins with no other one. -/
theorem shift_unique {v : String} {k l : Shift} {g₁ g₂ g₃ g₄ g₅ : Gap} {a b : Decimal} {tail t rest : List Char}
    {kept : List (Nat × List Char)} (h : v.toList ++ (g₁.text ++ k.first :: (g₂.text ++ (a.digits ++ (g₃.text ++ k.second ::
      (g₄.text ++ (b.digits ++ (g₅.text ++ ';' :: tail))))))) = t ++ rest) (ht : shiftLanguage v l t kept) :
    l = k ∧ kept = [(2, b.digits), (1, a.digits)] := by
  obtain ⟨_, _, h₁, _, _, ⟨rfl, rfl⟩, ⟨_, _, h₂, _, _, ⟨rfl, rfl⟩, ⟨x, _, h₃, _, _, ⟨hx, hxDigits, rfl⟩, ⟨_, _, h₄, _, _, ⟨rfl, rfl⟩,
    ⟨y, _, h₅, _, _, ⟨hy, hyDigits, rfl⟩, ⟨rfl, rfl⟩, rfl, rfl⟩, rfl, rfl⟩, rfl, rfl⟩, rfl, rfl⟩, rfl, rfl⟩ := ht
  simp only [List.append_assoc, List.cons_append, List.nil_append] at h
  obtain ⟨-, e₁⟩ := Gap.eq_of_append (List.append_cancel_left h) (by simp [k.not_isBlank_first]) (by simp [l.not_isBlank_first])
  obtain ⟨hsign, e₂⟩ := List.cons.inj e₁
  obtain rfl := Shift.first_injective hsign
  obtain ⟨-, e₃⟩ := Gap.eq_of_append e₂ (head_digits a.nonempty a.numeral.all_isDigit _) (head_digits hx hxDigits _)
  obtain ⟨rfl, e₄⟩ := Decimal.eq_of_append e₃ hxDigits (g₃.head_sign k.not_isDigit_second _) (h₃.head_sign k.not_isDigit_second _)
  obtain ⟨-, e₅⟩ := Gap.eq_of_append e₄ (by simp [k.not_isBlank_second]) (by simp [k.not_isBlank_second])
  obtain ⟨-, e₆⟩ := Gap.eq_of_append (List.cons.inj e₅).2 (head_digits b.nonempty b.numeral.all_isDigit _)
    (head_digits hy hyDigits _)
  obtain ⟨rfl, -⟩ := Decimal.eq_of_append e₆ hyDigits (g₅.head_sign (by decide) _) (h₅.head_sign (by decide) _)
  exact ⟨rfl, rfl⟩

namespace RemapStatement
variable {s : RemapStatement} {v : String} {k : Shift} {g₁ g₂ g₃ g₄ : Gap} {a b : Decimal} {id : Nat}

theorem ending_shift (h : s.value = .shift k g₁ g₂ a g₃ g₄ b) :
    s.ending v = v.toList ++ (g₁.text ++ k.first :: (g₂.text ++ (a.digits ++ (g₃.text ++ k.second ::
      (g₄.text ++ (b.digits ++ (s.beforeEnd.text ++ ';' :: s.trail.text))))))) := by
  simp [ending, h, RemapExpression.text]

variable (hv : SpriteVariable v)

include hv

theorem unblank_shift : Unblank (spaced [literal v, char k.first, group 1 digits, char k.second, group 2 digits, char ';']) :=
  (unblank_literal (by rcases hv with rfl | rfl <;> decide)).seq

/-- The literals of a shift are found by its pattern. -/
theorem exists_find?_shift (h : s.value = .shift k g₁ g₂ a g₃ g₄ b) :
    ∃ m, (Remap.shifted v k.first k.second).find? (s.text v) = some m ∧ m.kept = [(2, b.digits), (1, a.digits)] := by
  have hending : (s.assigned hv).ending =
      (v.toList ++ (g₁.text ++ ([k.first] ++ (g₂.text ++ (a.digits ++ (g₃.text ++ ([k.second] ++
        (g₄.text ++ (b.digits ++ (s.beforeEnd.text ++ [';'])))))))))) ++ s.trail.text := by
    refine (ending_shift h).trans ?_
    simp
  refine AssignedText.exists_find?_kept hv.isName (unblank_shift hv) (reads_shift v k) hending ?_ ?_
  · exact TextLanguage.spaced_of (TextLanguage.just_self _) g₁ <| TextLanguage.spaced_of (TextLanguage.just_self _) g₂ <|
      TextLanguage.spaced_of (TextLanguage.digits_self 1 a) g₃ <| TextLanguage.spaced_of (TextLanguage.just_self _) g₄ <|
        TextLanguage.spaced_of (TextLanguage.digits_self 2 b) s.beforeEnd (TextLanguage.just_self _)
  · exact fun t rest kept hsplit ht => (shift_unique ((ending_shift h).symm.trans hsplit) ht).2

/-- A shift is not found by the pattern of the other one. -/
theorem find?_other_shift (h : s.value = .shift k g₁ g₂ a g₃ g₄ b) {l : Shift} (hne : l ≠ k) :
    (Remap.shifted v l.first l.second).find? (s.text v) = none :=
  AssignedText.find?_eq_none (a := s.assigned hv) hv.isName (unblank_shift hv) (reads_shift v l) fun _ _ _ hsplit ht =>
    hne (shift_unique ((ending_shift h).symm.trans hsplit) ht).1

theorem literals?_shift (h : s.value = .shift k g₁ g₂ a g₃ g₄ b) (hfits : s.value.Fits) :
    Remap.literals? v k.first k.second (s.text v) = some ((a.value : Int), (b.value : Int)) := by
  obtain ⟨m, hm, hkept⟩ := exists_find?_shift hv h
  rw [h] at hfits
  have ha : m.integer? 1 = some (a.value : Int) := Match.integer?_of_group (by simp [Match.group?, hkept]) hfits.1
  have hb : m.integer? 2 = some (b.value : Int) := Match.integer?_of_group (by simp [Match.group?, hkept]) hfits.2
  rw [Remap.literals?, hm, Option.bind_some, ha, Option.bind_some, hb]
  rfl

end RemapStatement

/-! ### Cycles -/

theorem SpriteVariable.ne_digits {v : String} (hv : SpriteVariable v) {t xs ys : List Char} (hne : t ≠ []) (hall : t.all isDigit = true) :
    t ++ xs ≠ v.toList ++ ys := by
  rcases hv with rfl | rfl <;> exact Remap.digits_ne_cons hne hall (by decide)

namespace RemapBase

/-- What the idiom of the cycle reads as the base. -/
def pattern (v : String) : RemapBase → Pattern
  | literal _ => group 1 digits
  | own => Pattern.literal v

def language (v : String) : RemapBase → TextLanguage
  | literal _ => .digits 1
  | own => .just v.toList

def kept : RemapBase → List (Nat × List Char)
  | literal n => [(1, n.digits)]
  | own => []

/-- The number that the idiom of the cycle keeps the frames under. -/
def frameGroup : RemapBase → Nat
  | literal _ => 2
  | own => 1

/-- What the idiom of the cycle searches for. -/
def cyclePattern (v : String) (b : RemapBase) : Pattern :=
  seq (spaced [assignTo v, b.pattern v, char '+']) (Remap.laterModulus b.frameGroup)

/-- The idiom of the cycle. -/
def cycleIdiom (v : String) : RemapBase → Idiom Remap
  | literal _ => Remap.baseCycle v
  | own => Remap.selfCycle v

variable (b : RemapBase) {v : String}

theorem reads_pattern : Reads (b.pattern v) (b.language v) := by
  cases b with
  | literal n => exact reads_digits 1
  | own => exact reads_literal v

theorem language_text : b.language v (b.text v) b.kept := by
  cases b with
  | literal n => exact ⟨n.nonempty, n.numeral.all_isDigit, rfl⟩
  | own => exact ⟨rfl, rfl⟩

theorem unblank_pattern (hv : SpriteVariable v) : Unblank (b.pattern v) := by
  cases b with
  | literal n => exact unblank_digits 1
  | own => exact unblank_literal (by rcases hv with rfl | rfl <;> decide)

/-- What the idiom of the cycle takes as the base. -/
def read? (id : Nat) (m : Match) : RemapBase → Option Int
  | literal _ => m.integer? 1
  | own => some id

theorem read_cycleIdiom {id : Nat} {code : List Char} : (b.cycleIdiom v).read ⟨id, code⟩ = ((b.cyclePattern v).find? code).bind fun m =>
    (b.read? id m).bind fun base => (m.word? b.frameGroup).bind fun frames => some (Remap.cycling base frames code) := by
  cases b <;> rfl

theorem read?_eq {id : Nat} {m : Match} {t : List Char} (hkept : m.kept = (b.frameGroup, t) :: b.kept) (hfits : b.Fits) :
    b.read? id m = some (b.value id) := by
  cases b with
  | literal n => exact Match.integer?_of_group (by simp [Match.group?, hkept, kept, frameGroup]) hfits
  | own => rfl

/-- A text that begins with the base of a cycle begins with no other one. -/
theorem kept_unique {g g' : Gap} {u xs ys : List Char} {j : List (Nat × List Char)}
    (h : b.text v ++ (g.text ++ '+' :: xs) = u ++ (g'.text ++ '+' :: ys)) (hu : b.language v u j) : j = b.kept := by
  cases b with
  | literal n =>
    obtain ⟨-, hall, rfl⟩ := hu
    obtain ⟨rfl, -⟩ := Decimal.eq_of_append h hall (g.head_sign (by decide) _) (g'.head_sign (by decide) _)
    rfl
  | own => exact hu.2

end RemapBase

namespace RemapStatement
variable {s : RemapStatement} {v : String} {base : RemapBase} {g₁ g₂ g₃ g₄ : Gap} {pace : Pace} {frames : Decimal} {id : Nat}

/-- What stands in front of the tick of a cycle. -/
def front (s : RemapStatement) (v : String) (base : RemapBase) (g₁ g₂ : Gap) : List Char :=
  s.lead.text ++ (v.toList ++ (s.beforeSign.text ++ '=' :: (s.afterSign.text ++ (base.text v ++ (g₁.text ++ '+' :: g₂.text)))))

/-- What stands behind the frames of a cycle. -/
def tail (s : RemapStatement) : List Char := s.beforeEnd.text ++ ';' :: s.trail.text

theorem text_cycle (h : s.value = .cycle base g₁ g₂ pace g₃ g₄ frames) : s.text v =
    s.front v base g₁ g₂ ++ (pace.text ++ (g₃.text ++ '%' :: (g₄.text ++ (frames.digits ++ s.tail)))) := by
  simp [text, ending, h, RemapExpression.text, front, tail]

theorem ending_cycle (h : s.value = .cycle base g₁ g₂ pace g₃ g₄ frames) : s.ending v =
    base.text v ++ (g₁.text ++ '+' :: (g₂.text ++ (pace.text ++ (g₃.text ++ '%' :: (g₄.text ++ (frames.digits ++ s.tail)))))) := by
  simp [ending, h, RemapExpression.text, tail]

theorem ending_direct {n : Decimal} (h : s.value = .direct n) : s.ending v = n.digits ++ s.tail := by
  simp [ending, h, RemapExpression.text, tail]

theorem not_mem_tail {c : Char} (hblank : isBlank c = false) (hc : c ≠ ';') : c ∉ s.tail := by
  simp [tail, Gap.not_mem hblank, hc]

section Search
variable (hv : SpriteVariable v)

include hv

theorem not_mem_front {c : Char} (hblank : isBlank c = false) (hdigit : c.isDigit = false) (hc : c ∉ "csprite=+".toList) :
    c ∉ s.front v base g₁ g₂ := by
  simp at hc
  have hname : c ∉ v.toList := hv.not_mem (by simp [hc])
  simp [front, Gap.not_mem hblank, hname, base.not_mem_text hdigit hname, hc]

/-- The base and the frames of a cycle are found by the pattern of its idiom. -/
theorem exists_find?_cycle (h : s.value = .cycle base g₁ g₂ pace g₃ g₄ frames) :
    ∃ m t, (base.cyclePattern v).find? (s.text v) = some m ∧ m.kept = (base.frameGroup, t) :: base.kept ∧
      m.group? base.frameGroup = some frames.digits := by
  have hmiddle : ';' ∉ g₂.text ++ (pace.text ++ g₃.text) := by
    have hpace := pace.not_mem_text (c := ';') (by decide) (by decide) (by decide)
    simp (disch := decide) [Gap.not_mem, hpace]
  have hending : (s.assigned hv).ending = (base.text v ++ (g₁.text ++ '+' :: ((g₂.text ++ (pace.text ++ g₃.text)) ++ '%' ::
      (g₄.text ++ frames.digits)))) ++ s.tail := by
    refine (ending_cycle h).trans ?_
    simp
  have hreads := reads_cycle (base.reads_pattern (v := v)) base.frameGroup
  obtain ⟨m, hm⟩ := AssignedText.exists_find? hv.isName hreads hending
    (cycleLanguage_of_text base.language_text g₁ g₄ hmiddle frames)
  have hfind : (base.cyclePattern v).find? (s.text v) = some m := (find?_congr (Remap.readings_cycle v _ _) _).trans hm
  obtain ⟨_, _, hsplit, ht⟩ := AssignedText.exists_of_find? hv.isName (base.unblank_pattern hv).seq.seq hreads hm
  obtain ⟨u, j, g, ys, x, hu, rfl, hkept⟩ := exists_of_cycleLanguage ht
  rw [List.append_assoc, List.append_assoc] at hsplit
  obtain rfl := base.kept_unique ((ending_cycle h).symm.trans hsplit) hu
  have hends : EndsInLiteral '%' base.frameGroup (base.cyclePattern v) := (endsInLiteral_signed '%' base.frameGroup).seq.seq
  have hpoints : Points '%' frames (s.text v) := by
    rw [text_cycle h]
    exact pace.points_text (not_mem_front hv (by decide) (by decide) (by decide)) (not_mem_tail (by decide) (by decide))
      (s.beforeEnd.head_sign (by decide) _) g₃ g₄ frames
  exact ⟨m, x, hfind, hkept, hends.group?_of_points hpoints hfind⟩

/-- The cycle is read by its idiom. -/
theorem read_cycle (h : s.value = .cycle base g₁ g₂ pace g₃ g₄ frames) (hfits : s.value.Fits) :
    (base.cycleIdiom v).read ⟨id, s.text v⟩ = some ⟨base.value id, some (pace.animation frames.value)⟩ := by
  obtain ⟨m, t, hm, hkept, hgroup⟩ := exists_find?_cycle hv h
  rw [h] at hfits
  obtain ⟨hbase, hpace, hframes⟩ := hfits
  have hcycling : ∀ b : Int, Remap.cycling b frames.value (s.text v) = ⟨b, some (pace.animation frames.value)⟩ := by
    intro b
    rw [text_cycle h]
    refine pace.cycling_eq hpace ⟨?_, ?_⟩ ⟨?_, ?_⟩ b frames.value
    · exact not_mem_front hv (by decide) (by decide) (by decide)
    · exact not_mem_front hv (by decide) (by decide) (by decide)
    all_goals simp (disch := decide) [Gap.not_mem, Decimal.not_mem, not_mem_tail]
  rw [RemapBase.read_cycleIdiom, hm, Option.bind_some, base.read?_eq hkept hbase, Option.bind_some,
    Match.word?_of_group hgroup hframes, Option.bind_some, hcycling]

/-- No literal stands where the cycle of a sprite itself begins. -/
theorem baseCycle_read_eq_none (h : s.value = .cycle .own g₁ g₂ pace g₃ g₄ frames) :
    (Remap.baseCycle v).read ⟨id, s.text v⟩ = none := by
  refine Idiom.read_of_find?_none ((find?_congr (Remap.readings_cycle v (group 1 digits) 2) _).trans ?_)
  refine AssignedText.find?_eq_none (a := s.assigned hv) hv.isName (unblank_digits 1).seq.seq (reads_cycle (reads_digits 1) 2)
    fun t rest kept hsplit ht => ?_
  obtain ⟨u, j, g, ys, x, ⟨hne, hall, -⟩, rfl, -⟩ := exists_of_cycleLanguage ht
  have hbegin : v.toList ++ _ = u ++ _ := (ending_cycle h).symm.trans (hsplit.trans (List.append_assoc u _ _))
  exact hv.ne_digits hne hall hbegin.symm

/-! ### Literals -/

/-- A literal by itself is read by the idiom for it. -/
theorem read_direct {n : Decimal} (h : s.value = .direct n) (hfits : s.value.Fits) :
    (Remap.direct v).read ⟨id, s.text v⟩ = some ⟨n.value, none⟩ := by
  have hreads : Reads (spaced [group 1 digits, char ';']) _ := (reads_digits 1).pair (reads_char ';')
  have hending : (s.assigned hv).ending = (n.digits ++ (s.beforeEnd.text ++ [';'])) ++ s.trail.text := by
    refine (ending_direct h).trans ?_
    simp [tail]
  obtain ⟨m, hm, hkept⟩ := AssignedText.exists_find?_kept hv.isName (unblank_digits 1).seq hreads hending
    (TextLanguage.spaced_of (TextLanguage.digits_self 1 n) s.beforeEnd (TextLanguage.just_self [';'])) (by
      rintro _ rest _ hsplit ⟨t, _, g, _, _, ⟨hne, hall, rfl⟩, ⟨rfl, rfl⟩, rfl, rfl⟩
      have hbegin := (ending_direct h).symm.trans hsplit
      rw [List.append_assoc, List.append_assoc] at hbegin
      obtain ⟨rfl, -⟩ := Decimal.eq_of_append hbegin hall (s.beforeEnd.head_sign (by decide) _) (g.head_sign (by decide) _)
      rfl)
  rw [h] at hfits
  have hint : m.integer? 1 = some (n.value : Int) := Match.integer?_of_group (by simp [Match.group?, hkept]) hfits
  have hfind : (spaced [assignTo v, group 1 digits, char ';']).find? (s.text v) = some m :=
    (find?_congr (readings_assignTo v (spaced [group 1 digits, char ';'])) _).trans hm
  show ((spaced [assignTo v, group 1 digits, char ';']).find? (s.text v)).bind (fun m => (m.integer? 1).map _) = _
  rw [hfind, Option.bind_some, hint]
  rfl

/-! ### Statements -/

/-- No idiom behind those of the shifts reads a shift. -/
theorem sizeless_read_eq_none {k : Shift} {a b : Decimal} (h : s.value = .shift k g₁ g₂ a g₃ g₄ b) :
    ∀ i ∈ Remap.sizeless v, i.read ⟨id, s.text v⟩ = none := by
  have hmodulo : '%' ∉ s.text v := by
    refine s.not_mem_text (by decide) (by decide) (hv.not_mem (by decide)) ?_
    rw [h]
    exact RemapExpression.not_mem_shift (by decide) (by decide) (hv.not_mem (by decide)) _ _ _ _ _ _ _ (by decide)
  have hdirect : (Remap.direct v).read ⟨id, s.text v⟩ = none := by
    refine Idiom.read_of_find?_none ((find?_congr (readings_assignTo v (spaced [group 1 digits, char ';'])) _).trans ?_)
    refine AssignedText.find?_eq_none (a := s.assigned hv) hv.isName (unblank_digits 1).seq ((reads_digits 1).pair (reads_char ';')) ?_
    rintro _ rest _ hsplit ⟨t, _, g, _, _, ⟨hne, hall, -⟩, ⟨rfl, rfl⟩, rfl, -⟩
    have hbegin : v.toList ++ _ = t ++ _ := (ending_shift h).symm.trans (hsplit.trans (List.append_assoc t _ _))
    exact hv.ne_digits hne hall hbegin.symm
  have hidentity : (Remap.identity v).read ⟨id, s.text v⟩ = none := by
    obtain ⟨m, hm, -⟩ := exists_find?_shift hv h
    exact (Remap.identity_read hv.isName _).1.mpr
      (Remap.knownAssigned_of_find? (Remap.assigning_spaced hv.isName (Remap.signless_variable hv.isName).seq) hm)
  have hlast : ∀ i ∈ [Remap.direct v, Remap.identity v], i.read ⟨id, s.text v⟩ = none := by
    rw [List.forall_mem_cons, List.forall_mem_singleton]
    exact ⟨hdirect, hidentity⟩
  rw [Remap.sizeless_eq]
  exact List.forall_mem_append.mpr ⟨Remap.cycles_read_eq_none hmodulo, hlast⟩

theorem firstMatch?_shift {k : Shift} {a b : Decimal} (h : s.value = .shift k g₁ g₂ a g₃ g₄ b) (hfits : s.value.Fits)
    (hid : id ≤ maxWord) : (Remap.chain v).firstMatch? ⟨id, s.text v⟩ = (s.value.remap? id).map fun r => (s.value.idiom, r) := by
  have hother : ∀ l, l ≠ k → Remap.literals? v l.first l.second (s.text v) = none := fun l hne => by
    rw [Remap.literals?, find?_other_shift hv h hne, Option.bind_none]
  have hliterals := literals?_shift hv h hfits
  have hrest : IdiomChain.firstMatch? ⟨"base_sprite", Remap.sizeless v⟩ ⟨id, s.text v⟩ = none :=
    IdiomChain.firstMatch?_eq_none (sizeless_read_eq_none hv h)
  rw [Remap.chain_eq, IdiomChain.firstMatch?_cons, IdiomChain.firstMatch?_cons, hrest, Option.or_none, Remap.read_raising,
    Remap.read_lowering hid, h]
  cases k with
  | raise =>
    have hlowering : Remap.literals? v '-' '+' (s.text v) = none := hother .lower (by decide)
    have hraising : Remap.literals? v '+' '-' (s.text v) = _ := hliterals
    rw [hraising, hlowering, Option.bind_some, Option.bind_none, Option.map_none, Option.or_none, ← Int.add_sub_assoc]
    rfl
  | lower =>
    have hraising : Remap.literals? v '+' '-' (s.text v) = none := hother .raise (by decide)
    have hlowering : Remap.literals? v '-' '+' (s.text v) = _ := hliterals
    have hsum : (id : Int) + (b.value - a.value) = id - a.value + b.value := by omega
    rw [hraising, hlowering, Option.bind_some, Option.bind_none, Option.map_none, Option.none_or, hsum]
    rfl

theorem firstMatch?_direct {n : Decimal} (h : s.value = .direct n) (hfits : s.value.Fits) :
    (Remap.chain v).firstMatch? ⟨id, s.text v⟩ = (s.value.remap? id).map fun r => (s.value.idiom, r) := by
  have hvalue : ∀ c, c.isDigit = false → c ∉ s.value.text v := fun c hc => by
    rw [h]
    exact Decimal.not_mem hc n
  have hminus := s.not_mem_text (c := '-') (by decide) (by decide) (hv.not_mem (by decide)) (hvalue _ (by decide))
  have hmodulo := s.not_mem_text (c := '%') (by decide) (by decide) (hv.not_mem (by decide)) (hvalue _ (by decide))
  have hread : (Remap.direct v).read ⟨id, s.text v⟩ = _ := read_direct hv h hfits
  rw [h]
  refine Remap.firstMatch?_of_read ([Remap.raising v, Remap.lowering v] ++ [Remap.baseCycle v, Remap.selfCycle v]) (Remap.direct v)
    [Remap.identity v] rfl ?_ hread
  exact List.forall_mem_append.mpr ⟨Remap.shifts_read_eq_none hminus, Remap.cycles_read_eq_none hmodulo⟩

theorem firstMatch?_cycle (h : s.value = .cycle base g₁ g₂ pace g₃ g₄ frames) (hfits : s.value.Fits) :
    (Remap.chain v).firstMatch? ⟨id, s.text v⟩ = (s.value.remap? id).map fun r => (s.value.idiom, r) := by
  have hminus : '-' ∉ s.text v := by
    have hpace := pace.not_mem_text (c := '-') (by decide) (by decide) (by decide)
    refine s.not_mem_text (by decide) (by decide) (hv.not_mem (by decide)) ?_
    rw [h]
    exact RemapExpression.not_mem_cycle (by decide) (by decide) (hv.not_mem (by decide)) _ _ _ _ _ _ hpace (by decide)
  have hshifts : ∀ i ∈ [Remap.raising v, Remap.lowering v], i.read ⟨id, s.text v⟩ = none := Remap.shifts_read_eq_none hminus
  have hread : (base.cycleIdiom v).read ⟨id, s.text v⟩ = _ := read_cycle hv h hfits
  rw [h]
  cases base with
  | literal n => exact Remap.firstMatch?_of_read [Remap.raising v, Remap.lowering v] (Remap.baseCycle v) _ rfl hshifts hread
  | own =>
    refine Remap.firstMatch?_of_read ([Remap.raising v, Remap.lowering v] ++ [Remap.baseCycle v]) (Remap.selfCycle v) _ rfl ?_ hread
    exact List.forall_mem_append.mpr ⟨hshifts, List.forall_mem_singleton.mpr (baseCycle_read_eq_none hv h)⟩

theorem firstMatch?_eq (hfits : s.value.Fits) (hid : id ≤ maxWord) :
    (Remap.chain v).firstMatch? ⟨id, s.text v⟩ = (s.value.remap? id).map fun r => (s.value.idiom, r) := by
  cases h : s.value with
  | shift => exact h ▸ firstMatch?_shift hv h hfits hid
  | direct => exact h ▸ firstMatch?_direct hv h hfits
  | cycle => exact h ▸ firstMatch?_cycle hv h hfits

end Search

/-- A statement whose literals are in range is read back: the chain of either sprite variable gives its remap, by the idiom meant for
    its shape, and gives nothing where the sums of a shift leave the range of integers. -/
theorem remap_read_back (s : RemapStatement) (hfits : s.value.Fits) (id : Nat) (hid : id ≤ maxWord) :
    Remap.characterChain.firstMatch? ⟨id, s.text "csprite"⟩ = (s.value.remap? id).map (fun r => (s.value.idiom, r)) ∧
      Remap.animatedChain.firstMatch? ⟨id, s.text "sprite"⟩ = (s.value.remap? id).map (fun r => (s.value.idiom, r)) :=
  ⟨firstMatch?_eq (Or.inl rfl) hfits hid, firstMatch?_eq (Or.inr rfl) hfits hid⟩

/-- `v = 20 + ((mn % MAPDX) + attick / 4) % 12;` -/
def positioned : RemapStatement where
  lead := .none
  beforeSign := .space
  afterSign := .space
  value := .cycle (.literal ⟨"20".toList, by decide, by decide⟩) .space .space
    (.steps (some ⟨.none, .none, .space, .space, .none, .space⟩) .space .space .space ⟨"4".toList, by decide, by decide⟩ .none)
    .space .space ⟨"12".toList, by decide, by decide⟩
  beforeEnd := .none
  trail := .none

/-- `v = v + 9223372036854775807 - 9;` -/
def overflowing : RemapStatement where
  lead := .none
  beforeSign := .space
  afterSign := .space
  value := .shift .raise .space .space ⟨"9223372036854775807".toList, by decide, by decide⟩ .space .space
    ⟨"9".toList, by decide, by decide⟩
  beforeEnd := .none
  trail := .none

theorem remap_read_back_positioned :
    positioned.text "sprite" = "sprite = 20 + ((mn % MAPDX) + attick / 4) % 12;".toList ∧
      Remap.animatedChain.firstMatch? ⟨50001, positioned.text "sprite"⟩ = some ("base-cycle", ⟨20, some (.positionCycle 12 4)⟩) ∧
      overflowing.text "csprite" = "csprite = csprite + 9223372036854775807 - 9;".toList ∧
      Remap.characterChain.firstMatch? ⟨0, overflowing.text "csprite"⟩ =
        some ("offset-plus-minus", ⟨9223372036854775798, none⟩) ∧
      Remap.characterChain.firstMatch? ⟨1, overflowing.text "csprite"⟩ = none :=
  ⟨by decide, (remap_read_back positioned (by decide) 50001 (by decide)).2, by decide,
    (remap_read_back overflowing (by decide) 0 (by decide)).1,
    (remap_read_back overflowing (by decide) 1 (by decide)).1⟩

end RemapStatement

end SpriteFacts
