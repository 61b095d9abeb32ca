import SpriteFacts.Proofs.Switch.Lines
import SpriteFacts.Variant.Channel
import SpriteFacts.Variant.Remap

/-! Assignments `V = K;` of a literal to a variable of the variant functions, and code that is such assignments
    with blanks between them. A pattern that begins with a word reads nothing in such code unless a variable
    and the word begin alike, and the pattern of an assignment finds the first one to its variable. -/

namespace SpriteFacts

open Switch Text Pattern

/-! ### Literals and variables -/

/-- A decimal literal with an optional minus sign, within the range of integers. -/
inductive Literal where
  | plain (n : Numeral 9223372036854775807)
  | minus (n : Numeral 9223372036854775808)

namespace Literal

def text : Literal → List Char
  | plain n => n.digits
  | minus n => '-' :: n.digits

def value : Literal → Int
  | plain n => n.value
  | minus n => -n.value

theorem integer?_eq (k : Literal) : integer? k.text = some k.value := by
  cases k with
  | plain n =>
    have hfits : (n.value : Int) ≤ maxInteger := Int.ofNat_le.mpr n.fits
    have hread : integer? n.digits = (digits? Char.isDigit 10 (dropPlus n.digits)).bind fun m => fitInteger? m :=
      integer?.eq_2 _ fun cs => n.head_ne (by decide) cs
    rw [text, hread, n.dropPlus_eq, n.digits?_eq, Option.bind_some, fitInteger?_eq_some]
    exact ⟨rfl, by unfold minInteger; omega, hfits⟩
  | minus n =>
    have hfits : (n.value : Int) ≤ 9223372036854775808 := Int.ofNat_le.mpr n.fits
    rw [text, integer?, n.digits?_eq, Option.bind_some, fitInteger?_eq_some]
    exact ⟨rfl, by unfold minInteger; omega, by unfold maxInteger; omega⟩

end Literal

/-- A variable that an animated variant sets. -/
inductive Variable where
  | channel (c : Channel)
  | sprite
  deriving DecidableEq

namespace Variable

def name : Variable → List Char
  | channel c => c.variableName.toList
  | sprite => "sprite".toList

def all : List Variable := sprite :: Channel.all.map channel

theorem mem_all (v : Variable) : v ∈ all := by
  cases v with
  | channel c => cases c <;> decide
  | sprite => decide

/-- What holds of every variable in the list holds of every variable. -/
theorem of_all {p : Variable → Bool} (h : all.all p = true) (v : Variable) : p v = true :=
  List.all_eq_true.mp h v v.mem_all

end Variable

/-- An assignment of a literal; the sprite takes no sign. -/
inductive Assignment where
  | channel (c : Channel) (k : Literal)
  | sprite (n : Numeral 9223372036854775807)

namespace Assignment

def target : Assignment → Variable
  | channel c _ => .channel c
  | sprite _ => .sprite

def literal : Assignment → Literal
  | channel _ k => k
  | sprite n => .plain n

def value (a : Assignment) : Int := a.literal.value

def text (a : Assignment) : List Char := a.target.name ++ ' ' :: '=' :: ' ' :: (a.literal.text ++ [';'])

end Assignment

/-! ### Characters of an assignment -/

def isNumeral (c : Char) : Bool := isDigit c || c == '-'

theorem Literal.all_isNumeral (k : Literal) : k.text.all isNumeral = true := by
  have hdigits : ∀ {limit : Nat} (n : Numeral limit), n.digits.all isNumeral = true := by
    intro limit n
    refine List.all_eq_true.mpr fun c hc => ?_
    rw [isNumeral, List.all_eq_true.mp n.all_isDigit c hc]
    rfl
  cases k with
  | plain n => exact hdigits n
  | minus n => exact hdigits n

theorem Literal.text_ne_nil (k : Literal) : k.text ≠ [] := by
  cases k with
  | plain n => exact n.nonempty
  | minus n => exact List.cons_ne_nil _ _

theorem not_isNumeral_of_isBlank {c : Char} (h : isBlank c = true) : isNumeral c = false := by
  rw [isNumeral, isDigit_of_isBlank h, Bool.false_or, beq_eq_false_iff_ne]
  rintro rfl
  exact absurd h (by decide)

theorem not_isBlank_of_isNumeral {c : Char} (h : isNumeral c = true) : isBlank c = false := by
  refine Bool.eq_false_iff.mpr fun hblank => ?_
  rw [not_isNumeral_of_isBlank hblank] at h
  cases h

theorem Variable.all_isWord : ∀ v : Variable, v.name.all isWord = true := of_all (by decide)

/-- The characters of an assignment besides its name and its digits. -/
def marks : List Char := [' ', '=', '-', ';']

namespace Assignment

theorem text_eq (a : Assignment) : a.text = a.target.name ++ ([' ', '=', ' '] ++ (a.literal.text ++ [';'])) := rfl

theorem not_mem_rest (a : Assignment) {c : Char} (hdigit : c.isDigit = false) (hmark : c ∉ marks) :
    c ∉ [' ', '=', ' '] ++ (a.literal.text ++ [';']) := by
  have hliteral : c ∉ a.literal.text := by
    cases a.literal with
    | plain n => exact n.not_mem hdigit
    | minus n =>
      intro h
      rcases List.mem_cons.mp h with rfl | h
      · exact hmark (by decide)
      · exact n.not_mem hdigit h
  simp only [marks, List.mem_cons, List.not_mem_nil, or_false, not_or] at hmark
  simp [hmark, hliteral]

theorem not_mem_text (a : Assignment) {c : Char} (hword : isWord c = false) (hdigit : c.isDigit = false) (hmark : c ∉ marks) :
    c ∉ a.text := by
  intro h
  rw [text_eq] at h
  rcases List.mem_append.mp h with h | h
  · rw [List.all_eq_true.mp a.target.all_isWord c h] at hword
    cases hword
  · exact a.not_mem_rest hdigit hmark h

end Assignment

/-! ### An assignment is known from its characters -/

theorem Literal.text_injective {k l : Literal} (h : k.text = l.text) : k = l := by
  cases k with
  | plain n =>
    cases l with
    | plain m =>
      cases n
      cases m
      cases h
      rfl
    | minus m => exact absurd h (n.head_ne (by decide) _)
  | minus n =>
    cases l with
    | plain m => exact absurd h.symm (m.head_ne (by decide) _)
    | minus m =>
      cases n
      cases m
      cases h
      rfl

theorem Variable.name_injective {v w : Variable} (h : v.name = w.name) : v = w := by
  have hpairs : ∀ v, (Variable.all.all fun w => v.name != w.name || decide (v = w)) = true := of_all (by decide)
  have hpair := of_all (hpairs v) w
  rw [h, bne_self_eq_false, Bool.false_or] at hpair
  exact of_decide_eq_true hpair

namespace Assignment

def bare (a : Assignment) : List Char := a.target.name ++ '=' :: (a.literal.text ++ [';'])

theorem filter_text (a : Assignment) : a.text.filter (fun c => !isBlank c) = a.bare := by
  have hname : a.target.name.filter (fun c => !isBlank c) = a.target.name := by
    refine List.filter_eq_self.mpr fun c hc => ?_
    rw [not_isBlank_of_isWord (List.all_eq_true.mp a.target.all_isWord c hc)]
    rfl
  have hliteral : a.literal.text.filter (fun c => !isBlank c) = a.literal.text := by
    refine List.filter_eq_self.mpr fun c hc => ?_
    rw [not_isBlank_of_isNumeral (List.all_eq_true.mp a.literal.all_isNumeral c hc)]
    rfl
  rw [text_eq, List.filter_append, List.filter_append, List.filter_append, hname, hliteral]
  rfl

/-- What begins with an assignment begins with no other. -/
theorem bare_unique {a b : Assignment} {xs ys : List Char} (h : a.bare ++ xs = b.bare ++ ys) : a = b ∧ xs = ys := by
  simp only [bare, List.append_assoc, List.cons_append, List.nil_append] at h
  have hequals : ∀ cs : List Char, ('=' :: cs).head?.all (fun c => !isWord c) = true := fun _ => rfl
  have hend : ∀ cs : List Char, (';' :: cs).head?.all (fun c => !isNumeral c) = true := fun _ => rfl
  obtain ⟨hname, hrest⟩ := span_unique h a.target.all_isWord b.target.all_isWord (hequals _) (hequals _)
  obtain ⟨hliteral, hbehind⟩ := span_unique (List.cons.inj hrest).2 a.literal.all_isNumeral b.literal.all_isNumeral
    (hend _) (hend _)
  have htarget := Variable.name_injective hname
  have hliteral := Literal.text_injective hliteral
  refine ⟨?_, (List.cons.inj hbehind).2⟩
  cases a <;> cases b <;> cases htarget <;> cases hliteral <;> rfl

end Assignment

/-! ### Words that no assignment begins with -/

/-- None of the words and the variable begin alike, and none begins like what stands behind the variable. -/
def foreign (ws : List (List Char)) (v : Variable) : Bool :=
  ws.all fun w => w.head?.any (fun c => !c.isDigit && !marks.contains c) && !w.isPrefixOf v.name && !v.name.isPrefixOf w

theorem Assignment.clear {ws : List (List Char)} {p : Pattern} (h : Begins ws p) (a : Assignment)
    (hforeign : foreign ws a.target = true) {behind : List Char} {last : Option Char} : p.Clear behind last a.text := by
  have hword : ∀ w ∈ ws, w.head?.any (fun c => !c.isDigit && !marks.contains c) = true ∧
      ¬w <+: a.target.name ∧ ¬a.target.name <+: w := by
    intro w hw
    have := List.all_eq_true.mp hforeign w hw
    simpa only [Bool.and_eq_true, Bool.not_eq_true', ← Bool.not_eq_true, List.isPrefixOf_iff_prefix, and_assoc] using this
  rw [text_eq]
  refine clear_append.mpr ⟨h.clear_of_word a.target.all_isWord fun w hw hpre => ?_, h.clear_of_not_mem fun w hw => ?_⟩
  · obtain ⟨-, hname, hname'⟩ := hword w hw
    rcases List.prefix_or_prefix_of_prefix hpre (List.prefix_append _ _) with hp | hp
    · exact hname hp
    · exact hname' hp
  · obtain ⟨hhead, -, -⟩ := hword w hw
    cases w with
    | nil => cases hhead
    | cons c w =>
      simp only [List.head?_cons, Option.any_some, Bool.and_eq_true, Bool.not_eq_true', List.contains_eq_mem,
        decide_eq_false_iff_not] at hhead
      exact decide_eq_true (a.not_mem_rest hhead.1 hhead.2)

theorem foreign_landmark (i : Landmark) : ∀ v : Variable, foreign [i.word] v = true := by
  cases i <;> exact Variable.of_all (by decide)

instance : Statement Assignment where
  text := Assignment.text
  clear a i _ _ _ := a.clear (Landmark.begins i) (foreign_landmark i a.target)
  ends a last _ := by
    rw [Assignment.text_eq, lastOf_append, lastOf_append, lastOf_append]
    exact show isWord ';' = false by decide
  simple a := by
    refine List.all_eq_true.mpr fun c hc => ?_
    have hnot : ∀ d : Char, isWord d = false → d.isDigit = false → d ∉ marks → (c != d) = true := by
      intro d h1 h2 h3
      rw [bne_iff_ne]
      rintro rfl
      exact a.not_mem_text h1 h2 h3 hc
    rw [hnot _ (by decide) (by decide) (by decide), hnot _ (by decide) (by decide) (by decide),
      hnot _ (by decide) (by decide) (by decide)]
    rfl

/-! ### The pattern of an assignment -/

/-- The assignment of what a pattern reads, with a character of a class behind it. -/
def assignmentOf (v : String) (p : Pattern) (ok : Char → Bool) : Pattern := spaced [assignTo v, group 1 p, one ok]

/-- The pattern reads literals. -/
def Numeric (p : Pattern) : Prop :=
  ∀ (last : Option Char) (cs : List Char) (r : Reading), r ∈ p.readings last cs →
    r.kept = [] ∧ r.text ≠ [] ∧ r.text.all isNumeral = true

section Reading
variable {v : String} {p : Pattern} {ok : Char → Bool} {last : Option Char} {cs : List Char} {r : Reading}

theorem mem_readings_assignmentOf (hv : v.toList.head?.any isWord = true) (hp : Numeric p)
    (hr : r ∈ (assignmentOf v p ok).readings last cs) : ∃ b1 b2 t b3 c rest,
      cs = v.toList ++ (b1 ++ '=' :: (b2 ++ (t ++ (b3 ++ c :: rest)))) ∧ b1.all isBlank = true ∧ b2.all isBlank = true ∧
      b3.all isBlank = true ∧ t ≠ [] ∧ t.all isNumeral = true ∧ ok c = true ∧ r.kept = [(1, t)] := by
  unfold assignmentOf at hr
  simp only [spaced, assignTo] at hr
  obtain ⟨a, ha, a', ha', rfl⟩ := mem_readings_seq.mp hr
  obtain ⟨x, hx, x', hx', rfl⟩ := mem_readings_seq.mp ha
  obtain ⟨-, rest1, rfl, rfl⟩ := (mem_readings_wordStart hv).mp hx
  obtain ⟨y, hy, y', hy', rfl⟩ := mem_readings_seq.mp hx'
  obtain ⟨b1, rest2, hrest1, hb1, rfl⟩ := mem_readings_run.mp hy
  obtain ⟨rest3, hrest2, rfl⟩ := mem_readings_char.mp hy'
  obtain ⟨z, hz, z', hz', rfl⟩ := mem_readings_seq.mp ha'
  obtain ⟨b2, rest4, hrest3, hb2, rfl⟩ := mem_readings_run.mp hz
  obtain ⟨w, hw, w', hw', rfl⟩ := mem_readings_seq.mp hz'
  obtain ⟨l, hl, rfl⟩ := mem_readings_group.mp hw
  obtain ⟨hkept, hne, hnum⟩ := hp _ _ _ hl
  have hsplit : rest4 = l.text ++ l.rest := split_of_mem hl
  obtain ⟨u, hu, u', hu', rfl⟩ := mem_readings_seq.mp hw'
  obtain ⟨b3, rest5, hrest5, hb3, rfl⟩ := mem_readings_run.mp hu
  obtain ⟨c, rest6, hrest6, hc, rfl⟩ := mem_readings_one.mp hu'
  simp only [Reading.append, Reading.keep] at hrest1 hrest2 hrest3 hrest5 hrest6
  refine ⟨b1, b2, l.text, b3, c, rest6, ?_, hb1, hb2, hb3, hne, hnum, hc, by simp [Reading.append, Reading.keep, hkept]⟩
  rw [hrest1, hrest2, hrest3, hsplit, hrest5, hrest6]

/-- The pattern reads the assignment of a literal that stands at its place, and keeps the literal. -/
theorem read?_assignmentOf (hv : v.toList.head?.any isWord = true) (hp : Numeric p) (hlast : last.any isWord = false)
    (hok : ∀ c, ok c = true → isNumeral c = false) (hsemicolon : ok ';' = true) {k : List Char} (hne : k ≠ [])
    (hk : k.all isNumeral = true)
    (hread : ∀ (last : Option Char) (rest : List Char), ⟨k, [], ';' :: rest⟩ ∈ p.readings last (k ++ ';' :: rest))
    (rest : List Char) :
    ∃ r, (assignmentOf v p ok).read? last (v.toList ++ ' ' :: '=' :: ' ' :: (k ++ ';' :: rest)) = some r ∧ r.kept = [(1, k)] := by
  have hblank : [' '].all isBlank = true := by decide
  -- The assignment itself is one reading, so there is a preferred one; it may end elsewhere.
  have hsome : (assignmentOf v p ok).read? last (v.toList ++ ' ' :: '=' :: ' ' :: (k ++ ';' :: rest)) ≠ none := by
    intro hnone
    refine read?_eq_none.mp hnone ⟨v.toList ++ ' ' :: '=' :: ' ' :: (k ++ [';']), [(1, k)], rest⟩ ?_
    unfold assignmentOf
    simp only [spaced, assignTo]
    refine mem_readings_seq.mpr ⟨⟨v.toList ++ ' ' :: ['='], [], ' ' :: (k ++ ';' :: rest)⟩, ?_,
      ⟨' ' :: (k ++ [';']), [(1, k)], rest⟩, ?_, by simp [Reading.append]⟩
    · refine mem_readings_seq.mpr ⟨_, (mem_readings_wordStart hv).mpr ⟨hlast, _, rfl, rfl⟩,
        ⟨' ' :: ['='], [], ' ' :: (k ++ ';' :: rest)⟩, ?_,
        by simp [Reading.append]⟩
      exact mem_readings_seq.mpr ⟨_, mem_readings_run.mpr ⟨[' '], _, rfl, hblank, rfl⟩, _,
        mem_readings_char.mpr ⟨_, rfl, rfl⟩, by simp [Reading.append]⟩
    · refine mem_readings_seq.mpr ⟨_, mem_readings_run.mpr ⟨[' '], _, rfl, hblank, rfl⟩, ⟨k ++ [';'], [(1, k)], rest⟩, ?_,
        by simp [Reading.append]⟩
      refine mem_readings_seq.mpr ⟨_, mem_readings_group.mpr ⟨_, hread _ rest, rfl⟩, ⟨[';'], [], rest⟩, ?_,
        by simp [Reading.append, Reading.keep]⟩
      exact mem_readings_seq.mpr ⟨_, mem_readings_run.mpr ⟨[], _, rfl, rfl, rfl⟩, _,
        mem_readings_one.mpr ⟨';', rest, rfl, hsemicolon, rfl⟩, by simp [Reading.append]⟩
  obtain ⟨r, hr⟩ := Option.ne_none_iff_exists'.mp hsome
  refine ⟨r, hr, ?_⟩
  obtain ⟨b1, b2, t, b3, c, rest', hsplit, hb1, hb2, hb3, htne, ht, hc, hkept⟩ := mem_readings_assignmentOf hv hp (mem_of_read? hr)
  -- The blanks end at the sign and at the literal, and the literal ends where its characters do.
  have hassign : [' '] ++ '=' :: ' ' :: (k ++ ';' :: rest) = b1 ++ '=' :: (b2 ++ (t ++ (b3 ++ c :: rest'))) :=
    List.append_cancel_left hsplit
  obtain ⟨-, hvalue⟩ := span_unique hassign hblank hb1 rfl rfl
  have hvalue' : [' '] ++ (k ++ ';' :: rest) = b2 ++ (t ++ (b3 ++ c :: rest')) := (List.cons.inj hvalue).2
  have hstart : ∀ {t cs : List Char}, t ≠ [] → t.all isNumeral = true → (t ++ cs).head?.all (fun c => !isBlank c) = true :=
    fun hne ht => head_outside (fun _ => not_isBlank_of_isNumeral) ht fun hnil => absurd hnil hne
  obtain ⟨-, hliteral⟩ := span_unique hvalue' hblank hb2 (hstart hne hk) (hstart htne ht)
  have hend : (b3 ++ c :: rest').head?.all (fun c => !isNumeral c) = true :=
    head_outside (fun _ => not_isNumeral_of_isBlank) hb3 fun _ => Bool.not_eq_true' _ ▸ hok c hc
  obtain ⟨rfl, -⟩ := span_unique hliteral hk ht (by rfl) hend
  exact hkept

end Reading

/-! ### Literals as the patterns read them -/

theorem numeric_digits : Numeric digits := by
  intro last cs r hr
  obtain ⟨t, rest, -, hne, hall, rfl⟩ := mem_readings_run1.mp hr
  refine ⟨rfl, hne, List.all_eq_true.mpr fun c hc => ?_⟩
  rw [isNumeral, List.all_eq_true.mp hall c hc]
  rfl

theorem numeric_signedDigits : Numeric signedDigits := by
  intro last cs r hr
  obtain ⟨a, ha, b, hb, rfl⟩ := mem_readings_seq.mp hr
  obtain ⟨hkept, hne, hall⟩ := numeric_digits _ _ _ hb
  rcases mem_readings_alt.mp ha with ha | ha
  · obtain ⟨rest, -, rfl⟩ := mem_readings_char.mp ha
    refine ⟨by simp [Reading.append, hkept], by simp [Reading.append], ?_⟩
    exact hall
  · obtain rfl := List.mem_singleton.mp ha
    exact ⟨by simp [Reading.append, hkept], hne, hall⟩

theorem read_digits {limit : Nat} (n : Numeral limit) (last : Option Char) (cs : List Char) :
    ⟨n.digits, [], cs⟩ ∈ digits.readings last (n.digits ++ cs) :=
  mem_readings_run1.mpr ⟨n.digits, cs, rfl, n.nonempty, n.all_isDigit, rfl⟩

theorem read_signedDigits (k : Literal) (last : Option Char) (cs : List Char) :
    ⟨k.text, [], cs⟩ ∈ signedDigits.readings last (k.text ++ cs) := by
  cases k with
  | plain n =>
    exact mem_readings_seq.mpr ⟨⟨[], [], n.digits ++ cs⟩, mem_readings_alt.mpr (Or.inr (List.mem_singleton_self _)), _,
      read_digits n _ cs, rfl⟩
  | minus n =>
    exact mem_readings_seq.mpr ⟨⟨['-'], [], n.digits ++ cs⟩, mem_readings_alt.mpr (Or.inl (mem_readings_char.mpr ⟨_, rfl, rfl⟩)), _,
      read_digits n _ cs, rfl⟩

end SpriteFacts
