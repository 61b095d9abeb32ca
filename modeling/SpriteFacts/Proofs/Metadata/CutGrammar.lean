import SpriteFacts.Metadata.Cut
import SpriteFacts.Proofs.Idiom.Grammar
import SpriteFacts.Proofs.Switch.Spelled

/-! The grammar of a cut. A return expression that states a cut is a literal or a sum of the sprite and a literal, by itself,
    cast to an integer or with its sign turned. Each of the nine idioms reads one form of these expressions and no other,
    so at most one of them reads a text and their order does not matter; and what the chain gives is the value of
    the expression for every sprite. -/

namespace SpriteFacts.Cut

open Text Pattern

/-! ### Expressions -/

/-- The sprite and a literal, joined by an operator. -/
structure Sum where
  before : Gap
  op : Operator .sum
  after : Gap
  literal : DigitRun

/-- What stands around a sum, with its blanks. -/
inductive Frame where
  | bare
  | cast (before after between inner outer : Gap)
  | negatedCast (gap before after between inner outer : Gap)
  | negated (gap inner outer : Gap)

/-- A return expression that states a cut. -/
inductive CutExpression where
  | literal (n : DigitRun)
  | sum (frame : Frame) (s : Sum)

def Sum.text (s : Sum) : List Char := "sprite".toList ++ (s.before.text ++ s.op.char :: (s.after.text ++ s.literal.digits))

def Frame.text (t : List Char) : Frame → List Char
  | bare => t
  | cast before after between inner outer => enclosed before "int".toList after ++ (between.text ++ enclosed inner t outer)
  | negatedCast gap before after between inner outer =>
    '-' :: (gap.text ++ (enclosed before "int".toList after ++ (between.text ++ enclosed inner t outer)))
  | negated gap inner outer => '-' :: (gap.text ++ enclosed inner t outer)

/-- The sign that a frame gives its sum. -/
def Frame.turns : Frame → Bool
  | bare | cast .. => false
  | negatedCast .. | negated .. => true

namespace CutExpression

def text : CutExpression → List Char
  | literal n => n.digits
  | sum frame s => frame.text s.text

def digits : CutExpression → List Char
  | literal n => n.digits
  | sum _ s => s.literal.digits

/-- The exact value for a sprite, the literal read in decimal. -/
def value (id : Nat) : CutExpression → Int
  | literal n => valueOf 10 n.digits
  | sum frame s =>
    let total : Int := match s.op with
      | .plus => id + valueOf 10 s.literal.digits
      | .minus => id - valueOf 10 s.literal.digits
    if frame.turns then -total else total

/-- The literal is written in ASCII, and the field that holds it can hold its value. -/
def Fits (e : CutExpression) : Prop :=
  e.digits.all Char.isDigit = true ∧ match e with
    | literal n => valueOf 10 n.digits ≤ maxWord
    | sum _ s => (valueOf 10 s.literal.digits : Int) ≤ maxInteger

/-- The cut that the expression states. -/
def cut : CutExpression → CutValue
  | literal n => .sprite (valueOf 10 n.digits)
  | sum frame s =>
    let n : Int := valueOf 10 s.literal.digits
    .relative (match s.op with | .plus => n | .minus => -n) frame.turns

end CutExpression

/-! ### Forms -/

/-- What a frame is, but for its blanks. -/
inductive FrameKind where
  | bare
  | cast
  | negatedCast
  | negated
  deriving DecidableEq

/-- What an idiom reads. -/
inductive Form where
  | literal
  | sum (frame : FrameKind) (op : Operator .sum)

def Frame.kind : Frame → FrameKind
  | bare => .bare
  | cast .. => .cast
  | negatedCast .. => .negatedCast
  | negated .. => .negated

def CutExpression.form : CutExpression → Form
  | literal _ => .literal
  | sum frame s => .sum frame.kind s.op

namespace Form

def name : Form → String
  | sum .negatedCast .plus => "neg-cast-plus"
  | sum .negatedCast .minus => "neg-cast-minus"
  | sum .cast .plus => "cast-plus"
  | sum .cast .minus => "cast-minus"
  | sum .bare .plus => "plus"
  | sum .bare .minus => "minus"
  | sum .negated .plus => "neg-paren-plus"
  | sum .negated .minus => "neg-paren-minus"
  | literal => "literal"

/-- The pattern of a form, which has to cover the whole text. -/
def inner : Form → Pattern
  | sum .bare op => Cut.sum op.char
  | sum .cast op => spaced [intCast, inParens (Cut.sum op.char)]
  | sum .negatedCast op => spaced [char '-', intCast, inParens (Cut.sum op.char)]
  | sum .negated op => spaced [char '-', inParens (Cut.sum op.char)]
  | literal => group 1 digits

def pattern (f : Form) : Pattern := whole f.inner

def read : Form → Match → Scope → Option CutValue
  | sum .bare op | sum .cast op => sumValue op.char false
  | sum .negatedCast op | sum .negated op => sumValue op.char true
  | literal => fun m _ => (m.word? 1).map .sprite

def idiom (f : Form) : Idiom CutValue := .ofPattern f.name f.pattern f.read

/-- The forms in the order of their idioms. -/
def all : List Form :=
  [sum .negatedCast .plus, sum .negatedCast .minus, sum .cast .plus, sum .cast .minus, sum .bare .plus, sum .bare .minus,
   sum .negated .plus, sum .negated .minus, literal]

end Form

theorem idioms_eq : chain.idioms = Form.all.map Form.idiom := rfl

/-! ### The language of a form -/

/-- The texts of the expressions of a form, with their digits kept. -/
def Form.language (f : Form) : TextLanguage := fun t kept =>
  ∃ e : CutExpression, e.form = f ∧ t = e.text ∧ kept = [(1, e.digits)]

def sumLanguage (op : Operator .sum) : TextLanguage := fun t kept =>
  ∃ s : Sum, s.op = op ∧ t = s.text ∧ kept = [(1, s.literal.digits)]

def enclosedLanguage (L : TextLanguage) : TextLanguage := fun t kept =>
  ∃ (inner : Gap) (u : List Char) (outer : Gap), L u kept ∧ t = enclosed inner u outer

theorem reads_sum (op : Operator .sum) : Reads (Cut.sum op.char) (sumLanguage op) := by
  refine ((reads_literal "sprite").spaced ((reads_char op.char).pair (reads_digits 1))).congr fun t kept => ?_
  constructor
  · rintro ⟨_, _, before, _, _, ⟨rfl, rfl⟩, ⟨_, _, after, n, _, ⟨rfl, rfl⟩, ⟨hne, hall, rfl⟩, rfl, rfl⟩, rfl, rfl⟩
    exact ⟨⟨before, op, after, ⟨n, hne, hall⟩⟩, rfl, rfl, rfl⟩
  · rintro ⟨⟨before, _, after, ⟨n, hne, hall⟩⟩, rfl, rfl, rfl⟩
    exact ⟨_, _, before, _, _, ⟨rfl, rfl⟩, ⟨_, _, after, n, _, ⟨rfl, rfl⟩, ⟨hne, hall, rfl⟩, rfl, rfl⟩, rfl, rfl⟩

section Enclosed
variable {p : Pattern} {L : TextLanguage}

theorem reads_inParens (h : Reads p L) : Reads (inParens p) (enclosedLanguage L) := by
  refine ((reads_char '(').spaced (h.pair (reads_char ')'))).congr fun t kept => ?_
  constructor
  · rintro ⟨_, _, inner, _, _, ⟨rfl, rfl⟩, ⟨u, k, outer, _, _, hu, ⟨rfl, rfl⟩, rfl, rfl⟩, rfl, rfl⟩
    exact ⟨inner, u, outer, by simpa using hu, rfl⟩
  · rintro ⟨inner, u, outer, hu, rfl⟩
    exact ⟨_, _, inner, _, _, ⟨rfl, rfl⟩, ⟨u, kept, outer, _, _, hu, ⟨rfl, rfl⟩, rfl, rfl⟩, rfl, by simp⟩

/-- The texts of a language in a frame of a kind. -/
def framed (kind : FrameKind) (L : TextLanguage) : TextLanguage := fun t kept =>
  ∃ frame : Frame, frame.kind = kind ∧ ∃ u, L u kept ∧ t = frame.text u

theorem reads_cast (h : Reads p L) : Reads (spaced [intCast, inParens p]) (framed .cast L) := by
  refine ((reads_inParens (reads_literal "int")).pair (reads_inParens h)).congr fun t kept => ?_
  constructor
  · rintro ⟨_, _, between, _, _, ⟨before, _, after, ⟨rfl, rfl⟩, rfl⟩, ⟨inner, u, outer, hu, rfl⟩, rfl, rfl⟩
    exact ⟨.cast before after between inner outer, rfl, u, by simpa using hu, rfl⟩
  · rintro ⟨frame, hkind, u, hu, rfl⟩
    cases frame with
    | cast before after between inner outer =>
      exact ⟨_, _, between, _, _, ⟨before, _, after, ⟨rfl, rfl⟩, rfl⟩, ⟨inner, u, outer, hu, rfl⟩, rfl, by simp⟩
    | bare | negatedCast _ _ _ _ _ _ | negated _ _ _ => cases hkind

theorem reads_negatedCast (h : Reads p L) : Reads (spaced [char '-', intCast, inParens p]) (framed .negatedCast L) := by
  refine ((reads_char '-').spaced (reads_cast h)).congr fun t kept => ?_
  constructor
  · rintro ⟨_, _, gap, _, _, ⟨rfl, rfl⟩, ⟨frame, hkind, u, hu, rfl⟩, rfl, rfl⟩
    cases frame with
    | cast before after between inner outer =>
      exact ⟨.negatedCast gap before after between inner outer, rfl, u, by simpa using hu, rfl⟩
    | bare | negatedCast _ _ _ _ _ _ | negated _ _ _ => cases hkind
  · rintro ⟨frame, hkind, u, hu, rfl⟩
    cases frame with
    | negatedCast gap before after between inner outer =>
      exact ⟨_, _, gap, _, _, ⟨rfl, rfl⟩, ⟨.cast before after between inner outer, rfl, u, hu, rfl⟩, rfl, by simp⟩
    | bare | cast _ _ _ _ _ | negated _ _ _ => cases hkind

theorem reads_negated (h : Reads p L) : Reads (spaced [char '-', inParens p]) (framed .negated L) := by
  refine ((reads_char '-').pair (reads_inParens h)).congr fun t kept => ?_
  constructor
  · rintro ⟨_, _, gap, _, _, ⟨rfl, rfl⟩, ⟨inner, u, outer, hu, rfl⟩, rfl, rfl⟩
    exact ⟨.negated gap inner outer, rfl, u, by simpa using hu, rfl⟩
  · rintro ⟨frame, hkind, u, hu, rfl⟩
    cases frame with
    | negated gap inner outer => exact ⟨_, _, gap, _, _, ⟨rfl, rfl⟩, ⟨inner, u, outer, hu, rfl⟩, rfl, by simp⟩
    | bare | cast _ _ _ _ _ | negatedCast _ _ _ _ _ _ => cases hkind

theorem reads_bare (h : Reads p L) : Reads p (framed .bare L) := by
  refine h.congr fun t kept => ⟨fun ht => ⟨.bare, rfl, t, ht, rfl⟩, ?_⟩
  rintro ⟨frame, hkind, u, hu, rfl⟩
  cases frame with
  | bare => exact hu
  | cast _ _ _ _ _ | negatedCast _ _ _ _ _ _ | negated _ _ _ => cases hkind

end Enclosed

theorem reads_inner (f : Form) : Reads f.inner f.language := by
  cases f with
  | literal =>
    refine (reads_digits 1).congr fun t kept => ⟨?_, ?_⟩
    · rintro ⟨hne, hall, rfl⟩
      exact ⟨.literal ⟨t, hne, hall⟩, rfl, rfl, rfl⟩
    · rintro ⟨e, he, rfl, rfl⟩
      cases e with
      | literal n => exact ⟨n.nonempty, n.all_isDigit, rfl⟩
      | sum frame s => cases he
  | sum kind op =>
    have hframed : Reads (Form.sum kind op).inner (framed kind (sumLanguage op)) := by
      cases kind with
      | bare => exact reads_bare (reads_sum op)
      | cast => exact reads_cast (reads_sum op)
      | negatedCast => exact reads_negatedCast (reads_sum op)
      | negated => exact reads_negated (reads_sum op)
    refine hframed.congr fun t kept => ⟨?_, ?_⟩
    · rintro ⟨frame, rfl, _, ⟨s, rfl, rfl, rfl⟩, rfl⟩
      exact ⟨.sum frame s, rfl, rfl, rfl⟩
    · rintro ⟨e, he, rfl, rfl⟩
      cases e with
      | literal n => cases he
      | sum frame s =>
        obtain ⟨rfl, rfl⟩ := Form.sum.inj he
        exact ⟨frame, rfl, _, ⟨s, rfl, rfl, rfl⟩, rfl⟩

/-! ### One form for a text -/

/-- What a frame puts in front of its sum, without blanks. -/
def FrameKind.opening : FrameKind → List Char
  | bare => []
  | cast => ['(', 'i', 'n', 't', ')', '(']
  | negatedCast => ['-', '(', 'i', 'n', 't', ')', '(']
  | negated => ['-', '(']

def FrameKind.closing : FrameKind → List Char
  | bare => []
  | cast | negatedCast | negated => [')']

theorem solid_eq_self {t : List Char} (h : t.all (fun c => !isBlank c) = true) : Switch.solid t = t :=
  List.filter_eq_self.mpr (List.all_eq_true.mp h)

theorem solid_digits (n : DigitRun) : Switch.solid n.digits = n.digits :=
  solid_eq_self <| List.all_eq_true.mpr fun c hc => by
    rw [not_isBlank_of_isDigit (List.all_eq_true.mp n.all_isDigit c hc)]
    rfl

theorem solid_cons {c : Char} (h : isBlank c = false) (t : List Char) : Switch.solid (c :: t) = c :: Switch.solid t :=
  List.filter_cons_of_pos (by rw [h]; rfl)

theorem solid_enclosed (inner outer : Gap) (t : List Char) :
    Switch.solid (enclosed inner t outer) = '(' :: (Switch.solid t ++ [')']) := by
  rw [enclosed, solid_cons (by decide), Switch.solid_append, Switch.solid_of_blank inner.blank, Switch.solid_append,
    Switch.solid_append, Switch.solid_of_blank outer.blank, solid_cons (by decide)]
  rfl

theorem Sum.solid (s : Sum) : Switch.solid s.text = "sprite".toList ++ s.op.char :: s.literal.digits := by
  have hop : isBlank s.op.char = false := by cases s.op <;> decide
  have hname : Switch.solid "sprite".toList = "sprite".toList := by decide
  show Switch.solid ("sprite".toList ++ (s.before.text ++ s.op.char :: (s.after.text ++ s.literal.digits))) = _
  rw [Switch.solid_append, Switch.solid_append, Switch.solid_of_blank s.before.blank, solid_cons hop,
    Switch.solid_append, Switch.solid_of_blank s.after.blank, solid_digits s.literal, hname]
  rfl

theorem solid_frame (frame : Frame) (t : List Char) :
    Switch.solid (frame.text t) = frame.kind.opening ++ (Switch.solid t ++ frame.kind.closing) := by
  have hminus : isBlank '-' = false := by decide
  have hint : Switch.solid "int".toList = "int".toList := by decide
  cases frame with
  | bare => exact (List.append_nil _).symm
  | cast before after between inner outer =>
    rw [Frame.text, Switch.solid_append, Switch.solid_append, Switch.solid_of_blank between.blank, solid_enclosed,
      solid_enclosed, hint]
    rfl
  | negatedCast gap before after between inner outer =>
    rw [Frame.text, solid_cons hminus, Switch.solid_append, Switch.solid_append, Switch.solid_append,
      Switch.solid_of_blank gap.blank, Switch.solid_of_blank between.blank, solid_enclosed, solid_enclosed, hint]
    rfl
  | negated gap inner outer =>
    rw [Frame.text, solid_cons hminus, Switch.solid_append, Switch.solid_of_blank gap.blank, solid_enclosed]
    rfl

/-- The opening of a frame is known from the text up to the sprite. -/
theorem opening_unique {k k' : FrameKind} {xs ys : List Char}
    (h : k.opening ++ ("sprite".toList ++ xs) = k'.opening ++ ("sprite".toList ++ ys)) : k = k' ∧ xs = ys := by
  cases k <;> cases k' <;> simp [FrameKind.opening] at h ⊢ <;> exact h

theorem operator_unique {op op' : Operator .sum} {xs ys : List Char} (h : op.char :: xs = op'.char :: ys) :
    op = op' ∧ xs = ys := by
  obtain ⟨hchar, hrest⟩ := List.cons.inj h
  refine ⟨?_, hrest⟩
  cases op <;> cases op' <;> first | rfl | exact absurd hchar (by decide)

namespace CutExpression

theorem solid_sum (frame : Frame) (s : Sum) : Switch.solid (sum frame s).text =
    frame.kind.opening ++ ("sprite".toList ++ (s.op.char :: (s.literal.digits ++ frame.kind.closing))) := by
  rw [text, solid_frame, s.solid, List.append_assoc]
  rfl

theorem literal_ne_sum (n : DigitRun) (frame : Frame) (s : Sum) : (literal n).text ≠ (sum frame s).text := fun h => by
  have hsolid : n.digits = _ := (solid_digits n).symm.trans ((congrArg Switch.solid h).trans (solid_sum frame s))
  have hmem : 's' ∈ n.digits := by
    rw [hsolid]
    exact List.mem_append_right _ (List.mem_append_left _ (by decide))
  exact absurd (List.all_eq_true.mp n.all_isDigit _ hmem) (by decide)

/-- A text is an expression of one form, with one literal. -/
theorem form_unique {e e' : CutExpression} (h : e.text = e'.text) : e.form = e'.form ∧ e.digits = e'.digits := by
  have hsolid := congrArg Switch.solid h
  cases e with
  | literal n =>
    cases e' with
    | literal n' => exact ⟨rfl, h⟩
    | sum frame' s' => exact absurd h (literal_ne_sum n frame' s')
  | sum frame s =>
    cases e' with
    | literal n' => exact absurd h.symm (literal_ne_sum n' frame s)
    | sum frame' s' =>
      rw [solid_sum, solid_sum] at hsolid
      obtain ⟨hkind, htail⟩ := opening_unique hsolid
      obtain ⟨hop, hdigits⟩ := operator_unique htail
      rw [hkind] at hdigits
      exact ⟨congrArg₂ Form.sum hkind hop, List.append_cancel_right hdigits⟩

end CutExpression

/-! ### What an idiom gives -/

namespace CutExpression

/-- What the idiom of the form gives. -/
def states : CutExpression → Option CutValue
  | literal n => (word? n.digits).map .sprite
  | sum frame s => (integer? s.literal.digits).map fun n => .relative (if s.op.char = '-' then -n else n) frame.turns

/-- An expression states its cut if it fits. -/
theorem states_eq_some {e : CutExpression} {v : CutValue} : e.states = some v ↔ e.Fits ∧ v = e.cut := by
  unfold Fits
  rw [and_assoc]
  cases e with
  | literal n =>
    rw [states, Option.map_eq_some_iff]
    constructor
    · rintro ⟨k, hk, rfl⟩
      obtain ⟨hascii, hle, rfl⟩ := n.word?_eq_some.mp hk
      exact ⟨hascii, hle, rfl⟩
    · rintro ⟨hascii, hle, rfl⟩
      exact ⟨_, n.word?_eq_some.mpr ⟨hascii, hle, rfl⟩, rfl⟩
  | sum frame s =>
    have hcut : CutValue.relative (if s.op.char = '-' then -(valueOf 10 s.literal.digits : Int) else valueOf 10 s.literal.digits)
        frame.turns = (sum frame s).cut := by
      rw [cut]
      cases s.op <;> rfl
    rw [states, Option.map_eq_some_iff, ← hcut]
    constructor
    · rintro ⟨k, hk, rfl⟩
      obtain ⟨hascii, hle, rfl⟩ := s.literal.integer?_eq_some.mp hk
      exact ⟨hascii, hle, rfl⟩
    · rintro ⟨hascii, hle, rfl⟩
      exact ⟨_, s.literal.integer?_eq_some.mpr ⟨hascii, hle, rfl⟩, rfl⟩

end CutExpression

theorem gives {e : CutExpression} {m : Match} (s : Scope) (hm : m.kept = [(1, e.digits)]) : e.form.read m s = e.states := by
  have hgroup : m.group? 1 = some e.digits := by rw [Match.group?, hm]; rfl
  cases e with
  | literal n =>
    show (m.word? 1).map CutValue.sprite = _
    rw [Match.word?, hgroup]
    rfl
  | sum frame u =>
    have hread : (CutExpression.sum frame u).form.read m s = sumValue u.op.char frame.turns m s := by cases frame <;> rfl
    rw [hread, sumValue, Match.integer?, hgroup]
    rfl

/-- The grammar of cuts, with what each expression states. -/
def grammar : Grammar CutExpression Form CutValue where
  text := CutExpression.text
  form := CutExpression.form
  kept e := [(1, e.digits)]
  states := CutExpression.states
  name := Form.name
  inner := Form.inner
  read := Form.read
  reads := reads_inner
  unique h := by
    obtain ⟨hform, hdigits⟩ := CutExpression.form_unique h
    rw [hdigits]
    exact ⟨hform, rfl⟩
  gives := gives

theorem Form.read_eq_some (f : Form) {s : Scope} {v : CutValue} :
    f.idiom.read s = some v ↔ ∃ e : CutExpression, e.form = f ∧ e.text = s.code ∧ e.Fits ∧ v = e.cut :=
  (grammar.read_eq_some f).trans
    (exists_congr fun _ => and_congr_right fun _ => and_congr_right fun _ => CutExpression.states_eq_some)

/-! ### What the chain gives -/

theorem Form.mem_all (f : Form) : f ∈ Form.all := by
  cases f with
  | literal => simp [all]
  | sum kind op => cases kind <;> cases op <;> simp [all]

theorem Form.eq_of_occursIn {f g : Form} {code : List Char} (hf : f.pattern.occursIn code = true)
    (hg : g.pattern.occursIn code = true) : f = g := grammar.eq_of_occursIn hf hg

theorem idioms_apart (s : Scope) : IdiomChain.Apart chain.idioms s := grammar.apart Form.all s

theorem CutExpression.resolve_cut (e : CutExpression) (id : Nat) : e.cut.resolve id = e.value id := by
  cases e with
  | literal n => rfl
  | sum frame s => cases frame <;> cases hop : s.op <;> simp [cut, value, CutValue.resolve, Frame.turns, hop] <;> omega

/-- The chain gives a cut exactly for the expressions of its grammar whose literal fits, and it is their value for every
    sprite. No two of its idioms occur in one text, and in any other order they give the same. -/
theorem cut_chain_exact (s : Scope) :
    (∀ v, chain.value? s = some v ↔ ∃ e : CutExpression, e.text = s.code ∧ e.Fits ∧ v = e.cut) ∧
    (∀ (e : CutExpression) (id : Nat), e.cut.resolve id = e.value id) ∧
    chain.idioms = Form.all.map Form.idiom ∧
    (∀ f g : Form, f.pattern.occursIn s.code = true → g.pattern.occursIn s.code = true → f = g) ∧
    ∀ idioms : List (Idiom CutValue), idioms.Perm chain.idioms →
      IdiomChain.firstMatch? ⟨chain.field, idioms⟩ s = chain.firstMatch? s := by
  refine ⟨fun v => ?_, CutExpression.resolve_cut, idioms_eq, fun f g => Form.eq_of_occursIn,
    fun idioms same => IdiomChain.firstMatch?_perm (idioms_apart s) same⟩
  constructor
  · intro h
    obtain ⟨i, hi, hread⟩ := IdiomChain.exists_of_value? h
    obtain ⟨f, -, rfl⟩ := List.mem_map.mp (idioms_eq ▸ hi)
    obtain ⟨e, -, he⟩ := f.read_eq_some.mp hread
    exact ⟨e, he⟩
  · rintro ⟨e, he⟩
    have hi : e.form.idiom ∈ chain.idioms := idioms_eq ▸ List.mem_map_of_mem e.form.mem_all
    have hfirst := (IdiomChain.firstMatch?_of_apart (idioms_apart s)).mpr ⟨_, hi, rfl, e.form.read_eq_some.mpr ⟨e, rfl, he⟩⟩
    rw [IdiomChain.value?, hfirst]
    rfl

/-- Zero is a cut like any other. -/
example : chain.value? ⟨7, "0".toList⟩ = some (.sprite 0) := by decide

end SpriteFacts.Cut
