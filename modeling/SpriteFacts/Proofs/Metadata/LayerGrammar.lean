import SpriteFacts.Proofs.Expression.Unambiguous
import SpriteFacts.Proofs.Idiom.Grammar
import SpriteFacts.Proofs.Metadata.PixelAxes
import SpriteFacts.Metadata.Layer
import SpriteFacts.Proofs.Switch.FunctionHead
import SpriteFacts.Proofs.Variant.AssignedExpression

/-! The grammar of a layer. A return expression that states a layer is a literal, or the name of a constant, alone or less a
    literal. A text is one such expression at most, and each of the three idioms reads one form of them, so no text is
    read by two idioms; the chain gives the expression of the text if its literal is within the range of integers. -/

namespace SpriteFacts

open Switch Text Pattern

/-! ### Expressions -/

namespace Layer

/-- The name of a constant. -/
@[ext] structure ConstantName where
  text : List Char
  isName : IsName text

/-- A return expression that states a layer. -/
inductive LayerExpression where
  | literal (negative : Bool) (n : DigitRun)
  | constant (name : ConstantName)
  | difference (name : ConstantName) (before after : Gap) (n : DigitRun)

def ConstantName.string (name : ConstantName) : String := String.ofList name.text

namespace LayerExpression

def text : LayerExpression → List Char
  | literal negative n => if negative then '-' :: n.digits else n.digits
  | constant name => name.text
  | difference name before after n => name.text ++ (before.text ++ '-' :: (after.text ++ n.digits))

/-- The constant that is named, if one is. -/
def name? : LayerExpression → Option ConstantName
  | literal .. => none
  | constant name | difference name .. => some name

/-- What is taken from the constant. -/
def minus : LayerExpression → Nat
  | literal .. | constant _ => 0
  | difference _ _ _ n => valueOf 10 n.digits

def literalValue (negative : Bool) (n : DigitRun) : Int := if negative then -(valueOf 10 n.digits : Int) else valueOf 10 n.digits

/-- The literal is written in ASCII and is within the range of integers, by itself. -/
def Fits : LayerExpression → Prop
  | literal negative n => n.digits.all Char.isDigit = true ∧ minInteger ≤ literalValue negative n ∧ literalValue negative n ≤ maxInteger
  | constant _ => True
  | difference _ _ _ n => n.digits.all Char.isDigit = true ∧ (valueOf 10 n.digits : Int) ≤ maxInteger

/-- The expression as the idioms give it. -/
def meaning : LayerExpression → LayerExpr
  | literal negative n => .literal (literalValue negative n)
  | constant name => .constant name.string 0
  | difference name _ _ n => .constant name.string (valueOf 10 n.digits)

/-- What the idiom of the form gives. -/
def states : LayerExpression → Option LayerExpr
  | literal negative n => (integer? (literal negative n).text).map .literal
  | constant name => some (.constant name.string 0)
  | difference name _ _ n => (integer? n.digits).map fun minus => .constant name.string minus

end LayerExpression

/-! ### Forms -/

/-- What an idiom reads. -/
inductive Form where
  | literal
  | difference
  | constant
  deriving DecidableEq

namespace Form

def idiomName : Form → String
  | literal => "literal"
  | difference => "constant-minus-literal"
  | constant => "constant"

/-- The pattern of a form, which has to cover the whole text. -/
def inner : Form → Pattern
  | literal => group 1 signedDigits
  | difference => spaced [group 1 name, char '-', group 2 digits]
  | constant => group 1 name

def pattern (f : Form) : Pattern := whole f.inner

def read : Form → Match → Scope → Option LayerExpr
  | literal => fun m _ => (m.integer? 1).map .literal
  | difference => fun m _ => (m.integer? 2).map fun minus => .constant (String.ofList (m.group 1)) minus
  | constant => fun m _ => some (.constant (String.ofList (m.group 1)) 0)

/-- The forms in the order of their idioms. -/
def all : List Form := [literal, difference, constant]

theorem mem_all (f : Form) : f ∈ all := by cases f <;> decide

end Form

namespace LayerExpression

def form : LayerExpression → Form
  | literal .. => .literal
  | constant _ => .constant
  | difference .. => .difference

def kept : LayerExpression → List (Nat × List Char)
  | literal negative n => [(1, (literal negative n).text)]
  | constant name => [(1, name.text)]
  | difference name _ _ n => [(2, n.digits), (1, name.text)]

/-! ### One expression for a text -/

theorem minus_not_mem (name : ConstantName) : '-' ∉ name.text := fun h =>
  absurd (List.all_eq_true.mp name.isName.2 _ h) (by decide)

/-- A literal begins like no name. -/
theorem literal_ne_named (negative : Bool) (n : DigitRun) (name : ConstantName) (rest : List Char) :
    (literal negative n).text ≠ name.text ++ rest := by
  intro h
  obtain ⟨hstart, -⟩ := name.isName
  cases hname : name.text with
  | nil =>
    rw [hname] at hstart
    cases hstart
  | cons c cs =>
    rw [hname] at h hstart
    have hc : isNameStart c = true := hstart
    cases negative with
    | true =>
      obtain ⟨rfl, -⟩ := List.cons.inj h
      exact absurd hc (by decide)
    | false =>
      have hdigit : isDigit c = true := List.all_eq_true.mp n.all_isDigit c (by rw [show n.digits = c :: (cs ++ rest) from h]; exact List.mem_cons_self)
      have hnumeral : isNumeral c = true := by rw [isNumeral, hdigit]; rfl
      rw [not_isNumeral_of_isNameStart hc] at hnumeral
      cases hnumeral

theorem text_injective {e e' : LayerExpression} (h : e.text = e'.text) : e = e' := by
  have hconstant : ∀ {name name' : ConstantName} {before after : Gap} {n : DigitRun},
      (constant name).text ≠ (difference name' before after n).text := fun {name name' before after n} h => by
    refine minus_not_mem name ?_
    rw [show name.text = _ from h]
    exact List.mem_append_right _ (List.mem_append_right _ List.mem_cons_self)
  cases e with
  | literal negative n =>
    cases e' with
    | literal negative' n' =>
      cases negative <;> cases negative'
      · exact congrArg (literal false) (DigitRun.ext h)
      · exact absurd h (n.head_ne (by decide) _)
      · exact absurd h.symm (n'.head_ne (by decide) _)
      · exact congrArg (literal true) (DigitRun.ext (List.cons.inj h).2)
    | constant name => exact absurd (h.trans (List.append_nil _).symm) (literal_ne_named negative n name [])
    | difference name before after n' => exact absurd h (literal_ne_named negative n name _)
  | constant name =>
    cases e' with
    | literal negative n => exact absurd (h.symm.trans (List.append_nil _).symm) (literal_ne_named negative n name [])
    | constant name' => exact congrArg constant (ConstantName.ext h)
    | difference name' before after n => exact absurd h hconstant
  | difference name before after n =>
    cases e' with
    | literal negative n' => exact absurd h.symm (literal_ne_named negative n' name _)
    | constant name' => exact absurd h.symm hconstant
    | difference name' before' after' n' =>
      have hfront : '-' ∉ name.text ++ before.text := by
        simp [minus_not_mem, Gap.not_mem (c := '-') (by decide)]
      have hbehind : '-' ∉ after.text ++ n.digits := by
        simp [Gap.not_mem (c := '-') (by decide), show '-' ∉ n.digits from fun h => absurd (List.all_eq_true.mp n.all_isDigit _ h) (by decide)]
      have hsplit : (name.text ++ before.text) ++ '-' :: (after.text ++ n.digits) =
          (name'.text ++ before'.text) ++ '-' :: (after'.text ++ n'.digits) := by simpa [text] using h
      obtain ⟨hnames, hdigits⟩ := split_once hfront hbehind hsplit
      have hend : ∀ g : Gap, g.text.head?.all (fun c => !isWord c) = true := fun g => by
        have hgap := head_outside (fun _ => isWord_of_isBlank) g.blank fun _ => show ([] : List Char).head?.all (fun c => !isWord c) = true from rfl
        rwa [List.append_nil] at hgap
      obtain ⟨hname, hbefore⟩ := span_unique hnames name.isName.2 name'.isName.2 (hend before) (hend before')
      have hstart : ∀ n : DigitRun, n.digits.head?.all (fun c => !isBlank c) = true := fun n => by
        have hdigits := head_digits n.nonempty n.all_isDigit []
        rwa [List.append_nil] at hdigits
      obtain ⟨rfl, hn⟩ := Gap.eq_of_append hdigits (hstart n) (hstart n')
      rw [ConstantName.ext hname, Gap.ext hbefore, DigitRun.ext hn]

theorem states_eq_some {e : LayerExpression} {x : LayerExpr} : e.states = some x ↔ e.Fits ∧ x = e.meaning := by
  cases e with
  | literal negative n =>
    have hliteral : ∀ {k : Int}, integer? (literal negative n).text = some k ↔ (literal negative n).Fits ∧ literalValue negative n = k := by
      intro k
      cases negative with
      | false =>
        have hmin : minInteger ≤ (valueOf 10 n.digits : Int) := by simp only [minInteger]; omega
        refine n.integer?_eq_some.trans ?_
        constructor
        · rintro ⟨hascii, hle, hk⟩
          exact ⟨⟨hascii, hmin, hle⟩, hk⟩
        · rintro ⟨⟨hascii, -, hle⟩, hk⟩
          exact ⟨hascii, hle, hk⟩
      | true =>
        have hmax : -(valueOf 10 n.digits : Int) ≤ maxInteger := by simp only [maxInteger]; omega
        refine n.integer?_minus_eq_some.trans ?_
        constructor
        · rintro ⟨hascii, hle, hk⟩
          exact ⟨⟨hascii, hle, hmax⟩, hk⟩
        · rintro ⟨⟨hascii, hle, -⟩, hk⟩
          exact ⟨hascii, hle, hk⟩
    rw [states, Option.map_eq_some_iff]
    constructor
    · rintro ⟨k, hk, rfl⟩
      obtain ⟨hfits, rfl⟩ := hliteral.mp hk
      exact ⟨hfits, rfl⟩
    · rintro ⟨hfits, rfl⟩
      exact ⟨_, hliteral.mpr ⟨hfits, rfl⟩, rfl⟩
  | constant name =>
    constructor
    · intro h
      exact ⟨trivial, (Option.some.inj h).symm⟩
    · rintro ⟨-, rfl⟩
      rfl
  | difference name before after n =>
    rw [states, Option.map_eq_some_iff]
    constructor
    · rintro ⟨k, hk, rfl⟩
      obtain ⟨hascii, hle, rfl⟩ := n.integer?_eq_some.mp hk
      exact ⟨⟨hascii, hle⟩, rfl⟩
    · rintro ⟨⟨hascii, hle⟩, rfl⟩
      exact ⟨_, n.integer?_eq_some.mpr ⟨hascii, hle, rfl⟩, rfl⟩

end LayerExpression

/-! ### The language of a form -/

theorem reads_signedDigits : Reads signedDigits fun t kept => IsSigned t ∧ kept = [] := by
  intro last cs ⟨t, kept, rest⟩
  rw [mem_readings_signedDigits]
  constructor
  · rintro ⟨t', rest', rfl, hsigned, hr⟩
    cases hr
    exact ⟨rfl, hsigned, rfl⟩
  · rintro ⟨rfl, hsigned, rfl⟩
    exact ⟨t, rest, rfl, hsigned, rfl⟩

theorem reads_name : Reads name fun t kept => IsName t ∧ kept = [] := by
  intro last cs ⟨t, kept, rest⟩
  rw [mem_readings_name]
  constructor
  · rintro ⟨t', rest', rfl, hname, hr⟩
    cases hr
    exact ⟨rfl, hname, rfl⟩
  · rintro ⟨rfl, hname, rfl⟩
    exact ⟨t, rest, rfl, hname, rfl⟩

theorem isSigned_iff {t : List Char} : IsSigned t ↔ ∃ negative n, t = (LayerExpression.literal negative n).text := by
  constructor
  · rintro ⟨ds, rfl | rfl, hne, hall⟩
    · exact ⟨false, ⟨t, hne, hall⟩, rfl⟩
    · exact ⟨true, ⟨ds, hne, hall⟩, rfl⟩
  · rintro ⟨negative, n, rfl⟩
    cases negative with
    | false => exact ⟨n.digits, Or.inl rfl, n.nonempty, n.all_isDigit⟩
    | true => exact ⟨n.digits, Or.inr rfl, n.nonempty, n.all_isDigit⟩

theorem reads_inner (f : Form) :
    Reads f.inner fun t k => ∃ e : LayerExpression, e.form = f ∧ t = e.text ∧ k = e.kept := by
  cases f with
  | literal =>
    refine (reads_signedDigits.group (n := 1)).congr fun t kept => ⟨?_, ?_⟩
    · rintro ⟨_, ⟨hsigned, rfl⟩, rfl⟩
      obtain ⟨negative, n, rfl⟩ := isSigned_iff.mp hsigned
      exact ⟨.literal negative n, rfl, rfl, rfl⟩
    · rintro ⟨e, he, rfl, rfl⟩
      cases e with
      | literal negative n => exact ⟨[], ⟨isSigned_iff.mpr ⟨negative, n, rfl⟩, rfl⟩, rfl⟩
      | constant name => cases he
      | difference name before after n => cases he
  | difference =>
    refine ((reads_name.group (n := 1)).spaced ((reads_char '-').pair (reads_digits 2))).congr fun t kept => ⟨?_, ?_⟩
    · rintro ⟨u, _, before, _, _, ⟨_, ⟨hname, rfl⟩, rfl⟩, ⟨_, _, after, ds, _, ⟨rfl, rfl⟩, ⟨hne, hall, rfl⟩, rfl, rfl⟩, rfl, rfl⟩
      exact ⟨.difference ⟨u, hname⟩ before after ⟨ds, hne, hall⟩, rfl, rfl, rfl⟩
    · rintro ⟨e, he, rfl, rfl⟩
      cases e with
      | literal negative n => cases he
      | constant name => cases he
      | difference name before after n =>
        exact ⟨name.text, _, before, _, _, ⟨[], ⟨name.isName, rfl⟩, rfl⟩,
          ⟨_, _, after, n.digits, _, ⟨rfl, rfl⟩, ⟨n.nonempty, n.all_isDigit, rfl⟩, rfl, rfl⟩, rfl, rfl⟩
  | constant =>
    refine (reads_name.group (n := 1)).congr fun t kept => ⟨?_, ?_⟩
    · rintro ⟨_, ⟨hname, rfl⟩, rfl⟩
      exact ⟨.constant ⟨t, hname⟩, rfl, rfl, rfl⟩
    · rintro ⟨e, he, rfl, rfl⟩
      cases e with
      | literal negative n => cases he
      | constant name => exact ⟨[], ⟨name.isName, rfl⟩, rfl⟩
      | difference name before after n => cases he

/-! ### The chain -/

theorem gives {e : LayerExpression} {m : Match} (s : Scope) (hm : m.kept = e.kept) : e.form.read m s = e.states := by
  cases e with
  | literal negative n =>
    have hgroup : m.group? 1 = some (LayerExpression.literal negative n).text := by rw [Match.group?, hm]; rfl
    show (m.integer? 1).map LayerExpr.literal = _
    rw [Match.integer?, hgroup]
    rfl
  | constant name =>
    have hgroup : m.group 1 = name.text := by rw [Match.group, Match.group?, hm]; rfl
    show some (LayerExpr.constant (String.ofList (m.group 1)) 0) = _
    rw [hgroup]
    rfl
  | difference name before after n =>
    have hgroup : m.group 1 = name.text := by rw [Match.group, Match.group?, hm]; rfl
    have hdigits : m.group? 2 = some n.digits := by rw [Match.group?, hm]; rfl
    show (m.integer? 2).map (fun minus => LayerExpr.constant (String.ofList (m.group 1)) minus) = _
    rw [Match.integer?, hgroup, hdigits]
    rfl

/-- The grammar of layers, with what each expression states. -/
def grammar : Grammar LayerExpression Form LayerExpr where
  text := LayerExpression.text
  form := LayerExpression.form
  kept := LayerExpression.kept
  states := LayerExpression.states
  name := Form.idiomName
  inner := Form.inner
  read := Form.read
  reads := reads_inner
  unique h := by
    rw [LayerExpression.text_injective h]
    exact ⟨rfl, rfl⟩
  gives := gives

theorem idioms_eq : chain.idioms = Form.all.map grammar.idiom := rfl

/-- The chain gives the expression that the text is, if its literal fits. -/
theorem value?_eq_some {s : Scope} {x : LayerExpr} :
    chain.value? s = some x ↔ ∃ e : LayerExpression, e.text = s.code ∧ e.Fits ∧ x = e.meaning :=
  (grammar.value?_eq_some idioms_eq Form.mem_all).trans
    (exists_congr fun _ => and_congr_right fun _ => LayerExpression.states_eq_some)

/-- No text is read by two of the idioms. -/
theorem Form.eq_of_occursIn {f g : Form} {code : List Char} (hf : f.pattern.occursIn code = true)
    (hg : g.pattern.occursIn code = true) : f = g := grammar.eq_of_occursIn hf hg

end Layer
end SpriteFacts
