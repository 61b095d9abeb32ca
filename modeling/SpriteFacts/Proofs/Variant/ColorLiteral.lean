import Mathlib.Algebra.GroupWithZero.Nat
import SpriteFacts.Proofs.Expression.Unambiguous
import SpriteFacts.Proofs.Pattern.Language
import SpriteFacts.Proofs.Variant.StaticChannel

/-! Colors as code writes them. A color is a triple of decimal arguments, a hexadecimal numeral or a decimal one. The
    reader gives the value of what is written: a triple is packed from the low five bits of its arguments, so its value has
    fifteen bits whatever the arguments are, and a numeral has its own value, of as many bits as it is written with. -/

namespace SpriteFacts

open Text Pattern

/-- An argument of a triple, with the blanks around it. -/
structure ColorArgument where
  before : Gap
  run : DigitRun
  after : Gap

/-- A color as code writes it. -/
inductive ColorLiteral where
  | triple (gap : Gap) (red green blue : ColorArgument)
  | hexadecimal (upper : Bool) (digits : List Char) (nonempty : digits ≠ []) (ascii : digits.all isHexDigit = true)
  | decimal (n : DigitRun)

namespace ColorArgument

def text (a : ColorArgument) : List Char := a.before.text ++ (a.run.digits ++ a.after.text)

def value (a : ColorArgument) : Nat := valueOf 10 a.run.digits

/-- The argument is written in ASCII and is no longer than a reader of arguments takes. -/
def Fits (a : ColorArgument) : Prop := a.run.digits.all Char.isDigit = true ∧ a.value ≤ maxLongWord

/-- What begins with an argument begins with no other. -/
theorem digits_unique {a b : ColorArgument} {stop : Char} {xs ys : List Char} (hblank : isBlank stop = false)
    (hdigit : isDigit stop = false) (h : a.text ++ stop :: xs = b.text ++ stop :: ys) : a.run.digits = b.run.digits ∧ xs = ys := by
  simp only [text, List.append_assoc] at h
  obtain ⟨-, hrun⟩ := Gap.eq_of_append h (head_digits a.run.nonempty a.run.all_isDigit _)
    (head_digits b.run.nonempty b.run.all_isDigit _)
  obtain ⟨hdigits, hafter⟩ := span_unique hrun a.run.all_isDigit b.run.all_isDigit (a.after.head_sign hdigit _)
    (b.after.head_sign hdigit _)
  have hstop : ∀ cs : List Char, (stop :: cs).head?.all (fun c => !isBlank c) = true := fun cs => by simp [hblank]
  obtain ⟨-, hrest⟩ := Gap.eq_of_append hafter (hstop xs) (hstop ys)
  exact ⟨hdigits, (List.cons.inj hrest).2⟩

end ColorArgument

namespace ColorLiteral

def text : ColorLiteral → List Char
  | triple gap r g b => "IRGB".toList ++ (gap.text ++ '(' :: (r.text ++ ',' :: (g.text ++ ',' :: (b.text ++ [')']))))
  | hexadecimal upper digits _ _ => '0' :: (if upper then 'X' else 'x') :: digits
  | decimal n => n.digits

/-- The color that is written. -/
def value : ColorLiteral → Nat
  | triple _ r g b => PackedColor.pack r.value g.value b.value
  | hexadecimal _ digits _ _ => valueOf 16 digits
  | decimal n => valueOf 10 n.digits

/-- The literal is within the bounds of its reader. -/
def Fits : ColorLiteral → Prop
  | triple _ r g b => r.Fits ∧ g.Fits ∧ b.Fits
  | hexadecimal _ digits _ _ => valueOf 16 digits ≤ maxWord
  | decimal n => n.digits.all Char.isDigit = true ∧ valueOf 10 n.digits ≤ maxWord

/-- The literal is a numeral that takes more than fifteen bits. -/
def Wide : ColorLiteral → Prop
  | triple .. => False
  | hexadecimal _ digits _ _ => 2 ^ 15 ≤ valueOf 16 digits
  | decimal n => 2 ^ 15 ≤ valueOf 10 n.digits

/-! ### The range of a color -/

theorem pack_unpack {v : Nat} (h : v < 2 ^ 15) :
    PackedColor.pack (PackedColor.unpack v).1 (PackedColor.unpack v).2.1 (PackedColor.unpack v).2.2 = v := by
  simp only [PackedColor.pack, PackedColor.unpack]
  omega

/-- A color comes back from its channels exactly if it has fifteen bits. -/
theorem pack_unpack_iff {v : Nat} :
    PackedColor.pack (PackedColor.unpack v).1 (PackedColor.unpack v).2.1 (PackedColor.unpack v).2.2 = v ↔ v < 2 ^ 15 :=
  ⟨fun h => h ▸ PackedColor.pack_lt _ _ _, pack_unpack⟩

theorem value_lt_iff (x : ColorLiteral) : x.value < 2 ^ 15 ↔ ¬x.Wide := by
  cases x with
  | triple gap r g b => exact iff_of_true (PackedColor.pack_lt _ _ _) id
  | hexadecimal upper digits _ _ => exact Nat.not_le.symm
  | decimal n => exact Nat.not_le.symm

theorem Fits.value_le {x : ColorLiteral} (h : x.Fits) : x.value ≤ maxWord := by
  cases x with
  | triple gap r g b => exact Nat.le_of_lt (Nat.lt_of_lt_of_le (PackedColor.pack_lt _ _ _) (by decide))
  | hexadecimal upper digits _ _ => exact h
  | decimal n => exact h.2

/-! ### The language of colors -/

/-- What a reader of arguments keeps of them. -/
abbrev Keeper := Nat → List Char → List (Nat × List Char)

/-- The texts of triples, with what is kept of their arguments. -/
def tripleLanguage (keeps : Keeper) : TextLanguage := fun t kept => ∃ (gap : Gap) (r g b : ColorArgument),
  t = (triple gap r g b).text ∧ kept = keeps 3 b.run.digits ++ (keeps 2 g.run.digits ++ keeps 1 r.run.digits)

theorem reads_triple {argument : Nat → Pattern} {keeps : Keeper}
    (h : ∀ n, Reads (argument n) fun t kept => t ≠ [] ∧ t.all isDigit = true ∧ kept = keeps n t) :
    Reads (PackedColor.triple argument) (tripleLanguage keeps) := by
  refine ((reads_literal "IRGB").spaced <| (reads_char '(').spaced <| (h 1).spaced <| (reads_char ',').spaced <|
    (h 2).spaced <| (reads_char ',').spaced <| (h 3).pair (reads_char ')')).congr fun t kept => ?_
  constructor
  · rintro ⟨_, _, gap, _, _, ⟨rfl, rfl⟩, ⟨_, _, g1, _, _, ⟨rfl, rfl⟩, ⟨r, _, g2, _, _, ⟨hr, hr', rfl⟩,
      ⟨_, _, g3, _, _, ⟨rfl, rfl⟩, ⟨g, _, g4, _, _, ⟨hg, hg', rfl⟩, ⟨_, _, g5, _, _, ⟨rfl, rfl⟩,
      ⟨b, _, g6, _, _, ⟨hb, hb', rfl⟩, ⟨rfl, rfl⟩, rfl, rfl⟩, rfl, rfl⟩, rfl, rfl⟩, rfl, rfl⟩, rfl, rfl⟩, rfl, rfl⟩, rfl, rfl⟩
    exact ⟨gap, ⟨g1, ⟨r, hr, hr'⟩, g2⟩, ⟨g3, ⟨g, hg, hg'⟩, g4⟩, ⟨g5, ⟨b, hb, hb'⟩, g6⟩, by simp [text, ColorArgument.text], by simp⟩
  · rintro ⟨gap, ⟨g1, ⟨r, hr, hr'⟩, g2⟩, ⟨g3, ⟨g, hg, hg'⟩, g4⟩, ⟨g5, ⟨b, hb, hb'⟩, g6⟩, rfl, rfl⟩
    exact ⟨_, _, gap, _, _, ⟨rfl, rfl⟩, ⟨_, _, g1, _, _, ⟨rfl, rfl⟩, ⟨r, _, g2, _, _, ⟨hr, hr', rfl⟩,
      ⟨_, _, g3, _, _, ⟨rfl, rfl⟩, ⟨g, _, g4, _, _, ⟨hg, hg', rfl⟩, ⟨_, _, g5, _, _, ⟨rfl, rfl⟩,
      ⟨b, _, g6, _, _, ⟨hb, hb', rfl⟩, ⟨rfl, rfl⟩, rfl, rfl⟩, rfl, rfl⟩, rfl, rfl⟩, rfl, rfl⟩, rfl, rfl⟩, rfl, rfl⟩,
      by simp [text, ColorArgument.text], by simp⟩

theorem reads_plainTriple : Reads (PackedColor.triple fun _ => digits) (tripleLanguage fun _ _ => []) :=
  reads_triple fun _ => reads_run1 isDigit

theorem reads_keptTriple : Reads (PackedColor.triple fun n => group n digits) (tripleLanguage fun n t => [(n, t)]) :=
  reads_triple fun n => reads_digits n

/-- A color that is written ends its statement or argument; it is kept, and what ends it is not. -/
theorem reads_written : Reads PackedColor.written fun t kept => ∃ (x : ColorLiteral) (gap : Gap) (stop : Char),
    endsValue stop = true ∧ t = x.text ++ (gap.text ++ [stop]) ∧ kept = [(1, x.text)] := by
  have hhex := (reads_char '0').seq ((reads_one fun c => c == 'x' || c == 'X').seq (reads_run1 isHexDigit))
  have hwritten : Reads PackedColor.written _ :=
    Reads.pair (Reads.group (n := 1) (reads_plainTriple.alt (hhex.alt (reads_run1 isDigit)))) (reads_one endsValue)
  refine hwritten.congr fun t kept => ?_
  constructor
  · rintro ⟨u, _, gap, _, _, ⟨j, hu, rfl⟩, ⟨stop, hstop, rfl, rfl⟩, rfl, rfl⟩
    have hliteral : ∃ x : ColorLiteral, u = x.text ∧ j = [] := by
      rcases hu with ⟨g, r, gr, b, rfl, rfl⟩ |
        ⟨_, _, _, _, ⟨rfl, rfl⟩, ⟨_, _, ds, _, ⟨c, hc, rfl, rfl⟩, ⟨hne, hall, rfl⟩, rfl, rfl⟩, rfl, rfl⟩ | ⟨hne, hall, rfl⟩
      · exact ⟨.triple g r gr b, rfl, rfl⟩
      · rw [Bool.or_eq_true, beq_iff_eq, beq_iff_eq] at hc
        rcases hc with rfl | rfl
        · exact ⟨.hexadecimal false ds hne hall, rfl, rfl⟩
        · exact ⟨.hexadecimal true ds hne hall, rfl, rfl⟩
      · exact ⟨.decimal ⟨u, hne, hall⟩, rfl, rfl⟩
    obtain ⟨x, rfl, rfl⟩ := hliteral
    exact ⟨x, gap, stop, hstop, rfl, rfl⟩
  · rintro ⟨x, gap, stop, hstop, rfl, rfl⟩
    refine ⟨x.text, _, gap, [stop], [], ⟨[], ?_, rfl⟩, ⟨stop, hstop, rfl, rfl⟩, rfl, rfl⟩
    cases x with
    | triple g r gr b => exact Or.inl ⟨g, r, gr, b, rfl, rfl⟩
    | hexadecimal upper ds hne hall =>
      refine Or.inr (Or.inl ⟨['0'], [], (if upper then 'X' else 'x') :: ds, [], ⟨rfl, rfl⟩,
        ⟨[if upper then 'X' else 'x'], [], ds, [], ⟨_, ?_, rfl, rfl⟩, ⟨hne, hall, rfl⟩, rfl, rfl⟩, rfl, rfl⟩)
      cases upper <;> rfl
    | decimal n => exact Or.inr (Or.inr ⟨n.nonempty, n.all_isDigit, rfl⟩)

/-! ### What the reader gives -/

theorem isBlank_of_isHexDigit {c : Char} (h : isHexDigit c = true) : isBlank c = false := not_isBlank_of_isWord (isWord_of_isHexDigit h)

theorem isDigit_ne {c d : Char} (hc : isDigit c = true) (hd : isDigit d = false) : c ≠ d := fun h => by
  rw [← h, hc] at hd
  cases hd

/-- No blanks stand around a color. -/
theorem trim_text (x : ColorLiteral) : trim x.text = x.text := by
  have hall : ∀ {t : List Char}, t.all (fun c => !isBlank c) = true → trim t = t := fun {t} h => by
    refine trim_eq_self ?_ ?_ <;> rw [Option.all_eq_true] <;> intro c hc
    · exact List.all_eq_true.mp h c (List.mem_of_head? hc)
    · exact List.all_eq_true.mp h c (List.mem_of_getLast? hc)
  cases x with
  | triple gap r g b =>
    refine trim_eq_self rfl ?_
    have hlast : (triple gap r g b).text = ("IRGB".toList ++ (gap.text ++ '(' :: (r.text ++ ',' :: (g.text ++ ',' :: b.text)))) ++ [')'] := by
      simp [text]
    rw [hlast, List.getLast?_concat]
    decide
  | hexadecimal upper ds hne hds =>
    refine hall ?_
    have hmark : isBlank (if upper then 'X' else 'x') = false := by cases upper <;> decide
    have hdigits : ds.all (fun c => !isBlank c) = true := List.all_eq_true.mpr fun c hc => by
      rw [isBlank_of_isHexDigit (List.all_eq_true.mp hds c hc)]
      rfl
    rw [text, List.all_cons, List.all_cons, hmark, hdigits]
    decide
  | decimal n =>
    refine hall (List.all_eq_true.mpr fun c hc => ?_)
    rw [not_isBlank_of_isDigit (List.all_eq_true.mp n.all_isDigit c hc)]
    rfl

theorem triple_find?_eq_none {t : List Char} (h : '(' ∉ t) : (whole (PackedColor.triple fun n => group n digits)).find? t = none :=
  Needs.find?_eq_none (by simp [whole, Pattern.all, PackedColor.triple, spaced, Pattern.char, Needs]) h

/-- The arguments of a triple are kept under their numbers. -/
theorem triple_find? (gap : Gap) (r g b : ColorArgument) :
    ∃ m, (whole (PackedColor.triple fun n => group n digits)).find? (triple gap r g b).text = some m ∧
      m.group? 1 = some r.run.digits ∧ m.group? 2 = some g.run.digits ∧ m.group? 3 = some b.run.digits := by
  obtain ⟨m, hm⟩ := Option.isSome_iff_exists.mp ((occursIn_whole reads_keptTriple).mpr ⟨_, gap, r, g, b, rfl, rfl⟩)
  obtain ⟨gap', r', g', b', htext, hkept⟩ := kept_of_find?_whole reads_keptTriple hm
  have hcomma : isDigit ',' = false := by decide
  obtain ⟨-, hopen⟩ := Gap.eq_of_append (List.append_cancel_left htext) rfl rfl
  obtain ⟨hr, hgreen⟩ := ColorArgument.digits_unique (by decide) hcomma (List.cons.inj hopen).2
  obtain ⟨hg, hblue⟩ := ColorArgument.digits_unique (by decide) hcomma hgreen
  obtain ⟨hb, -⟩ := ColorArgument.digits_unique (by decide) (by decide) hblue
  refine ⟨m, hm, ?_⟩
  simp [Match.group?, hkept, hr, hg, hb]

/-- The reader gives the value of every color within its bounds, and reads no other. -/
theorem read?_text (x : ColorLiteral) {v : Nat} : PackedColor.read? x.text = some v ↔ x.Fits ∧ v = x.value := by
  rw [PackedColor.read?, x.trim_text]
  cases x with
  | triple gap r g b =>
    obtain ⟨m, hm, h1, h2, h3⟩ := triple_find? gap r g b
    simp only [hm, PackedColor.argument?, h1, h2, h3, Option.bind_some, Option.bind_eq_bind, Option.bind_eq_some_iff,
      DigitRun.longWord?_eq_some, Option.some.injEq]
    constructor
    · rintro ⟨_, ⟨hr, hrle, rfl⟩, _, ⟨hg, hgle, rfl⟩, _, ⟨hb, hble, rfl⟩, rfl⟩
      exact ⟨⟨⟨hr, hrle⟩, ⟨hg, hgle⟩, ⟨hb, hble⟩⟩, rfl⟩
    · rintro ⟨⟨⟨hr, hrle⟩, ⟨hg, hgle⟩, ⟨hb, hble⟩⟩, rfl⟩
      exact ⟨_, ⟨hr, hrle, rfl⟩, _, ⟨hg, hgle, rfl⟩, _, ⟨hb, hble, rfl⟩, rfl⟩
  | hexadecimal upper ds hne hds =>
    have hparen : '(' ∉ (hexadecimal upper ds hne hds).text := fun h => by
      rcases List.mem_cons.mp h with h | h
      · cases h
      rcases List.mem_cons.mp h with h | h
      · cases upper <;> cases h
      · exact absurd (List.all_eq_true.mp hds _ h) (by decide)
    have hmark : PackedColor.afterHexMark? (hexadecimal upper ds hne hds).text = some ds := by cases upper <;> rfl
    have hplus : dropPlus ds = ds := dropPlus.eq_2 _ fun cs h =>
      absurd (List.all_eq_true.mp hds '+' (h ▸ List.mem_cons_self)) (by decide)
    simp only [triple_find?_eq_none hparen, hmark]
    rw [hexWord?, unsigned?_eq_some hne hplus]
    constructor
    · rintro ⟨-, hle, rfl⟩
      exact ⟨hle, rfl⟩
    · rintro ⟨hle, rfl⟩
      exact ⟨hds, hle, rfl⟩
  | decimal n =>
    have hmem : ∀ {c : Char}, isDigit c = false → c ∉ n.digits := fun hc h =>
      isDigit_ne (List.all_eq_true.mp n.all_isDigit _ h) hc rfl
    have hmark : PackedColor.afterHexMark? n.digits = none := by
      unfold PackedColor.afterHexMark?
      split
      · rename_i heq
        exact absurd (heq ▸ List.mem_cons_of_mem _ List.mem_cons_self) (hmem (by decide : isDigit 'x' = false))
      · rename_i heq
        exact absurd (heq ▸ List.mem_cons_of_mem _ List.mem_cons_self) (hmem (by decide : isDigit 'X' = false))
      · rfl
    simp only [text, triple_find?_eq_none (hmem (by decide)), hmark]
    rw [n.word?_eq_some]
    constructor
    · rintro ⟨hascii, hle, rfl⟩
      exact ⟨⟨hascii, hle⟩, rfl⟩
    · rintro ⟨⟨hascii, hle⟩, rfl⟩
      exact ⟨hascii, hle, rfl⟩

end ColorLiteral
end SpriteFacts
