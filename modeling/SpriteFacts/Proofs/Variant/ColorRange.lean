import SpriteFacts.Document.Basic
import SpriteFacts.Proofs.Record.LastWins
import SpriteFacts.Proofs.Variant.AssignedExpression
import SpriteFacts.Proofs.Variant.ColorLiteral
import SpriteFacts.Proofs.Variant.PackedReport

/-! The range of the packed colors in a document. Every color of a record is the value of a literal that the code of one of
    its case groups assigns to the slot, by itself or to all three slots at once; merging brings in no other. A triple is cut
    to fifteen bits and a numeral is not, so a color comes back from its channels unless it was written as a wider numeral. -/

namespace SpriteFacts

open Switch Text Pattern

namespace ColorSlot

/-! ### Assigned colors -/

/-- What stands in front of a color that is assigned to a slot: the head of the slot, or the heads of all slots. -/
inductive Opening (slot : ColorSlot) : List Char → Prop
  | own (gap : Gap) : Opening slot (slot.head gap)
  | shared (g1 b1 g2 b2 g3 : Gap) : Opening slot (c1.head g1 ++ (b1.text ++ (c2.head g2 ++ (b2.text ++ c3.head g3))))

/-- The code assigns the color to the slot: the assignment stands at the start of a word, and the color ends its statement or
    argument. -/
def Assigns (slot : ColorSlot) (code : List Char) (x : ColorLiteral) : Prop :=
  ∃ (front opening : List Char) (after before : Gap) (stop : Char) (rest : List Char),
    code = front ++ (opening ++ (after.text ++ (x.text ++ (before.text ++ stop :: rest)))) ∧
      (lastOf none front).any isWord = false ∧ slot.Opening opening ∧ endsValue stop = true

section Search
variable {v : String} {q : Pattern} {L : TextLanguage} {code : List Char} {m : Match} {slot : ColorSlot}

/-- A match of an assignment stands at the start of a word, and behind the sign is a text of what is assigned. -/
theorem exists_of_find? (hv : v.toList.head?.any isWord = true) (hq : Reads q L)
    (h : (spaced [assignTo v, q]).find? code = some m) : ∃ (front : List Char) (g g' : Gap) (t rest : List Char),
      code = front ++ (v.toList ++ (g.text ++ '=' :: (g'.text ++ (t ++ rest)))) ∧ (lastOf none front).any isWord = false ∧
        L t m.kept := by
  obtain ⟨front, r, hstands, -⟩ := findFrom_eq_some h
  have hmem := mem_of_read? hstands.read
  rw [readings_assignTo] at hmem
  obtain ⟨a, ha, g, rest1, hrest1, b, hb, rfl⟩ := mem_readings_spaced.mp hmem
  obtain ⟨hedge, rest, -, rfl⟩ := (mem_readings_wordStart hv).mp ha
  obtain ⟨c, hc, g', rest2, -, d, hd, rfl⟩ := mem_readings_spaced.mp hb
  obtain ⟨rest3, -, rfl⟩ := mem_readings_char.mp hc
  refine ⟨front, g, g', d.text, d.rest, ?_, hedge, ?_⟩
  · rw [hstands.split]
    simp
  · rw [hstands.match_eq]
    simpa [Reading.toMatch] using ((hq _ _ _).mp hd).2

theorem group_of_kept {t : List Char} (h : m.kept = [(1, t)]) : m.group 1 = t := by
  rw [Match.group, Match.group?, h]
  rfl

theorem isWord_head (slot : ColorSlot) : slot.name.toList.head?.any isWord = true := by cases slot <;> decide

/-- An assignment of a color that is found has the head of the slot and then its color. -/
theorem exists_of_find?_slot (h : (spaced [assignTo slot.name, PackedColor.written]).find? code = some m) :
    ∃ (front : List Char) (gap after : Gap) (x : ColorLiteral) (before : Gap) (stop : Char) (rest : List Char),
      code = front ++ (slot.head gap ++ (after.text ++ (x.text ++ (before.text ++ stop :: rest)))) ∧
      (lastOf none front).any isWord = false ∧ endsValue stop = true ∧ m.group 1 = x.text := by
  obtain ⟨front, gap, after, _, rest, rfl, hedge, x, before, stop, hstop, rfl, hkept⟩ :=
    exists_of_find? slot.isWord_head ColorLiteral.reads_written h
  exact ⟨front, gap, after, x, before, stop, rest, by simp [head], hedge, hstop, group_of_kept hkept⟩

theorem exists_of_assigned? {v : Nat} (h : PackedColors.assigned? slot code = some v) :
    ∃ x : ColorLiteral, slot.Assigns code x ∧ x.Fits ∧ v = x.value := by
  obtain ⟨m, hm, hread⟩ := Option.bind_eq_some_iff.mp h
  obtain ⟨front, gap, after, x, before, stop, rest, rfl, hedge, hstop, hgroup⟩ := exists_of_find?_slot hm
  rw [hgroup, x.read?_text] at hread
  exact ⟨x, ⟨front, _, after, before, stop, rest, rfl, hedge, .own gap, hstop⟩, hread⟩

theorem reads_chainedRest : Reads (spaced [literal "c2", char '=', literal "c3", char '=', PackedColor.written]) fun t kept =>
    ∃ (g2 b2 g3 after : Gap) (x : ColorLiteral) (before : Gap) (stop : Char), endsValue stop = true ∧
      t = c2.head g2 ++ (b2.text ++ (c3.head g3 ++ (after.text ++ (x.text ++ (before.text ++ [stop]))))) ∧ kept = [(1, x.text)] := by
  refine ((reads_literal "c2").spaced <| (reads_char '=').spaced <| (reads_literal "c3").spaced <|
    (reads_char '=').pair ColorLiteral.reads_written).congr fun t kept => ?_
  constructor
  · rintro ⟨_, _, g2, _, _, ⟨rfl, rfl⟩, ⟨_, _, b2, _, _, ⟨rfl, rfl⟩, ⟨_, _, g3, _, _, ⟨rfl, rfl⟩,
      ⟨_, _, after, _, _, ⟨rfl, rfl⟩, ⟨x, before, stop, hstop, rfl, rfl⟩, rfl, rfl⟩, rfl, rfl⟩, rfl, rfl⟩, rfl, rfl⟩
    exact ⟨g2, b2, g3, after, x, before, stop, hstop, by simp [head, name], rfl⟩
  · rintro ⟨g2, b2, g3, after, x, before, stop, hstop, rfl, rfl⟩
    exact ⟨_, _, g2, _, _, ⟨rfl, rfl⟩, ⟨_, _, b2, _, _, ⟨rfl, rfl⟩, ⟨_, _, g3, _, _, ⟨rfl, rfl⟩,
      ⟨_, _, after, _, _, ⟨rfl, rfl⟩, ⟨x, before, stop, hstop, rfl, rfl⟩, rfl, rfl⟩, rfl, rfl⟩, rfl, rfl⟩, by simp [head, name], rfl⟩

/-- A chained assignment that is found has the heads of all slots one behind the other, and then its color. -/
theorem exists_of_find?_chained (h : PackedColors.chained.find? code = some m) :
    ∃ (front : List Char) (g1 b1 g2 b2 g3 after : Gap) (x : ColorLiteral) (before : Gap) (stop : Char) (rest : List Char),
      code = front ++ (c1.head g1 ++ (b1.text ++ (c2.head g2 ++ (b2.text ++ (c3.head g3 ++
        (after.text ++ (x.text ++ (before.text ++ stop :: rest)))))))) ∧
      (lastOf none front).any isWord = false ∧ endsValue stop = true ∧ m.group 1 = x.text := by
  obtain ⟨front, g1, b1, _, rest, rfl, hedge, g2, b2, g3, after, x, before, stop, hstop, rfl, hkept⟩ :=
    exists_of_find? (v := "c1") (by decide) reads_chainedRest h
  exact ⟨front, g1, b1, g2, b2, g3, after, x, before, stop, rest, by simp [head, name], hedge, hstop, group_of_kept hkept⟩

theorem exists_of_chained (h : PackedColors.chained.find? code = some m) {v : Nat}
    (hread : PackedColor.read? (m.group 1) = some v) (slot : ColorSlot) :
    ∃ x : ColorLiteral, slot.Assigns code x ∧ x.Fits ∧ v = x.value := by
  obtain ⟨front, g1, b1, g2, b2, g3, after, x, before, stop, rest, rfl, hedge, hstop, hgroup⟩ := exists_of_find?_chained h
  rw [hgroup, x.read?_text] at hread
  exact ⟨x, ⟨front, _, after, before, stop, rest, by simp, hedge, .shared g1 b1 g2 b2 g3, hstop⟩, hread⟩

/-- A color that the idioms read is the value of a literal that the code assigns to the slot. -/
theorem exists_of_chain {s : Scope} {v : Nat} (h : ((PackedColors.chain.value? s).getD {}).get slot = some v) :
    ∃ x : ColorLiteral, slot.Assigns s.code x ∧ x.Fits ∧ v = x.value := by
  cases hcolors : PackedColors.chain.value? s with
  | none =>
    rw [hcolors] at h
    cases slot <;> cases h
  | some colors =>
    rw [hcolors, Option.getD_some] at h
    obtain ⟨i, hi, hread⟩ := IdiomChain.exists_of_value? hcolors
    rcases List.mem_pair.mp hi with rfl | rfl
    · obtain ⟨m, hm, hvalue⟩ := Option.bind_eq_some_iff.mp hread
      obtain ⟨color, hcolor, rfl⟩ := Option.map_eq_some_iff.mp hvalue
      obtain rfl : color = v := by cases slot <;> exact Option.some.inj h
      exact exists_of_chained hm hcolor slot
    · have heach : PackedColors.readEach s = some colors := hread
      simp only [PackedColors.readEach] at heach
      split at heach
      · cases heach
      · obtain rfl := Option.some.inj heach
        exact exists_of_assigned? (by cases slot <;> exact h)

end Search
end ColorSlot

/-! ### The colors of a record -/

theorem exists_of_lastStated {ρ α : Type} {field : ρ → Option α} {rs : List ρ} {v : α} (h : lastStated field rs = some v) :
    ∃ r ∈ rs, field r = some v := by
  obtain ⟨r, hr, hv⟩ := List.exists_of_findSome?_eq_some h
  exact ⟨r, List.mem_reverse.mp hr, hv⟩

/-- A color of a merged record is that of a contribution with its number. -/
theorem Variant.exists_contribution {history : List Variant} {r : Variant} {slot : ColorSlot} {v : Nat}
    (hr : r ∈ (Roster.empty.addAll history).finish) (hv : r.colors.get slot = some v) :
    ∃ x ∈ history, x.id = r.id ∧ x.colors.get slot = some v := by
  obtain ⟨hcombined, -⟩ := (Roster.mem_finish_addAll history r).mp hr
  cases hown : contributions (SpriteRecord.number r) history with
  | nil =>
    rw [hown] at hcombined
    cases hcombined
  | cons x xs =>
    rw [hown, combined, Variant.foldl_overlay_eq] at hcombined
    have hcolors : lastStated (·.colors.get slot) (x :: xs) = some v := by
      rw [← hv, ← Option.some.inj hcombined]
      cases slot <;> rfl
    obtain ⟨y, hy, hcolor⟩ := exists_of_lastStated hcolors
    rw [← hown] at hy
    exact ⟨y, (List.mem_filter.mp hy).1, number_of_mem_contributions hy, hcolor⟩

/-- Every color of a record of a pass is assigned in a case group with its number. -/
theorem VariantPass.exists_assigned {p : VariantPass} {source : Source} {settings : Settings} {r : Variant} {slot : ColorSlot}
    {v : Nat} (hr : r ∈ (p.run source settings).1) (hv : r.colors.get slot = some v) :
    ∃ l g, Located.find? source (settings.functionFor p.pass) = some l ∧
      g ∈ caseGroups .fallThrough breakStatement l.code ∧ r.id ∈ g.ids ∧
        ∃ x : ColorLiteral, slot.Assigns g.code x ∧ x.Fits ∧ v = x.value := by
  unfold run at hr
  cases hl : Located.find? source (settings.functionFor p.pass) with
  | none =>
    simp only [hl] at hr
    cases hr
  | some l =>
    simp only [hl] at hr
    obtain ⟨y, hy, hid, hcolor⟩ := Variant.exists_contribution hr hv
    obtain ⟨⟨g, records⟩, hgroup, hy⟩ := List.mem_flatMap.mp hy
    obtain ⟨g, hg, hpair⟩ := List.mem_map.mp hgroup
    obtain ⟨rfl, rfl⟩ := Prod.mk.inj hpair
    obtain ⟨id, hids, rfl⟩ := List.mem_map.mp hy
    exact ⟨l, g, rfl, hg, hid ▸ hids, ColorSlot.exists_of_chain (s := scope g) hcolor⟩

/-- What is known of a color that was written as a literal. -/
structure WrittenAs (x : ColorLiteral) (v : Nat) : Prop where
  fits : x.Fits
  value_eq : v = x.value
  le_max : v ≤ maxWord
  in_range_iff : v < 2 ^ 15 ↔ ¬x.Wide
  restored_iff : PackedColor.pack (PackedColor.unpack v).1 (PackedColor.unpack v).2.1 (PackedColor.unpack v).2.2 = v ↔ ¬x.Wide

theorem ColorLiteral.Fits.writtenAs {x : ColorLiteral} (h : x.Fits) : WrittenAs x x.value :=
  ⟨h, rfl, h.value_le, x.value_lt_iff, ColorLiteral.pack_unpack_iff.trans x.value_lt_iff⟩

/-- Every color in a variant document is the value of a literal that a case group of its sprite assigns to the slot. It has
    fifteen bits, and comes back from its channels, exactly unless it was written as a numeral that takes more. -/
theorem color_in_range_iff {source : Source} {settings : Settings} {kind : DocumentKind} {rs : List Variant} {r : Variant}
    {slot : ColorSlot} {v : Nat} (hrecords : (Document.extract source settings kind).records = .variants rs) (hr : r ∈ rs)
    (hv : r.colors.get slot = some v) :
    ∃ pass ∈ kind.passes, ∃ l g x, Located.find? source (settings.functionFor pass) = some l ∧
      g ∈ caseGroups .fallThrough breakStatement l.code ∧ r.id ∈ g.ids ∧ slot.Assigns g.code x ∧ WrittenAs x v := by
  have hpass : ∀ p : VariantPass, r ∈ (p.run source settings).1 → p.pass ∈ kind.passes →
      ∃ pass ∈ kind.passes, ∃ l g x, Located.find? source (settings.functionFor pass) = some l ∧
        g ∈ caseGroups .fallThrough breakStatement l.code ∧ r.id ∈ g.ids ∧ slot.Assigns g.code x ∧ WrittenAs x v := by
    intro p hrun hmem
    obtain ⟨l, g, hl, hg, hid, x, hassigns, hfits, rfl⟩ := VariantPass.exists_assigned hrun hv
    exact ⟨p.pass, hmem, l, g, x, hl, hg, hid, hassigns, hfits.writtenAs⟩
  cases kind with
  | metadata => cases hrecords
  | character =>
    obtain rfl := Records.variants.inj hrecords
    exact hpass .character hr List.mem_cons_self
  | animated =>
    obtain rfl := Records.variants.inj hrecords
    exact hpass .animated hr List.mem_cons_self

theorem exists_animated {source : Source} {slot : ColorSlot} {v : Nat}
    (h : (VariantPass.animated.run source {}).1.map (fun r => r.colors.get slot) = [some v]) :
    ∃ rs r, (Document.extract source {} .animated).records = .variants rs ∧ r ∈ rs ∧ r.colors.get slot = some v := by
  obtain ⟨r, hr, hcolor⟩ := List.map_eq_singleton_iff.mp h
  have hmem : r ∈ (VariantPass.animated.run source {}).1 := by
    rw [hr]
    exact List.mem_singleton_self r
  exact ⟨_, r, rfl, hmem, hcolor⟩

theorem color_in_range_iff_triple :
    let source := Source.ofString "sprites.c" ("int _trans_asprite(int sprite)\n\x7b\nswitch (sprite) \x7b\n" ++
      "case 1:\nc1 = c2 = c3 = IRGB(33, 0, 5);\nbreak;\n\x7d\n\x7d\n")
    ∃ rs r, (Document.extract source {} .animated).records = .variants rs ∧ r ∈ rs ∧ r.colors.get .c2 = some 1029 ∧
      ∃ pass ∈ DocumentKind.animated.passes, ∃ l g x, Located.find? source (({} : Settings).functionFor pass) = some l ∧
        g ∈ caseGroups .fallThrough breakStatement l.code ∧ r.id ∈ g.ids ∧ ColorSlot.c2.Assigns g.code x ∧ WrittenAs x 1029 := by
  intro source
  obtain ⟨rs, r, hrecords, hr, hcolor⟩ := @exists_animated source .c2 1029 (by decide +kernel)
  exact ⟨rs, r, hrecords, hr, hcolor, color_in_range_iff hrecords hr hcolor⟩

/-- A numeral of more than fifteen bits goes into a record as it is, and its channels do not give it back. -/
theorem wide_color_kept :
    let source := Source.ofString "sprites.c"
      "int _trans_asprite(int sprite)\n\x7b\nswitch (sprite) \x7b\ncase 1:\nc1 = 0x12345;\nbreak;\n\x7d\n\x7d\n"
    ∃ rs r, (Document.extract source {} .animated).records = .variants rs ∧ r ∈ rs ∧ r.colors.get .c1 = some 74565 ∧
      ¬74565 < 2 ^ 15 ∧
        PackedColor.pack (PackedColor.unpack 74565).1 (PackedColor.unpack 74565).2.1 (PackedColor.unpack 74565).2.2 = 9029 := by
  intro source
  obtain ⟨rs, r, hrecords, hr, hcolor⟩ := @exists_animated source .c1 74565 (by decide +kernel)
  exact ⟨rs, r, hrecords, hr, hcolor, by decide, by decide⟩

end SpriteFacts
