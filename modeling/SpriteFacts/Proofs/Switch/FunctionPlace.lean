import SpriteFacts.Proofs.Switch.Blanking

/-! The place of a function's body in its source. The body stands behind an opening brace and ends at a closing brace or
    with the source, and it holds the same code whether the comments of the source are blanked out first or those
    of the body afterwards, if it is found at the same place both times. A comment can move it only by what it
    does to the head of the function or by a brace of its own. -/

namespace SpriteFacts.Switch

open Text Pattern

/-! ### The body between its braces -/

theorem text_signature {last : Option Char} {cs : List Char} {r : Reading} (h : r ∈ signature.readings last cs) :
    ∃ t, r.text = t ++ ['\x7b'] := by
  have hsignature : signature = .seq (Pattern.optional (.seq (wordStart "DLL_EXPORT") blanks1))
    (.seq (Pattern.optional (.seq (wordStart "unsigned") blanks1)) (.seq (wordStart "int") afterInt)) := rfl
  rw [hsignature] at h
  obtain ⟨a, -, a', ha', rfl⟩ := mem_readings_seq.mp h
  obtain ⟨b, -, b', hb', rfl⟩ := mem_readings_seq.mp ha'
  obtain ⟨c, -, c', hc', rfl⟩ := mem_readings_seq.mp hb'
  obtain ⟨gap, t, gap2, inner, gap3, rest, -, -, -, -, -, -, -, rfl⟩ := mem_readings_afterInt.mp hc'
  exact ⟨a.text ++ (b.text ++ (c.text ++ (gap ++ (t ++ (gap2 ++ '(' :: (inner ++ ')' :: gap3)))))), by simp [Reading.append]⟩

/-- A signature keeps the name of its function. -/
theorem kept_signature {last : Option Char} {cs : List Char} {r : Reading} (h : r ∈ signature.readings last cs) :
    ∃ t, IsName t ∧ r.kept = [(1, t)] := by
  have hword : ∀ {s : String} {last : Option Char} {cs : List Char} {a : Reading}, s.toList.head?.any isWord = true →
      a ∈ (Pattern.optional (.seq (wordStart s) blanks1)).readings last cs → a.kept = [] := by
    intro s last cs a hs ha
    rcases mem_readings_optional.mp ha with ha | rfl
    · obtain ⟨b, hb, c, hc, rfl⟩ := mem_readings_seq.mp ha
      obtain ⟨-, rest, -, rfl⟩ := (mem_readings_wordStart hs).mp hb
      obtain ⟨t, rest', -, -, -, rfl⟩ := mem_readings_run1.mp hc
      rfl
    · rfl
  have hsignature : signature = .seq (Pattern.optional (.seq (wordStart "DLL_EXPORT") blanks1))
    (.seq (Pattern.optional (.seq (wordStart "unsigned") blanks1)) (.seq (wordStart "int") afterInt)) := rfl
  rw [hsignature] at h
  obtain ⟨a, ha, a', ha', rfl⟩ := mem_readings_seq.mp h
  obtain ⟨b, hb, b', hb', rfl⟩ := mem_readings_seq.mp ha'
  obtain ⟨c, hc, c', hc', rfl⟩ := mem_readings_seq.mp hb'
  obtain ⟨-, rest, -, rfl⟩ := (mem_readings_wordStart (by decide)).mp hc
  obtain ⟨gap, t, gap2, inner, gap3, rest, -, -, -, ht, -, -, -, rfl⟩ := mem_readings_afterInt.mp hc'
  exact ⟨t, ht, by simp [Reading.append, hword (by decide) ha, hword (by decide) hb]⟩

theorem split_untilClosed (depth : Nat) (cs : List Char) :
    ∃ behind, cs = (untilClosed depth cs).1 ++ behind ∧ (behind = [] ∨ ∃ rest, behind = '\x7d' :: rest) := by
  induction cs generalizing depth with
  | nil => exact ⟨[], rfl, Or.inl rfl⟩
  | cons c cs ih =>
    by_cases hopen : c = '\x7b'
    · obtain ⟨behind, hsplit, hbehind⟩ := ih (depth + 1)
      rw [hopen, untilClosed_open]
      exact ⟨behind, congrArg ('\x7b' :: ·) hsplit, hbehind⟩
    · by_cases hclose : c = '\x7d'
      · rw [hclose]
        cases depth with
        | zero => exact ⟨'\x7d' :: cs, rfl, Or.inr ⟨cs, rfl⟩⟩
        | succ depth =>
          obtain ⟨behind, hsplit, hbehind⟩ := ih depth
          rw [untilClosed_close]
          exact ⟨behind, congrArg ('\x7d' :: ·) hsplit, hbehind⟩
      · obtain ⟨behind, hsplit, hbehind⟩ := ih depth
        rw [untilClosed_cons hopen hclose]
        exact ⟨behind, congrArg (c :: ·) hsplit, hbehind⟩

/-- The body stands between the two texts of the source. -/
structure FunctionBody.StandsIn (b : FunctionBody) (source before behind : List Char) : Prop where
  split : source = before ++ '\x7b' :: (b.text ++ behind)
  offset : b.offset = byteLength before + 1
  closed : behind = [] ∨ ∃ rest, behind = '\x7d' :: rest

/-- The byte offset behind the head of a function, if the source defines it. -/
def headStop? (source : List Char) (function : String) : Option Nat :=
  ((signature.findAll source).find? fun m => String.ofList (m.group 1) == function).map (·.stop)

/-- The body that starts at a byte offset. -/
def bodyAt (source : List Char) (stop : Nat) : FunctionBody :=
  let (text, complete) := untilClosed 0 (dropBytes stop source)
  ⟨text, stop, complete⟩

theorem find?_eq_bodyAt (source : List Char) (function : String) :
    FunctionBody.find? source function = (headStop? source function).map (bodyAt source) := by
  rw [FunctionBody.find?, headStop?, Option.map_map]
  rfl

theorem split_of_headStop? {source : List Char} {function : String} {stop : Nat} (h : headStop? source function = some stop) :
    ∃ before behind, source = before ++ '\x7b' :: behind ∧ stop = byteLength before + 1 := by
  obtain ⟨m, hm, rfl⟩ := Option.map_eq_some_iff.mp h
  obtain ⟨before, r, hstands⟩ := mem_findAll (List.mem_of_find?_eq_some hm)
  obtain ⟨t, ht⟩ := text_signature (mem_of_read? hstands.read)
  refine ⟨before ++ t, r.rest, ?_, ?_⟩
  · rw [hstands.split, ht]
    simp
  · rw [hstands.match_eq, Reading.toMatch, ht]
    simp only [byteLength_append, Nat.zero_add, Nat.add_assoc]
    rfl

/-- Only what has the form of a name can be found. -/
theorem isName_of_find? {source : List Char} {function : String} {b : FunctionBody}
    (h : FunctionBody.find? source function = some b) : IsName function.toList := by
  rw [FunctionBody.find?] at h
  obtain ⟨m, hm, -⟩ := Option.map_eq_some_iff.mp h
  obtain ⟨before, r, hstands⟩ := mem_findAll (List.mem_of_find?_eq_some hm)
  obtain ⟨t, ht, hkept⟩ := kept_signature (mem_of_read? hstands.read)
  have hgroup : m.group 1 = t := by
    rw [hstands.match_eq, Reading.toMatch, hkept]
    rfl
  have hname := List.find?_some hm
  rw [beq_iff_eq, hgroup] at hname
  rw [← hname, String.toList_ofList]
  exact ht

theorem dropBytes_brace (before behind : List Char) :
    dropBytes (byteLength before + 1) (before ++ '\x7b' :: behind) = behind := by
  have h := dropBytes_append (before ++ ['\x7b']) behind
  rw [byteLength_append, List.append_assoc] at h
  exact h

theorem FunctionBody.exists_standsIn {source : List Char} {function : String} {b : FunctionBody}
    (h : FunctionBody.find? source function = some b) : ∃ before behind, b.StandsIn source before behind := by
  rw [find?_eq_bodyAt] at h
  obtain ⟨stop, hstop, rfl⟩ := Option.map_eq_some_iff.mp h
  obtain ⟨before, rest, hsource, rfl⟩ := split_of_headStop? hstop
  obtain ⟨behind, hrest, hbehind⟩ := split_untilClosed 0 rest
  have hbody : (bodyAt source (byteLength before + 1)).text = (untilClosed 0 rest).1 := by
    rw [hsource, bodyAt, dropBytes_brace]
  exact ⟨before, behind, by rw [hbody, ← hrest, hsource], rfl, hbehind⟩

/-! ### The place with comments and without -/

/-- The place of a body in its source and its size, in bytes. -/
def FunctionBody.extent (b : FunctionBody) : Nat × Nat := (b.offset, byteLength b.text)

/-- Blanking out the comments of the source neither moves the body of the function nor changes its size. -/
def Unmoved (source : List Char) (function : String) : Prop :=
  (FunctionBody.find? (withoutComments source) function).map FunctionBody.extent =
    (FunctionBody.find? source function).map FunctionBody.extent

instance (source : List Char) (function : String) : Decidable (Unmoved source function) :=
  inferInstanceAs (Decidable (_ = _))

/-- A body that stands at the same place with comments and without holds the same code. -/
theorem withoutComments_of_extent {source before before' behind behind' : List Char} {b b' : FunctionBody}
    (h : b.StandsIn source before behind) (h' : b'.StandsIn (withoutComments source) before' behind')
    (hextent : b'.extent = b.extent) : withoutComments b'.text = withoutComments b.text := by
  obtain ⟨hoffset, hsize⟩ := Prod.mk.inj hextent
  obtain ⟨ms, hms⟩ := exists_commented source
  have hfree : CommentFree b'.text := by
    have hsplit := commentFree_withoutComments source
    rw [h'.split, ← List.singleton_append, ← List.append_assoc] at hsplit
    exact hsplit.part
  obtain ⟨as, bs, rfl, rfl, hbs⟩ := split_of_blanked (by decide) (by decide) (hms.withoutComments_eq.symm.trans h'.split)
  -- The closing brace stands outside of the comments as well, so the marks of the body are a part of all marks.
  obtain ⟨xs, ys, rfl, hxs⟩ : ∃ xs ys, bs = xs ++ ys ∧ b'.text = blanked xs := by
    rcases h'.closed with rfl | ⟨rest, rfl⟩
    · exact ⟨bs, [], (List.append_nil bs).symm, by rw [← hbs, List.append_nil]⟩
    · obtain ⟨xs, ys, rfl, hxs, -⟩ := split_of_blanked (by decide) (by decide) hbs.symm
      exact ⟨xs, _, rfl, hxs⟩
  have hsource : Mark.textOf as ++ '\x7b' :: (Mark.textOf xs ++ Mark.textOf ys) = before ++ '\x7b' :: (b.text ++ behind) := by
    rw [← h.split, ← hms.textOf_eq]
    simp [Mark.text]
  have hbefore : byteLength (Mark.textOf as) = byteLength before := by
    rw [← byteLength_blanked]
    have hb := h.offset
    have hb' := h'.offset
    omega
  obtain ⟨-, hrest⟩ := append_inj_of_byteLength hsource hbefore
  have hbody : byteLength (Mark.textOf xs) = byteLength b.text := by rw [← byteLength_blanked, ← hxs, hsize]
  obtain ⟨htext, -⟩ := append_inj_of_byteLength (List.cons.inj hrest).2 hbody
  have hassoc : as ++ .plain '\x7b' :: (xs ++ ys) = (as ++ [.plain '\x7b']) ++ (xs ++ ys) := by simp
  rw [hassoc] at hms
  have hpart : Commented b.text xs := htext ▸ hms.drop.take
  rw [hfree.withoutComments_eq, hxs, hpart.withoutComments_eq]

theorem Unmoved.code_eq {source : List Char} {function : String} (h : Unmoved source function) :
    (FunctionBody.find? (withoutComments source) function).map (fun b => withoutComments b.text) =
      (FunctionBody.find? source function).map fun b => withoutComments b.text := by
  unfold Unmoved at h
  cases hb : FunctionBody.find? source function with
  | none =>
    rw [hb, Option.map_none, Option.map_eq_none_iff] at h
    rw [h]
  | some b =>
    rw [hb, Option.map_some] at h
    obtain ⟨b', hb', hextent⟩ := Option.map_eq_some_iff.mp h
    obtain ⟨before, behind, hstands⟩ := FunctionBody.exists_standsIn hb
    obtain ⟨before', behind', hstands'⟩ := FunctionBody.exists_standsIn hb'
    rw [hb', Option.map_some, Option.map_some, withoutComments_of_extent hstands hstands' hextent]

/-! ### What keeps a body in its place -/

/-- Comments without braces do not change where a body ends. -/
theorem byteLength_untilClosed {ms : List (Mark Unit)}
    (h : ∀ i t kept, .found i t kept ∈ ms → t.all (fun c => c != '\x7b' && c != '\x7d') = true) (depth : Nat) :
    byteLength (untilClosed depth (blanked ms)).1 = byteLength (untilClosed depth (Mark.textOf ms)).1 := by
  induction ms generalizing depth with
  | nil => rfl
  | cons m ms ih =>
    have hms := ih fun i t kept hm => h i t kept (List.mem_cons_of_mem _ hm)
    cases m with
    | plain c =>
      show byteLength (untilClosed depth (c :: blanked ms)).1 = byteLength (untilClosed depth (c :: Mark.textOf ms)).1
      by_cases hopen : c = '\x7b'
      · rw [hopen, untilClosed_open, untilClosed_open, byteLength_cons, byteLength_cons, hms]
      · by_cases hclose : c = '\x7d'
        · rw [hclose]
          cases depth with
          | zero => rfl
          | succ depth => rw [untilClosed_close, untilClosed_close, byteLength_cons, byteLength_cons, hms]
        · rw [untilClosed_cons hopen hclose, untilClosed_cons hopen hclose, byteLength_cons, byteLength_cons, hms]
    | found i t kept =>
      have ht := h i t kept List.mem_cons_self
      have hblank : (t.flatMap blankOut).all (fun c => c != '\x7b' && c != '\x7d') = true :=
        List.all_eq_true.mpr fun c hc => by
          obtain ⟨d, -, hd⟩ := List.mem_flatMap.mp hc
          rcases mem_blankOut hd with rfl | rfl <;> decide
      have hleft := byteLength_blanked [.found i t kept]
      simp only [blanked, Mark.replaced, List.flatMap_cons, List.flatMap_nil, List.append_nil, render_found] at hleft
      show byteLength (untilClosed depth (Mark.render () _ (.found i t kept) ++ blanked ms)).1 =
        byteLength (untilClosed depth (t ++ Mark.textOf ms)).1
      rw [render_found, untilClosed_append hblank, untilClosed_append ht, byteLength_append, byteLength_append, hms, hleft]
      simp [Mark.text]

/-- Where the heads of the function stay and no comment holds a brace, the body stays in its place. -/
theorem unmoved_of_headStop? {source : List Char} {function : String}
    (hhead : headStop? (withoutComments source) function = headStop? source function)
    (hbraces : ∀ m ∈ comment.findAll source, m.text.all (fun c => c != '\x7b' && c != '\x7d') = true) :
    Unmoved source function := by
  rw [Unmoved, find?_eq_bodyAt, find?_eq_bodyAt, hhead, Option.map_map, Option.map_map]
  cases hstop : headStop? source function with
  | none => rfl
  | some stop =>
    obtain ⟨ms, hms⟩ := exists_commented source
    obtain ⟨before, behind, hblanked, rfl⟩ := split_of_headStop? (hhead.trans hstop)
    obtain ⟨as, bs, rfl, rfl, rfl⟩ := split_of_blanked (by decide) (by decide) (hms.withoutComments_eq.symm.trans hblanked)
    have hsource : source = Mark.textOf as ++ '\x7b' :: Mark.textOf bs := by
      rw [← hms.textOf_eq]
      simp [Mark.text]
    have hmarks : ∀ i t kept, .found i t kept ∈ bs → t.all (fun c => c != '\x7b' && c != '\x7d') = true := by
      intro i t kept hm
      have hall : .found i t kept ∈ as ++ .plain '\x7b' :: bs := List.mem_append_right _ (List.mem_cons_of_mem _ hm)
      obtain ⟨cs, ds, hsplit⟩ := List.append_of_mem hall
      exact hbraces _ (hms.findAll_eq () ▸ Mark.mem_matchesOf_iff.mpr ⟨cs, t, kept, ds, hsplit, rfl⟩)
    have hclosed := byteLength_untilClosed hmarks 0
    have hraw : dropBytes (byteLength (blanked as) + 1) source = Mark.textOf bs := by
      rw [byteLength_blanked, hsource, dropBytes_brace]
    simp only [Option.map_some, Function.comp_apply, FunctionBody.extent, bodyAt]
    rw [hblanked, dropBytes_brace, hraw, hclosed]

end SpriteFacts.Switch
