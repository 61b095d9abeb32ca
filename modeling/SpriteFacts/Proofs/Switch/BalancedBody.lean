import SpriteFacts.Proofs.Switch.FunctionPlace
import SpriteFacts.Proofs.Text.Utf8

/-! The braces of a function's body. A source is scanned for signatures once, and the first signature of a name is where
    the function of that name is defined. The body that stands behind it opens a block before it closes it, at every
    byte, and it either closes as many blocks as it opens and stands before a closing brace, or runs to the end of the
    source. -/

namespace SpriteFacts

namespace Mark

/-- The first match that a condition on the kept texts holds for is a mark, and no mark in front of it fulfils it. -/
theorem find?_matchesOf {ι : Type} [DecidableEq ι] {i : ι} {q : List (Nat × List Char) → Bool} {n : Nat} {ms : List (Mark ι)}
    {m : Match} (h : (matchesOf i n ms).find? (fun m => q m.kept) = some m) :
    ∃ front t kept back, ms = front ++ .found i t kept :: back ∧ q kept = true ∧
      m.stop = n + Text.byteLength (textOf front) + Text.byteLength t ∧
      ∀ u kept', .found i u kept' ∈ front → q kept' = false := by
  induction ms generalizing n with
  | nil => cases h
  | cons mark ms ih =>
    have further : ∀ {n'}, n' = n + Text.byteLength mark.text → (matchesOf i n' ms).find? (fun m => q m.kept) = some m →
        (∀ u kept, mark = .found i u kept → q kept = false) →
        ∃ front t kept back, mark :: ms = front ++ .found i t kept :: back ∧ q kept = true ∧
          m.stop = n + Text.byteLength (textOf front) + Text.byteLength t ∧
          ∀ u kept', .found i u kept' ∈ front → q kept' = false := by
      rintro _ rfl h hmark
      obtain ⟨front, t, kept, back, rfl, hq, hstop, hfront⟩ := ih h
      refine ⟨mark :: front, t, kept, back, rfl, hq, by simp [hstop, Nat.add_assoc], fun u kept' hmem => ?_⟩
      rcases List.mem_cons.mp hmem with heq | hmem
      · exact hmark u kept' heq.symm
      · exact hfront u kept' hmem
    cases mark with
    | plain c =>
      refine further (by simp [text]) h fun u kept' heq => ?_
      cases heq
    | found j t kept =>
      rw [matchesOf] at h
      by_cases hj : j = i
      · subst hj
        rw [if_pos rfl, List.singleton_append, List.find?_cons] at h
        cases hq : q kept with
        | true =>
          rw [hq] at h
          obtain rfl := Option.some.inj h
          refine ⟨[], t, kept, ms, rfl, hq, rfl, fun u kept' hmem => ?_⟩
          cases hmem
        | false =>
          rw [hq] at h
          refine further rfl h fun u kept' heq => ?_
          cases heq
          exact hq
      · rw [if_neg hj, List.nil_append] at h
        refine further rfl h fun u kept' heq => ?_
        cases heq
        exact absurd rfl hj

end Mark

namespace Switch

open Text Pattern

/-! ### Nesting -/

/-- The byte that opens a block. -/
def openByte : UInt8 := asciiByte '\x7b'

/-- The byte that closes a block. -/
def closeByte : UInt8 := asciiByte '\x7d'

/-- What the depth of a text says about it and the text behind it, if so many blocks are open in front of it. -/
structure Nested (depth : Nat) (t : List Char) (complete : Bool) (behind : List Char) : Prop where
  nested : ∀ us, us <+: t → us.count '\x7d' ≤ us.count '\x7b' + depth
  closed : complete = true → t.count '\x7d' = t.count '\x7b' + depth ∧ ∃ rest, behind = '\x7d' :: rest
  unclosed : complete = false → behind = []

theorem Nested.cons {depth depth' : Nat} {t behind : List Char} {complete : Bool} {c : Char} (h : Nested depth' t complete behind)
    (hstep : depth + [c].count '\x7b' = depth' + [c].count '\x7d') : Nested depth (c :: t) complete behind where
  nested us hus := by
    obtain rfl | ⟨vs, rfl, hvs⟩ := List.prefix_cons_iff.mp hus
    · exact Nat.zero_le _
    · have hle := h.nested vs hvs
      rw [← List.singleton_append, List.count_append, List.count_append]
      omega
  closed hcomplete := by
    obtain ⟨hcount, hbehind⟩ := h.closed hcomplete
    refine ⟨?_, hbehind⟩
    rw [← List.singleton_append, List.count_append, List.count_append]
    omega
  unclosed := h.unclosed

/-- In front of an empty text nothing has been closed. -/
theorem count_of_prefix_nil (depth : Nat) {us : List Char} (h : us <+: []) : us.count '\x7d' ≤ us.count '\x7b' + depth := by
  rw [List.prefix_nil.mp h]
  exact Nat.zero_le _

/-- The scan for the closing brace keeps count of the blocks that are open. -/
theorem nested_untilClosed (depth : Nat) (cs : List Char) : ∃ behind, cs = (untilClosed depth cs).1 ++ behind ∧
    Nested depth (untilClosed depth cs).1 (untilClosed depth cs).2 behind := by
  induction cs generalizing depth with
  | nil => exact ⟨[], rfl, fun _ => count_of_prefix_nil depth, fun h => absurd h Bool.false_ne_true, fun _ => rfl⟩
  | cons c cs ih =>
    by_cases hopen : c = '\x7b'
    · obtain ⟨behind, hsplit, hnested⟩ := ih (depth + 1)
      rw [hopen, untilClosed_open]
      exact ⟨behind, congrArg ('\x7b' :: ·) hsplit, hnested.cons rfl⟩
    · by_cases hclose : c = '\x7d'
      · rw [hclose]
        cases depth with
        | zero =>
          rw [untilClosed, if_neg (by decide), if_pos rfl]
          exact ⟨'\x7d' :: cs, rfl, fun _ => count_of_prefix_nil 0, fun _ => ⟨rfl, cs, rfl⟩, fun h => absurd h.symm Bool.false_ne_true⟩
        | succ depth =>
          obtain ⟨behind, hsplit, hnested⟩ := ih depth
          rw [untilClosed_close]
          exact ⟨behind, congrArg ('\x7d' :: ·) hsplit, hnested.cons rfl⟩
      · obtain ⟨behind, hsplit, hnested⟩ := ih depth
        have hopens : [c].count '\x7b' = 0 := List.count_eq_zero.mpr fun hmem => hopen (List.mem_singleton.mp hmem).symm
        have hcloses : [c].count '\x7d' = 0 := List.count_eq_zero.mpr fun hmem => hclose (List.mem_singleton.mp hmem).symm
        rw [untilClosed_cons hopen hclose]
        exact ⟨behind, congrArg (c :: ·) hsplit, hnested.cons (by rw [hopens, hcloses])⟩

/-! ### The first definition -/

/-- The name that a signature keeps, if the mark is one. -/
def definedName? : Mark Unit → Option (List Char)
  | .plain _ => none
  | .found _ _ kept => kept.lookup 1

/-- No byte of the body closes a block that is not open, and the body ends at the brace that closes it or with the source. -/
structure FunctionBody.Balanced (b : FunctionBody) (behind : List Char) : Prop where
  nested : ∀ front, front <+: utf8 b.text → front.count closeByte ≤ front.count openByte
  closed : b.complete = true → (utf8 b.text).count openByte = (utf8 b.text).count closeByte ∧ (utf8 behind).head? = some closeByte
  unclosed : b.complete = false → behind = []

theorem Nested.balanced {b : FunctionBody} {behind : List Char} (h : Nested 0 b.text b.complete behind) : b.Balanced behind where
  nested front hfront := by
    obtain ⟨us, hus, hcount⟩ := exists_prefix hfront
    rw [closeByte, openByte, hcount _ (by decide), hcount _ (by decide)]
    exact h.nested us hus
  closed hcomplete := by
    obtain ⟨hcount, rest, rfl⟩ := h.closed hcomplete
    exact ⟨by rw [openByte, closeByte, count_utf8 (by decide), count_utf8 (by decide), hcount, Nat.add_zero], rfl⟩
  unclosed := h.unclosed

/-- The head is the first of the marks that defines a function of the name. -/
structure FirstDefinition (name : String) (ms front : List (Mark Unit)) (head : Mark Unit) (back : List (Mark Unit)) : Prop where
  split : ms = front ++ head :: back
  first : ∀ m ∈ front, definedName? m ≠ some name.toList
  named : definedName? head = some name.toList
  opens : ∃ t, head.text = t ++ ['\x7b']

/-- The question whether a signature keeps the name of a function. -/
def keepsName (name : String) (kept : List (Nat × List Char)) : Bool :=
  String.ofList (((kept.find? fun k => k.1 == 1).map (·.2)).getD []) == name

section Scan
variable {source : List Char} {ms : List (Mark Unit)} {name : String}

theorem exists_signed (source : List Char) : ∃ ms, Scan (fun _ : Unit => signature) none source ms :=
  Scan.exists_of_apart (fun h => ⟨by
    obtain ⟨t, ht⟩ := text_signature (mem_of_read? h)
    rw [ht]
    exact List.append_ne_nil_of_right_ne_nil t (List.cons_ne_nil _ _), fun hne => absurd rfl hne⟩) none source

/-- A mark of the scan is a signature. -/
theorem readings_of_signed (h : Scan (fun _ : Unit => signature) none source ms) {i : Unit} {t : List Char}
    {kept : List (Nat × List Char)} (hm : .found i t kept ∈ ms) :
    ∃ last rest, (⟨t, kept, rest⟩ : Reading) ∈ signature.readings last (t ++ rest) := by
  obtain ⟨as, bs, rfl⟩ := List.append_of_mem hm
  obtain ⟨rest, -, hread⟩ := (h.drop as).here
  exact ⟨_, rest, mem_of_read? hread⟩

theorem keepsName_iff (h : Scan (fun _ : Unit => signature) none source ms) {i : Unit} {t : List Char}
    {kept : List (Nat × List Char)} (hm : .found i t kept ∈ ms) :
    keepsName name kept = true ↔ definedName? (.found i t kept) = some name.toList := by
  obtain ⟨last, rest, hread⟩ := readings_of_signed h hm
  obtain ⟨u, -, hkept⟩ := kept_signature hread
  obtain rfl : kept = [(1, u)] := hkept
  show (String.ofList u == name) = true ↔ some u = some name.toList
  rw [beq_iff_eq, Option.some.injEq]
  exact ⟨fun h => by rw [← h, String.toList_ofList], fun h => by rw [h, String.ofList_toList]⟩

/-- The search for the head of a function goes through the marks. -/
theorem headStop?_signed (h : Scan (fun _ : Unit => signature) none source ms) :
    headStop? source name = ((Mark.matchesOf () 0 ms).find? fun m => keepsName name m.kept).map (·.stop) := by
  rw [headStop?, ← h.findAll_eq ()]
  rfl

theorem headStop?_eq_none_iff (h : Scan (fun _ : Unit => signature) none source ms) :
    headStop? source name = none ↔ ∀ m ∈ ms, definedName? m ≠ some name.toList := by
  rw [headStop?_signed h, Option.map_eq_none_iff, List.find?_eq_none]
  constructor
  · intro hnone m hm hname
    cases m with
    | plain c => cases hname
    | found i t kept =>
      obtain ⟨as, bs, hsplit⟩ := List.append_of_mem hm
      exact hnone _ (Mark.mem_matchesOf_iff.mpr ⟨as, t, kept, bs, hsplit, rfl⟩) ((keepsName_iff h hm).mpr hname)
  · intro hnone m hm hkeeps
    obtain ⟨as, t, kept, bs, hsplit, rfl⟩ := Mark.mem_matchesOf_iff.mp hm
    have hmem : .found () t kept ∈ ms := hsplit ▸ List.mem_append_right as List.mem_cons_self
    exact hnone _ hmem ((keepsName_iff h hmem).mp hkeeps)

/-- The head of a function is found at the first of the marks that defines it. -/
theorem exists_firstDefinition (h : Scan (fun _ : Unit => signature) none source ms) {stop : Nat}
    (hstop : headStop? source name = some stop) :
    ∃ front head back, FirstDefinition name ms front head back ∧ stop = byteLength (Mark.textOf front ++ head.text) := by
  rw [headStop?_signed h] at hstop
  obtain ⟨m, hm, rfl⟩ := Option.map_eq_some_iff.mp hstop
  obtain ⟨front, t, kept, back, hsplit, hkeeps, hoffset, hfront⟩ := Mark.find?_matchesOf hm
  have hhead : .found () t kept ∈ ms := hsplit ▸ List.mem_append_right front List.mem_cons_self
  obtain ⟨last, rest, hread⟩ := readings_of_signed h hhead
  refine ⟨front, .found () t kept, back, ⟨hsplit, fun mark hmark hname => ?_, (keepsName_iff h hhead).mp hkeeps,
    text_signature hread⟩, by rw [hoffset, byteLength_append, Nat.zero_add]; rfl⟩
  cases mark with
  | plain c => cases hname
  | found i u kept' =>
    have hmem : .found i u kept' ∈ ms := hsplit ▸ List.mem_append_left _ hmark
    exact absurd ((keepsName_iff h hmem).mpr hname) (by rw [hfront u kept' hmark]; exact nofun)

end Scan

/-- The body that starts behind a text is read from the text that follows. -/
theorem bodyAt_append (before cs : List Char) :
    bodyAt (before ++ cs) (byteLength before) = ⟨(untilClosed 0 cs).1, byteLength before, (untilClosed 0 cs).2⟩ := by
  rw [bodyAt, dropBytes_append]

theorem exists_balanced (before cs : List Char) :
    ∃ behind, cs = (bodyAt (before ++ cs) (byteLength before)).text ++ behind ∧
      (bodyAt (before ++ cs) (byteLength before)).Balanced behind := by
  obtain ⟨behind, hsplit, hnested⟩ := nested_untilClosed 0 cs
  rw [bodyAt_append]
  exact ⟨behind, hsplit, Nested.balanced hnested⟩

/-- The body of a function is the text behind the first signature of its name, up to the brace that closes it: there is
    one if and only if the scan for signatures marks one of that name. -/
theorem body_of_first_definition (source : List Char) (name : String) :
    ∃ ms, (∀ ns, Scan (fun _ : Unit => signature) none source ns ↔ ns = ms) ∧
      (FunctionBody.find? source name = none ↔ ∀ m ∈ ms, definedName? m ≠ some name.toList) ∧
      ∀ b, FunctionBody.find? source name = some b → ∃ front head back behind, FirstDefinition name ms front head back ∧
        source = Mark.textOf front ++ (head.text ++ (b.text ++ behind)) ∧
        b.offset = (utf8 (Mark.textOf front ++ head.text)).length ∧ b.Balanced behind := by
  obtain ⟨ms, hms⟩ := exists_signed source
  refine ⟨ms, fun ns => ⟨fun h => hms.unique h, fun h => h ▸ hms⟩, ?_, fun b hb => ?_⟩
  · rw [find?_eq_bodyAt, Option.map_eq_none_iff, headStop?_eq_none_iff hms]
  · rw [find?_eq_bodyAt] at hb
    obtain ⟨stop, hstop, rfl⟩ := Option.map_eq_some_iff.mp hb
    obtain ⟨front, head, back, hfirst, rfl⟩ := exists_firstDefinition hms hstop
    have hsource : source = (Mark.textOf front ++ head.text) ++ Mark.textOf back := by
      rw [← hms.textOf_eq, hfirst.split]
      simp
    obtain ⟨behind, hback, hbalanced⟩ := exists_balanced (Mark.textOf front ++ head.text) (Mark.textOf back)
    rw [← hsource] at hback hbalanced
    exact ⟨front, head, back, behind, hfirst, by rw [← hback, ← List.append_assoc, ← hsource], (length_utf8 _).symm, hbalanced⟩

end Switch
end SpriteFacts
