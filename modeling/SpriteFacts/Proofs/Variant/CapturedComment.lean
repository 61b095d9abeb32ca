import SpriteFacts.Proofs.Expression.Grammar
import SpriteFacts.Proofs.Pattern.Language
import SpriteFacts.Proofs.Switch.FallThrough
import SpriteFacts.Proofs.Switch.NeutralPart
import SpriteFacts.Proofs.Variant.StaticChannel

/-! The comment that is captured for a case group. It is searched for in the text of the group as it is written, at places that
    are found in the text with comments blanked out. Behind the `break;` of the group only a line comment can be found. In
    front of it the search takes the first two slashes side by side, and those stand inside of a block comment if that
    holds some, or if a slash stands right behind its end. The main statement says that nothing else is mistaken for a
    line comment. -/

namespace SpriteFacts

open Text Pattern

namespace Switch

/-! ### The part of a body that a group is cut from -/

theorem span_of_mem_joinNext {current g : CaseGroup} {gs : List CaseGroup} (h : g ∈ joinNext current gs) :
    ∃ x ∈ current :: gs, g.spanStart = x.spanStart ∧ g.spanStop = x.spanStop := by
  induction gs generalizing current with
  | nil => exact ⟨current, List.mem_cons_self, by rw [List.mem_singleton.mp h]; exact ⟨rfl, rfl⟩⟩
  | cons y gs ih =>
    rw [joinNext] at h
    split at h
    · obtain ⟨x, hx, hspan⟩ := ih h
      rcases List.mem_cons.mp hx with rfl | hx
      · exact ⟨current, List.mem_cons_self, hspan⟩
      · exact ⟨x, List.mem_cons_of_mem _ (List.mem_cons_of_mem _ hx), hspan⟩
    · rcases List.mem_cons.mp h with rfl | h
      · exact ⟨g, List.mem_cons_self, rfl, rfl⟩
      · obtain ⟨x, hx, hspan⟩ := ih h
        exact ⟨x, List.mem_cons_of_mem _ hx, hspan⟩

theorem owned_append_ends (ms : List LandMark) : ∃ more, ms = owned ms ++ more ∧ ∀ m ∈ more.head?, endsSpan m = true := by
  refine ⟨ms.dropWhile fun m => !endsSpan m, List.takeWhile_append_dropWhile.symm, fun m hm => ?_⟩
  have hstop := List.head?_dropWhile_not (fun m => !endsSpan m) ms
  rw [hm] at hstop
  simpa using hstop

/-- A chain takes the marks up to one that ends a span. -/
theorem toBreak_append_ends {ms taken : List LandMark} (h : toBreak ms = some taken) :
    ∃ more, ms = taken ++ more ∧ ∀ m ∈ more.head?, endsSpan m = true := by
  have later : ∀ {ms taken : List LandMark}, toLaterBreak ms = some taken →
      ∃ more, ms = taken ++ more ∧ ∀ m ∈ more.head?, endsSpan m = true := by
    intro ms
    induction ms with
    | nil => exact fun h => nomatch h
    | cons m ms ih =>
      intro taken h
      rw [toLaterBreak] at h
      split at h
      · obtain rfl := Option.some.inj h
        obtain ⟨more, hmore, hends⟩ := owned_append_ends ms
        exact ⟨more, congrArg (m :: ·) hmore, hends⟩
      · obtain ⟨rest, hrest, rfl⟩ := Option.map_eq_some_iff.mp h
        obtain ⟨more, rfl, hends⟩ := ih hrest
        exact ⟨more, rfl, hends⟩
  rw [toBreak] at h
  split at h
  · obtain rfl := Option.some.inj h
    exact owned_append_ends ms
  · exact later h

/-- The group is cut from a part of the body that begins behind a colon and ends at a word or where the body ends. -/
structure CaseGroup.StandsIn (g : CaseGroup) (body front part back : List Char) : Prop where
  split : body = front ++ ':' :: (part ++ back)
  start : g.spanStart = byteLength (front ++ [':'])
  stop : g.spanStop = g.spanStart + byteLength part
  back : ∀ c ∈ back.head?, c ≠ ' ' ∧ c ≠ '\n'

theorem exists_standsIn {g : CaseGroup} {body : List Char} (hg : g ∈ caseGroups .fallThrough breakStatement body) :
    ∃ front part back, g.StandsIn body front part back := by
  obtain ⟨ms, hscan⟩ := Scan.exists_of_apart Landmark.apart none body
  rw [caseGroups_eq hscan] at hg
  obtain ⟨chain, hchain, hstart, hstop⟩ : ∃ x ∈ chainsOf 0 ms, g.spanStart = x.spanStart ∧ g.spanStop = x.spanStop := by
    cases hgs : chainsOf 0 ms with
    | nil =>
      rw [hgs] at hg
      cases hg
    | cons x gs =>
      rw [hgs] at hg
      exact span_of_mem_joinNext hg
  obtain ⟨s, hs, hchain⟩ := List.mem_filterMap.mp hchain
  obtain ⟨us, m, hat⟩ := mem_stationsOf hs
  obtain ⟨taken, htaken, hchain⟩ := Option.bind_eq_some_iff.mp hchain
  obtain ⟨more, hmore, hends⟩ := toBreak_append_ends htaken
  obtain ⟨hcstart, hcstop⟩ : chain.spanStart = s.label.codeStart ∧
      chain.spanStop = s.label.codeStart + byteLength (Mark.textOf taken) := by
    simp only [chainAt] at hchain
    split at hchain
    · split at hchain
      · cases hchain
      · obtain rfl := Option.some.inj hchain
        exact ⟨rfl, rfl⟩
    · cases hchain
  obtain ⟨t, kept, rfl⟩ := isFound_of_number? hat.number
  have hmarks : ms = us ++ .found .numbered t kept :: (taken ++ more) := by rw [← hmore]; exact hat.split
  obtain ⟨inner, htext⟩ : ∃ inner, t = inner ++ [':'] := by
    obtain ⟨rest, -, hread⟩ := Scan.here ((hmarks ▸ hscan).drop us)
    obtain ⟨-, inner, htext, -⟩ := Landmark.shape hread
    exact ⟨Landmark.numbered.word ++ inner, htext.trans (List.append_assoc _ _ _).symm⟩
  refine ⟨Mark.textOf us ++ inner, Mark.textOf taken, Mark.textOf more, ?_, ?_, ?_, fun c hc => ?_⟩
  · rw [← hscan.textOf_eq, hmarks]
    simp [Mark.text, htext]
  · rw [hstart, hcstart, hat.codeStart, hat.start, Nat.zero_add, List.append_assoc, ← htext, byteLength_append]
    rfl
  · rw [hstop, hcstop, hstart, hcstart]
  · -- What ends a span is a label, and that begins with its word.
    cases more with
    | nil => cases hc
    | cons m more =>
      have hm := hends m rfl
      obtain ⟨i, u, kept', rfl⟩ : ∃ i u kept', m = .found i u kept' := by
        cases m with
        | plain d => cases hm
        | found i u kept' => exact ⟨i, u, kept', rfl⟩
      rw [hmarks, show us ++ .found .numbered t kept :: (taken ++ .found i u kept' :: more) =
        (us ++ .found .numbered t kept :: taken) ++ .found i u kept' :: more by simp] at hscan
      obtain ⟨rest, -, hread⟩ := (hscan.drop _).here
      obtain ⟨-, inner', hword, -⟩ := Landmark.shape hread
      obtain rfl : u = i.word ++ (inner' ++ [i.mark]) := hword
      cases i <;>
        · obtain rfl := Option.some.inj hc
          decide

/-! ### The comments of a body -/

section Comments
variable {body w cs line rest : List Char} {ms : List (Mark Unit)} {g : CaseGroup}

/-- The text of a group and its code stand between the same marks of the body. -/
theorem exists_marks (h : Commented body ms) (hg : g ∈ caseGroups .fallThrough breakStatement (withoutComments body)) :
    ∃ as cs ds, ms = as ++ (cs ++ ds) ∧ g.spanStart = byteLength (Mark.textOf as) ∧ g.spanOf body = Mark.textOf cs ∧
      g.spanOf (withoutComments body) = blanked cs := by
  obtain ⟨front, part, back, hin⟩ := exists_standsIn hg
  have hsplit := hin.split
  rw [h.withoutComments_eq] at hsplit
  obtain ⟨as, bs, rfl, rfl, hbs⟩ := split_of_blanked (by decide) (by decide) hsplit
  obtain ⟨cs, ds, rfl, rfl⟩ : ∃ cs ds, bs = cs ++ ds ∧ part = blanked cs := by
    cases back with
    | nil => exact ⟨bs, [], (List.append_nil bs).symm, (List.append_nil part).symm.trans hbs⟩
    | cons c back =>
      obtain ⟨hspace, hline⟩ := hin.back c rfl
      obtain ⟨cs, ds, rfl, rfl, -⟩ := split_of_blanked hspace hline hbs.symm
      exact ⟨cs, .plain c :: ds, rfl, rfl⟩
  have hstart : g.spanStart = byteLength (Mark.textOf (as ++ [.plain ':'])) := by
    rw [hin.start, byteLength_append, byteLength_blanked, Mark.textOf_append, byteLength_append]
    rfl
  have hlength : g.spanStop - g.spanStart = byteLength (Mark.textOf cs) := by
    rw [hin.stop, Nat.add_sub_cancel_left, byteLength_blanked]
  refine ⟨as ++ [.plain ':'], cs, ds, by simp, hstart, ?_, ?_⟩
  · have hbody : body = Mark.textOf (as ++ [.plain ':']) ++ (Mark.textOf cs ++ Mark.textOf ds) := by
      rw [← h.textOf_eq]
      simp [Mark.text]
    rw [CaseGroup.spanOf, slice, hlength, hstart, hbody, dropBytes_append, takeBytes_append]
  · rw [CaseGroup.spanOf, slice, hlength, ← byteLength_blanked cs, hin.start, hin.split,
      List.append_cons (blanked as) ':' (blanked cs ++ back), dropBytes_append, takeBytes_append]

/-- Text in front of which no comment opens is not marked. -/
theorem Commented.split_plain (h : Commented (w ++ cs) ms) (hw : '/' ∉ w) : ∃ ns, ms = w.map .plain ++ ns ∧ Commented cs ns := by
  induction w generalizing ms with
  | nil => exact ⟨ms, rfl, h⟩
  | cons c w ih =>
    cases ms with
    | nil => exact absurd h.textOf_eq (List.cons_ne_nil _ _).symm
    | cons m ms =>
      cases m with
      | plain d =>
        have htext : d :: Mark.textOf ms = c :: (w ++ cs) := h.textOf_eq
        obtain ⟨rfl, htail⟩ := List.cons.inj htext
        have hrest : Commented (w ++ cs) ms := htail ▸ @Commented.drop _ [.plain d] _ h
        obtain ⟨ns, rfl, hns⟩ := ih hrest fun hmem => hw (List.mem_cons_of_mem _ hmem)
        exact ⟨ns, rfl, hns⟩
      | found i t kept =>
        obtain ⟨rest, hsplit, hread⟩ := Scan.here h
        rcases read?_comment_eq_some hread with ⟨as, bs, hopens, -⟩ | ⟨as, bs, hopens, -⟩
        · rw [← hsplit] at hopens
          exact absurd ((List.cons.inj hopens).1 ▸ List.mem_cons_self) hw
        · rw [← hsplit] at hopens
          exact absurd ((List.cons.inj hopens).1 ▸ List.mem_cons_self) hw

/-- Where a line comment opens it is marked up to the end of its line. -/
theorem Commented.exists_line (h : Commented ('/' :: '/' :: (line ++ rest)) ms) (hline : line.all (· != '
') = true)
    (hrest : rest.head?.all (fun c => !(c != '
')) = true) : ∃ ns, ms = .found () ('/' :: '/' :: line) [] :: ns := by
  have hread := read?_line hline hrest none
  cases ms with
  | nil => exact absurd h.textOf_eq (List.cons_ne_nil _ _).symm
  | cons m ms =>
    cases m with
    | plain c =>
      have hnone := Scan.unread h ()
      rw [show c :: Mark.textOf ms = Mark.textOf (.plain c :: ms) from rfl, h.textOf_eq, hread] at hnone
      cases hnone
    | found i t kept =>
      obtain ⟨rest', hsplit, hfound⟩ := Scan.here h
      rw [← hsplit, hread] at hfound
      obtain ⟨rfl, rfl, -⟩ := Reading.mk.inj (Option.some.inj hfound)
      exact ⟨ms, rfl⟩

end Comments

end Switch

namespace VariantPass

open Switch

/-! ### What the search for slashes reads -/

def isTab (c : Char) : Bool := c == ' ' || c == '\t'

/-- Nowhere in the text do two slashes stand side by side. -/
def NoSlashes (cs : List Char) : Prop := ∀ as bs, cs ≠ as ++ '/' :: '/' :: bs

theorem isBlank_of_isTab {c : Char} (h : isTab c = true) : isBlank c = true := by
  rw [isTab, Bool.or_eq_true, beq_iff_eq, beq_iff_eq] at h
  rcases h with rfl | rfl <;> decide

theorem trim_append_of_tabs {tabs cs : List Char} (h : tabs.all isTab = true) : trim (tabs ++ cs) = trim cs := by
  have hblank : ∀ c ∈ tabs, isBlank c = true := fun c hc => isBlank_of_isTab (List.all_eq_true.mp h c hc)
  rw [trim, trimStart, List.dropWhile_append_of_pos hblank]
  rfl

/-- The text behind slashes, up to the end of the line or of the text, and the text that is kept of it. -/
structure Slashes (cs line rest kept : List Char) : Prop where
  split : cs = '/' :: '/' :: (line ++ rest)
  inLine : line.all (· != '\n') = true
  ends : rest.head?.all (fun c => !(c != '\n')) = true
  trimmed : trim kept = trim line

section Slashes
variable {last : Option Char} {cs : List Char} {r : Reading} {m : Match}

theorem read?_anyLineComment (h : anyLineComment.read? last cs = some r) :
    ∃ line kept, Slashes cs line r.rest kept ∧ r.kept = [(1, kept)] := by
  obtain ⟨a, ha, b, hb, rfl⟩ := read?_seq h
  obtain ⟨rest1, rfl, rfl⟩ := mem_readings_literal.mp ha
  obtain ⟨c, hc, d, hd, rfl⟩ := read?_seq hb
  obtain ⟨tabs, rest2, hrest1, htabs, rfl⟩ := mem_readings_run.mp hc
  obtain ⟨e, he, rfl⟩ := read?_group hd
  have hends := read?_run he
  obtain ⟨kept, rest, hrest2, hkept, rfl⟩ := mem_readings_run.mp (mem_of_read? he)
  obtain rfl : rest1 = tabs ++ rest2 := hrest1
  obtain rfl : rest2 = kept ++ rest := hrest2
  have hlines : tabs.all (· != '\n') = true := List.all_eq_true.mpr fun c hc => by
    have htab := List.all_eq_true.mp htabs c hc
    rw [Bool.or_eq_true, beq_iff_eq, beq_iff_eq] at htab
    rcases htab with rfl | rfl <;> decide
  refine ⟨tabs ++ kept, kept, ⟨?_, ?_, hends, (trim_append_of_tabs htabs).symm⟩, rfl⟩
  · rw [List.append_assoc]
    rfl
  · rw [List.all_append, hlines, hkept]
    rfl

theorem exists_mem_anyLineComment (last : Option Char) (cs : List Char) :
    ∃ r, r ∈ anyLineComment.readings last ('/' :: '/' :: cs) :=
  exists_seq (mem_readings_literal.mpr ⟨cs, rfl, rfl⟩) (exists_seq (mem_readings_run.mpr ⟨[], cs, rfl, rfl, rfl⟩)
    ⟨_, mem_readings_group.mpr ⟨_, mem_readings_run.mpr ⟨[], cs, rfl, rfl, rfl⟩, rfl⟩⟩)

/-- The first slashes of a text are found. -/
theorem find?_anyLineComment (h : anyLineComment.find? cs = some m) : ∃ before behind line rest, cs = before ++ behind ∧
    Slashes behind line rest (m.group 1) ∧ NoSlashes (before ++ ['/']) := by
  obtain ⟨before, r, hstands, hclear⟩ := findFrom_eq_some h
  obtain ⟨line, kept, hslashes, hkept⟩ := read?_anyLineComment hstands.read
  have hgroup : m.group 1 = kept := by
    rw [hstands.match_eq, Match.group, Match.group?]
    show ((r.kept.find? fun k => k.1 == 1).map (·.2)).getD [] = kept
    rw [hkept]
    rfl
  refine ⟨before, r.text ++ r.rest, line, r.rest, hstands.split, hgroup ▸ hslashes, fun as bs hearlier => ?_⟩
  -- Slashes that begin earlier would be read there.
  obtain ⟨w, rfl, hw⟩ : ∃ w, before = as ++ w ∧ w ++ ['/'] = '/' :: '/' :: bs := by
    rcases List.append_eq_append_iff.mp hearlier with ⟨w, rfl, hw⟩ | ⟨w, rfl, hw⟩
    · exact absurd (congrArg List.length hw) (by simp; omega)
    · exact ⟨w, rfl, hw.symm⟩
  have hne : w ≠ [] := by
    rintro rfl
    cases hw
  have hbehind : ∃ ds, w ++ (r.text ++ r.rest) = '/' :: '/' :: ds := by
    rw [hslashes.split, List.append_cons w, hw]
    exact ⟨_, rfl⟩
  obtain ⟨ds, hds⟩ := hbehind
  have hnone := clear_iff.mp hclear as w rfl hne
  rw [hds, read?_eq_none] at hnone
  obtain ⟨s, hs⟩ := exists_mem_anyLineComment (lastOf none as) ds
  exact hnone s hs

/-- Behind a `break;` slashes are found on the same line only, with nothing but spaces and tabs in front of them. -/
theorem find?_trailingComment (h : trailingComment.find? cs = some m) : ∃ (gap : Gap) (tabs behind line rest : List Char),
    cs = "break".toList ++ (gap.text ++ ';' :: (tabs ++ behind)) ∧ tabs.all isTab = true ∧
      Slashes behind line rest (m.group 1) := by
  obtain ⟨before, r, hstands, -⟩ := findFrom_eq_some h
  have hread : (seq textStart (seq (literal "break") (seq blanks (seq (char ';') (seq Pattern.tabs anyLineComment))))).read?
      (lastOf none before) (r.text ++ r.rest) = some r := hstands.read
  obtain ⟨a, ha, b, hb, hr⟩ := read?_seq hread
  obtain ⟨hstart, rfl⟩ := mem_readings_textStart.mp ha
  obtain rfl := eq_nil_of_lastOf hstart
  obtain ⟨c, hc, d, hd, rfl⟩ := read?_seq hb
  obtain ⟨rest1, hrest1, rfl⟩ := mem_readings_literal.mp hc
  obtain ⟨e, he, f, hf, rfl⟩ := read?_seq hd
  obtain ⟨gap, rest2, hrest2, hgap, rfl⟩ := mem_readings_run.mp he
  obtain ⟨x, hx, y, hy, rfl⟩ := read?_seq hf
  obtain ⟨rest3, hrest3, rfl⟩ := mem_readings_char.mp hx
  obtain ⟨z, hz, k, hk, rfl⟩ := read?_seq hy
  obtain ⟨tabs, rest4, hrest4, htabs, rfl⟩ := mem_readings_run.mp hz
  obtain ⟨line, kept, hslashes, hkept⟩ := read?_anyLineComment hk
  simp only at hrest1 hrest2 hrest3 hrest4 hslashes
  have hgroup : m.group 1 = kept := by
    simp [hstands.match_eq, hr, Match.group, Match.group?, Reading.toMatch, Reading.append, hkept]
  exact ⟨⟨gap, hgap⟩, tabs, rest4, line, _, by rw [hstands.split, hrest1, hrest2, hrest3, hrest4]; rfl, htabs, hgroup ▸ hslashes⟩

end Slashes

/-! ### Where the comment is read from -/

/-- The line stands behind slashes at a byte offset of the body. -/
def LineAt (body : List Char) (offset : Nat) (line : List Char) : Prop :=
  ∃ before rest, body = before ++ '/' :: '/' :: (line ++ rest) ∧ byteLength before = offset ∧ line.all (· != '\n') = true

/-- The scan for comments finds a line comment with the line at the offset. -/
def IsLineComment (body : List Char) (offset : Nat) (line : List Char) : Prop :=
  ∃ m ∈ comment.findAll body, m.start = offset ∧ m.text = '/' :: '/' :: line

/-- The scan for comments finds a block comment around the offset. -/
def InBlockComment (body : List Char) (offset : Nat) : Prop :=
  ∃ m ∈ comment.findAll body, (∃ t, m.text = '/' :: '*' :: t) ∧ m.start < offset ∧ offset < m.stop

/-- Between the `break;` of the group and the offset there are only spaces and tabs. -/
def Trails (body : List Char) (g : CaseGroup) (stop : Match) (offset : Nat) : Prop :=
  ∃ (gap : Gap) (tabs : List Char), tabs.all isTab = true ∧
    slice (g.spanStart + stop.start) offset body = "break".toList ++ (gap.text ++ ';' :: tabs)

/-- The first slashes of the group stand at the offset, in front of its `break;`. -/
def Precedes (body : List Char) (g : CaseGroup) (stop : Match) (offset : Nat) : Prop :=
  g.spanStart ≤ offset ∧ offset < g.spanStart + stop.start ∧ NoSlashes (slice g.spanStart offset body ++ ['/'])

section Marked
variable {body before line rest t u v : List Char} {kept : List (Nat × List Char)} {as bs xs : List (Mark Unit)}

theorem isLineComment_of_marks (h : Commented body (as ++ .found () ('/' :: '/' :: line) [] :: bs)) :
    IsLineComment body (byteLength (Mark.textOf as)) line :=
  ⟨_, by rw [h.findAll_eq ()]; exact Mark.mem_matchesOf_iff.mpr ⟨as, _, _, bs, rfl, rfl⟩, Nat.zero_add _, rfl⟩

theorem inBlockComment_of_marks (h : Commented body (as ++ .found () t kept :: bs)) (ht : ∃ t', t = '/' :: '*' :: t')
    (hsplit : t = u ++ v) (hu : u ≠ []) (hv : v ≠ []) : InBlockComment body (byteLength (Mark.textOf as) + byteLength u) := by
  have hupos := byteLength_pos hu
  have hvpos := byteLength_pos hv
  have hlength : byteLength t = byteLength u + byteLength v := by rw [hsplit, byteLength_append]
  refine ⟨_, by rw [h.findAll_eq ()]; exact Mark.mem_matchesOf_iff.mpr ⟨as, t, kept, bs, rfl, rfl⟩, ht, ?_, ?_⟩
  · show 0 + byteLength (Mark.textOf as) < _
    omega
  · show _ < 0 + byteLength (Mark.textOf as) + byteLength t
    omega

/-- Inside of a block comment no line comment is found. -/
theorem not_isLineComment_of_inBlockComment {offset : Nat} (h : InBlockComment body offset) : ¬IsLineComment body offset line := by
  obtain ⟨ms, hms⟩ := exists_commented body
  obtain ⟨m, hm, -, hstart, hstop⟩ := h
  rintro ⟨m', hm', rfl, -⟩
  rw [hms.findAll_eq ()] at hm hm'
  obtain ⟨as, t, kept, bs, rfl, rfl⟩ := Mark.mem_matchesOf_iff.mp hm
  obtain ⟨as', t', kept', bs', hmarks, rfl⟩ := Mark.mem_matchesOf_iff.mp hm'
  simp only [Nat.zero_add] at hstart hstop
  -- The two starts are places of one text, and the second lies in the text of the first comment.
  have htext : Mark.textOf as ++ (t ++ Mark.textOf bs) = Mark.textOf as' ++ (t' ++ Mark.textOf bs') := by
    have hall := congrArg Mark.textOf hmarks
    rw [Mark.textOf_append, Mark.textOf_append] at hall
    exact hall
  rcases List.append_eq_append_iff.mp htext with ⟨u, hu, hrest⟩ | ⟨u, hu, -⟩
  · rw [hu, byteLength_append] at hstart hstop
    rcases List.append_eq_append_iff.mp hrest with ⟨v, hv, -⟩ | ⟨v, hv, -⟩
    · rw [hv, byteLength_append] at hstop
      omega
    · refine Mark.textOf_ne_inside hmarks hv ?_ ?_ hu
      · rintro rfl
        exact Nat.lt_irrefl _ hstart
      · rintro rfl
        rw [hv, List.append_nil] at hstop
        exact Nat.lt_irrefl _ hstop
  · rw [hu, byteLength_append] at hstart
    omega

/-- The first slashes of a text begin a line comment, or they stand inside of a block comment. -/
theorem line_or_block (h : Commented (Mark.textOf xs) xs) (htext : Mark.textOf xs = before ++ '/' :: '/' :: (line ++ rest))
    (hline : line.all (· != '\n') = true) (hrest : rest.head?.all (fun c => !(c != '\n')) = true)
    (hfirst : NoSlashes (before ++ ['/'])) :
    (∃ ps qs, xs = ps ++ .found () ('/' :: '/' :: line) [] :: qs ∧ Mark.textOf ps = before) ∨
      ∃ ps t kept qs u v, xs = ps ++ .found () t kept :: qs ∧ (∃ t', t = '/' :: '*' :: t') ∧ t = u ++ v ∧ u ≠ [] ∧ v ≠ [] ∧
        before = Mark.textOf ps ++ u := by
  obtain ⟨ps, m, qs, u, v, rfl, hm, rfl, hbehind⟩ := split_of_flatMap (u := before) htext
  have hscan : Commented (Mark.textOf (m :: qs)) (m :: qs) := h.drop
  cases u with
  | nil =>
    left
    have hopens : Mark.textOf (m :: qs) = '/' :: '/' :: (line ++ rest) := by
      rw [Mark.textOf_cons, hm, hbehind]
      rfl
    obtain ⟨ns, hns⟩ := Commented.exists_line (hopens ▸ hscan) hline hrest
    obtain ⟨rfl, rfl⟩ := List.cons.inj hns
    exact ⟨ps, qs, rfl, (List.append_nil _).symm⟩
  | cons c u =>
    right
    cases m with
    | plain d => exact absurd (congrArg List.length (List.cons.inj hm).2) (by simp)
    | found i t kept =>
      obtain ⟨rest', -, hread⟩ := Scan.here hscan
      rcases read?_comment_eq_some hread with ⟨as, bs, -, -, -, hr⟩ | ⟨as, bs, -, -, hr⟩
      · -- A line comment begins with slashes, and they would stand earlier.
        obtain ⟨rfl, -, -⟩ := Reading.mk.inj hr
        exfalso
        obtain ⟨rfl, htail⟩ := List.cons.inj hm
        cases u with
        | nil => exact hfirst (Mark.textOf ps) [] (List.append_assoc _ _ _)
        | cons d u =>
          obtain ⟨rfl, -⟩ := List.cons.inj htail
          exact hfirst (Mark.textOf ps) (u ++ ['/']) (List.append_assoc _ _ _)
      · obtain ⟨rfl, -, -⟩ := Reading.mk.inj hr
        exact ⟨ps, _, kept, qs, c :: u, '/' :: v, rfl, ⟨_, rfl⟩, hm, List.cons_ne_nil _ _, List.cons_ne_nil _ _, rfl⟩

end Marked

section Capture
variable {raw code : List Char} {s : String} {xs ys : List (Mark Unit)}

/-- The first `break;` of a blanked text stands between the marks of the text. -/
theorem split_at_break {cs : List (Mark Unit)} {stop : Match} (h : breakStatement.find? (blanked cs) = some stop) :
    ∃ xs ys, cs = xs ++ .plain 'b' :: ys ∧ stop.start = byteLength (Mark.textOf xs) := by
  obtain ⟨before, r, hstands, -⟩ := findFrom_eq_some h
  obtain ⟨-, blanks, rest, hsplit, -, -⟩ :=
    (@mem_readings_markedWord "break" ';' _ _ _ (by decide)).mp (mem_of_read? hstands.read)
  obtain ⟨xs, ys, hcs, rfl, -⟩ := split_of_blanked (c := 'b') (by decide) (by decide) (hstands.split.trans (by rw [hsplit]; rfl))
  exact ⟨xs, ys, hcs, by rw [hstands.match_eq, ← byteLength_blanked xs]; exact Nat.zero_add _⟩

/-- A comment is captured behind the `break;` if slashes are found there, else in front of it. -/
theorem captured_cases {stop : Match} (hstop : breakStatement.find? code = some stop)
    (h : capturedComment? raw code = some s) : ∃ m,
      (trailingComment.find? (dropBytes stop.start raw) = some m ∨ anyLineComment.find? (takeBytes stop.start raw) = some m) ∧
      trim (m.group 1) ≠ [] ∧ s = String.ofList (trim (m.group 1)) := by
  rw [capturedComment?, hstop, Option.bind_some] at h
  obtain ⟨m, hm, hs⟩ := Option.bind_eq_some_iff.mp h
  refine ⟨m, ?_, ?_⟩
  · split at hm
    · rename_i hfound
      exact Or.inl (hfound.trans hm)
    · exact Or.inr hm
  · simp only at hs
    split at hs
    · cases hs
    · rename_i hne
      exact ⟨by simpa using hne, (Option.some.inj hs).symm⟩

/-- Behind the `break;` only a line comment is found. -/
theorem isLineComment_of_trailing {body : List Char} {g : CaseGroup} {stop m : Match} {as ds : List (Mark Unit)}
    (hms : Commented body (as ++ ((xs ++ .plain 'b' :: ys) ++ ds))) (hstart : g.spanStart = byteLength (Mark.textOf as))
    (hbreak : stop.start = byteLength (Mark.textOf xs))
    (hm : trailingComment.find? (Mark.textOf (.plain 'b' :: ys)) = some m) :
    ∃ offset line, LineAt body offset line ∧ trim (m.group 1) = trim line ∧ Trails body g stop offset ∧
      IsLineComment body offset line := by
  obtain ⟨gap, tabs, behind, line, rest, hsplit, htabs, hslashes⟩ := find?_trailingComment hm
  let w := "break".toList ++ (gap.text ++ ';' :: tabs)
  have hsplit' : Mark.textOf (.plain 'b' :: ys) = w ++ behind := by
    rw [hsplit]
    simp [w]
  -- No comment opens before the slashes, so that is where the next one is marked.
  have hw : '/' ∉ w := by
    have htab : '/' ∉ tabs := fun hmem => absurd (List.all_eq_true.mp htabs _ hmem) (by decide)
    simp (disch := decide) [w, Gap.not_mem, htab]
  have hafter : Commented (Mark.textOf (.plain 'b' :: ys)) (.plain 'b' :: ys) := (hms.drop.take).drop
  obtain ⟨ns, hns, hbehind⟩ := Commented.split_plain (hsplit' ▸ hafter) hw
  obtain ⟨ns, rfl⟩ := Commented.exists_line (hslashes.split ▸ hbehind) hslashes.inLine hslashes.ends
  have hplain : Mark.textOf (w.map (Mark.plain : Char → Mark Unit)) = w := by simp [Mark.textOf, List.flatMap_map, Mark.text]
  have hmarks : Commented body ((as ++ (xs ++ w.map .plain)) ++ .found () ('/' :: '/' :: line) [] :: (ns ++ ds)) := by
    rw [hns] at hms
    simpa using hms
  have hbody : body = (Mark.textOf as ++ Mark.textOf xs) ++ (w ++ ('/' :: '/' :: (line ++ Mark.textOf (ns ++ ds)))) := by
    rw [← hmarks.textOf_eq]
    simp [hplain, Mark.text]
  have hoffset : byteLength (Mark.textOf (as ++ (xs ++ w.map .plain))) = g.spanStart + stop.start + byteLength w := by
    rw [hstart, hbreak]
    simp [hplain, Nat.add_assoc]
  refine ⟨_, line, ⟨(Mark.textOf as ++ Mark.textOf xs) ++ w, Mark.textOf (ns ++ ds), ?_, ?_, hslashes.inLine⟩, hslashes.trimmed,
    ⟨gap, tabs, htabs, ?_⟩, isLineComment_of_marks hmarks⟩
  · rw [hbody, List.append_assoc _ w]
  · rw [hoffset, hstart, hbreak, byteLength_append, byteLength_append]
  · have hsum : g.spanStart + stop.start = byteLength (Mark.textOf as ++ Mark.textOf xs) := by
      rw [hstart, hbreak, byteLength_append]
    rw [slice, hoffset, Nat.add_sub_cancel_left, hsum, hbody, dropBytes_append, takeBytes_append]

/-- In front of the `break;` the first slashes are found. -/
theorem line_or_block_of_preceding {body : List Char} {g : CaseGroup} {stop m : Match} {as ds : List (Mark Unit)}
    (hms : Commented body (as ++ ((xs ++ .plain 'b' :: ys) ++ ds))) (hstart : g.spanStart = byteLength (Mark.textOf as))
    (hbreak : stop.start = byteLength (Mark.textOf xs)) (hm : anyLineComment.find? (Mark.textOf xs) = some m) :
    ∃ offset line, LineAt body offset line ∧ trim (m.group 1) = trim line ∧ Precedes body g stop offset ∧
      (IsLineComment body offset line ∨ InBlockComment body offset) := by
  obtain ⟨before, behind, line, rest, hxs, hslashes, hfirst⟩ := find?_anyLineComment hm
  have hsplit : Mark.textOf xs = before ++ '/' :: '/' :: (line ++ rest) := by rw [hxs, hslashes.split]
  have hbody : body = Mark.textOf as ++ (before ++ '/' :: '/' :: (line ++ (rest ++ Mark.textOf (.plain 'b' :: (ys ++ ds))))) := by
    rw [← hms.textOf_eq]
    simp [hsplit]
  have hlength : byteLength (Mark.textOf xs) = byteLength before + (1 + (1 + byteLength (line ++ rest))) := by
    rw [hsplit, byteLength_append]
    rfl
  refine ⟨g.spanStart + byteLength before, line, ⟨Mark.textOf as ++ before, rest ++ Mark.textOf (.plain 'b' :: (ys ++ ds)), ?_, ?_,
    hslashes.inLine⟩, hslashes.trimmed,
    ⟨Nat.le_add_right _ _, ?_, ?_⟩, ?_⟩
  · rw [hbody, List.append_assoc]
  · rw [hstart, byteLength_append]
  · omega
  · rwa [slice, Nat.add_sub_cancel_left, hstart, hbody, dropBytes_append, takeBytes_append]
  · have hscan : Commented (Mark.textOf xs) xs := ((hms.drop).take).take
    rcases line_or_block hscan hsplit hslashes.inLine hslashes.ends hfirst with
      ⟨ps, qs, rfl, rfl⟩ | ⟨ps, t, kept, qs, u, v, rfl, ht, htext, hu, hv, rfl⟩
    · left
      have hmarks : Commented body ((as ++ ps) ++ .found () ('/' :: '/' :: line) [] :: (qs ++ .plain 'b' :: (ys ++ ds))) := by
        simpa using hms
      have hline := isLineComment_of_marks hmarks
      rwa [Mark.textOf_append, byteLength_append, ← hstart] at hline
    · right
      have hmarks : Commented body ((as ++ ps) ++ .found () t kept :: (qs ++ .plain 'b' :: (ys ++ ds))) := by simpa using hms
      have hblock := inBlockComment_of_marks hmarks ht htext hu hv
      rwa [Mark.textOf_append, byteLength_append, ← hstart, Nat.add_assoc, ← byteLength_append] at hblock

theorem not_trails_of_precedes {body : List Char} {g : CaseGroup} {stop : Match} {offset : Nat} (h : Precedes body g stop offset) :
    ¬Trails body g stop offset := by
  rintro ⟨gap, tabs, -, hslice⟩
  have hzero : offset - (g.spanStart + stop.start) = 0 := Nat.sub_eq_zero_of_le (Nat.le_of_lt h.2.1)
  rw [slice, hzero, takeBytes_zero] at hslice
  cases hslice

end Capture

/-- A comment that is captured for a group is a line behind slashes, without the blanks around it. The slashes stand behind the
    first `break;` of the group with spaces and tabs in between, or they are the first of the group and stand in front of
    that `break;`. They begin a line comment exactly if no block comment holds them, and behind the `break;` they always do. -/
theorem captured_iff_not_inBlockComment {l : Located} {g : CaseGroup} {s : String}
    (hg : g ∈ caseGroups .fallThrough breakStatement l.code)
    (h : capturedComment? (g.spanOf l.body.text) (g.spanOf l.code) = some s) :
    ∃ stop offset line, breakStatement.find? (g.spanOf l.code) = some stop ∧ LineAt l.body.text offset line ∧
      trim line ≠ [] ∧ s = String.ofList (trim line) ∧
      (Trails l.body.text g stop offset ∨ Precedes l.body.text g stop offset) ∧
      (IsLineComment l.body.text offset line ↔ ¬InBlockComment l.body.text offset) ∧
      (Trails l.body.text g stop offset → IsLineComment l.body.text offset line) := by
  obtain ⟨ms, hms⟩ := exists_commented l.body.text
  obtain ⟨as, cs, ds, rfl, hstart, hraw, hblanked⟩ := exists_marks hms hg
  have hcode : g.spanOf l.code = blanked cs := hblanked
  rw [hraw, hcode] at h
  rw [hcode]
  obtain ⟨stop, hstop, -⟩ := Option.bind_eq_some_iff.mp h
  obtain ⟨m, hm, hne, hs⟩ := captured_cases hstop h
  obtain ⟨xs, ys, rfl, hbreak⟩ := split_at_break hstop
  rw [hbreak, Mark.textOf_append, dropBytes_append, takeBytes_append] at hm
  rcases hm with hm | hm
  · obtain ⟨offset, line, hat, htrim, htrails, hline⟩ := isLineComment_of_trailing hms hstart hbreak hm
    exact ⟨stop, offset, line, hstop, hat, htrim ▸ hne, htrim ▸ hs, Or.inl htrails,
      iff_of_true hline fun hblock => not_isLineComment_of_inBlockComment hblock hline, fun _ => hline⟩
  · obtain ⟨offset, line, hat, htrim, hprecedes, hfound⟩ := line_or_block_of_preceding hms hstart hbreak hm
    refine ⟨stop, offset, line, hstop, hat, htrim ▸ hne, htrim ▸ hs, Or.inr hprecedes, ?_,
      fun htrails => absurd htrails (not_trails_of_precedes hprecedes)⟩
    rcases hfound with hline | hblock
    · exact iff_of_true hline fun hblock => not_isLineComment_of_inBlockComment hblock hline
    · exact iff_of_false (not_isLineComment_of_inBlockComment hblock) fun hnot => hnot hblock

theorem captured_iff_not_inBlockComment_trailing :
    let source := Source.ofString "walls.c"
      "int _trans_asprite(int sprite)\n\x7b\nswitch (sprite) \x7b\ncase 1: cr = 5; break; // the wall\n\x7d\n\x7d\n"
    ∃ l g, Located.find? source "_trans_asprite" = some l ∧ g ∈ caseGroups .fallThrough breakStatement l.code ∧
      capturedComment? (g.spanOf l.body.text) (g.spanOf l.code) = some "the wall" ∧
      ∃ offset line, IsLineComment l.body.text offset line ∧ "the wall" = String.ofList (trim line) := by
  intro source
  have hgroups : (Located.find? source "_trans_asprite").map (fun l => (caseGroups .fallThrough breakStatement l.code).map
      fun g => (capturedComment? (g.spanOf l.body.text) (g.spanOf l.code), (comment.findAll l.body.text).map (·.text))) =
        some [(some "the wall", ["// the wall".toList])] := by decide +kernel
  obtain ⟨l, g, hl, hmem, hg⟩ := exists_only_group hgroups
  obtain ⟨hcaptured, htokens⟩ := Prod.mk.inj hg
  obtain ⟨stop, offset, line, -, -, -, hs, -, hiff, -⟩ := captured_iff_not_inBlockComment hmem hcaptured
  refine ⟨l, g, hl, hmem, hcaptured, offset, line, hiff.mpr ?_, hs⟩
  rintro ⟨m, hm, ⟨t, ht⟩, -⟩
  have htext := List.mem_map_of_mem (f := (·.text)) hm
  rw [htokens, ht] at htext
  cases List.mem_singleton.mp htext

/-- Slashes inside of a block comment are taken for a line comment, with the code behind the block. -/
theorem block_comment_captured :
    let source := Source.ofString "walls.c" ("int _trans_asprite(int sprite)\n\x7b\nswitch (sprite) \x7b\n" ++
      "case 1: /* see // the wall */ cr = 5; break;\n\x7d\n\x7d\n")
    ∃ l g, Located.find? source "_trans_asprite" = some l ∧ g ∈ caseGroups .fallThrough breakStatement l.code ∧
      capturedComment? (g.spanOf l.body.text) (g.spanOf l.code) = some "the wall */ cr = 5;" ∧
      ∀ offset line, ¬IsLineComment l.body.text offset line := by
  intro source
  have hgroups : (Located.find? source "_trans_asprite").map (fun l => (caseGroups .fallThrough breakStatement l.code).map
      fun g => (capturedComment? (g.spanOf l.body.text) (g.spanOf l.code), (comment.findAll l.body.text).map (·.text))) =
        some [(some "the wall */ cr = 5;", ["/* see // the wall */".toList])] := by decide +kernel
  obtain ⟨l, g, hl, hmem, hg⟩ := exists_only_group hgroups
  obtain ⟨hcaptured, htokens⟩ := Prod.mk.inj hg
  refine ⟨l, g, hl, hmem, hcaptured, ?_⟩
  rintro offset line ⟨m, hm, -, ht⟩
  have htext := List.mem_map_of_mem (f := (·.text)) hm
  rw [htokens, ht] at htext
  cases List.mem_singleton.mp htext

end VariantPass
end SpriteFacts
