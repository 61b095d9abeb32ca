import SpriteFacts.Proofs.Pattern.Preference
import SpriteFacts.Proofs.Switch.Blanking

/-! Comments around a part of a text. A part that neither opens nor closes a comment nor ends a line stands in the
    code or within one comment, and which of the two is decided by what stands around it. So replacing the part by
    another such part moves no comment: the rest of the text is blanked out as before. -/

namespace SpriteFacts.Switch

open Text Pattern

/-! ### What a comment takes -/

/-- No block comment is closed in the text. -/
def NoClose (cs : List Char) : Prop := ∀ as bs, cs ≠ as ++ '*' :: '/' :: bs

theorem noClose_star : NoClose ['*'] := by
  intro as bs h
  have := congrArg List.length h
  simp at this
  omega

/-- The first place that closes a comment is the first one behind another character too, unless that one closes it. -/
theorem NoClose.cons {c : Char} {as bs : List Char} (h : NoClose (as ++ ['*']))
    (hhere : ∀ ds, c :: (as ++ '*' :: '/' :: bs) ≠ '*' :: '/' :: ds) : NoClose (c :: as ++ ['*']) := by
  intro us vs huv
  cases us with
  | nil =>
    -- The characters would stand at the start of the longer text.
    obtain ⟨rfl, hrest⟩ := List.cons.inj huv
    cases as with
    | nil => exact absurd (List.cons.inj hrest).1 (by decide)
    | cons a as => exact hhere _ (congrArg ('*' :: ·) (congrArg (· :: _) (List.cons.inj hrest).1))
  | cons u us => exact h us vs (List.cons.inj huv).2

/-- Where a block comment can be closed there is a first place that closes it. -/
theorem exists_firstClose {cs as bs : List Char} (h : cs = as ++ '*' :: '/' :: bs) :
    ∃ as bs, cs = as ++ '*' :: '/' :: bs ∧ NoClose (as ++ ['*']) := by
  induction cs generalizing as with
  | nil => simp at h
  | cons c cs ih =>
    by_cases hhere : ∃ bs, c :: cs = '*' :: '/' :: bs
    · obtain ⟨bs, hbs⟩ := hhere
      exact ⟨[], bs, hbs, noClose_star⟩
    · cases as with
      | nil => exact absurd ⟨bs, h⟩ hhere
      | cons a as =>
        obtain ⟨xs, ys, rfl, hclose⟩ := ih (List.cons.inj h).2
        exact ⟨c :: xs, ys, rfl, hclose.cons (not_exists.mp hhere)⟩

theorem firstClose_unique {as bs xs ys : List Char} (has : NoClose (as ++ ['*'])) (hxs : NoClose (xs ++ ['*']))
    (h : as ++ '*' :: '/' :: bs = xs ++ '*' :: '/' :: ys) : as = xs ∧ bs = ys := by
  -- If one text went on behind the other, it would hold the place that closes the other.
  have longer : ∀ {as xs bs ys w : List Char}, NoClose (xs ++ ['*']) → xs = as ++ w →
      '*' :: '/' :: bs = w ++ '*' :: '/' :: ys → w = [] := by
    intro as xs bs ys w hxs hw hrest
    match w, hw, hrest with
    | [], _, _ => rfl
    | [_], _, hrest => exact absurd (List.cons.inj (List.cons.inj hrest).2).1 (by decide)
    | c :: d :: w, hw, hrest =>
      obtain ⟨rfl, hslash⟩ := List.cons.inj hrest
      obtain ⟨rfl, -⟩ := List.cons.inj hslash
      exact absurd (by rw [hw]; simp) (hxs as (w ++ ['*']))
  rcases List.append_eq_append_iff.mp h with ⟨w, hw, hrest⟩ | ⟨w, hw, hrest⟩
  · obtain rfl := longer hxs hw hrest
    exact ⟨(hw.trans (List.append_nil as)).symm, (List.cons.inj (List.cons.inj hrest).2).2⟩
  · obtain rfl := longer has hw hrest
    exact ⟨hw.trans (List.append_nil xs), (List.cons.inj (List.cons.inj hrest).2).2.symm⟩

/-- Behind a shortest run something is read here, or else one character further on. -/
theorem readings_lazyRun_cons (q : Pattern) (last : Option Char) (c : Char) (cs : List Char) :
    (seq (lazyRun fun _ => true) q).readings last (c :: cs) =
      (q.readings last (c :: cs)).map (Reading.append ⟨[], [], c :: cs⟩) ++
        ((seq (lazyRun fun _ => true) q).readings (some c) cs).map (Reading.cons c) := by
  have hfirst : (lazyRun fun _ => true).readings last (c :: cs) =
      ⟨[], [], c :: cs⟩ :: (lazyReadings (fun _ => true) cs).map (Reading.cons c) := rfl
  rw [readings, hfirst, List.flatMap_cons, readings, List.flatMap_map, List.map_flatMap]
  refine congrArg (_ ++ List.flatMap · _) (funext fun a => ?_)
  rw [List.map_map]
  rfl

/-- Behind its opening a block comment is read up to the first place that closes it. -/
theorem read?_closing {last : Option Char} {cs : List Char} {r : Reading}
    (h : (Pattern.seq (.lazyRun fun _ => true) (.literal "*/")).read? last cs = some r) :
    ∃ as bs, cs = as ++ '*' :: '/' :: bs ∧ NoClose (as ++ ['*']) ∧ r = ⟨as ++ ['*', '/'], [], bs⟩ := by
  have hlit : ∀ {last : Option Char} {cs : List Char} {b : Reading},
      b ∈ (Pattern.literal "*/").readings last cs ↔ ∃ bs, cs = '*' :: '/' :: bs ∧ b = ⟨['*', '/'], [], bs⟩ :=
    mem_readings_literal
  induction cs generalizing last r with
  | nil =>
    obtain ⟨a, ha, b, hb, rfl⟩ := mem_readings_seq.mp (mem_of_read? h)
    obtain rfl := List.mem_singleton.mp ha
    obtain ⟨bs, hbs, -⟩ := hlit.mp hb
    cases hbs
  | cons c cs ih =>
    rw [read?, readings_lazyRun_cons] at h
    cases hhere : (literal "*/").readings last (c :: cs) with
    | cons b bs =>
      obtain ⟨rest, hrest, rfl⟩ := hlit.mp (hhere ▸ List.mem_cons_self)
      rw [hhere] at h
      obtain rfl := Option.some.inj h
      exact ⟨[], rest, hrest, noClose_star, rfl⟩
    | nil =>
      rw [hhere, List.map_nil, List.nil_append, List.head?_map] at h
      obtain ⟨s, hs, rfl⟩ := Option.map_eq_some_iff.mp h
      obtain ⟨as, bs, rfl, hclose, rfl⟩ := ih hs
      have hopen : ∀ ds, c :: (as ++ '*' :: '/' :: bs) ≠ '*' :: '/' :: ds := fun ds hds => by
        have hread := (@hlit last _ _).mpr ⟨ds, hds, rfl⟩
        rw [hhere] at hread
        cases hread
      exact ⟨c :: as, bs, rfl, hclose.cons hopen, rfl⟩

/-- A line comment is read up to the end of its line and a block comment up to the first place that closes it. -/
theorem read?_comment_eq_some {last : Option Char} {cs : List Char} {r : Reading} (h : comment.read? last cs = some r) :
    (∃ as bs, cs = '/' :: '/' :: (as ++ bs) ∧ as.all (· != '\n') = true ∧ bs.head?.all (fun c => !(c != '\n')) = true ∧
        r = ⟨'/' :: '/' :: as, [], bs⟩) ∨
      ∃ as bs, cs = '/' :: '*' :: (as ++ '*' :: '/' :: bs) ∧ NoClose (as ++ ['*']) ∧
        r = ⟨'/' :: '*' :: (as ++ ['*', '/']), [], bs⟩ := by
  have hsplit : blockComment.read? last cs = some r ∨ lineComment.read? last cs = some r := by
    rw [read?, comment, readings, List.head?_append] at h
    exact Option.or_eq_some_iff.mp h |>.imp id And.right
  rcases hsplit with h | h
  · right
    obtain ⟨a, ha, b, hb, rfl⟩ := read?_seq h
    obtain ⟨rest, rfl, rfl⟩ := mem_readings_literal.mp ha
    obtain ⟨as, bs, hrest, hclose, rfl⟩ := read?_closing hb
    exact ⟨as, bs, by rw [show rest = _ from hrest]; rfl, hclose, rfl⟩
  · left
    obtain ⟨a, ha, b, hb, rfl⟩ := read?_seq h
    obtain ⟨rest, rfl, rfl⟩ := mem_readings_literal.mp ha
    have hstop := read?_run hb
    obtain ⟨as, bs, hrest, hall, rfl⟩ := mem_readings_run.mp (mem_of_read? hb)
    exact ⟨as, bs, by rw [show rest = _ from hrest]; rfl, hall, hstop, rfl⟩

theorem read?_line {as bs : List Char} (has : as.all (· != '\n') = true) (hbs : bs.head?.all (fun c => !(c != '\n')) = true)
    (last : Option Char) : comment.read? last ('/' :: '/' :: (as ++ bs)) = some ⟨'/' :: '/' :: as, [], bs⟩ := by
  cases h : comment.read? last ('/' :: '/' :: (as ++ bs)) with
  | none => exact absurd (Or.inl ⟨as ++ bs, rfl⟩) (read?_comment.mp h)
  | some r =>
    rcases read?_comment_eq_some h with ⟨xs, ys, hsplit, hxs, hys, rfl⟩ | ⟨xs, ys, hsplit, -⟩
    · obtain ⟨rfl, rfl⟩ := span_unique (List.cons.inj (List.cons.inj hsplit).2).2 has hxs hbs hys
      rfl
    · exact absurd (List.cons.inj (List.cons.inj hsplit).2).1 (by decide)

theorem read?_block {as : List Char} (has : NoClose (as ++ ['*'])) (bs : List Char) (last : Option Char) :
    comment.read? last ('/' :: '*' :: (as ++ '*' :: '/' :: bs)) = some ⟨'/' :: '*' :: (as ++ ['*', '/']), [], bs⟩ := by
  cases h : comment.read? last ('/' :: '*' :: (as ++ '*' :: '/' :: bs)) with
  | none => exact absurd (Or.inr ⟨as, bs, rfl⟩) (read?_comment.mp h)
  | some r =>
    rcases read?_comment_eq_some h with ⟨xs, ys, hsplit, -⟩ | ⟨xs, ys, hsplit, hxs, rfl⟩
    · exact absurd (List.cons.inj (List.cons.inj hsplit).2).1 (by decide)
    · obtain ⟨rfl, rfl⟩ := firstClose_unique has hxs (List.cons.inj (List.cons.inj hsplit).2).2
      rfl

/-! ### A part that is neutral to comments -/

/-- The part neither opens nor closes a comment nor ends a line, whatever stands around it. -/
structure Neutral (part : List Char) : Prop where
  nonempty : part ≠ []
  slash : '/' ∉ part
  line : '\n' ∉ part
  head : part.head? ≠ some '*'
  last : part.getLast? ≠ some '*'

theorem neutral_semicolon : Neutral [';'] := by
  refine ⟨?_, ?_, ?_, ?_, ?_⟩ <;> decide

section Neutral
variable {part part' front back : List Char}

/-- What closes a block comment stands in front of a neutral part or behind it. -/
theorem Neutral.split_close (h : Neutral part) {as bs : List Char} (hsplit : front ++ (part ++ back) = as ++ '*' :: '/' :: bs) :
    (∃ xs, front = as ++ '*' :: '/' :: xs) ∨ ∃ xs, as = front ++ (part ++ xs) ∧ back = xs ++ '*' :: '/' :: bs := by
  rcases List.append_eq_append_iff.mp hsplit with ⟨ws, rfl, hrest⟩ | ⟨ws, rfl, hrest⟩
  · right
    rcases List.append_eq_append_iff.mp hrest with ⟨xs, rfl, hback⟩ | ⟨xs, hpart, hback⟩
    · exact ⟨xs, rfl, hback⟩
    · match xs, hback with
      | [], hback => exact ⟨[], by rw [hpart, List.append_nil, List.append_nil], hback.symm⟩
      | [c], hback =>
        obtain ⟨rfl, -⟩ := List.cons.inj hback
        exact absurd (by rw [hpart, List.getLast?_append]; rfl) h.last
      | c :: d :: xs, hback =>
        obtain ⟨rfl, hslash⟩ := List.cons.inj hback
        obtain ⟨rfl, -⟩ := List.cons.inj hslash
        exact absurd (by rw [hpart]; simp) h.slash
  · match ws, hrest with
    | c :: d :: ws, hrest =>
      obtain ⟨rfl, hslash⟩ := List.cons.inj hrest
      obtain ⟨rfl, -⟩ := List.cons.inj hslash
      exact Or.inl ⟨ws, rfl⟩
    | [c], hrest =>
      cases hp : part with
      | nil => exact absurd hp h.nonempty
      | cons d part =>
        rw [hp] at hrest
        obtain ⟨rfl, -⟩ := List.cons.inj (List.cons.inj hrest).2
        exact absurd (by rw [hp]; exact List.mem_cons_self) h.slash
    | [], hrest =>
      cases hp : part with
      | nil => exact absurd hp h.nonempty
      | cons d part =>
        rw [hp] at hrest
        obtain ⟨rfl, -⟩ := List.cons.inj hrest
        exact absurd (by rw [hp]; rfl) h.head

theorem Neutral.noClose (h : Neutral part) (hfront : NoClose front) (hback : NoClose back) : NoClose (front ++ (part ++ back)) := by
  intro as bs hsplit
  rcases h.split_close hsplit with ⟨xs, hxs⟩ | ⟨xs, -, hxs⟩
  · exact hfront as xs hxs
  · exact hback xs bs hxs

/-- Whether a comment opens at a place in front of a neutral part does not depend on the part. -/
theorem Neutral.opens (h : Neutral part) {c : Char} (hopens : Opens (c :: front ++ (part ++ back))) :
    Opens (c :: front ++ (part' ++ back)) := by
  cases front with
  | nil =>
    exfalso
    cases hp : part with
    | nil => exact h.nonempty hp
    | cons d ds =>
      rw [hp] at hopens
      rcases hopens with ⟨bs, hbs⟩ | ⟨bs, ds', hbs⟩
      · obtain ⟨rfl, -⟩ := List.cons.inj (List.cons.inj hbs).2
        exact h.slash (by rw [hp]; exact List.mem_cons_self)
      · obtain ⟨rfl, -⟩ := List.cons.inj (List.cons.inj hbs).2
        exact h.head (by rw [hp]; rfl)
  | cons d front =>
    rcases hopens with ⟨bs, hbs⟩ | ⟨bs, ds, hbs⟩
    · obtain ⟨rfl, hrest⟩ := List.cons.inj hbs
      obtain ⟨rfl, -⟩ := List.cons.inj hrest
      exact Or.inl ⟨_, rfl⟩
    · obtain ⟨rfl, hstar⟩ := List.cons.inj hbs
      obtain ⟨rfl, hinner⟩ := List.cons.inj hstar
      rcases h.split_close hinner with ⟨xs, rfl⟩ | ⟨xs, -, rfl⟩
      · exact Or.inr ⟨bs, xs ++ (part' ++ back), by simp⟩
      · exact Or.inr ⟨front ++ (part' ++ xs), ds, by simp⟩

theorem Neutral.clear (h : Neutral part) (last : Option Char) : comment.Clear back last part := by
  refine clear_iff.mpr fun as bs hsplit hne => read?_comment.mpr ?_
  cases bs with
  | nil => exact absurd rfl hne
  | cons b bs =>
    have hb : b ≠ '/' := by
      rintro rfl
      exact h.slash (by rw [hsplit]; simp)
    rintro (⟨xs, hxs⟩ | ⟨xs, ys, hxs⟩) <;> exact hb (List.cons.inj hxs).1

end Neutral

theorem Commented.behind {cs : List Char} {ms : List (Mark Unit)} (h : Commented cs ms) (last : Option Char) :
    Scan (fun _ => comment) last cs ms :=
  Scan.behind (fun _ _ => congrArg List.head? (blind_comment.readings_behind last)) h

theorem Commented.comment {t cs : List Char} {ms : List (Mark Unit)}
    (h : comment.read? none (t ++ cs) = some ⟨t, [], cs⟩) (rest : Commented cs ms) : Commented (t ++ cs) (.found () t [] :: ms) :=
  .found h (trims_comment.nonempty h) (fun _ hj => absurd rfl hj) (rest.behind _)

/-- The line of a text up to its end and what stands behind it. -/
theorem exists_line (cs : List Char) : ∃ as bs, cs = as ++ bs ∧ as.all (· != '\n') = true ∧
    bs.head?.all (fun c => !(c != '\n')) = true := by
  refine ⟨cs.takeWhile (· != '\n'), cs.dropWhile (· != '\n'), List.takeWhile_append_dropWhile.symm, List.all_takeWhile, ?_⟩
  cases h : (cs.dropWhile (· != '\n')).head? with
  | none => rfl
  | some c =>
    have := List.head?_dropWhile_not (· != '\n') cs
    rw [h] at this
    simpa using this

/-- The marks around a neutral part: it stands in the code, or within one comment. -/
inductive Around (front back : List Char) : Prop where
  | inCode (as bs : List (Mark Unit)) (hfront : front = Mark.textOf as) (hback : back = Mark.textOf bs)
      (scan : ∀ {part}, Neutral part → Commented (front ++ (part ++ back)) (as ++ (part.map .plain ++ bs)))
  | inComment (as : List (Mark Unit)) (x y : List Char) (bs : List (Mark Unit)) (hfront : front = Mark.textOf as ++ x)
      (nonempty : x ≠ []) (hback : back = y ++ Mark.textOf bs)
      (scan : ∀ {part}, Neutral part → Commented (front ++ (part ++ back)) (as ++ .found () (x ++ (part ++ y)) [] :: bs))

section Around
variable {front back : List Char}

theorem Around.plain {c : Char} (hnone : ∀ {part}, Neutral part → ¬Opens (c :: front ++ (part ++ back)))
    (h : Around front back) : Around (c :: front) back := by
  cases h with
  | inCode as bs hfront hback scan =>
    refine .inCode (.plain c :: as) bs (by rw [hfront]; rfl) hback fun hpart => ?_
    exact .plain (fun _ => read?_comment.mpr (hnone hpart)) ((scan hpart).behind _)
  | inComment as x y bs hfront nonempty hback scan =>
    refine .inComment (.plain c :: as) x y bs (by rw [hfront]; rfl) nonempty hback fun hpart => ?_
    exact .plain (fun _ => read?_comment.mpr (hnone hpart)) ((scan hpart).behind _)

/-- A comment that ends in front of the part leaves the part where it is. -/
theorem Around.found {t : List Char} (hread : ∀ {part}, Neutral part →
    comment.read? none (t ++ (front ++ (part ++ back))) = some ⟨t, [], front ++ (part ++ back)⟩)
    (h : Around front back) : Around (t ++ front) back := by
  cases h with
  | inCode as bs hfront hback scan =>
    refine .inCode (.found () t [] :: as) bs (by rw [hfront]; rfl) hback fun hpart => ?_
    rw [List.append_assoc]
    exact Commented.comment (hread hpart) (scan hpart)
  | inComment as x y bs hfront nonempty hback scan =>
    refine .inComment (.found () t [] :: as) x y bs (by rw [hfront, ← List.append_assoc]; rfl) nonempty hback fun hpart => ?_
    rw [List.append_assoc]
    exact Commented.comment (hread hpart) (scan hpart)

/-- A comment that starts in front of the part and does not end there holds the part. -/
theorem Around.holds {y rest : List Char} (hback : back = y ++ rest) (hne : front ≠ []) (hread : ∀ {part}, Neutral part →
    comment.read? none ((front ++ (part ++ y)) ++ rest) = some ⟨front ++ (part ++ y), [], rest⟩) : Around front back := by
  obtain ⟨bs, hbs⟩ := exists_commented rest
  refine .inComment [] front y bs rfl hne (by rw [hbs.textOf_eq, hback]) fun {part} hpart => ?_
  have htext : front ++ (part ++ back) = (front ++ (part ++ y)) ++ rest := by simp [hback]
  rw [htext]
  exact Commented.comment (hread hpart) hbs

theorem Around.line (hshorter : ∀ rest : List Char, rest.length ≤ front.length → Around rest back) :
    Around ('/' :: '/' :: front) back := by
  obtain ⟨t, rest, rfl, ht, hrest⟩ := exists_line front
  cases rest with
  | nil =>
    -- The line goes on behind the part.
    obtain ⟨y, rest, hback, hy, hend⟩ := exists_line back
    refine .holds hback (List.cons_ne_nil _ _) fun {part} hpart => ?_
    have hline : (t ++ (part ++ y)).all (· != '\n') = true := by
      rw [List.all_append, List.all_append, ht, hy, Bool.and_true, Bool.true_and]
      exact List.all_eq_true.mpr fun c hc => bne_iff_ne.mpr fun hn => hpart.line (hn ▸ hc)
    rw [List.append_nil]
    exact read?_line hline hend none
  | cons d rest =>
    have hd := hshorter (d :: rest) (by simp)
    exact hd.found (t := '/' :: '/' :: t) fun {part} _ => @read?_line t (d :: rest ++ (part ++ back)) ht hrest none

theorem Around.block (hshorter : ∀ rest : List Char, rest.length ≤ front.length → Around rest back)
    (hclosed : ∃ as bs, front ++ ([';'] ++ back) = as ++ '*' :: '/' :: bs) : Around ('/' :: '*' :: front) back := by
  by_cases hfront : NoClose front
  · -- The comment is closed behind the part.
    obtain ⟨as, bs, hsplit⟩ := hclosed
    have hback : ∃ xs, back = xs ++ '*' :: '/' :: bs := by
      rcases neutral_semicolon.split_close hsplit with ⟨xs, hxs⟩ | ⟨xs, -, hxs⟩
      · exact absurd hxs (hfront as xs)
      · exact ⟨xs, hxs⟩
    obtain ⟨xs, hxs⟩ := hback
    obtain ⟨y, rest, hy, hclose⟩ := exists_firstClose hxs
    have hsplit' : back = (y ++ ['*', '/']) ++ rest := by simp [hy]
    refine .holds hsplit' (List.cons_ne_nil _ _) fun {part} hpart => ?_
    have hnone := hpart.noClose hfront hclose
    rw [← List.append_assoc, ← List.append_assoc, List.append_assoc front] at hnone
    have hread := read?_block hnone rest none
    simpa using hread
  · have hexists : ∃ as bs, front = as ++ '*' :: '/' :: bs := by
      simpa [NoClose] using hfront
    obtain ⟨as, bs, has⟩ := hexists
    obtain ⟨t, rest, rfl, hclose⟩ := exists_firstClose has
    have hrest := hshorter rest (by simp; omega)
    have htext : '/' :: '*' :: (t ++ '*' :: '/' :: rest) = ('/' :: '*' :: (t ++ ['*', '/'])) ++ rest := by simp
    rw [htext]
    refine hrest.found fun {part} _ => ?_
    have hread := read?_block hclose (rest ++ (part ++ back)) none
    simpa using hread

theorem around (front back : List Char) : Around front back := by
  -- What is left in front of the part behind a comment is shorter.
  induction hn : front.length using Nat.strongRecOn generalizing front with
  | ind n ih =>
    cases front with
    | nil =>
      obtain ⟨bs, hbs⟩ := exists_commented back
      refine .inCode [] bs rfl hbs.textOf_eq.symm fun {part} hpart => ?_
      show Commented (part ++ back) (part.map .plain ++ bs)
      exact Scan.prepend (fun _ => hpart.clear none) (hbs.behind _)
    | cons c front =>
      have hshorter : ∀ rest : List Char, rest.length ≤ front.length → Around rest back := fun rest hle =>
        ih rest.length (by rw [List.length_cons] at hn; omega) rest rfl
      by_cases hopens : Opens (c :: front ++ ([';'] ++ back))
      · cases front with
        | nil =>
          rcases hopens with ⟨bs, hbs⟩ | ⟨bs, ds, hbs⟩
          · exact absurd (List.cons.inj (List.cons.inj hbs).2).1 (by decide)
          · exact absurd (List.cons.inj (List.cons.inj hbs).2).1 (by decide)
        | cons d front =>
          have hbehind : ∀ rest : List Char, rest.length ≤ front.length → Around rest back := fun rest hle =>
            hshorter rest (Nat.le_succ_of_le hle)
          rcases hopens with ⟨bs, hbs⟩ | ⟨bs, ds, hbs⟩
          · obtain ⟨rfl, hslash⟩ := List.cons.inj hbs
            obtain ⟨rfl, -⟩ := List.cons.inj hslash
            exact .line hbehind
          · obtain ⟨rfl, hstar⟩ := List.cons.inj hbs
            obtain ⟨rfl, hclosed⟩ := List.cons.inj hstar
            exact .block hbehind ⟨bs, ds, hclosed⟩
      · exact .plain (fun hpart h => hopens (hpart.opens h)) (hshorter front (Nat.le_refl _))

end Around

/-! ### The code around a part -/

theorem blankOut_blank {t : List Char} : (t.flatMap blankOut).all isBlank = true :=
  List.all_eq_true.mpr fun c hc => by
    obtain ⟨d, -, hd⟩ := List.mem_flatMap.mp hc
    rcases mem_blankOut hd with rfl | rfl <;> decide

theorem flatMap_blankOut_ne_nil {t : List Char} (h : t ≠ []) : t.flatMap blankOut ≠ [] := by
  cases t with
  | nil => exact absurd rfl h
  | cons c t => exact fun hnil => blankOut_ne_nil c (List.append_eq_nil_iff.mp hnil).1

/-- Behind a text that ends with a blank no word goes on. -/
theorem lastOf_of_blank {t : List Char} (h : t.all isBlank = true) (hne : t ≠ []) (last : Option Char) :
    (lastOf last t).any isWord = false := by
  induction t generalizing last with
  | nil => exact absurd rfl hne
  | cons c t ih =>
    rw [List.all_cons, Bool.and_eq_true] at h
    cases t with
    | nil => exact isWord_of_isBlank h.1
    | cons d t => exact ih h.2 (List.cons_ne_nil d t) (some c)

/-- Blanking out comments brings no word to the end of a text. -/
theorem lastOf_blanked {ms : List (Mark Unit)} {last last' : Option Char} (hlast : last.any isWord = false → last'.any isWord = false)
    (h : (lastOf last (Mark.textOf ms)).any isWord = false) : (lastOf last' (blanked ms)).any isWord = false := by
  induction ms generalizing last last' with
  | nil => exact hlast h
  | cons m ms ih =>
    rw [Mark.textOf_cons, lastOf_append] at h
    show (lastOf last' (Mark.render () _ m ++ blanked ms)).any isWord = false
    rw [lastOf_append]
    refine ih (fun hm => ?_) h
    cases m with
    | plain c => exact hm
    | found i t kept =>
      rw [render_found]
      cases t with
      | nil => exact hlast hm
      | cons c t => exact lastOf_of_blank blankOut_blank (flatMap_blankOut_ne_nil (List.cons_ne_nil c t)) _

/-- What stands around a neutral part when comments are blanked out: the part stays as it is or turns into blanks. -/
structure CodeAround (front back codeFront codeBack : List Char) (shown : List Char → List Char) : Prop where
  code : ∀ {part}, Neutral part → withoutComments (front ++ (part ++ back)) = codeFront ++ (shown part ++ codeBack)
  size : byteLength codeFront = byteLength front
  edge : (lastOf none front).any isWord = false → (lastOf none codeFront).any isWord = false
  shown_eq : shown = id ∨ shown = fun part => part.flatMap blankOut

theorem exists_codeAround (front back : List Char) :
    ∃ codeFront codeBack shown, CodeAround front back codeFront codeBack shown := by
  cases around front back with
  | inCode as bs hfront hback scan =>
    refine ⟨blanked as, blanked bs, id, ⟨fun {part} hpart => ?_, ?_, fun h => ?_, Or.inl rfl⟩⟩
    · rw [(scan hpart).withoutComments_eq]
      simp [blanked, Mark.replaced, List.flatMap_map, Mark.render]
    · rw [byteLength_blanked, hfront]
    · exact lastOf_blanked id (hfront ▸ h)
  | inComment as x y bs hfront nonempty hback scan =>
    refine ⟨blanked as ++ x.flatMap blankOut, y.flatMap blankOut ++ blanked bs, fun part => part.flatMap blankOut,
      ⟨fun {part} hpart => ?_, ?_, fun _ => ?_, Or.inr rfl⟩⟩
    · rw [(scan hpart).withoutComments_eq]
      simp [blanked, Mark.replaced, render_found]
    · rw [byteLength_append, byteLength_blanked, byteLength_flatMap_blankOut, hfront, byteLength_append]
    · rw [lastOf_append]
      exact lastOf_of_blank blankOut_blank (flatMap_blankOut_ne_nil nonempty) _

end SpriteFacts.Switch
