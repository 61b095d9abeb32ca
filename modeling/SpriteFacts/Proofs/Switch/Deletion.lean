import SpriteFacts.Proofs.Switch.Chains
import SpriteFacts.Proofs.Switch.CommentFree

/-! What taking the labels out of a text can create. Text that stood on both sides of a label comes together,
    and may then read as a terminator or as the delimiter of a comment. No match is ever lost, so if the text
    has no more matches than before, each of them was there, in every part of the text. -/

namespace SpriteFacts.Switch

open Text Pattern

/-- Taking the labels out of a body creates no match of the pattern. -/
def CreatesNone (p : Pattern) (body : List Char) : Prop :=
  (p.findAll (withoutLabels body)).length ≤ (p.findAll body).length

instance (p : Pattern) (body : List Char) : Decidable (CreatesNone p body) := inferInstanceAs (Decidable (_ ≤ _))

/-! ### Delimiters of comments -/

/-- The number of places where two characters stand side by side. -/
def pairs (a b : Char) : List Char → Nat
  | [] => 0
  | c :: cs => (if c = a ∧ cs.head? = some b then 1 else 0) + pairs a b cs

theorem pairs_append_of_not_mem {a b : Char} {t : List Char} (h : a ∉ t) (cs : List Char) :
    pairs a b (t ++ cs) = pairs a b cs := by
  induction t with
  | nil => rfl
  | cons c t ih =>
    rw [List.mem_cons, not_or] at h
    obtain ⟨hc, ht⟩ := h
    rw [List.cons_append, pairs, if_neg fun hca : c = a ∧ _ => hc hca.1.symm, Nat.zero_add, ih ht]

/-- The marks cover neither character by a match. -/
def Avoids (a b : Char) (ms : List LandMark) : Prop :=
  ∀ i t kept, .found i t kept ∈ ms → t ≠ [] ∧ a ∉ t ∧ b ∉ t

section Pairs
variable {a b : Char} {m : LandMark} {ms : List LandMark}

theorem Avoids.tail (h : Avoids a b (m :: ms)) : Avoids a b ms := fun i t kept hm => h i t kept (List.mem_cons_of_mem _ hm)

theorem Avoids.head_text (h : Avoids a b ms) (hb : (Mark.textOf ms).head? = some b) : ∃ ms', ms = .plain b :: ms' := by
  cases ms with
  | nil => cases hb
  | cons m ms =>
    cases m with
    | plain c => exact ⟨ms, by rw [Option.some.inj hb]⟩
    | found i t kept =>
      obtain ⟨hne, -, hbt⟩ := h i t kept List.mem_cons_self
      cases t with
      | nil => exact absurd rfl hne
      | cons c t =>
        obtain rfl := Option.some.inj hb
        exact absurd List.mem_cons_self hbt

theorem Avoids.head_unlabelled (h : Avoids a b ms) (hb : (Mark.textOf ms).head? = some b) :
    (unlabelled ms).head? = some b := by
  obtain ⟨ms', rfl⟩ := h.head_text hb
  rfl

theorem Avoids.pairs_found {i : Landmark} {t : List Char} {kept : List (Nat × List Char)}
    (h : Avoids a b (.found i t kept :: ms)) :
    pairs a b (Mark.textOf (.found i t kept :: ms)) = pairs a b (Mark.textOf ms) ∧
      pairs a b (unlabelled (.found i t kept :: ms)) = pairs a b (unlabelled ms) := by
  obtain ⟨-, ha, -⟩ := h i t kept List.mem_cons_self
  refine ⟨pairs_append_of_not_mem ha _, ?_⟩
  show pairs a b ((if i = .numbered then [] else t) ++ unlabelled ms) = _
  split
  · rfl
  · exact pairs_append_of_not_mem ha _

theorem Avoids.pairs_le (h : Avoids a b ms) : pairs a b (Mark.textOf ms) ≤ pairs a b (unlabelled ms) := by
  induction ms with
  | nil => exact Nat.le_refl _
  | cons m ms ih =>
    have htail := ih h.tail
    cases m with
    | plain c =>
      refine Nat.add_le_add ?_ htail
      by_cases hc : c = a ∧ (Mark.textOf ms).head? = some b
      · exact Nat.le_of_eq ((if_pos hc).trans (if_pos ⟨hc.1, h.tail.head_unlabelled hc.2⟩).symm)
      · exact Nat.le_trans (Nat.le_of_eq (if_neg hc)) (Nat.zero_le _)
    | found i t kept =>
      rw [h.pairs_found.1, h.pairs_found.2]
      exact htail

/-- If there are no more pairs than before, each stands where the marks have it. -/
theorem Avoids.keepsPair (h : Avoids a b ms) (hle : pairs a b (unlabelled ms) ≤ pairs a b (Mark.textOf ms)) :
    KeepsPair (Mark.render .numbered fun _ => []) a b ms := by
  induction ms with
  | nil => exact fun as bs hsplit => absurd hsplit.symm (by simp)
  | cons m ms ih =>
    have htail := h.tail.pairs_le
    intro as bs hsplit hhead
    cases m with
    | plain c =>
      have hle' : (if c = a ∧ (unlabelled ms).head? = some b then 1 else 0) + pairs a b (unlabelled ms) ≤
        (if c = a ∧ (Mark.textOf ms).head? = some b then 1 else 0) + pairs a b (Mark.textOf ms) := hle
      -- A pair that is new at this mark would leave one pair too many, since those behind it stay.
      cases as with
      | nil =>
        obtain ⟨hc, rfl⟩ := List.cons.inj hsplit
        obtain rfl := Mark.plain.inj hc
        refine h.tail.head_text (Classical.byContradiction fun hno => ?_)
        rw [if_pos ⟨rfl, hhead⟩, if_neg fun hc => hno hc.2] at hle'
        omega
      | cons x as =>
        refine ih h.tail ?_ as bs (List.cons.inj hsplit).2 hhead
        by_cases hc : c = a ∧ (Mark.textOf ms).head? = some b
        · rw [if_pos hc, if_pos ⟨hc.1, h.tail.head_unlabelled hc.2⟩] at hle'
          omega
        · rw [if_neg hc] at hle'
          omega
    | found i t kept =>
      cases as with
      | nil => cases (List.cons.inj hsplit).1
      | cons x as =>
        rw [h.pairs_found.1, h.pairs_found.2] at hle
        exact ih h.tail hle as bs (List.cons.inj hsplit).2 hhead

end Pairs

theorem read?_pair {s : String} {a b : Char} (hs : s.toList = [a, b]) (last : Option Char) (c : Char) (cs : List Char) :
    (literal s).read? last (c :: cs) = none ↔ ¬(c = a ∧ cs.head? = some b) := by
  rw [read?_eq_none]
  constructor
  · rintro h ⟨rfl, hb⟩
    cases cs with
    | nil => cases hb
    | cons d cs =>
      obtain rfl := Option.some.inj hb
      exact h _ (mem_readings_literal.mpr ⟨cs, by rw [hs]; rfl, rfl⟩)
  · intro h r hr
    obtain ⟨rest, hcs, -⟩ := mem_readings_literal.mp hr
    rw [hs] at hcs
    obtain ⟨rfl, rfl⟩ := List.cons.inj hcs
    exact h ⟨rfl, rfl⟩

theorem hits_pair {s : String} {a b : Char} (hs : s.toList = [a, b]) (last : Option Char) (cs : List Char) :
    (literal s).hits [] last cs = pairs a b cs := by
  induction cs generalizing last with
  | nil => rfl
  | cons c cs ih =>
    rw [hits, pairs, ih, List.append_nil]
    have hread := read?_pair hs last c cs
    by_cases h : c = a ∧ cs.head? = some b
    · rw [if_pos h, if_pos (Option.isSome_iff_ne_none.mpr fun hnone => hread.mp hnone h)]
    · rw [if_neg h, hread.mpr h]
      rfl

section Literal
variable {s : String} {a b : Char} {body cs : List Char} {ms : List LandMark}

theorem exists_scan_pair (hs : s.toList = [a, b]) (cs : List Char) :
    ∃ ms : List (Mark Unit), Scan (fun _ => literal s) none cs ms := by
  refine Scan.exists_of_apart (fun h => ⟨?_, fun hj => absurd rfl hj⟩) none cs
  obtain ⟨rest, -, rfl⟩ := mem_readings_literal.mp (mem_of_read? h)
  rw [hs]
  exact List.cons_ne_nil a [b]

/-- Two different characters cannot overlap with themselves, so a search finds all their pairs. -/
theorem length_findAll_pair (hs : s.toList = [a, b]) (hne : a ≠ b) (cs : List Char) :
    ((literal s).findAll cs).length = pairs a b cs := by
  obtain ⟨ms, hms⟩ := exists_scan_pair hs cs
  have halone : (literal s).Alone := by
    intro last c t rest kept h
    obtain ⟨rest', -, hr⟩ := mem_readings_literal.mp (mem_of_read? h)
    rw [hs] at hr
    obtain ⟨rfl, rfl⟩ := List.cons.inj (Reading.mk.inj hr).1
    exact ⟨(read?_pair hs _ _ _).mpr fun hab => hne hab.1.symm, trivial⟩
  have hhits := hms.hits_eq (i := ()) halone
  rw [hms.length_findAll (), ← hits_pair hs none, hhits]

theorem pairs_of_findAll (hs : s.toList = [a, b]) (h : ((literal s).findAll cs).length = 0) : pairs a b cs = 0 := by
  obtain ⟨ms, hms⟩ := exists_scan_pair hs cs
  rw [hms.length_findAll ()] at h
  rw [← hits_pair hs none, hits_eq_zero]
  exact hms.clear h

theorem findAll_of_pairs (hs : s.toList = [a, b]) (h : pairs a b cs = 0) : (literal s).findAll cs = [] := by
  rw [← hits_pair hs none, hits_eq_zero] at h
  have hend : (literal s).read? (lastOf none cs) [] = none := read?_eq_none.mpr fun r hr => by
    obtain ⟨rest, hrest, -⟩ := mem_readings_literal.mp hr
    rw [hs] at hrest
    cases hrest
  exact findAll_eq_nil h hend

theorem CommentFree.pairs_line (h : CommentFree cs) : pairs '/' '/' cs = 0 := by
  have hs : "//".toList = ['/', '/'] := rfl
  rw [← hits_pair hs none, hits_eq_zero, clear_iff]
  intro as bs heq hne
  cases bs with
  | nil => exact absurd rfl hne
  | cons c bs =>
    rw [List.append_nil, read?_pair hs]
    rintro ⟨rfl, hhead⟩
    cases bs with
    | nil => cases hhead
    | cons d bs =>
      obtain rfl := Option.some.inj hhead
      exact h as _ heq (Or.inl ⟨bs, rfl⟩)

theorem avoids_of_scan {last : Option Char} (hscan : Scan Landmark.pattern last cs ms)
    (ha : a = '/' ∨ a = '*') (hb : b = '/' ∨ b = '*') : Avoids a b ms := by
  intro i t kept hmem
  obtain ⟨xs, ys, rfl⟩ := List.append_of_mem hmem
  obtain ⟨rest, -, here⟩ := (hscan.drop xs).here
  have hnot : ∀ c, c = '/' ∨ c = '*' → c ∉ t := by
    rintro c (rfl | rfl)
    · exact Landmark.not_mem_text here (by decide) (by cases i <;> decide)
    · exact Landmark.not_mem_text here (by decide) (by cases i <;> decide)
  exact ⟨(Landmark.steady i).nonempty here, hnot a ha, hnot b hb⟩

end Literal

/-- If taking the labels out of a body without comments creates no delimiter, it creates no comment. -/
theorem commentFree_withoutLabels {body : List Char} (hfree : CommentFree body) (hline : CreatesNone (literal "//") body)
    (hopening : CreatesNone (literal "/*") body) (hclosing : CreatesNone (literal "*/") body) :
    CommentFree (withoutLabels body) := by
  obtain ⟨ms, hms⟩ := Scan.exists_of_apart Landmark.apart none body
  have htext := hms.textOf_eq
  have hwithout : withoutLabels body = unlabelled ms := hms.replaceAll_eq .numbered fun _ => []
  have hpairs : ∀ {s : String} {a b : Char}, s.toList = [a, b] → a ≠ b → CreatesNone (literal s) body →
      pairs a b (unlabelled ms) ≤ pairs a b (Mark.textOf ms) := fun hs hne h => by
    rwa [CreatesNone, length_findAll_pair hs hne, length_findAll_pair hs hne, hwithout, ← htext] at h
  -- A search finds slashes in pairs without overlap, so for them the count is of use only if it is 0.
  have hnoline : pairs '/' '/' (unlabelled ms) ≤ pairs '/' '/' (Mark.textOf ms) := by
    have hs : "//".toList = ['/', '/'] := rfl
    rw [CreatesNone, findAll_of_pairs hs hfree.pairs_line, hwithout] at hline
    rw [pairs_of_findAll hs (Nat.le_zero.mp hline)]
    exact Nat.zero_le _
  have hkeeps : KeepsDelimiters (Mark.render .numbered fun _ => []) ms :=
    { plain := fun _ => rfl
      found := fun i t kept hmem => by
        obtain ⟨-, h1, h2⟩ := avoids_of_scan hms (Or.inl rfl) (Or.inr rfl) i t kept hmem
        show '/' ∉ (if i = .numbered then [] else t) ∧ '*' ∉ (if i = .numbered then [] else t)
        split
        · exact ⟨List.not_mem_nil, List.not_mem_nil⟩
        · exact ⟨h1, h2⟩
      line := (avoids_of_scan hms (Or.inl rfl) (Or.inl rfl)).keepsPair hnoline
      opening := (avoids_of_scan hms (Or.inl rfl) (Or.inr rfl)).keepsPair (hpairs rfl (by decide) hopening)
      closing := (avoids_of_scan hms (Or.inr rfl) (Or.inl rfl)).keepsPair (hpairs rfl (by decide) hclosing) }
  rw [hwithout]
  refine hkeeps.commentFree fun as bs hsplit => ?_
  subst hsplit
  refine hfree (Mark.textOf as) _ ?_
  rw [← htext, Mark.textOf_append]
  rfl

/-! ### Terminators -/

section Breaks
variable {last last' : Option Char} {behind cs : List Char} {as bs : List LandMark}

/-- Taking labels out changes nothing about whether a word goes on. -/
theorem lastOf_unlabelled (h : Scan Landmark.pattern last cs (as ++ bs)) (hlast : last.any isWord = last'.any isWord) :
    (lastOf last (Mark.textOf as)).any isWord = (lastOf last' (unlabelled as)).any isWord := by
  induction as generalizing last last' cs with
  | nil => exact hlast
  | cons m as ih =>
    have hrest := h.drop [m]
    cases m with
    | plain c => exact ih hrest rfl
    | found i t kept =>
      obtain ⟨rest, -, here⟩ := h.here
      have htext : Mark.textOf [.found i t kept] = t := List.append_nil t
      rw [htext] at hrest
      have hfound : (lastOf last (t ++ Mark.textOf as)).any isWord =
          (lastOf last' ((if i = .numbered then [] else t) ++ unlabelled as)).any isWord := by
        rw [lastOf_append, lastOf_append]
        refine ih hrest ?_
        split
        · rw [Landmark.behind here last, lastOf_nil, ← hlast]
          exact (Landmark.shape here).1.symm
        · exact congrArg _ (lastOf_of_ne_nil ((Landmark.steady i).nonempty here))
      exact hfound

/-- Every `break;` is still there when the labels are taken out. -/
theorem count_le_hits (h : Scan Landmark.pattern last cs (as ++ bs)) (hlast : last.any isWord = last'.any isWord) :
    as.countP (Mark.isOf .leave) ≤ breakStatement.hits behind last' (unlabelled as) := by
  induction as generalizing last last' cs with
  | nil => exact Nat.zero_le _
  | cons m as ih =>
    have hrest := h.drop [m]
    cases m with
    | plain c => exact Nat.le_trans (ih hrest rfl) (Nat.le_add_left _ _)
    | found i t kept =>
      obtain ⟨rest, -, here⟩ := h.here
      have hne := (Landmark.steady i).nonempty here
      have htext : Mark.textOf [.found i t kept] = t := List.append_nil t
      rw [htext] at hrest
      -- Both ends of a label stand at no word, so what follows it is read as if it were not there.
      cases i with
      | numbered =>
        refine ih hrest ?_
        rw [Landmark.behind here last, ← hlast]
        exact (Landmark.shape here).1.symm
      | fallback =>
        show as.countP _ ≤ breakStatement.hits behind last' (t ++ unlabelled as)
        rw [hits_append]
        exact Nat.le_trans (ih hrest (congrArg _ (lastOf_of_ne_nil hne))) (Nat.le_add_left _ _)
      | leave =>
        show (.found .leave t kept :: as).countP _ ≤ breakStatement.hits behind last' (t ++ unlabelled as)
        rw [hits_append, List.countP_cons_of_pos rfl, Nat.add_comm]
        refine Nat.add_le_add ?_ (ih hrest (congrArg _ (lastOf_of_ne_nil hne)))
        have hread := (Landmark.steady .leave).behind here (unlabelled as ++ behind)
        rw [(Landmark.steady .leave).before hlast] at hread
        exact hits_pos hread hne

/-- No part of a body has more terminators than before when its labels are taken out. -/
theorem hits_unlabelled_le {body : List Char} {xs ms ys : List LandMark} (hcreates : CreatesNone breakStatement body)
    (h : Scan Landmark.pattern none body (xs ++ (ms ++ ys))) (hlast : (lastOf none (Mark.textOf xs)).any isWord = false) :
    breakStatement.hits [] none (unlabelled ms) ≤ ms.countP (Mark.isOf .leave) := by
  -- The whole body has no new hits and each part keeps its own, so the part in the middle has none either.
  have hall : breakStatement.hits [] none (unlabelled (xs ++ (ms ++ ys))) ≤
      (xs ++ (ms ++ ys)).countP (Mark.isOf .leave) := by
    have hdeleted : withoutLabels body = unlabelled (xs ++ (ms ++ ys)) := h.replaceAll_eq .numbered fun _ => []
    obtain ⟨ns, hns⟩ := Scan.exists_of_apart Landmark.apart none (withoutLabels body)
    calc breakStatement.hits [] none (unlabelled (xs ++ (ms ++ ys)))
        = (breakStatement.findAll (withoutLabels body)).length := by
          rw [← hdeleted]
          exact (hns.hits_eq (i := .leave) alone_break).trans (hns.length_findAll .leave).symm
      _ ≤ (breakStatement.findAll body).length := hcreates
      _ = (xs ++ (ms ++ ys)).countP (Mark.isOf .leave) := h.length_findAll .leave
  have hxs : xs.countP (Mark.isOf .leave) ≤ breakStatement.hits (unlabelled (ms ++ ys)) none (unlabelled xs) :=
    count_le_hits h rfl
  have hys : ys.countP (Mark.isOf .leave) ≤
      breakStatement.hits [] (lastOf none (unlabelled (xs ++ ms))) (unlabelled ys) := by
    rw [← List.append_assoc] at h
    have hdrop := h.drop (xs ++ ms)
    rw [← List.append_nil ys] at hdrop
    exact count_le_hits hdrop (lastOf_unlabelled h rfl)
  have hms : breakStatement.hits [] none (unlabelled ms) ≤
      breakStatement.hits (unlabelled ys) (lastOf none (unlabelled xs)) (unlabelled ms) := by
    have hedge : (none : Option Char).any isWord = (lastOf none (unlabelled xs)).any isWord := by
      rw [← lastOf_unlabelled h rfl, hlast]
      rfl
    calc breakStatement.hits [] none (unlabelled ms)
        = breakStatement.hits [] (lastOf none (unlabelled xs)) (unlabelled ms) :=
          (Landmark.steady .leave).hits_before hedge
      _ ≤ _ := (Landmark.steady .leave).hits_le_behind _
  simp only [unlabelled_append, hits_append, List.countP_append, lastOf_append, List.append_nil] at hall hxs hys
  omega

/-- The first `break;` of a part of a body is the first one when its labels are taken out. -/
theorem find?_unlabelled {body t : List Char} {kept : List (Nat × List Char)} {xs us vs ys : List LandMark}
    (hcreates : CreatesNone breakStatement body)
    (h : Scan Landmark.pattern none body (xs ++ ((us ++ .found .leave t kept :: vs) ++ ys)))
    (hlast : (lastOf none (Mark.textOf xs)).any isWord = false) (hus : hasBreak us = false) :
    breakStatement.find? (unlabelled (us ++ .found .leave t kept :: vs)) =
      some ⟨byteLength (unlabelled us), byteLength (unlabelled us) + byteLength t, t, kept⟩ := by
  have hle := hits_unlabelled_le hcreates h hlast
  have hscan : Scan Landmark.pattern none (Mark.textOf (us ++ .found .leave t kept :: vs))
      (us ++ .found .leave t kept :: vs) :=
    Scan.take (fun i => (Landmark.steady i).trims) ((h.drop xs).before Landmark.steady hlast)
  have hedge := lastOf_unlabelled hscan rfl
  have hrest := hscan.drop us
  obtain ⟨rest, -, here⟩ := hrest.here
  have hread : breakStatement.read? (lastOf none (unlabelled us)) (t ++ unlabelled vs) = some ⟨t, kept, unlabelled vs⟩ :=
    ((Landmark.steady .leave).before hedge _).symm.trans ((Landmark.steady .leave).behind here _)
  have hdeleted : unlabelled (us ++ .found .leave t kept :: vs) = unlabelled us ++ (t ++ unlabelled vs) := unlabelled_append _ _
  -- Behind the first `break;` there are as many hits as marks, so there is none in front of it.
  have hclear : breakStatement.Clear (t ++ unlabelled vs) none (unlabelled us) := by
    rw [← List.append_nil (.found .leave t kept :: vs)] at hrest
    have hbehind : (.found .leave t kept :: vs).countP (Mark.isOf .leave) ≤
        breakStatement.hits [] (lastOf none (unlabelled us)) (t ++ unlabelled vs) := count_le_hits hrest hedge
    have hfront : us.countP (Mark.isOf .leave) = 0 := by
      rw [List.countP_eq_zero]
      exact List.any_eq_false.mp hus
    rw [hdeleted, hits_append, List.countP_append, List.append_nil, hfront] at hle
    rw [← hits_eq_zero]
    omega
  rw [hdeleted]
  show breakStatement.findFrom (Pattern.place none 0) _ = _
  rw [findFrom_of_clear hclear, findFrom_of_read hread, Nat.zero_add]
  rfl

end Breaks

end SpriteFacts.Switch
