import SpriteFacts.Proofs.Pattern.Steady
import SpriteFacts.Proofs.Pattern.WordStart
import SpriteFacts.Proofs.Text.Blank
import SpriteFacts.Switch.Comment

/-! Text without comments. Blanking out the comments of a text leaves none behind, and text without comments
    is left as it is, so in a part of it only blanks hold no code. Text that
    is put together from marks opens a comment only where the marks did, as long as no two characters that
    make a delimiter come to stand side by side. -/

namespace SpriteFacts.Switch

open Text Pattern

/-- A comment stands at the start of the text. -/
def Opens (cs : List Char) : Prop :=
  (∃ bs, cs = '/' :: '/' :: bs) ∨ ∃ bs ds, cs = '/' :: '*' :: (bs ++ '*' :: '/' :: ds)

/-- No comment stands anywhere in the text. -/
def CommentFree (cs : List Char) : Prop := ∀ as bs, cs = as ++ bs → ¬Opens bs

theorem Opens.append {cs : List Char} (h : Opens cs) (more : List Char) : Opens (cs ++ more) := by
  rcases h with ⟨bs, rfl⟩ | ⟨bs, ds, rfl⟩
  · exact Or.inl ⟨bs ++ more, rfl⟩
  · exact Or.inr ⟨bs, ds ++ more, by simp⟩

theorem CommentFree.part {as bs cs : List Char} (h : CommentFree (as ++ (bs ++ cs))) : CommentFree bs := by
  rintro xs ys rfl hys
  exact h (as ++ xs) (ys ++ cs) (by simp) (hys.append cs)

theorem CommentFree.before {as bs : List Char} (h : CommentFree (as ++ bs)) : CommentFree as :=
  @CommentFree.part [] as bs h

theorem CommentFree.behind {as bs : List Char} (h : CommentFree (as ++ bs)) : CommentFree bs := by
  rw [← List.append_nil bs] at h
  exact h.part

theorem CommentFree.slice {cs : List Char} (h : CommentFree cs) (start stop : Nat) : CommentFree (slice start stop cs) := by
  rw [← takeBytes_append_dropBytes start cs, ← takeBytes_append_dropBytes (stop - start) (dropBytes start cs)] at h
  exact h.part

theorem commentFree_of_not_mem {cs : List Char} (h : '/' ∉ cs) : CommentFree cs := by
  rintro as bs rfl (⟨ds, rfl⟩ | ⟨inner, ds, rfl⟩) <;> exact h (by simp)

theorem read?_comment {last : Option Char} {cs : List Char} : comment.read? last cs = none ↔ ¬Opens cs := by
  rw [read?_eq_none]
  constructor
  · rintro h (⟨bs, rfl⟩ | ⟨bs, ds, rfl⟩)
    · refine h ⟨'/' :: '/' :: [], [], bs⟩ (mem_readings_alt.mpr (Or.inr (mem_readings_seq.mpr
        ⟨⟨"//".toList, [], bs⟩, mem_readings_literal.mpr ⟨bs, rfl, rfl⟩, ⟨[], [], bs⟩, ?_, rfl⟩)))
      exact mem_readings_run.mpr ⟨[], bs, rfl, rfl, rfl⟩
    · refine h ⟨"/*".toList ++ (bs ++ "*/".toList), [], ds⟩ (mem_readings_alt.mpr (Or.inl (mem_readings_seq.mpr
        ⟨⟨"/*".toList, [], bs ++ '*' :: '/' :: ds⟩, mem_readings_literal.mpr ⟨_, rfl, rfl⟩,
          ⟨bs ++ "*/".toList, [], ds⟩, mem_readings_seq.mpr ⟨⟨bs, [], '*' :: '/' :: ds⟩, ?_,
            ⟨"*/".toList, [], ds⟩, mem_readings_literal.mpr ⟨ds, rfl, rfl⟩, rfl⟩, rfl⟩)))
      exact mem_readings_lazyRun.mpr ⟨bs, _, rfl, List.all_eq_true.mpr fun _ _ => rfl, rfl⟩
  · intro h r hr
    apply h
    rcases mem_readings_alt.mp hr with hr | hr
    · obtain ⟨a, ha, b, hb, -⟩ := mem_readings_seq.mp hr
      obtain ⟨rest, rfl, rfl⟩ := mem_readings_literal.mp ha
      obtain ⟨c, hc, d, hd, -⟩ := mem_readings_seq.mp hb
      obtain ⟨bs, rest1, hrest, -, rfl⟩ := mem_readings_lazyRun.mp hc
      obtain ⟨ds, hrest1, -⟩ := mem_readings_literal.mp hd
      simp only at hrest hrest1
      subst hrest hrest1
      exact Or.inr ⟨bs, ds, rfl⟩
    · obtain ⟨a, ha, -, -, -⟩ := mem_readings_seq.mp hr
      obtain ⟨rest, rfl, -⟩ := mem_readings_literal.mp ha
      exact Or.inl ⟨rest, rfl⟩

/-- Text without comments is left as it is. -/
theorem CommentFree.withoutComments_eq {cs : List Char} (h : CommentFree cs) : withoutComments cs = cs := by
  have hclear : comment.Clear [] none cs := clear_iff.mpr fun as bs heq _ => by
    rw [List.append_nil]
    exact read?_comment.mpr (h as bs heq)
  have hend : comment.read? (lastOf none cs) [] = none := read?_comment.mpr (h cs [] (List.append_nil cs).symm)
  rw [withoutComments, replaceAll, pieces_of_clear hclear hend]
  simp [List.flatMap_map]

theorem CommentFree.holdsNoCode_eq {cs : List Char} (h : CommentFree cs) : holdsNoCode cs = cs.all isBlank := by
  rw [holdsNoCode, h.withoutComments_eq]

/-! ### Text put together from marks -/

theorem split_of_flatMap {α β : Type} {f : α → List β} {c : β} {v : List β} :
    ∀ {xs : List α} {u : List β}, xs.flatMap f = u ++ c :: v →
      ∃ as a bs u' v', xs = as ++ a :: bs ∧ f a = u' ++ c :: v' ∧ u = as.flatMap f ++ u' ∧ v = v' ++ bs.flatMap f
  | [], u, h => by simp at h
  | x :: xs, u, h => by
    rw [List.flatMap_cons, List.append_eq_append_iff] at h
    rcases h with ⟨w, rfl, hw⟩ | ⟨w, hw, hrest⟩
    · obtain ⟨as, a, bs, u', v', rfl, ha, rfl, rfl⟩ := split_of_flatMap hw
      exact ⟨x :: as, a, bs, u', v', rfl, ha, by simp, rfl⟩
    · cases w with
      | nil =>
        rw [List.append_nil] at hw
        obtain ⟨as, a, bs, u', v', rfl, ha, hu, rfl⟩ := split_of_flatMap (u := []) hrest.symm
        exact ⟨x :: as, a, bs, u', v', rfl, ha, by simp [hw, ← hu], rfl⟩
      | cons d w =>
        obtain ⟨rfl, rfl⟩ := List.cons.inj hrest
        exact ⟨[], x, xs, u, w, rfl, hw, rfl, rfl⟩

section Rendered
variable {ι : Type} {render : Mark ι → List Char} {ms : List (Mark ι)}

/-- Where the text of the marks has `c` and `d` side by side, the marks have. -/
def KeepsPair (render : Mark ι → List Char) (c d : Char) (ms : List (Mark ι)) : Prop :=
  ∀ as bs, ms = as ++ .plain c :: bs → (bs.flatMap render).head? = some d → ∃ bs', bs = .plain d :: bs'

/-- The text of the marks has the characters that no match covers, and a delimiter of comments nowhere else
    and only as the marks have it. -/
structure KeepsDelimiters (render : Mark ι → List Char) (ms : List (Mark ι)) : Prop where
  plain : ∀ c, render (.plain c) = [c]
  found : ∀ i t kept, .found i t kept ∈ ms → '/' ∉ render (.found i t kept) ∧ '*' ∉ render (.found i t kept)
  line : KeepsPair render '/' '/' ms
  opening : KeepsPair render '/' '*' ms
  closing : KeepsPair render '*' '/' ms

theorem KeepsDelimiters.split (h : KeepsDelimiters render ms) {c : Char} (hc : c = '/' ∨ c = '*') {as bs : List (Mark ι)}
    (hms : ms = as ++ bs) {u v : List Char} (htext : bs.flatMap render = u ++ c :: v) :
    ∃ xs ys, bs = xs ++ .plain c :: ys ∧ v = ys.flatMap render := by
  obtain ⟨xs, m, ys, u', v', rfl, hm, -, rfl⟩ := split_of_flatMap htext
  cases m with
  | plain d =>
    rw [h.plain] at hm
    have hlen := congrArg List.length hm
    simp only [List.length_append, List.length_cons, List.length_nil] at hlen
    obtain rfl : u' = [] := List.length_eq_zero_iff.mp (by omega)
    obtain rfl : v' = [] := List.length_eq_zero_iff.mp (by omega)
    obtain ⟨rfl, -⟩ := List.cons.inj hm
    exact ⟨xs, ys, rfl, rfl⟩
  | found i t kept =>
    have hmem : c ∈ render (.found i t kept) := hm ▸ List.mem_append.mpr (Or.inr List.mem_cons_self)
    have hnot := h.found i t kept (by simp [hms])
    rcases hc with rfl | rfl
    · exact absurd hmem hnot.1
    · exact absurd hmem hnot.2

/-- If no comment opens among the marks, their text holds none. -/
theorem KeepsDelimiters.commentFree (h : KeepsDelimiters render ms)
    (hfree : ∀ as bs, ms = as ++ .plain '/' :: bs → ¬Opens ('/' :: Mark.textOf bs)) : CommentFree (ms.flatMap render) := by
  rintro xs ys htext (⟨ds, rfl⟩ | ⟨inner, ds, rfl⟩)
  · obtain ⟨as, bs, rfl, hbs⟩ := h.split (Or.inl rfl) (List.nil_append ms).symm htext
    obtain ⟨bs', rfl⟩ := h.line as bs rfl (by rw [← hbs]; rfl)
    exact hfree as _ rfl (Or.inl ⟨_, rfl⟩)
  · obtain ⟨as, bs, rfl, hbs⟩ := h.split (Or.inl rfl) (List.nil_append ms).symm htext
    obtain ⟨bs', rfl⟩ := h.opening as bs rfl (by rw [← hbs]; rfl)
    rw [List.flatMap_cons, h.plain] at hbs
    obtain ⟨-, hbs⟩ := List.cons.inj hbs
    have hassoc : as ++ .plain '/' :: .plain '*' :: bs' = (as ++ [.plain '/', .plain '*']) ++ bs' := by simp
    obtain ⟨bs1, bs2, rfl, hbs2⟩ := h.split (Or.inr rfl) hassoc hbs.symm
    obtain ⟨bs3, rfl⟩ := h.closing (as ++ .plain '/' :: .plain '*' :: bs1) bs2 (by simp) (by rw [← hbs2]; rfl)
    refine hfree as _ rfl (Or.inr ⟨Mark.textOf bs1, Mark.textOf bs3, ?_⟩)
    simp [Mark.text]

/-- Where no mark vanishes, what comes to stand behind a mark is what follows it. -/
theorem keepsPair_of_ne_nil {c d : Char} (plain : ∀ e, render (.plain e) = [e]) (hne : ∀ m ∈ ms, render m ≠ [])
    (hd : ∀ i t kept, .found i t kept ∈ ms → d ∉ render (.found i t kept)) : KeepsPair render c d ms := by
  rintro as bs rfl hhead
  cases bs with
  | nil => cases hhead
  | cons m bs =>
    have hm : (render m).head? = some d := by
      cases hr : render m with
      | nil => exact absurd hr (hne m (by simp))
      | cons e t =>
        rw [List.flatMap_cons, hr] at hhead
        exact hhead
    cases m with
    | plain e =>
      rw [plain] at hm
      obtain rfl := Option.some.inj hm
      exact ⟨bs, rfl⟩
    | found i t kept => exact absurd (List.mem_of_head? hm) (hd i t kept (by simp))

end Rendered

theorem mem_blankOut {c d : Char} (h : d ∈ blankOut c) : d = '\n' ∨ d = ' ' := by
  unfold blankOut at h
  split at h
  · exact Or.inl (List.mem_singleton.mp h)
  · exact Or.inr (List.eq_of_mem_replicate h)

theorem blankOut_ne_nil (c : Char) : blankOut c ≠ [] := by
  unfold blankOut
  split
  · simp
  · have := c.utf8Size_pos
    rw [ne_eq, List.replicate_eq_nil_iff]
    omega

theorem needs_comment : Needs '/' comment := by
  simp [comment, blockComment, lineComment, literal, all, char, Needs]

/-- Blanking out comments leaves none behind. -/
theorem commentFree_withoutComments (source : List Char) : CommentFree (withoutComments source) := by
  have hapart : Scan.Apart fun _ : Unit => comment := fun h =>
    ⟨List.ne_nil_of_mem (needs_comment.mem (mem_of_read? h)), fun hj => absurd rfl hj⟩
  obtain ⟨ms, hms⟩ := Scan.exists_of_apart hapart none source
  -- Comments turn into spaces and newlines, and none of them vanishes.
  have hblank : ∀ (i : Unit) t kept, ∀ d ∈ Mark.render () (fun t => t.flatMap blankOut) (.found i t kept),
      d = '\n' ∨ d = ' ' := fun i t kept d hd => by
    obtain ⟨c, -, hc⟩ := List.mem_flatMap.mp hd
    exact mem_blankOut hc
  have hne : ∀ m ∈ ms, Mark.render () (fun t => t.flatMap blankOut) m ≠ [] := fun m hm => by
    have htext := hms.text_ne_nil m hm
    cases m with
    | plain c => exact List.cons_ne_nil c []
    | found i t kept =>
      cases t with
      | nil => exact absurd rfl htext
      | cons c t => exact fun h => blankOut_ne_nil c (List.append_eq_nil_iff.mp h).1
  have hslash : ∀ (i : Unit) t kept, '/' ∉ Mark.render () (fun t => t.flatMap blankOut) (.found i t kept) :=
    fun i t kept h => by rcases hblank i t kept _ h with h | h <;> cases h
  have hstar : ∀ (i : Unit) t kept, '*' ∉ Mark.render () (fun t => t.flatMap blankOut) (.found i t kept) :=
    fun i t kept h => by rcases hblank i t kept _ h with h | h <;> cases h
  have hkeeps : KeepsDelimiters (Mark.render () fun t => t.flatMap blankOut) ms :=
    { plain := fun _ => rfl
      found := fun i t kept _ => ⟨hslash i t kept, hstar i t kept⟩
      line := keepsPair_of_ne_nil (fun _ => rfl) hne fun i t kept _ => hslash i t kept
      opening := keepsPair_of_ne_nil (fun _ => rfl) hne fun i t kept _ => hstar i t kept
      closing := keepsPair_of_ne_nil (fun _ => rfl) hne fun i t kept _ => hslash i t kept }
  have heq : withoutComments source = ms.flatMap (Mark.render () fun t => t.flatMap blankOut) := hms.replaceAll_eq () _
  rw [heq]
  refine hkeeps.commentFree fun as bs hsplit => ?_
  subst hsplit
  exact read?_comment.mp ((hms.drop as).unread ())

end SpriteFacts.Switch
