import SpriteFacts.Proofs.Files.Growth
import SpriteFacts.Text.Path

/-! Trees without links. There a path leads where its steps say, so a name that is joined to a directory is one step down from
    where the directory is, and two names lead to two files. -/

namespace SpriteFacts

/-! ### Names joined to a directory -/

namespace Path

/-- The name of an entry of a directory. -/
def IsPlain (name : String) : Prop := name ≠ "" ∧ '/' ∉ name.toList ∧ name ≠ "." ∧ name ≠ ".."

instance (name : String) : Decidable (IsPlain name) := inferInstanceAs (Decidable (_ ∧ _ ∧ _ ∧ _))

variable {dir name : String}

/-- The parts of the characters of a path. -/
def partsOf (cs : List Char) : List String := ((cs.splitOn '/').filter (· ≠ [])).map String.ofList

theorem partsOf_append_cons (cs ds : List Char) : partsOf (cs ++ '/' :: ds) = partsOf cs ++ partsOf ds := by
  rw [partsOf, List.splitOn_append_cons_self, List.filter_append, List.map_append]
  rfl

theorem partsOf_name (h : IsPlain name) : partsOf name.toList = [name] := by
  have hsplit : name.toList.splitOn '/' = [name.toList] := List.splitOn_eq_singleton h.2.1
  have hne : name.toList ≠ [] := fun hnil => h.1 (String.toList_eq_nil_iff.mp hnil)
  simp [partsOf, hsplit, hne]

/-- Joining puts a slash between the two parts, unless the first is empty or ends in one. -/
theorem toList_join (h : IsPlain name) : (dir = "" ∧ (join dir name).toList = name.toList) ∨
    ∃ cs, (dir.toList = cs ∨ dir.toList = cs ++ ['/']) ∧ dir ≠ "" ∧ (join dir name).toList = cs ++ '/' :: name.toList := by
  have hhead : name.toList.head? ≠ some '/' := fun hhead => h.2.1 (List.mem_of_mem_head? hhead)
  rw [join, if_neg hhead]
  by_cases hdir : dir = ""
  · subst hdir
    exact Or.inl ⟨rfl, by simp⟩
  · right
    have hempty : dir.isEmpty = false := by simpa using hdir
    by_cases hslash : dir.toList.getLast? = some '/'
    · obtain ⟨cs, hcs⟩ := List.getLast?_eq_some_iff.mp hslash
      refine ⟨cs, Or.inr hcs, hdir, ?_⟩
      simp [hcs]
    · refine ⟨dir.toList, Or.inl rfl, hdir, ?_⟩
      simp [hslash, hempty]

theorem steps_join (h : IsPlain name) : steps (join dir name) = parts dir ++ [name] := by
  have hnil : partsOf [] = [] := rfl
  have hlast : ∀ cs, (cs ++ name.toList).getLast? ≠ some '/' := fun cs hslash => by
    obtain ⟨c, cs', hname⟩ := List.exists_cons_of_ne_nil fun hnil => h.1 (String.toList_eq_nil_iff.mp hnil)
    rw [List.getLast?_append_of_ne_nil _ (by rw [hname]; exact List.cons_ne_nil _ _)] at hslash
    exact h.2.1 (List.mem_of_getLast? hslash)
  have hparts : parts (join dir name) = parts dir ++ [name] := by
    show partsOf _ = partsOf _ ++ _
    rcases @toList_join dir name h with ⟨rfl, hjoin⟩ | ⟨cs, hdir, -, hjoin⟩
    · rw [hjoin, partsOf_name h]
      rfl
    · rw [hjoin, partsOf_append_cons, partsOf_name h]
      rcases hdir with hdir | hdir
      · rw [hdir]
      · rw [hdir, partsOf_append_cons, hnil, List.append_nil]
  rw [steps, hparts, if_neg, List.append_nil]
  rcases @toList_join dir name h with ⟨-, hjoin⟩ | ⟨cs, -, -, hjoin⟩
  · rw [hjoin]
    exact hlast []
  · rw [hjoin, List.append_cons]
    exact hlast _

theorem isAbsolute_join (h : IsPlain name) : isAbsolute (join dir name) = isAbsolute dir := by
  have hhead : (join dir name).toList.head? = some '/' ↔ dir.toList.head? = some '/' := by
    rcases @toList_join dir name h with ⟨rfl, hjoin⟩ | ⟨cs, hdir, hne, hjoin⟩
    · rw [hjoin]
      exact iff_of_false (fun hname => h.2.1 (List.mem_of_mem_head? hname)) (by simp)
    · rw [hjoin]
      cases cs with
      | cons c cs => rcases hdir with hdir | hdir <;> rw [hdir] <;> rfl
      | nil =>
        rcases hdir with hdir | hdir
        · exact absurd (String.toList_eq_nil_iff.mp hdir) hne
        · rw [hdir]
          rfl
  rw [isAbsolute, isAbsolute, Bool.eq_iff_iff, beq_iff_eq, beq_iff_eq, hhead]

/-! ### Routes without links -/

variable {link? : Location → Option String} {links : Nat} {l : Location} {steps : List String} {r : Route}

theorem last_of_routeVia (hlink : ∀ l, link? l = none) {behind : Location → List String → Option Route}
    (h : routeVia link? behind l steps = some r) : r.last = steps.foldl follow l := by
  induction steps generalizing l r with
  | nil =>
    cases h
    rfl
  | cons step steps ih =>
    rw [routeVia] at h
    simp only [hlink] at h
    obtain ⟨r', hr', rfl⟩ := Option.map_eq_some_iff.mp h
    show r'.last = steps.foldl follow (follow l step)
    exact ih hr'

theorem last_of_route? (hlink : ∀ l, link? l = none) (h : route? link? links l steps = some r) :
    r.last = steps.foldl follow l := by
  cases links with
  | zero => exact last_of_routeVia hlink h
  | succ links => exact last_of_routeVia hlink h

end Path

namespace FileTree
variable {t u : FileTree} {dir name name' : String} {l : Location}

/-- No link leads anywhere, and every file stands at one location. -/
structure Unlinked (t : FileTree) : Prop where
  links : ∀ l, t.link? l = none
  names : ∀ l k n, t.at? l = some (.file n) → t.at? k = some (.file n) → l = k

theorem Unlinked.grown (h : t.Unlinked) (hgrows : Grows t u) : u.Unlinked where
  links l := (hgrows.links l).trans (h.links l)
  names l k n hl hk := by
    rcases hgrows.names l k n hl hk with heq | ⟨hl, hk⟩
    · exact heq
    · exact h.names l k n hl hk

theorem Unlinked.reach?_join (h : t.Unlinked) (hname : Path.IsPlain name) (hreach : t.reach? (Path.join dir name) = some l) :
    l = (Path.parts dir).foldl Path.follow (Path.origin t.workingDir dir) ++ [name] := by
  rw [reach?] at hreach
  split at hreach
  · obtain ⟨r, hroute, hr⟩ := Option.bind_eq_some_iff.mp hreach
    split at hr
    · cases hr
      rw [Path.last_of_route? h.links hroute, Path.steps_join hname, Path.origin, Path.isAbsolute_join hname, List.foldl_append]
      show Path.follow _ name = _
      rw [Path.follow, if_neg (by simp [hname.1, hname.2.2.1]), if_neg hname.2.2.2]
      rfl
    · cases hr
  · cases hreach

/-- Two names of a directory lead to two files. -/
theorem Unlinked.eq_of_sameFile (h : t.Unlinked) (hname : Path.IsPlain name) (hname' : Path.IsPlain name')
    (hsame : t.SameFile (Path.join dir name) (Path.join dir name')) : name = name' := by
  obtain ⟨n, hfind, hfind'⟩ := hsame
  obtain ⟨l, hreach, hl⟩ := find?_eq_some.mp hfind
  obtain ⟨k, hreach', hk⟩ := find?_eq_some.mp hfind'
  have heq := h.names l k n hl hk
  rw [h.reach?_join hname hreach, h.reach?_join hname' hreach'] at heq
  exact List.singleton_inj.mp (List.append_cancel_left heq)

end FileTree
end SpriteFacts
