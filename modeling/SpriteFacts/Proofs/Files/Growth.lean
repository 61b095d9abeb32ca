import Mathlib.Data.List.Basic
import SpriteFacts.Files.Tree

/-! What making directories and writing files does to a tree. What stands somewhere stays there, no link is made, and no file
    gets a further name, so a path that led somewhere leads there still. Making directories changes no file, and writing
    changes the one that the path leads to, under all its names. -/

namespace SpriteFacts.FileTree

variable {t u v : FileTree} {l k : Location} {p : String} {e : FileEntry} {n : Nat} {bytes : ByteArray}

/-! ### Where paths lead -/

theorem find?_eq_some : t.find? p = some e ↔ ∃ l, t.reach? p = some l ∧ t.at? l = some e := Option.bind_eq_some_iff

theorem read?_eq_some : t.read? p = some bytes ↔ ∃ n, t.find? p = some (.file n) ∧ t.content n = bytes := by
  rw [read?]
  rcases t.find? p with _ | _ | n | _ | _ <;> simp

theorem fileAt?_of_file (h : t.at? l = some (.file n)) : t.fileAt? l = some (t.content n) := by
  rw [fileAt?, h]

/-- The file at a location is the one that a path leads to. -/
def Leads (t : FileTree) (p : String) (l : Location) : Prop := ∃ n, t.find? p = some (.file n) ∧ t.at? l = some (.file n)

/-- Two paths lead to the same file. -/
def SameFile (t : FileTree) (p q : String) : Prop := ∃ n, t.find? p = some (.file n) ∧ t.find? q = some (.file n)

instance (t : FileTree) (p q : String) : Decidable (t.SameFile p q) :=
  decidable_of_iff (((t.find? p).bind FileEntry.number?).isSome ∧ t.find? q = t.find? p) <| by
    constructor
    · rintro ⟨hnumber, heq⟩
      obtain ⟨n, hn⟩ := Option.isSome_iff_exists.mp hnumber
      obtain ⟨e, hfind, he⟩ := Option.bind_eq_some_iff.mp hn
      cases e with
      | file m => exact ⟨m, hfind, heq.trans hfind⟩
      | _ => cases he
    · rintro ⟨n, hp, hq⟩
      rw [hp, hq]
      exact ⟨rfl, rfl⟩

theorem Leads.sameFile {q : String} (h : t.Leads p l) (h' : t.Leads q l) : t.SameFile p q := by
  obtain ⟨n, hp, hl⟩ := h
  obtain ⟨m, hq, hl'⟩ := h'
  obtain rfl := FileEntry.file.inj (Option.some.inj (hl.symm.trans hl'))
  exact ⟨n, hp, hq⟩

theorem Leads.of_sameFile {q : String} (h : t.Leads p l) (hsame : t.SameFile p q) : t.Leads q l := by
  obtain ⟨n, hp, hl⟩ := h
  obtain ⟨m, hp', hq⟩ := hsame
  obtain rfl := FileEntry.file.inj (Option.some.inj (hp.symm.trans hp'))
  exact ⟨n, hq, hl⟩

/-! ### Growing trees -/

/-- Everything stays where it stands, links are the same, and only a new file gets a name, a single one. -/
structure Grows (t u : FileTree) : Prop where
  workingDir : u.workingDir = t.workingDir
  kept : ∀ l e, t.at? l = some e → u.at? l = some e
  links : ∀ l, u.link? l = t.link? l
  names : ∀ l k n, u.at? l = some (.file n) → u.at? k = some (.file n) →
    l = k ∨ (t.at? l = some (.file n) ∧ t.at? k = some (.file n))

namespace Grows

theorem refl (t : FileTree) : Grows t t := ⟨rfl, fun _ _ h => h, fun _ => rfl, fun _ _ _ hl hk => Or.inr ⟨hl, hk⟩⟩

theorem trans (h : Grows t u) (h' : Grows u v) : Grows t v where
  workingDir := h'.workingDir.trans h.workingDir
  kept l e hl := h'.kept l e (h.kept l e hl)
  links l := (h'.links l).trans (h.links l)
  names l k n hl hk := by
    rcases h'.names l k n hl hk with heq | ⟨hl, hk⟩
    · exact Or.inl heq
    · exact h.names l k n hl hk

theorem allows (h : Grows t u) {stop : Location × String} (hstop : t.allows stop = true) : u.allows stop = true := by
  rw [FileTree.allows] at hstop ⊢
  cases hat : t.at? stop.1 with
  | none =>
    rw [hat] at hstop
    cases hstop
  | some e =>
    rw [hat] at hstop
    rw [h.kept _ _ hat]
    exact hstop

/-- Links tell the route of a path, so it stays the same, and where the way was there it still is. -/
theorem walk? (h : Grows t u) {start : Location} {steps : List String} (hwalk : t.walk? start steps = some l) :
    u.walk? start steps = some l := by
  obtain ⟨r, hroute, hr⟩ := Option.bind_eq_some_iff.mp hwalk
  rw [FileTree.walk?, funext h.links]
  refine Option.bind_eq_some_iff.mpr ⟨r, hroute, ?_⟩
  split at hr
  · rename_i hall
    rw [if_pos (List.all_eq_true.mpr fun stop hstop => h.allows (List.all_eq_true.mp hall stop hstop))]
    exact hr
  · cases hr

theorem reach? (h : Grows t u) (hreach : t.reach? p = some l) : u.reach? p = some l := by
  rw [FileTree.reach?] at hreach ⊢
  split at hreach
  · rename_i hpath
    rw [if_pos hpath, h.workingDir]
    exact h.walk? hreach
  · cases hreach

theorem find? (h : Grows t u) (hfind : t.find? p = some e) : u.find? p = some e := by
  obtain ⟨l, hreach, hl⟩ := find?_eq_some.mp hfind
  exact find?_eq_some.mpr ⟨l, h.reach? hreach, h.kept l e hl⟩

theorem sameFile (h : Grows t u) {q : String} (hsame : t.SameFile p q) : u.SameFile p q := by
  obtain ⟨n, hp, hq⟩ := hsame
  exact ⟨n, h.find? hp, h.find? hq⟩

theorem leads (h : Grows t u) (hlead : t.Leads p l) : u.Leads p l := by
  obtain ⟨n, hp, hl⟩ := hlead
  exact ⟨n, h.find? hp, h.kept l _ hl⟩

/-- A file that a path led to has no further name. -/
theorem leads_of_find? (h : Grows t u) (hfind : t.find? p = some (.file n)) (hlead : u.Leads p l) : t.Leads p l := by
  obtain ⟨m, hp, hl⟩ := hlead
  obtain rfl := FileEntry.file.inj (Option.some.inj ((h.find? hfind).symm.trans hp))
  obtain ⟨k, -, hk⟩ := find?_eq_some.mp hfind
  refine ⟨n, hfind, ?_⟩
  rcases h.names l k n hl (h.kept k _ hk) with rfl | ⟨hl, -⟩
  · exact hk
  · exact hl

end Grows

/-! ### Making and writing -/

theorem link?_put (hl : l ≠ []) (hnone : t.at? l = none) (he : ∀ target, e ≠ .link target) (k : Location) :
    (t.put l e).link? k = t.link? k := by
  rw [link?, link?, t.at?_put hl]
  by_cases hk : k = l
  · subst hk
    rw [if_pos rfl, hnone]
    cases e with
    | link target => exact absurd rfl (he target)
    | _ => rfl
  · rw [if_neg hk]

/-- Where nothing is, a directory, or a file that has no name yet, may be put. -/
theorem grows_put (hl : l ≠ []) (hnone : t.at? l = none) (he : ∀ target, e ≠ .link target)
    (hnew : ∀ n k, e = .file n → t.at? k ≠ some (.file n)) : Grows t (t.put l e) where
  workingDir := rfl
  kept k e' hk := by
    rw [t.at?_put hl, if_neg]
    · exact hk
    · rintro rfl
      rw [hnone] at hk
      cases hk
  links := link?_put hl hnone he
  names k k' n hk hk' := by
    rw [t.at?_put hl] at hk hk'
    by_cases heq : k = l <;> by_cases heq' : k' = l
    · exact Or.inl (heq.trans heq'.symm)
    · rw [if_pos heq] at hk
      rw [if_neg heq'] at hk'
      exact absurd hk' (hnew n k' (Option.some.inj hk))
    · rw [if_neg heq] at hk
      rw [if_pos heq'] at hk'
      exact absurd hk (hnew n k (Option.some.inj hk'))
    · rw [if_neg heq] at hk
      rw [if_neg heq'] at hk'
      exact Or.inr ⟨hk, hk'⟩

theorem ne_root_of_none (h : t.at? l = none) : l ≠ [] := by
  rintro rfl
  cases h

theorem lt_newNumber (h : t.at? l = some (.file n)) : n < t.newNumber := by
  have hmem : n ∈ t.entries.filterMap (·.2.number?) := by
    rw [at?] at h
    split at h
    · cases h
    · obtain ⟨front, back, hentries, -⟩ := List.lookup_eq_some_iff.mp h
      exact List.mem_filterMap.mpr ⟨(l, .file n), by simp [hentries], rfl⟩
  rw [newNumber]
  generalize t.entries.filterMap (·.2.number?) = numbers at hmem
  induction numbers with
  | nil => cases hmem
  | cons m numbers ih =>
    rw [List.foldr_cons]
    rcases List.mem_cons.mp hmem with rfl | hmem
    · exact Nat.le_max_left _ _
    · exact Nat.lt_of_lt_of_le (ih hmem) (Nat.le_max_right _ _)

theorem fileAt?_fill (t : FileTree) (n : Nat) (bytes : ByteArray) (h : t.at? l ≠ some (.file n)) :
    (t.fill n bytes).fileAt? l = t.fileAt? l := by
  have hat : (t.fill n bytes).at? l = t.at? l := rfl
  rw [fileAt?, fileAt?, hat]
  cases hentry : t.at? l with
  | none => rfl
  | some e =>
    cases e with
    | file m =>
      have hne : m ≠ n := by
        rintro rfl
        exact h hentry
      simp only [content_fill, if_neg hne]
    | _ => rfl

theorem grows_fill (t : FileTree) (n : Nat) (bytes : ByteArray) : Grows t (t.fill n bytes) :=
  ⟨rfl, fun _ _ h => h, fun _ => rfl, fun _ _ _ hl hk => Or.inr ⟨hl, hk⟩⟩

theorem makeDirsOn_spec (t : FileTree) (start : Location) (done steps : List String) :
    Grows t (t.makeDirsOn start done steps).2 ∧ ∀ k, (t.makeDirsOn start done steps).2.fileAt? k = t.fileAt? k := by
  induction steps generalizing t done with
  | nil => exact ⟨.refl t, fun _ => rfl⟩
  | cons step steps ih =>
    rw [makeDirsOn]
    split
    · exact ⟨.refl t, fun _ => rfl⟩
    · rename_i l _
      split
      · exact ⟨.refl t, fun _ => rfl⟩
      · split
        · rename_i hnone
          rw [Option.isNone_iff_eq_none] at hnone
          have hroot := ne_root_of_none hnone
          have hput := @grows_put t _ (.directory true) hroot hnone nofun nofun
          obtain ⟨hgrows, hfiles⟩ := ih (t.put (Path.follow l step) (.directory true)) (done ++ [step])
          refine ⟨hput.trans hgrows, fun k => (hfiles k).trans ?_⟩
          rw [fileAt?, fileAt?, t.at?_put hroot]
          by_cases hk : k = Path.follow l step
          · rw [if_pos hk, hk, hnone]
          · rw [if_neg hk]
            rfl
        · split
          · exact ih t (done ++ [step])
          · exact ⟨.refl t, fun _ => rfl⟩

/-- Making directories changes no file, whether or not all of them could be made. -/
theorem makeDirs_spec (t : FileTree) (p : String) :
    Grows t (t.makeDirs p).2 ∧ ∀ k, (t.makeDirs p).2.fileAt? k = t.fileAt? k := by
  unfold makeDirs
  dsimp only
  split
  · exact ⟨.refl t, fun _ => rfl⟩
  · split
    · exact ⟨.refl t, fun _ => rfl⟩
    · split <;> exact makeDirsOn_spec t _ _ _

/-- A file that is made has a number of its own. -/
theorem grows_make (hnone : t.at? l = none) (bytes : ByteArray) :
    Grows t ((t.put l (.file t.newNumber)).fill t.newNumber bytes) ∧
      ∀ k, k ≠ l → ((t.put l (.file t.newNumber)).fill t.newNumber bytes).fileAt? k = t.fileAt? k := by
  have hroot := ne_root_of_none hnone
  have hnew : ∀ k, t.at? k ≠ some (.file t.newNumber) := fun k hk => Nat.lt_irrefl _ (lt_newNumber hk)
  have hput : Grows t (t.put l (.file t.newNumber)) := grows_put hroot hnone nofun fun n k heq => by
    cases heq
    exact hnew k
  refine ⟨hput.trans (grows_fill _ _ bytes), fun k hk => ?_⟩
  have hat : (t.put l (.file t.newNumber)).at? k = t.at? k := by rw [t.at?_put hroot, if_neg hk]
  rw [fileAt?_fill _ _ _ (by rw [hat]; exact hnew k), fileAt?, fileAt?, hat]
  rfl

end SpriteFacts.FileTree
