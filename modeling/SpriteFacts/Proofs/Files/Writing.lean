import SpriteFacts.Proofs.Files.Growth

/-! A row of texts written to a tree. Each file holds the last of the texts whose paths lead to it, and every other file is
    as it was. Writing the first texts of a row once more changes nothing, unless a later text had gone to the same file.
    All this holds in a system that refuses what the tree would allow. -/

namespace SpriteFacts.FileTree

variable {t u v : FileTree} {l : Location} {p : String} {bytes : ByteArray} {ws ws' : List (String × ByteArray)}

/-! ### Reading -/

theorem Leads.read?_eq (h : t.Leads p l) : t.read? p = t.fileAt? l := by
  obtain ⟨n, hp, hl⟩ := h
  rw [read?, hp, fileAt?_of_file hl]

theorem exists_leads (h : t.read? p = some bytes) : ∃ l, t.Leads p l := by
  obtain ⟨n, hfind, -⟩ := read?_eq_some.mp h
  obtain ⟨l, -, hl⟩ := find?_eq_some.mp hfind
  exact ⟨l, n, hfind, hl⟩

/-! ### Rows of texts -/

/-- The tree with texts written to the files that their paths lead to, one after another, and with every other file as it
    was. A device keeps nothing. -/
structure Wrote (t : FileTree) (ws : List (String × ByteArray)) (u : FileTree) : Prop where
  grows : Grows t u
  written : ∀ front p bytes back, ws = front ++ (p, bytes) :: back → u.find? p = some .device ∨
    ((∀ w ∈ back, ¬u.SameFile p w.1) → u.read? p = some bytes)
  kept : ∀ l, (∀ w ∈ ws, ¬u.Leads w.1 l) → u.fileAt? l = t.fileAt? l

namespace Wrote

theorem nil (hgrows : Grows t u) (hfiles : ∀ l, u.fileAt? l = t.fileAt? l) : Wrote t [] u where
  grows := hgrows
  written front p bytes back h := by simp at h
  kept l _ := hfiles l

theorem one (hgrows : Grows t u) (hread : u.find? p = some .device ∨ u.read? p = some bytes)
    (hkept : ∀ l, ¬u.Leads p l → u.fileAt? l = t.fileAt? l) : Wrote t [(p, bytes)] u where
  grows := hgrows
  written front q bytes' back hsplit := by
    cases front with
    | nil =>
      cases hsplit
      exact hread.imp_right fun h _ => h
    | cons w' front => simp at hsplit
  kept l hl := hkept l (hl _ (List.mem_singleton_self _))

/-- A file that is read and not written to is read again. -/
theorem read? (h : Wrote t ws u) (hread : t.read? p = some bytes) (hother : ∀ w ∈ ws, ¬u.SameFile p w.1) :
    u.read? p = some bytes := by
  obtain ⟨l, hlead⟩ := exists_leads hread
  have hlead' := h.grows.leads hlead
  rw [hlead'.read?_eq, h.kept l fun w hw hw' => hother w hw (hlead'.sameFile hw'), ← hlead.read?_eq, hread]

theorem append (h : Wrote t ws u) (h' : Wrote u ws' v) : Wrote t (ws ++ ws') v where
  grows := h.grows.trans h'.grows
  written front p bytes back hsplit := by
    rcases List.append_eq_append_iff.mp hsplit with ⟨front', rfl, hws'⟩ | ⟨back', hws, hback⟩
    · exact h'.written front' p bytes back hws'
    · cases back' with
      | nil =>
        rw [List.nil_append] at hback
        exact h'.written [] p bytes back hback.symm
      | cons w' back' =>
        obtain ⟨rfl, rfl⟩ := List.cons.inj hback
        rcases h.written front p bytes back' hws with hdevice | hread
        · exact Or.inl (h'.grows.find? hdevice)
        · refine Or.inr fun hother => h'.read? (hread fun w' hw' hsame => ?_) fun w' hw' => ?_
          · exact hother w' (List.mem_append_left _ hw') (h'.grows.sameFile hsame)
          · exact hother w' (List.mem_append_right _ hw')
  kept l hl := by
    rw [h'.kept l fun w hw => hl w (List.mem_append_right _ hw),
      h.kept l fun w hw hlead => hl w (List.mem_append_left _ hw) (h'.grows.leads hlead)]

/-- The last text of a row that went to a file. -/
theorem exists_last (h : ∃ w ∈ ws, u.Leads w.1 l) :
    ∃ front w back, ws = front ++ w :: back ∧ u.Leads w.1 l ∧ ∀ w' ∈ back, ¬u.Leads w'.1 l := by
  induction ws with
  | nil => simp at h
  | cons w ws ih =>
    by_cases hlater : ∃ w' ∈ ws, u.Leads w'.1 l
    · obtain ⟨front, w', back, rfl, hw', hback⟩ := ih hlater
      exact ⟨w :: front, w', back, rfl, hw', hback⟩
    · obtain ⟨w', hmem, hw'⟩ := h
      rcases List.mem_cons.mp hmem with rfl | hmem
      · exact ⟨[], w', ws, rfl, hw', fun w'' hw'' hlead => hlater ⟨w'', hw'', hlead⟩⟩
      · exact absurd ⟨w', hmem, hw'⟩ hlater

/-- Writing the first texts of a row again changes no file, if no later text of the row went to one of their files. -/
theorem again (h : Wrote t (ws ++ ws') u) (h' : Wrote u ws v) (hrest : ∀ w ∈ ws, ∀ w' ∈ ws', ¬u.SameFile w.1 w'.1)
    (l : Location) : v.fileAt? l = u.fileAt? l := by
  by_cases hl : ∃ w ∈ ws, v.Leads w.1 l
  · obtain ⟨front, ⟨p, bytes⟩, back, hsplit, hlead, hback⟩ := exists_last hl
    have hmem : (p, bytes) ∈ ws := hsplit ▸ List.mem_append_right _ List.mem_cons_self
    have hback' : ∀ w' ∈ back, ¬v.SameFile p w'.1 := fun w' hw' hsame => hback w' hw' (hlead.of_sameFile hsame)
    have hnodevice : v.find? p ≠ some .device := by
      obtain ⟨n, hfind, -⟩ := hlead
      rw [hfind]
      nofun
    -- Both trees hold the text of the last path that leads there.
    have hread : u.read? p = some bytes := by
      have hsplit' : ws ++ ws' = front ++ (p, bytes) :: (back ++ ws') := by rw [hsplit, List.append_assoc, List.cons_append]
      refine ((h.written _ _ _ _ hsplit').resolve_left fun hdevice => hnodevice (h'.grows.find? hdevice)) fun w' hw' => ?_
      rcases List.mem_append.mp hw' with hw' | hw'
      · exact fun hsame => hback' w' hw' (h'.grows.sameFile hsame)
      · exact hrest _ hmem w' hw'
    have hread' : v.read? p = some bytes := ((h'.written _ _ _ _ hsplit).resolve_left hnodevice) hback'
    obtain ⟨n, hfind, -⟩ := read?_eq_some.mp hread
    rw [← hlead.read?_eq, hread', ← (h'.grows.leads_of_find? hfind hlead).read?_eq, hread]
  · exact h'.kept l fun w hw hlead => hl ⟨w, hw, hlead⟩

end Wrote

/-- Writing fails and changes nothing, or it writes to the file that the path leads to. -/
theorem write_cases (t : FileTree) (p : String) (bytes : ByteArray) :
    t.write p bytes = (false, t) ∨ ∃ u, t.write p bytes = (true, u) ∧ Wrote t [(p, bytes)] u := by
  rw [write]
  cases hreach : t.reach? p with
  | none => exact Or.inl rfl
  | some l =>
    have hfind : ∀ {u e}, Grows t u → u.at? l = some e → u.find? p = some e := fun hgrows hl =>
      find?_eq_some.mpr ⟨l, hgrows.reach? hreach, hl⟩
    dsimp only
    cases hat : t.at? l with
    | none =>
      obtain ⟨hgrows, hfiles⟩ := grows_make hat bytes
      have hl : ((t.put l (.file t.newNumber)).fill t.newNumber bytes).at? l = some (.file t.newNumber) :=
        (t.at?_put (ne_root_of_none hat) _ l).trans (if_pos rfl)
      refine Or.inr ⟨_, rfl, .one hgrows (Or.inr ?_) fun k hk => hfiles k ?_⟩
      · exact read?_eq_some.mpr ⟨_, hfind hgrows hl, by rw [content_fill, if_pos rfl]⟩
      · rintro rfl
        exact hk ⟨_, hfind hgrows hl, hl⟩
    | some e =>
      cases e with
      | directory isOpen => exact Or.inl rfl
      | link target => exact Or.inl rfl
      | device => exact Or.inr ⟨t, rfl, .one (.refl t) (Or.inl (hfind (.refl t) hat)) fun _ _ => rfl⟩
      | file n =>
        have hgrows := grows_fill t n bytes
        refine Or.inr ⟨_, rfl, .one hgrows (Or.inr ?_) fun k hk => fileAt?_fill t n bytes fun hk' => hk ?_⟩
        · exact read?_eq_some.mpr ⟨n, hfind hgrows hat, by rw [content_fill, if_pos rfl]⟩
        · exact ⟨n, hfind hgrows hat, hk'⟩

/-! ### Systems -/

/-- What a system does besides what the tree tells: it may refuse, whatever the tree and so whatever has been done, and it
    gives what is read from devices. -/
structure System where
  refusesReading : FileTree → String → Bool := fun _ _ => false
  refusesMaking : FileTree → String → Bool := fun _ _ => false
  refusesWriting : FileTree → String → Bool := fun _ _ => false
  device? : FileTree → String → Option ByteArray := fun _ _ => none

section System
variable (s : System)

def readUnder (t : FileTree) (p : String) : Option ByteArray :=
  if s.refusesReading t p then none else if t.find? p = some .device then s.device? t p else t.read? p

def makeDirsUnder (t : FileTree) (p : String) : Bool × FileTree := if s.refusesMaking t p then (false, t) else t.makeDirs p

def writeUnder (t : FileTree) (p : String) (bytes : ByteArray) : Bool × FileTree :=
  if s.refusesWriting t p then (false, t) else t.write p bytes

/-- Access to a tree in a system. What is refused changes nothing. -/
def accessUnder : FileAccess (StateM FileTree) where
  isThere p := fun t => ((t.find? p).isSome, t)
  read? p := fun t => (t.readUnder s p, t)
  makeDirs p := fun t => t.makeDirsUnder s p
  write p text := fun t => t.writeUnder s p text.toUTF8

/-- A system that refuses nothing and gives nothing from devices leaves all to the tree. -/
theorem accessUnder_none : accessUnder {} = access := by
  have hread : ∀ t p, readUnder {} t p = t.read? p := fun t p => by
    rw [readUnder, if_neg (by simp)]
    split
    · rename_i hdevice
      rw [read?, hdevice]
    · rfl
  simp only [accessUnder, access, hread, makeDirsUnder, writeUnder, Bool.false_eq_true, if_false]

theorem makeDirsUnder_spec (t : FileTree) (p : String) : Wrote t [] (t.makeDirsUnder s p).2 := by
  rw [makeDirsUnder]
  cases s.refusesMaking t p with
  | true => exact .nil (.refl t) fun _ => rfl
  | false => exact .nil (t.makeDirs_spec p).1 (t.makeDirs_spec p).2

theorem writeUnder_cases (t : FileTree) (p : String) (bytes : ByteArray) :
    t.writeUnder s p bytes = (false, t) ∨ ∃ u, t.writeUnder s p bytes = (true, u) ∧ Wrote t [(p, bytes)] u := by
  rw [writeUnder]
  cases s.refusesWriting t p with
  | true => exact Or.inl rfl
  | false => exact t.write_cases p bytes

variable {s}

theorem isSome_find?_of_readUnder (h : t.readUnder s p = some bytes) : (t.find? p).isSome = true := by
  rw [readUnder] at h
  split at h
  · cases h
  · split at h
    · rename_i hdevice
      rw [hdevice]
      rfl
    · obtain ⟨n, hfind, -⟩ := read?_eq_some.mp h
      rw [hfind]
      rfl

/-- A directory cannot be read. -/
theorem readUnder_directory {isOpen : Bool} (h : t.find? p = some (.directory isOpen)) : t.readUnder s p = none := by
  have hread : t.read? p = none := by rw [read?, h]
  have hdevice : t.find? p ≠ some .device := by simp [h]
  rw [readUnder, if_neg hdevice, hread, ite_self]

theorem read?_of_readUnder (h : t.readUnder s p = some bytes) (hdevice : t.find? p ≠ some .device) : t.read? p = some bytes := by
  rw [readUnder, if_neg hdevice] at h
  split at h
  · cases h
  · exact h

/-- A file that is not written to and can still be read is read as before. -/
theorem Wrote.readUnder_eq (h : Wrote t ws u) (hdevice : t.find? p ≠ some .device) (hother : ∀ w ∈ ws, ¬u.SameFile p w.1)
    {bytes' : ByteArray} (hread : t.readUnder s p = some bytes) (hread' : u.readUnder s p = some bytes') : bytes' = bytes := by
  have hagain := h.read? (read?_of_readUnder hread hdevice) hother
  obtain ⟨n, hfind, -⟩ := read?_eq_some.mp hagain
  have hread'' := read?_of_readUnder hread' (by rw [hfind]; nofun)
  exact Option.some.inj (hread''.symm.trans hagain)

end System
end SpriteFacts.FileTree
