import SpriteFacts.Proofs.Files.Unlinked
import SpriteFacts.Proofs.Files.Writing
import SpriteFacts.Run.Basic

/-! What a run leaves in a tree of files. A run that comes to its documents writes them one after another, each where its
    name leads below the directory of the run, and stops at the first that cannot be written; whatever else the run does
    changes no file. A second run reads the same configuration and source, unless a document has taken their place or a
    directory that the first run made opens the way to a configuration, and so it writes the same texts again. -/

namespace SpriteFacts

namespace Run

open FileTree (System accessUnder Wrote)

variable {s : System} {o : Options} {t u : FileTree} {dir : String}

/-! ### What a run reads -/

def configPath (o : Options) : String := o.config.getD defaultConfigPath

/-- The settings of a run on a tree. -/
def settingsIn (s : System) (o : Options) (t : FileTree) : Except RunFault Settings :=
  if (t.find? (configPath o)).isSome then
    match t.readUnder s (configPath o) with
    | none => .error (.config (configPath o) .unreadable)
    | some bytes => (Settings.ofBytes bytes).mapError (.config (configPath o))
  else .ok {}

/-- The source of a run on a tree. -/
def sourceIn (s : System) (o : Options) (t : FileTree) : Except RunFault Source :=
  if (t.find? o.input).isSome then
    match t.readUnder s o.input with
    | none => .error (.inputUnreadable o.input)
    | some bytes => .ok (Source.ofBytes o.input bytes)
  else .error (.inputMissing o.input)

theorem loadSettings_eq (s : System) (o : Options) (t : FileTree) :
    loadSettings (accessUnder s) o.config t = (settingsIn s o t, t) := by
  show (if (t.find? (configPath o)).isSome then _ else _ : StateM FileTree _) t = _
  rw [settingsIn]
  split
  · show (match t.readUnder s (configPath o) with | none => _ | some bytes => _ : StateM FileTree _) t = _
    cases t.readUnder s (configPath o) <;> rfl
  · rfl

theorem loadSource_eq (s : System) (o : Options) (t : FileTree) :
    loadSource (accessUnder s) o.input t = (sourceIn s o t, t) := by
  show (if (t.find? o.input).isSome then _ else _ : StateM FileTree _) t = _
  rw [sourceIn]
  split
  · show (match t.readUnder s o.input with | none => _ | some bytes => _ : StateM FileTree _) t = _
    cases t.readUnder s o.input <;> rfl
  · rfl

theorem run_eq (s : System) (o : Options) (t : FileTree) : run (accessUnder s) o t =
    match settingsIn s o t with
    | .error fault => ({ fault := some fault }, t)
    | .ok settings =>
      if o.listIdioms then ({ printed := idiomList }, t)
      else
        match o.documents with
        | .error name => ({ fault := some (.unknownDocument name) }, t)
        | .ok kinds =>
          match sourceIn s o t with
          | .error fault => ({ fault := some fault }, t)
          | .ok source => finish (accessUnder s) o settings source (kinds.map (Document.extract source settings)) t := by
  simp only [run, bind, StateT.bind, loadSettings_eq]
  cases settingsIn s o t with
  | error fault => rfl
  | ok settings =>
    dsimp only
    split
    · rfl
    · cases o.documents with
      | error name => rfl
      | ok kinds =>
        simp only [StateT.bind, loadSource_eq]
        cases sourceIn s o t <;> rfl

/-! ### Writing documents -/

theorem isPlain_fileName (kind : DocumentKind) : Path.IsPlain kind.fileName := by cases kind <;> decide

/-- The texts of documents, each under its path. -/
def texts (dir : String) (ds : List Document) : List (String × ByteArray) := ds.map fun d => (outputPath dir d.kind, d.render.toUTF8)

theorem writeAll_cons (d : Document) (ds : List Document) (t : FileTree) : writeAll (accessUnder s) dir (d :: ds) t =
    match t.makeDirsUnder s dir with
    | (false, u) => (some (.outputDir dir), u)
    | (true, u) =>
      match u.writeUnder s (outputPath dir d.kind) d.render.toUTF8 with
      | (false, v) => (some (.output (outputPath dir d.kind)), v)
      | (true, v) => writeAll (accessUnder s) dir ds v := by
  show (match t.makeDirsUnder s dir with | (made, u) => (if made then _ else _ : StateM FileTree _) u) = _
  rcases t.makeDirsUnder s dir with ⟨_ | _, u⟩
  · rfl
  · dsimp only
    show (match u.writeUnder s (outputPath dir d.kind) d.render.toUTF8 with
      | (made, v) => (if made then _ else _ : StateM FileTree _) v) = _
    rcases u.writeUnder s (outputPath dir d.kind) d.render.toUTF8 with ⟨_ | _, v⟩ <;> rfl

/-- Documents are written in order, all of them or those in front of one that cannot be written. -/
theorem writeAll_spec (dir : String) (ds : List Document) (t : FileTree) :
    ∃ done rest, ds = done ++ rest ∧ Wrote t (texts dir done) (writeAll (accessUnder s) dir ds t).2 ∧
      ((rest = [] ∧ (writeAll (accessUnder s) dir ds t).1 = none) ∨ ∃ d ds' fault, rest = d :: ds' ∧
        (writeAll (accessUnder s) dir ds t).1 = some fault ∧
        (fault = .outputDir dir ∨ fault = .output (outputPath dir d.kind))) := by
  induction ds generalizing t with
  | nil => exact ⟨[], [], rfl, .nil (.refl t) fun _ => rfl, Or.inl ⟨rfl, rfl⟩⟩
  | cons d ds ih =>
    have hmaking := t.makeDirsUnder_spec s dir
    rw [writeAll_cons]
    rcases hmade : t.makeDirsUnder s dir with ⟨_ | _, u⟩
    · rw [hmade] at hmaking
      exact ⟨[], d :: ds, rfl, hmaking, Or.inr ⟨d, ds, _, rfl, rfl, Or.inl rfl⟩⟩
    · rw [hmade] at hmaking
      dsimp only at hmaking ⊢
      rcases u.writeUnder_cases s (outputPath dir d.kind) d.render.toUTF8 with hwrite | ⟨v, hwrite, hwrote⟩
      · rw [hwrite]
        exact ⟨[], d :: ds, rfl, hmaking, Or.inr ⟨d, ds, _, rfl, rfl, Or.inr rfl⟩⟩
      · rw [hwrite]
        obtain ⟨done, rest, rfl, hrest, hfault⟩ := ih v
        exact ⟨d :: done, rest, rfl, hmaking.append (hwrote.append hrest), hfault⟩

/-! ### The documents of a run -/

theorem mem_named {names : List String} {named : List DocumentKind} (h : names.mapM Options.documentNamed = .ok named)
    (kind : DocumentKind) : kind ∈ named ↔ ∃ name ∈ names, Options.documentNamed name = .ok kind := by
  induction names generalizing named with
  | nil =>
    cases h
    simp
  | cons name names ih =>
    rw [List.mapM_cons] at h
    cases hfirst : Options.documentNamed name with
    | error e =>
      rw [hfirst] at h
      cases h
    | ok first =>
      cases hrest : names.mapM Options.documentNamed with
      | error e =>
        rw [hfirst, hrest] at h
        cases h
      | ok rest =>
        rw [hfirst, hrest] at h
        cases h
        simp [hfirst, ih hrest, eq_comm]

/-- The documents of a run are those that are named, or all, in the order of all. -/
theorem documents_spec {kinds : List DocumentKind} (h : o.documents = .ok kinds) : kinds.Sublist DocumentKind.all ∧
    ∀ kind, kind ∈ kinds ↔ o.only = [] ∨ ∃ name ∈ o.only, Options.documentNamed name = .ok kind := by
  have hall : ∀ kind, kind ∈ DocumentKind.all := fun kind => by cases kind <;> decide
  rw [Options.documents] at h
  by_cases honly : o.only = []
  · rw [honly] at h
    cases h
    exact ⟨.refl _, fun kind => iff_of_true (hall kind) (Or.inl honly)⟩
  · rw [if_neg (by simpa using honly)] at h
    cases hnamed : o.only.mapM Options.documentNamed with
    | error e =>
      rw [hnamed] at h
      cases h
    | ok named =>
      rw [hnamed] at h
      cases h
      refine ⟨List.filter_sublist, fun kind => ?_⟩
      rw [List.mem_filter, List.contains_iff_mem, mem_named hnamed]
      simp [hall, honly]

/-- What a run knows when it comes to write its documents. -/
structure Plan (s : System) (o : Options) (t : FileTree) where
  settings : Settings
  kinds : List DocumentKind
  source : Source
  configured : settingsIn s o t = .ok settings
  listing : o.listIdioms = false
  selected : o.documents = .ok kinds
  loaded : sourceIn s o t = .ok source
  writing : o.dryRun = false

/-- The run fails before it writes, or it is not to write at all. -/
def StopsEarly (s : System) (o : Options) (t : FileTree) : Prop :=
  (∃ fault, settingsIn s o t = .error fault) ∨ o.listIdioms = true ∨ (∃ name, o.documents = .error name) ∨
    (∃ fault, sourceIn s o t = .error fault) ∨ o.dryRun = true

theorem stopsEarly_or_plan (s : System) (o : Options) (t : FileTree) : StopsEarly s o t ∨ Nonempty (Plan s o t) := by
  cases hsettings : settingsIn s o t with
  | error fault => exact Or.inl (Or.inl ⟨fault, hsettings⟩)
  | ok settings =>
    cases hlist : o.listIdioms with
    | true => exact Or.inl (Or.inr (Or.inl hlist))
    | false =>
      cases hkinds : o.documents with
      | error name => exact Or.inl (Or.inr (Or.inr (Or.inl ⟨name, hkinds⟩)))
      | ok kinds =>
        cases hsource : sourceIn s o t with
        | error fault => exact Or.inl (Or.inr (Or.inr (Or.inr (Or.inl ⟨fault, hsource⟩))))
        | ok source =>
          cases hdry : o.dryRun with
          | true => exact Or.inl (Or.inr (Or.inr (Or.inr (Or.inr hdry))))
          | false => exact Or.inr ⟨settings, kinds, source, hsettings, hlist, hkinds, hsource, hdry⟩

theorem run_of_stopsEarly (h : StopsEarly s o t) : (run (accessUnder s) o t).2 = t := by
  rw [run_eq]
  cases hsettings : settingsIn s o t with
  | error fault => rfl
  | ok settings =>
    dsimp only
    split
    · rfl
    · rename_i hlist
      cases hkinds : o.documents with
      | error name => rfl
      | ok kinds =>
        cases hsource : sourceIn s o t with
        | error fault => rfl
        | ok source =>
          have hdry : o.dryRun = true := by
            rcases h with ⟨fault, h⟩ | h | ⟨name, h⟩ | ⟨fault, h⟩ | h
            · rw [hsettings] at h; cases h
            · exact absurd h hlist
            · rw [hkinds] at h; cases h
            · rw [hsource] at h; cases h
            · exact h
          dsimp only
          rw [finish, if_pos hdry]
          rfl

/-- A run that writes leaves the tree and the fault of its writing. -/
theorem finish_eq (hdry : o.dryRun = false) (settings : Settings) (source : Source) (ds : List Document) (t : FileTree) :
    (finish (accessUnder s) o settings source ds t).1.fault = (writeAll (accessUnder s) (outputDir o settings) ds t).1 ∧
      (finish (accessUnder s) o settings source ds t).2 = (writeAll (accessUnder s) (outputDir o settings) ds t).2 := by
  rw [finish, if_neg (by rw [hdry]; exact Bool.false_ne_true)]
  simp only [bind, StateT.bind]
  rcases writeAll (accessUnder s) (outputDir o settings) ds t with ⟨_ | fault, u⟩ <;> exact ⟨rfl, rfl⟩

namespace Plan

/-- The directory of the run. -/
def target (p : Plan s o t) : String := outputDir o p.settings

def document (p : Plan s o t) (kind : DocumentKind) : Document := Document.extract p.source p.settings kind

/-- The path of the document of a kind. -/
def path (p : Plan s o t) (kind : DocumentKind) : String := outputPath p.target kind

theorem kind_document (p : Plan s o t) (kind : DocumentKind) : (p.document kind).kind = kind := by cases kind <;> rfl

theorem run_eq (p : Plan s o t) :
    (run (accessUnder s) o t).1.fault = (writeAll (accessUnder s) p.target (p.kinds.map p.document) t).1 ∧
      (run (accessUnder s) o t).2 = (writeAll (accessUnder s) p.target (p.kinds.map p.document) t).2 := by
  have hlist : ¬o.listIdioms = true := by rw [p.listing]; exact Bool.false_ne_true
  rw [Run.run_eq, p.configured]
  dsimp only
  rw [if_neg hlist, p.selected]
  dsimp only
  rw [p.loaded]
  exact finish_eq p.writing _ _ _ t

theorem nodup_kinds (p : Plan s o t) : p.kinds.Nodup := (documents_spec p.selected).1.nodup (by decide)

/-- The texts of the documents of some kinds, each under its path. -/
def texts (p : Plan s o t) (kinds : List DocumentKind) : List (String × ByteArray) :=
  kinds.map fun kind => (p.path kind, (p.document kind).render.toUTF8)

theorem texts_document (p : Plan s o t) (kinds : List DocumentKind) : Run.texts p.target (kinds.map p.document) = p.texts kinds := by
  rw [Run.texts, texts, List.map_map]
  exact List.map_congr_left fun kind _ => by rw [Function.comp_apply, p.kind_document, path]

/-- The run has written its documents in order, all of them or those in front of one that cannot be written. -/
theorem wrote (p : Plan s o t) : ∃ done rest, p.kinds = done ++ rest ∧ Wrote t (p.texts done) (run (accessUnder s) o t).2 ∧
    ((rest = [] ∧ (run (accessUnder s) o t).1.fault = none) ∨ ∃ kind rest' fault, rest = kind :: rest' ∧
      (run (accessUnder s) o t).1.fault = some fault ∧ (fault = .outputDir p.target ∨ fault = .output (p.path kind))) := by
  obtain ⟨hfault, htree⟩ := p.run_eq
  obtain ⟨ds, ds', hsplit, hwrote, hend⟩ := writeAll_spec p.target (p.kinds.map p.document) t
  obtain ⟨done, rest, hkinds, rfl, rfl⟩ := List.map_eq_append_iff.mp hsplit
  rw [← htree, p.texts_document] at hwrote
  rw [← hfault] at hend
  refine ⟨done, rest, hkinds, hwrote, ?_⟩
  rcases hend with ⟨hnil, hnone⟩ | ⟨d, ds', fault, hcons, hsome, hpath⟩
  · exact Or.inl ⟨List.map_eq_nil_iff.mp hnil, hnone⟩
  · obtain ⟨kind, rest', rfl, rfl, -⟩ := List.map_eq_cons_iff.mp hcons
    rw [p.kind_document] at hpath
    exact Or.inr ⟨kind, rest', fault, rfl, hsome, hpath⟩

end Plan

/-! ### Running again -/

/-- The source is what is read at its path. -/
theorem sourceIn_eq_ok {source : Source} : sourceIn s o t = .ok source ↔
    ∃ bytes, t.readUnder s o.input = some bytes ∧ source = .ofBytes o.input bytes := by
  rw [sourceIn]
  constructor
  · intro h
    split at h
    · cases hread : t.readUnder s o.input with
      | none =>
        rw [hread] at h
        cases h
      | some bytes =>
        rw [hread] at h
        cases h
        exact ⟨bytes, rfl, rfl⟩
    · cases h
  · rintro ⟨bytes, hread, rfl⟩
    rw [if_pos (FileTree.isSome_find?_of_readUnder hread), hread]

/-- The settings are what is read at the path of the configuration, or the defaults if nothing is there. -/
theorem settingsIn_eq_ok {settings : Settings} : settingsIn s o t = .ok settings ↔
    (t.find? (configPath o) = none ∧ settings = {}) ∨
      ∃ bytes, t.readUnder s (configPath o) = some bytes ∧ Settings.ofBytes bytes = .ok settings := by
  have hok : ∀ {r : Except ConfigFault Settings}, r.mapError (.config (configPath o)) = (.ok settings : Except RunFault Settings) ↔
      r = .ok settings := by
    rintro (fault | settings')
    · exact iff_of_false nofun nofun
    · exact ⟨fun h => congrArg Except.ok (Except.ok.inj h), fun h => congrArg Except.ok (Except.ok.inj h)⟩
  rw [settingsIn]
  cases hfind : t.find? (configPath o) with
  | none =>
    have hread : ∀ bytes, t.readUnder s (configPath o) ≠ some bytes := fun bytes h => by
      have hsome := FileTree.isSome_find?_of_readUnder h
      rw [hfind] at hsome
      cases hsome
    simp [hread, eq_comm]
  | some e =>
    cases hread : t.readUnder s (configPath o) with
    | none => simp
    | some bytes => simp [hok]

namespace Plan

/-- The documents of some kinds are in the files that their paths lead to. A device keeps no text, and of several texts for the
    same file the last one stays. -/
def Filed (p : Plan s o t) (kinds : List DocumentKind) (u : FileTree) : Prop :=
  ∀ front kind back, kinds = front ++ kind :: back → u.find? (p.path kind) = some .device ∨
    ((∀ k ∈ back, ¬u.SameFile (p.path kind) (p.path k)) → u.read? (p.path kind) = some (p.document kind).render.toUTF8)

/-- No two documents have paths to the same file. -/
def Apart (p : Plan s o t) (u : FileTree) : Prop :=
  ∀ k ∈ p.kinds, ∀ k' ∈ p.kinds, u.SameFile (p.path k) (p.path k') → k = k'

/-- On the tree that the run left, source and configuration can be read as before: they are files that no document has been
    written to, and if there was no configuration, there is none that could be read now. -/
structure Repeatable (p : Plan s o t) (u : FileTree) : Prop where
  sourceFile : t.find? o.input ≠ some .device
  source : ∀ kind ∈ p.kinds, ¬u.SameFile o.input (p.path kind)
  configFile : t.find? (configPath o) ≠ some .device
  config : ∀ kind ∈ p.kinds, ¬u.SameFile (configPath o) (p.path kind)
  absent : t.find? (configPath o) = none → ∀ e, u.find? (configPath o) = some e → e.isDirectory = true

/-- Only links can lead two documents to the same file. -/
theorem apart_of_unlinked (p : Plan s o t) (hgrows : FileTree.Grows t u) (h : t.Unlinked) : p.Apart u := fun k _ k' _ hsame => by
  have hname := (h.grown hgrows).eq_of_sameFile (isPlain_fileName k) (isPlain_fileName k') hsame
  cases k <;> cases k' <;> first | rfl | exact absurd hname (by decide)

theorem filed_of_wrote (p : Plan s o t) {kinds : List DocumentKind} (h : Wrote t (p.texts kinds) u) : p.Filed kinds u := by
  rintro front kind back rfl
  have hsplit : p.texts (front ++ kind :: back) = p.texts front ++ (p.path kind, (p.document kind).render.toUTF8) :: p.texts back := by
    rw [texts, List.map_append]
    rfl
  exact (h.written _ _ _ _ hsplit).imp_right fun hread hback => hread (List.forall_mem_map.mpr hback)

/-- Files that no path of a document leads to are as they were. -/
theorem kept_of_wrote (p : Plan s o t) {kinds : List DocumentKind} (h : Wrote t (p.texts kinds) u) (l : Location)
    (hl : ∀ kind ∈ kinds, ¬u.Leads (p.path kind) l) : u.fileAt? l = t.fileAt? l := h.kept l (List.forall_mem_map.mpr hl)

/-- A run on the tree that a complete run left has the same settings, if it has any. -/
theorem same_settings (p : Plan s o t) (hwrote : Wrote t (p.texts p.kinds) u) (hp : p.Repeatable u) (q : Plan s o u) :
    q.settings = p.settings := by
  rcases settingsIn_eq_ok.mp p.configured with ⟨hmissing, hdefault⟩ | ⟨bytes, hread, hbytes⟩
  · rcases settingsIn_eq_ok.mp q.configured with ⟨-, hdefault'⟩ | ⟨bytes, hread, -⟩
    · rw [hdefault', hdefault]
    · -- What is read there now would be a file or a device.
      obtain ⟨e, hfind⟩ := Option.isSome_iff_exists.mp (FileTree.isSome_find?_of_readUnder hread)
      have hdirectory := hp.absent hmissing e hfind
      cases e with
      | directory isOpen =>
        rw [FileTree.readUnder_directory hfind] at hread
        cases hread
      | _ => cases hdirectory
  · rcases settingsIn_eq_ok.mp q.configured with ⟨hmissing, -⟩ | ⟨bytes', hread', hbytes'⟩
    · obtain ⟨e, hfind⟩ := Option.isSome_iff_exists.mp (FileTree.isSome_find?_of_readUnder hread)
      rw [hwrote.grows.find? hfind] at hmissing
      cases hmissing
    · rw [hwrote.readUnder_eq hp.configFile (List.forall_mem_map.mpr hp.config) hread hread', hbytes] at hbytes'
      exact (Except.ok.inj hbytes').symm

theorem same_source (p : Plan s o t) (hwrote : Wrote t (p.texts p.kinds) u) (hp : p.Repeatable u) (q : Plan s o u) :
    q.source = p.source := by
  obtain ⟨bytes, hread, hbytes⟩ := sourceIn_eq_ok.mp p.loaded
  obtain ⟨bytes', hread', hbytes'⟩ := sourceIn_eq_ok.mp q.loaded
  rw [hbytes', hbytes, hwrote.readUnder_eq hp.sourceFile (List.forall_mem_map.mpr hp.source) hread hread']

/-- So it has the same texts to write, each under the same path. -/
theorem same_texts (p : Plan s o t) (hwrote : Wrote t (p.texts p.kinds) u) (hp : p.Repeatable u) (q : Plan s o u) :
    q.kinds = p.kinds ∧ q.texts = p.texts := by
  refine ⟨Except.ok.inj (q.selected.symm.trans p.selected), funext fun kinds => List.map_congr_left fun kind _ => ?_⟩
  rw [path, path, target, target, document, document, p.same_settings hwrote hp q, p.same_source hwrote hp q]

/-- Running again on what a complete run left changes no file. If the second run does not come to its end, this takes that no
    two documents have the same file, or it may leave an earlier one there. -/
theorem run_again (p : Plan s o t) (hp : p.Repeatable u) (hwrote : Wrote t (p.texts p.kinds) u)
    (hend : (run (accessUnder s) o u).1.fault = none ∨ p.Apart u) (l : Location) :
    (run (accessUnder s) o u).2.fileAt? l = u.fileAt? l := by
  rcases stopsEarly_or_plan s o u with hstop | ⟨⟨q⟩⟩
  · rw [run_of_stopsEarly hstop]
  · obtain ⟨hkinds, htexts⟩ := p.same_texts hwrote hp q
    obtain ⟨done, rest, hsplit, hagain, hfault⟩ := q.wrote
    rw [htexts] at hagain
    rw [hkinds] at hsplit
    have hfirst := hwrote
    rw [hsplit, texts, List.map_append] at hfirst
    refine hfirst.again hagain (fun w hw w' hw' hsame => ?_) l
    obtain ⟨k, hk, rfl⟩ := List.mem_map.mp hw
    obtain ⟨k', hk', rfl⟩ := List.mem_map.mp hw'
    have hapart : p.Apart u := hend.resolve_left fun hnone => by
      rcases hfault with ⟨rfl, -⟩ | ⟨kind, rest', fault, -, hsome, -⟩
      · cases hk'
      · rw [hnone] at hsome
        cases hsome
    have hnodup := p.nodup_kinds
    rw [Apart, hsplit] at hapart
    rw [hsplit] at hnodup
    have hkind := hapart k (List.mem_append_left _ hk) k' (List.mem_append_right _ hk') hsame
    exact (List.nodup_append.mp hnodup).2.2 k hk k' hk' hkind

end Plan

/-- What a run writes, whatever the system refuses. It stops early and leaves the tree as it is, or it comes to its documents,
    which are those that are named, or all, in their order. Then it changes no file but those that their paths lead to. If it
    ends well, each document is in its file, and running again changes nothing, provided the run is repeatable. If it fails,
    the documents in front of the one that could not be written are in their files, and nothing else has changed. Without links
    each document has a file of its own. -/
theorem run_writes (s : System) (o : Options) (t : FileTree) :
    let outcome := (run (accessUnder s) o t).1
    let u := (run (accessUnder s) o t).2
    (StopsEarly s o t ∨ Nonempty (Plan s o t)) ∧ (StopsEarly s o t → u = t) ∧
    ∀ p : Plan s o t,
      (p.kinds.Sublist DocumentKind.all ∧
        ∀ kind, kind ∈ p.kinds ↔ o.only = [] ∨ ∃ name ∈ o.only, Options.documentNamed name = .ok kind) ∧
      (∀ l, (∀ kind ∈ p.kinds, ¬u.Leads (p.path kind) l) → u.fileAt? l = t.fileAt? l) ∧
      (t.Unlinked → p.Apart u) ∧
      (outcome.fault = none → p.Filed p.kinds u ∧
        (p.Repeatable u → ((run (accessUnder s) o u).1.fault = none ∨ p.Apart u) →
          ∀ l, (run (accessUnder s) o u).2.fileAt? l = u.fileAt? l)) ∧
      (∀ fault, outcome.fault = some fault → ∃ done kind rest, p.kinds = done ++ kind :: rest ∧
        (fault = .outputDir p.target ∨ fault = .output (p.path kind)) ∧ p.Filed done u ∧
        ∀ l, (∀ k ∈ done, ¬u.Leads (p.path k) l) → u.fileAt? l = t.fileAt? l) := by
  intro outcome u
  refine ⟨stopsEarly_or_plan s o t, run_of_stopsEarly, fun p => ?_⟩
  obtain ⟨done, rest, hsplit, hwrote, hend⟩ := p.wrote
  have hkept : ∀ l, (∀ k ∈ done, ¬u.Leads (p.path k) l) → u.fileAt? l = t.fileAt? l := p.kept_of_wrote hwrote
  refine ⟨documents_spec p.selected, fun l hl => hkept l fun kind hkind => hl kind ?_, p.apart_of_unlinked hwrote.grows,
    fun hnone => ?_, fun fault hfault => ?_⟩
  · rw [hsplit]
    exact List.mem_append_left _ hkind
  · rcases hend with ⟨rfl, -⟩ | ⟨-, -, fault, -, hsome, -⟩
    · rw [List.append_nil] at hsplit
      rw [← hsplit] at hwrote
      exact ⟨p.filed_of_wrote hwrote, fun hp hend l => p.run_again hp hwrote hend l⟩
    · rw [show (run (accessUnder s) o t).1.fault = none from hnone] at hsome
      cases hsome
  · rcases hend with ⟨-, hnone⟩ | ⟨kind, rest', fault', rfl, hsome, hpath⟩
    · rw [show (run (accessUnder s) o t).1.fault = some fault from hfault] at hnone
      cases hnone
    · rw [show (run (accessUnder s) o t).1.fault = some fault from hfault] at hsome
      cases hsome
      exact ⟨done, kind, rest', hsplit, hpath, p.filed_of_wrote hwrote, hkept⟩

/-- A run that writes through a link to a directory. -/
theorem run_writes_animated :
    let text := "int _trans_asprite(int sprite) \x7b switch (sprite) \x7b case 1: cr = 3; break; \x7d \x7d"
    let t : FileTree := ⟨[(["x.c"], .file 0), (["res"], .link "./store"), (["store"], .directory true)], [(0, text.toUTF8)], []⟩
    let o : Options := { input := "x.c", only := [" animated"] }
    let u := (run FileTree.access o t).2
    ∃ p : Plan {} o t, p.Repeatable u ∧ (run FileTree.access o t).1.fault = none ∧
      u.fileAt? ["store", "config", "animated_variants.json"] = some (p.document .animated).render.toUTF8 ∧
      ∀ l, (run FileTree.access o u).2.fileAt? l = u.fileAt? l := by
  rw [← FileTree.accessUnder_none]
  intro text t o u
  have hmissing : t.find? (configPath o) = none := by decide +kernel
  have hread : t.readUnder {} o.input = some text.toUTF8 := by decide +kernel
  let p : Plan {} o t := ⟨{}, [.animated], _, settingsIn_eq_ok.mpr (Or.inl ⟨hmissing, rfl⟩), rfl, rfl,
    sourceIn_eq_ok.mpr ⟨_, hread, rfl⟩, rfl⟩
  have hpath : p.path .animated = outputPath defaultOutputDir .animated := rfl
  obtain ⟨hsource, hconfig, habsent, hdevice, hplace, hfault, hagain⟩ : ¬u.SameFile o.input (outputPath defaultOutputDir .animated) ∧
      ¬u.SameFile (configPath o) (outputPath defaultOutputDir .animated) ∧ u.find? (configPath o) = none ∧
      u.find? (outputPath defaultOutputDir .animated) ≠ some .device ∧
      u.read? (outputPath defaultOutputDir .animated) = u.fileAt? ["store", "config", "animated_variants.json"] ∧
      (run (accessUnder {}) o t).1.fault = none ∧ (run (accessUnder {}) o u).1.fault = none := by decide +kernel
  have hp : p.Repeatable u :=
    { sourceFile := by decide +kernel
      source := fun kind hkind => by rwa [List.mem_singleton.mp hkind, hpath]
      configFile := by decide +kernel
      config := fun kind hkind => by rwa [List.mem_singleton.mp hkind, hpath]
      absent := fun _ e he => by
        rw [habsent] at he
        cases he }
  obtain ⟨-, -, hplan⟩ := run_writes {} o t
  obtain ⟨-, -, -, hend, -⟩ := hplan p
  obtain ⟨hfiled, hrepeat⟩ := hend hfault
  have hfile := (hfiled [] .animated [] rfl).resolve_left (hpath ▸ hdevice) nofun
  rw [hpath] at hfile
  exact ⟨p, hp, hfault, hplace ▸ hfile, hrepeat hp (Or.inl hagain)⟩

/-- Where a document is not in its file, or a second run changes one, although no written path leads to the source or to the
    configuration. -/
theorem run_again_changes :
    -- The path of the configuration goes through a directory that only the first run makes.
    (let o : Options := { input := "x.c", config := some "res/../c.yml", only := ["metadata"] }
      let t : FileTree := ⟨[(["x.c"], .file 0), (["c.yml"], .file 1)], [(1, "output_dir: b\n".toUTF8)], []⟩
      let u := (run FileTree.access o t).2
      let v := (run FileTree.access o u).2
      (run FileTree.access o t).1.fault = none ∧ (run FileTree.access o u).1.fault = none ∧
        (∀ dir ∈ ["res/config", "b"], ∀ path ∈ [o.input, configPath o], ¬v.SameFile path (outputPath dir .metadata)) ∧
        v.read? (outputPath "b" .metadata) ≠ u.read? (outputPath "b" .metadata)) ∧
    -- A link leads two documents to the same file, where the second run may leave the earlier one.
    (let o : Options := { input := "x.c", outputDir := some "." }
      let t : FileTree := ⟨[(["x.c"], .file 0), (["character_variants.json"], .link "sprite_metadata.json")], [], []⟩
      let refuses : FileTree → String → Bool := fun t p =>
        p = outputPath "." .character && (t.find? (outputPath "." .animated)).isSome
      let s : System := { refusesWriting := refuses }
      let u := (run (accessUnder s) o t).2
      let v := (run (accessUnder s) o u).2
      (run (accessUnder s) o t).1.fault = none ∧
        u.read? (outputPath "." .metadata) ≠ some (Document.extract (.ofBytes "x.c" .empty) {} .metadata).render.toUTF8 ∧
        v.read? (outputPath "." .metadata) ≠ u.read? (outputPath "." .metadata)) ∧
    -- A device keeps no document.
    (let o : Options := { input := "x.c", outputDir := some ".", only := ["metadata"] }
      let t : FileTree := ⟨[(["x.c"], .file 0), (["sprite_metadata.json"], .device)], [], []⟩
      let u := (run FileTree.access o t).2
      (run FileTree.access o t).1.fault = none ∧ u.read? (outputPath "." .metadata) = none) ∧
    -- A device gives another source the second time.
    (let given : FileTree → String → Option ByteArray := fun t _ =>
        if (t.find? "res").isNone then some .empty
        else some "int _is_door_sprite(int sprite) \x7b switch (sprite) \x7b case 1: return 1; \x7d \x7d".toUTF8
      let s : System := { device? := given }
      let o : Options := { input := "x.c", only := ["metadata"] }
      let t : FileTree := ⟨[(["x.c"], .device)], [], []⟩
      let u := (run (accessUnder s) o t).2
      let v := (run (accessUnder s) o u).2
      (run (accessUnder s) o t).1.fault = none ∧
        v.read? (outputPath defaultOutputDir .metadata) ≠ u.read? (outputPath defaultOutputDir .metadata)) ∧
    -- A device gives another configuration the second time.
    (let given : FileTree → String → Option ByteArray := fun t _ =>
        if (t.find? "res").isNone then some .empty else some "output_dir: b\n".toUTF8
      let s : System := { device? := given }
      let o : Options := { input := "x.c", only := ["metadata"] }
      let t : FileTree := ⟨[(["x.c"], .file 0), (["spritemeta.yml"], .device)], [], []⟩
      let u := (run (accessUnder s) o t).2
      let v := (run (accessUnder s) o u).2
      (run (accessUnder s) o t).1.fault = none ∧
        v.read? (outputPath "b" .metadata) ≠ u.read? (outputPath "b" .metadata)) := by
  refine ⟨?_, ?_, ?_, ?_, ?_⟩ <;> decide +kernel

end Run
end SpriteFacts
