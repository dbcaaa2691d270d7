import VirtualFs.Proofs.Tree.Directories
import VirtualFs.Proofs.Tree.Handles
import VirtualFs.Proofs.Tree.Lookups

namespace VirtualFs.Tree

namespace Store

variable {store middle grown : Store} {clock : Clock} {dir parent inode : Nat}
variable {name path : String} {front names : List String} {mode : FileMode}

/-- At a tidy path the parents are made along their own names. -/
theorem createAt_of_tidy (htidy : Path.Tidy path) (hmode : mode.isDir = false)
    (hmade : store.createAt clock dir path mode = (.ok inode, grown)) :
    ∃ front name parent middle, Path.segments path = front ++ [name] ∧
      store.mkdirAlong clock dir mode (moving front) = (.ok parent, middle) ∧
      middle.findOrCreate clock parent name mode = (.ok inode, grown) := by
  obtain ⟨name, parent, middle, hlast, hparents, hfile⟩ := createAt_eq_ok hmode hmade
  rw [htidy.segments_cleaned] at hlast
  rw [parents, htidy.segments_cleaned] at hparents
  refine ⟨_, name, parent, middle, (List.dropLast_append_getLast? name hlast).symm, ?_, hfile⟩
  rcases hparents with ⟨hnil, rfl, rfl⟩ | hparents
  · rw [hnil]
    rfl
  · have htidyNames : ∀ s ∈ (Path.segments path).dropLast, Path.IsTidyName s := fun s hs =>
      htidy.isTidyName ((List.dropLast_sublist _).subset hs)
    rw [mkdirAlong_moving, ← Path.segments_joinAll fun s hs => (htidyNames s hs).1,
      ← Path.cleaned_joinAll htidyNames]
    exact mkdirAlong_of_mkdirAll hparents

theorem way_of_tidy (htidy : Path.Tidy path) : way path = moving (Path.segments path) := by
  rw [way, htidy.segments_cleaned]

theorem moving_concat_of_ne (hdot : name ≠ ".") :
    moving (front ++ [name]) = moving front ++ [name] := by
  simp [moving, hdot]

/-- A directory finds itself under the name `"."`. -/
theorem findOrCreate_dot (hshape : store.Shape) (hparent : (store.dir? parent).isSome)
    (clock : Clock) (mode : FileMode) :
    store.findOrCreate clock parent "." mode = (.ok parent, store) := by
  unfold findOrCreate
  rw [hshape.self parent hparent]
  rfl

/-- A missing name becomes an empty file. -/
theorem findOrCreate_eq_ok (hfree : store.child? parent name = none)
    (hmade : store.findOrCreate clock parent name mode = (.ok inode, grown)) :
    inode = store.nextInode ∧ ∃ entry, entry.attrs.mode = mode.asFile ∧ entry.attrs.size = 0 ∧
      grown = store.addNode parent name (.file (.empty entry store.config.initialCapacity)) := by
  unfold findOrCreate at hmade
  rw [hfree] at hmade
  dsimp only at hmade
  split at hmade
  · cases hmade
  next entry hentry =>
  obtain ⟨hinode, rfl⟩ := Prod.mk.inj hmade
  have hattrs := Entry.attrs_of_create hentry
  exact ⟨(Except.ok.inj hinode).symm, entry, by rw [hattrs]; rfl, by rw [hattrs]; rfl, rfl⟩

/-- An empty file at the end of the names, and a directory with the mode that was asked for at
every proper prefix of them that was missing. Nothing else is new. -/
structure FileMade (store grown : Store) (dir : Nat) (names : List String) (mode : FileMode)
    (inode : Nat) : Prop where
  leads : grown.leads dir names = some inode
  file : ∃ c, grown.cell? inode = some c ∧ c.size = 0 ∧ c.entry.size = 0 ∧
    c.entry.mode = mode.asFile
  ancestors : ∀ front, front <+: names → front ≠ names → store.leads dir front = none → ∃ i d,
    grown.leads dir front = some i ∧ grown.dir? i = some d ∧ d.entry.mode = mode.asDir
  fresh : ∀ i, store.node? i = none → (grown.node? i).isSome → ∃ front,
    front <+: names ∧ store.leads dir front = none ∧ grown.leads dir front = some i

/-- A name that was missing before its parents were made is missing in the last of them. -/
theorem child?_eq_none_of_grownAlong (hshape : store.Shape) (hdir : (store.dir? dir).isSome)
    (hnames : ∀ s ∈ names, s ≠ ".") (hdot : name ≠ ".")
    (hnone : store.leads dir (names ++ [name]) = none)
    (hgrown : GrownAlong store middle dir names) (hleads : middle.leads dir names = some parent) :
    middle.child? parent name = none := by
  by_contra hchild
  obtain ⟨child, hchild⟩ := Option.ne_none_iff_exists'.mp hchild
  have hlonger : middle.leads dir (names ++ [name]) = some child.inode := by
    rw [leads_concat_of_leads hleads, hchild, Option.map_some]
  rcases hgrown.leads_old_or_prefix hshape (store.isSome_node?_of_dir? hdir) hnames
    (Path.forall_mem_concat hnames hdot) hlonger with hold | hprefix
  · rw [hnone] at hold
    cases hold
  · have hle := hprefix.length_le
    rw [List.length_append, List.length_singleton] at hle
    omega

/-- A file that is added behind directories that were made makes a file with its parents. -/
theorem MissingMade.addFile {entry : Entry} (capacity : Nat)
    (hmissing : MissingMade store middle clock dir names mode)
    (hleads : middle.leads dir names = some parent) (hparent : (middle.dir? parent).isSome)
    (hfree : middle.child? parent name = none)
    (hnone : store.leads dir (names ++ [name]) = none) (hmode : entry.attrs.mode = mode.asFile)
    (hsize : entry.attrs.size = 0) :
    FileMade store (middle.addNode parent name (.file (.empty entry capacity))) dir
      (names ++ [name]) mode middle.nextInode := by
  have hkept : ∀ {key i}, middle.leads dir key = some i →
      (middle.addNode parent name (.file (.empty entry capacity))).leads dir key = some i :=
    leads_mono fun _ _ _ hchild => child?_addNode_of_eq_some hparent hfree hchild
  have hwhole : (middle.addNode parent name (.file (.empty entry capacity))).leads dir
      (names ++ [name]) = some middle.nextInode := by
    rw [leads_concat_of_leads (hkept hleads), child?_addNode_self hparent hfree]
    rfl
  refine ⟨hwhole, ?_, ?_, ?_⟩
  · refine ⟨.empty entry capacity, ?_, rfl, hsize, hmode⟩
    rw [middle.cell?_addNode hparent, if_pos rfl]
  · intro front hfront hne hmiss
    have hshort := (List.prefix_concat_iff.mp hfront).resolve_left hne
    obtain ⟨i, d, hi, -, hd, hdmode, -⟩ := hmissing.made front hshort hmiss
    have hold : i ≠ middle.nextInode := middle.ne_nextInode_of_dir? (by rw [hd]; rfl)
    refine ⟨i, _, hkept hi, by
      rw [middle.dir?_addNode hparent, if_neg hold, hd, Option.map_some, ← apply_ite some], ?_⟩
    split <;> exact hdmode
  · intro i hnew hsome
    rcases (isSome_node?_addNode hparent i).mp hsome with rfl | hmiddle
    · exact ⟨_, List.prefix_refl _, hnone, hwhole⟩
    · obtain ⟨front, hfront, hmiss, hi⟩ := hmissing.fresh i hnew hmiddle
      exact ⟨front, hfront.trans (List.prefix_append _ _), hmiss, hkept hi⟩

/-- Emptying the new file once more changes nothing of this. -/
theorem FileMade.truncate (h : FileMade store grown dir names mode inode) :
    FileMade store (grown.modifyCell inode Cell.truncate) dir names mode inode := by
  have hforms : SameForms grown (grown.modifyCell inode Cell.truncate) :=
    sameForms_modifyCell fun c _ => by simp [Node.form, Cell.truncate]
  refine ⟨(hforms.leads_eq _).trans h.leads, ?_, ?_, ?_⟩
  · obtain ⟨c, hcell, -, hsize, hmode⟩ := h.file
    refine ⟨c.truncate, by rw [cell?_modifyCell, if_pos rfl, hcell, Option.map_some], rfl, ?_, ?_⟩
    · simp only [Cell.truncate, Entry.setSize]
      split
      · exact hsize
      · rfl
    · simp only [Cell.truncate, Entry.setSize]
      split <;> exact hmode
  · intro front hfront hne hmiss
    obtain ⟨i, d, hi, hd, hdmode⟩ := h.ancestors front hfront hne hmiss
    exact ⟨i, d, (hforms.leads_eq _).trans hi, by rwa [dir?_modifyCell], hdmode⟩
  · intro i hnew hsome
    rw [hforms.isSome_node?] at hsome
    obtain ⟨front, hfront, hmiss, hi⟩ := h.fresh i hnew hsome
    exact ⟨front, hfront, hmiss, (hforms.leads_eq _).trans hi⟩

end Store

namespace Handle

variable {store later : Store} {inode : Nat} {c : Cell} {flags : OpenFlags} {path base : String}
  {handle : Handle}

/-- What opening a file comes to. -/
theorem onNode_of_cell (hcell : store.cell? inode = some c)
    (hopen : onNode store inode flags path base = (handle, later)) :
    handle.target = .file inode ∧ handle.flags = flags ∧
      (later = store ∨ later = store.modifyCell inode Cell.truncate) := by
  unfold onNode at hopen
  rw [store.dir?_eq_none_of_cell? hcell] at hopen
  obtain ⟨rfl, rfl⟩ := Prod.mk.inj hopen
  refine ⟨rfl, rfl, ?_⟩
  split
  · exact .inr rfl
  · exact .inl rfl

end Handle

namespace View

variable {view : View} {store later : Store} {clock : Clock} {path : String} {flags : OpenFlags}
  {mode : FileMode} {handle : Handle}

/-- The path leads to a new empty file, made with its missing parents, and the handle is on it with
the flags that were asked for. -/
structure NewFile (view : View) (store later : Store) (path : String) (flags : OpenFlags)
    (mode : FileMode) (handle : Handle) : Prop where
  made : ∃ inode, later.resolve view.root path = .ok inode ∧ handle.target = .file inode ∧
    store.FileMade later view.root (Store.way path) mode inode
  flags : handle.flags = flags

/-- A path at which there is no entry leads nowhere. -/
theorem leads_eq_none_of_stat {e : FsError} (hshape : store.Shape)
    (hroot : (store.dir? view.root).isSome)
    (haccepts : store.rules.accepts (Text.trim path) = true)
    (hmissing : view.stat store path = .error e) :
    store.leads view.root (Store.way path) = none := by
  by_contra hleads
  obtain ⟨inode, hleads⟩ := Option.ne_none_iff_exists'.mp hleads
  obtain ⟨node, hnode⟩ := Option.isSome_iff_exists.mp
    (hshape.node?_isSome_of_leads (store.isSome_node?_of_dir? hroot) hleads)
  rw [stat_eq_ok_iff.mpr ⟨inode, node, Store.resolve_eq_ok_iff_leads.mpr ⟨haccepts, hleads⟩,
    hnode, rfl⟩] at hmissing
  cases hmissing

/-- An open at a missing path that succeeds makes what is missing and opens it. -/
theorem createAt_of_openFile (hroot : (store.dir? view.root).isSome) (htidy : Path.Tidy path)
    (hnone : store.leads view.root (Store.way path) = none)
    (hopen : view.openFile store clock path flags mode = (.ok handle, later)) :
    ∃ inode grown, store.createAt clock view.root (Path.cleaned path) mode = (.ok inode, grown) ∧
      Handle.onNode grown inode flags (Path.cleaned path) (view.base grown) = (handle, later) ∧
      later.rules = store.rules := by
  have hnode : view.openNode store clock path flags mode = (.ok handle, later) := by
    unfold openFile at hopen
    rcases hresult : view.openNode store clock path flags mode with ⟨e | opened, grown⟩
    · rw [hresult] at hopen
      cases hopen
    · rw [hresult] at hopen
      exact hopen
  obtain ⟨cleaned, grown, inode, hclean, hopens, honNode⟩ := openNode_eq_ok hnode
  obtain rfl := PathRules.cleaned_of_clean _ hclean
  have hrules : later.rules = store.rules := by
    have hchanges : Store.Changes (fun _ => True) grown _ :=
      Handle.onNode_changes grown inode flags (Path.cleaned path) (view.base grown)
    rw [honNode] at hchanges
    exact hchanges.rules_eq.trans (hopens.changes hroot).rules_eq
  cases hopens with
  | found hfound =>
    have hleads := (Store.resolve_eq_ok_iff_leads.mp hfound).2
    rw [Store.way_of_tidy htidy.cleaned, htidy.segments_cleaned, ← Store.way_of_tidy htidy,
      hnone] at hleads
    cases hleads
  | made _ _ _ hmade => exact ⟨inode, grown, hmade, honNode, hrules⟩

/-- With a last segment that moves, what was made is a file. -/
theorem newFile_of_createAt {inode : Nat} {grown : Store} (hrules : later.rules = .permissive)
    (hshape : store.Shape) (hroot : (store.dir? view.root).isSome) (htidy : Path.Tidy path)
    (hnone : store.leads view.root (Store.way path) = none) (hmode : mode.isDir = false)
    (hlast : (Path.segments path).getLast? ≠ some ".")
    (hmade : store.createAt clock view.root (Path.cleaned path) mode = (.ok inode, grown))
    (honNode : Handle.onNode grown inode flags (Path.cleaned path) (view.base grown) =
      (handle, later)) : view.NewFile store later path flags mode handle := by
  obtain ⟨front, name, parent, middle, hsegments, hparents, hfile⟩ :=
    Store.createAt_of_tidy htidy.cleaned hmode hmade
  rw [htidy.segments_cleaned] at hsegments
  have hdot : name ≠ "." := by simpa [hsegments] using hlast
  have hway : Store.way path = Store.moving front ++ [name] := by
    rw [Store.way_of_tidy htidy, hsegments, Store.moving_concat_of_ne hdot]
  have hdots : ∀ s ∈ Store.moving front, s ≠ "." := fun s hs => by
    simpa using (List.mem_filter.mp hs).2
  have hmoving : Store.moving (Store.moving front) = Store.moving front := by
    simp [Store.moving]
  obtain ⟨hgrown, hleads⟩ := Store.mkdirAlong_grownAlong hroot hparents
  rw [hmoving] at hgrown hleads
  have hparent := Store.dir?_of_mkdirAlong hroot hparents
  rw [hway] at hnone
  have hfree := Store.child?_eq_none_of_grownAlong hshape hroot hdots hdot hnone hgrown hleads
  obtain ⟨rfl, entry, hentryMode, hsize, rfl⟩ := Store.findOrCreate_eq_ok hfree hfile
  have hnew := (Store.missingMade_of_mkdirAlong hshape hroot hdots hparents).addFile
    middle.config.initialCapacity hleads hparent hfree hnone hentryMode hsize
  obtain ⟨c, hcell, -⟩ := hnew.file
  obtain ⟨htarget, hflags, hlater⟩ := Handle.onNode_of_cell hcell honNode
  have hfinal : store.FileMade later view.root (Store.way path) mode middle.nextInode := by
    rw [hway]
    rcases hlater with rfl | rfl
    · exact hnew
    · exact hnew.truncate
  have hfound : later.resolve view.root path = .ok middle.nextInode :=
    Store.resolve_eq_ok_iff_leads.mpr ⟨by rw [hrules]; rfl, hfinal.leads⟩
  exact ⟨⟨_, hfound, htarget, hfinal⟩, hflags⟩

/-- With a last segment `"."` the last of the directories that were made finds itself, and the open
gives a handle on it, which is for reading. -/
theorem onDir_of_dot {inode : Nat} {grown : Store} (hshape : store.Shape)
    (hroot : (store.dir? view.root).isSome) (htidy : Path.Tidy path) (hmode : mode.isDir = false)
    (hlast : (Path.segments path).getLast? = some ".")
    (hmade : store.createAt clock view.root (Path.cleaned path) mode = (.ok inode, grown))
    (honNode : Handle.onNode grown inode flags (Path.cleaned path) (view.base grown) =
      (handle, later)) :
    ∃ dir, later.leads view.root (Store.way path) = some dir ∧ (later.dir? dir).isSome ∧
      handle = .onDir dir (Path.cleaned path) (view.base later) := by
  obtain ⟨front, name, parent, middle, hsegments, hparents, hfile⟩ :=
    Store.createAt_of_tidy htidy.cleaned hmode hmade
  rw [htidy.segments_cleaned] at hsegments
  obtain rfl : name = "." := by simpa [hsegments] using hlast
  have hway : Store.way path = Store.moving (Store.moving front) := by
    rw [Store.way_of_tidy htidy, hsegments]
    simp [Store.moving]
  obtain ⟨hgrown, hleads⟩ := Store.mkdirAlong_grownAlong hroot hparents
  have hparent := Store.dir?_of_mkdirAlong hroot hparents
  rw [Store.findOrCreate_dot (hgrown.changes.shape hshape) hparent] at hfile
  obtain ⟨hinode, rfl⟩ := Prod.mk.inj hfile
  obtain rfl := Except.ok.inj hinode
  obtain ⟨d, hd⟩ := Option.isSome_iff_exists.mp hparent
  rw [Handle.onNode_of_dir hd] at honNode
  obtain ⟨rfl, rfl⟩ := Prod.mk.inj honNode
  exact ⟨parent, by rw [hway, hleads], hparent, rfl⟩

/-- What is a directory is no new file. -/
theorem not_newFile_of_dir {dir : Nat}
    (hleads : later.leads view.root (Store.way path) = some dir)
    (hdir : (later.dir? dir).isSome) : ¬ view.NewFile store later path flags mode handle := by
  rintro ⟨⟨inode, -, -, hnew⟩, -⟩
  obtain ⟨c, hcell, -⟩ := hnew.file
  obtain rfl := Option.some.inj (hleads.symm.trans hnew.leads)
  rw [later.dir?_eq_none_of_cell? hcell] at hdir
  cases hdir

end View

namespace Session

variable {session : Session} {view : View} {clock : Clock} {path : String} {flags : OpenFlags}
  {mode : FileMode} {handle : Handle} {later : Store} {e : FsError}

/-- An open that succeeds at a tidy path without an entry makes a new file there exactly if the
last segment of the path is not `"."`. -/
theorem newFile_iff (hreach : session.Reachable) (hrules : session.store.rules = .permissive)
    (hview : view ∈ session.views) (htidy : Path.Tidy path)
    (hmissing : view.stat session.store path = .error e) (hmode : mode.isDir = false)
    (hopen : view.openFile session.store clock path flags mode = (.ok handle, later)) :
    view.NewFile session.store later path flags mode handle ↔
      (Path.segments path).getLast? ≠ some "." := by
  have hroot := hreach.rooted view hview
  have hnone := View.leads_eq_none_of_stat hreach.shape hroot (by rw [hrules]; rfl) hmissing
  obtain ⟨inode, grown, hmade, honNode, hkept⟩ := View.createAt_of_openFile hroot htidy hnone hopen
  constructor
  · intro hnew hlast
    obtain ⟨dir, hleads, hdir, -⟩ :=
      View.onDir_of_dot hreach.shape hroot htidy hmode hlast hmade honNode
    exact View.not_newFile_of_dir hleads hdir hnew
  · intro hlast
    exact View.newFile_of_createAt (hkept.trans hrules) hreach.shape hroot htidy hnone hmode hlast
      hmade honNode

/-- The flags of an open for reading and writing that makes what is missing. -/
def orNew : OpenFlags :=
  .union .rdwr .create

theorem newFile_iff_dots :
    emptyTree.Reachable ∧ emptyTree.store.rules = .permissive ∧ View.whole ∈ emptyTree.views ∧
      Path.Tidy "./x//./y" ∧
      View.whole.stat emptyTree.store "./x//./y" =
        .error (.tagged .stat "./x//./y" (.notFound "x")) ∧
      ∃ handle later,
        View.whole.openFile emptyTree.store (fun k => k) "./x//./y" orNew ⟨0o640⟩ =
            (.ok handle, later) ∧
          View.whole.NewFile emptyTree.store later "./x//./y" orNew ⟨0o640⟩ handle := by
  have hview : View.whole ∈ emptyTree.views := List.mem_singleton_self View.whole
  have htidy : Path.Tidy "./x//./y" := by decide +kernel
  have hmissing : View.whole.stat emptyTree.store "./x//./y" =
      .error (.tagged .stat "./x//./y" (.notFound "x")) := by decide +kernel
  have hopens :
      (View.whole.openFile emptyTree.store (fun k => k) "./x//./y" orNew ⟨0o640⟩).1.isOk := by
    decide +kernel
  rcases hopen : View.whole.openFile emptyTree.store (fun k => k) "./x//./y" orNew ⟨0o640⟩ with
    ⟨e | handle, later⟩
  · rw [hopen] at hopens
    cases hopens
  · refine ⟨emptyTree_reachable, rfl, hview, htidy, hmissing, handle, later, rfl, ?_⟩
    exact (newFile_iff emptyTree_reachable rfl hview htidy hmissing (by decide) hopen).mpr
      (by decide +kernel)

/-- It does not always do so: opening `"x/."` makes a directory, and the handle on it is for
reading. -/
theorem not_forall_newFile :
    ¬ ∀ (session : Session) (view : View) (clock : Clock) (path : String) (flags : OpenFlags)
      (mode : FileMode) (handle : Handle) (later : Store), session.Reachable →
      session.store.rules = .permissive → view ∈ session.views → Path.Tidy path →
      (∃ e, view.stat session.store path = .error e ∧ e.kind = .notFound) →
      flags.has .create = true → mode.isDir = false →
      view.openFile session.store clock path flags mode = (.ok handle, later) →
      view.NewFile session.store later path flags mode handle := by
  intro h
  have hopens : (View.whole.openFile emptyTree.store (fun k => k) "x/." orNew ⟨0o644⟩).1.map
      Handle.target = .ok (.dir 2) := by decide +kernel
  rcases hopen : View.whole.openFile emptyTree.store (fun k => k) "x/." orNew ⟨0o644⟩ with
    ⟨e | handle, later⟩
  · rw [hopen] at hopens
    cases hopens
  · rw [hopen] at hopens
    have hnew := h emptyTree .whole (fun k => k) "x/." orNew ⟨0o644⟩ handle later
      emptyTree_reachable rfl (List.mem_singleton_self View.whole) (by decide +kernel)
      ⟨.tagged .stat "x/." (.notFound "x"), by decide +kernel, rfl⟩ (by decide) (by decide) hopen
    obtain ⟨inode, -, htarget, -⟩ := hnew.made
    rw [Except.map, htarget] at hopens
    cases hopens

end Session

end VirtualFs.Tree
