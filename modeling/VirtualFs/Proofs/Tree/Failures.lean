import VirtualFs.Proofs.Tree.Making

namespace VirtualFs.Tree

namespace Store

variable {named : String → Prop} {store middle later : Store} {dir parent inode : Nat}
  {names : List String} {path : String} {mode : FileMode} {clock : Clock} {e : FsError}

/-- A name that is new leads to a node that is new. -/
theorem Changes.child?_cases (hchanges : Changes named store later) {i : Nat} {name : String}
    {child : Child} (hchild : later.child? i name = some child) :
    store.child? i name = some child ∨ store.node? child.inode = none := by
  induction hchanges with
  | refl => exact .inl hchild
  | @tail middle last hfront hlast ih =>
    rcases hlast.sameForms_or_addNode with
      hforms | ⟨parent, query, node, _, rfl, hparent, -, hfree, -, -, hfresh⟩
    · rw [hforms.child?_eq] at hchild
      exact ih hchild
    have hnew : store.node? middle.nextInode = none := by
      rw [← Option.not_isSome_iff_eq_none]
      intro hold
      have hkept := Changes.preserves (P := fun s => (s.node? middle.nextInode).isSome) hfront
        (fun hstep => hstep.node?_isSome) hold
      rw [middle.node?_nextInode] at hkept
      cases hkept
    rcases child?_addNode_cases hparent hfree (fun d hd => (hfresh d hd).1) hchild with
      ⟨-, -, rfl⟩ | ⟨-, rfl⟩ | hold
    · exact .inr hnew
    · exact .inr hnew
    · exact ih hold

/-- What a failed call may leave behind: directories along the names from `dir`. -/
structure LeftBehind (store later : Store) (dir : Nat) (names : List String) : Prop where
  /-- There are the same files with the same bytes, buffers and entries. -/
  cells : ∀ i, later.cell? i = store.cell? i
  /-- No node is gone or has become another. -/
  lasts : store.Lasts later
  /-- Every name leads where it led. -/
  children : ∀ i name child, store.child? i name = some child → later.child? i name = some child
  /-- What a name leads to now, and did not before, is new. -/
  added : ∀ i name child, later.child? i name = some child →
    store.child? i name = some child ∨ store.node? child.inode = none
  /-- What is new stands along the names. -/
  fresh : ∀ i, (later.node? i).isSome → (store.node? i).isSome ∨
    ∃ front, front <+: names ∧ later.leads dir front = some i

theorem GrownAlong.leftBehind (hgrown : GrownAlong store later dir names)
    (hcells : ∀ i, later.cell? i = store.cell? i) : store.LeftBehind later dir names where
  cells := hcells
  lasts := hgrown.changes.lasts
  children := fun i name child hchild => hgrown.changes.preserves
    (P := fun s => s.child? i name = some child) (fun hstep => hstep.child?_eq_some) hchild
  added := fun _ _ _ hchild => hgrown.changes.child?_cases hchild
  fresh := hgrown.fresh

/-- Using a number up leaves nothing behind. -/
theorem GrownAlong.reserve (hgrown : GrownAlong store middle dir names) :
    GrownAlong store middle.reserve dir names where
  changes := hgrown.changes.trans (Change.reserve middle).changes
  cells := fun i c hcell => by rw [cell?_reserve, hgrown.cells i c hcell]
  fresh := by
    intro i hnode
    rw [node?_reserve] at hnode
    refine (hgrown.fresh i hnode).imp_right fun ⟨front, hfront, hleads⟩ => ⟨front, hfront, ?_⟩
    rwa [leads_congr fun j => dir?_reserve middle j]

theorem leftBehind_refl (store : Store) (dir : Nat) (names : List String) :
    store.LeftBehind store dir names :=
  (GrownAlong.refl store dir names).leftBehind fun _ => rfl

/-- The names along which `Store.mkdir` makes the directory at a path. -/
def mkdirWay (path : String) : List String :=
  way (Path.joinAll (parents path)) ++ (Path.segments (Path.cleaned path)).getLast?.toList

/-- A directory that could not be made leaves nothing behind unless the clock was in the way. -/
theorem mkdir_eq_error (hdir : (store.dir? dir).isSome)
    (hmade : store.mkdir clock dir path mode = (.error e, later)) :
    store.LeftBehind later dir (mkdirWay path) ∧
      (e.kind ≠ .timeOrdering → ∀ i, later.node? i = store.node? i) := by
  have hsame : later = store → store.LeftBehind later dir (mkdirWay path) ∧
      (e.kind ≠ .timeOrdering → ∀ i, later.node? i = store.node? i) := by
    rintro rfl
    exact ⟨leftBehind_refl _ _ _, fun _ _ => rfl⟩
  unfold mkdir at hmade
  split at hmade
  · exact hsame (Prod.mk.inj hmade).2.symm
  split at hmade
  · exact hsame (Prod.mk.inj hmade).2.symm
  next segments hsplit =>
  rw [PathRules.segments_of_split _ hsplit] at hmade
  split at hmade
  · exact hsame (Prod.mk.inj hmade).2.symm
  next name hlast =>
  dsimp only at hmade
  split at hmade
  · exact hsame (Prod.mk.inj hmade).2.symm
  next parent hparent =>
  have hway : mkdirWay path = way (Path.joinAll (parents path)) ++ [name] := by
    rw [mkdirWay, hlast]
    rfl
  have hleads : store.leads dir (way (Path.joinAll (parents path))) = some parent ∧
      (store.dir? parent).isSome := by
    split at hparent
    · next hnil =>
      obtain rfl := Except.ok.inj hparent
      rw [parents, hnil, way_joinAll (List.forall_mem_nil _)]
      exact ⟨rfl, hdir⟩
    · obtain ⟨hfound, hparentDir⟩ := resolveDir_eq_ok_iff.mp hparent
      exact ⟨(resolve_eq_ok_iff_leads.mp hfound).2, hparentDir⟩
  have hgrown := grownAlong_mkdirIn hleads.2 clock name mode
  have hcells := cell?_mkdirIn hleads.2 clock name mode
  rw [hmade] at hgrown hcells
  refine ⟨?_, fun hkind i => ?_⟩
  · rw [hway]
    exact (GrownAlong.trans (.refl store dir _) hleads.1 hgrown).leftBehind hcells
  · rcases mkdirIn_eq_error hmade with rfl | rfl | ⟨htime, -⟩
    · rfl
    · exact node?_reserve store i
    · exact absurd htime hkind

end Store

namespace View

variable {view : View} {store later : Store} {clock : Clock} {path : String} {flags : OpenFlags}
  {mode : FileMode} {e : FsError}

/-- An open comes to making a directory: what it looks for is missing and to be made, and the rules
accept the first directory that is missing on the way. -/
structure StartsMaking (view : View) (store : Store) (path : String) (flags : OpenFlags)
    (mode : FileMode) : Prop where
  creates : flags.has .create = true
  accepts : store.rules.accepts (Text.trim path) = true
  missing : ∃ e, store.resolve view.root (Path.cleaned path) = .error e ∧ e.kind = .notFound
  makes : ∃ first,
    store.resolve view.root (Store.dirsPath (Path.cleaned path) mode) = .error (.notFound first) ∧
      store.rules.accepts (Text.trim first) = true

/-- What a failed open leaves behind. -/
structure FailsToOpen (view : View) (store : Store) (path : String) (flags : OpenFlags)
    (mode : FileMode) (e : FsError) (later : Store) : Prop where
  left : store.LeftBehind later view.root (Store.way (Store.dirsPath (Path.cleaned path) mode))
  /-- Unless the clock was in the way, nothing is left behind by an open that does not come to making
  a directory, and by no other. -/
  unchanged : e.kind ≠ .timeOrdering →
    ((∀ i, later.node? i = store.node? i) ↔ ¬ view.StartsMaking store path flags mode)

theorem failsToOpen_of_not_startsMaking (hnot : ¬ view.StartsMaking store path flags mode) :
    view.FailsToOpen store path flags mode e store where
  left := Store.leftBehind_refl _ _ _
  unchanged := fun _ => iff_of_true (fun _ => rfl) hnot

theorem failsToOpen_of_openNode (hroot : (store.dir? view.root).isSome)
    (hopen : view.openNode store clock path flags mode = (.error e, later)) :
    view.FailsToOpen store path flags mode e later := by
  unfold openNode at hopen
  rw [PathRules.clean_eq] at hopen
  cases haccepts : store.rules.accepts (Text.trim path) with
  | false =>
    rw [haccepts] at hopen
    obtain rfl := (Prod.mk.inj hopen).2
    exact failsToOpen_of_not_startsMaking fun h =>
      absurd (haccepts.symm.trans h.accepts) Bool.false_ne_true
  | true =>
  rw [haccepts] at hopen
  simp only [if_true] at hopen
  split at hopen
  · cases hopen
  next e' hmissing =>
  split at hopen
  · next hcreates =>
    split at hopen
    · next hmade =>
      obtain ⟨-, rfl⟩ := Prod.mk.inj hopen
      obtain ⟨middle, hdirs, hlater⟩ :=
        Store.createAt_eq_error (Store.accepts_of_notFound hmissing hcreates.1) hmade
      have hgrown := hdirs.grownAlong hroot
      have hcells := hdirs.cell?_eq hroot
      have hsame : (∀ i, middle.node? i = store.node? i) ↔
          ¬ view.StartsMaking store path flags mode := by
        rw [hdirs.node?_eq_iff hroot]
        constructor
        · intro hrefused h
          obtain ⟨first, hfirst, htaken⟩ := h.makes
          exact absurd ((hrefused first hfirst).symm.trans htaken) Bool.false_ne_true
        · intro hnot first hfirst
          rw [← Bool.not_eq_true]
          exact fun htaken => hnot
            ⟨hcreates.2, haccepts, ⟨e', hmissing, hcreates.1⟩, first, hfirst, htaken⟩
      rcases hlater with rfl | rfl
      · exact ⟨hgrown.leftBehind hcells, fun _ => hsame⟩
      · refine ⟨hgrown.reserve.leftBehind fun i => ?_, fun _ => ?_⟩
        · rw [Store.cell?_reserve, hcells]
        · simp only [Store.node?_reserve]
          exact hsame
    · cases hopen
  · next hnot =>
    obtain rfl := (Prod.mk.inj hopen).2
    refine failsToOpen_of_not_startsMaking fun h => hnot ⟨?_, h.creates⟩
    obtain ⟨e'', hmissing', hkind⟩ := h.missing
    rw [hmissing] at hmissing'
    obtain rfl := Except.error.inj hmissing'
    exact hkind

/-- The operation that the error names does not matter. -/
theorem failsToOpen_of_tag {operation : Operation} (hroot : (store.dir? view.root).isSome)
    (htagged : (FsError.tag operation path (view.openNode store clock path flags mode).1,
      (view.openNode store clock path flags mode).2) = (.error e, later)) :
    view.FailsToOpen store path flags mode e later := by
  rcases hopen : view.openNode store clock path flags mode with ⟨cause | handle, opened⟩
  · rw [hopen] at htagged
    obtain ⟨he, rfl⟩ := Prod.mk.inj htagged
    obtain rfl := Except.error.inj he
    obtain ⟨hleft, hunchanged⟩ := failsToOpen_of_openNode hroot hopen
    exact ⟨hleft, hunchanged⟩
  · rw [hopen] at htagged
    cases htagged

theorem leftBehind_of_mkdir (hroot : (store.dir? view.root).isSome)
    (hmade : view.mkdir store clock path mode = (.error e, later)) :
    store.LeftBehind later view.root (Store.mkdirWay path) ∧
      (e.kind ≠ .timeOrdering → ∀ i, later.node? i = store.node? i) := by
  unfold mkdir at hmade
  rcases hdir : store.mkdir clock view.root path mode with ⟨cause | inode, made⟩
  · rw [hdir] at hmade
    obtain ⟨he, rfl⟩ := Prod.mk.inj hmade
    obtain rfl := Except.error.inj he
    obtain ⟨hleft, hunchanged⟩ := Store.mkdir_eq_error hroot hdir
    exact ⟨hleft, hunchanged⟩
  · rw [hdir] at hmade
    cases hmade

end View

/-- A failed open or making of a directory touches no file and removes nothing, and what it leaves
behind are directories on the way. A plain open leaves nothing behind, and neither does the making
of a directory as long as the clock was not in the way. An open that creates leaves nothing behind
unless it comes to making a directory. -/
theorem leftBehind_of_failure {session : Session} (hreach : session.Reachable) {view : View}
    (hview : view ∈ session.views) (clock : Clock) (path : String) :
    (∀ e later, view.openRead session.store clock path = (.error e, later) →
      later = session.store) ∧
    (∀ mode e later, view.mkdir session.store clock path mode = (.error e, later) →
      session.store.LeftBehind later view.root (Store.mkdirWay path) ∧
        (e.kind ≠ .timeOrdering → ∀ i, later.node? i = session.store.node? i)) ∧
    (∀ flags mode e later,
      view.openFile session.store clock path flags mode = (.error e, later) →
      view.FailsToOpen session.store path flags mode e later) ∧
    ∀ e later, view.create session.store clock path = (.error e, later) →
      view.FailsToOpen session.store path View.anew
        (FileMode.file session.store.config.fileMode) e later := by
  have hroot := hreach.rooted view hview
  refine ⟨fun e later hopen => ?_, fun mode e later hmade => View.leftBehind_of_mkdir hroot hmade,
    fun flags mode e later hopen => View.failsToOpen_of_tag hroot hopen,
    fun e later hopen => View.failsToOpen_of_tag hroot hopen⟩
  rw [← view.openNode_rdonly session.store clock path ⟨0⟩]
  exact (congrArg (·.2) hopen).symm

/-- A tree whose paths have at most four bytes, with a directory and a view of it. -/
def shortPaths : Session :=
  ((Session.create .standard ⟨fun p => decide (p.utf8ByteSize ≤ 4)⟩ 0).run
    [(fun k => k, .view 0 (.mkdir "a" ⟨0o755⟩)), (fun k => k, .view 0 (.sub "a"))]).2

theorem shortPaths_reachable : shortPaths.Reachable :=
  Session.ReachableBy.run (.build (Session.build_eq_ok Config.standard_valid (some _) 0)) _

/-- A creating open in the directory. -/
def openShort (path : String) : Except FsError Handle × Store :=
  (⟨2, false⟩ : View).openFile shortPaths.store (fun k => k) path (.union .rdwr .create) ⟨0o644⟩

/-- In the directory a file is refused because of its tree path. In another directory, which is
missing, it is refused after the directory was made. -/
theorem leftBehind_of_failure_shortPaths :
    shortPaths.Reachable ∧ (⟨2, false⟩ : View) ∈ shortPaths.views ∧
      (openShort "bcd").1 = .error (.tagged .openFile "bcd" (.invalidPath "a/bcd")) ∧
      (∀ i, (openShort "bcd").2.node? i = shortPaths.store.node? i) ∧
      (openShort "b/c").1 = .error (.tagged .openFile "b/c" (.invalidPath "a/b/c")) ∧
      shortPaths.store.LeftBehind (openShort "b/c").2 2 (Store.way "b") ∧
      (openShort "b/c").2.pathOf 3 = "a/b" := by
  have hview : (⟨2, false⟩ : View) ∈ shortPaths.views := by decide +kernel
  have hdirect : (openShort "bcd").1 = .error (.tagged .openFile "bcd" (.invalidPath "a/bcd")) := by
    decide +kernel
  have hnested : (openShort "b/c").1 =
      .error (.tagged .openFile "b/c" (.invalidPath "a/b/c")) := by decide +kernel
  have hfails := fun path => (leftBehind_of_failure shortPaths_reachable hview (fun k => k) path).2.2.1
    (.union .rdwr .create) ⟨0o644⟩
  have hroot : shortPaths.store.resolve 2 (Store.dirsPath (Path.cleaned "bcd") ⟨0o644⟩) =
      .ok 2 := by decide +kernel
  have hdirs : Store.dirsPath (Path.cleaned "b/c") ⟨0o644⟩ = "b" := by decide +kernel
  refine ⟨shortPaths_reachable, hview, hdirect, ?_, hnested, ?_, by decide +kernel⟩
  · apply ((hfails "bcd" _ _ (Prod.ext hdirect rfl)).unchanged (by decide)).mpr
    intro hmakes
    obtain ⟨first, hfirst, -⟩ := hmakes.makes
    rw [hroot] at hfirst
    cases hfirst
  · rw [← hdirs]
    exact (hfails "b/c" _ _ (Prod.ext hnested rfl)).left

/-- A failed open is not always without a trace: the directory of the file at `"b/c"` was made before
the rules refused the file. -/
theorem not_forall_node?_of_failure :
    ¬ ∀ (session : Session) (view : View) (clock : Clock) (path : String) (flags : OpenFlags)
      (mode : FileMode) (e : FsError) (later : Store), session.Reachable →
      view ∈ session.views →
      view.openFile session.store clock path flags mode = (.error e, later) →
      ∀ i, later.node? i = session.store.node? i := by
  intro h
  have hnested : (openShort "b/c").1 =
      .error (.tagged .openFile "b/c" (.invalidPath "a/b/c")) := by decide +kernel
  have hsame : (openShort "b/c").2.node? 3 = shortPaths.store.node? 3 :=
    h shortPaths ⟨2, false⟩ (fun k => k) "b/c" (.union .rdwr .create) ⟨0o644⟩ _ _
      shortPaths_reachable (by decide +kernel) (Prod.ext hnested rfl) 3
  have hnew : ((openShort "b/c").2.node? 3).isSome = true := by decide +kernel
  have hold : (shortPaths.store.node? 3).isSome = false := by decide +kernel
  rw [hsame, hold] at hnew
  exact Bool.false_ne_true hnew

end VirtualFs.Tree
