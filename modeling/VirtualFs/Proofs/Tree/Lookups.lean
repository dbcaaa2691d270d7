import VirtualFs.Proofs.Tree.Lasting
import VirtualFs.Proofs.Tree.ReadBack
import VirtualFs.Proofs.Tree.SeenFrom

namespace VirtualFs

/-- Results that belong together are both successes or both failures. -/
theorem Alike.isOk_eq {α β : Type} {related : α → β → Prop} {result : Except FsError α}
    {result' : Except FsError β} (h : Alike related result result') :
    result.isOk = result'.isOk := by
  cases result <;> cases result' <;> first | rfl | exact h.elim

/-- A refused path is not found to be missing or blocked. -/
theorem not_alike_invalidPath {α β : Type} {related : α → β → Prop} {path : String}
    {result : Except FsError β} (hkind : ∀ e, result = .error e → e.kind ≠ .invalidPath) :
    ¬ Alike related (.error (.invalidPath path)) result := by
  cases result with
  | ok b => exact id
  | error e => exact fun halike => hkind e rfl halike.symm

@[simp] theorem Alike.tag_iff {α β : Type} {related : α → β → Prop} {result : Except FsError α}
    {result' : Except FsError β} (operation operation' : Operation) (path path' : String) :
    Alike related (FsError.tag operation path result) (FsError.tag operation' path' result') ↔
      Alike related result result' := by
  cases result <;> cases result' <;> exact Iff.rfl

namespace Tree

namespace Store

variable {store : Store} {dir inode : Nat} {path : String} {names names' : List String}

theorem resolve_of_accepted (haccepts : store.rules.accepts (Text.trim path) = true) :
    store.resolve dir path = store.descend dir (way path) := by
  rw [resolve, PathRules.split_eq, if_pos haccepts]
  rfl

theorem resolve_of_refused (hrefused : store.rules.accepts (Text.trim path) = false) :
    store.resolve dir path = .error (.invalidPath path) := by
  rw [resolve, PathRules.split_of_refused hrefused]

theorem resolveDir_eq_ok_iff : store.resolveDir dir path = .ok inode ↔
    store.resolve dir path = .ok inode ∧ (store.dir? inode).isSome := by
  refine ⟨fun hfound => ⟨resolve_of_resolveDir hfound, dir?_of_resolveDir hfound⟩, ?_⟩
  rintro ⟨hfound, hdir⟩
  obtain ⟨d, hd⟩ := Option.isSome_iff_exists.mp hdir
  simp only [resolveDir, hfound, hd]

/-- A descent never refuses a path. -/
theorem kind_ne_invalidPath_of_descend (hdir : (store.dir? dir).isSome) (names : List String)
    (e : FsError) (hfail : store.descend dir names = .error e) : e.kind ≠ .invalidPath := by
  rcases kind_of_descend hdir hfail with ⟨-, hkind⟩ | ⟨-, hkind⟩ <;> simp [hkind]

theorem leads_eq_none_iff :
    store.leads dir names = none ↔ ∃ e, store.descend dir names = .error e := by
  cases hfound : store.descend dir names with
  | ok i => simp [descend_eq_ok_iff.mp hfound]
  | error e =>
    refine iff_of_true ?_ ⟨e, rfl⟩
    rw [Option.eq_none_iff_forall_ne_some]
    intro i hleads
    rw [descend_eq_ok_iff.mpr hleads] at hfound
    cases hfound

/-- Along two ways from a directory the descent does the same if the ways are the same, or if both
lead nowhere and a file is in the way of both or of neither. -/
theorem descend_alike_iff (hshape : store.Shape) (hdir : (store.dir? dir).isSome)
    (hnames : ∀ s ∈ names, s ≠ ".") (hnames' : ∀ s ∈ names', s ≠ ".") :
    Alike Eq (store.descend dir names) (store.descend dir names') ↔
      names = names' ∨ store.leads dir names = none ∧ store.leads dir names' = none ∧
        (store.Blocked dir names ↔ store.Blocked dir names') := by
  cases hfirst : store.descend dir names with
  | ok i =>
    have hleads := descend_eq_ok_iff.mp hfirst
    cases hsecond : store.descend dir names' with
    | ok j =>
      have hleads' := descend_eq_ok_iff.mp hsecond
      simp only [hleads, reduceCtorEq, false_and, or_false]
      constructor
      · rintro rfl
        exact hshape.leads_inj_of_node? (store.isSome_node?_of_dir? hdir) hnames hnames' hleads
          hleads'
      · rintro rfl
        exact Option.some.inj (hleads.symm.trans hleads')
    | error e =>
      have hlost := leads_eq_none_iff.mpr ⟨e, hsecond⟩
      have hne : names ≠ names' := by
        rintro rfl
        simp [hleads] at hlost
      exact iff_of_false id (by simp [hne, hleads])
  | error e =>
    have hlost := leads_eq_none_iff.mpr ⟨e, hfirst⟩
    cases hsecond : store.descend dir names' with
    | ok j =>
      have hleads' := descend_eq_ok_iff.mp hsecond
      have hne : names ≠ names' := by
        rintro rfl
        simp [hleads'] at hlost
      exact iff_of_false id (by simp [hne, hleads'])
    | error e' =>
      have hlost' := leads_eq_none_iff.mpr ⟨e', hsecond⟩
      have hkinds : e.kind = e'.kind ↔ (store.Blocked dir names ↔ store.Blocked dir names') := by
        rcases kind_of_descend hdir hfirst with ⟨hblocked, hkind⟩ | ⟨hblocked, hkind⟩ <;>
          rcases kind_of_descend hdir hsecond with ⟨hblocked', hkind'⟩ | ⟨hblocked', hkind'⟩ <;>
          simp [hblocked, hblocked', hkind, hkind']
      refine hkinds.trans ⟨fun hblocked => .inr ⟨hlost, hlost', hblocked⟩, ?_⟩
      rintro (rfl | ⟨-, -, hblocked⟩)
      · exact Iff.rfl
      · exact hblocked

end Store

/-- What a handle that was just opened shows of its node. -/
theorem Handle.stat_onNode {opened store : Store} {inode : Nat} {node : Node}
    (hnode : store.node? inode = some node) (flags : OpenFlags) (path base : String) :
    (Handle.onNode opened inode flags path base).1.stat store =
      .ok (node.entry.rebased base) := by
  unfold Handle.onNode
  split <;> simp [Handle.onDir, Handle.openFile, Handle.stat, Target.inode, hnode]

namespace View

variable {view : View} {store : Store} {clock : Clock} {path : String} {entry : Entry}

theorem stat_eq_ok_iff : view.stat store path = .ok entry ↔
    ∃ inode node, store.resolve view.root path = .ok inode ∧ store.node? inode = some node ∧
      entry = node.entry.rebased (view.base store) := by
  unfold stat
  cases store.resolve view.root path with
  | error e => simp
  | ok inode =>
    cases hnode : store.node? inode with
    | none => simp [hnode]
    | some node => simp [hnode, eq_comm]

/-- A lookup shows a directory exactly where one is found. -/
theorem shows_dir_iff (hshape : store.Shape) :
    (∃ entry, view.stat store path = .ok entry ∧ entry.isDir = true) ↔
      ∃ inode, store.resolveDir view.root path = .ok inode := by
  have hdir : ∀ {inode node}, store.node? inode = some node →
      ((node.entry.rebased (view.base store)).isDir = true ↔ (store.dir? inode).isSome) := by
    intro inode node hnode
    rw [Entry.isDir, Entry.attrs_rebased]
    refine (Bool.eq_iff_iff.mp (hshape.kind inode node hnode)).trans ?_
    cases node <;> simp [Store.dir?, hnode, Node.isDir]
  simp only [stat_eq_ok_iff, Store.resolveDir_eq_ok_iff]
  constructor
  · rintro ⟨entry, ⟨inode, node, hfound, hnode, rfl⟩, hshown⟩
    exact ⟨inode, hfound, (hdir hnode).mp hshown⟩
  · rintro ⟨inode, hfound, hisDir⟩
    obtain ⟨node, hnode⟩ := Option.isSome_iff_exists.mp (store.isSome_node?_of_dir? hisDir)
    exact ⟨_, ⟨inode, node, hfound, hnode, rfl⟩, (hdir hnode).mpr hisDir⟩

theorem sub_isOk_iff : (∃ sub, view.sub store path = .ok sub) ↔
    ∃ inode, store.resolveDir view.root path = .ok inode := by
  unfold sub
  cases store.resolveDir view.root path <;> simp [Except.map]

theorem readDir_isOk_iff : (∃ entries, view.readDir store path = .ok entries) ↔
    ∃ inode, store.resolveDir view.root path = .ok inode := by
  unfold readDir dirIter
  cases store.resolveDir view.root path with
  | error e => simp
  | ok inode => simp [Pager.nextPage_rest, Except.map]

/-- Opening a path and looking up its entry do the same exactly if the descents that they come to
do. -/
theorem opened_iff (hshape : store.Shape) (hlabelled : store.Labelled)
    (hroot : (store.dir? view.root).isSome)
    (haccepts : store.rules.accepts (Text.trim path) = true) :
    Alike (fun handle entry => handle.stat (view.openRead store clock path).2 = .ok entry)
        (view.openRead store clock path).1 (view.stat store path) ↔
      Alike Eq (store.resolve view.root (Path.cleaned path)) (store.resolve view.root path) := by
  have hclean := PathRules.clean_of_accepted haccepts
  have hnode : ∀ {path i}, store.resolve view.root path = .ok i →
      ∃ node, store.node? i = some node := fun hfound =>
    Option.isSome_iff_exists.mp (hshape.node?_isSome_of_leads (store.isSome_node?_of_dir? hroot)
      (Store.resolve_eq_ok_iff_leads.mp hfound).2)
  have hstore := view.openNode_rdonly store clock path ⟨0⟩
  simp only [openRead, stat, Alike.tag_iff, hstore]
  cases hopened : store.resolve view.root (Path.cleaned path) with
  | error e =>
    rw [openNode_of_missing hclean hopened (by simp [OpenFlags.has_create_rdonly])]
    cases hfound : store.resolve view.root path with
    | error e' => exact Iff.rfl
    | ok j =>
      obtain ⟨node, hj⟩ := hnode hfound
      simp only [hj]
      exact Iff.rfl
  | ok i =>
    rw [openNode_of_found hclean hopened]
    cases hfound : store.resolve view.root path with
    | error e' => exact Iff.rfl
    | ok j =>
      obtain ⟨node, hi⟩ := hnode hopened
      obtain ⟨node', hj⟩ := hnode hfound
      simp only [hj, Alike, Handle.stat_onNode hi, Except.ok.injEq]
      constructor
      · -- Entries of different nodes differ in their numbers.
        intro hentry
        have hattrs := congrArg Entry.attrs hentry
        rw [Entry.attrs_rebased, Entry.attrs_rebased] at hattrs
        rw [← hlabelled.inode i node hi, ← hlabelled.inode j node' hj, hattrs]
      · rintro rfl
        obtain rfl := Option.some.inj (hi.symm.trans hj)
        rfl

/-- All lookups agree on what the path names. -/
structure LookupsAgree (view : View) (store : Store) (clock : Clock) (path : String) : Prop where
  /-- Opening for reading and looking up the entry both succeed, and the handle shows that entry, or
  both fail with errors of the same kind. -/
  opened : Alike (fun handle entry => handle.stat (view.openRead store clock path).2 = .ok entry)
    (view.openRead store clock path).1 (view.stat store path)
  viewed : (∃ sub, view.sub store path = .ok sub) ↔
    ∃ entry, view.stat store path = .ok entry ∧ entry.isDir = true
  listed : (∃ entries, view.readDir store path = .ok entries) ↔
    ∃ entry, view.stat store path = .ok entry ∧ entry.isDir = true

/-- Only the opening of a path can disagree with the rest. -/
theorem lookupsAgree_iff_opened (hshape : store.Shape) : view.LookupsAgree store clock path ↔
    Alike (fun handle entry => handle.stat (view.openRead store clock path).2 = .ok entry)
      (view.openRead store clock path).1 (view.stat store path) :=
  ⟨LookupsAgree.opened, (⟨·, sub_isOk_iff.trans (shows_dir_iff hshape).symm,
    readDir_isOk_iff.trans (shows_dir_iff hshape).symm⟩)⟩

/-- If the rules accept the path at all, they accept it clean, and cleaning it once more changes none
of the names along which it leads, or else neither way leads anywhere and a file is in the way of
both or of neither. -/
def CleansAlike (view : View) (store : Store) (path : String) : Prop :=
  store.rules.accepts (Text.trim path) = true →
    store.rules.accepts (Text.trim (Path.cleaned path)) = true ∧
      (Store.way (Path.cleaned path) = Store.way path ∨
        store.leads view.root (Store.way (Path.cleaned path)) = none ∧
          store.leads view.root (Store.way path) = none ∧
          (store.Blocked view.root (Store.way (Path.cleaned path)) ↔
            store.Blocked view.root (Store.way path)))

/-- A path that is clean after one cleaning stays as it is in the second one. -/
theorem cleansAlike_of_trim_eq (view : View)
    (htrim : Text.trim (Path.cleaned path) = Path.cleaned path)
    (haccepts : store.rules.accepts (Text.trim path) = true →
      store.rules.accepts (Path.cleaned path) = true) : view.CleansAlike store path := by
  refine fun haccepted => ⟨by rw [htrim, haccepts haccepted], .inl ?_⟩
  rw [Store.way, Path.segments_cleaned, htrim]
  rfl

/-- Only a separator at the end of a path can hide a blank from its cleaning. -/
theorem cleansAlike_of_getLast? (view : View) (store : Store)
    (hlast : (Text.trim path).toList.getLast? ≠ some Path.separator) :
    view.CleansAlike store path := by
  have hcleaned := Path.cleaned_eq_trim hlast
  exact view.cleansAlike_of_trim_eq (by rw [hcleaned, Text.trim_trim])
    fun haccepts => by rwa [hcleaned]

/-- The strict rules accept no such path. -/
theorem cleansAlike_of_strict (view : View) (hrules : store.rules = .strict) (path : String) :
    view.CleansAlike store path := by
  intro haccepts
  have hvalid : Path.valid (Text.trim path) = true := by rwa [hrules] at haccepts
  exact view.cleansAlike_of_getLast? store (Path.getLast?_of_valid hvalid) haccepts

/-- Under the permissive rules only blanks at the ends of segments are in the way. -/
theorem cleansAlike_of_permissive (view : View) (hrules : store.rules = .permissive)
    (htidy : Path.Tidy path) : view.CleansAlike store path :=
  view.cleansAlike_of_trim_eq htidy.cleaned.trim_eq fun _ => by rw [hrules]; rfl

end View

/-- All lookups of a view agree on what a path names exactly if cleaning the path twice does what
cleaning it once does. -/
theorem lookupsAgree_iff {session : Session} (hreach : session.Reachable) {view : View}
    (hview : view ∈ session.views) (clock : Clock) (path : String) :
    view.LookupsAgree session.store clock path ↔ view.CleansAlike session.store path := by
  have hshape := hreach.shape
  have hroot := hreach.rooted view hview
  rw [View.lookupsAgree_iff_opened hshape, View.CleansAlike]
  cases haccepts : session.store.rules.accepts (Text.trim path) with
  | false =>
    refine iff_of_true ?_ (by simp)
    simp only [View.openRead, View.openNode, PathRules.clean_of_refused haccepts, View.stat,
      Store.resolve_of_refused haccepts, FsError.tag_error]
    rfl
  | true =>
    rw [View.opened_iff hshape hreach.labelled hroot haccepts, Store.resolve_of_accepted haccepts]
    simp only [forall_const]
    cases haccepts' : session.store.rules.accepts (Text.trim (Path.cleaned path)) with
    | true =>
      rw [Store.resolve_of_accepted haccepts', Store.descend_alike_iff hshape hroot
        Store.ne_dot_of_mem_way Store.ne_dot_of_mem_way]
      simp
    | false =>
      -- The clean text is refused, and that is an error which the descent of a lookup never gives.
      rw [Store.resolve_of_refused haccepts']
      refine iff_of_false ?_ (by simp)
      exact not_alike_invalidPath (Store.kind_ne_invalidPath_of_descend hroot _)

/-- A tree with one directory. -/
def oneDirectory : Session :=
  (emptyTree.run [(fun k => k, .view 0 (.mkdir "a" ⟨0o755⟩))]).2

theorem oneDirectory_reachable : oneDirectory.Reachable :=
  emptyTree_reachable.run _

theorem lookupsAgree_iff_doubledSlash :
    oneDirectory.Reachable ∧ View.whole ∈ oneDirectory.views ∧
      View.whole.LookupsAgree oneDirectory.store (fun k => k) " a//" ∧
      (View.whole.stat oneDirectory.store " a//").map (·.attrs.inode) = .ok 2 := by
  have hview : View.whole ∈ oneDirectory.views := by decide +kernel
  have hcleans : View.whole.CleansAlike oneDirectory.store " a//" :=
    fun _ => ⟨by decide +kernel, .inl (by decide +kernel)⟩
  exact ⟨oneDirectory_reachable, hview,
    (lookupsAgree_iff oneDirectory_reachable hview (fun k => k) " a//").mpr hcleans,
    by decide +kernel⟩

/-- The lookups do not always agree: at `"a /"` the directory `"a"` is opened, and no entry is
found. -/
theorem not_forall_lookupsAgree :
    ¬ ∀ (session : Session) (view : View) (clock : Clock) (path : String), session.Reachable →
      view ∈ session.views → view.LookupsAgree session.store clock path := by
  intro h
  have hview : View.whole ∈ oneDirectory.views := by decide +kernel
  have hboth := (h oneDirectory .whole (fun k => k) "a /" oneDirectory_reachable hview).opened.isOk_eq
  exact absurd hboth (by decide +kernel)

end Tree

end VirtualFs
