import VirtualFs.Proofs.Path.CleanEntry
import VirtualFs.Proofs.Tree.Records

namespace VirtualFs

namespace Path

variable {front : List String} {name : String}

theorem base_ofKey (hkey : IsKey (front ++ [name])) : base (ofKey (front ++ [name])) = name := by
  rw [ofKey_of_ne_nil (List.concat_ne_nil _ _),
    base_joinAll front (hkey.isSegments name (List.mem_concat_self ..))]

/-- Without its last name the path of a node is that of its parent, also at the top. -/
theorem dir_ofKey (hkey : IsKey (front ++ [name])) :
    dir (ofKey (front ++ [name])) = ofKey front := by
  have hname := (hkey.isSegments name (List.mem_concat_self ..)).2
  have hfrontKey := (isKey_append.mp hkey).1
  rw [ofKey_of_ne_nil (List.concat_ne_nil _ _)]
  by_cases hfront : front = []
  · rw [hfront, List.nil_append, joinAll_singleton, dir_of_not_mem hname, ofKey_nil]
  · rw [joinAll_append hfront (List.cons_ne_nil _ _), joinAll_singleton, dir_append_name _ hname,
      if_neg (joinAll_ne_empty hfront hfrontKey.isSegments), ofKey_of_ne_nil hfront]

end Path

/-- Records agree if the entries do but for their paths, and the paths have the same name and become
the same absolute paths. -/
theorem FileRecord.ofEntry_congr {root root' sep : String} {entry entry' : Entry}
    (hattrs : entry.attrs = entry'.attrs) (hname : entry.name = entry'.name)
    (hdir : joinClean sep [root, entry.dir] = joinClean sep [root', entry'.dir])
    (hpath : joinClean sep [root, entry.path] = joinClean sep [root', entry'.path]) :
    FileRecord.ofEntry root sep entry = FileRecord.ofEntry root' sep entry' := by
  obtain ⟨path, attrs⟩ := entry
  obtain ⟨path', attrs'⟩ := entry'
  obtain rfl : attrs = attrs' := hattrs
  unfold FileRecord.ofEntry
  rw [hdir, hname, hpath]
  rfl

namespace Tree

/-- A paged reading shows entries of nodes, seen from its base. -/
theorem Pager.exists_node_of_mem_take {pager : Pager} {store : Store} {limit : Nat}
    {names : List String} {entry : Entry} (hmem : entry ∈ (pager.take store limit names).1) :
    ∃ i node, store.node? i = some node ∧ entry = node.entry.rebased pager.base := by
  induction names generalizing limit with
  | nil => cases limit <;> cases hmem
  | cons name rest ih =>
    cases limit with
    | zero => cases hmem
    | succ limit =>
      rw [take] at hmem
      split at hmem
      · exact ih hmem
      · next first hfirst =>
        rcases List.mem_cons.mp hmem with rfl | hmem
        · obtain ⟨node, hfound, rfl⟩ := Option.map_eq_some_iff.mp hfirst
          obtain ⟨child, -, hnode⟩ := Option.bind_eq_some_iff.mp hfound
          exact ⟨child.inode, node, hnode, rfl⟩
        · exact ih hmem

theorem Pager.exists_node_of_nextPage {pager : Pager} {store : Store} {n : Int} {page : Page}
    {entry : Entry} (hpage : (pager.nextPage store n).1 = .ok page) (hmem : entry ∈ page.entries) :
    ∃ i node, store.node? i = some node ∧ entry = node.entry.rebased pager.base := by
  unfold nextPage at hpage
  split at hpage
  · obtain rfl := Except.ok.inj hpage
    exact exists_node_of_mem_take hmem
  · simp only at hpage
    split at hpage
    · cases hpage
    · obtain rfl := Except.ok.inj hpage
      exact exists_node_of_mem_take hmem

namespace View

variable {view : View} {store : Store} {dir key : List String} {entry entry' : Entry}
  {inode : Nat} {node : Node}

/-- The entries that come from a view: from its own operations, from handles that were opened
through it, and from paged readings that were started in it. -/
inductive Shows (view : View) (store : Store) : Entry → Prop
  | stat {path : String} {entry : Entry} (hstat : view.stat store path = .ok entry) :
      Shows view store entry
  | readDir {path : String} {entries : List Entry} {entry : Entry}
      (hread : view.readDir store path = .ok entries) (hmem : entry ∈ entries) :
      Shows view store entry
  | visit {path : String} {entry : Entry} (hmem : (path, entry) ∈ view.visits store) :
      Shows view store entry
  | handle {handle : Handle} {entry : Entry} (hbase : handle.base = view.base store)
      (hstat : handle.stat store = .ok entry) : Shows view store entry
  | page {pager : Pager} {n : Int} {page : Page} {entry : Entry}
      (hbase : pager.base = view.base store) (hpage : (pager.nextPage store n).1 = .ok page)
      (hmem : entry ∈ page.entries) : Shows view store entry
  | next {pager : Pager} {entry : Entry} (hbase : pager.base = view.base store)
      (hnext : (pager.next store).1 = some entry) : Shows view store entry

theorem exists_node_of_mem_visitsBelow {base : String} {depth : Nat} {path : String} {dir : Nat}
    {shown : Visit} (hmem : shown ∈ visitsBelow store base depth path dir) :
    ∃ i node, store.node? i = some node ∧ shown.2 = node.entry.rebased base := by
  induction depth generalizing path dir with
  | zero => cases hmem
  | succ depth ih =>
    obtain ⟨name, -, hmem⟩ := List.mem_flatMap.mp hmem
    split at hmem
    · cases hmem
    next child _ =>
    split at hmem
    · cases hmem
    next node hnode =>
    rcases List.mem_cons.mp hmem with rfl | hmem
    · exact ⟨child.inode, node, hnode, rfl⟩
    · split at hmem
      · exact ih hmem
      · cases hmem

/-- An entry that comes from a view is that of a node, seen from the root of the view. -/
theorem Shows.exists_node (hshows : view.Shows store entry) :
    ∃ i node, store.node? i = some node ∧ entry = node.entry.rebased (view.base store) := by
  cases hshows with
  | stat hstat =>
    obtain ⟨i, node, -, hnode, hentry⟩ := stat_eq_ok_iff.mp hstat
    exact ⟨i, node, hnode, hentry⟩
  | readDir hread hmem =>
    unfold View.readDir dirIter at hread
    cases hdir : store.resolveDir view.root _ with
    | error e =>
      rw [hdir] at hread
      cases hread
    | ok dir =>
      simp only [hdir, Pager.nextPage_rest] at hread
      obtain rfl := Except.ok.inj hread
      exact Pager.exists_node_of_nextPage (Pager.nextPage_rest _ _) hmem
  | visit hmem =>
    unfold visits at hmem
    split at hmem
    · cases hmem
    next node hnode =>
    rcases List.mem_cons.mp hmem with heq | hmem
    · exact ⟨view.root, node, hnode, congrArg Prod.snd heq⟩
    · exact exists_node_of_mem_visitsBelow hmem
  | handle hbase hstat =>
    unfold Handle.stat at hstat
    split at hstat
    · cases hstat
    split at hstat
    · next node hnode =>
      exact ⟨_, node, hnode, by rw [← hbase, Except.ok.inj hstat]⟩
    · cases hstat
  | page hbase hpage hmem => exact hbase ▸ Pager.exists_node_of_nextPage hpage hmem
  | next hbase hnext => exact hbase ▸ Pager.exists_node_of_mem_take (List.mem_of_head? hnext)

/-- A view shows every node to which names lead from its root. -/
theorem exists_shows_of_leads (hshape : store.TidyShape) (hlabelled : store.Labelled)
    (hdir : (store.dir? view.root).isSome) (hdots : ∀ s ∈ key, s ≠ ".")
    (hleads : store.leads view.root key = some inode) :
    ∃ entry, view.Shows store entry ∧ entry.attrs.inode = inode := by
  obtain ⟨d, hd⟩ := Option.isSome_iff_exists.mp hdir
  obtain ⟨node, hnode⟩ := Option.isSome_iff_exists.mp
    (hshape.node?_isSome_of_leads (store.isSome_node?_of_dir? hdir) hleads)
  have hmet : (key, node) ∈ store.atOrBelow store.nodes.length view.root (.dir d) :=
    (Store.mem_atOrBelow_iff hshape.toShape (by omega) hd).mpr ⟨hdots, inode, hleads, hnode⟩
  have hvisit : (Path.ofKey key, node.entry.rebased (view.base store)) ∈ view.visits store := by
    rw [visits_eq hshape ((store.dir?_eq_some_iff).mp hd) rfl]
    exact List.mem_map.mpr ⟨(key, node), hmet, rfl⟩
  exact ⟨_, .visit hvisit, by rw [Entry.attrs_rebased, hlabelled.inode inode node hnode]⟩

/-- The record of an entry that the view has shown. -/
def recordOf (view : View) (store : Store) (entry : Entry) : FileRecord :=
  FileRecord.ofEntry (view.rootPath store) separator entry

/-- The record of what is below a view has the paths of the names from the root of the tree, no
matter how many of them lead to the view. -/
theorem recordOf_eq {front : List String} {name : String} {attrs : Attributes}
    (hbase : view.base store = Path.ofKey dir) (hkey : Path.IsKey (dir ++ (front ++ [name]))) :
    view.recordOf store ⟨Path.ofKey (front ++ [name]), attrs⟩ =
      FileRecord.ofEntry "/" separator ⟨Path.ofKey (dir ++ (front ++ [name])), attrs⟩ := by
  have hatRoot : ∀ {names : List String}, Path.IsKey names →
      joinClean separator ["/", Path.ofKey names] = "/" ++ Path.joinAll (collapsed names) :=
    fun hnames => joinClean_ofKey Path.isKey_nil hnames
  obtain ⟨hdir, hback⟩ := Path.isKey_append.mp hkey
  have hfront := (Path.isKey_append.mp hback).1
  have hparent := Path.isKey_append.mpr ⟨hdir, hfront⟩
  have hwhole : Path.IsKey (dir ++ front ++ [name]) := by rwa [List.append_assoc]
  rw [recordOf, rootPath_eq hbase hdir, ← List.append_assoc]
  refine FileRecord.ofEntry_congr rfl ?_ ?_ ?_
  · rw [Entry.name, Entry.name, Path.base_ofKey hback, Path.base_ofKey hwhole]
  · rw [Entry.dir, Entry.dir, Path.dir_ofKey hback, Path.dir_ofKey hwhole,
      joinClean_ofKey hdir hfront, hatRoot hparent]
  · rw [joinClean_ofKey hdir hback, hatRoot hwhole, List.append_assoc]

/-- What is below a view is below the root of the tree, behind the names of the view. -/
theorem exists_leads_whole (hshape : store.TidyShape) (hne : key ≠ []) (hdots : ∀ s ∈ key, s ≠ ".")
    (hleads : store.leads view.root key = some inode) :
    ∃ dir, view.base store = Path.ofKey dir ∧ Path.IsKey (dir ++ key) ∧
      store.leads Store.rootInode (dir ++ key) = some inode ∧
      store.pathOf inode = Path.ofKey (dir ++ key) := by
  obtain ⟨dir, hdirDots, hdir⟩ := hshape.reached view.root
    (store.isSome_node?_of_dir? (Store.dir?_isSome_of_leads hleads hne))
  have hwhole : store.leads Store.rootInode (dir ++ key) = some inode := by
    rw [Store.leads_append, hdir, Option.bind_some, hleads]
  obtain ⟨hkey, hpath⟩ := hshape.pathOf_leads (List.forall_mem_append.mpr ⟨hdirDots, hdots⟩) hwhole
  exact ⟨dir, (hshape.pathOf_leads hdirDots hdir).2, hkey, hwhole, hpath⟩

/-- The record that a view makes of a node below it is that of the entry in the tree. -/
theorem recordOf_of_shows (hshape : store.TidyShape) (hlabelled : store.Labelled) (hne : key ≠ [])
    (hdots : ∀ s ∈ key, s ≠ ".") (hleads : store.leads view.root key = some inode)
    (hnode : store.node? inode = some node) (hshows : view.Shows store entry)
    (hinode : entry.attrs.inode = inode) :
    view.recordOf store entry = FileRecord.ofEntry "/" separator node.entry := by
  obtain ⟨dir, hbase, hkey, -, hpath⟩ := exists_leads_whole hshape hne hdots hleads
  obtain ⟨i, shown, hshown, rfl⟩ := hshows.exists_node
  rw [Entry.attrs_rebased, hlabelled.inode i shown hshown] at hinode
  subst hinode
  obtain rfl := Option.some.inj (hshown.symm.trans hnode)
  have hentry : shown.entry.path = Path.ofKey (dir ++ key) :=
    (store.pathOf_of_node? hnode).symm.trans hpath
  obtain ⟨hdir, hback⟩ := Path.isKey_append.mp hkey
  obtain ⟨front, name, rfl⟩ := (List.eq_nil_or_concat' key).resolve_left hne
  have hseen : shown.entry.rebased (view.base store) =
      ⟨Path.ofKey (front ++ [name]), shown.entry.attrs⟩ := by
    rw [Entry.rebased, hentry, hbase, Path.stripBase_ofKey hdir hback]
  rw [hseen, recordOf_eq hbase hkey, ← hentry]

/-- The root of a sub view is the exception: in the view it has the name `"."`, in the tree its
own. -/
theorem recordOf_root_ne (hshape : store.TidyShape) (hnode : store.node? view.root = some node)
    (hroot : view.root ≠ Store.rootInode) :
    view.recordOf store (node.entry.rebased (view.base store)) ≠
      View.whole.recordOf store (node.entry.rebased (View.whole.base store)) := by
  obtain ⟨dir, hdots, hleads⟩ := hshape.reached view.root (by rw [hnode]; rfl)
  obtain ⟨hkey, hpath⟩ := hshape.pathOf_leads hdots hleads
  have hbase : view.base store = Path.ofKey dir := hpath
  have hentry := hshape.path_of_leads hdots hleads hnode
  have hne : dir ≠ [] := by
    rintro rfl
    exact hroot (Option.some.inj hleads).symm
  obtain ⟨front, name, rfl⟩ := (List.eq_nil_or_concat' dir).resolve_left hne
  have hinner : (node.entry.rebased (view.base store)).name = "." := by
    have hself := Path.stripBase_ofKey hkey Path.isKey_nil
    rw [List.append_nil] at hself
    have hdot : Path.base "." = "." := by decide
    rw [Entry.name, Entry.rebased, hentry, hbase, hself]
    exact hdot
  have houter : (node.entry.rebased (View.whole.base store)).name = name := by
    have hall := Path.stripBase_ofKey Path.isKey_nil hkey
    rw [List.nil_append] at hall
    have htop : View.whole.base store = Path.ofKey [] := hshape.rootPath
    rw [Entry.name, Entry.rebased, hentry, htop, hall]
    exact Path.base_ofKey hkey
  intro hsame
  have hname : "." = name := by
    rw [← hinner, ← houter]
    exact congrArg FileRecord.name hsame
  exact (hkey name (List.mem_concat_self ..)).2 hname.symm

end View

/-- Records do not depend on the view. A view of any directory shows every node below it, and so
does that of the whole tree; whatever their entries of it come from, the records are the same in all
fields. -/
theorem recordOf_eq_whole {session : Session} (hreach : session.TidilyReachable) {view : View}
    {key : List String} {inode : Nat} (hne : key ≠ []) (hdots : ∀ s ∈ key, s ≠ ".")
    (hleads : session.store.leads view.root key = some inode) :
    (∃ entry, view.Shows session.store entry ∧ entry.attrs.inode = inode) ∧
      (∃ entry, View.whole.Shows session.store entry ∧ entry.attrs.inode = inode) ∧
      ∀ entry entry', view.Shows session.store entry → entry.attrs.inode = inode →
        View.whole.Shows session.store entry' → entry'.attrs.inode = inode →
        view.recordOf session.store entry = View.whole.recordOf session.store entry' := by
  have hshape := hreach.tidyShape
  have hdir := Store.dir?_isSome_of_leads hleads hne
  obtain ⟨dir, -, hkey, hwhole, -⟩ := View.exists_leads_whole hshape hne hdots hleads
  have hwholeDots : ∀ s ∈ dir ++ key, s ≠ "." := fun s hs => (hkey s hs).2
  have hwholeNe : dir ++ key ≠ [] := List.append_ne_nil_of_right_ne_nil dir hne
  obtain ⟨node, hnode⟩ := Option.isSome_iff_exists.mp
    (hshape.node?_isSome_of_leads (session.store.isSome_node?_of_dir? hdir) hleads)
  refine ⟨View.exists_shows_of_leads hshape hreach.labelled hdir hdots hleads,
    View.exists_shows_of_leads hshape hreach.labelled hshape.root hwholeDots hwhole,
    fun entry entry' hshows hinode hshows' hinode' => ?_⟩
  rw [View.recordOf_of_shows hshape hreach.labelled hne hdots hleads hnode hshows hinode,
    View.recordOf_of_shows hshape hreach.labelled hwholeNe hwholeDots hwhole hnode hshows' hinode']

/-- The directory `".."` is below the root of the view, which makes the record of it that the whole
tree makes. -/
theorem recordOf_eq_whole_climbing :
    (⟨2, false⟩ : View).recordOf climbing.store upwardEntry =
        View.whole.recordOf climbing.store ⟨"a/..", upwardEntry.attrs⟩ ∧
      (View.whole.recordOf climbing.store ⟨"a/..", upwardEntry.attrs⟩).directory = "/a" := by
  have hwhole : View.whole.stat climbing.store "a/.." = .ok ⟨"a/..", upwardEntry.attrs⟩ := by
    decide +kernel
  have hleads : climbing.store.leads 2 [".."] = some 3 := by decide +kernel
  have hrecords := @recordOf_eq_whole climbing climbing_reachable ⟨2, false⟩ [".."] 3 (by decide)
    (by decide) hleads
  have hsame := hrecords.2.2 upwardEntry ⟨"a/..", upwardEntry.attrs⟩ (.stat stat_climbing.2.2) rfl
    (.stat hwhole) rfl
  exact ⟨hsame, by decide +kernel⟩

end Tree

end VirtualFs
