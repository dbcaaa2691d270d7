import VirtualFs.Glob.Match
import VirtualFs.Proofs.Tree.WalkOrder

namespace VirtualFs.Tree

/-- What a walk shows its visits to. It keeps a state, and may fail. -/
abbrev Visitor (σ : Type) := Visit → ExceptT FsError (StateM σ) Unit

/-- Shown the visits one after the other, the visitor fails at none of them. -/
inductive Visitor.Takes {σ : Type} (visit : Visitor σ) : σ → List Visit → σ → Prop
  | nil (s : σ) : Takes visit s [] s
  | cons {s s' s'' : σ} {shown : Visit} {rest : List Visit}
      (hshown : (visit shown).run.run s = (.ok (), s')) (hrest : Takes visit s' rest s'') :
      Takes visit s (shown :: rest) s''

namespace Visitor

variable {σ : Type} {visit : Visitor σ} {s s' : σ} {visits : List Visit} {shown : Visit}

theorem run_forM_cons :
    (forM (shown :: visits) visit).run.run s =
      match (visit shown).run.run s with
      | (.ok (), s') => (forM visits visit).run.run s'
      | (.error e, s') => (.error e, s') := by
  rw [List.forM_cons, ExceptT.run_bind, StateT.run_bind]
  rcases (visit shown).run.run s with ⟨_ | _, _⟩ <;> rfl

/-- All visits are shown exactly if the visitor fails at none. -/
theorem run_forM_ok_iff :
    (forM visits visit).run.run s = (.ok (), s') ↔ Takes visit s visits s' := by
  induction visits generalizing s with
  | nil =>
    constructor
    · intro hrun
      obtain rfl := (Prod.mk.inj hrun).2
      exact .nil s
    · rintro ⟨⟩
      rfl
  | cons shown rest ih =>
    rw [run_forM_cons]
    constructor
    · intro hrun
      split at hrun
      · next hshown => exact .cons hshown (ih.mp hrun)
      · cases hrun
    · rintro (_ | ⟨hshown, hrest⟩)
      rw [hshown]
      exact ih.mpr hrest

/-- An error is that of the first visit at which the visitor fails, and nothing is shown after it. -/
theorem run_forM_error_iff {e : FsError} :
    (forM visits visit).run.run s = (.error e, s') ↔
      ∃ front shown back sFront, visits = front ++ shown :: back ∧ Takes visit s front sFront ∧
        (visit shown).run.run sFront = (.error e, s') := by
  induction visits generalizing s with
  | nil =>
    refine iff_of_false (by rintro ⟨⟩) ?_
    rintro ⟨front, shown, back, -, hnil, -⟩
    simp at hnil
  | cons first rest ih =>
    rw [run_forM_cons]
    constructor
    · intro hrun
      split at hrun
      · next s₁ hfirst =>
        obtain ⟨front, shown, back, sFront, rfl, hfront, hfails⟩ := ih.mp hrun
        exact ⟨first :: front, shown, back, sFront, rfl, .cons hfirst hfront, hfails⟩
      · next hfails =>
        obtain ⟨hsame, rfl⟩ := Prod.mk.inj hrun
        obtain rfl := Except.error.inj hsame
        exact ⟨[], first, rest, s, rfl, .nil s, hfails⟩
    · rintro ⟨front, shown, back, sFront, hvisits, hfront, hfails⟩
      cases hfront with
      | nil =>
        obtain ⟨rfl, rfl⟩ := List.cons.inj hvisits
        rw [hfails]
      | cons hfirst hrest =>
        obtain ⟨rfl, rfl⟩ := List.cons.inj hvisits
        rw [hfirst]
        exact ih.mpr ⟨_, shown, back, sFront, rfl, hrest, hfails⟩

end Visitor

namespace View

variable {view : View} {store : Store} {dir : List String}

theorem listing_eq (view : View) (store : Store) :
    view.listing store = (view.visits store).map line :=
  (view.collect_eq store _).trans (congrFun List.filterMap_eq_map' _)

theorem glob_eq (view : View) (store : Store) {patterns : Glob.Library} {pattern : String}
    {test : Bool → String → Bool} (hcompile : patterns.compile pattern = .ok test) :
    view.glob store patterns pattern =
      .ok (((view.visits store).map (·.1)).filter (test true)) := by
  unfold glob
  rw [hcompile, List.filter_map, ← List.filterMap_eq_map, List.filterMap_filter]
  exact congrArg Except.ok (view.collect_eq store _)

/-- Every view of a tree that was made along tidy paths is that of a directory. -/
theorem exists_isAt {session : Session} (hreach : session.TidilyReachable)
    (hrules : session.store.rules = .permissive ∨ session.store.rules = .strict)
    (hview : view ∈ session.views) : ∃ dir, view.IsAt session.store dir := by
  have hshape := hreach.tidyShape
  have hroot := hreach.rooted view hview
  obtain ⟨dir, hdots, hleads⟩ := hshape.reached view.root (session.store.isSome_node?_of_dir? hroot)
  obtain ⟨hkey, hpath⟩ := hshape.pathOf_leads hdots hleads
  have haccepts : session.store.rules.accepts (Path.ofKey dir) = true := by
    by_cases htop : view.root = Store.rootInode
    · rw [htop] at hleads
      rw [hshape.leads_eq_root hdots hleads]
      exact PathRules.accepts_root_of_named hrules
    · rw [← hpath]
      exact hreach.accepted view.root (session.store.isSome_node?_of_dir? hroot) htop
  exact ⟨dir, hshape, PathRules.segmentwise_of_named hrules, hkey, haccepts, hleads, hroot⟩

namespace IsAt

variable {key : List String} {inode : Nat} {node : Node}

/-- What names lead to from the view has the path of the directory and then theirs. -/
theorem pathOf_leads (h : view.IsAt store dir) (hdots : ∀ s ∈ key, s ≠ ".")
    (hleads : store.leads view.root key = some inode) :
    Path.IsKey key ∧ store.pathOf inode = Path.ofKey (dir ++ key) := by
  have hdirDots : ∀ s ∈ dir, s ≠ "." := fun s hs => (h.key s hs).2
  obtain ⟨hkey, hpath⟩ := h.shape.pathOf_leads (List.forall_mem_append.mpr ⟨hdirDots, hdots⟩)
    ((h.leads_append key).trans hleads)
  exact ⟨(Path.isKey_append.mp hkey).2, hpath⟩

/-- Its path as the view shows it is that of the names. -/
theorem path_of_leads (h : view.IsAt store dir) (hdots : ∀ s ∈ key, s ≠ ".")
    (hleads : store.leads view.root key = some inode) (hnode : store.node? inode = some node) :
    (node.entry.rebased (view.base store)).path = Path.ofKey key := by
  obtain ⟨hkey, hpath⟩ := h.pathOf_leads hdots hleads
  have hentry : node.entry.path = Path.ofKey (dir ++ key) :=
    (store.pathOf_of_node? hnode).symm.trans hpath
  rw [h.base_eq, Entry.rebased, hentry, Path.stripBase_ofKey h.key hkey]

/-- The rules accept the path at which a node is. -/
theorem accepts_of_leads (h : view.IsAt store dir) (haccepted : store.Accepted)
    (hdots : ∀ s ∈ key, s ≠ ".") (hleads : store.leads view.root key = some inode) :
    store.rules.accepts (Path.ofKey key) = true := by
  obtain ⟨hkey, hpath⟩ := h.pathOf_leads hdots hleads
  rw [← h.accepts_append hkey]
  by_cases hroot : inode = Store.rootInode
  · subst hroot
    have hdirDots : ∀ s ∈ dir, s ≠ "." := fun s hs => (h.key s hs).2
    have hnil := h.shape.leads_eq_root (List.forall_mem_append.mpr ⟨hdirDots, hdots⟩)
      ((h.leads_append key).trans hleads)
    obtain ⟨rfl, rfl⟩ := List.append_eq_nil_iff.mp hnil
    exact h.accepts
  · rw [← hpath]
    exact haccepted inode
      (h.shape.node?_isSome_of_leads (store.isSome_node?_of_dir? h.isDir) hleads) hroot

theorem stat_of_leads (h : view.IsAt store dir) (haccepted : store.Accepted)
    (hdots : ∀ s ∈ key, s ≠ ".") (hleads : store.leads view.root key = some inode)
    (hnode : store.node? inode = some node) :
    view.stat store (Path.ofKey key) = .ok (node.entry.rebased (view.base store)) := by
  have hresolve : store.resolve view.root (Path.ofKey key) = store.descend view.root key :=
    Store.resolve_ofKey (h.pathOf_leads hdots hleads).1
      (h.accepts_of_leads haccepted hdots hleads)
  exact stat_eq_ok_iff.mpr
    ⟨inode, node, hresolve.trans (Store.descend_eq_ok_iff.mpr hleads), hnode, rfl⟩

/-- A walk shows exactly what names lead to. -/
theorem mem_visits_iff (h : view.IsAt store dir) {shown : Visit} :
    shown ∈ view.visits store ↔ ∃ key inode node, (∀ s ∈ key, s ≠ ".") ∧
      store.leads view.root key = some inode ∧ store.node? inode = some node ∧
      shown = (Path.ofKey key, node.entry.rebased (view.base store)) := by
  obtain ⟨d, hd⟩ := Option.isSome_iff_exists.mp h.isDir
  rw [View.visits_eq h.shape ((store.dir?_eq_some_iff).mp hd) rfl, List.mem_map]
  constructor
  · rintro ⟨⟨key, node⟩, hmet, rfl⟩
    obtain ⟨hdots, inode, hleads, hnode⟩ :=
      Store.leads_of_mem_atOrBelow ((store.dir?_eq_some_iff).mp hd) hmet
    exact ⟨key, inode, node, hdots, hleads, hnode, rfl⟩
  · rintro ⟨key, inode, node, hdots, hleads, hnode, rfl⟩
    exact ⟨(key, node), (Store.mem_atOrBelow_iff h.shape.toShape (by omega) hd).mpr
      ⟨hdots, inode, hleads, hnode⟩, rfl⟩

/-- What a walk shows is in the order of the names. -/
theorem visits_ascending (h : view.IsAt store dir) : (view.visits store).Pairwise
    fun shown later => Path.Precedes (Store.way shown.1) (Store.way later.1) := by
  obtain ⟨d, hd⟩ := Option.isSome_iff_exists.mp h.isDir
  have hnode := (store.dir?_eq_some_iff).mp hd
  have hway : ∀ met ∈ store.atOrBelow store.nodes.length view.root (.dir d),
      Store.way (Path.ofKey met.1) = met.1 := by
    rintro ⟨key, node⟩ hmet
    obtain ⟨hdots, inode, hleads, -⟩ := Store.leads_of_mem_atOrBelow hnode hmet
    exact Store.way_ofKey (h.pathOf_leads hdots hleads).1
  rw [View.visits_eq h.shape hnode rfl, List.pairwise_map]
  refine List.Pairwise.imp_of_mem (fun hmet hmet' hprecedes => ?_)
    (Store.atOrBelow_ascending_of_below (Store.below_ascending h.shape.toShape _ _))
  rw [hway _ hmet, hway _ hmet']
  exact hprecedes

/-- No node is shown twice: entries tell their nodes apart, and no two ways lead to one node. -/
theorem nodup_inodes (h : view.IsAt store dir) (hlabelled : store.Labelled) :
    ((view.visits store).map (·.2.attrs.inode)).Nodup := by
  rw [List.Nodup, List.pairwise_map]
  refine h.visits_ascending.imp_of_mem fun hshown hlater hprecedes heq => ?_
  obtain ⟨key, i, node, hdots, hleads, hnode, rfl⟩ := h.mem_visits_iff.mp hshown
  obtain ⟨key', i', node', hdots', hleads', hnode', rfl⟩ := h.mem_visits_iff.mp hlater
  rw [Entry.attrs_rebased, Entry.attrs_rebased, hlabelled.inode i node hnode,
    hlabelled.inode i' node' hnode'] at heq
  subst heq
  obtain rfl := h.shape.leads_inj_of_node? (store.isSome_node?_of_dir? h.isDir) hdots hdots'
    hleads hleads'
  exact Path.precedes_irrefl _ hprecedes

/-- Every node to which names lead is shown, and no other. -/
theorem mem_inodes_iff (h : view.IsAt store dir) (hlabelled : store.Labelled) :
    inode ∈ (view.visits store).map (·.2.attrs.inode) ↔
      ∃ names, (∀ s ∈ names, s ≠ ".") ∧ store.leads view.root names = some inode := by
  simp only [List.mem_map, h.mem_visits_iff]
  constructor
  · rintro ⟨_, ⟨key, i, node, hdots, hleads, hnode, rfl⟩, rfl⟩
    rw [Entry.attrs_rebased, hlabelled.inode i node hnode]
    exact ⟨key, hdots, hleads⟩
  · rintro ⟨key, hdots, hleads⟩
    obtain ⟨node, hnode⟩ := Option.isSome_iff_exists.mp
      (h.shape.node?_isSome_of_leads (store.isSome_node?_of_dir? h.isDir) hleads)
    refine ⟨_, ⟨key, inode, node, hdots, hleads, hnode, rfl⟩, ?_⟩
    rw [Entry.attrs_rebased, hlabelled.inode inode node hnode]

/-- The paths that are shown are those at which lookups succeed, without the segments that stay in
place. -/
theorem mem_paths_iff (h : view.IsAt store dir) (haccepted : store.Accepted) {path : String} :
    path ∈ (view.visits store).map (·.1) ↔
      ∃ asked segments entry, store.rules.split asked = .ok segments ∧
        view.stat store asked = .ok entry ∧ path = Path.ofKey (Store.moving segments) := by
  simp only [List.mem_map, h.mem_visits_iff]
  constructor
  · rintro ⟨_, ⟨key, i, node, hdots, hleads, hnode, rfl⟩, rfl⟩
    obtain ⟨segments, hsplit, rfl⟩ := Store.split_ofKey (h.pathOf_leads hdots hleads).1
      (h.accepts_of_leads haccepted hdots hleads)
    exact ⟨_, segments, _, hsplit, h.stat_of_leads haccepted hdots hleads hnode, rfl⟩
  · rintro ⟨asked, segments, entry, hsplit, hstat, rfl⟩
    obtain ⟨i, node, hfound, hnode, rfl⟩ := stat_eq_ok_iff.mp hstat
    obtain ⟨segments', hsplit', hleads⟩ := Store.resolve_eq_ok_iff.mp hfound
    obtain rfl := Except.ok.inj (hsplit.symm.trans hsplit')
    have hdots : ∀ s ∈ Store.moving segments, s ≠ "." := fun s hs => by
      simpa using (List.mem_filter.mp hs).2
    exact ⟨_, ⟨_, i, node, hdots, hleads, hnode, rfl⟩, rfl⟩

end IsAt

/-- What a walk of a view does. -/
structure Walked (view : View) (store : Store) : Prop where
  /-- The root of the view is shown first. -/
  first : (view.visits store).head?.map (·.1) = some "."
  /-- What is above comes before what is below it, and siblings come in the order of their names. -/
  ascending : (view.visits store).Pairwise
    fun shown later => Path.Precedes (Store.way shown.1) (Store.way later.1)
  /-- No node is shown twice. -/
  once : ((view.visits store).map (·.2.attrs.inode)).Nodup
  /-- Every node to which names lead is shown, and no other. -/
  every : ∀ inode, inode ∈ (view.visits store).map (·.2.attrs.inode) ↔
    ∃ names, (∀ s ∈ names, s ≠ ".") ∧ store.leads view.root names = some inode
  /-- The paths are those at which lookups succeed, without the segments that stay in place. -/
  paths : ∀ path, path ∈ (view.visits store).map (·.1) ↔
    ∃ asked segments entry, store.rules.split asked = .ok segments ∧
      view.stat store asked = .ok entry ∧ path = Path.ofKey (Store.moving segments)
  /-- An entry is shown at its own path, and a lookup there finds it. -/
  found : ∀ shown ∈ view.visits store,
    shown.2.path = shown.1 ∧ view.stat store shown.1 = .ok shown.2
  /-- A walk succeeds exactly if the visitor does so all the way. -/
  finishes : ∀ {σ : Type} (visit : Visitor σ) (s s' : σ),
    (view.walk store visit).run.run s = (.ok (), s') ↔ visit.Takes s (view.visits store) s'
  /-- A walk gives the first error of the visitor, which is shown nothing after that. -/
  stops : ∀ {σ : Type} (visit : Visitor σ) (s s' : σ) (e : FsError),
    (view.walk store visit).run.run s = (.error e, s') ↔
      ∃ front shown back sFront, view.visits store = front ++ shown :: back ∧
        visit.Takes s front sFront ∧ (visit shown).run.run sFront = (.error e, s')
  /-- The paths that match a pattern are those of the walk. -/
  matching : ∀ (patterns : Glob.Library) (pattern : String) (test : Bool → String → Bool),
    patterns.compile pattern = .ok test →
      view.glob store patterns pattern =
        .ok (((view.visits store).map (·.1)).filter (test true))
  /-- There is a line for each visit. -/
  listed : view.listing store = (view.visits store).map line

/-- A walk of any view of a tree whose nodes were made along tidy paths shows the root of the view,
and then every node below it once, in the order of the names, with the entry that a lookup at its
path finds. It ends early only if the visitor fails, and with the visitor's error. What is listed
and what matches a pattern is what the walk shows. -/
theorem walked_of_mem {session : Session} (hreach : session.TidilyReachable)
    (hrules : session.store.rules = .permissive ∨ session.store.rules = .strict)
    {view : View} (hview : view ∈ session.views) : view.Walked session.store := by
  obtain ⟨dir, h⟩ := exists_isAt hreach hrules hview
  constructor
  case first =>
    obtain ⟨d, hd⟩ := Option.isSome_iff_exists.mp h.isDir
    unfold visits
    rw [(session.store.dir?_eq_some_iff).mp hd]
    rfl
  case ascending => exact h.visits_ascending
  case once => exact h.nodup_inodes hreach.labelled
  case every => exact fun inode => h.mem_inodes_iff hreach.labelled
  case paths => exact fun path => h.mem_paths_iff hreach.accepted
  case found =>
    intro shown hshown
    obtain ⟨key, i, node, hdots, hleads, hnode, rfl⟩ := h.mem_visits_iff.mp hshown
    exact ⟨h.path_of_leads hdots hleads hnode,
      h.stat_of_leads hreach.accepted hdots hleads hnode⟩
  case finishes =>
    intro σ visit s s'
    rw [walk_eq]
    exact Visitor.run_forM_ok_iff
  case stops =>
    intro σ visit s s' e
    rw [walk_eq]
    exact Visitor.run_forM_error_iff
  case matching =>
    exact fun patterns pattern test hcompile => view.glob_eq session.store hcompile
  case listed => exact view.listing_eq session.store

end View

/-- A tree of three levels and a view of a directory in it. -/
def threeLevelsViewed : Session :=
  (threeLevels.step (fun k => k) (.view 0 (.sub "a"))).2

theorem walked_of_mem_threeLevelsViewed :
    threeLevelsViewed.TidilyReachable ∧ threeLevelsViewed.store.rules = .strict ∧
      ⟨2, false⟩ ∈ threeLevelsViewed.views ∧
      View.Walked ⟨2, false⟩ threeLevelsViewed.store ∧
      View.glob ⟨2, false⟩ threeLevelsViewed.store .shell "b/*" = .ok ["b/f"] := by
  have hbuild := Session.build_eq_ok Config.standard_valid (some .strict) 0
  have hreach : threeLevelsViewed.TidilyReachable :=
    .step (.step (.step (.build hbuild) (.inl (by rintro path ⟨⟩; decide)))
      (.inl (by rintro path ⟨⟩; decide))) (.inl (by rintro path ⟨⟩))
  have hview : ⟨2, false⟩ ∈ threeLevelsViewed.views := by decide +kernel
  exact ⟨hreach, rfl, hview, View.walked_of_mem hreach (.inr rfl) hview, by decide +kernel⟩

end VirtualFs.Tree
