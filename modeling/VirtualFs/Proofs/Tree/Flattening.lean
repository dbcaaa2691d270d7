import VirtualFs.Proofs.Tree.FlatMap
import VirtualFs.Proofs.Tree.TidyShape

namespace VirtualFs

/-- The clock does not go back. -/
def Clock.Monotone (clock : Clock) : Prop :=
  ∀ ⦃k l⦄, k ≤ l → clock k ≤ clock l

namespace Tree

/-- What a node is in a flat map. -/
def Node.item : Node → Flat.Item
  | .dir _ => .dir
  | .file c => .file c.active

/-- No node was made or changed after this time. -/
def Store.Timely (store : Store) (now : Time) : Prop :=
  ∀ i node, store.node? i = some node → node.entry.attrs.ctime ≤ now ∧ node.entry.attrs.mtime ≤ now

/-- The map is that of the tree, and the clock has not gone back behind the tree. -/
structure Flattens (clock : Clock) (store : Store) (map : Flat.Map) : Prop where
  shape : store.TidyShape
  permissive : store.rules = .permissive
  items : ∀ key, (∀ s ∈ key, s ≠ ".") →
    map.find key = (store.leads Store.rootInode key).bind fun i => (store.node? i).map Node.item
  keys : ∀ key item, (key, item) ∈ map → ∀ s ∈ key, s ≠ "."
  nodup : (map.map (·.1)).Nodup
  sizes : ∀ i c, store.cell? i = some c → c.active.length = c.entry.size
  timely : store.Timely (clock store.stage)

namespace Flattens

variable {clock : Clock} {store : Store} {map : Flat.Map} {key front names : List String}
  {i parent : Nat} {name : String} {node : Node}

theorem find_of_leads (h : Flattens clock store map) (hkey : ∀ s ∈ key, s ≠ ".")
    (hleads : store.leads Store.rootInode key = some i) (hnode : store.node? i = some node) :
    map.find key = some node.item := by
  rw [h.items key hkey, hleads, Option.bind_some, hnode]
  rfl

theorem find_of_not_leads (h : Flattens clock store map) (hkey : ∀ s ∈ key, s ≠ ".")
    (hleads : store.leads Store.rootInode key = none) : map.find key = none := by
  rw [h.items key hkey, hleads]
  rfl

theorem node?_of_leads (h : Flattens clock store map)
    (hleads : store.leads Store.rootInode key = some i) : ∃ node, store.node? i = some node :=
  Option.isSome_iff_exists.mp <| h.shape.node?_isSome_of_leads
    (store.isSome_node?_of_dir? h.shape.root) hleads

/-- Below a key that leads nowhere the map holds nothing. -/
theorem find_append_of_not_leads (h : Flattens clock store map) {back : List String}
    (hfront : ∀ s ∈ front, s ≠ ".") (hback : ∀ s ∈ back, s ≠ ".")
    (hleads : store.leads Store.rootInode front = none) : map.find (front ++ back) = none := by
  refine h.find_of_not_leads (fun s hs => ?_) ?_
  · exact (List.mem_append.mp hs).elim (hfront s) (hback s)
  · rw [Store.leads_append, hleads]
    rfl

theorem fileAlong_of_not_leads (h : Flattens clock store map) (hfront : ∀ s ∈ front, s ≠ ".")
    (hnames : ∀ s ∈ names, s ≠ ".") (hleads : store.leads Store.rootInode front = none) :
    map.fileAlong front names = false :=
  map.fileAlong_eq_false fun _ _ hback =>
    h.find_append_of_not_leads hfront (fun s hs => hnames s (hback.subset hs)) hleads

/-- The way is blocked in the tree exactly if there is a file along it in the map. -/
theorem blocked_iff (h : Flattens clock store map) (hfront : ∀ s ∈ front, s ≠ ".")
    (hnames : ∀ s ∈ names, s ≠ ".") (hleads : store.leads Store.rootInode front = some i)
    (hdir : (store.dir? i).isSome) :
    store.Blocked i names ↔ map.fileAlong front names.dropLast = true := by
  induction names generalizing front i with
  | nil => simp [Store.not_blocked_nil, Flat.Map.fileAlong]
  | cons name rest ih =>
    have hname : name ≠ "." := hnames name (List.mem_cons_self ..)
    have hrest : ∀ s ∈ rest, s ≠ "." := fun s hs => hnames s (List.mem_cons_of_mem _ hs)
    have hnext : ∀ s ∈ front ++ [name], s ≠ "." := Path.forall_mem_concat hfront hname
    have hstep := Store.leads_concat_of_leads hleads name
    by_cases hend : rest = []
    · subst hend
      cases hchild : store.child? i name with
      | none => simp [Store.not_blocked_of_child?_eq_none hdir hchild, Flat.Map.fileAlong]
      | some child =>
        simp [Store.blocked_cons_of_child? hchild, Store.not_blocked_nil, Flat.Map.fileAlong]
    rw [List.dropLast_cons_of_ne_nil hend, Flat.Map.fileAlong]
    have hfrontRest : ∀ s ∈ rest.dropLast, s ≠ "." := fun s hs =>
      hrest s ((List.dropLast_sublist _).subset hs)
    cases hchild : store.child? i name with
    | none =>
      rw [hchild] at hstep
      have hfind := h.find_of_not_leads hnext hstep
      simp [Store.not_blocked_of_child?_eq_none hdir hchild, hfind,
        h.fileAlong_of_not_leads hnext hfrontRest hstep]
    | some child =>
      rw [hchild, Option.map_some] at hstep
      obtain ⟨node, hnode⟩ := h.node?_of_leads hstep
      rw [Store.blocked_cons_of_child? hchild, h.find_of_leads hnext hstep hnode]
      cases node with
      | dir d =>
        have hchildDir : (store.dir? child.inode).isSome := by
          rw [(store.dir?_eq_some_iff).mpr hnode]
          rfl
        rw [ih hnext hrest hstep hchildDir]
        simp [Node.item, Flat.Item.isFile]
      | file c =>
        have hnone : store.dir? child.inode = none :=
          store.dir?_eq_none_of_cell? ((store.cell?_eq_some_iff).mpr hnode)
        simp only [Node.item, Option.any_some, Flat.Item.isFile, Bool.true_or, iff_true]
        exact ⟨[], rest, child.inode, rfl, hend, rfl, hnone⟩

/-- Descending along a key is looking it up. -/
theorem descend (h : Flattens clock store map) (hkey : ∀ s ∈ key, s ≠ ".") :
    (∃ i node, store.descend Store.rootInode key = .ok i ∧ store.node? i = some node ∧
      store.leads Store.rootInode key = some i ∧ map.stat key = .ok node.item) ∨
    ∃ e, store.descend Store.rootInode key = .error e ∧ map.stat key = .error e.kind := by
  have hblocked := h.blocked_iff (List.forall_mem_nil _) hkey rfl h.shape.root
  unfold Flat.Map.stat
  cases hdescend : store.descend Store.rootInode key with
  | ok i =>
    have hleads := Store.descend_eq_ok_iff.mp hdescend
    obtain ⟨node, hnode⟩ := h.node?_of_leads hleads
    have hopen : ¬ store.Blocked Store.rootInode key := by
      rintro ⟨front, rest, j, rfl, hrest, hfront, hnone⟩
      rw [Store.leads_append, hfront, Option.bind_some] at hleads
      have hdir := Store.dir?_isSome_of_leads hleads hrest
      simp [hnone] at hdir
    rw [if_neg fun hfile => hopen (hblocked.mpr hfile), h.find_of_leads hkey hleads hnode]
    exact .inl ⟨i, node, rfl, hnode, hleads, rfl⟩
  | error e =>
    refine .inr ⟨e, rfl, ?_⟩
    rcases Store.kind_of_descend h.shape.root hdescend with ⟨hfile, hkind⟩ | ⟨hopen, hkind⟩
    · rw [if_pos (hblocked.mp hfile), hkind]
    · have hnone : store.leads Store.rootInode key = none := by
        by_contra hsome
        obtain ⟨i, hi⟩ := Option.ne_none_iff_exists'.mp hsome
        rw [Store.descend_eq_ok_iff.mpr hi] at hdescend
        cases hdescend
      rw [if_neg fun hfile => hopen (hblocked.mpr hfile), h.find_of_not_leads hkey hnone, hkind]

/-- A file that changes in the tree changes in the map. -/
theorem modifyCell (h : Flattens clock store map) (hkey : ∀ s ∈ key, s ≠ ".") {c : Cell}
    (change : Cell → Cell) (hleads : store.leads Store.rootInode key = some i)
    (hcell : store.cell? i = some c)
    (hform : Node.form (.file (change c)) = Node.form (.file c))
    (hsize : (change c).active.length = (change c).entry.size)
    (hctime : (change c).entry.attrs.ctime ≤ clock store.stage)
    (hmtime : (change c).entry.attrs.mtime ≤ clock store.stage) :
    Flattens clock (store.modifyCell i change) (map.put key (.file (change c).active)) := by
  have hforms : Store.SameForms store (store.modifyCell i change) := by
    refine Store.sameForms_modifyCell fun c' hc' => ?_
    obtain rfl := Option.some.inj (hcell.symm.trans hc')
    exact hform
  have hnode : ∀ j, (store.modifyCell i change).node? j =
      if i = j then some (.file (change c)) else store.node? j := by
    intro j
    rw [Store.node?_modifyCell]
    by_cases hij : i = j
    · subst hij
      rw [(store.cell?_eq_some_iff).mp hcell]
      simp
    · rcases store.node? j with _ | (d | c) <;> simp [hij]
  refine ⟨hforms.tidyShape h.shape, by rw [Store.rules_modifyCell, h.permissive], ?_, ?_,
    map.nodup_put h.nodup key _, ?_, ?_⟩
  · intro query hquery
    rw [map.find_put, hforms.leads_eq, h.items query hquery]
    by_cases hsame : query = key
    · subst hsame
      rw [if_pos rfl, hleads, Option.bind_some, hnode, if_pos rfl]
      rfl
    · rw [if_neg hsame]
      cases hother : store.leads Store.rootInode query with
      | none => rfl
      | some j =>
        have hij : i ≠ j := by
          rintro rfl
          exact hsame (h.shape.leads_inj hquery hkey hother hleads)
        rw [Option.bind_some, Option.bind_some, hnode, if_neg hij]
  · intro query item hmem
    rcases map.mem_put hmem with rfl | hold
    · exact hkey
    · exact h.keys query item hold
  · intro j c' hc'
    rw [Store.cell?_modifyCell] at hc'
    split at hc'
    · next hij =>
      subst hij
      rw [hcell, Option.map_some, Option.some.injEq] at hc'
      rwa [← hc']
    · exact h.sizes j c' hc'
  · intro j node hj
    have hstage : (store.modifyCell i change).stage = store.stage := by
      rw [Store.stage, Store.nextInode_modifyCell, Store.stage]
    rw [hstage]
    rw [hnode] at hj
    split at hj
    · obtain rfl := Option.some.inj hj
      exact ⟨hctime, hmtime⟩
    · exact h.timely j node hj

/-- A new node stands at the key of its parent and its name. -/
theorem addNode (h : Flattens clock store map) (node : Node) (hclock : clock.Monotone)
    (hkey : ∀ s ∈ key, s ≠ ".") (hleads : store.leads Store.rootInode key = some parent)
    (hparent : (store.dir? parent).isSome) (hname : Path.IsTidyName name) (hdot : name ≠ ".")
    (hfree : store.child? parent name = none)
    (hpath : node.entry.path = Path.join (store.pathOf parent) name)
    (hkind : node.entry.isDir = node.isDir)
    (hfresh : ∀ d, node = .dir d → d = .empty store.nextInode d.entry ∧ d.entry.size = 0)
    (hempty : ∀ c, node = .file c → c.active.length = c.entry.size)
    (hctime : node.entry.attrs.ctime = clock store.stage)
    (hmtime : node.entry.attrs.mtime = clock store.stage) :
    Flattens clock (store.addNode parent name node) (map.put (key ++ [name]) node.item) := by
  have hitem : ∀ j, j ≠ store.nextInode →
      ((store.addNode parent name node).node? j).map Node.item =
        (store.node? j).map Node.item := by
    intro j hj
    rw [store.node?_addNode hparent, if_neg hj]
    rcases store.node? j with _ | (d | c) <;> rfl
  refine ⟨h.shape.addNode hparent hname hfree hpath hkind hfresh, ?_, ?_, ?_,
    map.nodup_put h.nodup _ _, ?_, ?_⟩
  · simpa [Store.addNode] using h.permissive
  · intro query hquery
    rw [map.find_put, Store.leads_addNode h.shape.toShape hkey hleads hparent hfree
      (fun d hd => (hfresh d hd).1) hquery]
    by_cases hnew : query = key ++ [name]
    · rw [if_pos hnew, if_pos hnew, Option.bind_some, store.node?_addNode hparent, if_pos rfl]
      rfl
    · rw [if_neg hnew, if_neg hnew, h.items query hquery]
      cases hother : store.leads Store.rootInode query with
      | none => rfl
      | some j =>
        obtain ⟨found, hfound⟩ := h.node?_of_leads hother
        have hj : j ≠ store.nextInode :=
          store.ne_nextInode_of_node? (by rw [hfound]; rfl)
        rw [Option.bind_some, Option.bind_some, hitem j hj]
  · intro query item hmem
    rcases map.mem_put hmem with rfl | hold
    · exact Path.forall_mem_concat hkey hdot
    · exact h.keys query item hold
  · intro j c hc
    rw [store.cell?_addNode hparent] at hc
    split at hc
    · cases node with
      | dir d => cases hc
      | file fresh =>
        obtain rfl := Option.some.inj hc
        exact hempty fresh rfl
    · exact h.sizes j c hc
  · intro j found hfound
    have hlater : clock store.stage ≤ clock (store.stage + 2) := hclock (Nat.le_add_right _ _)
    rw [Store.stage_addNode]
    rcases Store.node?_addNode_cases hparent hfound with ⟨-, rfl⟩ | ⟨old, hold, hentry, -⟩
    · exact ⟨hctime.trans_le hlater, hmtime.trans_le hlater⟩
    · rw [← hentry]
      exact ⟨(h.timely j old hold).1.trans hlater, (h.timely j old hold).2.trans hlater⟩

/-- The time of a directory follows the clock. -/
theorem touch (h : Flattens clock store map) {d : Directory} {now : Time}
    (hdir : store.dir? i = some d) (hctime : d.entry.attrs.ctime ≤ now)
    (hmtime : d.entry.attrs.mtime ≤ now) (hnow : now ≤ clock store.stage) :
    ∃ store', store.touch i now = (.ok (), store') ∧ Store.SameForms store store' ∧
      Flattens clock store' map := by
  have hentry := Entry.setModTime_of_le hctime hmtime
  have hforms := Store.sameForms_touch hdir hentry
  refine ⟨_, ?_, hforms, hforms.tidyShape h.shape, ?_, ?_, h.keys, h.nodup, ?_, ?_⟩
  · unfold Store.touch
    rw [hdir]
    simp only [hentry]
  · rw [Store.rules_modifyDir, h.permissive]
  · intro query hquery
    rw [hforms.leads_eq, h.items query hquery]
    congr
    funext j
    rw [Store.node?_modifyDir]
    rcases store.node? j with _ | (d' | c) <;> rfl
  · intro j c hc
    rw [Store.cell?_modifyDir] at hc
    exact h.sizes j c hc
  · intro j node hnode
    rw [Store.stage, Store.nextInode_modifyDir, ← Store.stage]
    rw [Store.node?_modifyDir] at hnode
    split at hnode
    · next other hother =>
      obtain rfl := Option.some.inj hnode
      simp only [Node.entry]
      split
      · exact ⟨hctime.trans hnow, hnow⟩
      · exact h.timely j _ hother
    · exact h.timely j node hnode

theorem create_permissive (path : String) (attrs : Attributes) :
    ∃ entry, Entry.create path attrs .permissive = .ok entry := by
  refine ⟨⟨if Path.cleaned path = "" then "." else Path.cleaned path, attrs⟩, ?_⟩
  unfold Entry.create
  rw [PathRules.clean_eq]
  rfl

/-- A directory that is made stands at its key, and the time of its parent follows. -/
theorem mkdirIn (h : Flattens clock store map) (hclock : clock.Monotone)
    (hkey : ∀ s ∈ key, s ≠ ".") (hleads : store.leads Store.rootInode key = some parent)
    (hparent : (store.dir? parent).isSome) (hname : Path.IsTidyName name) (hdot : name ≠ ".")
    (hfree : store.child? parent name = none) (mode : FileMode) :
    ∃ store', store.mkdirIn clock parent name mode = (.ok store.nextInode, store') ∧
      Flattens clock store' (map.put (key ++ [name]) .dir) ∧
      store'.leads Store.rootInode (key ++ [name]) = some store.nextInode ∧
      (store'.dir? store.nextInode).isSome := by
  obtain ⟨entry, hentry⟩ := create_permissive (Path.join (store.pathOf parent) name)
    (.createdAt (clock store.stage) mode.asDir store.nextInode)
  have hattrs := Entry.attrs_of_create hentry
  have hfresh : ∀ d, Node.dir (.empty store.nextInode entry) = .dir d →
      d = .empty store.nextInode d.entry ∧ d.entry.size = 0 := by
    rintro d hd
    obtain rfl := Node.dir.inj hd
    exact ⟨rfl, by simp [Directory.empty, Entry.size, hattrs, Attributes.createdAt]⟩
  have hgrown : Flattens clock (store.addNode parent name (.dir (.empty store.nextInode entry)))
      (map.put (key ++ [name]) .dir) := by
    refine h.addNode (.dir (.empty store.nextInode entry)) hclock hkey hleads hparent hname hdot
      hfree (h.shape.path_of_create hparent hname hdot hentry) ?_ hfresh
      (fun c hc => by cases hc) ?_ ?_
    · simp [Node.entry, Directory.empty, Entry.isDir, hattrs, Attributes.createdAt, Node.isDir]
    · simp [Node.entry, Directory.empty, hattrs, Attributes.createdAt]
    · simp [Node.entry, Directory.empty, hattrs, Attributes.createdAt]
  have hnext := Store.leads_addNode h.shape.toShape hkey hleads hparent hfree
    (fun d hd => (hfresh d hd).1) (Path.forall_mem_concat hkey hdot)
  rw [if_pos rfl] at hnext
  have hnextDir : ((store.addNode parent name (.dir (.empty store.nextInode entry))).dir?
      store.nextInode).isSome := by
    rw [store.dir?_addNode hparent, if_pos rfl]
    rfl
  obtain ⟨d, hd⟩ := Option.isSome_iff_exists.mp hparent
  have hparentOld : parent ≠ store.nextInode := store.ne_nextInode_of_dir? hparent
  have hparentDir : (store.addNode parent name (.dir (.empty store.nextInode entry))).dir? parent =
      some { d with children := d.children.insert name (.node store.nextInode) } := by
    rw [store.dir?_addNode hparent, if_neg hparentOld, if_pos rfl, hd]
    rfl
  -- The parent is as old as before, and the clock has only gone on since.
  obtain ⟨hctime, hmtime⟩ := h.timely parent (.dir d) ((store.dir?_eq_some_iff).mp hd)
  have hlater : clock store.stage ≤ clock (store.stage + 1) := hclock (Nat.le_succ _)
  obtain ⟨store', htouch, hforms, hflat⟩ := hgrown.touch hparentDir (hctime.trans hlater)
    (hmtime.trans hlater) (hclock (by rw [Store.stage_addNode]; omega))
  refine ⟨store', ?_, hflat, (hforms.leads_eq _).trans hnext, hforms.isSome_dir?.trans hnextDir⟩
  unfold Store.mkdirIn
  rw [if_neg hdot]
  simp only [hfree, Option.isSome_none, Bool.false_eq_true, if_false, h.permissive, hentry, htouch]

/-- A file that is made stands empty at its key. -/
theorem findOrCreate (h : Flattens clock store map) (hclock : clock.Monotone)
    (hkey : ∀ s ∈ key, s ≠ ".") (hleads : store.leads Store.rootInode key = some parent)
    (hparent : (store.dir? parent).isSome) (hname : Path.IsTidyName name) (hdot : name ≠ ".")
    (hfree : store.child? parent name = none) (mode : FileMode) :
    ∃ store' c, store.findOrCreate clock parent name mode = (.ok store.nextInode, store') ∧
      Flattens clock store' (map.put (key ++ [name]) (.file [])) ∧
      store'.leads Store.rootInode (key ++ [name]) = some store.nextInode ∧
      store'.cell? store.nextInode = some c ∧ c.size = 0 := by
  obtain ⟨entry, hentry⟩ := create_permissive (Path.join (store.pathOf parent) name)
    (.createdAt (clock store.stage) mode.asFile store.nextInode)
  have hattrs := Entry.attrs_of_create hentry
  have hnext : (store.addNode parent name
      (.file (.empty entry store.config.initialCapacity))).leads Store.rootInode (key ++ [name]) =
      some store.nextInode := by
    rw [Store.leads_addNode h.shape.toShape hkey hleads hparent hfree (fun d hd => by cases hd)
      (Path.forall_mem_concat hkey hdot), if_pos rfl]
  have hactive : (Cell.empty entry store.config.initialCapacity).active = [] := by
    simp [Cell.active, Cell.empty]
  have hgrown := h.addNode (.file (.empty entry store.config.initialCapacity)) hclock hkey hleads
    hparent hname hdot hfree (h.shape.path_of_create hparent hname hdot hentry)
    (by simp [Node.entry, Cell.empty, Entry.isDir, hattrs, Attributes.createdAt, Node.isDir])
    (fun d hd => by cases hd)
    (fun c hc => by
      obtain rfl := Node.file.inj hc
      rw [hactive]
      simp [Cell.empty, hattrs, Entry.size, Attributes.createdAt])
    (by simp [Node.entry, Cell.empty, hattrs, Attributes.createdAt])
    (by simp [Node.entry, Cell.empty, hattrs, Attributes.createdAt])
  rw [Node.item, hactive] at hgrown
  refine ⟨_, _, ?_, hgrown, hnext, by rw [store.cell?_addNode hparent, if_pos rfl], rfl⟩
  unfold Store.findOrCreate
  rw [hfree]
  simp only [h.permissive, hentry]

theorem keyOf_cons_of_ne {rest : List String} (hdot : name ≠ ".") :
    Flat.keyOf (name :: rest) = name :: Flat.keyOf rest := by
  simp [Flat.keyOf, hdot]

/-- Segments that are `"."` stand for nothing. -/
theorem keyOf_cons_dot (rest : List String) : Flat.keyOf ("." :: rest) = Flat.keyOf rest := by
  simp [Flat.keyOf]

theorem ne_dot_of_mem_keyOf {segments : List String} : ∀ s ∈ Flat.keyOf segments, s ≠ "." := by
  intro s hs
  simpa using (List.mem_filter.mp hs).2

/-- Making all directories along segments fails at a file, and then nothing was made before. -/
theorem mkdirAlong_of_fileAlong (h : Flattens clock store map) {segments : List String}
    (hfront : ∀ s ∈ front, s ≠ ".") (hleads : store.leads Store.rootInode front = some i)
    (hdir : (store.dir? i).isSome) (mode : FileMode)
    (hfile : map.fileAlong front (Flat.keyOf segments) = true) :
    ∃ e, store.mkdirAlong clock i mode segments = (.error e, store) ∧ e.kind = .notADirectory := by
  induction segments generalizing front i with
  | nil => cases hfile
  | cons name rest ih =>
    unfold Store.mkdirAlong
    by_cases hdot : name = "."
    · subst hdot
      rw [keyOf_cons_dot] at hfile
      rw [if_pos rfl]
      exact ih hfront hleads hdir hfile
    rw [if_neg hdot]
    rw [keyOf_cons_of_ne hdot, Flat.Map.fileAlong] at hfile
    have hnext : ∀ s ∈ front ++ [name], s ≠ "." := Path.forall_mem_concat hfront hdot
    have hstep := Store.leads_concat_of_leads hleads name
    cases hchild : store.child? i name with
    | none =>
      rw [hchild] at hstep
      rw [h.find_of_not_leads hnext hstep,
        h.fileAlong_of_not_leads hnext ne_dot_of_mem_keyOf hstep] at hfile
      cases hfile
    | some child =>
      rw [hchild, Option.map_some] at hstep
      obtain ⟨node, hnode⟩ := h.node?_of_leads hstep
      cases node with
      | dir d =>
        have hchildDir := (store.dir?_eq_some_iff).mpr hnode
        rw [h.find_of_leads hnext hstep hnode] at hfile
        simp only [hchildDir]
        exact ih hnext hstep (by rw [hchildDir]; rfl) hfile
      | file c =>
        have hnone : store.dir? child.inode = none :=
          store.dir?_eq_none_of_cell? ((store.cell?_eq_some_iff).mpr hnode)
        simp only [hnone]
        exact ⟨_, rfl, rfl⟩

/-- Without a file along the segments, what is missing is made. -/
theorem mkdirAlong (h : Flattens clock store map) (hclock : clock.Monotone)
    {segments : List String} (hfront : ∀ s ∈ front, s ≠ ".")
    (hnames : ∀ s ∈ segments, Path.IsTidyName s)
    (hleads : store.leads Store.rootInode front = some i) (hdir : (store.dir? i).isSome)
    (mode : FileMode) (hfile : map.fileAlong front (Flat.keyOf segments) = false) :
    ∃ j store', store.mkdirAlong clock i mode segments = (.ok j, store') ∧
      Flattens clock store' (map.fill front (Flat.keyOf segments)) ∧
      store'.leads Store.rootInode (front ++ Flat.keyOf segments) = some j ∧
      (store'.dir? j).isSome := by
  induction segments generalizing store map front i with
  | nil => exact ⟨i, store, rfl, h, by simpa [Flat.keyOf] using hleads, hdir⟩
  | cons name rest ih =>
    have hrest : ∀ s ∈ rest, Path.IsTidyName s := fun s hs => hnames s (List.mem_cons_of_mem _ hs)
    unfold Store.mkdirAlong
    by_cases hdot : name = "."
    · subst hdot
      rw [keyOf_cons_dot] at hfile ⊢
      rw [if_pos rfl]
      exact ih h hfront hrest hleads hdir hfile
    rw [if_neg hdot]
    rw [keyOf_cons_of_ne hdot, Flat.Map.fileAlong] at hfile
    rw [keyOf_cons_of_ne hdot, Flat.Map.fill]
    have hnext : ∀ s ∈ front ++ [name], s ≠ "." := Path.forall_mem_concat hfront hdot
    have hstep := Store.leads_concat_of_leads hleads name
    have hassoc : front ++ name :: Flat.keyOf rest = front ++ [name] ++ Flat.keyOf rest := by simp
    rw [hassoc]
    cases hchild : store.child? i name with
    | none =>
      rw [hchild] at hstep
      rw [h.find_of_not_leads hnext hstep]
      obtain ⟨store', hmade, hflat, hleads', hdir'⟩ :=
        h.mkdirIn hclock hfront hleads hdir (hnames name (by simp)) hdot hchild mode
      simp only [hmade]
      refine ih hflat hnext hrest hleads' hdir' ?_
      -- There was nothing at the new key, so there is nothing below it now.
      refine Flat.Map.fileAlong_eq_false _ fun back hback hfront => ?_
      have hdots : ∀ s ∈ back, s ≠ "." := fun s hs => ne_dot_of_mem_keyOf s (hfront.subset hs)
      have hbelow := h.find_append_of_not_leads hnext hdots hstep
      rw [Flat.Map.find_put, if_neg (by simpa using hback), hbelow]
    | some child =>
      rw [hchild, Option.map_some] at hstep
      obtain ⟨node, hnode⟩ := h.node?_of_leads hstep
      rw [h.find_of_leads hnext hstep hnode] at hfile ⊢
      cases node with
      | dir d =>
        have hchildDir := (store.dir?_eq_some_iff).mpr hnode
        simp only [hchildDir]
        exact ih h hnext hrest hstep (by rw [hchildDir]; rfl) hfile
      | file c => cases hfile

end Flattens

end Tree

end VirtualFs
