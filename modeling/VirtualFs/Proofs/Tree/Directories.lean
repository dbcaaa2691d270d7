import VirtualFs.Proofs.Tree.Making

namespace VirtualFs.Tree

/-- The directory after it received a new child at `now`. -/
def Directory.receive (d : Directory) (name : String) (inode : Nat) (now : Time) : Directory where
  entry := { d.entry with attrs := { d.entry.attrs with mtime := now } }
  children := d.children.insert name (.node inode)

theorem Directory.child?_receive {d : Directory} {name : String} {inode : Nat} {now : Time}
    (hfree : d.child? name = none) (query : String) :
    (d.receive name inode now).child? query =
      if query = name then some (.node inode) else d.child? query :=
  Children.lookup_insert hfree query

/-- The only name in a directory that received its first child. -/
theorem Directory.childNames_receive_empty {name : String} (hdot : name ≠ ".") (inode : Nat)
    (entry : Entry) (child : Nat) (now : Time) :
    ((Directory.empty inode entry).receive name child now).childNames = [name] := by
  have hname : (name != ".") = true := by simpa using hdot
  simp only [childNames, receive, empty, Children.insert]
  split <;> simp [hname]

/-- A new directory, also after it received a child: only the names in it are different. -/
theorem Directory.elim_receive_empty {rest : List String} (hrest : ∀ s ∈ rest, s ≠ ".")
    (inode : Nat) (entry : Entry) (child : Nat) (now : Time) {d : Directory}
    (hd : d = rest.head?.elim (.empty inode entry) fun name =>
      (Directory.empty inode entry).receive name child now) :
    d.entry.mode = entry.mode ∧ d.child? "." = some (.dot inode) ∧ d.childNames = rest.take 1 := by
  subst hd
  cases rest with
  | nil => exact ⟨rfl, by simp, rfl⟩
  | cons name more =>
    have hdot : name ≠ "." := hrest name (List.mem_cons_self ..)
    refine ⟨rfl, ?_, childNames_receive_empty hdot inode entry child now⟩
    simp only [List.head?_cons, Option.elim_some]
    rw [child?_receive (by simp [hdot]), if_neg hdot.symm]
    simp

namespace Store

variable {store middle grown : Store} {clock : Clock} {dir parent inode : Nat}
variable {name : String} {rest names front back : List String} {mode : FileMode} {d : Directory}

/-- What a directory is whose time could be set. -/
theorem eq_of_touch {now : Time} (hdir : store.dir? parent = some d)
    (htouch : store.touch parent now = (.ok (), grown)) :
    grown = store.modifyDir parent fun d' =>
      { d' with entry := { d.entry with attrs := { d.entry.attrs with mtime := now } } } := by
  unfold touch at htouch
  simp only [hdir] at htouch
  split at htouch
  · next entry hset =>
    obtain ⟨rfl, -, -⟩ := Entry.setModTime_eq_ok hset
    exact (Prod.mk.inj htouch).2.symm
  · cases htouch

/-- The time of a directory can be set if the clock is not behind it. -/
theorem touch_of_le {now : Time} (hdir : store.dir? parent = some d)
    (hctime : d.entry.attrs.ctime ≤ now) (hmtime : d.entry.attrs.mtime ≤ now) :
    ∃ touched, store.touch parent now = (.ok (), touched) := by
  have hset := Entry.setModTime_of_le hctime hmtime
  unfold touch
  simp only [hdir, hset, Prod.mk.injEq, true_and, exists_eq']

/-- Every node after a directory was made: the new one, its parent, and the others as they were. -/
theorem node?_of_mkdirIn (hparent : store.dir? parent = some d)
    (hmade : store.mkdirIn clock parent name mode = (.ok inode, grown)) :
    inode = store.nextInode ∧ grown.nextInode = store.nextInode + 1 ∧
      ∃ entry, entry.attrs.mode = mode.asDir ∧ ∀ i, grown.node? i =
        if i = store.nextInode then some (.dir (.empty store.nextInode entry))
        else if i = parent then
          some (.dir (d.receive name store.nextInode (clock (store.stage + 1))))
        else store.node? i := by
  obtain ⟨rfl, -, -, entry, hmode, htouch⟩ := mkdirIn_eq_ok hmade
  have hparentDir : (store.dir? parent).isSome := by rw [hparent]; rfl
  have hold := store.ne_nextInode_of_dir? hparentDir
  have hadded : (store.addNode parent name (.dir (.empty store.nextInode entry))).dir? parent =
      some { d with children := d.children.insert name (.node store.nextInode) } := by
    rw [store.dir?_addNode hparentDir, if_neg hold, if_pos rfl, hparent, Option.map_some]
  obtain rfl := eq_of_touch hadded htouch
  refine ⟨rfl, by rw [nextInode_modifyDir, nextInode_addNode], entry, hmode, fun i => ?_⟩
  rw [node?_modifyDir, store.node?_addNode hparentDir]
  by_cases hi : i = store.nextInode
  · subst hi
    simp [hold]
  · rw [if_neg hi, if_neg hi]
    by_cases hp : i = parent
    · subst hp
      simp [(store.dir?_eq_some_iff).mp hparent, Directory.receive]
    · rw [if_neg hp]
      rcases store.node? i with _ | (d' | c) <;> simp [Ne.symm hp]

/-- The directory that was just made has no children yet. -/
theorem child?_of_mkdirIn (hparent : (store.dir? parent).isSome)
    (hmade : store.mkdirIn clock parent name mode = (.ok inode, grown)) {query : String}
    (hdot : query ≠ ".") : grown.child? inode query = none := by
  obtain ⟨d, hd⟩ := Option.isSome_iff_exists.mp hparent
  obtain ⟨rfl, -, entry, -, hnodes⟩ := node?_of_mkdirIn hd hmade
  have hnew : grown.dir? store.nextInode = some (.empty store.nextInode entry) := by
    rw [grown.dir?_eq_some_iff, hnodes, if_pos rfl]
  rw [child?, hnew, Option.bind_some, Directory.child?_empty, if_neg hdot]

/-- One new directory for each of the names, each the only child of the one before it. The first one
was received by `parent`. -/
structure ChainMade (store grown : Store) (clock : Clock) (parent : Nat) (names : List String)
    (mode : FileMode) : Prop where
  nextInode : grown.nextInode = store.nextInode + names.length
  others : ∀ i, i < store.nextInode → i ≠ parent → grown.node? i = store.node? i
  received : ∀ d, store.dir? parent = some d → grown.dir? parent =
    some (names.head?.elim d fun name =>
      d.receive name store.nextInode (clock (store.stage + 1)))
  leads : ∀ k < names.length, grown.leads parent (names.take (k + 1)) = some (store.nextInode + k)
  made : ∀ k < names.length, ∃ d, grown.dir? (store.nextInode + k) = some d ∧
    d.entry.mode = mode.asDir ∧ d.child? "." = some (.dot (store.nextInode + k)) ∧
    d.childNames = (names.drop (k + 1)).take 1

namespace ChainMade

theorem nil (store : Store) (clock : Clock) (parent : Nat) (mode : FileMode) :
    ChainMade store store clock parent [] mode where
  nextInode := rfl
  others := fun _ _ _ => rfl
  received := fun _ hdir => hdir
  leads := fun _ hk => absurd hk (Nat.not_lt_zero _)
  made := fun _ hk => absurd hk (Nat.not_lt_zero _)

/-- The chain goes on below the directory that was just made. -/
theorem cons (hparent : store.dir? parent = some d) (hfree : store.child? parent name = none)
    (hmade : store.mkdirIn clock parent name mode = (.ok inode, middle))
    (hrest : ∀ s ∈ rest, s ≠ ".") (hchain : ChainMade middle grown clock inode rest mode) :
    ChainMade store grown clock parent (name :: rest) mode := by
  obtain ⟨rfl, hnext, entry, hmode, hnodes⟩ := node?_of_mkdirIn hparent hmade
  have hparentDir : (store.dir? parent).isSome := by rw [hparent]; rfl
  have hne := store.ne_nextInode_of_dir? hparentDir
  have hlt := store.lt_nextInode_of_node? (store.isSome_node?_of_dir? hparentDir)
  have hfirst : middle.dir? store.nextInode = some (.empty store.nextInode entry) := by
    rw [middle.dir?_eq_some_iff, hnodes, if_pos rfl]
  have hparentLater : grown.dir? parent =
      some (d.receive name store.nextInode (clock (store.stage + 1))) := by
    rw [grown.dir?_eq_some_iff, hchain.others parent (by omega) hne, hnodes, if_neg hne,
      if_pos rfl]
  have hstep : grown.child? parent name = some (.node store.nextInode) := by
    rw [child?, hparent] at hfree
    rw [child?, hparentLater, Option.bind_some, Directory.child?_receive hfree, if_pos rfl]
  have hshift : ∀ k, middle.nextInode + k = store.nextInode + (k + 1) := fun k => by omega
  constructor
  case nextInode =>
    rw [hchain.nextInode, hnext, List.length_cons]
    omega
  case others =>
    intro i hi hparent'
    rw [hchain.others i (by omega) (by omega), hnodes, if_neg (by omega), if_neg hparent']
  case received =>
    intro d' hd'
    obtain rfl := Option.some.inj (hparent.symm.trans hd')
    exact hparentLater
  case leads =>
    intro k hk
    rw [List.take_succ_cons, leads_cons, hstep, Option.bind_some]
    cases k with
    | zero => rfl
    | succ k =>
      rw [← hshift]
      exact hchain.leads k (by simpa using hk)
  case made =>
    intro k hk
    cases k with
    | zero =>
      obtain ⟨hkept, hself, hnames⟩ := Directory.elim_receive_empty hrest store.nextInode entry
        middle.nextInode (clock (middle.stage + 1)) rfl
      exact ⟨_, hchain.received _ hfirst, hkept.trans hmode, hself, hnames⟩
    | succ k =>
      rw [← hshift, List.drop_succ_cons]
      exact hchain.made k (by simpa using hk)

end ChainMade

/-- Making directories along names none of which is there makes a chain of them. -/
theorem chainMade_of_mkdirAlong (hparent : (store.dir? parent).isSome)
    (hdots : ∀ s ∈ names, s ≠ ".") (hfree : ∀ s ∈ names.head?, store.child? parent s = none)
    (hmade : store.mkdirAlong clock parent mode names = (.ok inode, grown)) :
    ChainMade store grown clock parent names mode := by
  induction names generalizing store parent with
  | nil =>
    obtain ⟨-, rfl⟩ := Prod.mk.inj hmade
    exact .nil store clock parent mode
  | cons name rest ih =>
    obtain ⟨hdot, hrest⟩ := List.forall_mem_cons.mp hdots
    obtain ⟨d, hd⟩ := Option.isSome_iff_exists.mp hparent
    have hname : store.child? parent name = none := hfree name rfl
    unfold mkdirAlong at hmade
    rw [if_neg hdot, hname] at hmade
    simp only at hmade
    split at hmade
    · next first middle hfirst =>
      exact .cons hd hname hfirst hrest (ih (dir?_of_mkdirIn hparent hfirst) hrest
        (fun s hs => child?_of_mkdirIn hparent hfirst (hrest s (List.mem_of_mem_head? hs))) hmade)
    · cases hmade

/-- A file stands at a prefix of the names, or at all of them. -/
def FileAlong (store : Store) (dir : Nat) (names : List String) : Prop :=
  ∃ front i, front <+: names ∧ store.leads dir front = some i ∧ (store.cell? i).isSome

/-- The names lead through directories up to `parent`, and the next one is missing there. -/
structure Parting (store : Store) (dir : Nat) (front back : List String) (parent : Nat) : Prop where
  leads : store.leads dir front = some parent
  dir : (store.dir? parent).isSome
  free : ∀ s ∈ back.head?, store.child? parent s = none

theorem not_isSome_cell?_of_dir? (hdir : (store.dir? inode).isSome) :
    ¬ (store.cell? inode).isSome := by
  intro hcell
  obtain ⟨c, hc⟩ := Option.isSome_iff_exists.mp hcell
  rw [store.dir?_eq_none_of_cell? hc] at hdir
  cases hdir

/-- Behind a child there is a file along the names if there is one from the child on. -/
theorem fileAlong_cons {child : Child} (hchild : store.child? dir name = some child) :
    store.FileAlong dir (name :: rest) ↔ store.FileAlong child.inode rest := by
  constructor
  · rintro ⟨front, i, hfront, hleads, hcell⟩
    cases front with
    | nil =>
      obtain rfl := Option.some.inj hleads
      exact absurd hcell (not_isSome_cell?_of_dir? (dir?_isSome_of_child? hchild))
    | cons first front =>
      obtain ⟨rfl, hmore⟩ := List.cons_prefix_cons.mp hfront
      rw [leads_cons, hchild, Option.bind_some] at hleads
      exact ⟨front, i, hmore, hleads, hcell⟩
  · rintro ⟨front, i, hfront, hleads, hcell⟩
    refine ⟨name :: front, i, List.cons_prefix_cons.mpr ⟨rfl, hfront⟩, ?_, hcell⟩
    rw [leads_cons, hchild, Option.bind_some, hleads]

/-- A file along the names is met before anything was made. -/
theorem mkdirAlong_of_fileAlong (hdir : (store.dir? dir).isSome) (hdots : ∀ s ∈ names, s ≠ ".")
    (hfile : store.FileAlong dir names) (clock : Clock) (mode : FileMode) :
    ∃ e, store.mkdirAlong clock dir mode names = (.error e, store) ∧ e.kind = .notADirectory := by
  induction names generalizing dir with
  | nil =>
    obtain ⟨front, i, hfront, hleads, hcell⟩ := hfile
    obtain rfl := List.prefix_nil.mp hfront
    obtain rfl := Option.some.inj hleads
    exact absurd hcell (not_isSome_cell?_of_dir? hdir)
  | cons name rest ih =>
    obtain ⟨hdot, hrest⟩ := List.forall_mem_cons.mp hdots
    unfold mkdirAlong
    rw [if_neg hdot]
    cases hchild : store.child? dir name with
    | none =>
      obtain ⟨front, i, hfront, hleads, hcell⟩ := hfile
      cases front with
      | nil =>
        obtain rfl := Option.some.inj hleads
        exact absurd hcell (not_isSome_cell?_of_dir? hdir)
      | cons first front =>
        obtain ⟨rfl, -⟩ := List.cons_prefix_cons.mp hfront
        rw [leads_cons, hchild] at hleads
        cases hleads
    | some child =>
      simp only
      cases hinner : store.dir? child.inode with
      | some d => exact ih (by rw [hinner]; rfl) hrest ((fileAlong_cons hchild).mp hfile)
      | none => exact ⟨_, rfl, rfl⟩

namespace Parting

/-- What lies behind the parting is missing. -/
theorem leads_eq_none (hparting : store.Parting dir front back parent) {part : List String}
    (hpart : part <+: back) (hne : part ≠ []) : store.leads parent part = none := by
  cases part with
  | nil => exact absurd rfl hne
  | cons first more =>
    obtain ⟨rest, rfl⟩ := hpart
    rw [leads_cons, hparting.free first rfl]
    rfl

/-- A prefix of all names either leads to the parting or goes beyond it. -/
theorem of_prefix (hparting : store.Parting dir front back parent)
    (hnames : names <+: front ++ back) :
    (names <+: front ∧ (store.leads dir names).isSome) ∨
      ∃ part, part <+: back ∧ part ≠ [] ∧ names = front ++ part ∧
        store.leads dir names = none := by
  rcases List.prefix_or_prefix_of_prefix hnames (List.prefix_append front back) with
    hshort | ⟨part, rfl⟩
  · refine .inl ⟨hshort, ?_⟩
    obtain ⟨more, rfl⟩ := hshort
    have hleads := hparting.leads
    rw [leads_append] at hleads
    exact Option.isSome_of_isSome_bind (by rw [hleads]; rfl)
  · by_cases hne : part = []
    · subst hne
      rw [List.append_nil]
      exact .inl ⟨List.prefix_refl front, by rw [hparting.leads]; rfl⟩
    · have hpart : part <+: back := (List.prefix_append_right_inj front).mp hnames
      refine .inr ⟨part, hpart, hne, rfl, ?_⟩
      rw [leads_append, hparting.leads, Option.bind_some, hparting.leads_eq_none hpart hne]

/-- No file stands along the names that part from what is there. -/
theorem not_fileAlong (hparting : store.Parting dir front back parent) :
    ¬ store.FileAlong dir (front ++ back) := by
  rintro ⟨names, i, hnames, hleads, hcell⟩
  rcases hparting.of_prefix hnames with ⟨⟨more, rfl⟩, -⟩ | ⟨-, -, -, -, hnone⟩
  · have hrest := hparting.leads
    rw [leads_append, hleads, Option.bind_some] at hrest
    refine not_isSome_cell?_of_dir? ?_ hcell
    by_cases hmore : more = []
    · subst hmore
      obtain rfl := Option.some.inj hrest
      exact hparting.dir
    · exact dir?_isSome_of_leads hrest hmore
  · rw [hleads] at hnone
    cases hnone

/-- Nothing is done up to the parting. -/
theorem mkdirAlong_eq (hparting : store.Parting dir front back parent)
    (hdots : ∀ s ∈ front, s ≠ ".") :
    store.mkdirAlong clock dir mode (front ++ back) = store.mkdirAlong clock parent mode back :=
  mkdirAlong_append hdots hparting.leads hparting.dir

end Parting

/-- Names lead to a file on their way, or they part from what is there. -/
theorem fileAlong_or_parting (hshape : store.Shape) (hdir : (store.dir? dir).isSome)
    (hdots : ∀ s ∈ names, s ≠ ".") :
    store.FileAlong dir names ∨
      ∃ front back parent, names = front ++ back ∧ store.Parting dir front back parent := by
  induction names generalizing dir with
  | nil => exact .inr ⟨[], [], dir, rfl, rfl, hdir, fun s hs => by cases hs⟩
  | cons name rest ih =>
    obtain ⟨hdot, hrest⟩ := List.forall_mem_cons.mp hdots
    cases hchild : store.child? dir name with
    | none =>
      refine .inr ⟨[], name :: rest, dir, rfl, rfl, hdir, fun s hs => ?_⟩
      obtain rfl := Option.some.inj hs
      exact hchild
    | some child =>
      have hnode := (hshape.edge dir name child.inode
        (hchild.trans (congrArg some (hshape.child?_eq hchild hdot)))).2.1
      rcases store.node?_isSome_iff.mp hnode with hinner | hcell
      · refine (ih hinner hrest).imp (fileAlong_cons hchild).mpr ?_
        rintro ⟨front, back, parent, rfl, hparting⟩
        refine ⟨name :: front, back, parent, rfl, ?_, hparting.dir, hparting.free⟩
        rw [leads_cons, hchild, Option.bind_some, hparting.leads]
      · refine .inl ⟨[name], child.inode, ⟨rest, rfl⟩, ?_, hcell⟩
        rw [leads_cons, hchild]
        rfl

/-- The new nodes are the missing prefixes of the names, each a directory with the mode that was
asked for and with the next prefix as its only child. Of the nodes that were there only the
directory that received the first of them is different, by this child and its time. -/
structure MissingMade (store grown : Store) (clock : Clock) (dir : Nat) (names : List String)
    (mode : FileMode) : Prop where
  found : ∃ i, grown.leads dir names = some i ∧ (grown.dir? i).isSome
  made : ∀ front, front <+: names → store.leads dir front = none → ∃ i d,
    grown.leads dir front = some i ∧ store.node? i = none ∧ grown.dir? i = some d ∧
      d.entry.mode = mode.asDir ∧ d.child? "." = some (.dot i) ∧
      d.childNames = (names.drop front.length).take 1
  fresh : ∀ i, store.node? i = none → (grown.node? i).isSome → ∃ front,
    front <+: names ∧ store.leads dir front = none ∧ grown.leads dir front = some i
  kept : ∀ i node, store.node? i = some node → grown.node? i = some node ∨
    ∃ front name d j, front ++ [name] <+: names ∧ store.leads dir front = some i ∧
      store.leads dir (front ++ [name]) = none ∧ grown.leads dir (front ++ [name]) = some j ∧
      node = .dir d ∧
      grown.node? i = some (.dir (d.receive name j (clock (store.stage + 1))))

/-- A part of the names that is not empty is the names up to one of them. -/
theorem exists_take_of_prefix {part : List String} (hpart : part <+: back) (hne : part ≠ []) :
    ∃ k < back.length, part = back.take (k + 1) ∧ part.length = k + 1 := by
  have hle := hpart.length_le
  have hpos := List.length_pos_of_ne_nil hne
  refine ⟨part.length - 1, by omega, ?_, by omega⟩
  rw [Nat.sub_add_cancel hpos]
  exact List.prefix_iff_eq_take.mp hpart

/-- A chain behind a parting makes what is missing. -/
theorem Parting.missingMade (hparting : store.Parting dir front back parent)
    (hgrown : ∀ {key i}, store.leads dir key = some i → grown.leads dir key = some i)
    (hchain : ChainMade store grown clock parent back mode)
    (hfound : ∃ i, grown.leads dir (front ++ back) = some i ∧ (grown.dir? i).isSome) :
    MissingMade store grown clock dir (front ++ back) mode := by
  have hlater : ∀ k < back.length, store.leads dir (front ++ back.take (k + 1)) = none ∧
      grown.leads dir (front ++ back.take (k + 1)) = some (store.nextInode + k) := by
    intro k hk
    have hne : back.take (k + 1) ≠ [] := by
      rw [ne_eq, List.take_eq_nil_iff]
      rintro (h | rfl)
      · cases h
      · cases hk
    rw [leads_append, leads_append, hparting.leads, hgrown hparting.leads, Option.bind_some,
      Option.bind_some]
    exact ⟨hparting.leads_eq_none (List.take_prefix _ _) hne, hchain.leads k hk⟩
  have hnew : ∀ k, store.node? (store.nextInode + k) = none := by
    intro k
    by_contra hnode
    have hlt := store.lt_nextInode_of_node? (Option.isSome_iff_ne_none.mpr hnode)
    omega
  refine ⟨hfound, ?_, ?_, ?_⟩
  · intro names hnames hnone
    rcases hparting.of_prefix hnames with ⟨-, hsome⟩ | ⟨part, hpart, hne, rfl, -⟩
    · rw [hnone] at hsome
      cases hsome
    · obtain ⟨k, hk, htake, hlength⟩ := exists_take_of_prefix hpart hne
      obtain ⟨d, hd, hmode, hself, hchildren⟩ := hchain.made k hk
      refine ⟨store.nextInode + k, d, ?_, hnew k, hd, hmode, hself, ?_⟩
      · rw [htake, (hlater k hk).2]
      · have hdrop : (front ++ back).drop (front.length + (k + 1)) = back.drop (k + 1) := by
          rw [← List.drop_drop, List.drop_left]
        rw [hchildren, List.length_append, hlength, hdrop]
  · intro i hnone hsome
    have hlt := grown.lt_nextInode_of_node? hsome
    rw [hchain.nextInode] at hlt
    by_cases hold : i < store.nextInode
    · have hne : i ≠ parent := by
        rintro rfl
        have hdir := store.isSome_node?_of_dir? hparting.dir
        rw [hnone] at hdir
        cases hdir
      rw [hchain.others i hold hne, hnone] at hsome
      cases hsome
    · obtain ⟨k, rfl⟩ := Nat.exists_eq_add_of_le (Nat.le_of_not_lt hold)
      have hk : k < back.length := by omega
      exact ⟨front ++ back.take (k + 1),
        (List.prefix_append_right_inj front).mpr (List.take_prefix _ _), hlater k hk⟩
  · intro i node hnode
    have hlt := store.lt_nextInode_of_node? (by rw [hnode]; rfl)
    by_cases hi : i = parent
    · subst hi
      obtain ⟨d, hd⟩ := Option.isSome_iff_exists.mp hparting.dir
      have hreceived := hchain.received d hd
      rw [(store.dir?_eq_some_iff).mp hd] at hnode
      obtain rfl := Option.some.inj hnode
      cases back with
      | nil => exact .inl ((grown.dir?_eq_some_iff).mp hreceived)
      | cons name rest =>
        obtain ⟨hnone, hsome⟩ := hlater 0 (by simp)
        exact .inr ⟨front, name, d, store.nextInode,
          (List.prefix_append_right_inj front).mpr ⟨rest, rfl⟩, hparting.leads, hnone, hsome, rfl,
          (grown.dir?_eq_some_iff).mp hreceived⟩
    · exact .inl (by rw [hchain.others i hlt hi, hnode])

/-- Whenever directories were made along names, they are those that were missing. -/
theorem missingMade_of_mkdirAlong (hshape : store.Shape) (hdir : (store.dir? dir).isSome)
    (hdots : ∀ s ∈ names, s ≠ ".")
    (hmade : store.mkdirAlong clock dir mode names = (.ok inode, grown)) :
    MissingMade store grown clock dir names mode := by
  rcases fileAlong_or_parting hshape hdir hdots with
    hfile | ⟨front, back, parent, rfl, hparting⟩
  · obtain ⟨e, hfail, -⟩ := mkdirAlong_of_fileAlong hdir hdots hfile clock mode
    rw [hmade] at hfail
    cases hfail
  · obtain ⟨hfront, hback⟩ := List.forall_mem_append.mp hdots
    obtain ⟨hgrown, hleads⟩ := mkdirAlong_grownAlong hdir hmade
    have hmoving : moving (front ++ back) = front ++ back :=
      List.filter_eq_self.mpr fun s hs => by simpa using hdots s hs
    rw [hmoving] at hleads
    have hinode := dir?_of_mkdirAlong hdir hmade
    rw [hparting.mkdirAlong_eq hfront] at hmade
    exact hparting.missingMade hgrown.changes.leads_eq_some
      (chainMade_of_mkdirAlong hparting.dir hback hparting.free hmade) ⟨inode, hleads, hinode⟩

/-- Where the names lead to a directory already nothing is made. -/
theorem mkdirAlong_of_found (hdots : ∀ s ∈ names, s ≠ ".")
    (hleads : store.leads dir names = some inode) (hinode : (store.dir? inode).isSome)
    (clock : Clock) (mode : FileMode) :
    store.mkdirAlong clock dir mode names = (.ok inode, store) := by
  have hthrough : store.mkdirAlong clock dir mode (names ++ []) =
      store.mkdirAlong clock inode mode [] := mkdirAlong_append hdots hleads hinode
  rwa [List.append_nil] at hthrough

end Store

end VirtualFs.Tree
