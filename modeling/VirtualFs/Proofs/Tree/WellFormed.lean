import VirtualFs.Proofs.Tree.Lasting
import VirtualFs.Proofs.Tree.TidyShape

namespace VirtualFs.Tree

namespace Children

variable {children rest : Children} {name : String} {child : Child}

/-- No name stands in the order twice. -/
theorem Sorted.ne_of_mem (hsorted : Sorted ((name, child) :: rest)) {other : String × Child}
    (hmem : other ∈ rest) : other.1 ≠ name := by
  intro hsame
  simp only [Sorted, List.map_cons, List.pairwise_cons] at hsorted
  have hbefore := hsorted.1 other.1 (List.mem_map_of_mem hmem)
  simp [hsame] at hbefore

theorem Sorted.tail (hsorted : Sorted ((name, child) :: rest)) : rest.Sorted :=
  (List.pairwise_cons.mp hsorted).2

/-- Whatever stands under a name is found under it. -/
theorem Sorted.lookup_of_mem (hsorted : children.Sorted) (hmem : (name, child) ∈ children) :
    children.lookup name = some child := by
  induction children with
  | nil => cases hmem
  | cons head rest ih =>
    rw [lookup_cons]
    rcases List.mem_cons.mp hmem with rfl | hrest
    · rw [if_pos rfl]
    · rw [if_neg (hsorted.ne_of_mem hrest), ih hsorted.tail hrest]

/-- What is found under a name is all that stands under it. -/
theorem Sorted.filter_eq_singleton (hsorted : children.Sorted)
    (hchild : children.lookup name = some child) :
    children.filter (·.1 == name) = [(name, child)] := by
  induction children with
  | nil => cases hchild
  | cons head rest ih =>
    rw [lookup_cons] at hchild
    split at hchild
    · next hname =>
      have hothers : rest.filter (·.1 == name) = [] := by
        rw [List.filter_eq_nil_iff]
        intro other hmem
        rw [hname, beq_iff_eq]
        exact hsorted.ne_of_mem hmem
      obtain rfl := Option.some.inj hchild
      rw [List.filter_cons_of_pos (by simp [hname]), hothers, hname]
    · next hname =>
      rw [List.filter_cons_of_neg (by simp [Ne.symm hname]), ih hsorted.tail hchild]

end Children

namespace Store

/-- What makes a tree well formed. -/
structure WellFormed (store : Store) : Prop where
  /-- Under the name `"."` a directory has itself, by its number, and nothing else. -/
  self : ∀ i d, store.dir? i = some d →
    d.children.filter (·.1 == ".") = [(".", .dot d.entry.attrs.inode)]
  hidden : ∀ i, "." ∉ store.childNames i
  /-- Every other child is a node under a name that can be a segment. -/
  named : ∀ i d name child, store.dir? i = some d → (name, child) ∈ d.children → name ≠ "." →
    Path.IsSegment name ∧ ∃ j, child = .node j ∧ (store.node? j).isSome
  rootPath : (store.dir? rootInode).isSome ∧ store.pathOf rootInode = "."
  /-- The root stands in no directory. -/
  rootApart : ∀ parent name, store.child? parent name ≠ some (.node rootInode)
  /-- Every node but the root has one place, and its path is that of the place. -/
  placed : ∀ i, (store.node? i).isSome → i ≠ rootInode →
    ∃ parent name, store.child? parent name = some (.node i) ∧
      store.pathOf i = Path.join (store.pathOf parent) name ∧
      ∀ parent' name', store.child? parent' name' = some (.node i) →
        parent' = parent ∧ name' = name
  dirMode : ∀ i d, store.dir? i = some d → ∃ bits, d.entry.mode = .dir bits
  fileMode : ∀ i c, store.cell? i = some c → ∃ bits, c.entry.mode = .file bits
  /-- No number is zero, none is above those given out, and none belongs to two nodes. -/
  numbered : ∀ i node, store.node? i = some node →
    0 < node.entry.attrs.inode ∧ node.entry.attrs.inode < store.nextInode
  distinct : ∀ i j a b, store.node? i = some a → store.node? j = some b →
    a.entry.attrs.inode = b.entry.attrs.inode → i = j
  /-- The number of a directory leads to that very directory, and so does the one that it has under
  `"."`, by which handles find it. -/
  table : ∀ i d, store.dir? i = some d → store.dir? d.entry.attrs.inode = some d ∧
    ∀ child, (".", child) ∈ d.children → store.dir? child.inode = some d

/-- A tree of tidy names with the right numbers and types is well formed. -/
theorem TidyShape.wellFormed {store : Store} (hshape : store.TidyShape)
    (hlabelled : store.Labelled) : store.WellFormed := by
  have hnumber : ∀ {i d}, store.dir? i = some d → d.entry.attrs.inode = i := fun hdir =>
    hlabelled.inode _ _ ((store.dir?_eq_some_iff).mp hdir)
  have hlookup : ∀ {i d} (name : String), store.dir? i = some d →
      store.child? i name = d.children.lookup name := by
    intro i d name hdir
    rw [child?, hdir]
    rfl
  have hself : ∀ {i d}, store.dir? i = some d → d.children.lookup "." = some (.dot i) := by
    intro i d hdir
    rw [← hlookup "." hdir]
    exact hshape.self i (by rw [hdir]; rfl)
  constructor
  case self =>
    intro i d hdir
    rw [hnumber hdir]
    exact (hshape.sorted i d hdir).filter_eq_singleton (hself hdir)
  case hidden =>
    intro i hmem
    exact ((store.mem_childNames_iff).mp hmem).2 rfl
  case named =>
    intro i d name child hdir hmem hdot
    have hchild : store.child? i name = some child := by
      rw [hlookup name hdir]
      exact (hshape.sorted i d hdir).lookup_of_mem hmem
    have hedge := hshape.child?_eq hchild hdot
    rw [hedge] at hchild
    exact ⟨(hshape.child i name _ hchild).1.1, child.inode, hedge,
      (hshape.edge i name _ hchild).2.1⟩
  case rootPath => exact ⟨hshape.root, hshape.rootPath⟩
  case rootApart =>
    intro parent name hchild
    -- What stands in a directory is younger than it, and nothing is older than the root.
    obtain rfl : parent = 0 := Nat.lt_one_iff.mp (hshape.edge _ _ _ hchild).1
    cases hchild
  case placed =>
    intro i hnode hroot
    obtain ⟨key, hkey, hleads⟩ := hshape.reached i hnode
    rcases List.eq_nil_or_concat' key with rfl | ⟨front, name, rfl⟩
    · exact absurd (Option.some.inj hleads).symm hroot
    · obtain ⟨parent, -, hchild⟩ := hshape.parent_of_leads_concat (hkey name (by simp)) hleads
      exact ⟨parent, name, hchild, (hshape.child parent name i hchild).2,
        fun parent' name' hchild' => hshape.place _ _ _ _ _ hchild' hchild⟩
  case dirMode =>
    intro i d hdir
    exact hlabelled.mode i _ ((store.dir?_eq_some_iff).mp hdir)
  case fileMode =>
    intro i c hcell
    exact hlabelled.mode i _ ((store.cell?_eq_some_iff).mp hcell)
  case numbered =>
    intro i node hnode
    have hbound := store.lt_nextInode_of_node? (by rw [hnode]; rfl : (store.node? i).isSome)
    rw [hlabelled.inode i node hnode]
    refine ⟨Nat.pos_of_ne_zero ?_, hbound⟩
    rintro rfl
    cases hnode
  case distinct =>
    intro i j a b ha hb hsame
    rwa [hlabelled.inode i a ha, hlabelled.inode j b hb] at hsame
  case table =>
    intro i d hdir
    refine ⟨by rwa [hnumber hdir], fun child hmem => ?_⟩
    have hchild := (hshape.sorted i d hdir).lookup_of_mem hmem
    obtain rfl := Option.some.inj ((hself hdir).symm.trans hchild)
    exact hdir

end Store

/-- In every session all of whose nodes were made along tidy paths, whatever the rules and the modes
were and through whichever views and handles the commands went, the tree is well formed. -/
theorem wellFormed_of_tidilyReachable {session : Session} (hreach : session.TidilyReachable) :
    session.store.WellFormed :=
  hreach.tidyShape.wellFormed hreach.labelled

/-- Nodes made in all the ways there are, with modes whose type bits are of no use. -/
def makings : List (Clock × Command) :=
  [(fun k => k, .view 0 (.mkdir "a" ⟨0xFFFFFFFF⟩)),
    (fun k => k, .view 0 (.mkdirAll "a/./b/" ⟨0o100777⟩)), (fun k => k, .view 0 (.sub "a")),
    (fun k => k, .view 1 (.openFile "c/f" .create ⟨0o177777⟩)),
    (fun k => k, .view 1 (.openFile "./d/." .create ⟨0o040700⟩)),
    (fun k => k, .view 1 (.mkdir "e/." ⟨0⟩)), (fun k => k, .view 1 (.writeFile "b" [1] ⟨0⟩))]

/-- A tree with nodes made in all these ways. -/
def manyMade : Session :=
  ((Session.create .standard .permissive 0).run makings).2

theorem wellFormed_manyMade :
    manyMade.TidilyReachable ∧ manyMade.store.WellFormed ∧
      (View.whole.visits manyMade.store).map (fun v => (v.1, v.2.mode.bits, v.2.attrs.inode)) =
        [(".", 0o040775, 1), ("a", 0o040777, 2), ("a/b", 0o040777, 3), ("a/c", 0o040777, 4),
          ("a/c/f", 0o100777, 5), ("a/d", 0o040700, 6)] := by
  have hbuild := Session.build_eq_ok Config.standard_valid (some .permissive) 0
  have hreach : manyMade.TidilyReachable := .run_of_tidy (.build hbuild) (by decide)
  exact ⟨hreach, wellFormed_of_tidilyReachable hreach, by decide +kernel⟩

end VirtualFs.Tree
