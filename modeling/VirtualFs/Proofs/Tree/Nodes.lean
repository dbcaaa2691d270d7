import Mathlib.Tactic.Common
import VirtualFs.Tree.Create

namespace VirtualFs.Tree

/-- Something is found exactly under the keys of a list. -/
theorem isSome_lookup_iff {α β : Type} [BEq α] [LawfulBEq α] {entries : List (α × β)} {a : α} :
    (entries.lookup a).isSome ↔ a ∈ entries.map (·.1) := by
  rw [List.lookup_isSome_iff, List.mem_map]
  simp only [beq_iff_eq]
  constructor
  · rintro ⟨entry, hmem, rfl⟩
    exact ⟨entry, hmem, rfl⟩
  · rintro ⟨entry, hmem, rfl⟩
    exact ⟨entry, hmem, rfl⟩

namespace Children

theorem lookup_cons (n : String) (c : Child) (rest : Children) (query : String) :
    List.lookup query ((n, c) :: rest) = if query = n then some c else rest.lookup query := by
  rw [List.lookup_cons]
  by_cases hquery : query = n
  · simp [hquery]
  · have hskip : (query == n) = false := by simpa using hquery
    simp [hskip, hquery]

/-- A name that was free leads to the child inserted under it, and every other name leads where it
led before. The order of the list plays no part in this. -/
theorem lookup_insert {name : String} {child : Child} {children : Children}
    (hfree : children.lookup name = none) (query : String) :
    (children.insert name child).lookup query =
      if query = name then some child else children.lookup query := by
  induction children with
  | nil => simp only [insert, lookup_cons]
  | cons head rest ih =>
    obtain ⟨n, c⟩ := head
    rw [lookup_cons] at hfree
    have hne : name ≠ n := by
      intro heq
      simp [heq] at hfree
    rw [if_neg hne] at hfree
    simp only [insert]
    split
    · simp only [lookup_cons]
    · simp only [lookup_cons, ih hfree]
      by_cases hquery : query = n
      · simp [hquery, hne.symm]
      · simp [hquery]

end Children

@[simp] theorem Directory.child?_empty (inode : Nat) (entry : Entry) (name : String) :
    (Directory.empty inode entry).child? name = if name = "." then some (.dot inode) else none := by
  simp only [Directory.empty, Directory.child?, Children.lookup_cons, List.lookup_nil]

namespace Store

variable (store : Store)

theorem dir?_eq_some_iff {i : Nat} {d : Directory} :
    store.dir? i = some d ↔ store.node? i = some (.dir d) := by
  unfold dir?
  split <;> simp_all

theorem cell?_eq_some_iff {i : Nat} {c : Cell} :
    store.cell? i = some c ↔ store.node? i = some (.file c) := by
  unfold cell?
  split <;> simp_all

/-- A node is a directory or a file, never both. -/
theorem node?_isSome_iff {i : Nat} :
    (store.node? i).isSome ↔ (store.dir? i).isSome ∨ (store.cell? i).isSome := by
  unfold dir? cell?
  rcases store.node? i with _ | (d | c) <;> simp

theorem dir?_eq_none_of_cell? {i : Nat} {c : Cell} (hcell : store.cell? i = some c) :
    store.dir? i = none := by
  unfold cell? at hcell
  unfold dir?
  rcases hnode : store.node? i with _ | (d | c) <;> simp_all

theorem isSome_node?_of_dir? {i : Nat} (hdir : (store.dir? i).isSome) :
    (store.node? i).isSome :=
  store.node?_isSome_iff.mpr (.inl hdir)

theorem pathOf_of_node? {i : Nat} {node : Node} (hnode : store.node? i = some node) :
    store.pathOf i = node.entry.path := by
  rw [pathOf, hnode]

/-- The names of the children are those that lead on, and a directory does not count itself among
its children. -/
theorem mem_childNames_iff {i : Nat} {name : String} :
    name ∈ store.childNames i ↔ (store.child? i name).isSome ∧ name ≠ "." := by
  unfold childNames child? Directory.childNames Directory.child?
  cases store.dir? i with
  | none => simp
  | some d => rw [List.mem_filter, Option.bind_some, isSome_lookup_iff, bne_iff_ne]

/-- Numbers beyond those given out name nothing. -/
theorem lt_nextInode_of_node? {i : Nat} (hnode : (store.node? i).isSome) : i < store.nextInode := by
  cases i with
  | zero => simp [nextInode]
  | succ i =>
    simp only [node?] at hnode
    by_contra hnot
    have hout : store.nodes.length ≤ i := by
      simp only [nextInode] at hnot
      omega
    rw [List.getElem?_eq_none_iff.mpr hout] at hnode
    simp at hnode

theorem ne_nextInode_of_node? {i : Nat} (hnode : (store.node? i).isSome) : i ≠ store.nextInode :=
  Nat.ne_of_lt (store.lt_nextInode_of_node? hnode)

theorem ne_nextInode_of_dir? {i : Nat} (hdir : (store.dir? i).isSome) : i ≠ store.nextInode :=
  store.ne_nextInode_of_node? (store.isSome_node?_of_dir? hdir)

theorem node?_nextInode : store.node? store.nextInode = none := by
  by_contra hnode
  exact absurd (store.lt_nextInode_of_node? (Option.isSome_iff_ne_none.mpr hnode)) (Nat.lt_irrefl _)

theorem node?_modify (change : Node → Node) (i j : Nat) :
    (store.modify change i).node? j =
      if i = j then (store.node? j).map change else store.node? j := by
  cases i with
  | zero =>
    cases j with
    | zero => simp [node?]
    | succ j => rfl
  | succ i =>
    cases j with
    | zero => simp [node?]
    | succ j =>
      by_cases hij : i = j
      · subst hij
        simp only [modify, node?, List.getElem?_modify_eq, if_true]
        rcases store.nodes[i]? with _ | (_ | node) <;> rfl
      · simp only [modify, node?, List.getElem?_modify, hij, Nat.succ_inj, if_false]
        rcases store.nodes[j]? with _ | (_ | node) <;> rfl

@[simp] theorem rules_modify (change : Node → Node) (i : Nat) :
    (store.modify change i).rules = store.rules := by
  cases i <;> rfl

@[simp] theorem config_modify (change : Node → Node) (i : Nat) :
    (store.modify change i).config = store.config := by
  cases i <;> rfl

@[simp] theorem nextInode_modify (change : Node → Node) (i : Nat) :
    (store.modify change i).nextInode = store.nextInode := by
  cases i <;> simp [modify, nextInode]

/-- Changing one directory changes no other and no file. -/
theorem node?_modifyDir (change : Directory → Directory) (i j : Nat) :
    (store.modifyDir i change).node? j =
      match store.node? j with
      | some (.dir d) => some (.dir (if i = j then change d else d))
      | other => other := by
  unfold modifyDir
  rw [node?_modify]
  rcases store.node? j with _ | (d | c) <;> split <;> simp_all

theorem dir?_modifyDir (change : Directory → Directory) (i j : Nat) :
    (store.modifyDir i change).dir? j =
      if i = j then (store.dir? j).map change else store.dir? j := by
  unfold dir?
  rw [node?_modifyDir]
  by_cases hij : i = j <;> rcases store.node? j with _ | (d | c) <;> simp [hij]

@[simp] theorem cell?_modifyDir (change : Directory → Directory) (i j : Nat) :
    (store.modifyDir i change).cell? j = store.cell? j := by
  unfold cell?
  rw [node?_modifyDir]
  rcases store.node? j with _ | (d | c) <;> rfl

/-- Changing one cell changes no other and no directory. -/
theorem node?_modifyCell (change : Cell → Cell) (i j : Nat) :
    (store.modifyCell i change).node? j =
      match store.node? j with
      | some (.file c) => some (.file (if i = j then change c else c))
      | other => other := by
  unfold modifyCell
  rw [node?_modify]
  rcases store.node? j with _ | (d | c) <;> split <;> simp_all

theorem cell?_modifyCell (change : Cell → Cell) (i j : Nat) :
    (store.modifyCell i change).cell? j =
      if i = j then (store.cell? j).map change else store.cell? j := by
  unfold cell?
  rw [node?_modifyCell]
  by_cases hij : i = j <;> rcases store.node? j with _ | (d | c) <;> simp [hij]

@[simp] theorem dir?_modifyCell (change : Cell → Cell) (i j : Nat) :
    (store.modifyCell i change).dir? j = store.dir? j := by
  unfold dir?
  rw [node?_modifyCell]
  rcases store.node? j with _ | (d | c) <;> rfl

@[simp] theorem rules_modifyDir (change : Directory → Directory) (i : Nat) :
    (store.modifyDir i change).rules = store.rules := rules_modify _ _ _

@[simp] theorem config_modifyDir (change : Directory → Directory) (i : Nat) :
    (store.modifyDir i change).config = store.config := config_modify _ _ _

@[simp] theorem nextInode_modifyDir (change : Directory → Directory) (i : Nat) :
    (store.modifyDir i change).nextInode = store.nextInode := nextInode_modify _ _ _

@[simp] theorem rules_modifyCell (change : Cell → Cell) (i : Nat) :
    (store.modifyCell i change).rules = store.rules := rules_modify _ _ _

@[simp] theorem config_modifyCell (change : Cell → Cell) (i : Nat) :
    (store.modifyCell i change).config = store.config := config_modify _ _ _

@[simp] theorem nextInode_modifyCell (change : Cell → Cell) (i : Nat) :
    (store.modifyCell i change).nextInode = store.nextInode := nextInode_modify _ _ _

/-- A number without a node changes no lookup. -/
@[simp] theorem node?_reserve (i : Nat) : store.reserve.node? i = store.node? i := by
  cases i with
  | zero => rfl
  | succ i =>
    simp only [reserve, node?, List.getElem?_append]
    split
    · rfl
    · next hout =>
      rw [List.getElem?_eq_none_iff.mpr (Nat.le_of_not_lt hout)]
      rcases i - store.nodes.length with _ | k <;> rfl

/-- A new node stands under the next number, its parent has one child more, and nothing else is
different. -/
theorem node?_addNode {parent : Nat} (hparent : (store.dir? parent).isSome) (name : String)
    (node : Node) (i : Nat) :
    (store.addNode parent name node).node? i =
      if i = store.nextInode then some node
      else
        match store.node? i with
        | some (.dir d) =>
          some (.dir (if parent = i then
            { d with children := d.children.insert name (.node store.nextInode) } else d))
        | other => other := by
  have hgrown : ∀ j, ({ store with nodes := store.nodes ++ [some node] } : Store).node? j =
      if j = store.nextInode then some node else store.node? j := by
    intro j
    cases j with
    | zero => simp [node?, nextInode]
    | succ j =>
      simp only [node?, nextInode, List.getElem?_append, Nat.add_right_cancel_iff]
      by_cases hlt : j < store.nodes.length
      · simp [hlt, Nat.ne_of_lt hlt]
      · by_cases heq : j = store.nodes.length
        · simp [heq]
        · have hsub : j - store.nodes.length ≠ 0 := by omega
          rw [if_neg hlt, if_neg heq, List.getElem?_eq_none_iff.mpr (by simp; omega),
            List.getElem?_eq_none_iff.mpr (by omega)]
  have hne : parent ≠ store.nextInode := store.ne_nextInode_of_dir? hparent
  unfold addNode
  rw [node?_modifyDir, hgrown]
  by_cases hi : i = store.nextInode
  · subst hi
    rw [if_pos rfl, if_pos rfl]
    cases node <;> simp [hne]
  · rw [if_neg hi, if_neg hi]

theorem nextInode_addNode (parent : Nat) (name : String) (node : Node) :
    (store.addNode parent name node).nextInode = store.nextInode + 1 := by
  simp only [addNode, nextInode_modifyDir]
  simp only [nextInode, List.length_append, List.length_singleton]

/-- Making a node takes two stages. -/
theorem stage_addNode (parent : Nat) (name : String) (node : Node) :
    (store.addNode parent name node).stage = store.stage + 2 := by
  simp only [stage, nextInode_addNode]
  omega

@[simp] theorem dir?_reserve (i : Nat) : store.reserve.dir? i = store.dir? i := by
  simp only [dir?, node?_reserve]

@[simp] theorem cell?_reserve (i : Nat) : store.reserve.cell? i = store.cell? i := by
  simp only [cell?, node?_reserve]

theorem dir?_addNode {parent : Nat} (hparent : (store.dir? parent).isSome) (name : String)
    (node : Node) (i : Nat) :
    (store.addNode parent name node).dir? i =
      if i = store.nextInode then
        match node with
        | .dir d => some d
        | .file _ => none
      else if parent = i then
        (store.dir? i).map fun d =>
          { d with children := d.children.insert name (.node store.nextInode) }
      else store.dir? i := by
  unfold dir?
  rw [node?_addNode store hparent]
  by_cases hi : i = store.nextInode
  · rw [if_pos hi, if_pos hi]
    cases node <;> rfl
  · rw [if_neg hi, if_neg hi]
    by_cases hp : parent = i <;> rcases store.node? i with _ | (d | c) <;> simp [hp]

theorem cell?_addNode {parent : Nat} (hparent : (store.dir? parent).isSome) (name : String)
    (node : Node) (i : Nat) :
    (store.addNode parent name node).cell? i =
      if i = store.nextInode then
        match node with
        | .dir _ => none
        | .file c => some c
      else store.cell? i := by
  unfold cell?
  rw [node?_addNode store hparent]
  by_cases hi : i = store.nextInode
  · rw [if_pos hi, if_pos hi]
    cases node <;> rfl
  · rw [if_neg hi, if_neg hi]
    rcases store.node? i with _ | (d | c) <;> rfl

/-- Changes that do the same with the node are the same. -/
theorem modify_congr {first second : Node → Node} {i : Nat}
    (hsame : ∀ node, store.node? i = some node → first node = second node) :
    store.modify first i = store.modify second i := by
  cases i with
  | zero => rfl
  | succ i =>
    have hnodes : store.nodes.modify i (·.map first) = store.nodes.modify i (·.map second) := by
      apply List.ext_getElem?
      intro j
      rw [List.getElem?_modify, List.getElem?_modify]
      split
      · next hij =>
        subst hij
        simp only [node?] at hsame
        rcases hnode : store.nodes[i]? with _ | (_ | node)
        · rfl
        · rfl
        · simp [hsame node (by simp [hnode])]
      · rfl
    simp only [modify, hnodes]

/-- A change that leaves the node as it is leaves the store as it is. -/
theorem modify_of_fixed {change : Node → Node} {i : Nat}
    (hfixed : ∀ node, store.node? i = some node → change node = node) :
    store.modify change i = store := by
  have hid : store.modify change i = store.modify id i := store.modify_congr hfixed
  rw [hid]
  cases i with
  | zero => rfl
  | succ i => simp only [modify, Option.map_id_fun, List.modify_id]

/-- Two changes of one node are one change. -/
theorem modify_modify (first second : Node → Node) (i : Nat) :
    (store.modify first i).modify second i = store.modify (second ∘ first) i := by
  cases i with
  | zero => rfl
  | succ i =>
    simp only [modify, List.modify_modify_eq]
    congr 2
    funext node
    cases node <;> rfl

/-- Changes of different nodes do not meet. -/
theorem modify_comm {i j : Nat} (hne : i ≠ j) (first second : Node → Node) :
    (store.modify first i).modify second j = (store.modify second j).modify first i := by
  cases i with
  | zero => rfl
  | succ i =>
    cases j with
    | zero => rfl
    | succ j =>
      have hplaces : i ≠ j := fun h => hne (congrArg Nat.succ h)
      simp only [modify, List.modify_modify_ne _ _ _ hplaces]

theorem modifyCell_id (i : Nat) : store.modifyCell i id = store :=
  store.modify_of_fixed fun node _ => by cases node <;> rfl

theorem modifyCell_modifyCell (first second : Cell → Cell) (i : Nat) :
    (store.modifyCell i first).modifyCell i second = store.modifyCell i (second ∘ first) := by
  unfold modifyCell
  rw [modify_modify]
  congr 1
  funext node
  cases node <;> rfl

/-- Changing a cell is putting the changed cell in its place. -/
theorem modifyCell_const {i : Nat} {c : Cell} (hcell : store.cell? i = some c)
    (change : Cell → Cell) :
    (store.modifyCell i fun _ => change c) = store.modifyCell i change := by
  refine store.modify_congr fun node hnode => ?_
  rw [(store.cell?_eq_some_iff).mp hcell] at hnode
  obtain rfl := Option.some.inj hnode
  rfl

theorem modifyCell_comm {i j : Nat} (hne : i ≠ j) (first second : Cell → Cell) :
    (store.modifyCell i first).modifyCell j second =
      (store.modifyCell j second).modifyCell i first :=
  store.modify_comm hne _ _

theorem modifyCell_of_cell?_eq_none {change : Cell → Cell} {i : Nat}
    (hcell : store.cell? i = none) : store.modifyCell i change = store := by
  apply modify_of_fixed
  intro node hnode
  cases node with
  | dir d => rfl
  | file c =>
    rw [(store.cell?_eq_some_iff).mpr hnode] at hcell
    cases hcell

end Store

end VirtualFs.Tree
