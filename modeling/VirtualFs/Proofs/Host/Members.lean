import VirtualFs.Host.Change
import VirtualFs.Proofs.Path.Valid

namespace VirtualFs.Host

/-- Parent and members, if the node is a directory. -/
def Node.dir? : Node → Option (Nat × List (String × Nat))
  | .dir _ parent members => some (parent, members)
  | .file _ _ => none

namespace Disk

open VirtualFs.Path (IsDownward)

/-- The directory has a member of this name. -/
def Member (disk : Disk) (dir : Nat) (name : String) (inode : Nat) : Prop :=
  ∃ parent members, disk.dir? dir = some (parent, members) ∧ (name, inode) ∈ members

/-- The parent of a directory. -/
def parent? (disk : Disk) (inode : Nat) : Option Nat :=
  (disk.dir? inode).map (·.1)

/-- The names lead down from a node to another. -/
def Leads (disk : Disk) (top : Nat) : List String → Nat → Prop
  | [], inode => top = inode
  | name :: names, inode => ∃ next, disk.Member top name next ∧ disk.Leads next names inode

/-- The disk with one more node, which is in no directory. -/
def grow (disk : Disk) (node : Node) : Disk :=
  { disk with nodes := disk.nodes ++ [node] }

variable {disk other : Disk} {dir inode i j : Nat} {name n : String}
  {names front back : List String}

theorem leads_append :
    disk.Leads i (front ++ back) j ↔ ∃ top, disk.Leads i front top ∧ disk.Leads top back j := by
  induction front generalizing i with
  | nil => simp [Leads]
  | cons name rest ih =>
    simp only [List.cons_append, Leads, ih]
    constructor
    · rintro ⟨next, hnext, top, hrest, hback⟩
      exact ⟨top, ⟨next, hnext, hrest⟩, hback⟩
    · rintro ⟨top, ⟨next, hnext, hrest⟩, hback⟩
      exact ⟨next, hnext, top, hrest, hback⟩

theorem leads_concat :
    disk.Leads i (names ++ [name]) j ↔ ∃ top, disk.Leads i names top ∧ disk.Member top name j := by
  simp [leads_append, Leads]

theorem Leads.concat (hleads : disk.Leads i names dir) (hmember : disk.Member dir name j) :
    disk.Leads i (names ++ [name]) j :=
  leads_concat.mpr ⟨dir, hleads, hmember⟩

theorem dir?_congr (hnode : other.node? i = disk.node? i) : other.dir? i = disk.dir? i := by
  rw [dir?, dir?, hnode]

theorem member_congr (hdir : other.dir? dir = disk.dir? dir) :
    other.Member dir name inode ↔ disk.Member dir name inode := by
  rw [Member, Member, hdir]

theorem isDir_iff : disk.isDir i = true ↔ ∃ parent, disk.parent? i = some parent := by
  simp [isDir, parent?, Option.isSome_iff_exists]

theorem lt_length_of_dir? {found : Nat × List (String × Nat)} (hdir : disk.dir? i = some found) :
    i < disk.nodes.length := by
  rw [dir?, node?] at hdir
  by_contra hge
  rw [List.getElem?_eq_none (by omega)] at hdir
  cases hdir

theorem Member.isDir (hmember : disk.Member dir name inode) : disk.isDir dir = true := by
  obtain ⟨parent, members, hdir, -⟩ := hmember
  simp [Disk.isDir, hdir]

theorem Member.lt_length (hmember : disk.Member dir name inode) : dir < disk.nodes.length := by
  obtain ⟨parent, members, hdir, -⟩ := hmember
  exact lt_length_of_dir? hdir

/-- A name that is looked up is that of a member. -/
theorem member_of_member? (hmember : disk.member? dir name = .ok (some inode)) :
    disk.Member dir name inode := by
  unfold member? at hmember
  cases hdir : disk.dir? dir with
  | none => simp [hdir] at hmember
  | some found =>
    obtain ⟨parent, members⟩ := found
    simp only [hdir] at hmember
    split at hmember
    · cases hmember
    · obtain ⟨front, back, rfl, -⟩ := List.lookup_eq_some_iff.mp (Except.ok.inj hmember)
      exact ⟨parent, _, hdir, by simp⟩

/-- A name that is not found is no member's. -/
theorem not_member_of_member? (hmember : disk.member? dir name = .ok none) :
    disk.isDir dir = true ∧ ∀ inode, ¬disk.Member dir name inode := by
  unfold member? at hmember
  cases hdir : disk.dir? dir with
  | none => simp [hdir] at hmember
  | some found =>
    obtain ⟨parent, members⟩ := found
    simp only [hdir] at hmember
    split at hmember
    · cases hmember
    · have hlookup : members.lookup name = none := Except.ok.inj hmember
      refine ⟨by simp [isDir, hdir], ?_⟩
      rintro inode ⟨_, _, hdir', hmem⟩
      cases hdir.symm.trans hdir'
      rw [List.lookup_eq_none_iff] at hlookup
      simpa using hlookup _ hmem

theorem node?_modify (change : Node → Node) :
    (disk.modify i change).node? j =
      if i = j then (disk.node? j).map change else disk.node? j := by
  simp only [modify, node?, List.getElem?_modify]
  split <;> simp

theorem node?_modify_of_ne (change : Node → Node) (hne : i ≠ j) :
    (disk.modify i change).node? j = disk.node? j := by
  rw [node?_modify, if_neg hne]

@[simp] theorem length_modify (change : Node → Node) :
    (disk.modify i change).nodes.length = disk.nodes.length := by
  simp [modify]

@[simp] theorem length_modifyMembers (change : List (String × Nat) → List (String × Nat)) :
    (disk.modifyMembers i change).nodes.length = disk.nodes.length :=
  length_modify _

@[simp] theorem length_setContent (content : Bytes) :
    (disk.setContent i content).nodes.length = disk.nodes.length :=
  length_modify _

@[simp] theorem length_setParent (parent : Nat) :
    (disk.setParent i parent).nodes.length = disk.nodes.length :=
  length_modify _

theorem dir?_eq_bind (disk : Disk) (i : Nat) : disk.dir? i = (disk.node? i).bind Node.dir? := by
  unfold dir?
  cases disk.node? i with
  | none => rfl
  | some node => cases node <;> rfl

theorem dir?_modify {change : Node → Node}
    {view : Nat × List (String × Nat) → Nat × List (String × Nat)}
    (hchange : ∀ node, (change node).dir? = node.dir?.map view) :
    (disk.modify inode change).dir? i =
      if inode = i then (disk.dir? i).map view else disk.dir? i := by
  rw [dir?_eq_bind, dir?_eq_bind, node?_modify]
  split
  · cases disk.node? i with
    | none => rfl
    | some node => exact hchange node
  · rfl

theorem dir?_modifyMembers (change : List (String × Nat) → List (String × Nat)) :
    (disk.modifyMembers dir change).dir? i =
      if dir = i then (disk.dir? i).map fun (parent, members) => (parent, change members)
      else disk.dir? i :=
  dir?_modify fun node => by cases node <;> rfl

theorem dir?_setContent (content : Bytes) :
    (disk.setContent inode content).dir? i = disk.dir? i := by
  have hdir : (disk.setContent inode content).dir? i =
      if inode = i then (disk.dir? i).map id else disk.dir? i :=
    dir?_modify fun node => by cases node <;> rfl
  rw [hdir, Option.map_id, id, ite_self]

theorem dir?_setParent (parent : Nat) :
    (disk.setParent inode parent).dir? i =
      if inode = i then (disk.dir? i).map fun (_, members) => (parent, members)
      else disk.dir? i :=
  dir?_modify fun node => by cases node <;> rfl

@[simp] theorem parent?_modifyMembers (change : List (String × Nat) → List (String × Nat)) :
    (disk.modifyMembers dir change).parent? i = disk.parent? i := by
  rw [parent?, dir?_modifyMembers]
  split
  · simp [parent?, Function.comp_def]
  · rfl

@[simp] theorem parent?_setContent (content : Bytes) :
    (disk.setContent inode content).parent? i = disk.parent? i := by
  rw [parent?, dir?_setContent, parent?]

theorem parent?_setParent (parent : Nat) :
    (disk.setParent inode parent).parent? i =
      if inode = i then (disk.parent? i).map fun _ => parent else disk.parent? i := by
  rw [parent?, dir?_setParent]
  split
  · simp [parent?, Function.comp_def]
  · rfl

@[simp] theorem member_setContent (content : Bytes) :
    (disk.setContent inode content).Member dir name j ↔ disk.Member dir name j :=
  member_congr (dir?_setContent content)

@[simp] theorem member_setParent (parent : Nat) :
    (disk.setParent inode parent).Member dir name j ↔ disk.Member dir name j := by
  unfold Member
  rw [dir?_setParent]
  split
  · rcases disk.dir? dir with - | ⟨old, members⟩
    · simp
    · simp
  · rfl

theorem member_modifyMembers (change : List (String × Nat) → List (String × Nat)) :
    (disk.modifyMembers dir change).Member i n j ↔
      ∃ parent members, disk.dir? i = some (parent, members) ∧
        (n, j) ∈ if dir = i then change members else members := by
  unfold Member
  rw [dir?_modifyMembers]
  split
  · rcases disk.dir? i with - | ⟨parent, members⟩
    · simp
    · simp
  · rfl

theorem member_eraseMember :
    (disk.modifyMembers dir (eraseMember name)).Member i n j ↔
      disk.Member i n j ∧ ¬(i = dir ∧ n = name) := by
  rw [member_modifyMembers, Member]
  by_cases hdir : dir = i
  · simp [hdir, eraseMember, ← and_assoc, ← exists_and_right]
  · simp [hdir, Ne.symm hdir]

theorem mem_insertMember {members : List (String × Nat)} {entry : String × Nat} :
    entry ∈ insertMember name inode members ↔ entry = (name, inode) ∨ entry ∈ members := by
  induction members with
  | nil => simp [insertMember]
  | cons head rest ih =>
    obtain ⟨m, k⟩ := head
    unfold insertMember
    split
    · simp
    · rw [List.mem_cons, ih, List.mem_cons]
      tauto

theorem member_insertMember (hdir : disk.isDir dir = true) :
    (disk.modifyMembers dir (insertMember name inode)).Member i n j ↔
      disk.Member i n j ∨ (i = dir ∧ n = name ∧ j = inode) := by
  rw [member_modifyMembers, Member]
  by_cases hsame : dir = i
  · subst hsame
    obtain ⟨⟨parent, members⟩, hfound⟩ := Option.isSome_iff_exists.mp hdir
    simp only [hfound, if_true, mem_insertMember, Prod.mk.injEq, Option.some.injEq, true_and]
    constructor
    · rintro ⟨p, ms, ⟨rfl, rfl⟩, hnew | hold⟩
      · exact .inr hnew
      · exact .inl ⟨parent, members, ⟨rfl, rfl⟩, hold⟩
    · rintro (⟨p, ms, ⟨rfl, rfl⟩, hold⟩ | hnew)
      · exact ⟨parent, members, ⟨rfl, rfl⟩, .inr hold⟩
      · exact ⟨parent, members, ⟨rfl, rfl⟩, .inl hnew⟩
  · simp [hsame, Ne.symm hsame]

theorem eraseMember_insertMember (members : List (String × Nat)) :
    eraseMember name (insertMember name inode members) = eraseMember name members := by
  induction members with
  | nil => simp [insertMember, eraseMember]
  | cons head rest ih =>
    obtain ⟨m, k⟩ := head
    unfold insertMember
    split
    · simp [eraseMember]
    · simp only [eraseMember, List.filter_cons] at ih ⊢
      rw [ih]

theorem node?_grow (node : Node) (hi : i < disk.nodes.length) :
    (disk.grow node).node? i = disk.node? i := by
  simp only [grow, node?]
  exact List.getElem?_append_left hi

theorem node?_grow_self (node : Node) : (disk.grow node).node? disk.nodes.length = some node := by
  simp [grow, node?]

@[simp] theorem length_grow (node : Node) :
    (disk.grow node).nodes.length = disk.nodes.length + 1 := by
  simp [grow]

/-- A new node that is empty adds no member. -/
theorem member_grow {node : Node} (hempty : ∀ stamp parent members,
    node = .dir stamp parent members → members = []) :
    (disk.grow node).Member dir name j ↔ disk.Member dir name j := by
  rcases lt_trichotomy dir disk.nodes.length with hlt | rfl | hgt
  · exact member_congr (dir?_congr (node?_grow node hlt))
  · constructor
    · rintro ⟨parent, members, hdir, hmem⟩
      rw [dir?, node?_grow_self] at hdir
      cases node with
      | file stamp content => cases hdir
      | dir stamp parent' members' =>
        cases hdir
        rw [hempty _ _ _ rfl] at hmem
        cases hmem
    · exact fun hmember => absurd hmember.lt_length (by omega)
  · constructor
    · intro hmember
      have hlt := hmember.lt_length
      rw [length_grow] at hlt
      omega
    · exact fun hmember => absurd hmember.lt_length (by omega)

theorem addNode_eq (node : Node) :
    disk.addNode dir name node =
      (disk.grow node).modifyMembers dir (insertMember name disk.nodes.length) :=
  rfl

end Disk

end VirtualFs.Host
