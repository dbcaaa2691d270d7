import Mathlib.Data.Fintype.Card
import VirtualFs.Proofs.Host.Members

namespace VirtualFs.Host.Disk

open VirtualFs.Path (IsDownward)

/-- The root is its own parent and in no directory; every other node is in at most one, whose child
it knows to be, and under one name; names lead down and are not taken twice. -/
structure Sound (disk : Disk) : Prop where
  root : disk.parent? root = some root
  name : ∀ {dir name inode}, disk.Member dir name inode → IsDownward name
  known : ∀ {dir name inode}, disk.Member dir name inode → inode < disk.nodes.length
  ne_root : ∀ {dir name inode}, disk.Member dir name inode → inode ≠ Disk.root
  parent : ∀ {dir name inode parent}, disk.Member dir name inode →
    disk.parent? inode = some parent → parent = dir
  unique : ∀ {dir name i j}, disk.Member dir name i → disk.Member dir name j → i = j
  single : ∀ {dir dir' name name' inode}, disk.Member dir name inode →
    disk.Member dir' name' inode → dir = dir' ∧ name = name'

variable {disk other : Disk} {dir inode i j : Nat} {name : String} {names key : List String}

theorem sound_empty (now : Time) : (empty now).Sound := by
  have hmember {dir : Nat} {name : String} {inode : Nat} : ¬(empty now).Member dir name inode := by
    rintro ⟨parent, members, hdir, hmem⟩
    cases dir with
    | zero =>
      cases hdir
      cases hmem
    | succ dir => cases hdir
  exact ⟨rfl, (absurd · hmember), (absurd · hmember), (absurd · hmember),
    fun h => absurd h hmember, fun h => absurd h hmember, fun h => absurd h hmember⟩

namespace Sound

theorem root_lt (hsound : disk.Sound) : Disk.root < disk.nodes.length := by
  have hroot := hsound.root
  rw [parent?, Option.map_eq_some_iff] at hroot
  obtain ⟨found, hdir, -⟩ := hroot
  exact lt_length_of_dir? hdir

theorem leads_unique (hsound : disk.Sound) (hi : disk.Leads dir names i)
    (hj : disk.Leads dir names j) : i = j := by
  induction names generalizing dir with
  | nil => exact hi.symm.trans hj
  | cons name rest ih =>
    obtain ⟨next, hnext, hi⟩ := hi
    obtain ⟨next', hnext', hj⟩ := hj
    cases hsound.unique hnext hnext'
    exact ih hi hj

/-- Only one path leads from the root to a node. -/
theorem key_unique (hsound : disk.Sound) (hnames : disk.Leads Disk.root names i)
    (hkey : disk.Leads Disk.root key i) : names = key := by
  induction names using List.reverseRecOn generalizing key i with
  | nil =>
    cases hnames
    rcases List.eq_nil_or_concat' key with rfl | ⟨front, name, rfl⟩
    · rfl
    · obtain ⟨top, -, hmember⟩ := leads_concat.mp hkey
      exact absurd rfl (hsound.ne_root hmember)
  | append_singleton front name ih =>
    obtain ⟨top, htop, hmember⟩ := leads_concat.mp hnames
    rcases List.eq_nil_or_concat' key with rfl | ⟨front', name', rfl⟩
    · cases hkey
      exact absurd rfl (hsound.ne_root hmember)
    · obtain ⟨top', htop', hmember'⟩ := leads_concat.mp hkey
      obtain ⟨rfl, rfl⟩ := hsound.single hmember hmember'
      rw [ih htop htop']

theorem downward_of_leads (hsound : disk.Sound) (hleads : disk.Leads dir names i) :
    ∀ s ∈ names, IsDownward s := by
  induction names generalizing dir with
  | nil => exact List.forall_mem_nil _
  | cons name rest ih =>
    obtain ⟨next, hnext, hrest⟩ := hleads
    exact List.forall_mem_cons.mpr ⟨hsound.name hnext, ih hrest⟩

theorem lt_length_of_leads (hsound : disk.Sound) (hleads : disk.Leads Disk.root names i) :
    i < disk.nodes.length := by
  rcases List.eq_nil_or_concat' names with rfl | ⟨front, name, rfl⟩
  · cases hleads
    exact hsound.root_lt
  · obtain ⟨top, -, hmember⟩ := leads_concat.mp hleads
    exact hsound.known hmember

/-- There are no more names on the way to a node than there are nodes. -/
theorem length_lt_of_leads (hsound : disk.Sound) (hleads : disk.Leads Disk.root names i) :
    names.length < disk.nodes.length := by
  have hprefix (k : Fin (names.length + 1)) :
      ∃ top : Fin disk.nodes.length, disk.Leads Disk.root (names.take k) top := by
    rw [← List.take_append_drop k names] at hleads
    obtain ⟨top, htop, -⟩ := leads_append.mp hleads
    exact ⟨⟨top, hsound.lt_length_of_leads htop⟩, htop⟩
  choose node hnode using hprefix
  have hinjective : Function.Injective node := by
    intro a b hab
    have hb := hnode b
    rw [← hab] at hb
    have htake := congrArg List.length (hsound.key_unique (hnode a) hb)
    simp only [List.length_take] at htake
    exact Fin.ext (by omega)
  have hcard := Fintype.card_le_of_injective node hinjective
  rw [Fintype.card_fin, Fintype.card_fin] at hcard
  exact hcard

/-- Nothing new is in a directory. -/
theorem of_members (hsound : disk.Sound) (hlength : disk.nodes.length ≤ other.nodes.length)
    (hparent : ∀ i < disk.nodes.length, other.parent? i = disk.parent? i)
    (hmember : ∀ {dir name inode}, other.Member dir name inode → disk.Member dir name inode) :
    other.Sound where
  root := by rw [hparent _ hsound.root_lt, hsound.root]
  name h := hsound.name (hmember h)
  known h := lt_of_lt_of_le (hsound.known (hmember h)) hlength
  ne_root h := hsound.ne_root (hmember h)
  parent h hfound := by
    rw [hparent _ (hsound.known (hmember h))] at hfound
    exact hsound.parent (hmember h) hfound
  unique h h' := hsound.unique (hmember h) (hmember h')
  single h h' := hsound.single (hmember h) (hmember h')

theorem setContent (hsound : disk.Sound) (content : Bytes) :
    (disk.setContent inode content).Sound :=
  hsound.of_members (by simp) (fun _ _ => parent?_setContent content) (member_setContent content).mp

theorem eraseMember (hsound : disk.Sound) : (disk.modifyMembers dir (eraseMember name)).Sound :=
  hsound.of_members (by simp) (fun _ _ => parent?_modifyMembers _)
    fun hmember => (member_eraseMember.mp hmember).1

theorem grow (hsound : disk.Sound) {node : Node} (hempty : ∀ stamp parent members,
    node = .dir stamp parent members → members = []) : (disk.grow node).Sound :=
  hsound.of_members (by simp)
    (fun i hi => by rw [parent?, dir?_congr (node?_grow node hi), parent?]) (member_grow hempty).mp

/-- A node that is in no directory gets a free name in one, and becomes its child. -/
theorem insertMember (hsound : disk.Sound) (hdir : disk.isDir dir = true) (hname : IsDownward name)
    (hfree : ∀ i, ¬disk.Member dir name i) (hknown : inode < disk.nodes.length)
    (hroot : inode ≠ Disk.root) (horphan : ∀ d n, ¬disk.Member d n inode)
    (hlength : other.nodes.length = disk.nodes.length)
    (hmember : ∀ {d n i}, other.Member d n i ↔
      disk.Member d n i ∨ (d = dir ∧ n = name ∧ i = inode))
    (hparent : ∀ i, i ≠ inode → other.parent? i = disk.parent? i)
    (hchild : ∀ parent, other.parent? inode = some parent → parent = dir) : other.Sound where
  root := by rw [hparent _ (Ne.symm hroot), hsound.root]
  name h := by
    rcases hmember.mp h with hold | ⟨-, rfl, -⟩
    · exact hsound.name hold
    · exact hname
  known h := by
    rw [hlength]
    rcases hmember.mp h with hold | ⟨-, -, rfl⟩
    · exact hsound.known hold
    · exact hknown
  ne_root h := by
    rcases hmember.mp h with hold | ⟨-, -, rfl⟩
    · exact hsound.ne_root hold
    · exact hroot
  parent h hfound := by
    rcases hmember.mp h with hold | ⟨rfl, -, rfl⟩
    · rw [hparent _ (by rintro rfl; exact horphan _ _ hold)] at hfound
      exact hsound.parent hold hfound
    · exact hchild _ hfound
  unique h h' := by
    rcases hmember.mp h with hold | ⟨rfl, rfl, rfl⟩
    · rcases hmember.mp h' with hold' | ⟨rfl, rfl, -⟩
      · exact hsound.unique hold hold'
      · exact absurd hold (hfree _)
    · rcases hmember.mp h' with hold' | ⟨-, -, rfl⟩
      · exact absurd hold' (hfree _)
      · rfl
  single h h' := by
    rcases hmember.mp h with hold | ⟨rfl, rfl, rfl⟩
    · rcases hmember.mp h' with hold' | ⟨-, -, rfl⟩
      · exact hsound.single hold hold'
      · exact absurd hold (horphan _ _)
    · rcases hmember.mp h' with hold' | ⟨rfl, rfl, -⟩
      · exact absurd hold' (horphan _ _)
      · exact ⟨rfl, rfl⟩

end Sound

end VirtualFs.Host.Disk
