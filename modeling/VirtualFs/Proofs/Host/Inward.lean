import VirtualFs.Proofs.Host.Following

namespace VirtualFs.Host

/-- The node without one of its names and with no time of change. -/
def Node.without (name : String) : Node → Node
  | .dir stamp parent members =>
    .dir { stamp with mtime := stamp.born } parent (Disk.eraseMember name members)
  | .file stamp content => .file stamp content

/-- The nodes outside a region of a disk, and the names that lead into it from there. -/
structure Fence where
  outside : Nat → Prop
  door : Nat → String → Prop
  door_unique : ∀ {dir name name'}, door dir name → door dir name' → name = name'

/-- A name in this directory is one within the region, or leads into it. -/
def Fence.Open (fence : Fence) (dir : Nat) (name : String) : Prop :=
  ¬fence.outside dir ∨ fence.door dir name

namespace Disk

/-- The node is there and no names lead to it from the base. -/
def Outside (disk : Disk) (base : String) (inode : Nat) : Prop :=
  inode < disk.nodes.length ∧ ∀ names, ¬disk.Leads root (components base ++ names) inode

/-- The directory is that of the base, which has this name. -/
def HoldsBase (disk : Disk) (base : String) (dir : Nat) (name : String) : Prop :=
  ∃ front, components base = front ++ [name] ∧ disk.Leads root front dir

/-- The region below a base. -/
def fence (disk : Disk) (base : String) : Fence where
  outside := disk.Outside base
  door := disk.HoldsBase base
  door_unique := by
    rintro dir name name' ⟨front, hfront, -⟩ ⟨front', hfront', -⟩
    have hsame := congrArg List.getLast? (hfront.symm.trans hfront')
    simpa using hsame

/-- All changes from the old disk to the new one are within the fence. -/
structure Inward (fence : Fence) (old new : Disk) : Prop where
  grown : old.nodes.length ≤ new.nodes.length
  node : ∀ i, fence.outside i → (∀ name, ¬fence.door i name) → new.node? i = old.node? i
  door : ∀ i name, fence.outside i → fence.door i name →
    (new.node? i).map (Node.without name) = (old.node? i).map (Node.without name)
  member : ∀ {dir name inode}, new.Member dir name inode →
    old.Member dir name inode ∨ fence.Open dir name ∧ ¬fence.outside inode

variable {fence : Fence} {disk old new : Disk} {dir inode : Nat} {name : String}

namespace Inward

theorem refl (fence : Fence) (disk : Disk) : Inward fence disk disk :=
  ⟨le_rfl, fun _ _ _ => rfl, fun _ _ _ _ => rfl, .inl⟩

theorem trans {middle : Disk} (hfirst : Inward fence old middle)
    (hsecond : Inward fence middle new) : Inward fence old new where
  grown := hfirst.grown.trans hsecond.grown
  node i hout hdoor := (hsecond.node i hout hdoor).trans (hfirst.node i hout hdoor)
  door i name hout hdoor := (hsecond.door i name hout hdoor).trans (hfirst.door i name hout hdoor)
  member hmember := by
    rcases hsecond.member hmember with hmiddle | hopen
    · exact hfirst.member hmiddle
    · exact .inr hopen

/-- A change of a node within the region that leaves the members. -/
theorem modify {change : Node → Node} (hinode : ¬fence.outside inode)
    (hmember : ∀ {dir name i},
      (disk.modify inode change).Member dir name i → disk.Member dir name i) :
    Inward fence disk (disk.modify inode change) := by
  have hnode (i : Nat) (hout : fence.outside i) :
      (disk.modify inode change).node? i = disk.node? i :=
    node?_modify_of_ne change fun hsame => hinode (hsame ▸ hout)
  exact ⟨by simp, fun i hout _ => hnode i hout, fun i _ hout _ => by rw [hnode i hout],
    fun h => .inl (hmember h)⟩

theorem setContent (hinode : ¬fence.outside inode) (content : Bytes) :
    Inward fence disk (disk.setContent inode content) :=
  modify hinode (member_setContent content).mp

theorem setParent (hinode : ¬fence.outside inode) (parent : Nat) :
    Inward fence disk (disk.setParent inode parent) :=
  modify hinode (member_setParent parent).mp

/-- A change of the members of a directory at one name only, which leads into the region. -/
theorem modifyMembers {change : List (String × Nat) → List (String × Nat)}
    (hopen : fence.Open dir name)
    (hothers : ∀ members, eraseMember name (change members) = eraseMember name members)
    (hmember : ∀ {d n i}, (disk.modifyMembers dir change).Member d n i →
      disk.Member d n i ∨ fence.Open d n ∧ ¬fence.outside i) :
    Inward fence disk (disk.modifyMembers dir change) where
  grown := by simp
  node i hout hdoor := by
    refine node?_modify_of_ne _ ?_
    rintro rfl
    exact hopen.elim (· hout) (hdoor name)
  door i name' hout hdoor := by
    rw [Disk.modifyMembers, node?_modify]
    split
    · next hsame =>
      subst hsame
      have hname : name = name' := fence.door_unique (hopen.resolve_left (· hout)) hdoor
      rcases disk.node? dir with - | ⟨stamp, parent, members⟩ | ⟨stamp, content⟩
      · rfl
      · simp only [Option.map_some, Node.without, ← hname, hothers]
      · rfl
    · rfl
  member := hmember

theorem eraseMember (hopen : fence.Open dir name) :
    Inward fence disk (disk.modifyMembers dir (eraseMember name)) :=
  modifyMembers hopen (fun members => by simp [Disk.eraseMember])
    fun hmember => .inl (member_eraseMember.mp hmember).1

theorem insertMember (hopen : fence.Open dir name) (hinode : ¬fence.outside inode)
    (hdir : disk.isDir dir = true) :
    Inward fence disk (disk.modifyMembers dir (insertMember name inode)) := by
  refine modifyMembers hopen eraseMember_insertMember fun hmember => ?_
  rcases (member_insertMember hdir).mp hmember with hold | ⟨rfl, rfl, rfl⟩
  · exact .inl hold
  · exact .inr ⟨hopen, hinode⟩

theorem grow {node : Node} (hknown : ∀ i, fence.outside i → i < disk.nodes.length)
    (hempty : ∀ stamp parent members, node = .dir stamp parent members → members = []) :
    Inward fence disk (disk.grow node) where
  grown := by simp
  node i hout _ := node?_grow node (hknown i hout)
  door i _ hout _ := by rw [node?_grow node (hknown i hout)]
  member hmember := .inl ((member_grow hempty).mp hmember)

end Inward

/-- The new disk came from the old one by changes below a base, which was there at first. -/
structure Since (base : String) (old new : Disk) : Prop where
  before : old.Sound
  rooted : Beneath "/" base
  there : ∃ top, old.Leads root (components base) top
  sound : new.Sound
  inward : Inward (old.fence base) old new

variable {base path : String} {names front : List String} {i : Nat}

namespace Since

theorem refl (hsound : old.Sound) (hbase : Beneath "/" base)
    (hthere : ∃ top, old.Leads root (components base) top) : Since base old old :=
  ⟨hsound, hbase, hthere, hsound, .refl _ old⟩

theorem step (hsince : Since base old new) {after : Disk} (hsound : after.Sound)
    (hinward : Inward (old.fence base) new after) : Since base old after :=
  ⟨hsince.before, hsince.rooted, hsince.there, hsound, hsince.inward.trans hinward⟩

theorem lt_of_outside (hsince : Since base old new) (hout : old.Outside base i) :
    i < new.nodes.length :=
  lt_of_lt_of_le hout.1 hsince.inward.grown

/-- Nothing leads out of the region. -/
theorem not_outside_of_member (hsince : Since base old new) (hdir : ¬old.Outside base dir)
    (hmember : new.Member dir name inode) : ¬old.Outside base inode := by
  rcases hsince.inward.member hmember with hold | ⟨-, hout⟩
  · rintro ⟨hlt, hnames⟩
    refine hdir ⟨hold.lt_length, fun names hleads => hnames (names ++ [name]) ?_⟩
    rw [← List.append_assoc]
    exact hleads.concat hold
  · exact hout

theorem not_outside_of_leads (hsince : Since base old new) (hdir : ¬old.Outside base dir)
    (hleads : new.Leads dir names inode) : ¬old.Outside base inode := by
  induction names generalizing dir with
  | nil =>
    cases hleads
    exact hdir
  | cons name rest ih =>
    obtain ⟨next, hnext, hrest⟩ := hleads
    exact ih (hsince.not_outside_of_member hdir hnext) hrest

/-- The directories above the base lie outside. -/
theorem outside_of_leads (hsince : Since base old new) (hleads : old.Leads root front dir)
    (hlength : front.length < (components base).length) : old.Outside base dir := by
  refine ⟨hsince.before.lt_length_of_leads hleads, fun names hinside => ?_⟩
  have hlengths := congrArg List.length (hsince.before.key_unique hleads hinside)
  rw [List.length_append] at hlengths
  omega

/-- The way to the base stays as it was. -/
theorem leads_of_leads (hsince : Since base old new) (hleads : old.Leads root front dir)
    (hlength : front.length < (components base).length) : new.Leads root front dir := by
  induction front using List.reverseRecOn generalizing dir with
  | nil => exact hleads
  | append_singleton front name ih =>
    obtain ⟨top, htop, hmember⟩ := leads_concat.mp hleads
    rw [List.length_append, List.length_singleton] at hlength
    have hnode : new.node? top = old.node? top := by
      refine hsince.inward.node top (hsince.outside_of_leads htop (by omega)) ?_
      -- the base is in the directory at its own depth only
      rintro other ⟨front', hfront', hleads'⟩
      have hlengths := congrArg List.length hfront'
      rw [hsince.before.key_unique hleads' htop, List.length_append, List.length_singleton]
        at hlengths
      omega
    exact (ih htop (by omega)).concat ((member_congr (dir?_congr hnode)).mpr hmember)

/-- The directory of the base is still the same. -/
theorem holdsBase_of_leads (hsince : Since base old new)
    (hfront : components base = front ++ [name]) (hleads : new.Leads root front dir) :
    old.HoldsBase base dir name := by
  obtain ⟨top, htop⟩ := hsince.there
  rw [hfront] at htop
  obtain ⟨dir', hdir', -⟩ := leads_concat.mp htop
  have hnew := hsince.leads_of_leads hdir' (by simp [hfront])
  rw [hsince.sound.leads_unique hleads hnew]
  exact ⟨front, hfront, hdir'⟩

/-- What the names below the base lead to does not lie outside. -/
theorem not_outside (hsince : Since base old new)
    (hleads : new.Leads root (components base ++ names) i) : ¬old.Outside base i := by
  obtain ⟨top, htop, hnames⟩ := leads_append.mp hleads
  refine hsince.not_outside_of_leads ?_ hnames
  rcases List.eq_nil_or_concat' (components base) with hnil | ⟨front, name, hfront⟩
  · rw [hnil] at htop
    cases htop
    exact fun hout => hout.2 [] (by rw [hnil]; rfl)
  · rw [hfront] at htop
    obtain ⟨dir, hdir, hmember⟩ := leads_concat.mp htop
    rcases hsince.inward.member hmember with holdMember | ⟨-, hout⟩
    · have htop : old.Leads root (components base) top := by
        obtain ⟨front', hfront', hleads'⟩ := hsince.holdsBase_of_leads hfront hdir
        rw [hfront']
        exact hleads'.concat holdMember
      exact fun hout => hout.2 [] (by rwa [List.append_nil])
    · exact hout

/-- A path below the base leads to nothing outside. -/
theorem not_outside_of_locate (hsince : Since base old new) (hpath : Beneath base path)
    (hlocate : new.locate path = .ok i) : ¬old.Outside base i := by
  have hleads := leads_of_locate (hsince.rooted.trans hpath) hlocate
  obtain ⟨names, hnames, rfl⟩ := hpath
  rw [components_foldl_below base fun s hs => (hnames s hs).1] at hleads
  exact hsince.not_outside hleads

/-- The last name of a path below the base is one within the region, or that of the base. -/
theorem open_of_place (hsince : Since base old new) (hpath : Beneath base path) {place : Place}
    (hplace : new.place path = .ok place) (hname : place.last = .name name) :
    (old.fence base).Open place.dir name ∧ Path.IsDownward name ∧ new.isDir place.dir = true := by
  have habsolute := hsince.rooted.trans hpath
  obtain ⟨hleads, hdir, hlast⟩ := leads_of_place habsolute hplace
  have hcomponents := hlast name hname
  have hdownward : Path.IsDownward name := by
    refine habsolute.components.2.1 name ?_
    rw [hcomponents]
    exact List.mem_append_right _ (List.mem_singleton_self name)
  refine ⟨?_, hdownward, hdir⟩
  obtain ⟨names, hnames, rfl⟩ := hpath
  rw [components_foldl_below base fun s hs => (hnames s hs).1] at hleads hcomponents
  rcases List.eq_nil_or_concat' names with rfl | ⟨inner, last, rfl⟩
  · rw [List.append_nil] at hleads hcomponents
    exact .inr (hsince.holdsBase_of_leads hcomponents hleads)
  · rw [← List.append_assoc, List.dropLast_concat] at hleads
    exact .inl (hsince.not_outside hleads)

end Since

end Disk

end VirtualFs.Host
