import VirtualFs.Proofs.Host.Beneath
import VirtualFs.Proofs.Host.Sound

namespace VirtualFs.Host

open VirtualFs.Path (IsDownward IsSegment joinAll)

variable {base path name : String} {names key : List String}

theorem absolute_eq_foldl (hnames : ∀ s ∈ names, IsSegment s) :
    absolute names = names.foldl below "/" := by
  by_cases hne : names = []
  · rw [hne]
    decide
  · rw [← below_joinAll hne hnames, below, if_pos (.inr (by decide)), absolute]

theorem isAbsolute_below (hbase : isAbsolute base = true) (name : String) :
    isAbsolute (below base name) = true := by
  rw [isAbsolute, beq_iff_eq] at hbase ⊢
  have hne : base.toList ≠ [] := by
    intro hnil
    rw [hnil] at hbase
    cases hbase
  unfold below
  split
  all_goals simp only [String.toList_append, List.head?_append, hbase, Option.some_or]

theorem isAbsolute_foldl_below (hbase : isAbsolute base = true) (names : List String) :
    isAbsolute (names.foldl below base) = true := by
  induction names generalizing base with
  | nil => exact hbase
  | cons name rest ih => exact ih (isAbsolute_below hbase name)

/-- Host paths below the root: absolute, and made of names that lead down. -/
theorem Beneath.components (hbase : Beneath "/" base) :
    isAbsolute base = true ∧ (∀ s ∈ Host.components base, IsDownward s) ∧
      base = (Host.components base).foldl below "/" := by
  obtain ⟨names, hnames, rfl⟩ := hbase
  have hcomponents : Host.components (names.foldl below "/") = names := by
    rw [components_foldl_below "/" fun s hs => (hnames s hs).1]
    have hroot : Host.components "/" = [] := by decide
    rw [hroot, List.nil_append]
  rw [hcomponents]
  exact ⟨isAbsolute_foldl_below (by decide) names, hnames, rfl⟩

namespace Disk

variable {disk : Disk} {dir inode i j : Nat}

/-- The node is in the tree below the root. -/
def Attached (disk : Disk) (inode : Nat) : Prop :=
  ∃ key, disk.Leads root key inode

theorem follow_append {front back : List String} :
    disk.follow i (front ++ back) = .ok j ↔
      ∃ top, disk.follow i front = .ok top ∧ disk.follow top back = .ok j := by
  induction front generalizing i with
  | nil => simp [follow]
  | cons name rest ih =>
    simp only [List.cons_append, follow]
    split
    · simp
    · split
      · simp
      · split
        · exact ih
        · split
          · exact ih
          · split
            · simp
            · simp
            · exact ih

/-- Names other than `".."` are followed along the members. -/
theorem leads_filter_of_follow (hnames : ".." ∉ names) (hfollow : disk.follow i names = .ok j) :
    disk.Leads i (names.filter (· != ".")) j := by
  induction names generalizing i with
  | nil => exact Except.ok.inj hfollow
  | cons name rest ih =>
    obtain ⟨hup, hrest⟩ := not_or.mp (mt List.mem_cons.mpr hnames)
    unfold follow at hfollow
    split at hfollow
    · cases hfollow
    · split at hfollow
      · cases hfollow
      · split at hfollow
        · next hdot =>
          rw [List.filter_cons_of_neg (by simp [hdot])]
          exact ih hrest hfollow
        · next hdot =>
          rw [if_neg (Ne.symm hup)] at hfollow
          rw [List.filter_cons_of_pos (by simp [hdot])]
          split at hfollow
          · cases hfollow
          · cases hfollow
          · next next hmember => exact ⟨next, member_of_member? hmember, ih hrest hfollow⟩

theorem leads_of_follow (hnames : ∀ s ∈ names, IsDownward s)
    (hfollow : disk.follow i names = .ok j) : disk.Leads i names j := by
  have hleads := leads_filter_of_follow (fun hup => (hnames ".." hup).2.2 rfl) hfollow
  rwa [List.filter_eq_self.mpr fun s hs => by simpa using (hnames s hs).2.1] at hleads

namespace Sound

theorem attached_parent (hsound : disk.Sound) (hattached : disk.Attached i)
    {parent : Nat} (hparent : disk.parent? i = some parent) : disk.Attached parent := by
  obtain ⟨key, hkey⟩ := hattached
  rcases List.eq_nil_or_concat' key with rfl | ⟨front, name, rfl⟩
  · cases hkey
    rw [hsound.root, Option.some.injEq] at hparent
    exact ⟨[], hparent⟩
  · obtain ⟨top, htop, hmember⟩ := leads_concat.mp hkey
    rw [hsound.parent hmember hparent]
    exact ⟨front, htop⟩

/-- No path leads out of the tree. -/
theorem attached_of_follow (hsound : disk.Sound) (hattached : disk.Attached i)
    (hfollow : disk.follow i names = .ok j) : disk.Attached j := by
  induction names generalizing i with
  | nil =>
    cases hfollow
    exact hattached
  | cons name rest ih =>
    unfold follow at hfollow
    split at hfollow
    · cases hfollow
    · next parent members hdir =>
      have hparent : disk.parent? i = some parent := by
        rw [parent?, hdir]
        rfl
      split at hfollow
      · cases hfollow
      · split at hfollow
        · exact ih hattached hfollow
        · split at hfollow
          · exact ih (hsound.attached_parent hattached hparent) hfollow
          · split at hfollow
            · cases hfollow
            · cases hfollow
            · next next hmember =>
              obtain ⟨key, hkey⟩ := hattached
              exact ih ⟨key ++ [name], hkey.concat (member_of_member? hmember)⟩ hfollow

theorem nameIn_eq (hsound : disk.Sound) (hmember : disk.Member dir name inode) :
    disk.nameIn dir inode = name := by
  obtain ⟨parent, members, hdir, hmem⟩ := id hmember
  rw [nameIn, hdir]
  dsimp only
  cases hfind : members.find? (·.2 == inode) with
  | none => simpa using List.find?_eq_none.mp hfind _ hmem
  | some found =>
    obtain ⟨other, i⟩ := found
    have hsame : i = inode := by simpa using List.find?_some hfind
    have hother : disk.Member dir other inode :=
      ⟨parent, members, hdir, hsame ▸ List.mem_of_find?_eq_some hfind⟩
    exact (hsound.single hother hmember).2

/-- A directory tells the names that lead to it. -/
theorem namesTo_eq (hsound : disk.Sound) (hkey : disk.Leads Disk.root key inode)
    (hdir : disk.isDir inode = true) {depth : Nat} (hdepth : key.length ≤ depth) :
    disk.namesTo depth inode = key.reverse := by
  induction key using List.reverseRecOn generalizing depth inode with
  | nil =>
    cases hkey
    cases depth <;> simp [namesTo]
  | append_singleton front name ih =>
    obtain ⟨top, htop, hmember⟩ := leads_concat.mp hkey
    obtain ⟨depth, rfl⟩ : ∃ d, depth = d + 1 := by
      cases depth with
      | zero => simp at hdepth
      | succ d => exact ⟨d, rfl⟩
    obtain ⟨⟨parent, members⟩, hfound⟩ := Option.isSome_iff_exists.mp hdir
    have hparent : parent = top := hsound.parent hmember (by rw [parent?, hfound]; rfl)
    rw [List.length_append, List.length_singleton, Nat.add_le_add_iff_right] at hdepth
    rw [namesTo, if_neg (hsound.ne_root hmember), hfound]
    dsimp only
    rw [hparent, hsound.nameIn_eq hmember, ih htop hmember.isDir hdepth]
    simp

end Sound

theorem follow_of_locate (hlocate : disk.locate path = .ok i) :
    disk.follow (disk.start path) (components path) = .ok i := by
  unfold locate at hlocate
  split at hlocate
  · cases hlocate
  · split at hlocate
    · cases hlocate
    · next hfollow =>
      split at hlocate
      · cases hlocate
      · rwa [← Except.ok.inj hlocate]

/-- An absolute path without `"."` and `".."` leads down from the root. -/
theorem leads_of_locate (hpath : Beneath "/" path) (hlocate : disk.locate path = .ok i) :
    disk.Leads root (components path) i := by
  obtain ⟨habsolute, hnames, -⟩ := hpath.components
  have hfollow := follow_of_locate hlocate
  rw [start, if_pos habsolute] at hfollow
  exact leads_of_follow hnames hfollow

theorem follow_of_place {place : Place} (hplace : disk.place path = .ok place) :
    disk.follow (disk.start path) (components path).dropLast = .ok place.dir ∧
      disk.isDir place.dir = true ∧
      ∀ name, place.last = .name name → (components path).getLast? = some name := by
  unfold Disk.place at hplace
  split at hplace
  · cases hplace
  · split at hplace
    · cases hplace
    · next hfollow =>
      split at hplace
      · cases hplace
      · next hdir =>
        split at hplace
        · cases hplace
        · cases hplace
          refine ⟨hfollow, by simpa using hdir, fun name hlast => ?_⟩
          dsimp only at hlast
          split at hlast
          · cases hlast
          · cases hlast
          · cases hlast
          · next hget =>
            cases hlast
            exact hget

/-- The directory before the last component of such a path, and that component. -/
theorem leads_of_place (hpath : Beneath "/" path) {place : Place}
    (hplace : disk.place path = .ok place) :
    disk.Leads root (components path).dropLast place.dir ∧ disk.isDir place.dir = true ∧
      ∀ name, place.last = .name name → components path = (components path).dropLast ++ [name] := by
  obtain ⟨habsolute, hnames, -⟩ := hpath.components
  obtain ⟨hfollow, hdir, hlast⟩ := follow_of_place hplace
  rw [start, if_pos habsolute] at hfollow
  refine ⟨leads_of_follow (fun s hs => hnames s (List.dropLast_subset _ hs)) hfollow, hdir,
    fun name hname => ?_⟩
  exact (List.dropLast_append_getLast? name (hlast name hname)).symm

namespace Sound

/-- The absolute path of a path that is absolute already. -/
theorem canonical_eq (hsound : disk.Sound) (hpath : Beneath "/" path) {full : String}
    (hcanonical : disk.canonical path = .ok full) : full = path := by
  obtain ⟨-, hnames, hself⟩ := hpath.components
  have habsolute : absolute (components path) = path := by
    rw [absolute_eq_foldl fun s hs => (hnames s hs).1, ← hself]
  unfold canonical at hcanonical
  split at hcanonical
  · cases hcanonical
  · next inode hlocate =>
    have hleads := leads_of_locate hpath hlocate
    have hlength := hsound.length_lt_of_leads hleads
    split at hcanonical
    · next hdir =>
      cases hcanonical
      rw [hsound.namesTo_eq hleads hdir hlength.le, List.reverse_reverse, habsolute]
    · split at hcanonical
      · next dir name slash hplace =>
        cases hcanonical
        obtain ⟨hdirLeads, hdir, hlast⟩ := leads_of_place hpath hplace
        have hdirLength := hsound.length_lt_of_leads hdirLeads
        rw [hsound.namesTo_eq hdirLeads hdir hdirLength.le, List.reverse_reverse, ← hlast name rfl,
          habsolute]
      · cases hcanonical
      · cases hcanonical

/-- A directory has an absolute path, which leads to it from the root. -/
theorem exists_canonical (hsound : disk.Sound) (hstart : disk.Attached (disk.start path))
    (hdir : disk.isDirAt path = true) :
    ∃ full, disk.canonical path = .ok full ∧ Beneath "/" full ∧
      ∃ inode, disk.locate path = .ok inode ∧ disk.Leads Disk.root (components full) inode := by
  unfold isDirAt at hdir
  split at hdir
  · next inode hlocate =>
    obtain ⟨key, hkey⟩ := hsound.attached_of_follow hstart (follow_of_locate hlocate)
    have hnames := hsound.downward_of_leads hkey
    have hfull := absolute_eq_foldl fun s hs => (hnames s hs).1
    have hbeneath : Beneath "/" (absolute key) := ⟨key, hnames, hfull⟩
    have hcomponents : components (absolute key) = key := by
      rw [hfull, components_foldl_below "/" fun s hs => (hnames s hs).1]
      exact List.nil_append key
    refine ⟨absolute key, ?_, hbeneath, inode, hlocate, by rwa [hcomponents]⟩
    have hlength := hsound.length_lt_of_leads hkey
    simp only [canonical, hlocate, hdir, if_true, hsound.namesTo_eq hkey hdir hlength.le,
      List.reverse_reverse]
  · cases hdir

end Sound

end Disk

end VirtualFs.Host
