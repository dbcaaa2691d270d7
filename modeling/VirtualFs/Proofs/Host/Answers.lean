import VirtualFs.Proofs.Host.Inward

namespace VirtualFs.Host.Disk

open VirtualFs.Path (IsDownward)

variable {base path name : String} {old new : Disk} {dir inode i : Nat} {names : List String}

theorem inode_of_metadataOf {m : Metadata} (hmetadata : new.metadataOf i = .ok m) :
    m.inode = i := by
  unfold metadataOf at hmetadata
  split at hmetadata
  · cases hmetadata
    rfl
  · cases hmetadata
    rfl
  · cases hmetadata

/-- A way that is there is not missing. -/
theorem Sound.follow_ne_missing (hsound : new.Sound) (hleads : new.Leads i names inode) :
    new.follow i names ≠ .error .missing := by
  have hnames := hsound.downward_of_leads hleads
  induction names generalizing i with
  | nil => simp [follow]
  | cons name rest ih =>
    obtain ⟨next, hnext, hrest⟩ := hleads
    obtain ⟨⟨-, hdot, hup⟩, hnames⟩ := List.forall_mem_cons.mp hnames
    obtain ⟨parent, members, hdir, -⟩ := id hnext
    rw [follow, hdir]
    dsimp only
    split
    · simp
    · cases hmember : new.member? i name with
      | error e =>
        unfold member? at hmember
        rw [hdir] at hmember
        dsimp only at hmember
        split at hmember
        · cases hmember
          simp
        · cases hmember
      | ok found =>
        cases found with
        | none => exact absurd hnext ((not_member_of_member? hmember).2 next)
        | some j =>
          cases hsound.unique hnext (member_of_member? hmember)
          exact ih hrest hnames

namespace Since

theorem metadata (hsince : Since base old new) (hpath : Beneath base path) {m : Metadata}
    (hmetadata : new.metadata path = .ok m) : ¬old.Outside base m.inode := by
  unfold Disk.metadata at hmetadata
  split at hmetadata
  · next i hlocate =>
    rw [inode_of_metadataOf hmetadata]
    exact hsince.not_outside_of_locate hpath hlocate
  · cases hmetadata

theorem list (hsince : Since base old new) (hpath : Beneath base path) {listing : Listing}
    (hlist : new.list path = .ok listing) : ¬old.Outside base listing.dir := by
  unfold Disk.list at hlist
  split at hlist
  · cases hlist
  · next i hlocate =>
    split at hlist
    · split at hlist
      · cases hlist
        exact hsince.not_outside_of_locate hpath hlocate
      · cases hlist
    · cases hlist

theorem memberMetadata (hsince : Since base old new) (hdir : ¬old.Outside base dir) {m : Metadata}
    (hmetadata : new.memberMetadata dir name = .ok m) : ¬old.Outside base m.inode := by
  unfold Disk.memberMetadata at hmetadata
  split at hmetadata
  · cases hmetadata
  · split at hmetadata
    · cases hmetadata
    · cases hmetadata
    · next i hmember =>
      rw [inode_of_metadataOf hmetadata]
      exact hsince.not_outside_of_member hdir (member_of_member? hmember)

/-- What a name that may be changed leads to does not lie outside. -/
theorem not_outside_of_open (hsince : Since base old new) (hopen : (old.fence base).Open dir name)
    (hmember : new.Member dir name inode) : ¬old.Outside base inode := by
  rcases hopen with hdir | ⟨front, hfront, hleads⟩
  · exact hsince.not_outside_of_member hdir hmember
  · have hnew := (hsince.leads_of_leads hleads (by simp [hfront])).concat hmember
    rw [← hfront, ← List.append_nil (components base)] at hnew
    exact hsince.not_outside hnew

theorem setContent (hsince : Since base old new) (hinode : ¬old.Outside base inode)
    (content : Bytes) : Since base old (new.setContent inode content) :=
  hsince.step (hsince.sound.setContent content) (.setContent hinode content)

theorem write (hsince : Since base old new) (hinode : ¬old.Outside base inode) (offset : Nat)
    (data : Bytes) : Since base old (new.write inode offset data).2 := by
  unfold Disk.write
  split
  · exact hsince
  · split
    · exact hsince
    · exact hsince.setContent hinode _

theorem eraseMember (hsince : Since base old new) (hopen : (old.fence base).Open dir name) :
    Since base old (new.modifyMembers dir (eraseMember name)) :=
  hsince.step hsince.sound.eraseMember (.eraseMember hopen)

theorem not_outside_length (hsince : Since base old new) :
    ¬old.Outside base new.nodes.length :=
  fun hout => absurd (hsince.lt_of_outside hout) (Nat.lt_irrefl _)

/-- A new node under a free name. -/
theorem addNode (hsince : Since base old new) (hopen : (old.fence base).Open dir name)
    (hname : IsDownward name) (hdir : new.isDir dir = true) (hfree : ∀ i, ¬new.Member dir name i)
    {node : Node} (hempty : ∀ stamp parent members, node = .dir stamp parent members →
      parent = dir ∧ members = []) : Since base old (new.addNode dir name node) := by
  have hmembers : ∀ stamp parent members, node = .dir stamp parent members → members = [] :=
    fun _ _ _ hnode => (hempty _ _ _ hnode).2
  have hgrown : (new.grow node).isDir dir = true := by
    obtain ⟨found, hfound⟩ := Option.isSome_iff_exists.mp hdir
    rw [isDir, dir?_congr (node?_grow node (lt_length_of_dir? hfound))]
    exact hdir
  rw [addNode_eq]
  refine hsince.step ?_ ((Inward.grow (fun i => hsince.lt_of_outside) hmembers).trans
    (.insertMember hopen hsince.not_outside_length hgrown))
  refine (hsince.sound.grow hmembers).insertMember hgrown hname ?_ (by simp) ?_ ?_ (by simp)
    (member_insertMember hgrown) (fun _ _ => parent?_modifyMembers _) fun parent hparent => ?_
  · exact fun i hmember => hfree i ((member_grow hmembers).mp hmember)
  · have hroot := hsince.sound.root_lt
    omega
  · exact fun d n hmember =>
      absurd (hsince.sound.known ((member_grow hmembers).mp hmember)) (Nat.lt_irrefl _)
  · rw [parent?_modifyMembers, parent?, dir?, node?_grow_self] at hparent
    cases node with
    | file stamp content => cases hparent
    | dir stamp parent' members =>
      cases hparent
      exact (hempty _ _ _ rfl).1

theorem makeDir (hsince : Since base old new) (hpath : Beneath base path) (perm : UInt32) :
    Since base old (new.makeDir path perm).2 := by
  unfold Disk.makeDir
  split
  · exact hsince
  · next place hplace =>
    split
    · next name hname =>
      obtain ⟨hopen, hdownward, hdir⟩ := hsince.open_of_place hpath hplace hname
      split
      · exact hsince
      · exact hsince
      · next hmember =>
        split
        · refine hsince.addNode hopen hdownward hdir (not_member_of_member? hmember).2 ?_
          rintro _ _ _ ⟨rfl, rfl, rfl⟩
          exact ⟨rfl, rfl⟩
        · exact hsince
    · exact hsince

theorem makeDirOrReuse (hsince : Since base old new) (hpath : Beneath base path) (perm : UInt32) :
    Since base old (new.makeDirOrReuse path perm).2 := by
  have hmade := hsince.makeDir hpath perm
  unfold Disk.makeDirOrReuse
  split
  · next hresult => rwa [hresult] at hmade
  · next hresult =>
    rw [hresult] at hmade
    split
    · exact hmade
    · exact hmade

theorem openExisting (hsince : Since base old new) (hinode : ¬old.Outside base inode)
    (options : OpenOptions) :
    (∀ file, (new.openExisting inode options).1 = .ok file → ¬old.Outside base file) ∧
      Since base old (new.openExisting inode options).2 := by
  unfold Disk.openExisting
  split
  · exact ⟨by simp, hsince⟩
  · split
    · exact ⟨by simp, hsince⟩
    · split
      · exact ⟨by simpa using hinode, hsince.setContent hinode []⟩
      · exact ⟨by simpa using hinode, hsince⟩

theorem openOrMake (hsince : Since base old new) (hpath : Beneath base path) {place : Place}
    (hplace : new.place path = .ok place) (options : OpenOptions) :
    (∀ file, (new.openOrMake place options).1 = .ok file → ¬old.Outside base file) ∧
      Since base old (new.openOrMake place options).2 := by
  unfold Disk.openOrMake
  split
  · next name hname =>
    obtain ⟨hopen, hdownward, hdir⟩ := hsince.open_of_place hpath hplace hname
    split
    · exact ⟨by simp, hsince⟩
    · split
      · exact ⟨by simp, hsince⟩
      · next inode hmember =>
        exact hsince.openExisting (hsince.not_outside_of_open hopen (member_of_member? hmember)) _
      · next hmember =>
        split
        · refine ⟨by simpa using hsince.not_outside_length, ?_⟩
          exact hsince.addNode hopen hdownward hdir (not_member_of_member? hmember).2 (by simp)
        · exact ⟨by simp, hsince⟩
  · exact ⟨by simp, hsince⟩

theorem openFile (hsince : Since base old new) (hpath : Beneath base path) (options : OpenOptions) :
    (∀ file, (new.openFile path options).1 = .ok file → ¬old.Outside base file) ∧
      Since base old (new.openFile path options).2 := by
  unfold Disk.openFile
  split
  · exact ⟨by simp, hsince⟩
  · split
    · exact ⟨by simp, hsince⟩
    · split
      · split
        · exact ⟨by simp, hsince⟩
        · next place hplace => exact hsince.openOrMake hpath hplace options
      · split
        · exact ⟨by simp, hsince⟩
        · next inode hlocate =>
          exact hsince.openExisting (hsince.not_outside_of_locate hpath hlocate) options

theorem unlink (hsince : Since base old new) (hpath : Beneath base path) (directory : Bool) :
    Since base old (new.unlink path directory).2 := by
  unfold Disk.unlink
  split
  · exact hsince
  · next place hplace =>
    split
    · exact hsince
    · exact hsince
    · exact hsince
    · next name hname =>
      obtain ⟨hopen, -, -⟩ := hsince.open_of_place hpath hplace hname
      split
      · exact hsince
      · exact hsince
      · split
        · exact hsince
        · exact hsince.eraseMember hopen

/-- Clearing a directory of the region takes nothing away elsewhere. -/
theorem clear (hsince : Since base old new) (hinode : ¬old.Outside base inode) (depth : Nat) :
    Since base old (clear depth inode new).2 := by
  induction depth generalizing inode new with
  | zero => exact hsince
  | succ depth ih =>
    unfold Disk.clear
    split
    · exact hsince
    · next parent members hdir =>
      split
      · exact hsince
      · have hchildren : ∀ entry ∈ members, ¬old.Outside base entry.2 := fun entry hentry =>
          hsince.not_outside_of_member hinode ⟨parent, members, hdir, hentry⟩
        refine List.foldlRecOn (motive := fun result : Except Failure Unit × Disk =>
          Since base old result.2) members _ hsince ?_
        rintro ⟨result, disk⟩ hresult ⟨name, child⟩ hentry
        cases result with
        | error e => exact hresult
        | ok _ =>
          dsimp only
          split
          · have hcleared := ih hresult (hchildren _ hentry)
            split
            · next hclear => rwa [hclear] at hcleared
            · next hclear =>
              rw [hclear] at hcleared
              exact hcleared.eraseMember (.inl hinode)
          · exact hresult

theorem removeTree (hsince : Since base old new) (hpath : Beneath base path) :
    Since base old (new.removeTree path).2 := by
  unfold Disk.removeTree
  split
  · exact hsince
  · next inode hlocate =>
    have hcleared := hsince.clear (hsince.not_outside_of_locate hpath hlocate) new.nodes.length
    split
    · next hclear => rwa [hclear] at hcleared
    · next hclear =>
      rw [hclear] at hcleared
      have hremoved := hcleared.unlink hpath true
      unfold Disk.removeDir
      split
      · next hunlink => rwa [hunlink] at hremoved
      · next hunlink => rwa [hunlink] at hremoved

/-- A member of one directory gets a name in another. -/
theorem moveMember (hsince : Since base old new) {fromDir toDir : Nat} {fromName toName : String}
    (hfrom : (old.fence base).Open fromDir fromName) (hto : (old.fence base).Open toDir toName)
    (hname : IsDownward toName) (hdir : new.isDir toDir = true)
    (hmember : new.Member fromDir fromName inode) :
    Since base old (new.moveMember inode fromDir fromName toDir toName) := by
  have hinode := hsince.not_outside_of_open hfrom hmember
  have hcleared := (hsince.eraseMember hfrom).eraseMember hto
  have hmembers {d : Nat} {n : String} {i : Nat}
      (h : ((new.modifyMembers fromDir (Disk.eraseMember fromName)).modifyMembers toDir
        (Disk.eraseMember toName)).Member d n i) :
      new.Member d n i ∧ ¬(d = fromDir ∧ n = fromName) ∧ ¬(d = toDir ∧ n = toName) := by
    obtain ⟨htaken, hto⟩ := member_eraseMember.mp h
    obtain ⟨hnew, hfrom⟩ := member_eraseMember.mp htaken
    exact ⟨hnew, hfrom, hto⟩
  have hclearedDir : ((new.modifyMembers fromDir (Disk.eraseMember fromName)).modifyMembers toDir
      (Disk.eraseMember toName)).isDir toDir = true := by
    rw [isDir_iff] at hdir ⊢
    simpa using hdir
  unfold Disk.moveMember
  dsimp only
  refine hcleared.step ?_
    ((Inward.insertMember hto hinode hclearedDir).trans (.setParent hinode toDir))
  refine hcleared.sound.insertMember hclearedDir hname ?_ ?_ (hsince.sound.ne_root hmember) ?_
    (by simp) ?_ ?_ ?_
  · exact fun i h => (hmembers h).2.2 ⟨rfl, rfl⟩
  · simpa using hsince.sound.known hmember
  · intro d n h
    obtain ⟨hnew, hother, -⟩ := hmembers h
    exact hother (hsince.sound.single hnew hmember)
  · intro d n i
    rw [member_setParent, member_insertMember hclearedDir]
  · intro i hne
    rw [parent?_setParent, if_neg (Ne.symm hne), parent?_modifyMembers]
  · intro parent hparent
    rw [parent?_setParent, if_pos rfl, Option.map_eq_some_iff] at hparent
    obtain ⟨_, -, rfl⟩ := hparent
    rfl

theorem renameMember (hsince : Since base old new) {place target : Place} {toName : String}
    (hfrom : (old.fence base).Open place.dir name)
    (hto : (old.fence base).Open target.dir toName) (hname : IsDownward toName)
    (hdir : new.isDir target.dir = true) (hmember : new.Member place.dir name inode)
    (existing : Option Nat) :
    Since base old (new.renameMember place target name toName inode existing).2 := by
  unfold Disk.renameMember
  split
  · exact hsince
  · split
    · exact hsince
    · exact hsince.moveMember hfrom hto hname hdir hmember

theorem rename (hsince : Since base old new) {target : String} (hpath : Beneath base path)
    (htarget : Beneath base target) : Since base old (new.rename path target).2 := by
  unfold Disk.rename
  split
  · exact hsince
  · split
    · exact hsince
    · next place hplace =>
      split
      · exact hsince
      · next goal hgoal =>
        unfold Disk.renamePlace
        split
        · next name toName hname htoName =>
          obtain ⟨hfrom, -, -⟩ := hsince.open_of_place hpath hplace hname
          obtain ⟨hto, hdownward, hdir⟩ := hsince.open_of_place htarget hgoal htoName
          split
          · exact hsince
          · exact hsince
          · next inode hmember =>
            split
            · exact hsince
            · split
              · exact hsince
              · split
                · exact hsince
                · exact hsince.renameMember hfrom hto hdownward hdir (member_of_member? hmember) _
        · exact hsince

end Since

end VirtualFs.Host.Disk
