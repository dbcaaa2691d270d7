import VirtualFs.Proofs.Tree.Admitted
import VirtualFs.Proofs.Tree.HandleEntry

namespace VirtualFs

namespace Path

variable {base dir path name front : String}

/-- A path is that of `base`, or continues it; everything is below the root. -/
def AtOrBelow (base path : String) : Prop :=
  base = "." ∨ path = base ∨ ∃ rest, path = base ++ "/" ++ rest

theorem AtOrBelow.refl (path : String) : AtOrBelow path path :=
  .inr (.inl rfl)

theorem AtOrBelow.trans (hfirst : AtOrBelow base dir) (hsecond : AtOrBelow dir path) :
    AtOrBelow base path := by
  obtain rfl | rfl | ⟨front, rfl⟩ := hfirst
  · exact .inl rfl
  · exact hsecond
  obtain hroot | rfl | ⟨rest, rfl⟩ := hsecond
  · have hmem : separator ∈ (base ++ "/" ++ front).toList := by simp [separator]
    rw [hroot] at hmem
    exact absurd hmem (by decide)
  · exact .inr (.inr ⟨front, rfl⟩)
  · refine .inr (.inr ⟨front ++ "/" ++ rest, ?_⟩)
    simp only [String.append_assoc]

/-- Seen from above its directory, a path that a name continues still ends with the name. -/
theorem base_stripBase (hbelow : AtOrBelow base dir) (hdir : dir = "." ∨ dir ≠ "")
    (hunslashed : dir.toList.getLast? ≠ some separator) (hname : IsSegment name)
    (hdot : name ≠ ".") :
    Path.base ((stripBase base (join dir name)).getD (join dir name)) = name := by
  by_cases hroot : base = "." ∨ base = ""
  · rw [stripBase, if_pos hroot, Option.getD_some, join]
    split_ifs
    · exact base_segment hname
    · next h => exact absurd h (not_or.mpr ⟨hdot, hname.1⟩)
    · exact base_append_segment dir hname
  have hcut : ∀ rest, stripBase base (base ++ "/" ++ rest) = some rest := by
    intro rest
    have hslash : "/".toList = [separator] := by decide
    have hother : base ++ "/" ++ rest ≠ base := by
      intro hsame
      have hlength := congrArg (fun s => s.toList.length) hsame
      simp only [String.toList_append, List.length_append, hslash, List.length_singleton] at hlength
      omega
    have hlead : Text.dropLead? (base.toList ++ [separator]) (base ++ "/" ++ rest).toList =
        some rest.toList := by
      rw [Text.dropLead?_eq_some_iff, String.toList_append, String.toList_append, hslash]
    rw [stripBase, if_neg hroot, if_neg hother, hlead, Option.map_some, String.ofList_toList]
  have hjoin : dir ≠ "." → join dir name = dir ++ "/" ++ name := by
    intro hinner
    rw [join, if_neg (not_or.mpr ⟨hinner, hdir.resolve_left hinner⟩),
      if_neg (not_or.mpr ⟨hdot, hname.1⟩), if_neg hunslashed]
  obtain hbase | rfl | ⟨rest, rfl⟩ := hbelow
  · exact absurd (.inl hbase) hroot
  · rw [hjoin fun h => hroot (.inl h), hcut]
    exact base_segment hname
  · have hinner : base ++ "/" ++ rest ≠ "." := by
      intro hsame
      have hmem : separator ∈ (base ++ "/" ++ rest).toList := by simp [separator]
      rw [hsame] at hmem
      exact absurd hmem (by decide)
    have hwhole : base ++ "/" ++ rest ++ "/" ++ name = base ++ "/" ++ (rest ++ "/" ++ name) := by
      simp only [String.append_assoc]
    rw [hjoin hinner, hwhole, hcut]
    exact base_append_segment rest hname

end Path

namespace Path

/-- What making a node under `name` in the directory at `dir` makes of its path. -/
structure Continues (dir name path : String) : Prop where
  segment : IsSegment name
  below : AtOrBelow dir path
  tidy : Text.trim name = name → path = join dir name

end Path

namespace PathRules

variable {rules : PathRules} {dir path name : String} {attrs : Attributes} {entry : Entry}

/-- Where trimming leaves a text without a separator at its end, that is the path. -/
theorem path_of_create_trimmed (hentry : Entry.create path attrs rules = .ok entry)
    (hne : Text.trim path ≠ "")
    (hlast : (Text.trim path).toList.getLast? ≠ some Path.separator) :
    entry.path = Text.trim path := by
  have haccepted := Entry.accepts_of_create hentry
  unfold Entry.create at hentry
  rw [clean_eq, if_pos haccepted, Path.cleaned_eq_trim hlast] at hentry
  obtain rfl := Except.ok.inj hentry
  exact if_neg hne

/-- Behind its directory the path has what trimming leaves of the name, and nothing if that is
nothing. -/
theorem path_of_create_join (hadmits : rules.Admits dir) (hinner : dir ≠ ".")
    (hname : Path.IsSegment name) (hdot : name ≠ ".")
    (hentry : Entry.create (Path.join dir name) attrs rules = .ok entry) :
    entry.path = dir ++ (if name.toList.rdropWhile Text.isBlank = [] then ""
      else "/" ++ String.ofList (name.toList.rdropWhile Text.isBlank)) := by
  have htrim := hadmits.toList_trim_join hinner hname hdot
  by_cases hblank : name.toList.rdropWhile Text.isBlank = []
  · rw [if_pos hblank, String.append_empty]
    rw [hblank] at htrim
    exact path_of_create hentry hadmits.nonempty htrim
  · rw [if_neg hblank, ← String.append_assoc]
    have hrest : Path.IsSegment (String.ofList (name.toList.rdropWhile Text.isBlank)) := by
      constructor
      · intro hnone
        exact hblank (by simpa using congrArg String.toList hnone)
      · rw [String.toList_ofList]
        exact fun hmem => hname.2 ((List.rdropWhile_prefix Text.isBlank name.toList).subset hmem)
    have hwhole : Text.trim (Path.join dir name) =
        dir ++ "/" ++ String.ofList (name.toList.rdropWhile Text.isBlank) := by
      rw [← String.toList_inj, htrim]
      simp [Path.separator]
    rw [path_of_create_trimmed hentry ?_ ?_, hwhole]
    · rw [hwhole]
      simp
    · rw [hwhole]
      exact Path.getLast?_append_segment _ hrest

theorem continues_of_create (hdir : dir = "." ∨ rules.Admits dir) (hname : Path.IsSegment name)
    (hdot : name ≠ ".") (hentry : Entry.create (Path.join dir name) attrs rules = .ok entry) :
    Path.Continues dir name entry.path := by
  by_cases hroot : dir = "."
  · refine ⟨hname, .inl hroot, fun htidy => ?_⟩
    have hjoin : Path.join dir name = name := if_pos (.inl hroot)
    have hlast := Path.getLast?_append_segment "" hname
    rw [String.empty_append] at hlast
    rw [hjoin] at hentry ⊢
    rw [path_of_create_trimmed hentry (by rw [htidy]; exact hname.1) (by rw [htidy]; exact hlast),
      htidy]
  · have hadmits := hdir.resolve_left hroot
    have hpath := path_of_create_join hadmits hroot hname hdot hentry
    refine ⟨hname, ?_, fun htidy => ?_⟩
    · rw [hpath]
      split
      · exact .inr (.inl String.append_empty)
      · exact .inr (.inr ⟨_, String.append_assoc.symm⟩)
    · have hwhole : name.toList.rdropWhile Text.isBlank = name.toList := by
        rw [List.rdropWhile_eq_self_iff]
        intro hne
        simp [(Text.trim_eq_self_iff.mp htidy).2 _ (List.getLast?_eq_getLast_of_ne_nil hne)]
      have hne : name.toList ≠ [] := fun hnil => hname.1 (String.toList_eq_nil_iff.mp hnil)
      rw [hpath, hwhole, if_neg hne, String.ofList_toList, Path.join,
        if_neg (not_or.mpr ⟨hroot, hadmits.nonempty⟩), if_neg (not_or.mpr ⟨hdot, hname.1⟩),
        if_neg hadmits.unslashed, String.append_assoc]

end PathRules

namespace Tree

namespace Store

variable {store store' grown : Store} {base name : String} {i j home inode : Nat}
  {way : List String}

/-- The path of every child continues that of its directory. -/
def Continued (store : Store) : Prop :=
  ∀ i name j, store.child? i name = some (.node j) →
    Path.Continues (store.pathOf i) name (store.pathOf j)

theorem continued_create (config : Config) (rules : PathRules) (now : Time) :
    (Store.create config rules now).Continued := by
  intro i name j hchild
  obtain ⟨hlt, hsome, -⟩ := (shape_create config rules now).edge i name j hchild
  obtain ⟨node, hnode⟩ := Option.isSome_iff_exists.mp hsome
  obtain ⟨rfl, -⟩ := node?_create hnode
  obtain rfl := Nat.lt_one_iff.mp hlt
  cases hchild

theorem Change.continued (hstep : Change Path.IsSegment store store') (hshape : store.Shape)
    (hadmitted : store.Admitted) (hcontinued : store.Continued) : store'.Continued := by
  intro i query j hlook
  rcases hstep.sameForms_or_addNode with
    hforms | ⟨parent, name, node, _, rfl, hparent, hname, hfree, hentry, -, hfresh⟩
  · rw [hforms.child?_eq] at hlook
    rw [hforms.pathOf_eq, hforms.pathOf_eq]
    exact hcontinued i query j hlook
  rw [pathOf_addNode hparent, pathOf_addNode hparent]
  rcases child?_addNode_cases hparent hfree (fun d hd => (hfresh d hd).1) hlook with
    ⟨rfl, rfl, hchild⟩ | ⟨-, hchild⟩ | hbefore
  · obtain rfl := Child.node.inj hchild
    have hdot : query ≠ "." := by
      rintro rfl
      rw [hshape.self i hparent] at hfree
      cases hfree
    rw [if_pos rfl, if_neg (store.ne_nextInode_of_dir? hparent)]
    exact PathRules.continues_of_create (hadmitted i (store.isSome_node?_of_dir? hparent)) hname
      hdot hentry
  · cases hchild
  · rw [if_neg (store.ne_nextInode_of_dir? (dir?_isSome_of_child? hbefore)),
      if_neg (store.ne_nextInode_of_node? (hshape.edge i query j hbefore).2.1)]
    exact hcontinued i query j hbefore

/-- Whatever is reached from a directory lies at its path or below it. -/
theorem Continued.atOrBelow_of_leads (hcontinued : store.Continued) (hshape : store.Shape)
    (hleads : store.leads i way = some j) : Path.AtOrBelow (store.pathOf i) (store.pathOf j) := by
  induction way generalizing i with
  | nil =>
    obtain rfl := Option.some.inj hleads
    exact .refl _
  | cons name rest ih =>
    rw [leads_cons] at hleads
    obtain ⟨child, hchild, hrest⟩ := Option.bind_eq_some_iff.mp hleads
    cases child with
    | node k => exact (hcontinued i name k hchild).below.trans (ih hrest)
    | dot k =>
      obtain rfl := hshape.dot i name k hchild
      rw [hshape.self i (dir?_isSome_of_child? hchild)] at hchild
      obtain rfl := Child.dot.inj (Option.some.inj hchild)
      exact ih hrest

/-- The node is reached from a directory of which `base` is the path. -/
def Reaches (store : Store) (base : String) (inode : Nat) : Prop :=
  ∃ home way, (store.dir? home).isSome ∧ base = store.pathOf home ∧
    store.leads home way = some inode

theorem Reaches.of_changes {named : String → Prop} (hreaches : store.Reaches base inode)
    (hchanges : Changes named store store') : store'.Reaches base inode := by
  obtain ⟨home, way, hhome, rfl, hleads⟩ := hreaches
  exact ⟨home, way, hchanges.dir?_isSome hhome,
    (hchanges.pathOf_eq (store.isSome_node?_of_dir? hhome)).symm, hchanges.leads_eq_some hleads⟩

/-- The entry of a child shows the name that its directory has for it. -/
theorem Reaches.name_of_child {node : Node} (hreaches : store.Reaches base i)
    (hshape : store.Shape) (hadmitted : store.Admitted) (hcontinued : store.Continued)
    (hchild : store.child? i name = some (.node j)) (hnode : store.node? j = some node)
    (htidy : Text.trim name = name) : (node.entry.rebased base).name = name := by
  obtain ⟨home, way, -, rfl, hleads⟩ := hreaches
  have hcontinues := hcontinued i name j hchild
  have hpath : node.entry.path = Path.join (store.pathOf i) name := by
    rw [← store.pathOf_of_node? hnode, hcontinues.tidy htidy]
  have hdir : store.pathOf i = "." ∨ store.rules.Admits (store.pathOf i) :=
    hadmitted i (store.isSome_node?_of_dir? (dir?_isSome_of_child? hchild))
  have hname := Path.base_stripBase (hcontinued.atOrBelow_of_leads hshape hleads)
    (hdir.imp_right (·.nonempty))
    (hdir.elim (fun hroot => by rw [hroot]; decide) (·.unslashed)) hcontinues.segment
    (hshape.edge i name j hchild).2.2
  unfold Entry.name Entry.rebased
  rw [hpath]
  cases hstrip : Path.stripBase (store.pathOf home) (Path.join (store.pathOf i) name) with
  | none =>
    rw [hstrip] at hname
    simpa [hpath] using hname
  | some relative =>
    rw [hstrip] at hname
    exact hname

end Store

/-- An opened handle stands below the root of its view, and the base that it has is the path of the
root. -/
theorem View.reaches_of_openNode {view : View} {store opened : Store} {clock : Clock}
    {path : String} {flags : OpenFlags} {mode : FileMode} {handle : Handle} (hshape : store.Shape)
    (hroot : (store.dir? view.root).isSome)
    (hopen : view.openNode store clock path flags mode = (.ok handle, opened)) :
    opened.Reaches handle.base handle.target.inode := by
  obtain ⟨cleaned, grown, inode, -, hopens, honNode⟩ := openNode_eq_ok hopen
  obtain ⟨way, hleads⟩ := hopens.exists_leads hroot
  have hreaches : grown.Reaches (view.base grown) inode :=
    ⟨view.root, way, (hopens.changes hroot).dir?_isSome hroot, rfl, hleads⟩
  have hbase := (Handle.onNode_opened grown inode flags cleaned (view.base grown)).2.1
  have htarget := (Handle.target_onNode (hopens.isSome_node? hshape hroot) flags cleaned
    (view.base grown)).1
  have hchanges : Store.Changes (fun _ => True) grown _ :=
    Handle.onNode_changes grown inode flags cleaned (view.base grown)
  rw [honNode] at hbase htarget hchanges
  rw [hbase, htarget]
  exact hreaches.of_changes hchanges

namespace Session

variable {session : Session}

theorem ReachableBy.continued (hreach : session.Reachable) : session.store.Continued := by
  have hall : session.store.Shape ∧ session.store.Admitted ∧ session.store.Continued :=
    hreach.store_induction (P := fun s => s.Shape ∧ s.Admitted ∧ s.Continued)
      (fun hrooted _ => step_changes_segment hrooted _ _)
      (fun config rules now _ => ⟨Store.shape_create config rules now,
        Store.admitted_create config rules now, Store.continued_create config rules now⟩)
      fun hstep h => ⟨hstep.shape h.1, hstep.admitted h.2.1, hstep.continued h.1 h.2.1 h.2.2⟩
  exact hall.2.2

/-- The node of every handle is reached from the base of the handle. -/
def Homed (session : Session) : Prop :=
  ∀ handle ∈ session.handles, session.store.Reaches handle.base handle.target.inode

theorem homed_takeHandle {view : View} {clock : Clock} {flags : OpenFlags} {mode : FileMode}
    (hhomed : session.Homed) (hshape : session.store.Shape)
    (hroot : (session.store.dir? view.root).isSome) (operation : Operation) (path : String)
    (hchanges : Store.Changes Path.IsSegment session.store
      (session.takeHandle (FsError.tag operation path
        (view.openNode session.store clock path flags mode).1,
        (view.openNode session.store clock path flags mode).2)).2.store) :
    (session.takeHandle (FsError.tag operation path
      (view.openNode session.store clock path flags mode).1,
      (view.openNode session.store clock path flags mode).2)).2.Homed := by
  rcases hopen : view.openNode session.store clock path flags mode with ⟨e | opened, store⟩
  · rw [hopen] at hchanges
    exact fun handle hmem => (hhomed handle hmem).of_changes hchanges
  · rw [hopen] at hchanges
    intro handle hmem
    simp only [takeHandle, FsError.tag_ok, List.mem_append, List.mem_singleton] at hmem
    rcases hmem with hmem | rfl
    · exact (hhomed handle hmem).of_changes hchanges
    · exact View.reaches_of_openNode hshape hroot hopen

theorem Homed.viewStep (hhomed : session.Homed) (hshape : session.store.Shape) (clock : Clock)
    {view : View} (hroot : (session.store.dir? view.root).isSome) (command : ViewCommand)
    (hchanges : Store.Changes Path.IsSegment session.store
      (session.viewStep clock view command).2.store) :
    (session.viewStep clock view command).2.Homed := by
  have hkept : ∀ handle ∈ session.handles,
      (session.viewStep clock view command).2.store.Reaches handle.base handle.target.inode :=
    fun handle hmem => (hhomed handle hmem).of_changes hchanges
  cases command with
  | openRead path => exact homed_takeHandle hhomed hshape hroot .open path hchanges
  | openFile path flags mode => exact homed_takeHandle hhomed hshape hroot .openFile path hchanges
  | create path => exact homed_takeHandle hhomed hshape hroot .create path hchanges
  | dirIter path =>
    simp only [Session.viewStep]
    split <;> exact hhomed
  | sub path =>
    simp only [Session.viewStep]
    split <;> exact hhomed
  | _ => exact hkept

theorem Homed.step (hhomed : session.Homed) (hshape : session.store.Shape)
    (hrooted : session.Rooted) (clock : Clock) (command : Command) :
    (session.step clock command).2.Homed := by
  have hchanges := step_changes_segment hrooted clock command
  cases command with
  | view i command =>
    simp only [Session.step] at hchanges ⊢
    split
    · next view hview =>
      rw [hview] at hchanges
      exact hhomed.viewStep hshape clock (hrooted view (List.mem_of_getElem? hview)) command
        hchanges
    · exact hhomed
  | handle i command =>
    cases hget : session.handles[i]? with
    | none =>
      simp only [Session.step, hget]
      exact hhomed
    | some handle =>
      rw [step_handle hget] at hchanges ⊢
      intro moved hmem
      rcases List.mem_or_eq_of_mem_set hmem with hold | rfl
      · exact (hhomed moved hold).of_changes hchanges
      · obtain ⟨readOff, writeOff, pager, hmoved⟩ :=
          handle.movedOn_perform session.store clock command
        rw [hmoved]
        exact (hhomed handle (List.mem_of_getElem? hget)).of_changes hchanges
  | pager i command =>
    simp only [Session.step]
    split
    · cases command <;> exact hhomed
    · exact hhomed

theorem ReachableBy.homed (hreach : session.Reachable) : session.Homed := by
  induction hreach with
  | build hbuild =>
    obtain ⟨-, rfl⟩ := eq_create_of_build hbuild
    exact fun handle hmem => nomatch hmem
  | step hreach _ ih => exact ih.step hreach.shape hreach.rooted _ _

end Session

end Tree

end VirtualFs
