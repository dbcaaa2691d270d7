import VirtualFs.Proofs.Path.Trimming
import VirtualFs.Proofs.Tree.Shape

namespace VirtualFs

namespace Text

/-- Behind a separator only the blanks at the end go. -/
theorem trimChars_append_separator {front : List Char} (hne : front ≠ [])
    (htrim : trimChars front = front) (name : List Char) :
    trimChars (front ++ Path.separator :: name) =
      front ++ Path.separator :: name.rdropWhile isBlank := by
  have hstart : (front ++ Path.separator :: name).dropWhile isBlank =
      front ++ Path.separator :: name := by
    obtain ⟨c, cs, rfl⟩ := List.exists_cons_of_ne_nil hne
    have hfirst : isBlank c = false := (trimChars_eq_self_iff.mp htrim).1 c rfl
    simp [hfirst]
  have hend : (name.reverse.dropWhile isBlank).isEmpty = true → name.rdropWhile isBlank = [] := by
    simp [List.rdropWhile]
  rw [trimChars, hstart, List.reverse_append, List.reverse_cons, List.append_assoc,
    List.dropWhile_append]
  split
  · next hempty => simp [hend hempty, Path.isBlank_separator]
  · simp [List.rdropWhile]

theorem mem_of_mem_trimChars {c : Char} {cs : List Char} (hmem : c ∈ trimChars cs) : c ∈ cs :=
  (List.dropWhile_suffix isBlank).subset
    ((List.rdropWhile_prefix isBlank (cs.dropWhile isBlank)).subset hmem)

end Text

namespace PathRules

/-- What the rules accept as it stands, since no cleaning changes it. -/
structure Admits (rules : PathRules) (path : String) : Prop where
  nonempty : path ≠ ""
  trimmed : Text.trim path = path
  unslashed : path.toList.getLast? ≠ some Path.separator
  accepted : rules.accepts path = true

variable {rules : PathRules} {path parent name : String} {attrs : Attributes} {entry : Entry}

/-- Where trimming leaves no separator at the end, the path that was accepted is the one stored. -/
theorem admits_of_create (hentry : Entry.create path attrs rules = .ok entry)
    (hlast : (Text.trim path).toList.getLast? ≠ some Path.separator) :
    entry.path = "." ∨ rules.Admits entry.path := by
  have haccepted := Entry.accepts_of_create hentry
  unfold Entry.create at hentry
  rw [PathRules.clean_eq, if_pos haccepted, Path.cleaned_eq_trim hlast] at hentry
  obtain rfl := Except.ok.inj hentry
  by_cases hempty : Text.trim path = ""
  · simp only [if_pos hempty, true_or]
  · simp only [if_neg hempty]
    exact .inr ⟨hempty, Text.trim_trim path, hlast, haccepted⟩

/-- Where trimming leaves a separator at the end, the path before it is stored. -/
theorem path_of_create (hentry : Entry.create path attrs rules = .ok entry) (hne : parent ≠ "")
    (htrim : (Text.trim path).toList = parent.toList ++ [Path.separator]) :
    entry.path = parent := by
  have hcleaned : Path.cleaned path = parent := by
    rw [Path.cleaned, htrim, Path.dropSlash, List.getLast?_concat, if_pos rfl, List.dropLast_concat,
      String.ofList_toList]
  unfold Entry.create at hentry
  rw [PathRules.clean_eq, if_pos (Entry.accepts_of_create (by unfold Entry.create; exact hentry)),
    hcleaned] at hentry
  obtain rfl := Except.ok.inj hentry
  exact if_neg hne

/-- What trimming leaves of the path of a child: at most blanks of its name go. -/
theorem Admits.toList_trim_join (hparent : rules.Admits parent) (hinner : parent ≠ ".")
    (hname : Path.IsSegment name) (hdot : name ≠ ".") :
    (Text.trim (Path.join parent name)).toList =
      parent.toList ++ Path.separator :: name.toList.rdropWhile Text.isBlank := by
  have hjoin : Path.join parent name = parent ++ "/" ++ name := by
    rw [Path.join, if_neg (not_or.mpr ⟨hinner, hparent.nonempty⟩),
      if_neg (not_or.mpr ⟨hdot, hname.1⟩), if_neg hparent.unslashed]
  have hfront : Text.trimChars parent.toList = parent.toList := by
    rw [← Text.toList_trim, hparent.trimmed]
  rw [hjoin, Text.toList_trim, String.toList_append, String.toList_append, List.append_assoc]
  exact Text.trimChars_append_separator
    (fun hnil => hparent.nonempty (String.toList_eq_nil_iff.mp hnil)) hfront name.toList

/-- The path of a child is admitted if that of its parent is: what a name of blanks leaves of it is
the path of the parent. -/
theorem admits_of_create_join (hparent : parent = "." ∨ rules.Admits parent)
    (hname : Path.IsSegment name)
    (hentry : Entry.create (Path.join parent name) attrs rules = .ok entry) :
    entry.path = "." ∨ rules.Admits entry.path := by
  have hunslashed : (Text.trim name).toList.getLast? ≠ some Path.separator := by
    intro hlast
    rw [Text.toList_trim] at hlast
    exact hname.2 (Text.mem_of_mem_trimChars (List.mem_of_getLast? hlast))
  by_cases hdotParent : parent = "."
  · subst hdotParent
    exact admits_of_create hentry hunslashed
  have hparent := hparent.resolve_left hdotParent
  by_cases hdotName : name = "."
  · have hjoin : Path.join parent name = parent := by
      rw [Path.join, if_neg (not_or.mpr ⟨hdotParent, hparent.nonempty⟩), if_pos (.inl hdotName)]
    rw [hjoin] at hentry
    exact admits_of_create hentry (by rw [hparent.trimmed]; exact hparent.unslashed)
  have htrim := hparent.toList_trim_join hdotParent hname hdotName
  by_cases hblank : name.toList.rdropWhile Text.isBlank = []
  · rw [hblank] at htrim
    rw [path_of_create hentry hparent.nonempty htrim]
    exact .inr hparent
  · refine admits_of_create hentry ?_
    rw [htrim, List.getLast?_append_of_ne_nil _ (List.cons_ne_nil _ _),
      List.getLast?_cons_of_ne_nil hblank]
    intro hlast
    exact hname.2 ((List.rdropWhile_prefix Text.isBlank name.toList).subset
      (List.mem_of_getLast? hlast))

end PathRules

namespace Tree

namespace Store

variable {store store' : Store}

/-- The path of every node is that of the root or one that the rules admit. -/
def Admitted (store : Store) : Prop :=
  ∀ i, (store.node? i).isSome → store.pathOf i = "." ∨ store.rules.Admits (store.pathOf i)

theorem admitted_create (config : Config) (rules : PathRules) (now : Time) :
    (Store.create config rules now).Admitted := by
  intro i hnode
  obtain ⟨node, hnode⟩ := Option.isSome_iff_exists.mp hnode
  obtain ⟨rfl, -⟩ := node?_create hnode
  exact .inl rfl

/-- A node is only ever added under a path that its parent's admitted path leads to. -/
theorem Change.admitted (hstep : Change Path.IsSegment store store') (hadmitted : store.Admitted) :
    store'.Admitted := by
  have hrules := hstep.rules_eq
  intro i hnode
  rw [hrules]
  rcases hstep.sameForms_or_addNode with
    hforms | ⟨parent, name, node, _, rfl, hparent, hname, -, hentry, -, -⟩
  · rw [hforms.isSome_node?] at hnode
    rw [hforms.pathOf_eq]
    exact hadmitted i hnode
  · rw [pathOf_addNode hparent]
    rcases (isSome_node?_addNode hparent i).mp hnode with rfl | hold
    · rw [if_pos rfl]
      exact PathRules.admits_of_create_join
        (hadmitted parent (store.isSome_node?_of_dir? hparent)) hname hentry
    · rw [if_neg (store.ne_nextInode_of_node? hold)]
      exact hadmitted i hold

end Store

namespace Session

variable {session : Session}

theorem ReachableBy.admitted (hreach : session.Reachable) : session.store.Admitted :=
  hreach.store_induction (fun hrooted _ => step_changes_segment hrooted _ _)
    (fun config rules now _ => Store.admitted_create config rules now) fun hstep => hstep.admitted

/-- A run keeps the rules that the tree was built with. -/
theorem rules_run_of_build {config : Config} {rules : Option PathRules} {now : Time}
    (hbuild : Session.build config rules now = .ok session) (commands : List (Clock × Command)) :
    (session.run commands).2.store.rules = rules.getD config.pathPolicy.rules := by
  have hreach : session.Reachable := .build hbuild
  rw [hreach.rooted.rules_run]
  obtain ⟨-, rfl⟩ := eq_create_of_build hbuild
  rfl

end Session

/-- Whatever the rules are and whatever a run does through whatever views: the path in the whole
tree of every node in it, unless it is the root's, is one that the rules accept. -/
theorem accepts_path_of_run {config : Config} {rules : Option PathRules} {now : Time}
    {start : Session} (hbuild : Session.build config rules now = .ok start)
    (commands : List (Clock × Command)) {inode : Nat} {node : Node}
    (hnode : (start.run commands).2.store.node? inode = some node) (hpath : node.entry.path ≠ ".") :
    (rules.getD config.pathPolicy.rules).accepts node.entry.path = true := by
  have hadmitted := ((Session.ReachableBy.build hbuild).run commands).admitted inode
    (by rw [hnode]; rfl)
  rw [Session.rules_run_of_build hbuild, Store.pathOf, hnode] at hadmitted
  exact (hadmitted.resolve_left hpath).accepted

/-- All paths but one, which a view of `"a"` calls `"x"`. -/
def allButOne : PathRules :=
  ⟨fun path => path != "a/x"⟩

/-- Through the view of `"a"`: a file with the parents that it needs, a directory whose name is a
blank, and the path that is refused. -/
def throughView : List (Clock × Command) :=
  [(fun k => k, .view 0 (.mkdir "a" ⟨0o755⟩)), (fun k => k, .view 0 (.sub "a")),
    (fun k => k, .view 1 (.writeFile "b/c/f" [1] ⟨0o644⟩)),
    (fun k => k, .view 1 (.mkdirAll "b/ /x" ⟨0o755⟩)), (fun k => k, .view 1 (.mkdir "x" ⟨0o755⟩))]

theorem accepts_path_of_run_throughView :
    ((Session.create .standard allButOne 0).run throughView).1.getLast? =
        some (.error (.tagged .mkdir "x" (.invalidPath "a/x"))) ∧
      [2, 3, 4, 5, 6, 7].map ((Session.create .standard allButOne 0).run throughView).2.store.pathOf =
        ["a", "a/b", "a/b/c", "a/b/c/f", "a/b", "a/b/x"] ∧
      ∃ node, ((Session.create .standard allButOne 0).run throughView).2.store.node? 4 = some node ∧
        node.entry.path = "a/b/c" ∧ allButOne.accepts node.entry.path = true := by
  have hpaths : [2, 3, 4, 5, 6, 7].map
      ((Session.create .standard allButOne 0).run throughView).2.store.pathOf =
        ["a", "a/b", "a/b/c", "a/b/c/f", "a/b", "a/b/x"] := by decide +kernel
  have hsome : (((Session.create .standard allButOne 0).run throughView).2.store.node? 4).isSome := by
    decide +kernel
  obtain ⟨node, hnode⟩ := Option.isSome_iff_exists.mp hsome
  have hpath : node.entry.path = "a/b/c" := by
    have hthird := congrArg (·[2]?) hpaths
    simpa [Store.pathOf, hnode] using hthird
  exact ⟨by decide +kernel, hpaths, node, hnode, hpath,
    accepts_path_of_run (Session.build_eq_ok Config.standard_valid (some allButOne) 0) throughView
      hnode (by rw [hpath]; decide)⟩

end Tree

end VirtualFs
