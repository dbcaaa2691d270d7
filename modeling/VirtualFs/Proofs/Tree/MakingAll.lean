import VirtualFs.Proofs.Tree.Timeliness

namespace VirtualFs.Tree

namespace Store

variable {store : Store} {clock : Clock} {dir parent : Nat} {name : String} {names : List String}
  {mode : FileMode}

/-- A store that accepts every path and whose times are not ahead of the clock. -/
structure Current (store : Store) (clock : Clock) : Prop where
  permissive : store.rules = .permissive
  timely : store.Timely (clock store.stage)

/-- A missing directory is made, and the time of its parent follows. -/
theorem Current.mkdirIn (h : store.Current clock) (hclock : clock.Monotone)
    (hparent : (store.dir? parent).isSome) (hdot : name ≠ ".")
    (hfree : store.child? parent name = none) (mode : FileMode) :
    ∃ inode grown, store.mkdirIn clock parent name mode = (.ok inode, grown) ∧
      grown.Current clock := by
  obtain ⟨entry, hentry⟩ := Flattens.create_permissive (Path.join (store.pathOf parent) name)
    (.createdAt (clock store.stage) mode.asDir store.nextInode)
  obtain ⟨d, hd⟩ := Option.isSome_iff_exists.mp hparent
  have hadded : (store.addNode parent name (.dir (.empty store.nextInode entry))).dir? parent =
      some { d with children := d.children.insert name (.node store.nextInode) } := by
    rw [store.dir?_addNode hparent, if_neg (store.ne_nextInode_of_dir? hparent), if_pos rfl, hd]
    rfl
  have hlater : clock store.stage ≤ clock (store.stage + 1) := hclock (Nat.le_succ _)
  obtain ⟨hctime, hmtime⟩ := h.timely parent _ ((store.dir?_eq_some_iff).mp hd)
  obtain ⟨grown, htouch⟩ := touch_of_le hadded (hctime.trans hlater) (hmtime.trans hlater)
  have hmade : store.mkdirIn clock parent name mode = (.ok store.nextInode, grown) := by
    unfold Store.mkdirIn
    rw [if_neg hdot]
    simp only [hfree, Option.isSome_none, Bool.false_eq_true, if_false, h.permissive, hentry,
      htouch]
  refine ⟨store.nextInode, grown, hmade, ?_, ?_⟩
  · have hchanges : Changes (fun _ => True) store (store.mkdirIn clock parent name mode).2 :=
      store.mkdirIn_changes clock mode hparent trivial
    rw [hmade] at hchanges
    rw [hchanges.rules_eq, h.permissive]
  · obtain ⟨-, hnext, -⟩ := node?_of_mkdirIn hd hmade
    have hstage : grown.stage = store.stage + 2 := by
      rw [stage, hnext, stage]
      omega
    have hlast : clock store.stage ≤ clock grown.stage := hclock (by omega)
    have hgrown := (h.timely.mono hlast).mkdirIn hlast (hclock (by omega)) hparent name mode
    rwa [hmade] at hgrown

/-- So are all directories along names none of which is there. -/
theorem Current.mkdirAlong (h : store.Current clock) (hclock : clock.Monotone)
    (hparent : (store.dir? parent).isSome) (hdots : ∀ s ∈ names, s ≠ ".")
    (hfree : ∀ s ∈ names.head?, store.child? parent s = none) (mode : FileMode) :
    ∃ inode grown, store.mkdirAlong clock parent mode names = (.ok inode, grown) := by
  induction names generalizing store parent with
  | nil => exact ⟨parent, store, rfl⟩
  | cons name rest ih =>
    obtain ⟨hdot, hrest⟩ := List.forall_mem_cons.mp hdots
    have hname : store.child? parent name = none := hfree name rfl
    obtain ⟨inode, middle, hmade, hmiddle⟩ := h.mkdirIn hclock hparent hdot hname mode
    obtain ⟨inode', grown, hgrown⟩ := ih hmiddle (dir?_of_mkdirIn hparent hmade) hrest
      fun s hs => child?_of_mkdirIn hparent hmade (hrest s (List.mem_of_mem_head? hs))
    refine ⟨inode', grown, ?_⟩
    unfold Store.mkdirAlong
    rw [if_neg hdot, hname]
    simp only [hmade, hgrown]

end Store

namespace View

variable {view : View} {store later : Store} {clock : Clock} {path : String} {mode : FileMode}
  {e : FsError} {inode : Nat}

/-- What making a directory with all its parents comes to. The names are the segments of the path,
`"."` left out. -/
structure MakesAll (view : View) (store : Store) (clock : Clock) (path : String) (mode : FileMode) :
    Prop where
  succeeds : (view.mkdirAll store clock path mode).1 = .ok () ↔
    ¬ store.FileAlong view.root (Store.way path)
  refused : ∀ e later, view.mkdirAll store clock path mode = (.error e, later) →
    e.kind = .notADirectory ∧ later = store
  made : ∀ later, view.mkdirAll store clock path mode = (.ok (), later) →
    store.MissingMade later clock view.root (Store.way path) mode
  resolved : ∀ later, view.mkdirAll store clock path mode = (.ok (), later) →
    ∃ inode, later.resolve view.root path = .ok inode ∧ (later.dir? inode).isSome
  again : ∀ later, view.mkdirAll store clock path mode = (.ok (), later) →
    ∀ clock' mode', view.mkdirAll later clock' path mode' = (.ok (), later)

theorem mkdirAll_of_ok (hrules : store.rules = .permissive)
    (hmade : store.mkdirAlong clock view.root mode (Store.way path) = (.ok inode, later)) :
    view.mkdirAll store clock path mode = (.ok (), later) := by
  have haccepts : store.rules.accepts (Text.trim path) = true := by rw [hrules]; rfl
  rw [mkdirAll, Store.mkdirAll_of_accepted haccepts, hmade]
  rfl

theorem mkdirAll_of_error (hrules : store.rules = .permissive)
    (hmade : store.mkdirAlong clock view.root mode (Store.way path) = (.error e, later)) :
    view.mkdirAll store clock path mode = (.error (.tagged .mkdirAll path e), later) := by
  have haccepts : store.rules.accepts (Text.trim path) = true := by rw [hrules]; rfl
  rw [mkdirAll, Store.mkdirAll_of_accepted haccepts, hmade]
  rfl

/-- With a file in the way nothing happens. -/
theorem makesAll_of_fileAlong (hrules : store.rules = .permissive)
    (hroot : (store.dir? view.root).isSome)
    (hfile : store.FileAlong view.root (Store.way path)) :
    view.MakesAll store clock path mode := by
  obtain ⟨e, hfail, hkind⟩ :=
    Store.mkdirAlong_of_fileAlong hroot Store.ne_dot_of_mem_way hfile clock mode
  have houtcome := mkdirAll_of_error hrules hfail
  have hnever : ∀ later, view.mkdirAll store clock path mode ≠ (.ok (), later) := by
    intro later hmade
    rw [houtcome] at hmade
    cases hmade
  constructor
  case succeeds =>
    rw [houtcome]
    exact iff_of_false (fun hok => by cases hok) (not_not_intro hfile)
  case refused =>
    intro e' later hmade
    obtain ⟨he, hlater⟩ := Prod.mk.inj (houtcome.symm.trans hmade)
    obtain rfl := Except.error.inj he
    exact ⟨hkind, hlater.symm⟩
  case made => exact fun later hmade => absurd hmade (hnever later)
  case resolved => exact fun later hmade => absurd hmade (hnever later)
  case again => exact fun later hmade => absurd hmade (hnever later)

/-- What was made along the names of a path makes all of it. -/
theorem makesAll_of_made (hrules : store.rules = .permissive) (hshape : store.Shape)
    (hroot : (store.dir? view.root).isSome)
    (hopen : ¬ store.FileAlong view.root (Store.way path))
    (hmade : store.mkdirAlong clock view.root mode (Store.way path) = (.ok inode, later)) :
    view.MakesAll store clock path mode := by
  have houtcome := mkdirAll_of_ok hrules hmade
  have hlater : ∀ later', view.mkdirAll store clock path mode = (.ok (), later') →
      later' = later := by
    intro later' hmade'
    exact (Prod.mk.inj (houtcome.symm.trans hmade')).2.symm
  have hchanges : Store.Changes (fun _ => True) store
      (store.mkdirAlong clock view.root mode (Store.way path)).2 :=
    store.mkdirAlong_changes clock mode hroot fun _ _ => trivial
  rw [hmade] at hchanges
  have hrules' : later.rules = .permissive := hchanges.rules_eq.trans hrules
  have hmissing := Store.missingMade_of_mkdirAlong hshape hroot Store.ne_dot_of_mem_way hmade
  obtain ⟨i, hleads, hdir⟩ := hmissing.found
  constructor
  case succeeds => exact iff_of_true (by rw [houtcome]) hopen
  case refused =>
    intro e later' hfail
    rw [houtcome] at hfail
    cases hfail
  case made =>
    intro later' hmade'
    rwa [hlater later' hmade']
  case resolved =>
    intro later' hmade'
    rw [hlater later' hmade']
    refine ⟨i, Store.resolve_eq_ok_iff_leads.mpr ⟨?_, hleads⟩, hdir⟩
    rw [hrules']
    rfl
  case again =>
    intro later' hmade' clock' mode'
    rw [hlater later' hmade']
    exact mkdirAll_of_ok hrules'
      (Store.mkdirAlong_of_found Store.ne_dot_of_mem_way hleads hdir clock' mode')

end View

namespace Session

variable {session : Session} {view : View} {clock : Clock}

/-- Making a directory with all its parents is all or nothing, on whatever path and in whatever
tree: it fails at a file along the path and leaves everything as it is, or it makes exactly the
directories that are missing. -/
theorem makesAll_mkdirAll (hreach : session.ReachableUntil (clock session.store.stage))
    (hclock : clock.Monotone) (hrules : session.store.rules = .permissive)
    (hview : view ∈ session.views) (path : String) (mode : FileMode) :
    view.MakesAll session.store clock path mode := by
  have hroot := hreach.reachable.rooted view hview
  have hshape := hreach.reachable.shape
  have hdots : ∀ s ∈ Store.way path, s ≠ "." := Store.ne_dot_of_mem_way
  rcases Store.fileAlong_or_parting hshape hroot hdots with
    hfile | ⟨front, back, parent, hway, hparting⟩
  · exact View.makesAll_of_fileAlong hrules hroot hfile
  · rw [hway] at hdots
    obtain ⟨hfront, hback⟩ := List.forall_mem_append.mp hdots
    have hcurrent : session.store.Current clock := ⟨hrules, hreach.timely⟩
    obtain ⟨inode, grown, hmade⟩ :=
      hcurrent.mkdirAlong hclock hparting.dir hback hparting.free mode
    rw [← hparting.mkdirAlong_eq hfront, ← hway] at hmade
    exact View.makesAll_of_made hrules hshape hroot (hway ▸ hparting.not_fileAlong) hmade

/-- What leads to a directory `a` that holds the file `f`, with a view of the directory. -/
def oneFileRun : List (Clock × Command) :=
  [(fun _ => 0, .view 0 (.mkdir "a" ⟨0o755⟩)),
    (fun _ => 0, .view 0 (.openFile "a/f" View.anew ⟨0o644⟩)),
    (fun _ => 0, .view 0 (.sub "a"))]

/-- Below the directory `a` the two directories of the path are missing. -/
theorem makesAll_mkdirAll_oneFile :
    (emptyTree.run oneFileRun).2.ReachableUntil (emptyTree.run oneFileRun).2.store.stage ∧
      (emptyTree.run oneFileRun).2.store.rules = .permissive ∧
      ⟨2, false⟩ ∈ (emptyTree.run oneFileRun).2.views ∧
      View.MakesAll ⟨2, false⟩ (emptyTree.run oneFileRun).2.store (fun k => k) " ./b//c d/"
        ⟨0o700⟩ := by
  have hstart : emptyTree.ReachableUntil (emptyTree.run oneFileRun).2.store.stage :=
    .build (Session.build_eq_ok Config.standard_valid (some .permissive) 0) (Int.natCast_nonneg _)
  have hreach := hstart.run oneFileRun fun c hc k => by
    simp only [oneFileRun, List.mem_cons, List.not_mem_nil, or_false] at hc
    rcases hc with rfl | rfl | rfl <;> exact Int.natCast_nonneg _
  have hrules := emptyTree_reachable.rooted.rules_run oneFileRun
  have hview : ⟨2, false⟩ ∈ (emptyTree.run oneFileRun).2.views := by decide +kernel
  have hclock : Clock.Monotone fun k => k := fun _ _ hkl => Int.ofNat_le.mpr hkl
  exact ⟨hreach, hrules, hview, makesAll_mkdirAll hreach hclock hrules hview " ./b//c d/" ⟨0o700⟩⟩

end Session

end VirtualFs.Tree
