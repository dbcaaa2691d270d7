import VirtualFs.Proofs.Tree.SubWalk

namespace VirtualFs.Tree

/-- An operation of a view that is about one path, the path left out. -/
inductive PathCommand where
  | stat
  | openRead
  | openFile (flags : OpenFlags) (mode : FileMode)
  | create
  | content
  | writeFile (data : Bytes) (mode : FileMode)
  | mkdir (mode : FileMode)
  | mkdirAll (mode : FileMode)
  | readDir
  | sub

namespace PathCommand

/-- The operation with its path. -/
def onPath (path : String) : PathCommand → ViewCommand
  | stat => .stat path
  | openRead => .openRead path
  | openFile flags mode => .openFile path flags mode
  | create => .create path
  | content => .content path
  | writeFile data mode => .writeFile path data mode
  | mkdir mode => .mkdir path mode
  | mkdirAll mode => .mkdirAll path mode
  | readDir => .readDir path
  | sub => .sub path

/-- The operation needs a name at the end of its path. -/
def NeedsName : PathCommand → Prop
  | mkdir _ => True
  | _ => False

end PathCommand

/-- The values that two views show are the same, but for the paths of entries. -/
def Reply.SeenFrom (base : String) : Reply → Reply → Prop
  | .entry inner, .entry outer => outer.seenFrom? base = some inner
  | .entries inner, .entries outer => outer.map (Entry.seenFrom? base) = inner.map some
  | inner, outer => inner = outer

/-- The outcomes of an operation in the session `before` through the view at `base` and through the
view of the whole. They leave the same tree, and a handle that both open differs only by its
paths. -/
structure SeenFrom (before : Session) (base : String)
    (inner outer : Except FsError Reply × Session) : Prop where
  answer : Alike (Reply.SeenFrom base) inner.1 outer.1
  store : inner.2.store = outer.2.store
  views : inner.2.views = outer.2.views
  pagers : inner.2.pagers = outer.2.pagers
  handles : inner.2.handles = outer.2.handles ∨
    ∃ opened openedWhole, inner.2.handles = before.handles ++ [opened] ∧
      outer.2.handles = before.handles ++ [openedWhole] ∧ openedWhole.seenFrom? base = some opened

namespace SeenFrom

variable {session : Session} {base : String}

/-- Operations that open a handle. -/
theorem takeHandle {inner outer : Except FsError Handle × Store}
    (hanswer : Alike (fun inner outer => outer.seenFrom? base = some inner) inner.1 outer.1)
    (hstore : inner.2 = outer.2) :
    SeenFrom session base (session.takeHandle inner) (session.takeHandle outer) := by
  obtain ⟨e | inner, store⟩ := inner <;> obtain ⟨e' | outer, store'⟩ := outer
  · exact ⟨hanswer, hstore, rfl, rfl, .inl rfl⟩
  · exact hanswer.elim
  · exact hanswer.elim
  · exact ⟨rfl, hstore, rfl, rfl, .inr ⟨inner, outer, rfl, rfl, hanswer⟩⟩

/-- Operations that answer nothing. -/
theorem settle {inner outer : Except FsError Unit × Store} (hanswer : Alike Eq inner.1 outer.1)
    (hstore : inner.2 = outer.2) :
    SeenFrom session base (session.settle inner) (session.settle outer) :=
  ⟨hanswer.map fun _ _ _ => rfl, hstore, rfl, rfl, .inl rfl⟩

/-- Operations that only look. -/
theorem look {inner outer : Except FsError Reply}
    (hanswer : Alike (Reply.SeenFrom base) inner outer) :
    SeenFrom session base (inner, session) (outer, session) :=
  ⟨hanswer, rfl, rfl, rfl, .inl rfl⟩

end SeenFrom

/-- A directory that a view was made of is where its path leads. -/
theorem View.isAt_of_sub {store : Store} {dir : List String} {view : View}
    (hshape : store.TidyShape) (hsegmentwise : store.rules.Segmentwise) (hdir : Path.IsKey dir)
    (hsub : View.whole.sub store (Path.ofKey dir) = .ok view) : view.IsAt store dir := by
  unfold View.sub at hsub
  cases hfound : store.resolveDir View.whole.root (Path.ofKey dir) with
  | error e =>
    rw [hfound] at hsub
    cases hsub
  | ok inode =>
    rw [hfound] at hsub
    simp only [Except.map, FsError.tag_ok, Except.ok.injEq] at hsub
    subst hsub
    have hresolve := Store.resolve_of_resolveDir hfound
    have haccepts : store.rules.accepts (Path.ofKey dir) = true := by
      by_contra hrefused
      unfold Store.resolve at hresolve
      rw [PathRules.split_of_refused (by rw [Path.trim_ofKey hdir]; simpa using hrefused)]
        at hresolve
      cases hresolve
    rw [Store.resolve_ofKey hdir haccepts] at hresolve
    exact ⟨hshape, hsegmentwise, hdir, haccepts, Store.descend_eq_ok_iff.mp hresolve,
      Store.dir?_of_resolveDir hfound⟩

/-- An operation through the view of a directory is the operation through the view of the whole,
with the path of the directory in front. -/
theorem View.IsAt.viewStep {session : Session} {dir key : List String} {view : View}
    (h : view.IsAt session.store dir) (hkey : Path.IsKey key) (command : PathCommand)
    (hname : command.NeedsName → key ≠ []) (clock : Clock) :
    SeenFrom session (Path.ofKey dir)
      (session.viewStep clock view (command.onPath (Path.ofKey key)))
      (session.viewStep clock .whole (command.onPath (Path.ofKey (dir ++ key)))) := by
  cases command with
  | stat => exact .look ((h.stat hkey).map fun _ _ hseen => hseen)
  | openRead =>
    obtain ⟨hanswer, hstore⟩ := h.openNode hkey clock .rdonly ⟨0⟩
    exact .takeHandle (hanswer.tag _ _ _) hstore
  | openFile flags mode =>
    obtain ⟨hanswer, hstore⟩ := h.openNode hkey clock flags mode
    exact .takeHandle (hanswer.tag _ _ _) hstore
  | create =>
    obtain ⟨hanswer, hstore⟩ :=
      h.openNode hkey clock View.anew (.file session.store.config.fileMode)
    exact .takeHandle (hanswer.tag _ _ _) hstore
  | content =>
    obtain ⟨hanswer, hstore⟩ := h.content hkey clock
    exact ⟨hanswer.map fun _ _ heq => congrArg Reply.data heq, hstore, rfl, rfl, .inl rfl⟩
  | writeFile data mode =>
    obtain ⟨hanswer, hstore⟩ := h.writeFile hkey clock data mode
    exact .settle hanswer hstore
  | mkdir mode =>
    obtain ⟨hanswer, hstore⟩ := h.mkdir hkey (hname trivial) clock mode
    exact .settle hanswer hstore
  | mkdirAll mode =>
    obtain ⟨hanswer, hstore⟩ := h.mkdirAll hkey clock mode
    exact .settle hanswer hstore
  | readDir => exact .look ((h.readDir hkey).map fun _ _ hseen => hseen)
  | sub =>
    have hanswer := h.sub hkey
    simp only [PathCommand.onPath, Session.viewStep]
    cases hinner : view.sub session.store (Path.ofKey key) <;>
      cases houter : View.whole.sub session.store (Path.ofKey (dir ++ key)) <;>
      rw [hinner, houter] at hanswer
    · exact .look hanswer
    · exact hanswer.elim
    · exact hanswer.elim
    · obtain rfl := hanswer
      exact ⟨rfl, rfl, rfl, rfl, .inl rfl⟩

/-- In a tree all of whose nodes were made along tidy paths, every operation through the view of a
directory is the operation through the view of the whole with the path of the directory joined in
front: it leaves the same tree and shows the same, with paths seen from the directory. So a view
made of the view is the one made of the whole, and a walk of the view shows any visitor the part at
and below the directory of a walk of the whole. -/
theorem subView_eq_whole {session : Session} (hreach : session.TidilyReachable)
    (hrules : session.store.rules = .permissive ∨ session.store.rules = .strict)
    {dir : List String} (hdir : Path.IsKey dir) {view : View}
    (hsub : View.whole.sub session.store (Path.ofKey dir) = .ok view) :
    (∀ (clock : Clock) (command : PathCommand) (key : List String), Path.IsKey key →
      (command.NeedsName → key ≠ []) →
      SeenFrom session (view.base session.store)
        (session.viewStep clock view (command.onPath (Path.ofKey key)))
        (session.viewStep clock .whole
          (command.onPath (Path.join (Path.ofKey dir) (Path.ofKey key))))) ∧
    (∀ (key : List String) (inner : View), Path.IsKey key →
      (view.sub session.store (Path.ofKey key) = .ok inner ↔
        View.whole.sub session.store (Path.join (Path.ofKey dir) (Path.ofKey key)) = .ok inner)) ∧
    ∀ {m : Type → Type} [Monad m] [LawfulMonad m] (visit : Visit → m Unit),
      view.walk session.store visit = View.whole.walk session.store fun shown =>
        (shown.seenFrom? (view.base session.store)).elim (pure ()) visit := by
  have hsegmentwise : session.store.rules.Segmentwise := by
    rcases hrules with hrules | hrules <;> rw [hrules]
    · exact PathRules.segmentwise_permissive
    · exact PathRules.segmentwise_strict
  have h := View.isAt_of_sub hreach.tidyShape hsegmentwise hdir hsub
  rw [h.base_eq]
  refine ⟨fun clock command key hkey hname => ?_, fun key inner hkey => ?_, h.walk_eq⟩
  · rw [Path.join_ofKey hdir hkey]
    exact h.viewStep hkey command hname clock
  · rw [Path.join_ofKey hdir hkey]
    exact (h.sub hkey).ok_iff inner

/-- A tree of three levels: a directory, in it another, and a file in that. -/
def threeLevels : Session :=
  ((Session.create .standard .strict 0).step (fun k => k) (.view 0 (.mkdirAll "a/b" ⟨0⟩))).2.step
    (fun k => k) (.view 0 (.writeFile "a/b/f" [1, 2] ⟨0⟩)) |>.2

theorem subView_eq_whole_threeLevels :
    threeLevels.TidilyReachable ∧ View.whole.sub threeLevels.store "a" = .ok ⟨2, false⟩ ∧
      SeenFrom threeLevels "a"
        (threeLevels.viewStep (fun k => k) ⟨2, false⟩ (.writeFile "c/g" [3] ⟨0⟩))
        (threeLevels.viewStep (fun k => k) .whole (.writeFile "a/c/g" [3] ⟨0⟩)) ∧
      View.collect ⟨2, false⟩ threeLevels.store (fun shown => some shown.1) =
        [".", "b", "b/f"] := by
  have hbuild := Session.build_eq_ok Config.standard_valid (some .strict) 0
  have hreach : threeLevels.TidilyReachable :=
    .step (.step (.build hbuild) (.inl (by rintro path ⟨⟩; decide)))
      (.inl (by rintro path ⟨⟩; decide))
  have hdir : Path.IsKey ["a"] := by decide
  have hkey : Path.IsKey ["c", "g"] := by decide
  have hsub : View.whole.sub threeLevels.store "a" = .ok ⟨2, false⟩ := by decide +kernel
  have hbase : View.base ⟨2, false⟩ threeLevels.store = "a" := by decide +kernel
  have hjoined : Path.join (Path.ofKey ["a"]) (Path.ofKey ["c", "g"]) = "a/c/g" := by
    decide +kernel
  have hwhole := (subView_eq_whole hreach (.inr rfl) hdir hsub).1 (fun k => k)
    (.writeFile [3] ⟨0⟩) ["c", "g"] hkey (by simp)
  rw [hbase, hjoined] at hwhole
  exact ⟨hreach, hsub, hwhole, by decide +kernel⟩

end VirtualFs.Tree
