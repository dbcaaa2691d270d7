import VirtualFs.Proofs.Tree.Lookups

namespace VirtualFs

theorem Entry.kind_of_setModTime {entry : Entry} {now : Time} {e : FsError}
    (hset : entry.setModTime now = .error e) : e.kind = .timeOrdering := by
  unfold setModTime Attributes.setMtime at hset
  split at hset
  · cases hset
  next hrefused =>
  obtain rfl := Except.error.inj hset
  split at hrefused
  · obtain rfl := Except.error.inj hrefused
    rfl
  · split at hrefused
    · obtain rfl := Except.error.inj hrefused
      rfl
    · cases hrefused

theorem Entry.create_eq_error {path : String} {attrs : Attributes} {rules : PathRules}
    (hrefused : rules.accepts (Text.trim path) = false) :
    create path attrs rules = .error (.invalidPath path) := by
  simp [create, PathRules.clean, hrefused]

theorem Entry.create_eq_ok {path : String} (attrs : Attributes) {rules : PathRules}
    (haccepts : rules.accepts (Text.trim path) = true) :
    ∃ entry, create path attrs rules = .ok entry := by
  simp [create, PathRules.clean, haccepts]

namespace Tree.Store

variable {store grown : Store} {clock : Clock} {dir parent inode : Nat} {names : List String}
  {name path missing : String} {mode : FileMode} {e : FsError}

theorem cell?_nextInode (store : Store) : store.cell? store.nextInode = none := by
  unfold cell?
  rw [node?_nextInode]

/-- The ways in which making a directory fails: before anything is done, with a number used up, and
with the directory there but the clock behind the time of its parent. -/
theorem mkdirIn_eq_error (hmade : store.mkdirIn clock parent name mode = (.error e, grown)) :
    grown = store ∨ grown = store.reserve ∨
      e.kind = .timeOrdering ∧ store.child? parent name = none ∧
        ∃ entry, grown = ((store.addNode parent name (.dir (.empty store.nextInode entry))).touch
          parent (clock (store.stage + 1))).2 := by
  unfold mkdirIn at hmade
  split at hmade
  · exact .inl (Prod.mk.inj hmade).2.symm
  dsimp only at hmade
  split at hmade
  · exact .inl (Prod.mk.inj hmade).2.symm
  next hfree =>
  split at hmade
  · exact .inr (.inl (Prod.mk.inj hmade).2.symm)
  next entry _ =>
  split at hmade
  · cases hmade
  next e' touched htouch =>
  obtain ⟨he, rfl⟩ := Prod.mk.inj hmade
  obtain rfl := Except.error.inj he
  refine .inr (.inr ⟨?_, by simpa using hfree, entry, by rw [htouch]⟩)
  unfold touch at htouch
  split at htouch
  · cases htouch
  split at htouch
  · cases htouch
  next hset =>
  obtain rfl := Except.error.inj (Prod.mk.inj htouch).1
  exact Entry.kind_of_setModTime hset

/-- No file is made or changed. -/
theorem cell?_mkdirIn (hparent : (store.dir? parent).isSome) (clock : Clock) (name : String)
    (mode : FileMode) (i : Nat) :
    (store.mkdirIn clock parent name mode).2.cell? i = store.cell? i := by
  have hadded : ∀ entry now, ((store.addNode parent name
      (.dir (.empty store.nextInode entry))).touch parent now).2.cell? i = store.cell? i := by
    intro entry now
    rw [cell?_touch, cell?_addNode store hparent]
    split
    · next hi => rw [hi, cell?_nextInode]
    · rfl
  cases hmade : store.mkdirIn clock parent name mode with
  | mk result grown =>
    cases result with
    | ok inode =>
      obtain ⟨-, -, -, entry, -, htouch⟩ := mkdirIn_eq_ok hmade
      have hsame := hadded entry (clock (store.stage + 1))
      rwa [htouch] at hsame
    | error e =>
      rcases mkdirIn_eq_error hmade with rfl | rfl | ⟨-, -, entry, rfl⟩
      · rfl
      · exact cell?_reserve store i
      · exact hadded entry _

/-- What is new stands under the name, also if the making failed. -/
theorem grownAlong_mkdirIn (hparent : (store.dir? parent).isSome) (clock : Clock) (name : String)
    (mode : FileMode) :
    GrownAlong store (store.mkdirIn clock parent name mode).2 parent [name] := by
  have hchanges : Changes (fun _ => True) store (store.mkdirIn clock parent name mode).2 :=
    store.mkdirIn_changes clock mode hparent trivial
  cases hmade : store.mkdirIn clock parent name mode with
  | mk result grown =>
    cases result with
    | ok inode => exact (mkdirIn_grownAlong hparent hmade).1
    | error e =>
      rw [hmade] at hchanges
      rcases mkdirIn_eq_error hmade with rfl | rfl | ⟨-, hfree, entry, hgrown⟩
      · exact .refl _ _ _
      · exact ⟨hchanges, fun i c hcell => by rwa [cell?_reserve],
          fun i hnode => .inl (by rwa [node?_reserve] at hnode)⟩
      · exact (grownAlong_touch_addDir hparent hfree hgrown hchanges).1

/-- A free name whose path the rules accept is taken afterwards, also if the making failed. -/
theorem isSome_node?_mkdirIn (hparent : (store.dir? parent).isSome) (hdot : name ≠ ".")
    (hfree : store.child? parent name = none)
    (haccepts : store.rules.accepts (Text.trim (Path.join (store.pathOf parent) name)) = true)
    (clock : Clock) (mode : FileMode) :
    ((store.mkdirIn clock parent name mode).2.node? store.nextInode).isSome := by
  obtain ⟨entry, hentry⟩ := Entry.create_eq_ok
    (.createdAt (clock store.stage) mode.asDir store.nextInode) haccepts
  have hthere : ((((store.addNode parent name (.dir (.empty store.nextInode entry))).touch parent
      (clock (store.stage + 1))).2).node? store.nextInode).isSome := by
    rw [(touch_sameForms _ _ _).isSome_node?, isSome_node?_addNode hparent]
    exact .inl rfl
  unfold mkdirIn
  rw [if_neg hdot]
  simp only [hfree, hentry, Option.isSome_none, Bool.false_eq_true, if_false]
  split <;> next htouch => rwa [htouch] at hthere

/-- A free name whose path the rules refuse uses a number up and no more. -/
theorem mkdirIn_of_refused (hdot : name ≠ ".") (hfree : store.child? parent name = none)
    (hrefused : store.rules.accepts (Text.trim (Path.join (store.pathOf parent) name)) = false)
    (clock : Clock) (mode : FileMode) :
    store.mkdirIn clock parent name mode =
      (.error (.invalidPath (Path.join (store.pathOf parent) name)), store.reserve) := by
  unfold mkdirIn
  rw [if_neg hdot]
  simp only [hfree, Entry.create_eq_error hrefused, Option.isSome_none, Bool.false_eq_true,
    if_false]

/-- No file is made or changed on the way. -/
theorem cell?_mkdirAlong (hdir : (store.dir? dir).isSome) (clock : Clock) (mode : FileMode)
    (segments : List String) (i : Nat) :
    (store.mkdirAlong clock dir mode segments).2.cell? i = store.cell? i := by
  induction segments generalizing store dir with
  | nil => rfl
  | cons name rest ih =>
    unfold mkdirAlong
    split
    · exact ih hdir
    split
    · split
      · next hchild => exact ih (by rw [hchild]; rfl)
      · rfl
    · have hmade := cell?_mkdirIn hdir clock name mode i
      split <;> next heq =>
        rw [heq] at hmade
        first
          | exact (ih (dir?_of_mkdirIn hdir heq)).trans hmade
          | exact hmade

/-- What is new stands along the names, also if one of them was refused. -/
theorem grownAlong_mkdirAlong (hdir : (store.dir? dir).isSome) (clock : Clock) (mode : FileMode)
    (segments : List String) :
    GrownAlong store (store.mkdirAlong clock dir mode segments).2 dir (moving segments) := by
  induction segments generalizing store dir with
  | nil => exact .refl _ _ _
  | cons name rest ih =>
    unfold mkdirAlong
    by_cases hdot : name = "."
    · subst hdot
      rw [if_pos rfl]
      exact ih hdir
    have hmoving : moving (name :: rest) = [name] ++ moving rest := by simp [moving, hdot]
    rw [if_neg hdot, hmoving]
    split
    · next child hchild =>
      have hway : store.leads dir [name] = some child.inode := by
        rw [leads_cons, hchild]
        rfl
      split
      · next hchildDir =>
        exact .trans (.refl store dir [name]) hway (ih (by rw [hchildDir]; rfl))
      · exact .refl _ _ _
    · have hmade := grownAlong_mkdirIn hdir clock name mode
      split
      · next inode middle heq =>
        rw [heq] at hmade
        exact hmade.trans (mkdirIn_grownAlong hdir heq).2 (ih (dir?_of_mkdirIn hdir heq))
      · next heq =>
        rw [heq] at hmade
        refine ⟨hmade.changes, hmade.cells, fun i hnode => (hmade.fresh i hnode).imp_right ?_⟩
        rintro ⟨front, hfront, hfound⟩
        exact ⟨front, hfront.trans (List.prefix_append _ _), hfound⟩

/-- The first directory that is missing is made if the rules accept its path. -/
theorem isSome_node?_mkdirAlong (hdir : (store.dir? dir).isSome) (hnames : ∀ s ∈ names, s ≠ ".")
    (hmissing : store.descend dir names = .error (.notFound missing))
    (haccepts : store.rules.accepts (Text.trim missing) = true) (clock : Clock)
    (mode : FileMode) :
    ((store.mkdirAlong clock dir mode names).2.node? store.nextInode).isSome := by
  induction names generalizing dir with
  | nil => cases hmissing
  | cons name rest ih =>
    obtain ⟨hdot, hrest⟩ := List.forall_mem_cons.mp hnames
    unfold descend at hmissing
    unfold mkdirAlong
    rw [if_neg hdot]
    cases hchild : store.child? dir name with
    | none =>
      rw [hchild] at hmissing
      obtain rfl := FsError.notFound.inj (Except.error.inj hmissing)
      have hmade := isSome_node?_mkdirIn hdir hdot hchild haccepts clock mode
      simp only
      split
      · next heq =>
        rw [heq] at hmade
        exact (grownAlong_mkdirAlong (dir?_of_mkdirIn hdir heq) clock mode rest).changes.preserves
          (P := fun s => (s.node? store.nextInode).isSome) (fun hstep => hstep.node?_isSome) hmade
      · next heq =>
        rw [heq] at hmade
        exact hmade
    | some child =>
      simp only [hchild] at hmissing
      split at hmissing
      · cases hmissing
      split at hmissing
      · next hchildDir =>
        simp only [hchildDir]
        exact ih (by rw [hchildDir]; rfl) hrest hmissing
      · cases hmissing

/-- Nothing is made if the rules refuse the first directory that is missing. -/
theorem node?_mkdirAlong_of_refused (hnames : ∀ s ∈ names, s ≠ ".")
    (hrefused : ∀ missing, store.descend dir names = .error (.notFound missing) →
      store.rules.accepts (Text.trim missing) = false) (clock : Clock) (mode : FileMode) (i : Nat) :
    (store.mkdirAlong clock dir mode names).2.node? i = store.node? i := by
  induction names generalizing dir with
  | nil => rfl
  | cons name rest ih =>
    obtain ⟨hdot, hrest⟩ := List.forall_mem_cons.mp hnames
    unfold mkdirAlong
    rw [if_neg hdot]
    cases hchild : store.child? dir name with
    | none =>
      have hmissing : store.descend dir (name :: rest) =
          .error (.notFound (Path.join (store.pathOf dir) name)) := by
        rw [descend, hchild]
      simp only [mkdirIn_of_refused hdot hchild (hrefused _ hmissing), node?_reserve]
    | some child =>
      cases hchildDir : store.dir? child.inode with
      | none => simp only [hchildDir]
      | some d =>
        simp only [hchildDir]
        refine ih hrest fun missing hmissing => hrefused missing ?_
        have hmore : rest ≠ [] := by
          rintro rfl
          cases hmissing
        rw [descend, hchild]
        simp only [hmore, if_false, hchildDir]
        exact hmissing

/-- The path of the directories that making a node at a path makes where they are missing. -/
def dirsPath (path : String) (mode : FileMode) : String :=
  if mode.isDir then path else Path.joinAll (parents path)

theorem mkdirAll_of_accepted (haccepts : store.rules.accepts (Text.trim path) = true) :
    store.mkdirAll clock dir path mode = store.mkdirAlong clock dir mode (way path) := by
  rw [mkdirAll, PathRules.split_eq, if_pos haccepts]
  exact (mkdirAlong_moving _).symm

theorem mkdirAll_of_refused (hrefused : store.rules.accepts (Text.trim path) = false) :
    store.mkdirAll clock dir path mode = (.error (.invalidPath path), store) := by
  rw [mkdirAll, PathRules.split_of_refused hrefused]

/-- The stores after the directories for a node were made as far as that goes. -/
inductive DirsMade (store : Store) (clock : Clock) (dir : Nat) (path : String) (mode : FileMode) :
    Store → Prop where
  /-- There is none to make. -/
  | none (hnone : ∀ missing, store.resolve dir (dirsPath path mode) ≠ .error (.notFound missing)) :
      DirsMade store clock dir path mode store
  | along (haccepts : store.rules.accepts (Text.trim (dirsPath path mode)) = true) :
      DirsMade store clock dir path mode
        (store.mkdirAlong clock dir mode (way (dirsPath path mode))).2

theorem dirsMade_mkdirAll {path' : String} (hpath : dirsPath path mode = path') :
    DirsMade store clock dir path mode (store.mkdirAll clock dir path' mode).2 := by
  subst hpath
  cases haccepts : store.rules.accepts (Text.trim (dirsPath path mode)) with
  | true =>
    rw [mkdirAll_of_accepted haccepts]
    exact .along haccepts
  | false =>
    rw [mkdirAll_of_refused haccepts]
    refine .none fun missing hmissing => ?_
    rw [resolve_of_refused haccepts] at hmissing
    cases hmissing

/-- In the root of the view there is no directory to make. -/
theorem dirsMade_of_parents_nil (hpath : dirsPath path mode = Path.joinAll (parents path))
    (hnil : parents path = []) : DirsMade store clock dir path mode store := by
  refine .none fun missing hmissing => ?_
  rw [hpath, hnil] at hmissing
  rw [resolve_of_accepted (accepts_of_notFound hmissing rfl),
    way_joinAll (List.forall_mem_nil _)] at hmissing
  cases hmissing

theorem findOrCreate_eq_error
    (hmade : store.findOrCreate clock parent name mode = (.error e, grown)) :
    grown = store.reserve := by
  unfold findOrCreate at hmade
  split at hmade
  · cases hmade
  · dsimp only at hmade
    split at hmade
    · exact (Prod.mk.inj hmade).2.symm
    · cases hmade

/-- Making a node fails with its directories made as far as that goes. A number may be used up
besides. -/
theorem createAt_eq_error (haccepts : store.rules.accepts (Text.trim path) = true)
    (hmade : store.createAt clock dir path mode = (.error e, grown)) :
    ∃ middle, DirsMade store clock dir path mode middle ∧
      (grown = middle ∨ grown = middle.reserve) := by
  unfold createAt at hmade
  split at hmade
  · next hmode =>
    have hdirs : DirsMade store clock dir path mode _ := dirsMade_mkdirAll (if_pos hmode)
    rw [hmade] at hdirs
    exact ⟨grown, hdirs, .inl rfl⟩
  next hmode =>
  have hpath : dirsPath path mode = Path.joinAll (parents path) := if_neg hmode
  split at hmade
  · next hsplit =>
    rw [PathRules.split_eq, if_pos haccepts] at hsplit
    cases hsplit
  next segments hsplit =>
  rw [PathRules.segments_of_split _ hsplit] at hmade
  split at hmade
  · next hnone =>
    have hnil : parents path = [] := by
      rw [parents, List.getLast?_eq_none_iff.mp hnone]
      rfl
    obtain rfl := (Prod.mk.inj hmade).2
    exact ⟨store, dirsMade_of_parents_nil hpath hnil, .inl rfl⟩
  dsimp only at hmade
  have hdirs : ∀ {result middle}, (if (Path.segments (Path.cleaned path)).dropLast = []
      then (.ok dir, store)
      else store.mkdirAll clock dir (Path.joinAll (Path.segments (Path.cleaned path)).dropLast) mode)
        = (result, middle) → DirsMade store clock dir path mode middle := by
    intro result middle hparents
    split at hparents
    · next hnil =>
      obtain rfl := (Prod.mk.inj hparents).2
      exact dirsMade_of_parents_nil hpath hnil
    · have hmade' : DirsMade store clock dir path mode _ := dirsMade_mkdirAll hpath
      rw [parents, hparents] at hmade'
      exact hmade'
  split at hmade
  · next hparents =>
    obtain rfl := (Prod.mk.inj hmade).2
    exact ⟨_, hdirs hparents, .inl rfl⟩
  · next hparents =>
    exact ⟨_, hdirs hparents, .inr (findOrCreate_eq_error hmade)⟩

namespace DirsMade

variable {middle : Store}

/-- The directories on the way are no files. -/
theorem cell?_eq (hmade : DirsMade store clock dir path mode middle)
    (hdir : (store.dir? dir).isSome) (i : Nat) : middle.cell? i = store.cell? i := by
  cases hmade with
  | none => rfl
  | along => exact cell?_mkdirAlong hdir clock mode _ i

theorem grownAlong (hmade : DirsMade store clock dir path mode middle)
    (hdir : (store.dir? dir).isSome) :
    GrownAlong store middle dir (way (dirsPath path mode)) := by
  cases hmade with
  | none => exact .refl _ _ _
  | along =>
    have hgrown := grownAlong_mkdirAlong hdir clock mode (way (dirsPath path mode))
    have hmoving : moving (way (dirsPath path mode)) = way (dirsPath path mode) :=
      List.filter_eq_self.mpr fun s hs => by simpa using ne_dot_of_mem_way s hs
    rwa [hmoving] at hgrown

/-- Every node is as it was unless the first directory that is missing is one that the rules
accept. -/
theorem node?_eq_iff (hmade : DirsMade store clock dir path mode middle)
    (hdir : (store.dir? dir).isSome) :
    (∀ i, middle.node? i = store.node? i) ↔
      ∀ missing, store.resolve dir (dirsPath path mode) = .error (.notFound missing) →
        store.rules.accepts (Text.trim missing) = false := by
  cases hmade with
  | none hnone =>
    exact iff_of_true (fun _ => rfl) fun missing hmissing => absurd hmissing (hnone missing)
  | along haccepts =>
    rw [resolve_of_accepted haccepts]
    refine ⟨fun hsame missing hmissing => ?_,
      fun hrefused i => node?_mkdirAlong_of_refused ne_dot_of_mem_way hrefused clock mode i⟩
    rw [← Bool.not_eq_true]
    intro htaken
    have hmadeThere := isSome_node?_mkdirAlong hdir ne_dot_of_mem_way hmissing htaken clock mode
    rw [hsame, node?_nextInode] at hmadeThere
    cases hmadeThere

end DirsMade

end Tree.Store

end VirtualFs
