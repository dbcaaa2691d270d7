import VirtualFs.Proofs.Times
import VirtualFs.Proofs.Tree.Lasting
import VirtualFs.Proofs.Tree.ReadBack

namespace VirtualFs

namespace Entry

/-- An entry and what became of it, by their times. -/
structure Ages (entry later : Entry) : Prop where
  ctime_eq : later.attrs.ctime = entry.attrs.ctime
  mtime_le : entry.attrs.mtime ≤ later.attrs.mtime

variable {entry later last : Entry}

theorem Ages.refl (entry : Entry) : entry.Ages entry :=
  ⟨rfl, Int.le_refl _⟩

theorem Ages.trans (hfirst : entry.Ages later) (hsecond : later.Ages last) : entry.Ages last :=
  ⟨hsecond.ctime_eq.trans hfirst.ctime_eq, Int.le_trans hfirst.mtime_le hsecond.mtime_le⟩

theorem ages_setSize (entry : Entry) (size : Nat) : entry.Ages (entry.setSize size) := by
  unfold setSize
  split
  · exact .refl entry
  · exact ⟨rfl, Int.le_refl _⟩

theorem ages_of_setModTime {now : Time} (hset : entry.setModTime now = .ok later) :
    entry.Ages later := by
  obtain ⟨rfl, -, hmtime⟩ := setModTime_eq_ok hset
  exact ⟨rfl, hmtime⟩

/-- What was in order stays so as it ages. -/
theorem Ages.ordered (hages : entry.Ages later) (hordered : entry.attrs.Ordered) :
    later.attrs.Ordered := by
  unfold Attributes.Ordered at hordered ⊢
  rw [hages.ctime_eq]
  exact Int.le_trans hordered hages.mtime_le

end Entry

namespace Tree

/-- A write never takes the time back, whether it was refused or not. -/
theorem Cell.ages_writeAt (config : Config) (now : Time) (c : Cell) (offset : Nat) (data : Bytes) :
    c.entry.Ages (c.writeAt config now offset data).2.entry := by
  unfold writeAt
  split
  · exact .refl _
  split
  · exact .refl _
  split
  · exact .refl _
  next roomy hmade =>
  obtain ⟨hentry, -⟩ := makeRoom_keeps hmade
  split
  · rw [hentry]
    exact .refl _
  · next entry hset =>
    rw [hentry] at hset
    exact (Entry.ages_of_setModTime hset).trans (entry.ages_setSize _)

namespace Store

variable {named : String → Prop} {store later last : Store}

/-- The nodes of the one store are in the other, and only older. -/
def Ages (store later : Store) : Prop :=
  ∀ i node, store.node? i = some node →
    ∃ node', later.node? i = some node' ∧ node.entry.Ages node'.entry

theorem Ages.refl (store : Store) : store.Ages store :=
  fun _ node hnode => ⟨node, hnode, .refl _⟩

theorem Ages.trans (hfirst : store.Ages later) (hsecond : later.Ages last) : store.Ages last := by
  intro i node hnode
  obtain ⟨node', hnode', hages⟩ := hfirst i node hnode
  obtain ⟨node'', hnode'', hages'⟩ := hsecond i node' hnode'
  exact ⟨node'', hnode'', hages.trans hages'⟩

/-- No node was modified before it was created. -/
def TimesOrdered (store : Store) : Prop :=
  ∀ i node, store.node? i = some node → node.entry.attrs.Ordered

theorem ages_addNode {parent : Nat} (hparent : (store.dir? parent).isSome) (name : String)
    (new : Node) : store.Ages (store.addNode parent name new) := by
  intro i node hnode
  have hold : i ≠ store.nextInode := store.ne_nextInode_of_node? (by rw [hnode]; rfl)
  rw [node?_addNode store hparent, if_neg hold, hnode]
  cases node with
  | file c => exact ⟨_, rfl, .refl _⟩
  | dir d =>
    refine ⟨_, rfl, ?_⟩
    split <;> exact .refl _

theorem ages_modifyCell {inode : Nat} {change : Cell → Cell}
    (hchange : ∀ c, store.cell? inode = some c → c.entry.Ages (change c).entry) :
    store.Ages (store.modifyCell inode change) := by
  intro i node hnode
  rw [node?_modifyCell, hnode]
  cases node with
  | dir d => exact ⟨_, rfl, .refl _⟩
  | file c =>
    refine ⟨_, rfl, ?_⟩
    split
    · next hi =>
      subst hi
      exact hchange c ((store.cell?_eq_some_iff).mpr hnode)
    · exact .refl _

/-- A primitive step makes no node younger. -/
theorem Change.ages (hstep : Change named store later) : store.Ages later := by
  cases hstep with
  | reserve => exact fun i node hnode => ⟨node, by rwa [node?_reserve], .refl _⟩
  | addDir hparent => exact ages_addNode hparent _ _
  | addFile hparent => exact ages_addNode hparent _ _
  | truncate => exact ages_modifyCell fun c _ => c.entry.ages_setSize 0
  | write hcell now offset data =>
    refine ages_modifyCell fun c hc => ?_
    obtain rfl := Option.some.inj (hcell.symm.trans hc)
    exact Cell.ages_writeAt _ now _ offset data
  | close => exact .refl store
  | @touch inode d _ entry hdir hentry =>
    intro i node hnode
    rw [node?_modifyDir, hnode]
    cases node with
    | file c => exact ⟨_, rfl, .refl _⟩
    | dir d' =>
      refine ⟨_, rfl, ?_⟩
      split
      · next hi =>
        subst hi
        rw [(store.dir?_eq_some_iff).mpr hnode] at hdir
        obtain rfl := Option.some.inj hdir
        exact Entry.ages_of_setModTime hentry
      · exact .refl _

/-- A new node is modified when it is created, and what was there only ages. -/
theorem Change.timesOrdered (hstep : Change named store later) (hordered : store.TimesOrdered) :
    later.TimesOrdered := by
  intro i node' hnode'
  rcases hstep.node?_cases hnode' with ⟨node, hnode, -⟩ | ⟨-, now, bits, hattrs⟩
  · obtain ⟨kept, hkept, hages⟩ := hstep.ages i node hnode
    obtain rfl := Option.some.inj (hnode'.symm.trans hkept)
    exact hages.ordered (hordered i node hnode)
  · rw [hattrs]
    exact Int.le_refl now

theorem Changes.ages (hchanges : Changes named store later) : store.Ages later :=
  hchanges.preserves (P := fun s => store.Ages s) (fun hstep h => h.trans hstep.ages) (.refl store)

theorem timesOrdered_create (config : Config) (rules : PathRules) (now : Time) :
    (Store.create config rules now).TimesOrdered := by
  intro i node hnode
  obtain ⟨rfl, rfl⟩ := node?_create hnode
  exact Int.le_refl now

end Store

theorem Session.ReachableBy.timesOrdered {session : Session}
    {allowed : Session → Clock → Command → Prop} (hreach : ReachableBy allowed session) :
    session.store.TimesOrdered :=
  hreach.store_induction (fun hrooted _ => step_changes_segment hrooted _ _)
    (fun config rules now _ => Store.timesOrdered_create config rules now)
    fun hstep => hstep.timesOrdered

/-- Whatever the clock shows during a run, the nodes only age, and none is modified before it was
created. The times that a value was built with are kept in the same way. -/
theorem ages_run_and_keepsTime {session : Session} (hreach : session.Reachable)
    (commands : List (Clock × Command)) (draft : Attributes.Draft) (now : Time)
    (times : List Time) :
    session.store.Ages (session.run commands).2.store ∧
      (session.run commands).2.store.TimesOrdered ∧ draft.KeepsTime now times :=
  ⟨(hreach.rooted.run_changes commands).ages, (hreach.run commands).timesOrdered,
    draft.keepsTime now times⟩

/-- A directory, a file and a write, each at a time before the one that came before it. -/
def backwards : List (Clock × Command) :=
  [(fun _ => 8, .view 0 (.mkdir "a" ⟨0o755⟩)), (fun _ => 6, .view 0 (.create "a/f")),
    (fun _ => 5, .view 0 (.mkdir "a/b" ⟨0o755⟩)), (fun _ => 4, .handle 0 (.write [1])),
    (fun _ => 7, .handle 0 (.write [2]))]

theorem ages_run_and_keepsTime_backwards :
    emptyTree.Reachable ∧ emptyTree.store.Ages (emptyTree.run backwards).2.store ∧
      (emptyTree.run backwards).2.store.TimesOrdered ∧
      (List.range 5).map (fun i => ((emptyTree.run backwards).2.store.node? i).map
          fun node => (node.entry.attrs.ctime, node.entry.attrs.mtime)) =
        [none, some (0, 8), some (8, 8), some (6, 7), some (5, 5)] ∧
      Attributes.Draft.empty.KeepsTime 3 [3, 1, 5, 4] := by
  obtain ⟨hages, hordered, hkeeps⟩ :=
    ages_run_and_keepsTime emptyTree_reachable backwards .empty 3 [3, 1, 5, 4]
  exact ⟨emptyTree_reachable, hages, hordered, by decide +kernel, hkeeps⟩

end Tree

end VirtualFs
