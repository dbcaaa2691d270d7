import VirtualFs.Proofs.Tree.Directories
import VirtualFs.Proofs.Tree.Flattening

namespace VirtualFs

/-- No reading of the clock is later than `now`. -/
def Clock.Until (clock : Clock) (now : Time) : Prop :=
  ∀ k, clock k ≤ now

theorem Clock.Until.later {clock : Clock} {now : Time} (hclock : clock.Until now) (n : Nat) :
    (clock.later n).Until now :=
  fun k => hclock (n + k)

/-- The entry was neither made nor changed after this time. -/
def Entry.Timely (entry : Entry) (now : Time) : Prop :=
  entry.attrs.ctime ≤ now ∧ entry.attrs.mtime ≤ now

namespace Entry.Timely

variable {entry later : Entry} {now t : Time}

theorem create {path : String} {mode : FileMode} {inode : Nat} {rules : PathRules} (ht : t ≤ now)
    (hentry : Entry.create path (.createdAt t mode inode) rules = .ok entry) :
    entry.Timely now := by
  rw [Timely, Entry.attrs_of_create hentry]
  exact ⟨ht, ht⟩

theorem setModTime (h : entry.Timely now) (ht : t ≤ now) (hset : entry.setModTime t = .ok later) :
    later.Timely now := by
  obtain ⟨rfl, -, -⟩ := Entry.setModTime_eq_ok hset
  exact ⟨h.1, ht⟩

theorem setSize (h : entry.Timely now) (size : Nat) : (entry.setSize size).Timely now := by
  unfold Entry.setSize
  split <;> exact h

end Entry.Timely

namespace Tree

theorem Cell.timely_writeAt {c : Cell} {now t : Time} (h : c.entry.Timely now) (ht : t ≤ now)
    (config : Config) (offset : Nat) (data : Bytes) :
    (c.writeAt config t offset data).2.entry.Timely now := by
  unfold writeAt
  split
  · exact h
  split
  · exact h
  split
  · exact h
  next roomy hmade =>
  obtain ⟨hentry, -⟩ := makeRoom_keeps hmade
  split
  · rwa [hentry]
  · next entry hset =>
    rw [hentry] at hset
    exact (h.setModTime ht hset).setSize _

variable {store : Store} {clock : Clock} {now t : Time}

namespace Store.Timely

variable {parent inode root : Nat} {mode : FileMode}

theorem mono (h : store.Timely t) (ht : t ≤ now) : store.Timely now :=
  fun i node hnode => ⟨(h i node hnode).1.trans ht, (h i node hnode).2.trans ht⟩

theorem reserve (h : store.Timely now) : store.reserve.Timely now := by
  intro i node hnode
  rw [node?_reserve] at hnode
  exact h i node hnode

theorem addNode (h : store.Timely now) {node : Node} (hnode : node.entry.Timely now)
    (hparent : (store.dir? parent).isSome) (name : String) :
    (store.addNode parent name node).Timely now := by
  intro i found hfound
  rcases node?_addNode_cases hparent hfound with ⟨-, rfl⟩ | ⟨old, hold, hentry, -⟩
  · exact hnode
  · rw [← hentry]
    exact h i old hold

theorem modifyCell (h : store.Timely now) {change : Cell → Cell}
    (hchange : ∀ c, store.cell? inode = some c → (change c).entry.Timely now) :
    (store.modifyCell inode change).Timely now := by
  intro i node hnode
  rw [node?_modifyCell] at hnode
  split at hnode
  · next c hc =>
    obtain rfl := Option.some.inj hnode
    split
    · next hi =>
      subst hi
      exact hchange c ((store.cell?_eq_some_iff).mpr hc)
    · exact h i _ hc
  · exact h i node hnode

theorem touch (h : store.Timely now) (ht : t ≤ now) (dir : Nat) :
    (store.touch dir t).2.Timely now := by
  unfold Store.touch
  split
  · exact h
  next d hdir =>
  split
  · next entry hset =>
    intro i node hnode
    rw [node?_modifyDir] at hnode
    split at hnode
    · next other hother =>
      obtain rfl := Option.some.inj hnode
      simp only [Node.entry]
      split
      · exact Entry.Timely.setModTime (h dir _ ((store.dir?_eq_some_iff).mp hdir)) ht hset
      · exact h i _ hother
    · exact h i node hnode
  · exact h

/-- Making a directory reads the clock at two stages. -/
theorem mkdirIn (h : store.Timely now) (hmade : clock store.stage ≤ now)
    (htouched : clock (store.stage + 1) ≤ now) (hparent : (store.dir? parent).isSome)
    (name : String) (mode : FileMode) :
    (store.mkdirIn clock parent name mode).2.Timely now := by
  unfold Store.mkdirIn
  split
  · exact h
  dsimp only
  split
  · exact h
  split
  · exact h.reserve
  next entry hentry =>
  have hnode : (Node.dir (.empty store.nextInode entry)).entry.Timely now := .create hmade hentry
  have hlater := (h.addNode hnode hparent name).touch htouched parent
  split <;> next heq => rwa [heq] at hlater

theorem mkdirAlong (h : store.Timely now) (hclock : clock.Until now)
    (hparent : (store.dir? parent).isSome) (mode : FileMode) (segments : List String) :
    (store.mkdirAlong clock parent mode segments).2.Timely now := by
  induction segments generalizing store parent with
  | nil => exact h
  | cons name rest ih =>
    unfold Store.mkdirAlong
    split
    · exact ih h hparent
    split
    · split
      · next hdir => exact ih h (by rw [hdir]; rfl)
      · exact h
    · have hmade := h.mkdirIn (hclock _) (hclock _) hparent name mode
      split <;> next heq =>
        rw [heq] at hmade
        first
          | exact ih hmade (dir?_of_mkdirIn hparent heq)
          | exact hmade

theorem mkdirAll (h : store.Timely now) (hclock : clock.Until now)
    (hroot : (store.dir? root).isSome) (path : String) (mode : FileMode) :
    (store.mkdirAll clock root path mode).2.Timely now := by
  unfold Store.mkdirAll
  split
  · exact h
  · exact h.mkdirAlong hclock hroot mode _

theorem mkdir (h : store.Timely now) (hclock : clock.Until now)
    (hroot : (store.dir? root).isSome) (path : String) (mode : FileMode) :
    (store.mkdir clock root path mode).2.Timely now := by
  unfold Store.mkdir
  split
  · exact h
  split
  · exact h
  split
  · exact h
  dsimp only
  split
  · exact h
  next parent hparent =>
  refine h.mkdirIn (hclock _) (hclock _) ?_ _ mode
  split at hparent
  · obtain rfl := Except.ok.inj hparent
    exact hroot
  · exact dir?_of_resolveDir hparent

theorem findOrCreate (h : store.Timely now) (hclock : clock.Until now)
    (hparent : (store.dir? parent).isSome) (name : String) (mode : FileMode) :
    (store.findOrCreate clock parent name mode).2.Timely now := by
  unfold Store.findOrCreate
  split
  · exact h
  dsimp only
  split
  · exact h.reserve
  · next entry hentry =>
    have hnode : (Node.file (.empty entry store.config.initialCapacity)).entry.Timely now :=
      .create (hclock _) hentry
    exact h.addNode hnode hparent name

theorem createAt (h : store.Timely now) (hclock : clock.Until now)
    (hroot : (store.dir? root).isSome) (path : String) (mode : FileMode) :
    (store.createAt clock root path mode).2.Timely now := by
  unfold Store.createAt
  split
  · exact h.mkdirAll hclock hroot path mode
  split
  · exact h
  next segments hsplit =>
  split
  · exact h
  next name hlast =>
  by_cases hnone : segments.dropLast = []
  · simp only [hnone, if_true]
    exact h.findOrCreate hclock hroot name mode
  · simp only [hnone, if_false]
    have hmade := h.mkdirAll hclock hroot (Path.joinAll segments.dropLast) mode
    split
    · next heq => rwa [heq] at hmade
    · next parent grown heq =>
      rw [heq] at hmade
      exact hmade.findOrCreate hclock (dir?_of_mkdirAll hroot heq) name mode

end Store.Timely

namespace Handle

variable (handle : Handle)

theorem timely_onNode (h : store.Timely now) (inode : Nat) (flags : OpenFlags)
    (path base : String) : (onNode store inode flags path base).2.Timely now := by
  unfold onNode
  split
  · exact h
  unfold openFile
  dsimp only
  split
  · exact h.modifyCell fun c hc =>
      Entry.Timely.setSize (h _ _ ((store.cell?_eq_some_iff).mp hc)) 0
  · exact h

theorem timely_write (h : store.Timely now) (ht : t ≤ now) (data : Bytes) :
    (handle.write store t data).2.2.Timely now := by
  unfold write
  split
  · exact h
  unfold put
  split
  · exact h
  next c hcell =>
  have hwritten := Cell.timely_writeAt (h _ _ ((store.cell?_eq_some_iff).mp hcell)) ht
    store.config handle.writeOff data
  split <;> next heq =>
    rw [heq] at hwritten
    exact h.modifyCell fun _ _ => hwritten

theorem timely_copyFrom (h : store.Timely now) (hclock : clock.Until now) (source : Source)
    (total : Nat) : (handle.copyFrom store clock source total).1.2.2.Timely now := by
  fun_induction copyFrom handle store clock source total with
  | case1 => exact h
  | case2 handle store clock source total b bytes rest hread e handle' store' hwrite =>
    have hwritten := handle.timely_write h (hclock 0) (b :: bytes)
    rwa [hwrite] at hwritten
  | case3 handle store clock source total b bytes rest hread n handle' store' hwrite ih =>
    have hwritten := handle.timely_write h (hclock 0) (b :: bytes)
    rw [hwrite] at hwritten
    exact ih hwritten (hclock.later 1)
  | case4 handle store clock source total e rest hread hkind ih => exact ih h (hclock.later 1)
  | case5 => exact h

theorem timely_readFrom (h : store.Timely now) (hclock : clock.Until now) (source : Source) :
    (handle.readFrom store clock source).1.2.2.Timely now := by
  unfold readFrom
  split
  · exact h
  · exact handle.timely_copyFrom h hclock source 0

end Handle

namespace View

variable (view : View)

theorem timely_openNode (h : store.Timely now) (hclock : clock.Until now)
    (hroot : (store.dir? view.root).isSome) (path : String) (flags : OpenFlags)
    (mode : FileMode) : (view.openNode store clock path flags mode).2.Timely now := by
  unfold openNode
  split
  · exact h
  next cleaned _ =>
  split
  · exact Handle.timely_onNode h _ flags _ _
  split
  · have hmade := h.createAt hclock hroot cleaned mode
    split <;> next heq =>
      rw [heq] at hmade
      first
        | exact hmade
        | exact Handle.timely_onNode hmade _ flags _ _
  · exact h

theorem timely_writeFile (h : store.Timely now) (hclock : clock.Until now)
    (hroot : (store.dir? view.root).isSome) (path : String) (data : Bytes) (mode : FileMode) :
    (view.writeFile store clock path data mode).2.Timely now := by
  have hopened := view.timely_openNode h hclock hroot path anew mode
  unfold writeFile
  split
  · next heq => rwa [heq] at hopened
  · next handle grown heq =>
    rw [heq] at hopened
    exact handle.timely_write hopened (hclock _) data

end View

namespace Session

variable {session : Session}

theorem timely_viewStep (h : session.store.Timely now) (hclock : clock.Until now)
    (hrooted : session.Rooted) {view : View} (hview : view ∈ session.views)
    (command : ViewCommand) : (session.viewStep clock view command).2.store.Timely now := by
  have hroot := hrooted view hview
  cases command with
  | openRead path =>
    have hopened := view.timely_openNode h hclock hroot path .rdonly ⟨0⟩
    simp only [viewStep, View.openRead, takeHandle]
    split <;> simp_all
  | openFile path flags mode =>
    have hopened := view.timely_openNode h hclock hroot path flags mode
    simp only [viewStep, View.openFile, takeHandle]
    split <;> simp_all
  | create path =>
    have hopened := view.timely_openNode h hclock hroot path View.anew
      (FileMode.file session.store.config.fileMode)
    simp only [viewStep, View.create, takeHandle]
    split <;> simp_all
  | mkdir path mode => exact h.mkdir hclock hroot path mode
  | mkdirAll path mode => exact h.mkdirAll hclock hroot path mode
  | writeFile path data mode => exact view.timely_writeFile h hclock hroot path data mode
  | content path =>
    have hopened := view.timely_openNode h hclock hroot path .rdonly ⟨0⟩
    simp only [viewStep, View.content]
    split <;> simp_all
  | close =>
    simp only [viewStep, settle, View.close]
    split
    · exact h
    split <;> exact h
  | dirIter path =>
    simp only [viewStep]
    split <;> exact h
  | sub path =>
    simp only [viewStep]
    split <;> exact h
  | _ => exact h

theorem timely_step (h : session.store.Timely now) (hclock : clock.Until now)
    (hrooted : session.Rooted) (command : Command) :
    (session.step clock command).2.store.Timely now := by
  cases command with
  | view index command =>
    simp only [step]
    split
    · next view hview => exact timely_viewStep h hclock hrooted (List.mem_of_getElem? hview) command
    · exact h
  | handle index command =>
    simp only [step]
    split
    · next handle hhandle =>
      cases command with
      | write data => exact handle.timely_write h (hclock 0) data
      | readFrom source => exact handle.timely_readFrom h hclock source
      | _ => exact h
    · exact h
  | pager index command =>
    simp only [step]
    split
    · cases command <;> exact h
    · exact h

/-- The sessions that lead from a new tree by operations during which the clock never showed more
than `now`. -/
inductive ReachableUntil (now : Time) : Session → Prop where
  | build {config : Config} {rules : Option PathRules} {start : Time} {session : Session}
      (hbuild : Session.build config rules start = .ok session) (hstart : start ≤ now) :
      ReachableUntil now session
  | step {session : Session} (hreach : ReachableUntil now session) {clock : Clock}
      (hclock : clock.Until now) (command : Command) :
      ReachableUntil now (session.step clock command).2

namespace ReachableUntil

theorem reachable (hreach : session.ReachableUntil now) : session.Reachable := by
  induction hreach with
  | build hbuild => exact .build hbuild
  | step _ _ _ ih => exact .step ih trivial

/-- A run goes on from where the last one ended. -/
theorem run (hreach : session.ReachableUntil now) (commands : List (Clock × Command))
    (hclocks : ∀ c ∈ commands, c.1.Until now) : (session.run commands).2.ReachableUntil now := by
  induction commands generalizing session with
  | nil => exact hreach
  | cons c rest ih =>
    obtain ⟨hfirst, hrest⟩ := List.forall_mem_cons.mp hclocks
    exact ih (.step hreach hfirst c.2) hrest

/-- What the clock has shown so far is not behind any time in the tree. -/
theorem timely (hreach : session.ReachableUntil now) : session.store.Timely now := by
  induction hreach with
  | build hbuild hstart =>
    obtain ⟨-, rfl⟩ := eq_create_of_build hbuild
    intro i node hnode
    obtain ⟨-, rfl⟩ := Store.node?_create hnode
    exact ⟨hstart, hstart⟩
  | step hreach hclock command ih => exact timely_step ih hclock hreach.reachable.rooted command

end ReachableUntil

end Session

end Tree

end VirtualFs
