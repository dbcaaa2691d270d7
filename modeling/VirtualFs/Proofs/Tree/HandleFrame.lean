import VirtualFs.Proofs.Tree.HandleStep
import VirtualFs.Proofs.Tree.Lasting
import VirtualFs.Proofs.Tree.ReadBack

namespace VirtualFs.Tree

/-- What is done looks at the settings and at the node of this number, and changes the cell there.
In all stores that have these in common it comes to the same. -/
def Local {α : Type} (inode : Nat) (store : Store) (outcome : Store → α × Handle × Store) : Prop :=
  ∃ answer handle change, ∀ other : Store, other.config = store.config →
    other.node? inode = store.node? inode →
    outcome other = (answer, handle, other.modifyCell inode change)

namespace Local

variable {α β : Type} {inode : Nat} {store : Store} {outcome outcome' : Store → α × Handle × Store}

/-- Nothing is changed, and what is looked at is the node. -/
theorem of_reading (houtcome : ∀ other : Store, other.config = store.config →
    other.node? inode = store.node? inode →
      outcome other = ((outcome store).1, (outcome store).2.1, other)) :
    Local inode store outcome :=
  ⟨(outcome store).1, (outcome store).2.1, id, fun other hconfig hnode => by
    rw [houtcome other hconfig hnode, other.modifyCell_id]⟩

theorem map (hlocal : Local inode store outcome) (f : α → β) :
    Local inode store fun other => (f (outcome other).1, (outcome other).2.1, (outcome other).2.2) := by
  obtain ⟨answer, handle, change, h⟩ := hlocal
  refine ⟨f answer, handle, change, fun other hconfig hnode => ?_⟩
  simp only [h other hconfig hnode]

end Local

namespace Handle

variable {handle : Handle} {store : Store} {clock : Clock} {source rest : Source} {total inode : Nat}

theorem copyFrom_of_end (hread : source.read Source.chunkSize = (.ok [], rest)) :
    handle.copyFrom store clock source total = ((.ok total, handle, store), rest) := by
  rw [copyFrom]
  split <;> simp_all

theorem copyFrom_of_data {b : UInt8} {bytes : Bytes}
    (hread : source.read Source.chunkSize = (.ok (b :: bytes), rest)) :
    handle.copyFrom store clock source total =
      match handle.write store (clock 0) (b :: bytes) with
      | (.error e, handle, store) => ((.error e, handle, store), rest)
      | (.ok _, handle, store) =>
        handle.copyFrom store (clock.later 1) rest (total + (b :: bytes).length) := by
  conv_lhs => rw [copyFrom]
  split
  · next hother => simp [hread] at hother
  · next hother =>
    simp only [hread, Prod.mk.injEq, Except.ok.injEq, List.cons.injEq] at hother
    obtain ⟨⟨rfl, rfl⟩, rfl⟩ := hother
    rfl
  · next hother => simp [hread] at hother

theorem copyFrom_of_failure {e : IoError}
    (hread : source.read Source.chunkSize = (.error e, rest)) :
    handle.copyFrom store clock source total =
      if e.kind = .interrupted then handle.copyFrom store (clock.later 1) rest total
      else ((.error (handle.failure .readFrom (.io e)), handle, store), rest) := by
  conv_lhs => rw [copyFrom]
  split
  · next hother => simp [hread] at hother
  · next hother => simp [hread] at hother
  · next hother =>
    simp only [hread, Prod.mk.injEq, Except.error.injEq] at hother
    obtain ⟨rfl, rfl⟩ := hother
    rfl

theorem cell?_congr {other : Store} (htarget : handle.target = .file inode)
    (hnode : other.node? inode = store.node? inode) : handle.cell? other = handle.cell? store := by
  simp only [cell?, htarget, Target.inode, Store.cell?, hnode]

theorem write_local (htarget : handle.target = .file inode) (store : Store) (now : Time)
    (data : Bytes) : Local inode store fun other => handle.write other now data := by
  unfold write
  cases handle.checkWritable with
  | error e => exact .of_reading fun _ _ _ => rfl
  | ok u =>
    unfold put
    cases hcell : handle.cell? store with
    | none =>
      refine .of_reading fun other _ hnode => ?_
      simp only [cell?_congr htarget hnode, hcell]
    | some cell =>
      have hinode : handle.target.inode = inode := by rw [htarget]; rfl
      cases hwrite : cell.writeAt store.config now handle.writeOff data with
      | mk result cell' =>
        cases result with
        | error e =>
          refine ⟨.error (handle.failure .write e), handle, fun _ => cell', ?_⟩
          intro other hconfig hnode
          simp only [cell?_congr htarget hnode, hcell, hconfig, hwrite, hinode]
        | ok n =>
          refine ⟨.ok n, { handle with writeOff := handle.writeOff + n }, fun _ => cell', ?_⟩
          intro other hconfig hnode
          simp only [cell?_congr htarget hnode, hcell, hconfig, hwrite, hinode]

/-- Piece by piece a transfer stays with its node, for every piece leaves the settings as they are
and finds what the last one wrote. -/
theorem copyFrom_local (htarget : handle.target = .file inode) (store : Store) (clock : Clock)
    (source : Source) (total : Nat) :
    Local inode store fun other => (handle.copyFrom other clock source total).1 := by
  fun_induction copyFrom handle store clock source total with
  | case1 handle store clock source total rest hread =>
    exact .of_reading fun other _ _ => by simp only [copyFrom_of_end hread]
  | case2 handle store clock source total b bytes rest hread e handle' store' hwrite =>
    obtain ⟨answer, written, change, h⟩ := write_local htarget store (clock 0) (b :: bytes)
    obtain ⟨rfl, rfl, rfl⟩ : answer = .error e ∧ written = handle' ∧
        store.modifyCell inode change = store' := by
      simpa using (h store rfl rfl).symm.trans hwrite
    refine ⟨.error e, written, change, fun other hconfig hnode => ?_⟩
    simp only [copyFrom_of_data hread, h other hconfig hnode]
  | case3 handle store clock source total b bytes rest hread n handle' store' hwrite ih =>
    obtain ⟨answer, written, change, h⟩ := write_local htarget store (clock 0) (b :: bytes)
    obtain ⟨rfl, rfl, rfl⟩ : answer = .ok n ∧ written = handle' ∧
        store.modifyCell inode change = store' := by
      simpa using (h store rfl rfl).symm.trans hwrite
    have htarget' : written.target = .file inode := by
      have hmoved := handle.movedOn_write store (clock 0) (b :: bytes)
      rw [hwrite] at hmoved
      exact hmoved.target_eq.trans htarget
    obtain ⟨answer', last, change', h'⟩ := ih htarget'
    refine ⟨answer', last, change' ∘ change, fun other hconfig hnode => ?_⟩
    have hrest := h' (other.modifyCell inode change) (by simp [hconfig])
      (by rw [Store.node?_modifyCell, Store.node?_modifyCell, hnode])
    rw [Store.modifyCell_modifyCell] at hrest
    simp only [copyFrom_of_data hread, h other hconfig hnode]
    exact hrest
  | case4 handle store clock source total e rest hread hkind ih =>
    obtain ⟨answer, last, change, h⟩ := ih htarget
    refine ⟨answer, last, change, fun other hconfig hnode => ?_⟩
    simp only [copyFrom_of_failure hread, if_pos hkind]
    exact h other hconfig hnode
  | case5 handle store clock source total e rest hread hkind =>
    refine .of_reading fun other _ _ => ?_
    simp only [copyFrom_of_failure hread, if_neg hkind]

theorem readFrom_local (htarget : handle.target = .file inode) (store : Store) (clock : Clock)
    (source : Source) : Local inode store fun other => (handle.readFrom other clock source).1 := by
  unfold readFrom
  cases handle.checkWritable with
  | error e => exact .of_reading fun _ _ _ => rfl
  | ok u => exact copyFrom_local htarget store clock source 0

/-- Whatever a handle on a file does, it does with its node alone. -/
theorem perform_local (htarget : handle.target = .file inode) (store : Store) (clock : Clock)
    (command : HandleCommand) :
    Local inode store fun other => handle.perform other clock command := by
  have hcell : ∀ {other : Store}, other.node? inode = store.node? inode →
      handle.cell? other = handle.cell? store := cell?_congr htarget
  cases command with
  | read n =>
    refine .of_reading fun other _ hnode => ?_
    simp only [perform, read, bytesAt, hcell hnode]
  | readAt n offset =>
    refine .of_reading fun other _ hnode => ?_
    simp only [perform, readAt, bytesAt, hcell hnode]
    rfl
  | readToEnd out =>
    refine .of_reading fun other _ hnode => ?_
    simp only [perform, readToEnd, hcell hnode]
  | seek goal =>
    refine .of_reading fun other _ hnode => ?_
    simp only [perform, seek, size, hcell hnode]
    rfl
  | write data => exact (write_local htarget store (clock 0) data).map (Except.map Reply.count)
  | readFrom source => exact (readFrom_local htarget store clock source).map (Except.map Reply.count)
  | readDir n =>
    refine .of_reading fun other _ _ => ?_
    simp only [perform, readDir, htarget]
  | stat =>
    refine .of_reading fun other _ hnode => ?_
    simp only [perform, stat, htarget, Target.inode, hnode]
  | close => exact .of_reading fun other _ _ => rfl

/-- A transfer into a directory is refused before anything is done. -/
theorem store_perform_of_dir (htarget : handle.target = .dir inode) (store : Store) (clock : Clock)
    (command : HandleCommand) : (handle.perform store clock command).2.2 = store := by
  have hwritable : ∃ e, handle.checkWritable = .error e := by
    unfold checkWritable checkTransfer
    rw [htarget]
    split
    · exact ⟨_, rfl⟩
    · exact ⟨_, rfl⟩
  obtain ⟨e, hwritable⟩ := hwritable
  cases command with
  | write data => simp only [perform, write, hwritable]
  | readFrom source => simp only [perform, readFrom, hwritable]
  | _ => rfl

/-- Whatever a handle does, at most its own cell is another one afterwards. -/
theorem store_perform (handle : Handle) (store : Store) (clock : Clock) (command : HandleCommand) :
    ∃ change, (handle.perform store clock command).2.2 =
      store.modifyCell handle.target.inode change := by
  cases htarget : handle.target with
  | dir inode => exact ⟨id, by rw [store_perform_of_dir htarget, store.modifyCell_id]⟩
  | file inode =>
    obtain ⟨answer, later, change, h⟩ := perform_local htarget store clock command
    exact ⟨change, congrArg (·.2.2) (h store rfl rfl)⟩

end Handle

/-- The operation can write to the file of its handle. -/
def HandleCommand.writes : HandleCommand → Bool
  | write _ | readFrom _ => true
  | _ => false

namespace Session

variable {session : Session} {index index' inode inode' : Nat} {handle handle' : Handle}

/-- What may differ after the operation of the handle `index`. -/
structure OnlyTouches (session : Session) (index : Nat) (handle : Handle) (command : HandleCommand)
    (later : Session) : Prop where
  views : later.views = session.views
  pagers : later.pagers = session.pagers
  /-- The handle is open as it was opened, its cursors and its paged reading may have moved, and
  only a close closes it. -/
  own : ∃ moved, later.handles[index]? = some moved ∧ handle.MovedOn command.isClose moved
  others : ∀ i, i ≠ index → later.handles[i]? = session.handles[i]?
  config : later.store.config = session.store.config
  rules : later.store.rules = session.store.rules
  closed : later.store.closed = session.store.closed
  /-- No number is given out. -/
  count : later.store.nextInode = session.store.nextInode
  /-- All directories stay as they are, with their entries and their children. -/
  dirs : ∀ i, later.store.dir? i = session.store.dir? i
  /-- All files but the handle's own stay as they are, with their entries and their contents. -/
  cells : ∀ i, i ≠ handle.target.inode → later.store.cell? i = session.store.cell? i
  /-- Of the entry of the handle's own file at most the size and the modification time change. -/
  cell : ∀ c, session.store.cell? handle.target.inode = some c →
    ∃ c', later.store.cell? handle.target.inode = some c' ∧ c'.entry.lasting = c.entry.lasting
  /-- Operations that do not write change no file. -/
  reading : command.writes = false → later.store = session.store

theorem onlyTouches_step (hreach : session.Reachable)
    (hget : session.handles[index]? = some handle) (clock : Clock) (command : HandleCommand) :
    session.OnlyTouches index handle command (session.step clock (.handle index command)).2 := by
  obtain ⟨change, hstore⟩ := handle.store_perform session.store clock command
  have hlasts : Store.Lasts session.store
      (session.step clock (.handle index command)).2.store :=
    (step_changes_segment hreach.rooted clock _).lasts
  have hclosed : (session.store.modifyCell handle.target.inode change).closed =
      session.store.closed := by
    unfold Store.modifyCell
    cases handle.target.inode <;> rfl
  rw [step_handle hget, hstore] at hlasts ⊢
  constructor
  case views => rfl
  case pagers => rfl
  case own =>
    exact ⟨_, List.getElem?_set_self (List.getElem?_eq_some_iff.mp hget).1,
      handle.movedOn_perform session.store clock command⟩
  case others => exact fun i hi => List.getElem?_set_ne (Ne.symm hi)
  case config => exact Store.config_modifyCell ..
  case rules => exact Store.rules_modifyCell ..
  case closed => exact hclosed
  case count => exact Store.nextInode_modifyCell ..
  case dirs => exact fun i => Store.dir?_modifyCell ..
  case cells =>
    intro i hi
    exact (session.store.cell?_modifyCell change _ i).trans (if_neg (Ne.symm hi))
  case cell =>
    intro c hc
    obtain ⟨node, hnode, hlasting⟩ := hlasts _ _ ((session.store.cell?_eq_some_iff).mp hc)
    cases node with
    | dir d => cases (Prod.mk.inj hlasting).1
    | file c' => exact ⟨c', (Store.cell?_eq_some_iff _).mpr hnode, (Prod.mk.inj hlasting).2⟩
  case reading =>
    intro hreads
    rw [← hstore]
    cases command with
    | write data => cases hreads
    | readFrom source => cases hreads
    | _ => rfl

/-- A step of a handle on a file comes to the same in all sessions that have the handle and what it
looks at in common. -/
theorem step_local (htarget : handle.target = .file inode) (session : Session) (index : Nat)
    (clock : Clock) (command : HandleCommand) :
    ∃ answer moved change, ∀ other : Session, other.handles[index]? = some handle →
      other.store.config = session.store.config →
      other.store.node? inode = session.store.node? inode →
      other.step clock (.handle index command) =
        (answer, { other with
          store := other.store.modifyCell inode change
          handles := other.handles.set index moved }) := by
  obtain ⟨answer, moved, change, h⟩ := Handle.perform_local htarget session.store clock command
  refine ⟨answer, moved, change, fun other hget hconfig hnode => ?_⟩
  have hperform : handle.perform other.store clock command =
      (answer, moved, other.store.modifyCell inode change) := h other.store hconfig hnode
  rw [step_handle hget, hperform]

/-- Operations of handles on different files come to the same in either order. -/
theorem run_swap (hget : session.handles[index]? = some handle)
    (hget' : session.handles[index']? = some handle') (htarget : handle.target = .file inode)
    (htarget' : handle'.target = .file inode') (hne : inode ≠ inode') (clock clock' : Clock)
    (command command' : HandleCommand) :
    session.run [(clock, .handle index command), (clock', .handle index' command')] =
      ((session.run [(clock', .handle index' command'), (clock, .handle index command)]).1.reverse,
        (session.run [(clock', .handle index' command'), (clock, .handle index command)]).2) := by
  have hindex : index ≠ index' := by
    rintro rfl
    obtain rfl := Option.some.inj (hget.symm.trans hget')
    exact hne (Target.file.inj (htarget.symm.trans htarget'))
  obtain ⟨answer, moved, change, h⟩ := step_local htarget session index clock command
  obtain ⟨answer', moved', change', h'⟩ := step_local htarget' session index' clock' command'
  have hkept : ∀ {i j : Nat} (change : Cell → Cell), i ≠ j →
      (session.store.modifyCell i change).node? j = session.store.node? j := by
    intro i j change hij
    rw [Store.modifyCell, Store.node?_modify, if_neg hij]
  have hfirst := h session hget rfl rfl
  have hfirst' := h' session hget' rfl rfl
  -- Neither step turns the other's handle or node.
  have hsecond := h' { session with
      store := session.store.modifyCell inode change
      handles := session.handles.set index moved }
    ((List.getElem?_set_ne hindex).trans hget') (by simp) (hkept change hne)
  have hsecond' := h { session with
      store := session.store.modifyCell inode' change'
      handles := session.handles.set index' moved' }
    ((List.getElem?_set_ne hindex.symm).trans hget) (by simp) (hkept change' hne.symm)
  have hstores := session.store.modifyCell_comm hne change change'
  have hhandles : (session.handles.set index moved).set index' moved' =
      (session.handles.set index' moved').set index moved := List.set_comm _ _ hindex
  simp only [run, hfirst, hsecond, hfirst', hsecond', hstores, hhandles]
  rfl

/-- An operation of a handle changes at most the handle and the cell that it is open on. So two
operations of handles on different files give the same answers and lead to the same session in
either order, each with its own readings of the clock. -/
theorem onlyTouches_and_run_swap (hreach : session.Reachable) :
    (∀ (index : Nat) (handle : Handle) (clock : Clock) (command : HandleCommand),
      session.handles[index]? = some handle →
        session.OnlyTouches index handle command
          (session.step clock (.handle index command)).2) ∧
    ∀ (index index' : Nat) (handle handle' : Handle) (inode inode' : Nat) (clock clock' : Clock)
      (command command' : HandleCommand), session.handles[index]? = some handle →
      session.handles[index']? = some handle' → handle.target = .file inode →
      handle'.target = .file inode' → inode ≠ inode' →
      session.run [(clock, .handle index command), (clock', .handle index' command')] =
        ((session.run
            [(clock', .handle index' command'), (clock, .handle index command)]).1.reverse,
          (session.run
            [(clock', .handle index' command'), (clock, .handle index command)]).2) :=
  ⟨fun _ _ clock command hget => onlyTouches_step hreach hget clock command,
    fun _ _ _ _ _ _ clock clock' command command' hget hget' htarget htarget' hne =>
      run_swap hget hget' htarget htarget' hne clock clock' command command'⟩

/-- A tree with two files, both open. -/
def twoFiles : Session :=
  (emptyTree.run [(fun k => k, .view 0 (.create "a")), (fun k => k, .view 0 (.create "b"))]).2

theorem onlyTouches_and_run_swap_twoFiles :
    twoFiles.Reachable ∧
      ∃ a b, twoFiles.handles[0]? = some a ∧ twoFiles.handles[1]? = some b ∧
        a.target = .file 2 ∧ b.target = .file 3 ∧
        twoFiles.OnlyTouches 0 a (.write [1, 2])
          (twoFiles.step (fun k => k + 9) (.handle 0 (.write [1, 2]))).2 ∧
        (twoFiles.run [(fun k => k + 9, .handle 0 (.write [1, 2])),
            (fun k => k, .handle 1 (.readFrom [.data [7]]))]).1 =
          (twoFiles.run [(fun k => k, .handle 1 (.readFrom [.data [7]])),
            (fun k => k + 9, .handle 0 (.write [1, 2]))]).1.reverse := by
  have hreach : twoFiles.Reachable := emptyTree_reachable.run _
  have hfirst : twoFiles.handles[0]? = some (.anewOn 2 "a" ".") := by decide +kernel
  have hsecond : twoFiles.handles[1]? = some (.anewOn 3 "b" ".") := by decide +kernel
  obtain ⟨htouches, hswaps⟩ := onlyTouches_and_run_swap hreach
  refine ⟨hreach, _, _, hfirst, hsecond, rfl, rfl,
    htouches 0 _ (fun k => k + 9) (.write [1, 2]) hfirst, ?_⟩
  exact congrArg (·.1) (hswaps 0 1 _ _ 2 3 (fun k => k + 9) (fun k => k) (.write [1, 2])
    (.readFrom [.data [7]]) hfirst hsecond rfl rfl (by decide))

end Session

end VirtualFs.Tree
