import VirtualFs.Proofs.Content.Handle
import VirtualFs.Proofs.Tree.Descent
import VirtualFs.Proofs.Tree.Reachable

namespace VirtualFs

namespace Plain

def Transfer.toTree : Transfer → Tree.HandleCommand
  | .read n => .read n
  | .readAt n offset => .readAt n offset
  | .readToEnd out => .readToEnd out
  | .seek goal => .seek goal
  | .write data => .write data
  | .readFrom source => .readFrom source
  | .close => .close

/-- The command of a tree that an operation on its file is. -/
def Command.toTree : Command → Tree.Command
  | .openRead view path => .view view (.openRead path)
  | .openFile view path flags mode => .view view (.openFile path flags mode)
  | .create view path => .view view (.create path)
  | .handle index transfer => .handle index transfer.toTree

end Plain

namespace Tree

variable {bound inode : Nat}

namespace Store

/-- What holds of the cell of a new file and is kept by emptying and writing is kept of all cells by
a primitive step. -/
theorem Change.forall_cell {named : String → Prop} {store store' : Store} {P : Cell → Prop}
    (hstep : Change named store store') (hcells : ∀ i c, store.cell? i = some c → P c)
    (hempty : ∀ entry : Entry, entry.isDir = false → entry.size = 0 →
      P (.empty entry store.config.initialCapacity))
    (htruncate : ∀ c, P c → P c.truncate)
    (hwrite : ∀ c now offset data, P c → P (c.writeAt store.config now offset data).2) :
    ∀ i c, store'.cell? i = some c → P c := by
  intro i c hc
  cases hstep with
  | reserve => exact hcells i c (by rwa [cell?_reserve] at hc)
  | addDir hparent =>
    rw [store.cell?_addNode hparent] at hc
    split at hc
    · cases hc
    · exact hcells i c hc
  | addFile hparent hname hfree hentry =>
    rw [store.cell?_addNode hparent] at hc
    split at hc
    · obtain rfl := Option.some.inj hc
      have hattrs := Entry.attrs_of_create hentry
      refine hempty _ ?_ ?_
      · simp [Entry.isDir, hattrs, Attributes.createdAt]
      · simp [Entry.size, hattrs, Attributes.createdAt]
    · exact hcells i c hc
  | touch => exact hcells i c (by rwa [cell?_modifyDir] at hc)
  | truncate hcell =>
    rw [cell?_modifyCell] at hc
    split at hc
    · obtain ⟨old, hold, rfl⟩ := Option.map_eq_some_iff.mp hc
      exact htruncate old (hcells i old hold)
    · exact hcells i c hc
  | write hcell now offset data =>
    rw [cell?_modifyCell] at hc
    split at hc
    · obtain ⟨old, hold, rfl⟩ := Option.map_eq_some_iff.mp hc
      exact hwrite _ now offset data (hcells _ _ hcell)
    · exact hcells i c hc
  | close => exact hcells i c hc

/-- Every cell of the store is sound. -/
def Sound (bound : Nat) (store : Store) : Prop :=
  ∀ i c, store.cell? i = some c → c.Sound bound

theorem Change.sound {named : String → Prop} {store store' : Store}
    (hstep : Change named store store') (hvalid : store.config.Valid)
    (hgrows : store.config.GrowsWithin bound) (hsound : store.Sound bound) :
    store'.Sound bound :=
  hstep.forall_cell hsound
    (fun _ hregular hsize => Cell.sound_empty (Nat.le_trans hvalid.2.2.2 hgrows.1) hregular hsize)
    (fun _ hcell => hcell.truncate)
    fun _ now offset data hcell => (Cell.writeAt_spec hcell hgrows now offset data).1

end Store

namespace Session

/-- Along every run the buffers are zero past the contents. -/
theorem ReachableBy.sound {session : Session} (hreach : session.Reachable)
    (hgrows : session.store.config.GrowsWithin bound) : session.store.Sound bound := by
  have hinvariant := hreach.store_induction
    (P := fun s => s.config.Valid ∧ (s.config.GrowsWithin bound → s.Sound bound))
    (fun hrooted _ => step_changes_segment hrooted _ _) ?_ ?_
  · exact hinvariant.2 hgrows
  · intro config rules now hvalid
    refine ⟨hvalid, fun _ i c hc => ?_⟩
    match i with
    | 0 => cases hc
    | 1 => cases hc
    | _ + 2 => cases hc
  · rintro s s' hstep ⟨hvalid, hsound⟩
    rw [hstep.config_eq]
    exact ⟨hvalid, fun hgrows => hstep.sound hvalid hgrows (hsound hgrows)⟩

end Session

/-- A handle as one on the plain file of this number, if it is open on that. -/
def Handle.onFile? (inode : Nat) (handle : Handle) : Option Plain.Handle :=
  if handle.target = .file inode then some handle.plain else none

namespace Session

/-- The plain file of this number with the handles on it. -/
def plain? (inode : Nat) (session : Session) : Option Plain.Machine :=
  (session.store.cell? inode).map fun cell =>
    ⟨session.store.config, cell.plain, session.handles.map (Handle.onFile? inode)⟩

/-- A view finds the node of this number at a path. -/
def Finds (session : Session) (view : Nat) (path : String) (inode : Nat) : Prop :=
  ∃ v cleaned, session.views[view]? = some v ∧ session.store.rules.clean path = .ok cleaned ∧
    session.store.resolve v.root cleaned = .ok inode

end Session

/-- The operation is one on the file of this number: a path to open leads to it, and a handle that
is there already is open on it. -/
def OnFile (session : Session) (inode : Nat) : Plain.Command → Prop
  | .openRead view path => session.Finds view path inode
  | .openFile view path _ _ => session.Finds view path inode
  | .create view path => session.Finds view path inode
  | .handle index _ => ∀ handle, session.handles[index]? = some handle →
      handle.target = .file inode

/-- The machine is that of the file, and the cell behind it is sound. -/
structure Follows (bound inode : Nat) (session : Session) (machine : Plain.Machine) : Prop where
  config : machine.config = session.store.config
  cell : ∃ cell, session.store.cell? inode = some cell ∧ cell.Sound bound ∧
    cell.plain = machine.file
  handles : machine.handles = session.handles.map (Handle.onFile? inode)

/-- What an operation on one file leaves alone: everything that decides which operations are on
it. -/
structure Keeps (inode : Nat) (session session' : Session) : Prop where
  views : session'.views = session.views
  rules : session'.store.rules = session.store.rules
  dirs : ∀ i, session'.store.dir? i = session.store.dir? i
  handles : ∀ (index : Nat) (handle : Handle), session'.handles[index]? = some handle →
    handle.target = .file inode ∨
      ∃ before : Handle, session.handles[index]? = some before ∧ before.target = handle.target

/-- The outcomes of one operation for the tree and for the machine are the same. -/
structure Agrees (bound inode : Nat) (session : Session)
    (outcome : Except FsError Reply × Session)
    (plain : Except FsError Reply × Plain.Machine) : Prop where
  answer : outcome.1 = plain.1
  follows : Follows bound inode outcome.2 plain.2
  keeps : Keeps inode session outcome.2

variable {session session' : Session} {machine : Plain.Machine}

theorem Follows.plain?_eq (hfollows : Follows bound inode session machine) :
    session.plain? inode = some machine := by
  obtain ⟨hconfig, ⟨cell, hcell, _, hfile⟩, hhandles⟩ := hfollows
  unfold Session.plain?
  rw [hcell, Option.map_some, ← hconfig, hfile, ← hhandles]

theorem Keeps.refl (session : Session) : Keeps inode session session :=
  ⟨rfl, rfl, fun _ => rfl, fun _ handle hhandle => .inr ⟨handle, hhandle, rfl⟩⟩

theorem Keeps.onFile (hkeeps : Keeps inode session session') {command : Plain.Command}
    (hon : OnFile session inode command) : OnFile session' inode command := by
  have hfinds : ∀ {view path}, session.Finds view path inode → session'.Finds view path inode := by
    rintro view path ⟨v, cleaned, hview, hclean, hfound⟩
    exact ⟨v, cleaned, by rwa [hkeeps.views], by rwa [hkeeps.rules],
      Store.resolve_congr hkeeps.dirs hkeeps.rules hfound⟩
  cases command with
  | openRead view path => exact hfinds hon
  | openFile view path flags mode => exact hfinds hon
  | create view path => exact hfinds hon
  | handle index transfer =>
    intro handle hhandle
    rcases hkeeps.handles index handle hhandle with htarget | ⟨before, hbefore, htarget⟩
    · exact htarget
    · rw [← htarget]
      exact hon before hbefore

/-- Opening a path that leads to the file takes a handle on it, with any flags. -/
theorem agrees_openNode (hfollows : Follows bound inode session machine) {view : View}
    {path cleaned : String} (hclean : session.store.rules.clean path = .ok cleaned)
    (hfound : session.store.resolve view.root cleaned = .ok inode) (clock : Clock)
    (flags : OpenFlags) (mode : FileMode) (operation : Operation) :
    Agrees bound inode session
      (session.takeHandle
        (FsError.tag operation path (view.openNode session.store clock path flags mode).1,
          (view.openNode session.store clock path flags mode).2))
      (machine.openFile flags path) := by
  obtain rfl := session.store.rules.cleaned_of_clean hclean
  obtain ⟨hconfig, ⟨cell, hcell, hsound, hfile⟩, hhandles⟩ := hfollows
  obtain ⟨htarget, ⟨opened, hopened, hsound', hplain⟩, hdirs⟩ :=
    Handle.onNode_plain hcell hsound flags (Path.cleaned path) (view.base session.store)
  have hchanges : Store.Changes Path.IsSegment session.store _ :=
    Handle.onNode_changes session.store inode flags (Path.cleaned path) (view.base session.store)
  rw [View.openNode_of_found hclean hfound]
  rcases hnode : Handle.onNode session.store inode flags (Path.cleaned path)
    (view.base session.store) with ⟨handle, store⟩
  rw [hnode, hfile] at hplain
  rw [hnode] at htarget hopened hdirs hchanges
  unfold Plain.Machine.openFile
  rw [← hplain]
  refine ⟨?_, ⟨?_, ⟨opened, hopened, hsound', rfl⟩, ?_⟩, ⟨rfl, hchanges.rules_eq, hdirs, ?_⟩⟩
  · simp [Session.takeHandle, hhandles]
  · exact hconfig.trans hchanges.config_eq.symm
  · simpa [Session.takeHandle, hhandles, Handle.onFile?] using htarget
  · intro index kept hkept
    simp only [Session.takeHandle, FsError.tag_ok, List.getElem?_append] at hkept
    split at hkept
    · exact .inr ⟨kept, hkept, rfl⟩
    · left
      obtain rfl := List.mem_singleton.mp (List.mem_of_getElem? hkept)
      exact htarget

section

variable {handle handle' : Handle} {index : Nat} {store' : Store} {file' : Plain.File}

theorem Follows.putHandle (hfollows : Follows bound inode session machine)
    (htarget : handle'.target = .file inode) (hconfig : store'.config = session.store.config)
    (hcell : ∃ cell, store'.cell? inode = some cell ∧ cell.Sound bound ∧ cell.plain = file') :
    Follows bound inode ({ session with store := store' }.putHandle index handle')
      ({ machine with file := file' }.putHandle index handle'.plain) := by
  refine ⟨hfollows.config.trans hconfig.symm, hcell, ?_⟩
  simp only [Session.putHandle, Plain.Machine.putHandle, hfollows.handles, List.map_set,
    Handle.onFile?, htarget, if_true]

theorem Keeps.putHandle (htarget : handle'.target = .file inode)
    (hrules : store'.rules = session.store.rules)
    (hdirs : ∀ i, store'.dir? i = session.store.dir? i) :
    Keeps inode session ({ session with store := store' }.putHandle index handle') := by
  refine ⟨rfl, hrules, hdirs, ?_⟩
  intro i kept hkept
  simp only [Session.putHandle, List.getElem?_set] at hkept
  split at hkept
  · split at hkept
    · left
      simp only [Option.some.injEq] at hkept
      rwa [← hkept]
    · cases hkept
  · exact .inr ⟨kept, hkept, rfl⟩

/-- A transfer that only reads the file. -/
theorem Agrees.of_reading (hfollows : Follows bound inode session machine)
    (htarget : handle'.target = .file inode) {answer answer' : Except FsError Reply}
    {plain : Plain.Handle} (hanswer : answer = answer') (hplain : handle'.plain = plain) :
    Agrees bound inode session (answer, session.putHandle index handle')
      (answer', machine.putHandle index plain) := by
  subst hplain
  exact ⟨hanswer, hfollows.putHandle htarget rfl hfollows.cell,
    Keeps.putHandle htarget rfl fun _ => rfl⟩

/-- A transfer into the file. -/
theorem Agrees.of_writes (hfollows : Follows bound inode session machine)
    (htarget : handle.target = .file inode)
    {outcome : Except FsError Nat × Handle × Store}
    {plain : Except FsError Nat × Plain.Handle × Plain.File}
    (hwrites : Handle.Writes bound session.store handle inode outcome plain)
    (hchanges : Store.Changes Path.IsSegment session.store outcome.2.2) :
    Agrees bound inode session
      (outcome.1.map .count,
        { session with store := outcome.2.2 }.putHandle index outcome.2.1)
      (plain.1.map .count, { machine with file := plain.2.2 }.putHandle index plain.2.1) := by
  have htarget' := hwrites.target.trans htarget
  rw [← hwrites.handle, hwrites.answer]
  exact ⟨rfl, hfollows.putHandle htarget' hchanges.config_eq hwrites.cell,
    Keeps.putHandle htarget' hchanges.rules_eq hwrites.dirs⟩

/-- Any transfer through a handle on the file. -/
theorem agrees_transfer (hfollows : Follows bound inode session machine)
    (hgrows : session.store.config.GrowsWithin bound) (htarget : handle.target = .file inode)
    (clock : Clock) (transfer : Plain.Transfer) :
    Agrees bound inode session (session.handleStep clock index handle transfer.toTree)
      (machine.transfer clock index handle.plain transfer) := by
  obtain ⟨cell, hcell, hsound, hfile⟩ := hfollows.cell
  cases transfer with
  | read n =>
    have hread := Handle.read_plain htarget hcell n
    rw [hfile, Prod.mk.injEq] at hread
    exact .of_reading hfollows ((handle.movedOn_read _ n).target_eq.trans htarget)
      (congrArg (·.map Reply.data) hread.1) hread.2
  | readAt n offset =>
    have hread := Handle.readAt_plain htarget hcell n offset
    rw [hfile] at hread
    refine ⟨?_, hfollows, .refl session⟩
    simp only [Session.handleStep, Plain.Transfer.toTree, Plain.Machine.transfer, hread]
  | readToEnd out =>
    have hread := Handle.readToEnd_plain htarget hcell out
    rw [hfile, Prod.mk.injEq, Prod.mk.injEq] at hread
    obtain ⟨hcount, hwhole, hhandle⟩ := hread
    have hanswer : (handle.readToEnd session.store out).1.map
        (fun n => Reply.appended n (handle.readToEnd session.store out).2.1) =
        (handle.plain.readToEnd machine.file out).1.map
          fun n => .appended n (handle.plain.readToEnd machine.file out).2.1 := by
      rw [hcount, hwhole]
    exact .of_reading hfollows ((handle.movedOn_readToEnd _ out).target_eq.trans htarget) hanswer
      hhandle
  | seek goal =>
    have hseek := Handle.seek_plain htarget hcell hsound goal
    rw [hfile, Prod.mk.injEq] at hseek
    exact .of_reading hfollows ((handle.movedOn_seek _ goal).target_eq.trans htarget)
      (congrArg (·.map Reply.count) hseek.1) hseek.2
  | write data =>
    have hwrites := Handle.write_plain htarget hcell hsound hgrows (clock 0) data
    rw [hfile, ← hfollows.config] at hwrites
    exact .of_writes hfollows htarget hwrites (handle.write_changes session.store (clock 0) data)
  | readFrom source =>
    have hwrites := Handle.readFrom_plain htarget hcell hsound hgrows clock source
    rw [hfile, ← hfollows.config] at hwrites
    exact .of_writes hfollows htarget hwrites
      (handle.readFrom_changes session.store clock source)
  | close =>
    have hclose := handle.close_plain
    rw [Prod.mk.injEq] at hclose
    exact .of_reading hfollows (handle.movedOn_close.target_eq.trans htarget)
      (congrArg (·.map fun _ => Reply.done) hclose.1) hclose.2

end

theorem agrees_step (hfollows : Follows bound inode session machine)
    (hgrows : session.store.config.GrowsWithin bound) (clock : Clock) {command : Plain.Command}
    (hon : OnFile session inode command) :
    Agrees bound inode session (session.step clock command.toTree)
      (machine.step clock command) := by
  cases command with
  | openRead view path =>
    obtain ⟨v, cleaned, hview, hclean, hfound⟩ := hon
    simp only [Plain.Command.toTree, Session.step, hview]
    exact agrees_openNode hfollows hclean hfound clock .rdonly ⟨0⟩ .open
  | openFile view path flags mode =>
    obtain ⟨v, cleaned, hview, hclean, hfound⟩ := hon
    simp only [Plain.Command.toTree, Session.step, hview]
    exact agrees_openNode hfollows hclean hfound clock flags mode .openFile
  | create view path =>
    obtain ⟨v, cleaned, hview, hclean, hfound⟩ := hon
    simp only [Plain.Command.toTree, Session.step, hview]
    exact agrees_openNode hfollows hclean hfound clock View.anew _ .create
  | handle index transfer =>
    simp only [Plain.Command.toTree, Session.step, Plain.Machine.step, hfollows.handles,
      List.getElem?_map]
    cases hhandle : session.handles[index]? with
    | none => exact ⟨rfl, hfollows, .refl session⟩
    | some handle =>
      have htarget := hon handle hhandle
      simp only [Option.map_some, Option.join_some, Handle.onFile?, htarget, if_true]
      exact agrees_transfer hfollows hgrows htarget clock transfer

/-- Any run of operations on one file, through handles of every kind, answers as the machine whose
file is a plain list of bytes does, and leaves the same bytes and the same cursors. -/
theorem run_eq_plain (hreach : session.Reachable)
    (hgrows : session.store.config.GrowsWithin bound)
    (hmachine : session.plain? inode = some machine) (commands : List (Clock × Plain.Command))
    (hon : ∀ c ∈ commands, OnFile session inode c.2) :
    (session.run (commands.map fun c => (c.1, c.2.toTree))).1 = (machine.run commands).1 ∧
      (session.run (commands.map fun c => (c.1, c.2.toTree))).2.plain? inode =
        some (machine.run commands).2 := by
  have hfollows : Follows bound inode session machine := by
    obtain ⟨cell, hcell, rfl⟩ := Option.map_eq_some_iff.mp hmachine
    exact ⟨rfl, ⟨cell, hcell, hreach.sound hgrows inode cell hcell, rfl⟩, rfl⟩
  clear hreach hmachine
  induction commands generalizing session machine with
  | nil => exact ⟨rfl, hfollows.plain?_eq⟩
  | cons c rest ih =>
    obtain ⟨clock, command⟩ := c
    obtain ⟨hanswer, hfollows', hkeeps⟩ :=
      agrees_step hfollows hgrows clock (hon _ (List.mem_cons_self ..))
    have hconfig : (session.step clock command.toTree).2.store.config = session.store.config := by
      rw [← hfollows'.config, ← hfollows.config, machine.config_step]
    obtain ⟨hanswers, hplain⟩ := ih (by rwa [hconfig])
      (fun c' hc' => hkeeps.onFile (hon c' (List.mem_cons_of_mem _ hc'))) hfollows'
    exact ⟨List.cons_eq_cons.mpr ⟨hanswer, hanswers⟩, hplain⟩

/-- The default settings with room for 8 bytes. -/
def scant : Config :=
  { Config.standard with maxContentLen := 8 }

/-- A file with four bytes, and the handle that wrote them. -/
def fourBytes : Session :=
  ((Session.create scant .permissive 0).run
    [(fun _ => 0, .view 0 (.create "f")), (fun _ => 0, .handle 0 (.write [1, 2, 3, 4]))]).2

/-- A second handle empties the file, and the first one, whose cursor is past the new end, writes
on. The bytes that were there do not come back in the gap. -/
def writeBehindEnd : List (Clock × Plain.Command) :=
  [(fun _ => 1, .openFile 0 "f" (.union .rdwr .trunc) ⟨0⟩),
    (fun _ => 1, .handle 0 (.write [9])), (fun _ => 1, .handle 1 (.readToEnd [])),
    (fun _ => 1, .handle 0 (.readAt 2 3)), (fun _ => 1, .handle 1 (.seek (.fromEnd (-1)))),
    (fun _ => 1, .handle 1 .close), (fun _ => 1, .handle 1 (.read 1))]

theorem scant_growsWithin : scant.GrowsWithin 8 := by
  refine ⟨by decide, fun capacity n grown hcapacity hn hgrown => ?_⟩
  have hall : ∀ c ∈ List.range 9, ∀ k ∈ List.range 9,
      (grownCapacity scant c k).all fun g => decide (c + k ≤ g ∧ g ≤ 8) := by decide +kernel
  have hmax : scant.maxContentLen = 8 := rfl
  have hone := hall capacity (by simp; omega) n (by simp; omega)
  rw [hgrown] at hone
  simpa using hone

theorem scant_valid : scant.Valid :=
  ⟨by decide +kernel, by decide⟩

theorem fourBytes_reachable : fourBytes.Reachable :=
  Session.ReachableBy.run (.build (Session.build_eq_ok scant_valid none 0)) _

theorem run_eq_plain_writeBehindEnd :
    ∃ machine, fourBytes.plain? 2 = some machine ∧ machine.file.bytes = [1, 2, 3, 4] ∧
      (fourBytes.run (writeBehindEnd.map fun c => (c.1, c.2.toTree))).1 =
        (machine.run writeBehindEnd).1 ∧
      (machine.run writeBehindEnd).1[2]? = some (.ok (.appended 5 [0, 0, 0, 0, 9])) := by
  have hmachine : fourBytes.plain? 2 = some
      ⟨scant, ⟨[1, 2, 3, 4], ⟨6, 0, 0⟩⟩, [some ⟨View.anew, "f", 0, 4, false⟩]⟩ := by
    decide +kernel
  have hfinds : fourBytes.Finds 0 "f" 2 :=
    ⟨.whole, "f", by decide +kernel, by decide +kernel, by decide +kernel⟩
  have hfirst : fourBytes.handles.map Handle.target = [.file 2] := by decide +kernel
  have hon : ∀ c ∈ writeBehindEnd, OnFile fourBytes 2 c.2 := by
    have hhandle : ∀ (i : Nat) (handle : Handle), fourBytes.handles[i]? = some handle →
        handle.target = .file 2 := by
      intro i handle hget
      have hmem : handle.target ∈ fourBytes.handles.map Handle.target :=
        List.mem_map_of_mem (List.mem_of_getElem? hget)
      rwa [hfirst, List.mem_singleton] at hmem
    intro c hc
    simp only [writeBehindEnd, List.mem_cons, List.not_mem_nil, or_false] at hc
    rcases hc with rfl | rfl | rfl | rfl | rfl | rfl | rfl
    · exact hfinds
    all_goals exact hhandle _
  exact ⟨_, hmachine, rfl,
    (run_eq_plain fourBytes_reachable scant_growsWithin hmachine writeBehindEnd hon).1,
    by decide +kernel⟩

end Tree

end VirtualFs
