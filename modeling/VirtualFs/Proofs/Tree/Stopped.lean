import VirtualFs.Proofs.Content.Buffers
import VirtualFs.Proofs.Tree.Copying

namespace VirtualFs.Tree

/-- The cell without room behind its content. -/
def Cell.shown (cell : Cell) : Cell :=
  { cell with buf := cell.active }

/-- The node without room behind its content. -/
def Node.shown : Node → Node
  | dir d => .dir d
  | file c => .file c.shown

namespace Store

/-- The store without room in its buffers. -/
def shown (store : Store) : Store :=
  { store with nodes := store.nodes.map (·.map Node.shown) }

/-- A change that shows nothing of the cell shows nothing of the store. -/
theorem shown_modifyCell {store : Store} {inode : Nat} {change : Cell → Cell}
    (hsame : ∀ c, store.cell? inode = some c → (change c).shown = c.shown) :
    (store.modifyCell inode change).shown = store.shown := by
  cases inode with
  | zero => rfl
  | succ i =>
    have hnodes : (store.modifyCell (i + 1) change).nodes.map (·.map Node.shown) =
        store.nodes.map (·.map Node.shown) := by
      apply List.ext_getElem?
      intro j
      rw [modifyCell, modify, List.getElem?_map, List.getElem?_map, List.getElem?_modify]
      by_cases hij : i = j
      · subst hij
        rcases hnode : store.nodes[i]? with _ | (_ | d | c)
        · rfl
        · simp
        · simp
        · have hcell : store.cell? (i + 1) = some c := by simp [cell?, node?, hnode]
          simp [Node.shown, hsame c hcell]
      · simp [hij]
    simp only [shown, hnodes]
    rfl

end Store

/-- The session without room in its buffers. -/
def Session.shown (session : Session) : Session :=
  { session with store := session.store.shown }

namespace Cell

variable {config : Config} {bound : Nat} {cell roomy written : Cell} {offset n : Nat}

/-- Making room shows nothing. -/
theorem shown_of_makeRoom (hsound : cell.Sound bound) (hgrows : config.GrowsWithin bound)
    (hn : n ≤ config.maxContentLen) (hmade : cell.makeRoom config offset n = some roomy) :
    roomy.shown = cell.shown := by
  unfold makeRoom at hmade
  split at hmade
  · split at hmade
    · next grown hgrown =>
      obtain ⟨hfits, -⟩ := hgrows.2 _ _ _ hsound.capacity_le hn hgrown
      have hle : cell.capacity ≤ max grown (offset + n) := by omega
      obtain rfl := Option.some.inj hmade
      have hactive := active_resize hsound.size_le hle
      simp only [shown, hactive]
      rfl
    · cases hmade
  · obtain rfl := Option.some.inj hmade
    rfl

/-- A write that fails shows nothing, even one that fails after room was made. -/
theorem shown_writeAt_of_error {now : Time} {data : Bytes} {e : FsError}
    (hsound : cell.Sound bound) (hgrows : config.GrowsWithin bound)
    (hwrite : cell.writeAt config now offset data = (.error e, written)) :
    written.shown = cell.shown := by
  unfold writeAt at hwrite
  split at hwrite
  · cases hwrite
  split at hwrite
  · cases hwrite
    rfl
  next hend =>
  split at hwrite
  · cases hwrite
    rfl
  next roomy hroom =>
  split at hwrite
  · cases hwrite
    exact shown_of_makeRoom hsound hgrows (by omega) hroom
  · cases hwrite

end Cell

namespace Handle

variable {handle later : Handle} {store store' : Store} {bound : Nat}

theorem shown_write_of_error {now : Time} {data : Bytes} {e : FsError}
    (hsound : store.Sound bound) (hgrows : store.config.GrowsWithin bound)
    (hwrite : handle.write store now data = (.error e, later, store')) :
    later = handle ∧ store'.shown = store.shown := by
  unfold write at hwrite
  split at hwrite
  · cases hwrite
    exact ⟨rfl, rfl⟩
  unfold put at hwrite
  split at hwrite
  · cases hwrite
  next cell hcell =>
  split at hwrite
  · next written hfailed =>
    cases hwrite
    refine ⟨rfl, Store.shown_modifyCell fun c hc => ?_⟩
    obtain rfl := Option.some.inj (hcell.symm.trans hc)
    exact Cell.shown_writeAt_of_error (hsound _ _ hcell) hgrows hfailed
  · cases hwrite

end Handle

namespace Session

variable {session later : Session} {clock : Clock} {index bound : Nat} {handle moved : Handle}
  {source : Source} {e : FsError} {store' : Store} {pieces : List Source.Piece}

/-- A write through the handle `index` is what the handle makes of it. -/
theorem step_write (clock : Clock) (hget : session.handles[index]? = some handle) {data : Bytes}
    {answer : Except FsError Nat}
    (hwrite : handle.write session.store (clock 0) data = (answer, moved, store')) :
    session.step clock (.handle index (.write data)) =
      (answer.map .count,
        { session with store := store', handles := session.handles.set index moved }) := by
  rw [step_handle hget]
  simp only [Handle.perform, hwrite]

theorem shown_step_write_of_error (hreach : session.Reachable)
    (hgrows : session.store.config.GrowsWithin bound) {data : Bytes}
    (hstep : session.step clock (.handle index (.write data)) = (.error e, later)) :
    later.shown = session.shown := by
  cases hget : session.handles[index]? with
  | none =>
    simp only [step, hget] at hstep
    cases hstep
    rfl
  | some handle =>
    rcases hwrite : handle.write session.store (clock 0) data with ⟨e' | n, moved, store'⟩
    · rw [step_write clock hget hwrite] at hstep
      obtain ⟨hmoved, hshown⟩ := Handle.shown_write_of_error (hreach.sound hgrows) hgrows hwrite
      obtain ⟨-, rfl⟩ := Prod.mk.inj hstep
      simp only [shown, hshown, hmoved, handles_set_self hget]
    · rw [step_write clock hget hwrite] at hstep
      cases hstep

/-- The writes of these pieces through the handle `index`, each at the stage that its read had in
the transfer. -/
def pieceWrites (clock : Clock) (index : Nat) (pieces : List Source.Piece) :
    List (Clock × Command) :=
  pieces.map fun piece => (clock.later piece.stage, .handle index (.write piece.bytes))

/-- Writing pieces is a run of writes. -/
theorem run_pieceWrites (hget : session.handles[index]? = some handle)
    (stands : (handle.cell? session.store).isSome)
    (hpieces : handle.writePieces session.store clock pieces = (.ok (), moved, store')) :
    session.run (pieceWrites clock index pieces) =
      (pieces.map fun piece => .ok (.count piece.bytes.length),
        { session with store := store', handles := session.handles.set index moved }) := by
  induction pieces generalizing session handle with
  | nil =>
    cases hpieces
    simp only [pieceWrites, List.map_nil, run, handles_set_self hget]
  | cons piece rest ih =>
    rcases hwrite : handle.write session.store (clock piece.stage) piece.bytes with
      ⟨e | n, written, store⟩
    · simp only [Handle.writePieces, hwrite] at hpieces
      cases hpieces
    · simp only [Handle.writePieces, hwrite] at hpieces
      obtain ⟨hcount, -⟩ | ⟨⟨e, he⟩, -⟩ := Handle.of_write stands hwrite
      · obtain rfl := Except.ok.inj hcount
        have hstep : session.step (clock.later piece.stage) (.handle index (.write piece.bytes)) =
            (.ok (.count piece.bytes.length),
              { session with store := store, handles := session.handles.set index written }) :=
          step_write (clock.later piece.stage) hget hwrite
        have hindex := (List.getElem?_eq_some_iff.mp hget).1
        have hrest := @ih
          { session with store := store, handles := session.handles.set index written } written
          (List.getElem?_set_self hindex) (Handle.isSome_cell?_of_write stands hwrite) hpieces
        rw [List.set_set] at hrest
        simp only [pieceWrites] at hrest
        simp only [pieceWrites, List.map_cons, run, hstep, hrest]
      · cases he

/-- How a transfer through the handle `index` fails with the error `e`, once the pieces `front` were
written. `later` is the session in which it fails. -/
inductive Stops (session : Session) (clock : Clock) (index : Nat) (handle : Handle)
    (source : Source) : FsError → List Source.Piece → Session → Prop where
  /-- The handle does not allow it, and nothing is read. -/
  | refused {cause : FsError} (hcheck : handle.checkWritable = .error cause) :
      Stops session clock index handle source (.tagged .readFrom handle.path cause) [] session
  /-- The source fails after all of its pieces. -/
  | sourceFailed {failure : IoError} (hfailure : source.failure? = some failure) :
      Stops session clock index handle source (.tagged .readFrom handle.path (.io failure))
        (source.pieces 0) (session.run (pieceWrites clock index (source.pieces 0))).2
  /-- The write of a piece fails. -/
  | writeFailed {front back : List Source.Piece} {piece : Source.Piece} {e : FsError}
      {later : Session} (hpieces : source.pieces 0 = front ++ piece :: back)
      (hwrite : (session.run (pieceWrites clock index front)).2.step (clock.later piece.stage)
        (.handle index (.write piece.bytes)) = (.error e, later)) :
      Stops session clock index handle source e front later

/-- Writable handles stand on files. -/
theorem isSome_cell?_of_checkWritable (hreach : session.Reachable)
    (hget : session.handles[index]? = some handle) (hchecked : handle.checkWritable = .ok ()) :
    (handle.cell? session.store).isSome := by
  have hstands := hreach.aimed.stands hget
  unfold Handle.cell?
  cases htarget : handle.target with
  | dir inode =>
    unfold Handle.checkWritable Handle.checkTransfer at hchecked
    rw [htarget] at hchecked
    split at hchecked <;> cases hchecked
  | file inode => rwa [htarget] at hstands

/-- A transfer that fails has written the pieces before the failure. -/
theorem stops_of_step (hreach : session.Reachable) (hget : session.handles[index]? = some handle)
    (hstep : session.step clock (.handle index (.readFrom source)) = (.error e, later)) :
    ∃ front, Stops session clock index handle source e front later ∧
      (session.run (pieceWrites clock index front)).1 =
        (front.map fun piece => .ok (.count piece.bytes.length)) ∧
      (session.run (pieceWrites clock index front)).2.handles = session.handles.set index
        { handle with writeOff := handle.writeOff + (Source.joined front).length } := by
  rw [step_handle hget] at hstep
  cases hcheck : handle.checkWritable with
  | error cause =>
    simp only [Handle.perform, Handle.readFrom, hcheck, handles_set_self hget] at hstep
    cases hstep
    exact ⟨[], .refused hcheck, rfl, (handles_set_self hget).symm⟩
  | ok u =>
    have stands := isSome_cell?_of_checkWritable hreach hget hcheck
    have hindex := (List.getElem?_eq_some_iff.mp hget).1
    simp only [Handle.perform, Handle.readFrom_of_checkWritable hcheck] at hstep
    rcases hpieces : handle.writePieces session.store clock (source.pieces 0) with
      ⟨e' | u, moved, store'⟩
    · rw [hpieces] at hstep
      cases hstep
      obtain ⟨front, piece, back, moved', written, hsplit, hfront, hwrite⟩ :=
        Handle.of_writePieces_error hpieces
      have hrun := run_pieceWrites hget stands hfront
      refine ⟨front, .writeFailed hsplit ?_, ?_, ?_⟩
      · rw [hrun]
        apply Eq.trans (step_write (clock.later piece.stage) (List.getElem?_set_self hindex) hwrite)
        rw [List.set_set]
        rfl
      · rw [hrun]
      · rw [hrun, Handle.of_writePieces_ok stands hfront]
    · rw [hpieces] at hstep
      obtain rfl := Handle.of_writePieces_ok stands hpieces
      have hrun := run_pieceWrites hget stands hpieces
      cases hfailure : source.failure? with
      | none =>
        rw [hfailure] at hstep
        cases hstep
      | some failure =>
        rw [hfailure] at hstep
        obtain ⟨herror, rfl⟩ := Prod.mk.inj hstep
        obtain rfl := Except.error.inj herror
        refine ⟨source.pieces 0, ?_, ?_, ?_⟩
        · have hstops : Stops session clock index handle source _ _ _ := .sourceFailed hfailure
          rwa [hrun] at hstops
        · rw [hrun]
        · rw [hrun]

/-- Up to the room in buffers, what a failed transfer leaves is what the writes of its pieces
leave. -/
theorem Stops.shown_eq {front : List Source.Piece}
    (hstops : Stops session clock index handle source e front later) (hreach : session.Reachable)
    (hgrows : session.store.config.GrowsWithin bound) :
    later.shown = (session.run (pieceWrites clock index front)).2.shown := by
  cases hstops with
  | refused => rfl
  | sourceFailed => rfl
  | writeFailed hpieces hwrite =>
    have hgrows' :
        (session.run (pieceWrites clock index front)).2.store.config.GrowsWithin bound := by
      rwa [(hreach.rooted.run_changes _).config_eq]
    exact shown_step_write_of_error (hreach.run _) hgrows' hwrite

/-- A write that fails, for whichever reason, leaves all contents, entries and cursors as they were.
A transfer that fails leaves them as the writes of the pieces before the failure do, all of which
succeed, and its write cursor stands behind these pieces. -/
theorem shown_and_stops_of_error (hreach : session.Reachable)
    (hgrows : session.store.config.GrowsWithin bound) :
    (∀ (clock : Clock) (index : Nat) (data : Bytes) (e : FsError) (later : Session),
      session.step clock (.handle index (.write data)) = (.error e, later) →
        later.shown = session.shown) ∧
    ∀ (clock : Clock) (index : Nat) (handle : Handle) (source : Source) (e : FsError)
      (later : Session), session.handles[index]? = some handle →
      session.step clock (.handle index (.readFrom source)) = (.error e, later) →
      ∃ front, Stops session clock index handle source e front later ∧
        later.shown = (session.run (pieceWrites clock index front)).2.shown ∧
        (session.run (pieceWrites clock index front)).1 =
          (front.map fun piece => .ok (.count piece.bytes.length)) ∧
        later.handles = session.handles.set index
          { handle with writeOff := handle.writeOff + (Source.joined front).length } := by
  refine ⟨fun clock index data e later => shown_step_write_of_error hreach hgrows, ?_⟩
  intro clock index handle source e later hget hstep
  obtain ⟨front, hstops, hanswers, hhandles⟩ := stops_of_step hreach hget hstep
  have hshown := hstops.shown_eq hreach hgrows
  have hkept : later.shown.handles =
      (session.run (pieceWrites clock index front)).2.shown.handles :=
    congrArg handles hshown
  exact ⟨front, hstops, hshown, hanswers, hkept.trans hhandles⟩

/-- A file with one byte, written at the time 5, under settings with room for 8. -/
def oneByte : Session :=
  (newFile.run [(fun _ => 5, .handle 0 (.write [1]))]).2

/-- Bytes in pieces, the last of them too many. -/
def spill : Source :=
  [.data [2, 3], .failure ⟨.interrupted, "signal"⟩, .data [4, 5], .data [6, 7, 8, 9]]

theorem shown_and_stops_of_error_spill :
    oneByte.Reachable ∧ oneByte.store.config.GrowsWithin 8 ∧
      let early := oneByte.step (fun _ => 4) (.handle 0 (.write [2, 3]))
      let spilt := oneByte.step (fun k => 5 + k) (.handle 0 (.readFrom spill))
      (early.1 = .error (.tagged .write "f" .mtimeRegression) ∧ early.2.shown = oneByte.shown ∧
        (early.2.store.cell? 2).map Cell.capacity = some 6 ∧
        (oneByte.store.cell? 2).map Cell.capacity = some 2) ∧
      spilt.1 = .error (.tagged .write "f" .tooLarge) ∧
        (spilt.2.store.cell? 2).map Cell.active = some [1, 2, 3, 4, 5] ∧
        ∃ handle front, oneByte.handles[0]? = some handle ∧
          Stops oneByte (fun k => 5 + k) 0 handle spill (.tagged .write "f" .tooLarge) front
            spilt.2 ∧
          spilt.2.shown = (oneByte.run (pieceWrites (fun k => 5 + k) 0 front)).2.shown ∧
          (Source.joined front).length = 4 := by
  have hreach : oneByte.Reachable := newFile_reachable.run _
  obtain ⟨hwrites, htransfers⟩ := shown_and_stops_of_error hreach scant_growsWithin
  have hearly : (oneByte.step (fun _ => 4) (.handle 0 (.write [2, 3]))).1 =
      .error (.tagged .write "f" .mtimeRegression) := by decide +kernel
  have hspilt : (oneByte.step (fun k => 5 + k) (.handle 0 (.readFrom spill))).1 =
      .error (.tagged .write "f" .tooLarge) := by decide +kernel
  have hget : oneByte.handles[0]? = some { Handle.anewOn 2 "f" "." with writeOff := 1 } := by
    decide +kernel
  obtain ⟨front, hstops, hshown, -, hhandles⟩ :=
    htransfers _ 0 _ spill _ _ hget (Prod.ext hspilt rfl)
  have hmoved : (oneByte.step (fun k => 5 + k) (.handle 0 (.readFrom spill))).2.handles.map
      Handle.writeOff = [5] := by decide +kernel
  have hlength : 1 + (Source.joined front).length = 5 := by
    rw [hhandles, List.map_set] at hmoved
    exact (List.cons.inj hmoved).1
  exact ⟨hreach, scant_growsWithin,
    ⟨hearly, hwrites _ 0 _ _ _ (Prod.ext hearly rfl), by decide +kernel, by decide +kernel⟩,
    hspilt, by decide +kernel, _, front, hget, hstops, hshown, by omega⟩

end Session

end VirtualFs.Tree
