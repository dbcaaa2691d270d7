import VirtualFs.Proofs.Content.Transfers
import VirtualFs.Proofs.Tree.Copying

namespace VirtualFs.Tree.Handle

variable {handle later final : Handle} {store store' : Store} {now : Time} {data : Bytes} {n : Nat}
  {answer : Except FsError Nat}

/-- The content from the read cursor on. -/
def unread (handle : Handle) (store : Store) : Bytes :=
  match handle.cell? store with
  | some cell => cell.readFromOffset handle.readOff
  | none => []

theorem readToEnd_of_checkReadable (hreadable : handle.checkReadable = .ok ()) (store : Store)
    (out : Bytes) :
    handle.readToEnd store out = (.ok (handle.unread store).length, out ++ handle.unread store,
      { handle with readOff := handle.readOff + (handle.unread store).length }) := by
  simp only [readToEnd, hreadable]
  rfl

/-- A read takes the front of what is unread, and the rest stays. -/
theorem of_read_ok (hread : handle.read store n = (.ok data, later)) :
    handle.checkReadable = .ok () ∧ data = (handle.unread store).take n ∧
      later = { handle with readOff := handle.readOff + data.length } ∧
      later.unread store = (handle.unread store).drop data.length := by
  have hbytes : handle.bytesAt store handle.readOff n = (handle.unread store).take n := by
    unfold bytesAt unread
    cases handle.cell? store with
    | none => exact List.take_nil.symm
    | some cell => rfl
  unfold read at hread
  split at hread
  · cases hread
  · next hreadable =>
    obtain ⟨hdata, rfl⟩ := Prod.mk.inj hread
    obtain rfl := Except.ok.inj hdata
    refine ⟨hreadable, hbytes, rfl, ?_⟩
    generalize (handle.bytesAt store handle.readOff n).length = count
    unfold unread
    have hcell : ({ handle with readOff := handle.readOff + count } : Handle).cell? store =
        handle.cell? store := rfl
    rw [hcell]
    cases handle.cell? store with
    | none => exact List.drop_nil.symm
    | some cell => exact List.drop_drop.symm

theorem of_read_error {e : FsError} (hread : handle.read store n = (.error e, later)) :
    later = handle ∧
      ∃ cause, handle.checkReadable = .error cause ∧ e = handle.failure .read cause := by
  unfold read at hread
  split at hread
  · next cause hcheck =>
    obtain ⟨herror, rfl⟩ := Prod.mk.inj hread
    exact ⟨rfl, cause, hcheck, (Except.error.inj herror).symm⟩
  · cases hread

/-- The handles of a tree as handles to read from. They are at their end when nothing is unread. -/
def reader (store : Store) : Readable Handle where
  read := fun handle n => handle.read store n
  left := fun handle => (handle.unread store).length
  left_lt := by
    intro handle n data later hread hdata
    obtain ⟨-, htaken, -, hrest⟩ := of_read_ok hread
    have hpos := List.length_pos_iff.mpr hdata
    have hle : data.length ≤ (handle.unread store).length := by
      rw [htaken]
      exact List.length_take_le' n _
    rw [hrest, List.length_drop]
    omega

/-- The reads bring everything that is unread, or none is allowed. -/
theorem of_readsOut {pieces : List Bytes} {failure? : Option FsError}
    (hreads : ReadsOut (reader store).read handle pieces failure? final) :
    (handle.checkReadable = .ok () ∧ failure? = none ∧ pieces.flatten = handle.unread store ∧
      final = { handle with readOff := handle.readOff + (handle.unread store).length }) ∨
    ∃ cause, handle.checkReadable = .error cause ∧ failure? = some (handle.failure .read cause) ∧
      pieces = [] ∧ final = handle := by
  induction hreads with
  | ended hread =>
    obtain ⟨hreadable, htaken, rfl, -⟩ := of_read_ok hread
    have hnone : unread _ store = [] :=
      (List.take_eq_nil_iff.mp htaken.symm).resolve_left Source.chunkSize_pos.ne'
    exact .inl ⟨hreadable, rfl, hnone.symm, by rw [hnone]⟩
  | failed hread =>
    obtain ⟨rfl, cause, hcheck, rfl⟩ := of_read_error hread
    exact .inr ⟨cause, hcheck, rfl, rfl, rfl⟩
  | @piece handle moved final b data pieces failure? hread hrest ih =>
    obtain ⟨hreadable, htaken, rfl, hunread⟩ := of_read_ok hread
    obtain ⟨-, hfailure, hpieces, rfl⟩ | ⟨cause, hcheck, -⟩ := ih
    · have hwhole : b :: data ++ (handle.unread store).drop (b :: data).length =
          handle.unread store := by
        have hfront : b :: data <+: handle.unread store := by
          rw [htaken]
          exact List.take_prefix _ _
        obtain ⟨left, hleft⟩ := hfront
        rw [← hleft, List.drop_left]
      have hlength := congrArg List.length hwhole
      rw [List.length_append] at hlength
      refine .inl ⟨hreadable, hfailure, ?_, ?_⟩
      · rw [List.flatten_cons, hpieces, hunread, hwhole]
      · rw [hunread, ← hlength, ← Nat.add_assoc]
    · have hsame : handle.checkReadable = .error cause := hcheck
      rw [hreadable] at hsame
      cases hsame

/-- Reading to the end at once is reading to the end by reads in the size of a chunk. -/
theorem readToEnd_reader (handle : Handle) (store : Store) (out : Bytes) :
    (reader store).readToEnd handle out 0 = handle.readToEnd store out := by
  obtain ⟨pieces, failure?, final, hreads⟩ := (reader store).exists_readsOut handle
  rw [Readable.readToEnd_of_readsOut hreads, Nat.zero_add]
  obtain ⟨hreadable, rfl, hpieces, rfl⟩ | ⟨cause, hcheck, rfl, rfl, rfl⟩ := of_readsOut hreads
  · rw [readToEnd_of_checkReadable hreadable, hpieces]
    rfl
  · simp only [readToEnd, hcheck, List.flatten_nil, List.append_nil]
    rfl

/-- A write that succeeds takes all. -/
theorem count_of_write (stands : (handle.cell? store).isSome)
    (hwrite : handle.write store now data = (.ok n, later, store')) : n = data.length := by
  obtain ⟨hcount, -⟩ | ⟨⟨e, he⟩, -⟩ := of_write stands hwrite
  · exact Except.ok.inj hcount
  · cases he

/-- A handle on a file, with the tree and the number of writes that were made. -/
structure Writer where
  handle : Handle
  store : Store
  writes : Nat
  stands : (handle.cell? store).isSome

/-- The handles on files as handles to write to. The `k`-th write is made at `times k`. -/
def writer (times : Clock) : Writable Writer where
  write := fun s data hdata =>
    match hwrite : s.handle.write s.store (times s.writes) data with
    | (.error e, handle, store) =>
      (.error e, ⟨handle, store, s.writes + 1, isSome_cell?_of_write s.stands hwrite⟩)
    | (.ok n, handle, store) =>
      have hcount := count_of_write s.stands hwrite
      (.ok ⟨n, by rw [hcount]; exact List.length_pos_iff.mpr hdata, hcount.le⟩,
        ⟨handle, store, s.writes + 1, isSome_cell?_of_write s.stands hwrite⟩)
  stat := fun s => s.handle.stat s.store

variable {times clock : Clock} {pieces : List Source.Piece}

/-- All of some bytes are written by one write. -/
theorem writeAll_writer (s : Writer) (hdata : data ≠ [])
    (hwrite : s.handle.write s.store (times s.writes) data = (answer, later, store')) :
    (writer times).writeAll s data =
      (answer.map fun _ => (),
        ⟨later, store', s.writes + 1, isSome_cell?_of_write s.stands hwrite⟩) := by
  rw [Writable.writeAll_of_ne_nil _ _ _ hdata]
  cases answer with
  | error e =>
    have hfailed : (writer times).write s data hdata =
        (.error e, ⟨later, store', s.writes + 1, isSome_cell?_of_write s.stands hwrite⟩) := by
      unfold writer
      dsimp only
      split
      · next hother =>
        cases hwrite.symm.trans hother
        rfl
      · next hother => cases hwrite.symm.trans hother
    rw [hfailed]
    rfl
  | ok n =>
    have hcount := count_of_write s.stands hwrite
    have hdone : (writer times).write s data hdata =
        (.ok ⟨n, hcount ▸ List.length_pos_iff.mpr hdata, hcount.le⟩,
          ⟨later, store', s.writes + 1, isSome_cell?_of_write s.stands hwrite⟩) := by
      unfold writer
      dsimp only
      split
      · next hother => cases hwrite.symm.trans hother
      · next hother =>
        cases hwrite.symm.trans hother
        rfl
    rw [hdone]
    dsimp only
    rw [List.drop_eq_nil_of_le hcount.ge, Writable.writeAll, dif_pos rfl]
    rfl

/-- Pieces that come at the times of the writes are written alike. -/
theorem writePieces_writer (s : Writer) (hpieces : ∀ piece ∈ pieces, piece.bytes ≠ [])
    (htimes : ∀ k piece, pieces[k]? = some piece → times (s.writes + k) = clock piece.stage) :
    ∃ s', (writer times).writePieces s pieces =
        ((s.handle.writePieces s.store clock pieces).1, s') ∧
      s'.handle = (s.handle.writePieces s.store clock pieces).2.1 ∧
      s'.store = (s.handle.writePieces s.store clock pieces).2.2 := by
  induction pieces generalizing s with
  | nil => exact ⟨s, rfl, rfl, rfl⟩
  | cons piece rest ih =>
    have hnow : times s.writes = clock piece.stage := htimes 0 piece rfl
    rcases hwrite : s.handle.write s.store (clock piece.stage) piece.bytes with
      ⟨answer, later, store'⟩
    have hall := writeAll_writer s (hpieces piece List.mem_cons_self) (hnow ▸ hwrite)
    simp only [Writable.writePieces, writePieces, hall, hwrite]
    cases answer with
    | error e => exact ⟨_, rfl, rfl, rfl⟩
    | ok n =>
      refine ih _ (fun p hp => hpieces p (List.mem_cons_of_mem _ hp)) fun k p hp => ?_
      rw [Nat.add_assoc, Nat.add_comm 1]
      exact htimes (k + 1) p hp

/-- The handle is open for writing, on a file. -/
theorem checkWritable_of_open (hopen : handle.closed = false) (hwritable : handle.flags.writable)
    (htarget : handle.target = .file inode) : handle.checkWritable = .ok () := by
  simp [checkWritable, checkTransfer, hopen, hwritable, htarget, Target.isDir]

/-- Writing from a source at once is writing it piece by piece, at the same times. The errors of a
failing source differ in the path that they are tagged with, and in nothing else. -/
theorem readFrom_writer (hchecked : handle.checkWritable = .ok ())
    (stands : (handle.cell? store).isSome) (source : Source)
    (htimes : ∀ k piece, (source.pieces 0)[k]? = some piece → times k = clock piece.stage) :
    let single := (writer times).readFrom ⟨handle, store, 0, stands⟩ source 0
    let bulk := (handle.readFrom store clock source).1
    bulk.1.mapError FsError.rootCause = single.1.mapError FsError.rootCause ∧
      bulk.2.1 = single.2.handle ∧ bulk.2.2 = single.2.store := by
  have htimes' : ∀ k piece, (source.pieces 0)[k]? = some piece →
      times (0 + k) = clock piece.stage :=
    fun k piece hpiece => (congrArg times (Nat.zero_add k)).trans (htimes k piece hpiece)
  obtain ⟨s', hpieces, hhandle, hstore⟩ := writePieces_writer ⟨handle, store, 0, stands⟩
    (fun _ => Source.bytes_ne_nil_of_mem_pieces) htimes'
  dsimp only at hpieces hhandle hstore ⊢
  rw [(writer times).readFrom_eq _ source 0 0, hpieces, Nat.zero_add,
    readFrom_of_checkWritable hchecked]
  rcases hbulk : handle.writePieces store clock (source.pieces 0) with ⟨e | u, later, store'⟩
  · rw [hbulk] at hhandle hstore
    exact ⟨rfl, hhandle.symm, hstore.symm⟩
  · rw [hbulk] at hhandle hstore
    refine ⟨?_, hhandle.symm, hstore.symm⟩
    cases source.failure? <;> rfl

/-- What a handle does in bulk by itself is what reads in the size of a chunk, and writes of
whatever part is taken, come to one after the other: reading to the end, whatever state the handle
is in, and writing from any source through a handle that is open for writing on a file. -/
theorem readToEnd_and_readFrom_eq :
    (∀ (handle : Handle) (store : Store) (out : Bytes),
      handle.readToEnd store out = (reader store).readToEnd handle out 0) ∧
    ∀ (handle : Handle) (store : Store) (inode : Nat) (stands : (handle.cell? store).isSome),
      handle.closed = false → handle.flags.writable → handle.target = .file inode →
      ∀ (source : Source) (clock times : Clock),
        -- Each write is made at the same time.
        (∀ k piece, (source.pieces 0)[k]? = some piece → times k = clock piece.stage) →
        let single := (writer times).readFrom ⟨handle, store, 0, stands⟩ source 0
        let bulk := (handle.readFrom store clock source).1
        bulk.1.mapError FsError.kind = single.1.mapError FsError.kind ∧
          bulk.2.1 = single.2.handle ∧ bulk.2.2 = single.2.store := by
  refine ⟨fun handle store out => (readToEnd_reader handle store out).symm, ?_⟩
  intro handle store inode stands hopen hwritable htarget source clock times htimes
  obtain ⟨hcause, hhandle, hstore⟩ :=
    readFrom_writer (checkWritable_of_open hopen hwritable htarget) stands source htimes
  refine ⟨?_, hhandle, hstore⟩
  have hkinds : ∀ result : Except FsError Nat,
      result.mapError FsError.kind = (result.mapError FsError.rootCause).mapError FsError.kind := by
    rintro (e | n)
    · exact congrArg Except.error e.kind_rootCause.symm
    · rfl
  rw [hkinds, hcause, ← hkinds]

/-- Bytes in two pieces, and then a failure. The clock moves on between them. -/
def broken : Source :=
  [.data [1, 2, 3], .failure ⟨.interrupted, "signal"⟩, .data [4, 5], .failure ⟨.timedOut, "late"⟩]

theorem readToEnd_and_readFrom_eq_broken :
    ∃ handle, Session.twoFiles.handles[0]? = some handle ∧
      ∃ stands : (handle.cell? Session.twoFiles.store).isSome,
        handle.closed = false ∧ handle.flags.writable ∧ handle.target = .file 2 ∧
        let single := (writer fun k => 9 + 2 * k).readFrom
          ⟨handle, Session.twoFiles.store, 0, stands⟩ broken 0
        let bulk := (handle.readFrom Session.twoFiles.store (fun k => 9 + k) broken).1
        bulk.1.mapError FsError.kind = .error .io ∧
          bulk.1.mapError FsError.kind = single.1.mapError FsError.kind ∧
          bulk.2.1 = single.2.handle ∧ bulk.2.2 = single.2.store ∧
          bulk.2.1.unread bulk.2.2 = [1, 2, 3, 4, 5] ∧
          (reader bulk.2.2).readToEnd bulk.2.1 [0] 0 = bulk.2.1.readToEnd bulk.2.2 [0] := by
  have hfirst : Session.twoFiles.handles[0]? = some (.anewOn 2 "a" ".") := by decide +kernel
  have stands : ((anewOn 2 "a" ".").cell? Session.twoFiles.store).isSome := by decide +kernel
  have htimes : ∀ (k : Nat) (piece : Source.Piece), (broken.pieces 0)[k]? = some piece →
      (9 + 2 * k : Time) = 9 + piece.stage := by
    have hpieces : broken.pieces 0 = [⟨0, [1, 2, 3]⟩, ⟨2, [4, 5]⟩] := by decide +kernel
    rw [hpieces]
    rintro (_ | _ | k) piece hpiece
    · cases hpiece
      rfl
    · cases hpiece
      rfl
    · cases hpiece
  obtain ⟨hreads, hwrites⟩ := readToEnd_and_readFrom_eq
  refine ⟨_, hfirst, stands, rfl, by decide, rfl, by decide +kernel, ?_⟩
  obtain ⟨hkind, hhandle, hstore⟩ := hwrites _ _ 2 stands rfl (by decide) rfl broken
    (fun k => 9 + k) (fun k => 9 + 2 * k) htimes
  exact ⟨hkind, hhandle, hstore, by decide +kernel, (hreads _ _ _).symm⟩

end VirtualFs.Tree.Handle
