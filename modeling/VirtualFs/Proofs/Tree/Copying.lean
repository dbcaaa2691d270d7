import VirtualFs.Proofs.Content.Deliveries
import VirtualFs.Proofs.Tree.HandleFrame

namespace VirtualFs

theorem Clock.later_zero (clock : Clock) : clock.later 0 = clock := by
  funext k
  exact congrArg clock (Nat.zero_add k)

theorem Clock.later_later (clock : Clock) (m n : Nat) :
    (clock.later m).later n = clock.later (m + n) := by
  funext k
  exact congrArg clock (Nat.add_assoc m n k).symm

namespace Tree.Handle

variable {handle later : Handle} {store store' : Store} {clock : Clock} {now : Time} {data : Bytes}
  {answer : Except FsError Nat} {pieces : List Source.Piece}

/-- A write takes all of its bytes, and the write cursor moves behind them, or it fails and no
cursor moves. -/
theorem of_write (stands : (handle.cell? store).isSome)
    (hwrite : handle.write store now data = (answer, later, store')) :
    (answer = .ok data.length ∧
      later = { handle with writeOff := handle.writeOff + data.length }) ∨
    (∃ e, answer = .error e) ∧ later = handle := by
  obtain ⟨cell, hcell⟩ := Option.isSome_iff_exists.mp stands
  unfold write at hwrite
  split at hwrite
  · cases hwrite
    exact .inr ⟨⟨_, rfl⟩, rfl⟩
  unfold put at hwrite
  simp only [hcell] at hwrite
  split at hwrite
  · cases hwrite
    exact .inr ⟨⟨_, rfl⟩, rfl⟩
  · next n written htaken =>
    obtain rfl := (Cell.writeAt_eq_ok htaken).1
    cases hwrite
    exact .inl ⟨rfl, rfl⟩

/-- The handle stays on its file. -/
theorem isSome_cell?_of_write (stands : (handle.cell? store).isSome)
    (hwrite : handle.write store now data = (answer, later, store')) :
    (later.cell? store').isSome := by
  obtain ⟨change, hchange⟩ := handle.store_perform store (fun _ => now) (.write data)
  have hmoved := handle.movedOn_write store now data
  have hstore : (handle.write store now data).2.2 =
      store.modifyCell handle.target.inode change := hchange
  rw [hwrite] at hmoved hstore
  have hsame : store' = store.modifyCell handle.target.inode change := hstore
  rw [cell?, hmoved.target_eq, hsame, Store.cell?_modifyCell, if_pos rfl, Option.isSome_map]
  exact stands

/-- Writes the pieces one after the other, up to the first write that fails. -/
def writePieces (handle : Handle) (store : Store) (clock : Clock) :
    List Source.Piece → Except FsError Unit × Handle × Store
  | [] => (.ok (), handle, store)
  | piece :: pieces =>
    match handle.write store (clock piece.stage) piece.bytes with
    | (.error e, handle, store) => (.error e, handle, store)
    | (.ok _, handle, store) => handle.writePieces store clock pieces

/-- What a transfer answers that has written all it got, `total` bytes. -/
def copied (handle : Handle) (total : Nat) : Option IoError → Except FsError Nat
  | none => .ok total
  | some e => .error (handle.failure .readFrom (.io e))

/-- A transfer writes the pieces that it gets from the source, and then answers by the way in which
the source ended. -/
theorem copyFrom_eq (handle : Handle) (store : Store) (clock : Clock) (source : Source)
    (total stage : Nat) :
    (handle.copyFrom store (clock.later stage) source total).1 =
      match handle.writePieces store clock (source.pieces stage) with
      | (.error e, handle, store) => (.error e, handle, store)
      | (.ok (), handle, store) =>
        (handle.copied (total + source.bytes.length) source.failure?, handle, store) := by
  induction source using Source.reads_induction generalizing handle store total stage with
  | ended source rest hread =>
    obtain ⟨hbytes, hfailure⟩ := Source.of_read_end Source.chunkSize_pos hread
    rw [copyFrom_of_end hread, Source.pieces_of_end hread, hbytes, hfailure]
    rfl
  | piece source b data rest hread ih =>
    obtain ⟨hbytes, hfailure⟩ := Source.of_read_data hread
    rw [copyFrom_of_data hread, Source.pieces_of_data hread, hbytes, hfailure, List.length_append,
      ← Nat.add_assoc, Clock.later_later]
    have hnow : clock.later stage 0 = clock stage := rfl
    rw [writePieces, hnow]
    rcases handle.write store (clock stage) (b :: data) with ⟨e | n, moved, written⟩
    · rfl
    · exact ih moved written (total + (b :: data).length) (stage + 1)
  | interrupted source e rest hread hkind ih =>
    obtain ⟨hbytes, hfailure⟩ := Source.of_read_failure hread
    rw [copyFrom_of_failure hread, Source.pieces_of_failure hread, hbytes, hfailure, if_pos hkind,
      if_pos hkind, if_pos hkind, if_pos hkind, Clock.later_later]
    exact ih handle store total (stage + 1)
  | failed source e rest hread hkind =>
    obtain ⟨hbytes, hfailure⟩ := Source.of_read_failure hread
    rw [copyFrom_of_failure hread, Source.pieces_of_failure hread, hbytes, hfailure, if_neg hkind,
      if_neg hkind, if_neg hkind, if_neg hkind]
    rfl

/-- A transfer that is let in. -/
theorem readFrom_of_checkWritable (hwritable : handle.checkWritable = .ok ()) (store : Store)
    (clock : Clock) (source : Source) :
    (handle.readFrom store clock source).1 =
      match handle.writePieces store clock (source.pieces 0) with
      | (.error e, handle, store) => (.error e, handle, store)
      | (.ok (), handle, store) =>
        (handle.copied source.bytes.length source.failure?, handle, store) := by
  have hcopy := copyFrom_eq handle store clock source 0 0
  rw [Clock.later_zero, Nat.zero_add] at hcopy
  simp only [readFrom, hwritable]
  exact hcopy

/-- The write cursor moves behind all pieces. -/
theorem of_writePieces_ok (stands : (handle.cell? store).isSome)
    (hpieces : handle.writePieces store clock pieces = (.ok (), later, store')) :
    later = { handle with writeOff := handle.writeOff + (Source.joined pieces).length } := by
  induction pieces generalizing handle store with
  | nil =>
    cases hpieces
    rfl
  | cons piece rest ih =>
    rcases hwrite : handle.write store (clock piece.stage) piece.bytes with ⟨e | n, moved, written⟩
    · simp only [writePieces, hwrite] at hpieces
      cases hpieces
    · simp only [writePieces, hwrite] at hpieces
      obtain ⟨-, hmoved⟩ | ⟨⟨e, he⟩, -⟩ := of_write stands hwrite
      · rw [ih (isSome_cell?_of_write stands hwrite) hpieces, hmoved, Source.joined_cons,
          List.length_append, Nat.add_assoc]
      · cases he

/-- Where the writing of pieces fails, one of them was not written, and those before it were. -/
theorem of_writePieces_error {e : FsError}
    (hpieces : handle.writePieces store clock pieces = (.error e, later, store')) :
    ∃ front piece back moved written, pieces = front ++ piece :: back ∧
      handle.writePieces store clock front = (.ok (), moved, written) ∧
      moved.write written (clock piece.stage) piece.bytes = (.error e, later, store') := by
  induction pieces generalizing handle store with
  | nil => cases hpieces
  | cons piece rest ih =>
    rcases hwrite : handle.write store (clock piece.stage) piece.bytes with ⟨e' | n, moved, written⟩
    · simp only [writePieces, hwrite] at hpieces
      cases hpieces
      exact ⟨[], piece, rest, handle, store, rfl, rfl, hwrite⟩
    · simp only [writePieces, hwrite] at hpieces
      obtain ⟨front, next, back, moved', written', rfl, hfront, hnext⟩ := ih hpieces
      refine ⟨piece :: front, next, back, moved', written', rfl, ?_, hnext⟩
      simp only [writePieces, hwrite, hfront]

end Tree.Handle

end VirtualFs
