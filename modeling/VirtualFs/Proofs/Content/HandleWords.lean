import VirtualFs.Proofs.Content.Words
import VirtualFs.Proofs.Tree.Handles

namespace VirtualFs.Tree

namespace Handle

/-- `Handle.bytesAt` of a buffer with slices. -/
def bytesAt? (handle : Handle) (store : Store) (offset n : Nat) : Option Bytes :=
  match handle.cell? store with
  | some cell => cell.readAt? offset n
  | none => some []

/-- `Handle.read` with its cursor in a word. -/
def read? (handle : Handle) (store : Store) (n : Nat) : Option (Except FsError Bytes × Handle) :=
  match handle.checkReadable with
  | .error e => some (.error (handle.failure .read e), handle)
  | .ok () =>
    (handle.bytesAt? store handle.readOff n).bind fun data =>
      (word? (handle.readOff + data.length)).map fun readOff =>
        (.ok data, { handle with readOff := readOff })

/-- `Handle.readAt` of a buffer with slices. -/
def readAt? (handle : Handle) (store : Store) (n offset : Nat) :
    Option (Except FsError (Bytes × Bool)) :=
  match handle.checkReadable with
  | .error e => some (.error (handle.failure .readAt e))
  | .ok () =>
    (handle.bytesAt? store offset n).map fun data => .ok (data, decide (data.length < n))

/-- `Handle.readToEnd` with its cursor in a word. -/
def readToEnd? (handle : Handle) (store : Store) (out : Bytes) :
    Option (Except FsError Nat × Bytes × Handle) :=
  match handle.checkReadable with
  | .error e => some (.error (handle.failure .read e), out, handle)
  | .ok () =>
    (match handle.cell? store with
      | some cell => cell.readFromOffset? handle.readOff
      | none => some []).bind fun tail =>
        (word? (handle.readOff + tail.length)).map fun readOff =>
          (.ok tail.length, out ++ tail, { handle with readOff := readOff })

/-- `Handle.seek` with its target in a double word. -/
def seek? (handle : Handle) (store : Store) (goal : SeekTo) :
    Option (Except FsError Nat × Handle) :=
  match handle.checkReadable with
  | .error e => some (.error (handle.failure .seek e), handle)
  | .ok () =>
    (wide? (goal.target handle.readOff (handle.size store))).map fun target =>
      if 0 ≤ target ∧ target < cursorLimit then
        (.ok target.toNat, { handle with readOff := target.toNat })
      else
        (.error (handle.failure .seek
          (.invalidInput ("invalid seek position " ++ toString target))), handle)

/-- `Handle.write` with its cursor in a word. -/
def write? (handle : Handle) (store : Store) (now : Time) (data : Bytes) :
    Option (Except FsError Nat × Handle × Store) :=
  match handle.checkWritable with
  | .error e => some (.error (handle.failure .write e), handle, store)
  | .ok () =>
    match handle.cell? store with
    | none => some (.ok 0, handle, store)
    | some cell =>
      (cell.writeAt? store.config now handle.writeOff data).bind fun
        | (.error e, cell) =>
          some (.error (handle.failure .write e), handle,
            store.modifyCell handle.target.inode fun _ => cell)
        | (.ok n, cell) =>
          (word? (handle.writeOff + n)).map fun writeOff =>
            (.ok n, { handle with writeOff := writeOff },
              store.modifyCell handle.target.inode fun _ => cell)

/-- `Handle.copyFrom` with its count in a word. A piece of the source is a slice of the buffer that
it is read into. -/
def copyFrom? (handle : Handle) (store : Store) (clock : Clock) (source : Source) (total : Nat) :
    Option ((Except FsError Nat × Handle × Store) × Source) :=
  match _hread : source.read Source.chunkSize with
  | (.ok [], rest) => some ((.ok total, handle, store), rest)
  | (.ok (b :: bytes), rest) =>
    if (b :: bytes).length ≤ Source.chunkSize then
      (handle.write? store (clock 0) (b :: bytes)).bind fun
        | (.error e, handle, store) => some ((.error e, handle, store), rest)
        | (.ok _, handle, store) =>
          (word? (total + (b :: bytes).length)).bind fun total =>
            copyFrom? handle store (clock.later 1) rest total
    else none
  | (.error e, rest) =>
    if e.kind = .interrupted then copyFrom? handle store (clock.later 1) rest total
    else some ((.error (handle.failure .readFrom (.io e)), handle, store), rest)
termination_by source.weight
decreasing_by
  · have hlt := source.weight_read_lt Source.chunkSize_pos (by simp [_hread])
    simpa [_hread] using hlt
  · have hlt := source.weight_read_lt Source.chunkSize_pos (by simp [_hread])
    simpa [_hread] using hlt

/-- `Handle.readFrom` with its count in a word. -/
def readFrom? (handle : Handle) (store : Store) (clock : Clock) (source : Source) :
    Option ((Except FsError Nat × Handle × Store) × Source) :=
  match handle.checkWritable with
  | .error e => some ((.error (handle.failure .readFrom e), handle, store), source)
  | .ok () => handle.copyFrom? store clock source 0

/-- `Handle.perform` in words. Listing a directory, describing and closing do no sums with
positions. -/
def perform? (handle : Handle) (store : Store) (clock : Clock) :
    HandleCommand → Option (Except FsError Reply × Handle × Store)
  | .read n =>
    (handle.read? store n).map fun (result, handle) => (result.map .data, handle, store)
  | .readAt n offset =>
    (handle.readAt? store n offset).map fun result =>
      (result.map fun (bytes, eof) => .piece bytes eof, handle, store)
  | .readToEnd out =>
    (handle.readToEnd? store out).map fun (result, whole, handle) =>
      (result.map fun n => .appended n whole, handle, store)
  | .seek goal =>
    (handle.seek? store goal).map fun (result, handle) => (result.map .count, handle, store)
  | .write data =>
    (handle.write? store (clock 0) data).map fun (result, handle, store) =>
      (result.map .count, handle, store)
  | .readFrom source =>
    (handle.readFrom? store clock source).map fun ((result, handle, store), _) =>
      (result.map .count, handle, store)
  | .readDir n => some (handle.perform store clock (.readDir n))
  | .stat => some (handle.perform store clock .stat)
  | .close => some (handle.perform store clock .close)

variable {bound limit total : Nat} {store store' : Store} {handle handle' : Handle} {clock : Clock}
  {source rest : Source} {now : Time} {data : Bytes} {n : Nat}

theorem copyFrom?_of_end (hread : source.read Source.chunkSize = (.ok [], rest)) :
    handle.copyFrom? store clock source total = some ((.ok total, handle, store), rest) := by
  rw [copyFrom?]
  split <;> simp_all

theorem copyFrom?_of_data {b : UInt8} {bytes : Bytes}
    (hread : source.read Source.chunkSize = (.ok (b :: bytes), rest)) :
    handle.copyFrom? store clock source total =
      (handle.write? store (clock 0) (b :: bytes)).bind fun
        | (.error e, handle, store) => some ((.error e, handle, store), rest)
        | (.ok _, handle, store) =>
          (word? (total + (b :: bytes).length)).bind fun total =>
            handle.copyFrom? store (clock.later 1) rest total := by
  have hlength := Source.length_read_le hread
  conv_lhs => rw [copyFrom?]
  split
  · next hother => simp [hread] at hother
  · next hother =>
    simp only [hread, Prod.mk.injEq, Except.ok.injEq, List.cons.injEq] at hother
    obtain ⟨⟨rfl, rfl⟩, rfl⟩ := hother
    rw [if_pos hlength]
  · next hother => simp [hread] at hother

theorem copyFrom?_of_failure {e : IoError}
    (hread : source.read Source.chunkSize = (.error e, rest)) :
    handle.copyFrom? store clock source total =
      if e.kind = .interrupted then handle.copyFrom? store (clock.later 1) rest total
      else some ((.error (handle.failure .readFrom (.io e)), handle, store), rest) := by
  conv_lhs => rw [copyFrom?]
  split
  · next hother => simp [hread] at hother
  · next hother => simp [hread] at hother
  · next hother =>
    simp only [hread, Prod.mk.injEq, Except.error.injEq] at hother
    obtain ⟨rfl, rfl⟩ := hother
    rfl

/-- The cursors of a handle are words, and the one for writing is within the bound on the content. -/
structure Placed (limit : Nat) (handle : Handle) : Prop where
  readOff : handle.readOff < wordLimit
  writeOff : handle.writeOff ≤ limit

/-- What is read of a file behind a cursor ends at a position that is a word. -/
theorem add_length_lt_wordLimit (hfit : store.Fit bound) {i : Nat} {cell : Cell}
    (hcell : store.cell? i = some cell) {offset : Nat} (hoffset : offset < wordLimit) :
    offset + (cell.readFromOffset offset).length < wordLimit := by
  have hlength : (cell.readFromOffset offset).length = cell.size - offset := by
    rw [Cell.readFromOffset, List.length_drop, (hfit.sound i cell hcell).length_active]
  have hsize := hfit.lt_wordLimit (hfit.sizes i cell hcell)
  omega

theorem bytesAt?_eq (hfit : store.Fit bound) (handle : Handle) (offset n : Nat) :
    handle.bytesAt? store offset n = some (handle.bytesAt store offset n) := by
  unfold bytesAt? bytesAt
  cases hcell : handle.cell? store with
  | none => rfl
  | some cell => exact Cell.readAt?_eq (hfit.sound _ cell hcell) offset n

theorem add_length_bytesAt_lt (hfit : store.Fit bound) (handle : Handle) {offset : Nat}
    (hoffset : offset < wordLimit) (n : Nat) :
    offset + (handle.bytesAt store offset n).length < wordLimit := by
  unfold bytesAt
  split
  · next cell hcell =>
    have hend := add_length_lt_wordLimit hfit hcell hoffset
    have hpiece : (cell.readAt offset n).length ≤ (cell.readFromOffset offset).length :=
      List.length_take_le' _ _
    omega
  · exact hoffset

theorem read?_eq (hfit : store.Fit bound) (hplaced : handle.Placed limit) (n : Nat) :
    handle.read? store n = some (handle.read store n) ∧ (handle.read store n).2.Placed limit := by
  have hend := add_length_bytesAt_lt hfit handle hplaced.readOff n
  unfold read? read
  cases handle.checkReadable with
  | error e => exact ⟨rfl, hplaced⟩
  | ok u =>
    rw [bytesAt?_eq hfit, Option.bind_some, word?_of_lt hend]
    exact ⟨rfl, hend, hplaced.writeOff⟩

theorem readAt?_eq (hfit : store.Fit bound) (handle : Handle) (n offset : Nat) :
    handle.readAt? store n offset = some (handle.readAt store n offset) := by
  unfold readAt? readAt
  cases handle.checkReadable with
  | error e => rfl
  | ok u =>
    rw [bytesAt?_eq hfit]
    rfl

theorem readToEnd?_eq (hfit : store.Fit bound) (hplaced : handle.Placed limit) (out : Bytes) :
    handle.readToEnd? store out = some (handle.readToEnd store out) ∧
      (handle.readToEnd store out).2.2.Placed limit := by
  unfold readToEnd? readToEnd
  cases handle.checkReadable with
  | error e => exact ⟨rfl, hplaced⟩
  | ok u =>
    cases hcell : handle.cell? store with
    | none =>
      dsimp only
      rw [Option.bind_some, word?_of_lt (n := handle.readOff + _) hplaced.readOff]
      exact ⟨rfl, hplaced⟩
    | some cell =>
      have hend := add_length_lt_wordLimit hfit hcell hplaced.readOff
      dsimp only
      rw [Cell.readFromOffset?_eq (hfit.sound _ cell hcell), Option.bind_some, word?_of_lt hend]
      exact ⟨rfl, hend, hplaced.writeOff⟩

theorem size_lt_wordLimit (hfit : store.Fit bound) (handle : Handle) :
    handle.size store < wordLimit := by
  unfold size
  split
  · next cell hcell => exact hfit.lt_wordLimit (hfit.sizes _ cell hcell)
  · exact wordLimit_pos

theorem seek?_eq (hfit : store.Fit bound) (hplaced : handle.Placed limit) {goal : SeekTo}
    (hgoal : goal.InWords) :
    handle.seek? store goal = some (handle.seek store goal) ∧
      (handle.seek store goal).2.Placed limit := by
  unfold seek? seek
  cases handle.checkReadable with
  | error e => exact ⟨rfl, hplaced⟩
  | ok u =>
    dsimp only
    rw [SeekTo.wide?_target hgoal hplaced.readOff (handle.size_lt_wordLimit hfit), Option.map_some]
    split
    · next htarget =>
      refine ⟨rfl, ?_, hplaced.writeOff⟩
      simp only [cursorLimit, wordLimit] at htarget ⊢
      omega
    · exact ⟨rfl, hplaced⟩

theorem length_le_longestBuffer {source rest : Source} {bytes : Bytes}
    (hread : source.read Source.chunkSize = (.ok bytes, rest)) : bytes.length ≤ longestBuffer :=
  Nat.le_trans (Source.length_read_le hread) (by decide)

theorem exists_cell_of_checkWritable (hstands : handle.target.Stands store)
    (hcheck : handle.checkWritable = .ok ()) : ∃ cell, handle.cell? store = some cell := by
  cases htarget : handle.target with
  | dir i =>
    unfold checkWritable checkTransfer at hcheck
    rw [htarget] at hcheck
    split at hcheck <;> cases hcheck
  | file i =>
    rw [htarget] at hstands
    rw [cell?, htarget]
    exact Option.isSome_iff_exists.mp hstands

theorem write?_eq (hfit : store.Fit bound) (hplaced : handle.Placed store.config.maxContentLen)
    (hdata : data.length ≤ longestBuffer) (now : Time) :
    handle.write? store now data = some (handle.write store now data) ∧
      (handle.write store now data).2.1.Placed store.config.maxContentLen := by
  unfold write? write
  cases handle.checkWritable with
  | error e => exact ⟨rfl, hplaced⟩
  | ok u =>
    unfold put
    dsimp only
    cases hcell : handle.cell? store with
    | none => exact ⟨rfl, hplaced⟩
    | some cell =>
      dsimp only
      rw [Cell.writeAt?_eq (hfit.sound _ cell hcell) hfit.grows hfit.valid.2.2.1
        (hfit.sizes _ cell hcell) hplaced.writeOff hdata, Option.bind_some]
      rcases hwrite : cell.writeAt store.config now handle.writeOff data with ⟨e | n, written⟩
      · exact ⟨rfl, hplaced⟩
      · have hend := Cell.add_le_of_writeAt hplaced.writeOff hwrite
        dsimp only
        rw [word?_of_lt (hfit.lt_wordLimit hend)]
        exact ⟨rfl, hplaced.readOff, hend⟩

/-- A write that succeeds moves the cursor by what it was given. -/
theorem writeOff_of_write (hstands : handle.target.Stands store)
    (hwrite : handle.write store now data = (.ok n, handle', store')) :
    handle'.writeOff = handle.writeOff + data.length := by
  unfold write at hwrite
  split at hwrite
  · cases hwrite
  next hcheck =>
  obtain ⟨cell, hcell⟩ := exists_cell_of_checkWritable hstands hcheck
  rcases hput : cell.writeAt store.config now handle.writeOff data with ⟨e | count, written⟩
  · simp only [put, hcell, hput] at hwrite
    cases hwrite
  · simp only [put, hcell, hput] at hwrite
    obtain ⟨rfl, -⟩ := Cell.writeAt_eq_ok hput
    obtain ⟨-, hhandle⟩ := Prod.mk.inj hwrite
    rw [← (Prod.mk.inj hhandle).1]

/-- What a transfer has counted is no more than what it has written, so the count is a word too. The
settings and the node of the handle stay from piece to piece. -/
theorem copyFrom?_eq (hfit : store.Fit bound) (hstands : handle.target.Stands store)
    (hplaced : handle.Placed store.config.maxContentLen) (htotal : total ≤ handle.writeOff)
    (clock : Clock) (source : Source) :
    handle.copyFrom? store clock source total = some (handle.copyFrom store clock source total) ∧
      (handle.copyFrom store clock source total).1.2.1.Placed store.config.maxContentLen := by
  fun_induction copyFrom handle store clock source total with
  | case1 handle store clock source total rest hread =>
    exact ⟨copyFrom?_of_end hread, hplaced⟩
  | case2 handle store clock source total b bytes rest hread e handle' store' hwrite =>
    obtain ⟨heq, hafter⟩ := write?_eq hfit hplaced (length_le_longestBuffer hread) (clock 0)
    rw [hwrite] at heq hafter
    rw [copyFrom?_of_data hread, heq]
    exact ⟨rfl, hafter⟩
  | case3 handle store clock source total b bytes rest hread n handle' store' hwrite ih =>
    obtain ⟨heq, hafter⟩ := write?_eq hfit hplaced (length_le_longestBuffer hread) (clock 0)
    have hchanges : Store.Changes (fun _ => True) store _ :=
      handle.write_changes store (clock 0) (b :: bytes)
    have hmoved := handle.movedOn_write store (clock 0) (b :: bytes)
    have hoff := writeOff_of_write hstands hwrite
    rw [hwrite] at heq hafter hchanges hmoved
    have hstands' : handle'.target.Stands store' := by
      rw [hmoved.target_eq]
      exact hstands.of_changes hchanges
    have hcounted : total + (b :: bytes).length ≤ handle'.writeOff := by omega
    have hword := hfit.lt_wordLimit (Nat.le_trans hcounted hafter.writeOff)
    rw [← hchanges.config_eq] at hafter ⊢
    rw [copyFrom?_of_data hread, heq, Option.bind_some]
    dsimp only
    rw [word?_of_lt hword, Option.bind_some]
    exact ih (hchanges.fit hfit) hstands' hafter hcounted
  | case4 handle store clock source total e rest hread hkind ih =>
    rw [copyFrom?_of_failure hread, if_pos hkind]
    exact ih hfit hstands hplaced htotal
  | case5 handle store clock source total e rest hread hkind =>
    rw [copyFrom?_of_failure hread, if_neg hkind]
    exact ⟨rfl, hplaced⟩

theorem readFrom?_eq (hfit : store.Fit bound) (hstands : handle.target.Stands store)
    (hplaced : handle.Placed store.config.maxContentLen) (clock : Clock) (source : Source) :
    handle.readFrom? store clock source = some (handle.readFrom store clock source) ∧
      (handle.readFrom store clock source).1.2.1.Placed store.config.maxContentLen := by
  unfold readFrom? readFrom
  cases handle.checkWritable with
  | error e => exact ⟨rfl, hplaced⟩
  | ok u => exact copyFrom?_eq hfit hstands hplaced (Nat.zero_le _) clock source

end Handle

/-- The positions and the lengths that the operation is given are in words, as far as it does sums
with them. -/
def HandleCommand.InWords : HandleCommand → Prop
  | seek goal => goal.InWords
  | write data => data.length ≤ longestBuffer
  | _ => True

/-- No operation of a handle leaves the words, and it leaves the cursors where they may be. -/
theorem Handle.perform?_eq {bound : Nat} {store : Store} {handle : Handle} {command : HandleCommand}
    (hfit : store.Fit bound) (hstands : handle.target.Stands store)
    (hplaced : handle.Placed store.config.maxContentLen) (hwords : command.InWords)
    (clock : Clock) :
    handle.perform? store clock command = some (handle.perform store clock command) ∧
      (handle.perform store clock command).2.1.Placed store.config.maxContentLen := by
  cases command with
  | read n =>
    obtain ⟨heq, hafter⟩ := read?_eq hfit hplaced n
    exact ⟨by rw [perform?, heq]; rfl, hafter⟩
  | readAt n offset => exact ⟨by rw [perform?, readAt?_eq hfit]; rfl, hplaced⟩
  | readToEnd out =>
    obtain ⟨heq, hafter⟩ := readToEnd?_eq hfit hplaced out
    exact ⟨by rw [perform?, heq]; rfl, hafter⟩
  | seek goal =>
    obtain ⟨heq, hafter⟩ := seek?_eq hfit hplaced hwords
    exact ⟨by rw [perform?, heq]; rfl, hafter⟩
  | write data =>
    obtain ⟨heq, hafter⟩ := write?_eq hfit hplaced hwords (clock 0)
    exact ⟨by rw [perform?, heq]; rfl, hafter⟩
  | readFrom source =>
    obtain ⟨heq, hafter⟩ := readFrom?_eq hfit hstands hplaced clock source
    exact ⟨by rw [perform?, heq]; rfl, hafter⟩
  | readDir n =>
    refine ⟨rfl, ?_⟩
    simp only [perform, readDir]
    split
    · exact hplaced
    split
    · exact hplaced
    split
    · exact hplaced
    · exact ⟨hplaced.readOff, hplaced.writeOff⟩
  | stat => exact ⟨rfl, hplaced⟩
  | close =>
    refine ⟨rfl, ?_⟩
    simp only [perform, close]
    split
    · exact hplaced
    · exact ⟨hplaced.readOff, hplaced.writeOff⟩

end VirtualFs.Tree
