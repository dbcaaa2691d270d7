import VirtualFs.Proofs.Path.Segments
import VirtualFs.Tree.Session

namespace VirtualFs.Plain

/-- The bytes with `data` at `offset`: filled up with zeros to there if they are shorter, and then
overwritten or extended. -/
def overlay (bytes : Bytes) (offset : Nat) (data : Bytes) : Bytes :=
  (bytes ++ List.replicate (offset - bytes.length) 0).take offset ++ data ++
    bytes.drop (offset + data.length)

/-- Every byte of an overlay: those before `offset` are as they were, or zero where there were none,
those of `data` follow, and behind them nothing has changed. -/
theorem getElem?_overlay (bytes data : Bytes) (offset i : Nat) :
    (overlay bytes offset data)[i]? =
      if i < offset then some (bytes[i]?.getD 0)
      else if i < offset + data.length then data[i - offset]?
      else bytes[i]? := by
  have hfront : ((bytes ++ List.replicate (offset - bytes.length) 0).take offset).length =
      offset := by
    simp only [List.length_take, List.length_append, List.length_replicate]
    omega
  unfold overlay
  rw [List.append_assoc, List.getElem?_append, hfront]
  split
  · next hlt =>
    rw [List.getElem?_take_of_lt hlt, List.getElem?_append]
    split
    · next hin => simp [hin]
    · next hout =>
      rw [List.getElem?_replicate_of_lt (by omega), List.getElem?_eq_none_iff.mpr (by omega)]
      rfl
  · next hge =>
    rw [List.getElem?_append]
    by_cases hdata : i < offset + data.length
    · rw [if_pos hdata, if_pos (by omega)]
    · rw [if_neg hdata, if_neg (by omega), List.getElem?_drop]
      congr 1
      omega

/-- What the admission of writes depends on. It sees lengths and times and never a byte. -/
structure Gate where
  /-- The content that there is room for. -/
  capacity : Nat
  ctime : Time
  mtime : Time
  deriving Repr, DecidableEq

/-- The room after growing, if need be, for `n` bytes at `offset` of `size` bytes. -/
def Gate.room (config : Config) (gate : Gate) (size offset n : Nat) : Option Nat :=
  if gate.capacity ≤ max size offset + n then
    (Tree.grownCapacity config gate.capacity n).map (max · (offset + n))
  else some gate.capacity

/-- Whether `n` bytes may be written at `offset` of `size` bytes now. The room grows before the time
is checked. -/
def Gate.admit (config : Config) (now : Time) (gate : Gate) (size offset n : Nat) :
    Except FsError Unit × Gate :=
  if config.maxContentLen < offset + n then (.error .tooLarge, gate)
  else
    match gate.room config size offset n with
    | none => (.error .tooLarge, gate)
    | some capacity =>
      if now < gate.ctime then (.error .mtimeBeforeCtime, { gate with capacity := capacity })
      else if now < gate.mtime then (.error .mtimeRegression, { gate with capacity := capacity })
      else (.ok (), { gate with capacity := capacity, mtime := now })

/-- A file as its bytes. No buffer is larger than the content, and nothing is left behind when it is
emptied. -/
structure File where
  bytes : Bytes
  gate : Gate
  deriving Repr, DecidableEq

/-- A write either is refused and leaves the bytes alone, or lays all of `data` over them. -/
def File.write (config : Config) (now : Time) (file : File) (offset : Nat) (data : Bytes) :
    Except FsError Nat × File :=
  if data = [] then (.ok 0, file)
  else
    match file.gate.admit config now file.bytes.length offset data.length with
    | (.error e, gate) => (.error e, { file with gate := gate })
    | (.ok (), gate) => (.ok data.length, ⟨overlay file.bytes offset data, gate⟩)

/-- A write that is refused leaves every byte, and one that is refused for its length changes
nothing at all. -/
theorem File.write_eq_error {config : Config} {now : Time} {file file' : File} {offset : Nat}
    {data : Bytes} {e : FsError} (hwrite : file.write config now offset data = (.error e, file')) :
    file'.bytes = file.bytes ∧ (e = .tooLarge → file' = file) := by
  unfold write at hwrite
  split at hwrite
  · simp at hwrite
  split at hwrite
  · next e' gate hadmit =>
    simp only [Prod.mk.injEq, Except.error.injEq] at hwrite
    obtain ⟨rfl, rfl⟩ := hwrite
    refine ⟨rfl, ?_⟩
    rintro rfl
    have hgate : gate = file.gate := by
      unfold Gate.admit at hadmit
      repeat' split at hadmit
      all_goals simp_all
    rw [hgate]
  · simp at hwrite

/-- An open file: its flags, the path for its errors, and its two cursors. -/
structure Handle where
  flags : OpenFlags
  path : String
  readOff : Nat
  writeOff : Nat
  closed : Bool
  deriving Repr, DecidableEq

namespace Handle

/-- Opens a file: `OpenFlags.trunc` empties it, and `OpenFlags.append` puts the write cursor at its
end. -/
def openOn (file : File) (flags : OpenFlags) (path : String) : Handle × File :=
  let file := if flags.has .trunc then { file with bytes := [] } else file
  (⟨flags, path, 0, if flags.has .append then file.bytes.length else 0, false⟩, file)

def failure (handle : Handle) (operation : Operation) (e : FsError) : FsError :=
  .tagged operation handle.path e

/-- A closed handle refuses, then one without the access. -/
def check (handle : Handle) (allowed : Bool) (refusal : FsError) : Except FsError Unit :=
  if handle.closed then .error .closed
  else if allowed then .ok ()
  else .error refusal

def checkReadable (handle : Handle) : Except FsError Unit :=
  handle.check handle.flags.readable .writeOnly

def checkWritable (handle : Handle) : Except FsError Unit :=
  handle.check handle.flags.writable .readOnly

/-- Up to `n` of the bytes from the read cursor on, which moves behind them. -/
def read (handle : Handle) (file : File) (n : Nat) : Except FsError Bytes × Handle :=
  match handle.checkReadable with
  | .error e => (.error (handle.failure .read e), handle)
  | .ok () =>
    let data := (file.bytes.drop handle.readOff).take n
    (.ok data, { handle with readOff := handle.readOff + data.length })

/-- Up to `n` of the bytes from `offset` on, and whether there were fewer. -/
def readAt (handle : Handle) (file : File) (n offset : Nat) : Except FsError (Bytes × Bool) :=
  match handle.checkReadable with
  | .error e => .error (handle.failure .readAt e)
  | .ok () =>
    let data := (file.bytes.drop offset).take n
    .ok (data, decide (data.length < n))

/-- All bytes from the read cursor on. -/
def readToEnd (handle : Handle) (file : File) (out : Bytes) :
    Except FsError Nat × Bytes × Handle :=
  match handle.checkReadable with
  | .error e => (.error (handle.failure .read e), out, handle)
  | .ok () =>
    let tail := file.bytes.drop handle.readOff
    (.ok tail.length, out ++ tail, { handle with readOff := handle.readOff + tail.length })

/-- Moves the read cursor to an offset from the start, or by a distance from where it is or from
behind the last byte. -/
def seek (handle : Handle) (file : File) (goal : SeekTo) : Except FsError Nat × Handle :=
  match handle.checkReadable with
  | .error e => (.error (handle.failure .seek e), handle)
  | .ok () =>
    let target : Int := match goal with
      | .start offset => offset
      | .current delta => handle.readOff + delta
      | .fromEnd delta => file.bytes.length + delta
    if 0 ≤ target ∧ target < 0x10000000000000000 then
      (.ok target.toNat, { handle with readOff := target.toNat })
    else
      (.error (handle.failure .seek
        (.invalidInput ("invalid seek position " ++ toString target))), handle)

/-- Writes at the write cursor, which moves by what was written. -/
def write (handle : Handle) (config : Config) (file : File) (now : Time) (data : Bytes) :
    Except FsError Nat × Handle × File :=
  match handle.checkWritable with
  | .error e => (.error (handle.failure .write e), handle, file)
  | .ok () =>
    match file.write config now handle.writeOff data with
    | (.error e, file) => (.error (handle.failure .write e), handle, file)
    | (.ok n, file) => (.ok n, { handle with writeOff := handle.writeOff + n }, file)

/-- Writes piece by piece what the source delivers before its end or its first failure. -/
def copyFrom (handle : Handle) (config : Config) (file : File) (clock : Clock) (source : Source)
    (total : Nat) : Except FsError Nat × Handle × File :=
  match _hread : source.read Source.chunkSize with
  | (.ok [], _) => (.ok total, handle, file)
  | (.ok (b :: bytes), rest) =>
    match handle.write config file (clock 0) (b :: bytes) with
    | (.error e, handle, file) => (.error e, handle, file)
    | (.ok _, handle, file) =>
      copyFrom handle config file (clock.later 1) rest (total + (b :: bytes).length)
  | (.error e, rest) =>
    if e.kind = .interrupted then copyFrom handle config file (clock.later 1) rest total
    else (.error (handle.failure .readFrom (.io e)), handle, file)
termination_by source.weight
decreasing_by
  · have hlt := source.weight_read_lt Source.chunkSize_pos (by simp [_hread])
    simpa [_hread] using hlt
  · have hlt := source.weight_read_lt Source.chunkSize_pos (by simp [_hread])
    simpa [_hread] using hlt

section

variable {handle : Handle} {config : Config} {file : File} {clock : Clock} {source rest : Source}
  {total : Nat}

theorem copyFrom_of_end (hread : source.read Source.chunkSize = (.ok [], rest)) :
    handle.copyFrom config file clock source total = (.ok total, handle, file) := by
  rw [copyFrom]
  split <;> simp_all

theorem copyFrom_of_data {b : UInt8} {bytes : Bytes}
    (hread : source.read Source.chunkSize = (.ok (b :: bytes), rest)) :
    handle.copyFrom config file clock source total =
      match handle.write config file (clock 0) (b :: bytes) with
      | (.error e, handle, file) => (.error e, handle, file)
      | (.ok _, handle, file) =>
        handle.copyFrom config file (clock.later 1) rest (total + (b :: bytes).length) := by
  conv_lhs => rw [copyFrom]
  split
  · next hother => simp [hread] at hother
  · next hother =>
    simp only [hread, Prod.mk.injEq, Except.ok.injEq, List.cons.injEq] at hother
    obtain ⟨⟨rfl, rfl⟩, rfl⟩ := hother
    rfl
  · next hother => simp [hread] at hother

theorem copyFrom_of_failure {e : IoError}
    (hread : source.read Source.chunkSize = (.error e, rest)) :
    handle.copyFrom config file clock source total =
      if e.kind = .interrupted then handle.copyFrom config file (clock.later 1) rest total
      else (.error (handle.failure .readFrom (.io e)), handle, file) := by
  conv_lhs => rw [copyFrom]
  split
  · next hother => simp [hread] at hother
  · next hother => simp [hread] at hother
  · next hother =>
    simp only [hread, Prod.mk.injEq, Except.error.injEq] at hother
    obtain ⟨rfl, rfl⟩ := hother
    rfl

end

def readFrom (handle : Handle) (config : Config) (file : File) (clock : Clock) (source : Source) :
    Except FsError Nat × Handle × File :=
  match handle.checkWritable with
  | .error e => (.error (handle.failure .readFrom e), handle, file)
  | .ok () => handle.copyFrom config file clock source 0

/-- Closes the handle, once. -/
def close (handle : Handle) : Except FsError Unit × Handle :=
  if handle.closed then (.error (handle.failure .close .closed), handle)
  else (.ok (), { handle with closed := true })

end Handle

/-- An operation of a handle on a file. -/
inductive Transfer where
  | read (n : Nat)
  | readAt (n offset : Nat)
  | readToEnd (out : Bytes)
  | seek (goal : SeekTo)
  | write (data : Bytes)
  | readFrom (source : Source)
  | close

/-- An operation on the one file: opening it by a path that leads to it, or using a handle. -/
inductive Command where
  | openRead (view : Nat) (path : String)
  | openFile (view : Nat) (path : String) (flags : OpenFlags) (mode : FileMode)
  | create (view : Nat) (path : String)
  | handle (index : Nat) (transfer : Transfer)

/-- The file with the handles on it. Handles are numbered as they were opened; the places of those
that are open on other nodes stay empty. -/
structure Machine where
  config : Config
  file : File
  handles : List (Option Handle)
  deriving Repr, DecidableEq

namespace Machine

/-- Opens the file once more. -/
def openFile (machine : Machine) (flags : OpenFlags) (path : String) :
    Except FsError Tree.Reply × Machine :=
  let (handle, file) := Handle.openOn machine.file flags (Path.cleaned path)
  (.ok (.handle machine.handles.length),
    { machine with file := file, handles := machine.handles ++ [some handle] })

/-- Keeps what became of the handle `index`. -/
def putHandle (machine : Machine) (index : Nat) (handle : Handle) : Machine :=
  { machine with handles := machine.handles.set index (some handle) }

/-- An operation of the handle `index`. -/
def transfer (machine : Machine) (clock : Clock) (index : Nat) (handle : Handle) :
    Transfer → Except FsError Tree.Reply × Machine
  | .read n =>
    let (result, handle) := handle.read machine.file n
    (result.map .data, machine.putHandle index handle)
  | .readAt n offset =>
    ((handle.readAt machine.file n offset).map fun (bytes, eof) => .piece bytes eof, machine)
  | .readToEnd out =>
    let (result, whole, handle) := handle.readToEnd machine.file out
    (result.map fun n => .appended n whole, machine.putHandle index handle)
  | .seek goal =>
    let (result, handle) := handle.seek machine.file goal
    (result.map .count, machine.putHandle index handle)
  | .write data =>
    let (result, handle, file) := handle.write machine.config machine.file (clock 0) data
    (result.map .count, { machine with file := file }.putHandle index handle)
  | .readFrom source =>
    let (result, handle, file) := handle.readFrom machine.config machine.file clock source
    (result.map .count, { machine with file := file }.putHandle index handle)
  | .close =>
    let (result, handle) := handle.close
    (result.map fun _ => .done, machine.putHandle index handle)

def step (machine : Machine) (clock : Clock) : Command → Except FsError Tree.Reply × Machine
  | .openRead _ path => machine.openFile .rdonly path
  | .openFile _ path flags _ => machine.openFile flags path
  | .create _ path => machine.openFile Tree.View.anew path
  | .handle index command =>
    match machine.handles[index]?.join with
    | some handle => machine.transfer clock index handle command
    | none => (.error Tree.Session.missing, machine)

theorem config_step (machine : Machine) (clock : Clock) (command : Command) :
    (machine.step clock command).2.config = machine.config := by
  unfold step
  split
  case h_4 =>
    split
    · unfold transfer
      split <;> rfl
    · rfl
  all_goals rfl

def run (machine : Machine) :
    List (Clock × Command) → List (Except FsError Tree.Reply) × Machine
  | [] => ([], machine)
  | (clock, command) :: rest =>
    let (answer, machine) := machine.step clock command
    let (answers, machine) := run machine rest
    (answer :: answers, machine)

end Machine

end VirtualFs.Plain
