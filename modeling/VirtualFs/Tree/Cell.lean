import VirtualFs.Config
import VirtualFs.Entry

namespace VirtualFs.Tree

/-- Rounds a double that is not negative to a whole one, halves up. From `2 ^ 53` on all doubles
are whole. -/
def roundHalfUp (x : Float) : Float :=
  if x < 9007199254740992 then
    let whole := x.toUInt64.toFloat
    if 0.5 ≤ x - whole then whole + 1 else whole
  else x

/-- The capacity that a buffer of `capacity` bytes grows to for `n` more: both together times the
growth factor, computed in doubles. There is none above the bound on the content. -/
def grownCapacity (config : Config) (capacity n : Nat) : Option Nat :=
  let total := (UInt64.ofNat capacity).toFloat + (UInt64.ofNat n).toFloat
  let target := roundHalfUp (total * config.growthFactor.toFloat)
  if !target.isFinite || decide ((UInt64.ofNat config.maxContentLen).toFloat < target) then none
  else some target.toUInt64.toNat

/-- The content and the metadata of a regular file, which all handles on it share. The bytes of the
buffer from `size` on are zero. -/
structure Cell where
  entry : Entry
  buf : Bytes
  size : Nat
  deriving Repr, DecidableEq

namespace Cell

/-- An empty file with a buffer of `capacity` bytes. -/
def empty (entry : Entry) (capacity : Nat) : Cell :=
  ⟨entry, List.replicate capacity 0, 0⟩

/-- The size of the buffer. -/
def capacity (cell : Cell) : Nat :=
  cell.buf.length

/-- The bytes written. -/
def active (cell : Cell) : Bytes :=
  cell.buf.take cell.size

/-- Up to `n` bytes from `offset` on, none past the end. -/
def readAt (cell : Cell) (offset n : Nat) : Bytes :=
  (cell.active.drop offset).take n

/-- The bytes from `offset` to the end. -/
def readFromOffset (cell : Cell) (offset : Nat) : Bytes :=
  cell.active.drop offset

/-- The buffer cut or filled up with zeros to `capacity` bytes. -/
def resize (cell : Cell) (capacity : Nat) : Cell :=
  { cell with buf := cell.buf.take capacity ++ List.replicate (capacity - cell.buf.length) 0 }

/-- The cell with room for `n` bytes at `offset`. The buffer grows as soon as what is written and
the new bytes would fill it, and then reaches at least to their end. -/
def makeRoom (config : Config) (cell : Cell) (offset n : Nat) : Option Cell :=
  if cell.capacity ≤ max cell.size offset + n then
    match grownCapacity config cell.capacity n with
    | some grown => some (cell.resize (max grown (offset + n)))
    | none => none
  else some cell

/-- The bytes put at `offset` of a buffer that is large enough. -/
def patch (cell : Cell) (offset : Nat) (data : Bytes) (entry : Entry) : Cell :=
  let size := max cell.size (offset + data.length)
  { entry := entry.setSize size
    buf := cell.buf.take offset ++ data ++ cell.buf.drop (offset + data.length)
    size := size }

/-- Writes `data` at `offset` at the time `now` and counts it. No data is no write. A write whose
end or whose grown buffer is above the bound is refused. The modification time is checked before a
byte is written, but after the buffer has grown. -/
def writeAt (config : Config) (now : Time) (cell : Cell) (offset : Nat) (data : Bytes) :
    Except FsError Nat × Cell :=
  if data = [] then (.ok 0, cell)
  else if config.maxContentLen < offset + data.length then (.error .tooLarge, cell)
  else
    match cell.makeRoom config offset data.length with
    | none => (.error .tooLarge, cell)
    | some roomy =>
      match roomy.entry.setModTime now with
      | .error e => (.error e, roomy)
      | .ok entry => (.ok data.length, roomy.patch offset data entry)

/-- Drops the content: what was written becomes zero and the buffer stays. -/
def truncate (cell : Cell) : Cell :=
  { entry := cell.entry.setSize 0
    buf := List.replicate (min cell.size cell.buf.length) 0 ++ cell.buf.drop cell.size
    size := 0 }

/-- Room is made behind what was written. -/
theorem makeRoom_keeps {config : Config} {cell roomy : Cell} {offset n : Nat}
    (hmade : cell.makeRoom config offset n = some roomy) :
    roomy.entry = cell.entry ∧ roomy.size = cell.size := by
  unfold makeRoom at hmade
  split at hmade
  · split at hmade
    · obtain rfl := Option.some.inj hmade
      exact ⟨rfl, rfl⟩
    · cases hmade
  · obtain rfl := Option.some.inj hmade
    exact ⟨rfl, rfl⟩

end Cell

end VirtualFs.Tree
