import VirtualFs.Error
import VirtualFs.Text.Bytes

namespace VirtualFs

/-- What one item of a source delivers. -/
inductive Delivery where
  /-- Bytes; none at all mean the end. -/
  | data (bytes : Bytes)
  /-- A failed read. -/
  | failure (error : IoError)
  deriving Repr, DecidableEq

/-- The deliveries still to come. After the last one every read is at the end. -/
abbrev Source := List Delivery

namespace Source

/-- The largest piece that a bulk transfer asks for. -/
def chunkSize : Nat := 32768

theorem chunkSize_pos : 0 < chunkSize := by decide

/-- One read of at most `limit` bytes. What a delivery holds beyond that comes with the next
reads. -/
def read (limit : Nat) : Source → Except IoError Bytes × Source
  | [] => (.ok [], [])
  | .failure e :: rest => (.error e, rest)
  | .data bytes :: rest =>
    if bytes.length ≤ limit then (.ok bytes, rest)
    else (.ok (bytes.take limit), .data (bytes.drop limit) :: rest)

/-- One for every delivery and every byte still to come; a bound on the reads before the end. -/
def weight : Source → Nat
  | [] => 0
  | .failure _ :: rest => weight rest + 1
  | .data bytes :: rest => weight rest + bytes.length + 1

/-- A read that is not the end uses the source up. -/
theorem weight_read_lt (source : Source) {limit : Nat} (hlimit : 0 < limit)
    (hread : (source.read limit).1 ≠ .ok []) : (source.read limit).2.weight < source.weight := by
  match source with
  | [] => simp [read] at hread
  | .failure e :: rest => simp [read, weight]
  | .data bytes :: rest =>
    by_cases hshort : bytes.length ≤ limit
    · simp only [read, hshort, ↓reduceIte, weight]
      omega
    · simp only [read, hshort, ↓reduceIte, weight, List.length_drop]
      omega

end Source

end VirtualFs
