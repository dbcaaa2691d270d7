import VirtualFs.Source
import VirtualFs.Entry

namespace VirtualFs

/-- How many of the offered bytes a write took: at least one, at most all. -/
structure Accepted (offered : Bytes) where
  count : Nat
  pos : 0 < count
  le_length : count ≤ offered.length

/-- A handle that can be written to, as operations on a state. Writes are only asked for with
something to write. -/
structure Writable (σ : Type) where
  write : σ → (data : Bytes) → data ≠ [] → Except FsError (Accepted data) × σ
  stat : σ → Except FsError Entry

/-- A handle that can be read from, as operations on a state. `left` bounds the reads before the
end, so that reading to the end comes to one. -/
structure Readable (σ : Type) where
  read : σ → Nat → Except FsError Bytes × σ
  left : σ → Nat
  left_lt : ∀ s n b s', read s n = (.ok b, s') → b ≠ [] → left s' < left s

namespace Writable

variable {σ : Type} (handle : Writable σ)

/-- Writes all of `data`, as many times as the handle takes only a part of it. -/
def writeAll (s : σ) (data : Bytes) : Except FsError Unit × σ :=
  if hdata : data = [] then (.ok (), s)
  else
    match handle.write s data hdata with
    | (.error e, s) => (.error e, s)
    | (.ok accepted, s) => writeAll s (data.drop accepted.count)
termination_by data.length
decreasing_by
  have hpos := accepted.pos
  have hle := accepted.le_length
  simp only [List.length_drop]
  omega

/-- Writes everything the source delivers and counts it. Interrupted reads are repeated; any other
failure of the source ends the transfer and is tagged with the path of the handle, if it has
one. -/
def readFrom (s : σ) (source : Source) (total : Nat) : Except FsError Nat × σ :=
  match _hread : source.read Source.chunkSize with
  | (.ok [], _) => (.ok total, s)
  | (.ok (b :: bytes), rest) =>
    match handle.writeAll s (b :: bytes) with
    | (.error e, s) => (.error e, s)
    | (.ok (), s) => readFrom s rest (total + (b :: bytes).length)
  | (.error e, rest) =>
    if e.kind = .interrupted then readFrom s rest total
    else
      let path := match handle.stat s with
        | .ok entry => entry.path
        | .error _ => ""
      (.error (.tagged .readFrom path (.io e)), s)
termination_by source.weight
decreasing_by
  · have hlt := source.weight_read_lt Source.chunkSize_pos (by simp [_hread])
    simpa [_hread] using hlt
  · have hlt := source.weight_read_lt Source.chunkSize_pos (by simp [_hread])
    simpa [_hread] using hlt

end Writable

namespace Readable

variable {σ : Type} (handle : Readable σ)

/-- Appends everything up to the end to `out` and counts it. What was read before a failure stays
appended. -/
def readToEnd (s : σ) (out : Bytes) (total : Nat) : Except FsError Nat × Bytes × σ :=
  match _hread : handle.read s Source.chunkSize with
  | (.error e, s') => (.error e, out, s')
  | (.ok [], s') => (.ok total, out, s')
  | (.ok (b :: bytes), s') => readToEnd s' (out ++ b :: bytes) (total + (b :: bytes).length)
termination_by handle.left s
decreasing_by exact handle.left_lt _ _ _ _ _hread (by simp)

end Readable

/-- A source as something to read from. -/
def Source.reader : Readable Source where
  read := fun source n =>
    match source.read n with
    | (.ok bytes, rest) => (.ok bytes, rest)
    | (.error e, rest) => (.error (.io e), rest)
  left := weight
  left_lt := by
    intro source n bytes rest hread hbytes
    have hok : source.read n = (.ok bytes, rest) := by
      split at hread <;> simp_all
    have hlimit : 0 < n := by
      refine Nat.pos_of_ne_zero fun hzero => hbytes ?_
      subst hzero
      match source with
      | [] => simp_all [read]
      | .failure _ :: _ => simp [read] at hok
      | .data data :: _ =>
        simp only [read] at hok
        split at hok <;> simp_all
    have hlt := weight_read_lt source hlimit (by simp [hok, hbytes])
    simpa [hok] using hlt

end VirtualFs
