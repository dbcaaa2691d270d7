import VirtualFs.Source

namespace VirtualFs.Source

/-- All bytes that a transfer gets. -/
def bytes : Source → Bytes
  | [] => []
  | .data [] :: _ => []
  | .data (b :: data) :: rest => b :: data ++ bytes rest
  | .failure e :: rest => if e.kind = .interrupted then bytes rest else []

/-- The failure that a transfer ends with, none if it comes to the end. -/
def failure? : Source → Option IoError
  | [] => none
  | .data [] :: _ => none
  | .data (_ :: _) :: rest => failure? rest
  | .failure e :: rest => if e.kind = .interrupted then failure? rest else some e

/-- The bytes of one read, and how many reads there were before it. -/
structure Piece where
  stage : Nat
  bytes : Bytes
  deriving Repr, DecidableEq

/-- The pieces that a transfer gets, if `stage` reads were made before. -/
def pieces (stage : Nat) (source : Source) : List Piece :=
  match _hread : source.read chunkSize with
  | (.ok [], _) => []
  | (.ok (b :: data), rest) => ⟨stage, b :: data⟩ :: pieces (stage + 1) rest
  | (.error e, rest) => if e.kind = .interrupted then pieces (stage + 1) rest else []
termination_by source.weight
decreasing_by
  · have hlt := source.weight_read_lt chunkSize_pos (by simp [_hread])
    simpa [_hread] using hlt
  · have hlt := source.weight_read_lt chunkSize_pos (by simp [_hread])
    simpa [_hread] using hlt

/-- The bytes of some pieces, one after the other. -/
def joined (pieces : List Piece) : Bytes :=
  (pieces.map Piece.bytes).flatten

@[simp] theorem joined_nil : joined [] = [] := rfl

@[simp] theorem joined_cons (piece : Piece) (pieces : List Piece) :
    joined (piece :: pieces) = piece.bytes ++ joined pieces := rfl

@[simp] theorem joined_append (front back : List Piece) :
    joined (front ++ back) = joined front ++ joined back := by
  simp [joined]

variable {source rest : Source} {stage limit : Nat} {b : UInt8} {data : Bytes} {e : IoError}

/-- The reads that one read leaves to be made. Whatever goes on read by read comes to its end. -/
theorem reads_induction {motive : Source → Prop}
    (ended : ∀ source rest, source.read chunkSize = (.ok [], rest) → motive source)
    (piece : ∀ source b data rest, source.read chunkSize = (.ok (b :: data), rest) → motive rest →
      motive source)
    (interrupted : ∀ source e rest, source.read chunkSize = (.error e, rest) →
      e.kind = .interrupted → motive rest → motive source)
    (failed : ∀ source e rest, source.read chunkSize = (.error e, rest) →
      e.kind ≠ .interrupted → motive source) (source : Source) : motive source := by
  fun_induction pieces 0 source with
  | case1 _ source rest hread => exact ended source rest hread
  | case2 _ source b data rest hread ih => exact piece source b data rest hread ih
  | case3 _ source e rest hread hkind ih => exact interrupted source e rest hread hkind ih
  | case4 _ source e rest hread hkind => exact failed source e rest hread hkind

theorem pieces_of_end (hread : source.read chunkSize = (.ok [], rest)) :
    source.pieces stage = [] := by
  rw [pieces]
  split <;> simp_all

theorem pieces_of_data (hread : source.read chunkSize = (.ok (b :: data), rest)) :
    source.pieces stage = ⟨stage, b :: data⟩ :: rest.pieces (stage + 1) := by
  rw [pieces]
  split <;> simp_all

theorem pieces_of_failure (hread : source.read chunkSize = (.error e, rest)) :
    source.pieces stage = if e.kind = .interrupted then rest.pieces (stage + 1) else [] := by
  rw [pieces]
  split <;> simp_all

/-- No read brings anything else than what is still to come. -/
theorem of_read_end (hlimit : 0 < limit) (hread : source.read limit = (.ok [], rest)) :
    source.bytes = [] ∧ source.failure? = none := by
  match source with
  | [] => exact ⟨rfl, rfl⟩
  | .data [] :: _ => exact ⟨rfl, rfl⟩
  | .failure _ :: _ => cases hread
  | .data (b :: data) :: later =>
    rw [read] at hread
    split at hread
    · cases hread
    · rw [List.take_cons hlimit] at hread
      cases hread

theorem of_read_data (hread : source.read limit = (.ok (b :: data), rest)) :
    source.bytes = b :: data ++ rest.bytes ∧ source.failure? = rest.failure? := by
  match source with
  | [] => cases hread
  | .failure _ :: _ => cases hread
  | .data given :: later =>
    rw [read] at hread
    split at hread
    · obtain ⟨hgiven, rfl⟩ := Prod.mk.inj hread
      obtain rfl := Except.ok.inj hgiven
      exact ⟨rfl, rfl⟩
    · next hlong =>
      obtain ⟨htaken, rfl⟩ := Prod.mk.inj hread
      have hcut := List.take_append_drop limit given
      have hleft : given.drop limit ≠ [] := by
        rw [Ne, List.drop_eq_nil_iff]
        exact hlong
      rw [Except.ok.inj htaken] at hcut
      obtain ⟨c, left, hdrop⟩ := List.exists_cons_of_ne_nil hleft
      rw [hdrop] at hcut ⊢
      rw [← hcut]
      exact ⟨List.append_assoc (b :: data) (c :: left) (bytes later), rfl⟩

theorem of_read_failure (hread : source.read limit = (.error e, rest)) :
    source.bytes = (if e.kind = .interrupted then rest.bytes else []) ∧
      source.failure? = if e.kind = .interrupted then rest.failure? else some e := by
  match source with
  | [] => cases hread
  | .failure _ :: _ =>
    obtain ⟨herror, rfl⟩ := Prod.mk.inj hread
    obtain rfl := Except.error.inj herror
    exact ⟨rfl, rfl⟩
  | .data given :: later =>
    rw [read] at hread
    split at hread <;> cases hread

/-- The pieces are all bytes, none lost, none twice and none out of order. -/
theorem joined_pieces (source : Source) (stage : Nat) :
    joined (source.pieces stage) = source.bytes := by
  induction source using reads_induction generalizing stage with
  | ended source rest hread =>
    rw [pieces_of_end hread, (of_read_end chunkSize_pos hread).1, joined_nil]
  | piece source b data rest hread ih =>
    rw [pieces_of_data hread, (of_read_data hread).1, joined_cons, ih]
  | interrupted source e rest hread hkind ih =>
    rw [pieces_of_failure hread, (of_read_failure hread).1, if_pos hkind, if_pos hkind, ih]
  | failed source e rest hread hkind =>
    rw [pieces_of_failure hread, (of_read_failure hread).1, if_neg hkind, if_neg hkind, joined_nil]

/-- No piece is empty. -/
theorem bytes_ne_nil_of_mem_pieces {piece : Piece} (hmem : piece ∈ source.pieces stage) :
    piece.bytes ≠ [] := by
  induction source using reads_induction generalizing stage with
  | ended source rest hread =>
    rw [pieces_of_end hread] at hmem
    cases hmem
  | piece source b data rest hread ih =>
    rw [pieces_of_data hread] at hmem
    rcases List.mem_cons.mp hmem with rfl | hrest
    · exact List.cons_ne_nil b data
    · exact ih hrest
  | interrupted source e rest hread hkind ih =>
    rw [pieces_of_failure hread, if_pos hkind] at hmem
    exact ih hmem
  | failed source e rest hread hkind =>
    rw [pieces_of_failure hread, if_neg hkind] at hmem
    cases hmem

end VirtualFs.Source
