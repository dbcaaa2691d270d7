namespace VirtualFs

/-- Where to move a cursor to. -/
inductive SeekTo where
  | start (offset : Nat)
  | current (delta : Int)
  | fromEnd (delta : Int)
  deriving Repr, DecidableEq

/-- The position asked for of a cursor at `position` in `size` bytes. It may lie past the end, or be
no position at all. -/
def SeekTo.target (position size : Nat) : SeekTo → Int
  | start offset => offset
  | current delta => position + delta
  | fromEnd delta => size + delta

end VirtualFs
