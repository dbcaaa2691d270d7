namespace VirtualFs

/-- What a handle may do with the content. -/
inductive Access where
  | readOnly
  | writeOnly
  | readWrite
  deriving Repr, DecidableEq

/-- How to open a file: an access mode in the two lowest bits and independent options above. -/
structure OpenFlags where
  bits : UInt32
  deriving Repr, DecidableEq, Inhabited

namespace OpenFlags

/-- Open for reading. -/
def rdonly : OpenFlags := ⟨0o0⟩

/-- Open for writing. -/
def wronly : OpenFlags := ⟨0o1⟩

/-- Open for both. -/
def rdwr : OpenFlags := ⟨0o2⟩

/-- Create what is missing. -/
def create : OpenFlags := ⟨0o100⟩

/-- Empty the file on opening. -/
def trunc : OpenFlags := ⟨0o1000⟩

/-- Start writing at the end. -/
def append : OpenFlags := ⟨0o2000⟩

/-- The bits that give the access mode. -/
def accessMask : UInt32 := 0o3

/-- The flags of both. -/
def union (a b : OpenFlags) : OpenFlags :=
  ⟨a.bits ||| b.bits⟩

instance : OrOp OpenFlags := ⟨union⟩

/-- Every option of `other` is set; its access mode is not looked at. -/
def has (flags other : OpenFlags) : Bool :=
  let options := other.bits &&& ~~~accessMask
  flags.bits &&& options == options

/-- The access mode; both access bits together mean reading and writing. -/
def access (flags : OpenFlags) : Access :=
  if flags.bits &&& accessMask = 0 then .readOnly
  else if flags.bits &&& accessMask = 1 then .writeOnly
  else .readWrite

/-- Reading is allowed. -/
def readable (flags : OpenFlags) : Bool :=
  flags.access != .writeOnly

/-- Writing is allowed. -/
def writable (flags : OpenFlags) : Bool :=
  flags.access != .readOnly

theorem has_create_rdonly : rdonly.has .create = false := by decide

theorem has_trunc_rdonly : rdonly.has .trunc = false := by decide

theorem readable_rdonly : rdonly.readable = true := by decide

end OpenFlags

end VirtualFs
