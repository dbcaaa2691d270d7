namespace VirtualFs

/-- The mode of a node: type bits and permission bits in one word. -/
structure FileMode where
  bits : UInt32
  deriving Repr, DecidableEq, Inhabited

namespace FileMode

/-- The bits that give the type. -/
def typeMask : UInt32 := 0o170000

/-- The type of a directory. -/
def dirType : UInt32 := 0o040000

/-- The type of a regular file. -/
def regularType : UInt32 := 0o100000

/-- The bits that give the permissions. -/
def permMask : UInt32 := 0o777

/-- A regular file with the permission bits of `bits`. -/
def file (bits : UInt32) : FileMode :=
  ⟨regularType ||| (bits &&& permMask)⟩

/-- A directory with the permission bits of `bits`. -/
def dir (bits : UInt32) : FileMode :=
  ⟨dirType ||| (bits &&& permMask)⟩

/-- The permission bits. -/
def perm (mode : FileMode) : UInt32 :=
  mode.bits &&& permMask

/-- The type bits. -/
def fileType (mode : FileMode) : UInt32 :=
  mode.bits &&& typeMask

/-- The type is exactly that of a directory. -/
def isDir (mode : FileMode) : Bool :=
  mode.fileType == dirType

/-- Everything that is no directory counts as regular. -/
def isRegular (mode : FileMode) : Bool :=
  !mode.isDir

/-- The same permissions on a directory. -/
def asDir (mode : FileMode) : FileMode :=
  dir mode.bits

/-- The same permissions on a regular file. -/
def asFile (mode : FileMode) : FileMode :=
  file mode.bits

/-- Permission bits leave the type alone. -/
theorem fileType_perm (type bits : UInt32) :
    fileType ⟨type ||| (bits &&& permMask)⟩ = type &&& typeMask := by
  have hdisjoint : permMask &&& typeMask = 0 := by decide
  have hdistrib : (type ||| (bits &&& permMask)) &&& typeMask =
      (type &&& typeMask) ||| ((bits &&& permMask) &&& typeMask) :=
    UInt32.toBitVec_inj.1 BitVec.and_or_distrib_right
  rw [fileType, hdistrib, UInt32.and_assoc, hdisjoint, UInt32.and_zero, UInt32.or_zero]

@[simp] theorem isDir_dir (bits : UInt32) : (dir bits).isDir = true := by
  rw [isDir, dir, fileType_perm]
  decide

@[simp] theorem isDir_file (bits : UInt32) : (file bits).isDir = false := by
  rw [isDir, file, fileType_perm]
  decide

@[simp] theorem isDir_asDir (mode : FileMode) : mode.asDir.isDir = true :=
  isDir_dir mode.bits

@[simp] theorem isDir_asFile (mode : FileMode) : mode.asFile.isDir = false :=
  isDir_file mode.bits

/-- The letter of one permission bit, a dash when it is not set. -/
def permLetter (bits : UInt32) (position : UInt32) (letter : Char) : Char :=
  if bits &&& (1 <<< position) = 0 then '-' else letter

/-- A `d` or a dash, then read, write and execute for the owner, the group and all others. -/
def text (mode : FileMode) : String :=
  let letter := permLetter mode.bits
  String.ofList
    [if mode.isDir then 'd' else '-',
      letter 8 'r', letter 7 'w', letter 6 'x',
      letter 5 'r', letter 4 'w', letter 3 'x',
      letter 2 'r', letter 1 'w', letter 0 'x']

end FileMode

end VirtualFs
