import VirtualFs.Error

namespace VirtualFs.Host

/-- A refusal of the host. -/
inductive Failure where
  | missing
  /-- The permissions of a node forbid it. -/
  | denied
  | busy
  | taken
  | notDirectory
  | isDirectory
  | invalidArgument
  | fileTooLarge
  | nameTooLong
  | notEmpty
  /-- A path with a null character, which no host path can have. -/
  | nullCharacter
  /-- A request to make or empty a file without asking to write it. -/
  | noWriteAccess
  deriving Repr, DecidableEq

namespace Failure

/-- The error number that the text of a numbered refusal ends in. -/
def numbered (text : String) (number : Nat) : String :=
  text ++ " (os error " ++ toString number ++ ")"

def text : Failure → String
  | missing => numbered "No such file or directory" 2
  | denied => numbered "Permission denied" 13
  | busy => numbered "Device or resource busy" 16
  | taken => numbered "File exists" 17
  | notDirectory => numbered "Not a directory" 20
  | isDirectory => numbered "Is a directory" 21
  | invalidArgument => numbered "Invalid argument" 22
  | fileTooLarge => numbered "File too large" 27
  | nameTooLong => numbered "File name too long" 36
  | notEmpty => numbered "Directory not empty" 39
  | nullCharacter => "file name contained an unexpected NUL byte"
  | noWriteAccess => "creating or truncating a file requires write or append access"

def kind : Failure → IoKind
  | missing => .notFound
  | denied => .permissionDenied
  | busy => .resourceBusy
  | taken => .alreadyExists
  | notDirectory => .notADirectory
  | isDirectory => .isADirectory
  | invalidArgument => .invalidInput
  | fileTooLarge => .fileTooLarge
  | nameTooLong => .invalidFilename
  | notEmpty => .directoryNotEmpty
  | nullCharacter => .invalidInput
  | noWriteAccess => .invalidInput

/-- The refusal as an I/O error. -/
def toIo (failure : Failure) : IoError :=
  ⟨failure.kind, failure.text⟩

end Failure

end VirtualFs.Host
