import VirtualFs.Entry

namespace VirtualFs

/-- Some entries of a directory, and whether fewer were left than were asked for. -/
structure Page where
  entries : List Entry
  eof : Bool
  deriving Repr, DecidableEq

end VirtualFs
