import VirtualFs.Glob.Library
import VirtualFs.Host.Change

namespace VirtualFs.Host

/-- Why a search has no answer. -/
inductive SearchError where
  /-- What is wrong with the pattern. -/
  | pattern (text : String)
  | refused (failure : Failure)
  deriving Repr, DecidableEq

/-- What is used of libraries that answer for the host. -/
structure Libraries where
  patterns : Glob.Library
  /-- The paths that match a pattern. -/
  search : Disk → String → Except SearchError (List String)
  /-- The absolute path of the node at a path. -/
  canonical : Disk → String → Except Failure String

end VirtualFs.Host
