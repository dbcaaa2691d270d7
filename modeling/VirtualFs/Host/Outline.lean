import VirtualFs.Host.Filesystem

namespace VirtualFs.Host.Filesystem

/-- The entries below the directory at a path, parents first and names in order; nothing if it
cannot be read. `depth` bounds the levels. -/
def outlineBelow (fs : Filesystem) : Nat → String → Program (List Entry)
  | 0, _ => return []
  | depth + 1, path => do
    match ← (fs.readDir path).run with
    | .error _ => return []
    | .ok entries =>
      entries.flatMapM fun entry => do
        if entry.isDir then
          let rest ← fs.outlineBelow depth entry.path
          return entry :: rest
        else
          return [entry]

/-- The entries below the root. A path grows with every level, and the host bounds its length. -/
def outline (fs : Filesystem) : Program (List Entry) :=
  fs.outlineBelow pathLimit "."

end VirtualFs.Host.Filesystem
