import VirtualFs.Attributes
import VirtualFs.Path.Rules

namespace VirtualFs

/-- The record of one node. Its path is relative to the filesystem that it came from. -/
structure Entry where
  path : String
  attrs : Attributes
  deriving Repr, DecidableEq

namespace Entry

/-- An entry for a path that the rules accept; its path is the cleaned one, `"."` for the root. -/
def create (path : String) (attrs : Attributes) (rules : PathRules) : Except FsError Entry :=
  match rules.clean path with
  | .ok cleaned => .ok ⟨if cleaned = "" then "." else cleaned, attrs⟩
  | .error e => .error e

theorem attrs_of_create {path : String} {attrs : Attributes} {rules : PathRules} {entry : Entry}
    (hentry : create path attrs rules = .ok entry) : entry.attrs = attrs := by
  unfold create at hentry
  split at hentry
  · simp only [Except.ok.injEq] at hentry
    rw [← hentry]
  · cases hentry

/-- An entry is made only for a path that the rules accept. -/
theorem accepts_of_create {path : String} {attrs : Attributes} {rules : PathRules} {entry : Entry}
    (hentry : create path attrs rules = .ok entry) : rules.accepts (Text.trim path) = true := by
  cases haccepts : rules.accepts (Text.trim path) with
  | true => rfl
  | false => simp [create, PathRules.clean, haccepts] at hentry

/-- The entry of a root. -/
def root (attrs : Attributes) : Entry :=
  ⟨".", attrs⟩

/-- The entry as seen from `base`; one that lies outside stays as it is. -/
def rebased (entry : Entry) (base : String) : Entry :=
  match Path.stripBase base entry.path with
  | some relative => { entry with path := relative }
  | none => entry

/-- The final segment of the path. -/
def name (entry : Entry) : String :=
  Path.base entry.path

/-- The path of the parent. -/
def dir (entry : Entry) : String :=
  Path.dir entry.path

/-- The node is a directory. -/
def isDir (entry : Entry) : Bool :=
  entry.attrs.mode.isDir

def mode (entry : Entry) : FileMode :=
  entry.attrs.mode

def size (entry : Entry) : Nat :=
  entry.attrs.size

def modTime (entry : Entry) : Time :=
  entry.attrs.mtime

/-- Moves the modification time forward, see `Attributes.setMtime`. -/
def setModTime (entry : Entry) (mtime : Time) : Except FsError Entry :=
  match entry.attrs.setMtime mtime with
  | .ok attrs => .ok { entry with attrs := attrs }
  | .error e => .error e

/-- Records a new size; directories have none and ignore it. -/
def setSize (entry : Entry) (size : Nat) : Entry :=
  if entry.isDir then entry else { entry with attrs := { entry.attrs with size := size } }

/-- A time that is accepted is neither before the creation nor before the last modification, and
nothing but the modification time changes. -/
theorem setModTime_eq_ok {entry entry' : Entry} {now : Time}
    (hentry : entry.setModTime now = .ok entry') :
    entry' = { entry with attrs := { entry.attrs with mtime := now } } ∧
      entry.attrs.ctime ≤ now ∧ entry.attrs.mtime ≤ now := by
  unfold setModTime Attributes.setMtime at hentry
  split at hentry
  · next attrs hattrs =>
    split at hattrs
    · cases hattrs
    next hctime =>
    split at hattrs
    · cases hattrs
    next hmtime =>
    simp only [Except.ok.injEq] at hattrs hentry
    subst hattrs hentry
    exact ⟨rfl, Int.not_lt.mp hctime, Int.not_lt.mp hmtime⟩
  · cases hentry

theorem setModTime_of_le {entry : Entry} {now : Time} (hctime : entry.attrs.ctime ≤ now)
    (hmtime : entry.attrs.mtime ≤ now) :
    entry.setModTime now = .ok { entry with attrs := { entry.attrs with mtime := now } } := by
  simp [setModTime, Attributes.setMtime, Int.not_lt.mpr hctime, Int.not_lt.mpr hmtime]

@[simp] theorem isDir_setSize (entry : Entry) (size : Nat) :
    (entry.setSize size).isDir = entry.isDir := by
  unfold setSize
  split <;> rfl

@[simp] theorem path_setSize (entry : Entry) (size : Nat) :
    (entry.setSize size).path = entry.path := by
  unfold setSize
  split <;> rfl

end Entry

end VirtualFs
