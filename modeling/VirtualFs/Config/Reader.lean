import VirtualFs.Config
import VirtualFs.Toml.Document

namespace VirtualFs.Config

open Toml (Value Members)

/-- A whole number from zero to `limit`. -/
def natural? (limit : Nat) : Value → Option Nat
  | .integer n => if 0 ≤ n ∧ n ≤ limit then some n.toNat else none
  | _ => none

/-- A double; a whole number is rounded to one. -/
def double? : Value → Option Binary64
  | .float x => some x
  | .integer n =>
    let magnitude := (UInt64.ofNat n.natAbs).toFloat
    some (.ofFloat (if n < 0 then -magnitude else magnitude))
  | _ => none

/-- A value without content. -/
def isHollow : Value → Bool
  | .array [] => true
  | .braces _ [] => true
  | .table _ [] => true
  | _ => false

/-- A policy by its name: a text, or the only key of a table, with a value without content. -/
def policy? : Value → Option PathPolicy
  | .text s => PathPolicy.ofName? s
  | .braces _ [(key, value)] => if isHollow value then PathPolicy.ofName? key else none
  | .table _ [(key, value)] => if isHollow value then PathPolicy.ofName? key else none
  | _ => none

/-- The setting that `read` makes of the member of this name, or the default where there is none.
Members that no setting reads are passed over. -/
def setting {α : Type} (members : Members) (key : String) (default : α)
    (read : Value → Option α) : Option α :=
  match members.lookup key with
  | none => some default
  | some value => read value

/-- The settings of a table; `none` when one has the wrong type or is out of its range. -/
def ofMembers? (members : Members) : Option Config := do
  let word := natural? 0xFFFFFFFF
  let fileMode ← setting members "file_mode" standard.fileMode.toNat word
  let dirMode ← setting members "dir_mode" standard.dirMode.toNat word
  let initialCapacity ←
    setting members "initial_capacity" standard.initialCapacity (natural? 0xFFFFFFFFFFFFFFFF)
  let growthFactor ← setting members "growth_factor" standard.growthFactor double?
  let maxContentLen ←
    setting members "max_content_len" standard.maxContentLen (natural? 0xFFFFFFFFFFFFFFFF)
  let pathPolicy ← setting members "path_policy" standard.pathPolicy policy?
  return {
    fileMode := UInt32.ofNat fileMode
    dirMode := UInt32.ofNat dirMode
    initialCapacity := initialCapacity
    growthFactor := growthFactor
    maxContentLen := maxContentLen
    pathPolicy := pathPolicy }

/-- The validated settings of a TOML document. -/
def ofToml (text : String) : Except FsError Config :=
  match (Toml.parse text).bind ofMembers? with
  | none => .error (.invalidInput "config: malformed")
  | some config =>
    match config.validate with
    | .ok () => .ok config
    | .error e => .error e

/-- The validated settings of a TOML file, given what reading the file came to. -/
def ofRead : Except IoError String → Except FsError Config
  | .ok text => ofToml text
  | .error e => .error (.io e)

end VirtualFs.Config
