import VirtualFs.Number.Shortest
import VirtualFs.Path.Rules

namespace VirtualFs

/-- Which paths a tree accepts. -/
inductive PathPolicy where
  /-- Every text is a path. -/
  | permissive
  /-- Only valid relative paths. -/
  | strict
  deriving Repr, DecidableEq

namespace PathPolicy

def name : PathPolicy → String
  | .permissive => "permissive"
  | .strict => "strict"

/-- The policy of this name. -/
def ofName? (s : String) : Option PathPolicy :=
  if s = "permissive" then some .permissive
  else if s = "strict" then some .strict
  else none

/-- The path rules of the policy. -/
def rules : PathPolicy → PathRules
  | .permissive => .permissive
  | .strict => .strict

theorem ofName?_name (policy : PathPolicy) : ofName? policy.name = some policy := by
  cases policy <;> rfl

end PathPolicy

/-- The settings of a memory tree. -/
structure Config where
  /-- Permission bits of files made by `create`. -/
  fileMode : UInt32
  /-- Permission bits of the root directory. -/
  dirMode : UInt32
  /-- Size of the buffer of a new file. -/
  initialCapacity : Nat
  /-- What a buffer is multiplied by when a write outgrows it. -/
  growthFactor : Binary64
  /-- The largest buffer of a file. -/
  maxContentLen : Nat
  /-- Which paths are accepted. -/
  pathPolicy : PathPolicy
  deriving Repr, DecidableEq

namespace Config

/-- No content is longer than the largest signed word. -/
def contentLimit : Nat := 0x7FFFFFFFFFFFFFFF

/-- The default settings; the growth factor is 1.618. -/
def standard : Config where
  fileMode := 0o664
  dirMode := 0o775
  initialCapacity := 0
  growthFactor := ⟨0x3FF9E353F7CED917⟩
  maxContentLen := contentLimit
  pathPolicy := .permissive

/-- The growth factor is finite and above one. -/
def grows (config : Config) : Bool :=
  config.growthFactor.isFinite && decide ((1 : Float) < config.growthFactor.toFloat)

/-- Checks the growth factor, then the bound on the content, then the first buffer against it. -/
def validate (config : Config) : Except FsError Unit :=
  if !config.grows then
    .error (.invalidInput
      ("growth_factor must be greater than 1.0, got " ++ Number.text config.growthFactor))
  else if config.maxContentLen = 0 ∨ contentLimit < config.maxContentLen then
    .error (.invalidInput
      ("max_content_len must be in 1..=" ++ toString contentLimit ++ ", got " ++
        toString config.maxContentLen))
  else if config.maxContentLen < config.initialCapacity then
    .error (.invalidInput
      ("initial_capacity " ++ toString config.initialCapacity ++ " exceeds max_content_len " ++
        toString config.maxContentLen))
  else .ok ()

/-- Every setting is usable. -/
def Valid (config : Config) : Prop :=
  config.grows = true ∧ 0 < config.maxContentLen ∧ config.maxContentLen ≤ contentLimit ∧
    config.initialCapacity ≤ config.maxContentLen

theorem validate_eq_ok_iff {config : Config} : config.validate = .ok () ↔ config.Valid := by
  unfold validate Valid
  split
  · simp_all
  · split
    · simp_all
      omega
    · split
      · simp_all
      · simp_all
        omega

theorem standard_valid : standard.Valid := by
  refine ⟨by decide +kernel, ?_⟩
  decide

end Config

end VirtualFs
