import VirtualFs.Toml.Scalar

/-!
TOML values and tables, and the rules by which statements build them up: no key is given twice, a
table is headed once, and dotted keys extend only tables that dotted keys made.
-/

namespace VirtualFs.Toml

/-- How a table came to be. -/
inductive Origin where
  /-- By a header of its own, or it is the root or written in braces. -/
  | header
  /-- As a parent in the header of another table. -/
  | implied
  /-- As a parent in a dotted key. -/
  | dotted
  deriving Repr, DecidableEq

/-- A TOML value. Dates are told apart from other values and not looked into. -/
inductive Value where
  | text (s : String)
  | integer (n : Int)
  | float (x : Binary64)
  | boolean (b : Bool)
  | datetime
  | array (items : List Value)
  /-- A table written in braces; nothing is added to it later. -/
  | braces (origin : Origin) (members : List (String × Value))
  /-- A table built up by statements. -/
  | table (origin : Origin) (members : List (String × Value))
  /-- Tables under one repeated header, the last one first. -/
  | tables (elements : List (List (String × Value)))

/-- The members of a table. -/
abbrev Members := List (String × Value)

namespace Members

/-- The member with its value replaced, or added at the end. -/
def put (key : String) (value : Value) : Members → Members
  | [] => [(key, value)]
  | (k, v) :: rest => if k = key then (k, value) :: rest else (k, v) :: put key value rest

/-- The members without the one of this key. -/
def remove (key : String) (members : Members) : Members :=
  members.filter (·.1 != key)

/-- The value of a table made on the way, written in braces or built up by statements. -/
def toValue (inBraces : Bool) (origin : Origin) (members : Members) : Value :=
  if inBraces then .braces origin members else .table origin members

/-- Does `action` to the table at `path`, making the tables on the way with the origin `fresh`.
With dotted keys the tables on the way must not have headers of their own. Tables in braces are
closed to everything outside them. -/
def update (inBraces : Bool) (fresh : Origin) (action : Origin → Members → Option Members) :
    List String → Origin → Members → Option Members
  | [], origin, members => action origin members
  | key :: path, _, members =>
    match members.lookup key with
    | none => do
      let inner ← update inBraces fresh action path fresh []
      return put key (toValue inBraces fresh inner) members
    | some (.table origin inner) =>
      if fresh = .dotted ∧ origin = .header then none
      else do
        let inner ← update inBraces fresh action path origin inner
        return put key (.table origin inner) members
    | some (.braces origin inner) =>
      if !inBraces || origin == .header then none
      else do
        let inner ← update inBraces fresh action path origin inner
        return put key (.braces origin inner) members
    | some (.tables (last :: others)) => do
      let last ← update inBraces fresh action path .header last
      return put key (.tables (last :: others)) members
    | some _ => none

/-- Adds a member that is not there yet. The table must be one that this kind of key may extend:
a dotted key ends in a table made by dotted keys, a plain one in any other. -/
def addNew (plain : Bool) (key : String) (value : Value) (origin : Origin) (members : Members) :
    Option Members :=
  if plain = (origin == .dotted) then none
  else if (members.lookup key).isSome then none
  else some (put key value members)

/-- Adds the value of a key, whose last segment is `key`. -/
def assign (inBraces : Bool) (path : List String) (key : String) (value : Value)
    (members : Members) : Option Members :=
  update inBraces .dotted (addNew path.isEmpty key value) path .header members

/-- The members of the table in braces with these pairs. -/
def ofPairs (pairs : List (List String × String × Value)) : Option Members :=
  pairs.foldlM (fun members (path, key, value) => assign true path key value members) []

end Members

/-- A statement of a document, keys cut into their path and their last segment. -/
inductive Statement where
  | pair (path : List String) (key : String) (value : Value)
  | header (path : List String) (key : String)
  | arrayHeader (path : List String) (key : String)

/-- A document under construction: all finished tables, and the table that pairs now go to. -/
structure Draft where
  root : Members
  /-- The place of the open table, none for the root, and whether it is one of an array. -/
  place : Option (List String × String × Bool)
  current : Members

namespace Draft

def empty : Draft :=
  ⟨[], none, []⟩

/-- Puts the open table into its place. -/
def finish (draft : Draft) : Option Members :=
  match draft.place with
  | none => some draft.current
  | some (path, key, true) =>
    Members.update false .implied (fun _ members =>
      match members.lookup key with
      | none => some (members.put key (.tables [draft.current]))
      | some (.tables elements) => some (members.put key (.tables (draft.current :: elements)))
      | some _ => none) path .header draft.root
  | some (path, key, false) =>
    Members.update false .implied (fun _ members =>
      match members.lookup key with
      | none => some (members.put key (.table .header draft.current))
      | some _ => none) path .header draft.root

/-- The value at a key below a path, if all tables on the way are there. -/
def find? (members : Members) : List String → String → Option Value
  | [], key => members.lookup key
  | step :: path, key =>
    match members.lookup step with
    | some (.table _ inner) => find? inner path key
    | some (.tables (last :: _)) => find? last path key
    | _ => none

/-- Opens the table of a header. A table that so far was only implied is taken over with its
members; any other value at the place refuses the header. -/
def openTable (root : Members) (path : List String) (key : String) : Option Draft := do
  let without ← Members.update false .implied (fun _ members => some (members.remove key))
    path .header root
  match find? root path key with
  | none => some ⟨without, some (path, key, false), []⟩
  | some (.table .implied members) => some ⟨without, some (path, key, false), members⟩
  | some _ => none

/-- Opens one more table under a repeated header. -/
def openArrayTable (root : Members) (path : List String) (key : String) : Option Draft := do
  let root ← Members.update false .implied (fun _ members => some members) path .header root
  match find? root path key with
  | none => some ⟨root, some (path, key, true), []⟩
  | some (.tables _) => some ⟨root, some (path, key, true), []⟩
  | some _ => none

/-- One statement. -/
def step (draft : Draft) : Statement → Option Draft
  | .pair path key value => do
    let current ← Members.assign false path key value draft.current
    return { draft with current := current }
  | .header path key => do openTable (← draft.finish) path key
  | .arrayHeader path key => do openArrayTable (← draft.finish) path key

end Draft

/-- The root table of a document. -/
def Members.ofStatements (statements : List Statement) : Option Members := do
  let draft ← statements.foldlM Draft.step .empty
  draft.finish

end VirtualFs.Toml
