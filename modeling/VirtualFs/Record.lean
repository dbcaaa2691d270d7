import VirtualFs.Entry
import VirtualFs.Json

namespace VirtualFs

/-- The text splits at slashes and at every character of `sep`. -/
def splitsAt (sep : String) (c : Char) : Bool :=
  c == '/' || sep.toList.contains c

/-- One segment on top of the segments so far, the last one first: `".."` takes one away, empty
segments and `"."` count for nothing. -/
def pushSegment (stack : List (List Char)) (segment : List Char) : List (List Char) :=
  if segment = [] ∨ segment = ['.'] then stack
  else if segment = ['.', '.'] then stack.drop 1
  else segment :: stack

/-- A path starts with the separator `sep` or a slash. -/
def startsAbsolute (sep path : String) : Bool :=
  sep.toList.isPrefixOf path.toList || ['/'].isPrefixOf path.toList

/-- The parts joined by `sep` and freed of empty segments, `"."` and `".."`. The result is absolute
if the first part that is not empty is. -/
def joinClean (sep : String) (parts : List String) : String :=
  let absolute :=
    match parts.find? (· != "") with
    | some first => startsAbsolute sep first
    | none => false
  let segments := (parts.flatMap fun part => Text.pieces (splitsAt sep) part.toList)
  let joined := String.intercalate sep ((segments.foldl pushSegment []).reverse.map String.ofList)
  if absolute then sep ++ joined
  else if joined = "" then "."
  else joined

/-- A number as text, nothing for zero. -/
def idText (id : Nat) : String :=
  if id = 0 then "" else toString id

/-- The description of one entry. Numbers are texts, empty when zero. -/
structure FileRecord where
  ctime : Time
  mtime : Time
  /-- Absolute path of the parent. -/
  directory : String
  name : String
  /-- Absolute path. -/
  path : String
  inode : String
  mode : String
  owner : String
  uid : String
  gid : String
  /-- Of regular files with a known type. -/
  mimeType : Option String
  /-- Of regular files. -/
  size : Option Nat
  deriving Repr, DecidableEq

namespace FileRecord

/-- The record of an entry of the filesystem at `root` that writes paths with `sep`. -/
def ofEntry (root sep : String) (entry : Entry) : FileRecord where
  ctime := entry.attrs.ctime
  mtime := entry.attrs.mtime
  directory := joinClean sep [root, entry.dir]
  name := entry.name
  path := joinClean sep [root, entry.path]
  inode := idText entry.attrs.inode
  mode := idText entry.mode.bits.toNat
  owner := entry.attrs.owner
  uid := idText entry.attrs.uid
  gid := idText entry.attrs.gid
  mimeType :=
    if !entry.isDir && entry.attrs.mimeType != "" then some entry.attrs.mimeType else none
  size := if entry.isDir then none else some entry.size

/-- The members of the JSON object of a record; what is unknown is left out. -/
def members (record : FileRecord) : Except String (List (String × Json)) := do
  let ctime ← Json.ofTime record.ctime
  let mtime ← Json.ofTime record.mtime
  return [
    ("ctime", ctime),
    ("mtime", mtime),
    ("directory", .str record.directory),
    ("name", .str record.name),
    ("path", .str record.path),
    ("inode", .str record.inode),
    ("mode", .str record.mode),
    ("owner", .str record.owner),
    ("uid", .str record.uid),
    ("gid", .str record.gid)] ++
    (record.mimeType.map fun t => ("mime_type", Json.str t)).toList ++
    (record.size.map fun n => ("size", Json.num n)).toList

end FileRecord

end VirtualFs
