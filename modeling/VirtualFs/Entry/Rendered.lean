import VirtualFs.Entry
import VirtualFs.Json

namespace VirtualFs.Entry

/-- The members of the JSON object of an entry, in the order in which they are written. -/
def members (entry : Entry) : Except String (List (String × Json)) := do
  let ctime ← Json.ofTime entry.attrs.ctime
  let mtime ← Json.ofTime entry.attrs.mtime
  return [
    ("name", .str entry.name),
    ("dir", .str entry.dir),
    ("is_dir", .bool entry.isDir),
    ("mode_string", .str entry.mode.text),
    ("path", .str entry.path),
    ("ctime", ctime),
    ("mtime", mtime),
    ("size", .num entry.attrs.size),
    ("mode", .num entry.mode.bits.toNat),
    ("uid", .num entry.attrs.uid),
    ("gid", .num entry.attrs.gid),
    ("owner", .str entry.attrs.owner),
    ("group", .str entry.attrs.group),
    ("inode", .num entry.attrs.inode),
    ("mime_type", .str entry.attrs.mimeType)]

/-- The entry as a JSON object. -/
def toObject (entry : Entry) : Except FsError Json :=
  match entry.members with
  | .ok members => .ok (.object members)
  | .error reason => .error (.other reason)

/-- The entry as indented JSON text. -/
def toText (entry : Entry) : Except FsError String :=
  entry.toObject.map (Json.pretty 0)

end VirtualFs.Entry
