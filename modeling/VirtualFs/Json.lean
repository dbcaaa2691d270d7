import VirtualFs.Time

namespace VirtualFs

/-- A JSON value; the members of an object keep their order. -/
inductive Json where
  | num (n : Int)
  | bool (b : Bool)
  | str (s : String)
  | object (members : List (String × Json))

namespace Json

/-- One hexadecimal digit, in lower case. -/
def hexDigit (n : Nat) : Char :=
  if n < 10 then Char.ofNat (48 + n) else Char.ofNat (87 + n)

/-- A character inside a quoted text: the quote, the backslash and the controls below U+0020 are
escaped, everything else stands for itself. -/
def escape (c : Char) : List Char :=
  if c = '"' then ['\\', '"']
  else if c = '\\' then ['\\', '\\']
  else if c.toNat = 0x08 then ['\\', 'b']
  else if c.toNat = 0x09 then ['\\', 't']
  else if c.toNat = 0x0A then ['\\', 'n']
  else if c.toNat = 0x0C then ['\\', 'f']
  else if c.toNat = 0x0D then ['\\', 'r']
  else if c.toNat < 0x20 then
    ['\\', 'u', '0', '0', hexDigit (c.toNat / 16), hexDigit (c.toNat % 16)]
  else [c]

/-- The text in quotes. -/
def quote (s : String) : String :=
  "\"" ++ String.ofList (s.toList.flatMap escape) ++ "\""

/-- The start of a line at the given depth. -/
def indent (depth : Nat) : String :=
  String.ofList ('\n' :: List.replicate (2 * depth) ' ')

mutual

/-- The text with one member a line, two spaces deeper at each level. -/
def pretty (depth : Nat) : Json → String
  | num n => toString n
  | bool b => if b then "true" else "false"
  | str s => quote s
  | object [] => "\x7b\x7d"
  | object (m :: ms) =>
    "\x7b" ++ indent (depth + 1) ++ prettyMember depth m ++ prettyMembers depth ms ++
      indent depth ++ "\x7d"

/-- One member of an object whose braces stand at `depth`. -/
def prettyMember (depth : Nat) : String × Json → String
  | (key, value) => quote key ++ ": " ++ pretty (depth + 1) value

/-- The members after the first. -/
def prettyMembers (depth : Nat) : List (String × Json) → String
  | [] => ""
  | m :: ms => "," ++ indent (depth + 1) ++ prettyMember depth m ++ prettyMembers depth ms

end

/-- Why a time before the epoch has no JSON form. -/
def beforeEpoch : String :=
  "SystemTime must be later than UNIX_EPOCH"

/-- A time as whole seconds and nanoseconds since the epoch. Times before it have no form. -/
def ofTime (t : Time) : Except String Json :=
  if t < 0 then .error beforeEpoch
  else .ok (object [("secs_since_epoch", num t.seconds), ("nanos_since_epoch", num t.nanos)])

end Json

end VirtualFs
