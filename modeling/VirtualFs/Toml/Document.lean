import VirtualFs.Toml.Table

namespace VirtualFs.Toml

/-- Arrays and tables in braces may be nested less deep than this, and a key may have less
segments. -/
def depthLimit : Nat := 80

/-- A line end is here, or the text is over. -/
def lineEnd? : List Char → Option (List Char)
  | [] => some []
  | cs => newline? cs

/-- Spaces, a comment perhaps, and a line end. -/
def restOfLine? (cs : List Char) : Option (List Char) :=
  lineEnd? (skipComment (skipSpace cs))

/-- One segment of a key. -/
def segment? (cs : List Char) : Option (String × List Char) :=
  match cs with
  | '"' :: rest => basicBody cs.length rest []
  | '\'' :: rest => literalBody rest
  | _ =>
    match cs.span isBare with
    | ([], _) => none
    | (front, rest) => some (String.ofList front, rest)

/-- The segments of a key, the spaces around them taken too. `fuel` bounds their number. -/
def segments? (fuel : Nat) (cs : List Char) : Option (List String × List Char) :=
  match fuel with
  | 0 => none
  | fuel + 1 => do
    let (first, rest) ← segment? (skipSpace cs)
    match skipSpace rest with
    | '.' :: rest =>
      let (others, rest) ← segments? fuel rest
      return (first :: others, rest)
    | rest => return ([first], rest)

/-- A key, cut into its path and its last segment. -/
def key? (cs : List Char) : Option ((List String × String) × List Char) := do
  let (all, rest) ← segments? (depthLimit - 1) cs
  let last ← all.getLast?
  return ((all.dropLast, last), rest)

/-- The characters after the blanks, line ends and comments. -/
def skipFiller (fuel : Nat) (cs : List Char) : List Char :=
  match fuel with
  | 0 => cs
  | fuel + 1 =>
    match newline? (skipComment (skipSpace cs)) with
    | some rest => skipFiller fuel rest
    | none => skipSpace cs

/-- A scalar that starts like a number. -/
def numeric? (cs : List Char) : Option (Value × List Char) :=
  match datetime? cs with
  | some rest => some (.datetime, rest)
  | none =>
    match float? cs with
    | some (x, rest) => some (.float x, rest)
    | none => (integer? cs).map fun (n, rest) => (.integer n, rest)

/-- A value that holds no other values. -/
def scalar? (cs : List Char) : Option (Value × List Char) :=
  match cs with
  | 't' :: 'r' :: 'u' :: 'e' :: rest => some (.boolean true, rest)
  | 'f' :: 'a' :: 'l' :: 's' :: 'e' :: rest => some (.boolean false, rest)
  | '"' :: _ => (quoted? cs).map fun (s, rest) => (.text s, rest)
  | '\'' :: _ => (quoted? cs).map fun (s, rest) => (.text s, rest)
  | 'i' :: _ => (float? cs).map fun (x, rest) => (.float x, rest)
  | 'n' :: _ => (float? cs).map fun (x, rest) => (.float x, rest)
  | c :: _ => if isDigit c || c == '+' || c == '-' then numeric? cs else none
  | [] => none

mutual

/-- A value. `fuel` bounds the number of steps and `depth` the nesting. -/
def value? (fuel depth : Nat) (cs : List Char) : Option (Value × List Char) :=
  match fuel with
  | 0 => none
  | fuel + 1 =>
    match cs with
    | '[' :: rest =>
      match depth with
      | 0 => none
      | depth + 1 => do
        let (items, rest) ← items? fuel depth rest
        return (.array items, rest)
    | '\x7b' :: rest =>
      match depth with
      | 0 => none
      | depth + 1 => do
        let (pairs, rest) ← pairs? fuel depth rest
        let members ← Members.ofPairs pairs
        return (.braces .header members, rest)
    | _ => scalar? cs

/-- The items of an array up to its closing bracket. A comma may follow the last one. -/
def items? (fuel depth : Nat) (cs : List Char) : Option (List Value × List Char) :=
  match fuel with
  | 0 => none
  | fuel + 1 =>
    match skipFiller (cs.length + 1) cs with
    | ']' :: rest => some ([], rest)
    | cs => do
      let (first, rest) ← value? fuel depth cs
      match skipFiller (rest.length + 1) rest with
      | ']' :: rest => return ([first], rest)
      | ',' :: rest =>
        let (others, rest) ← items? fuel depth rest
        return (first :: others, rest)
      | _ => none

/-- The pairs of a table in braces up to the closing one. -/
def pairs? (fuel depth : Nat) (cs : List Char) :
    Option (List (List String × String × Value) × List Char) :=
  match fuel with
  | 0 => none
  | fuel + 1 =>
    match skipSpace cs with
    | '\x7d' :: rest => some ([], rest)
    | cs => morePairs? fuel depth cs

/-- At least one pair, and then all up to the closing brace. -/
def morePairs? (fuel depth : Nat) (cs : List Char) :
    Option (List (List String × String × Value) × List Char) :=
  match fuel with
  | 0 => none
  | fuel + 1 => do
    let ((path, key), rest) ← key? cs
    let rest ← char? '=' rest
    let (value, rest) ← value? fuel depth (skipSpace rest)
    match skipSpace rest with
    | '\x7d' :: rest => return ([(path, key, value)], rest)
    | ',' :: rest =>
      let (others, rest) ← morePairs? fuel depth rest
      return ((path, key, value) :: others, rest)
    | _ => none

end

/-- Enough steps for any value in `cs`: each one takes a character or is the last at its place. -/
def enoughFuel (cs : List Char) : Nat :=
  4 * cs.length + 4

/-- One statement with the rest of its line. -/
def statement? (cs : List Char) : Option (Statement × List Char) :=
  match cs with
  | '[' :: '[' :: rest => do
    let ((path, key), rest) ← key? rest
    let rest ← char? ']' rest
    let rest ← char? ']' rest
    let rest ← restOfLine? rest
    return (.arrayHeader path key, rest)
  | '[' :: rest => do
    let ((path, key), rest) ← key? rest
    let rest ← char? ']' rest
    let rest ← restOfLine? rest
    return (.header path key, rest)
  | _ => do
    let ((path, key), rest) ← key? cs
    let rest ← char? '=' rest
    let rest := skipSpace rest
    let (value, rest) ← value? (enoughFuel rest) (depthLimit - 1) rest
    let rest ← restOfLine? rest
    return (.pair path key value, rest)

/-- All statements up to the end of the text. `fuel` bounds the number of lines. -/
def statements? (fuel : Nat) (cs : List Char) : Option (List Statement) :=
  match fuel with
  | 0 => none
  | fuel + 1 =>
    match skipSpace cs with
    | [] => some []
    | c :: rest =>
      if c = '#' ∨ c = '\n' ∨ c = '\r' then do
        let rest ← restOfLine? (c :: rest)
        statements? fuel rest
      else do
        let (first, rest) ← statement? (c :: rest)
        let others ← statements? fuel rest
        return first :: others

/-- The root table of a document; a byte order mark at its start is skipped. -/
def parse (text : String) : Option Members := do
  let cs := text.toList
  let cs := if cs.head? = some (Char.ofNat 0xFEFF) then cs.tail else cs
  let statements ← statements? (cs.length + 1) cs
  Members.ofStatements statements

end VirtualFs.Toml
