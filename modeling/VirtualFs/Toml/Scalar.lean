import VirtualFs.Number.Binary64

namespace VirtualFs.Toml

/-- A space or a tab. -/
def isSpace (c : Char) : Bool :=
  c == ' ' || c == '\t'

/-- The characters without the spaces and tabs at their start. -/
def skipSpace (cs : List Char) : List Char :=
  cs.dropWhile isSpace

/-- The characters after a line end, if there is one here. -/
def newline? : List Char → Option (List Char)
  | '\n' :: cs => some cs
  | '\r' :: '\n' :: cs => some cs
  | _ => none

/-- A character outside ASCII. -/
def isWide (c : Char) : Bool :=
  0x80 ≤ c.toNat

/-- A character that a comment or a quoted text may hold as it is: no control but the tab. -/
def isPlain (c : Char) : Bool :=
  c == '\t' || (0x20 ≤ c.toNat && c.toNat ≤ 0x7E) || isWide c

/-- The characters after a comment, if one starts here; a comment ends before the line end. -/
def skipComment : List Char → List Char
  | '#' :: cs => cs.dropWhile isPlain
  | cs => cs

/-- A decimal digit. -/
def isDigit (c : Char) : Bool :=
  '0' ≤ c && c ≤ '9'

/-- The value of a digit in any base up to sixteen, in either case. -/
def digitValue? (c : Char) : Option Nat :=
  if isDigit c then some (c.toNat - 48)
  else if 'a' ≤ c ∧ c ≤ 'f' then some (c.toNat - 87)
  else if 'A' ≤ c ∧ c ≤ 'F' then some (c.toNat - 55)
  else none

/-- A character of an unquoted key. -/
def isBare (c : Char) : Bool :=
  ('a' ≤ c && c ≤ 'z') || ('A' ≤ c && c ≤ 'Z') || isDigit c || c == '_' || c == '-'

/-- The number written by the digits, the first one the highest. -/
def ofDigits (base : Nat) (digits : List Char) : Nat :=
  digits.foldl (fun n c => n * base + (digitValue? c).getD 0) 0

/-- Exactly `n` decimal digits. -/
def digits? (n : Nat) (cs : List Char) : Option (Nat × List Char) :=
  let front := cs.take n
  if front.length = n && front.all isDigit then some (ofDigits 10 front, cs.drop n) else none

/-- The text of the character that `n` hexadecimal digits name. Surrogates name none. -/
def hexChar? (n : Nat) (cs : List Char) : Option (Char × List Char) :=
  let front := cs.take n
  if front.length = n && front.all (fun c => (digitValue? c).isSome) then
    let code := ofDigits 16 front
    if h : code.isValidChar then some (Char.ofNatAux code h, cs.drop n) else none
  else none

/-- The character of an escape, the backslash already taken. -/
def escape? : List Char → Option (Char × List Char)
  | 'b' :: cs => some (Char.ofNat 8, cs)
  | 't' :: cs => some ('\t', cs)
  | 'n' :: cs => some ('\n', cs)
  | 'f' :: cs => some (Char.ofNat 12, cs)
  | 'r' :: cs => some ('\r', cs)
  | '"' :: cs => some ('"', cs)
  | '\\' :: cs => some ('\\', cs)
  | 'u' :: cs => hexChar? 4 cs
  | 'U' :: cs => hexChar? 8 cs
  | _ => none

/-- The rest of a text in double quotes, on one line. `fuel` bounds the number of characters. -/
def basicBody (fuel : Nat) (cs : List Char) (taken : List Char) : Option (String × List Char) :=
  match fuel, cs with
  | _, '"' :: rest => some (String.ofList taken.reverse, rest)
  | fuel + 1, '\\' :: rest => do
    let (c, rest) ← escape? rest
    basicBody fuel rest (c :: taken)
  | fuel + 1, c :: rest => if isPlain c then basicBody fuel rest (c :: taken) else none
  | _, _ => none

/-- The rest of a text in single quotes, on one line. -/
def literalBody (cs : List Char) : Option (String × List Char) :=
  match cs.span fun c => isPlain c && c != '\'' with
  | (front, '\'' :: rest) => some (String.ofList front, rest)
  | _ => none

/-- The characters after the spaces, tabs and line ends. -/
def skipSpaceLines (fuel : Nat) (cs : List Char) : List Char :=
  match fuel with
  | 0 => cs
  | fuel + 1 =>
    match newline? (skipSpace cs) with
    | some rest => skipSpaceLines fuel rest
    | none => skipSpace cs

/-- The rest of a text between triple quotes `q`. A run of three to five quotes closes it, the
first two of a longer run belonging to the text. Escapes count only where `escapes` is set; there
a backslash before a line end takes away the blanks after it. -/
def longBody (q : Char) (escapes : Bool) (fuel : Nat) (cs : List Char) (taken : List Char) :
    Option (String × List Char) :=
  match fuel with
  | 0 => none
  | fuel + 1 =>
    match cs with
    | [] => none
    | c :: rest =>
      if c = q then
        let run := (cs.takeWhile (· == q)).length
        if 3 ≤ run then
          let kept := min (run - 3) 2
          some (String.ofList (List.replicate kept q ++ taken).reverse, cs.drop (kept + 3))
        else longBody q escapes fuel (cs.drop run) (List.replicate run q ++ taken)
      else if escapes && c = '\\' then
        match newline? (skipSpace rest) with
        | some after => longBody q escapes fuel (skipSpaceLines after.length.succ after) taken
        | none =>
          match escape? rest with
          | some (e, after) => longBody q escapes fuel after (e :: taken)
          | none => none
      else
        match newline? cs with
        | some after => longBody q escapes fuel after ('\n' :: taken)
        | none => if isPlain c then longBody q escapes fuel rest (c :: taken) else none

/-- The characters without one line end at their start. -/
def dropNewline (cs : List Char) : List Char :=
  (newline? cs).getD cs

/-- A quoted text of any of the four kinds. -/
def quoted? (cs : List Char) : Option (String × List Char) :=
  match cs with
  | '"' :: '"' :: '"' :: rest => longBody '"' true cs.length (dropNewline rest) []
  | '\'' :: '\'' :: '\'' :: rest => longBody '\'' false cs.length (dropNewline rest) []
  | '"' :: rest => basicBody cs.length rest []
  | '\'' :: rest => literalBody rest
  | _ => none

/-- The digits from here on, single underscores between them left out. -/
def moreDigits (isOne : Char → Bool) : List Char → List Char × List Char
  | '_' :: c :: cs =>
    if isOne c then
      let (ds, rest) := moreDigits isOne cs
      (c :: ds, rest)
    else ([], '_' :: c :: cs)
  | c :: cs =>
    if isOne c then
      let (ds, rest) := moreDigits isOne cs
      (c :: ds, rest)
    else ([], c :: cs)
  | [] => ([], [])

/-- At least one digit, with single underscores between digits. -/
def digitRun? (isOne : Char → Bool) : List Char → Option (List Char × List Char)
  | c :: cs =>
    if isOne c then
      let (ds, rest) := moreDigits isOne cs
      some (c :: ds, rest)
    else none
  | [] => none

/-- A sign, `true` for minus, and the characters after it. -/
def sign : List Char → Bool × List Char
  | '-' :: cs => (true, cs)
  | '+' :: cs => (false, cs)
  | cs => (false, cs)

/-- The digits of a decimal whole number: a zero alone, or digits that do not start with zero. -/
def wholeDigits? : List Char → Option (List Char × List Char)
  | '0' :: cs => some (['0'], cs)
  | cs => digitRun? isDigit cs

/-- The value of a number in the range of signed 64-bit words. -/
def word? (negative : Bool) (n : Nat) : Option Int :=
  let value : Int := if negative then -n else n
  if -0x8000000000000000 ≤ value ∧ value < 0x8000000000000000 then some value else none

/-- A whole number in base sixteen, eight or two, without a sign, or in base ten. -/
def integer? (cs : List Char) : Option (Int × List Char) :=
  let based (base : Nat) (rest : List Char) : Option (Int × List Char) := do
    let (ds, rest) ← digitRun? (fun c => (digitValue? c).any (· < base)) rest
    let value ← word? false (ofDigits base ds)
    return (value, rest)
  match cs with
  | '0' :: 'x' :: rest => based 16 rest
  | '0' :: 'o' :: rest => based 8 rest
  | '0' :: 'b' :: rest => based 2 rest
  | _ => do
    let (negative, rest) := sign cs
    let (ds, rest) ← wholeDigits? rest
    let value ← word? negative (ofDigits 10 ds)
    return (value, rest)

/-- The double nearest to `n * 10 ^ exponent`. Exponents far beyond the range are cut off first. -/
def nearestDouble (digits : List Char) (exponent : Int) : Float :=
  let n := ofDigits 10 digits
  let magnitude := exponent + digits.length
  if n = 0 ∨ magnitude < -400 then 0
  else if 0 ≤ exponent then
    if 400 < exponent then Float.ofBits 0x7FF0000000000000
    else Float.ofScientific n false exponent.toNat
  else Float.ofScientific n true (-exponent).toNat

/-- The part after the letter of an exponent. -/
def exponent? (cs : List Char) : Option (Int × List Char) := do
  let (negative, rest) := sign cs
  let (ds, rest) ← digitRun? isDigit rest
  let n : Int := ofDigits 10 ds
  return (if negative then -n else n, rest)

/-- The exponent if there is one here, and zero otherwise. A letter without digits is refused. -/
def exponentOrZero? (cs : List Char) : Option (Int × List Char) :=
  match cs with
  | c :: rest => if c = 'e' ∨ c = 'E' then exponent? rest else some (0, cs)
  | [] => some (0, cs)

/-- The value of a number in digits. One that rounds to positive infinity is refused. -/
def double? (negative : Bool) (digits : List Char) (exponent : Int) : Option Float :=
  let value := nearestDouble digits exponent
  if negative then some (-value)
  else if value.isInf then none
  else some value

/-- A double: digits with a fraction or an exponent, an infinity or a NaN. -/
def float? (cs : List Char) : Option (Binary64 × List Char) :=
  let (negative, unsigned) := sign cs
  match unsigned with
  | 'i' :: 'n' :: 'f' :: rest =>
    some (⟨if negative then 0xFFF0000000000000 else 0x7FF0000000000000⟩, rest)
  | 'n' :: 'a' :: 'n' :: rest =>
    some (⟨if negative then 0xFFF8000000000000 else 0x7FF8000000000000⟩, rest)
  | _ => do
    let (whole, rest) ← wholeDigits? unsigned
    match rest with
    | '.' :: rest =>
      let (fraction, rest) ← digitRun? isDigit rest
      let (exponent, rest) ← exponentOrZero? rest
      let value ← double? negative (whole ++ fraction) (exponent - fraction.length)
      return (.ofFloat value, rest)
    | c :: rest =>
      if c = 'e' ∨ c = 'E' then
        let (exponent, rest) ← exponent? rest
        let value ← double? negative whole exponent
        return (.ofFloat value, rest)
      else none
    | [] => none

/-- A number of exactly `n` digits within bounds. -/
def bounded? (n low high : Nat) (cs : List Char) : Option (Nat × List Char) := do
  let (value, rest) ← digits? n cs
  if low ≤ value ∧ value ≤ high then some (value, rest) else none

/-- The characters after the character `c`, if it is here. -/
def char? (c : Char) : List Char → Option (List Char)
  | d :: cs => if d = c then some cs else none
  | [] => none

/-- The number of days of a month of the common calendar. -/
def daysIn (year month : Nat) : Nat :=
  if month = 2 then
    if year % 4 = 0 ∧ (year % 100 ≠ 0 ∨ year % 400 = 0) then 29 else 28
  else if month = 4 ∨ month = 6 ∨ month = 9 ∨ month = 11 then 30
  else 31

/-- A date; only the characters after it are of use. -/
def date? (cs : List Char) : Option (List Char) := do
  let (year, rest) ← digits? 4 cs
  let rest ← char? '-' rest
  let (month, rest) ← bounded? 2 1 12 rest
  let rest ← char? '-' rest
  let (_, rest) ← bounded? 2 1 (daysIn year month) rest
  return rest

/-- A time of day, with fractions of a second or without. -/
def timeOfDay? (cs : List Char) : Option (List Char) := do
  let (_, rest) ← bounded? 2 0 23 cs
  let rest ← char? ':' rest
  let (_, rest) ← bounded? 2 0 59 rest
  let rest ← char? ':' rest
  let (_, rest) ← bounded? 2 0 60 rest
  match rest with
  | '.' :: d :: after => if isDigit d then return after.dropWhile isDigit else return rest
  | _ => return rest

/-- The characters after an offset from universal time, if one is here. -/
def skipOffset (cs : List Char) : List Char :=
  match cs with
  | 'Z' :: rest => rest
  | 'z' :: rest => rest
  | c :: rest =>
    if c = '+' ∨ c = '-' then
      let after : Option (List Char) := do
        let (_, rest) ← bounded? 2 0 23 rest
        let rest ← char? ':' rest
        let (_, rest) ← bounded? 2 0 59 rest
        return rest
      after.getD cs
    else cs
  | [] => []

/-- A date, a time of day, or a date with a time of day and perhaps an offset. -/
def datetime? (cs : List Char) : Option (List Char) :=
  match date? cs with
  | some rest =>
    match rest with
    | c :: after =>
      if c = 'T' ∨ c = 't' ∨ c = ' ' then
        match timeOfDay? after with
        | some after => some (skipOffset after)
        | none => some rest
      else some rest
    | [] => some rest
  | none => timeOfDay? cs

end VirtualFs.Toml
