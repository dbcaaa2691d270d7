/-!
Shell patterns and their reader. `?` is any character, `*` any run of them, `**` any number of
whole path components, and brackets list characters and ranges.
-/

namespace VirtualFs.Glob

/-- What stands between brackets: characters and ranges of them. -/
inductive CharClass where
  | single (c : Char)
  | range (low high : Char)
  deriving Repr, DecidableEq

/-- One element of a pattern. -/
inductive Token where
  /-- The character itself. -/
  | char (c : Char)
  /-- `?` -/
  | anyChar
  /-- `*` -/
  | anySequence
  /-- `**`, with the separator after it. -/
  | anyComponents
  /-- One of the characters listed. -/
  | within (classes : List CharClass)
  /-- None of the characters listed. -/
  | without (classes : List CharClass)
  deriving Repr, DecidableEq

/-- What can be wrong with a pattern. -/
inductive PatternFault where
  | wildcards
  | recursiveWildcards
  | invalidRange
  deriving Repr, DecidableEq

/-- A fault and the number of characters before it. -/
structure PatternError where
  position : Nat
  fault : PatternFault
  deriving Repr, DecidableEq

def PatternFault.text : PatternFault → String
  | .wildcards => "wildcards are either regular `*` or recursive `**`"
  | .recursiveWildcards => "recursive wildcards must form a single path component"
  | .invalidRange => "invalid range pattern"

def PatternError.message (e : PatternError) : String :=
  "Pattern syntax error near position " ++ toString e.position ++ ": " ++ e.fault.text

/-- The classes between brackets. A dash between two characters makes a range; the third of three
is taken whatever it is. -/
def classes : List Char → List CharClass
  | low :: '-' :: high :: cs => .range low high :: classes cs
  | c :: cs => .single c :: classes cs
  | [] => []

/-- The pieces of a bracket expression: its classes, whether they are excluded, and the characters
after the closing bracket. The first character listed may itself be a closing bracket. -/
structure Bracket where
  classes : List CharClass
  negated : Bool
  rest : List Char

/-- Reads a bracket expression, the opening bracket already taken. -/
def bracket? (cs : List Char) : Option Bracket :=
  match cs with
  | '!' :: first :: rest =>
    match rest.span (· != ']') with
    | (others, ']' :: rest) => some ⟨classes (first :: others), true, rest⟩
    | _ => none
  | '!' :: [] => none
  | first :: rest =>
    match rest.span (· != ']') with
    | (others, ']' :: rest) => some ⟨classes (first :: others), false, rest⟩
    | _ => none
  | [] => none

/-- Adds `**` to the tokens read so far, the last one first. Directly after another it adds
nothing, unless that one opens the pattern. -/
def addComponents (tokens : List Token) : List Token :=
  match tokens with
  | .anyComponents :: _ :: _ => tokens
  | _ => .anyComponents :: tokens

/-- Reads a pattern. `before` is the character before `cs`, `position` the number of characters
read and `tokens` what they came to, the last one first; `fuel` bounds the characters. -/
def tokenize (fuel : Nat) (before : Option Char) (position : Nat) (tokens : List Token)
    (cs : List Char) : Except PatternError (List Token) :=
  match fuel, cs with
  | _, [] => .ok tokens.reverse
  | 0, _ => .ok tokens.reverse
  | fuel + 1, c :: rest =>
    if c = '?' then tokenize fuel (some c) (position + 1) (.anyChar :: tokens) rest
    else if c = '*' then
      let run := (cs.takeWhile (· == '*')).length
      if 2 < run then .error ⟨position + 2, .wildcards⟩
      else if run = 2 then
        if before = none ∨ before = some '/' then
          match cs.drop 2 with
          | [] => .ok (addComponents tokens).reverse
          | '/' :: rest => tokenize fuel (some '/') (position + 3) (addComponents tokens) rest
          | _ => .error ⟨position + 2, .recursiveWildcards⟩
        else .error ⟨position - 1, .recursiveWildcards⟩
      else tokenize fuel (some c) (position + 1) (.anySequence :: tokens) rest
    else if c = '[' then
      match bracket? rest with
      | none => .error ⟨position, .invalidRange⟩
      | some bracket =>
        let token := if bracket.negated then .without bracket.classes else .within bracket.classes
        let taken := cs.length - bracket.rest.length
        tokenize fuel (some ']') (position + taken) (token :: tokens) bracket.rest
    else tokenize fuel (some c) (position + 1) (.char c :: tokens) rest

/-- The tokens of a pattern. -/
def parse (pattern : String) : Except PatternError (List Token) :=
  tokenize pattern.length none 0 [] pattern.toList

/-- A character as a pattern that only it matches. -/
def escapeChar (c : Char) : List Char :=
  if c = '?' ∨ c = '*' ∨ c = '[' ∨ c = ']' then ['[', c, ']'] else [c]

/-- The text as a pattern that only it matches. -/
def escape (s : String) : String :=
  String.ofList (s.toList.flatMap escapeChar)

/-- The character that a token stands for, if it is only one. -/
def Token.char? : Token → Option Char
  | .char c => some c
  | _ => none

/-- The text of a pattern without wildcards and brackets. -/
def literal? (tokens : List Token) : Option String :=
  (tokens.mapM Token.char?).map String.ofList

end VirtualFs.Glob
