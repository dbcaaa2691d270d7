import VirtualFs.Glob.Library
import VirtualFs.Glob.Pattern

namespace VirtualFs.Glob

/-- What an attempt to match came to. Where the text ran out, a longer match of an earlier wildcard
cannot help and the attempts end. -/
inductive Attempt where
  | matched
  /-- Failed with text left or at a character that does not fit. -/
  | failed
  /-- The text ended before the pattern. -/
  | exhausted
  deriving Repr, DecidableEq

/-- A character belongs to one of the classes. -/
def contains (classes : List CharClass) (c : Char) : Bool :=
  classes.any fun
    | .single d => c == d
    | .range low high => decide (low ≤ c) && decide (c ≤ high)

/-- A character fits a token for one character. Where `literal` is set, only the separator itself
fits a separator. -/
def fits (literal : Bool) (token : Token) (c : Char) : Bool :=
  match token with
  | .char d => c == d
  | .anyChar => !(literal && c == '/')
  | .within classes => !(literal && c == '/') && contains classes c
  | .without classes => !(literal && c == '/') && !contains classes c
  | _ => false

/-- Tries the rest of the pattern after each longer run of the text. `**` stops only after
separators, or takes all there is; `*` stops anywhere and, where `literal` is set, does not go past
a separator. -/
def longerRuns (literal components : Bool) (next : List Char → Attempt) : List Char → Attempt
  | [] => next []
  | c :: cs =>
    if components && c != '/' then longerRuns literal components next cs
    else if !components && literal && c == '/' then .failed
    else
      match next cs with
      | .failed => longerRuns literal components next cs
      | attempt => attempt

/-- Tries the rest of the pattern after every run of the text, the empty one first. -/
def anyRun (literal components : Bool) (next : List Char → Attempt) (cs : List Char) : Attempt :=
  match next cs with
  | .failed => longerRuns literal components next cs
  | attempt => attempt

/-- Matches the whole text against the whole pattern. -/
def attempt (literal : Bool) : List Token → List Char → Attempt
  | [], [] => .matched
  | [], _ :: _ => .failed
  | .anySequence :: tokens, cs => anyRun literal false (attempt literal tokens) cs
  | .anyComponents :: tokens, cs => anyRun literal true (attempt literal tokens) cs
  | _ :: _, [] => .exhausted
  | token :: tokens, c :: cs =>
    if fits literal token c then attempt literal tokens cs else .failed

/-- The text matches the pattern. -/
def matchesText (literal : Bool) (tokens : List Token) (text : String) : Bool :=
  attempt literal tokens text.toList == .matched

/-- The patterns of the shell. -/
def Library.shell : Library where
  compile pattern :=
    match parse pattern with
    | .error e => .error e.message
    | .ok tokens => .ok fun literal text => matchesText literal tokens text
  escape := Glob.escape

end VirtualFs.Glob
