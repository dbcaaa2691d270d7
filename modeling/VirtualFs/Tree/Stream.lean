import VirtualFs.Tree.Session

namespace VirtualFs.Tree

/-- An operation of a handle as a byte stream. There is nothing to flush. -/
inductive StreamCommand where
  | read (n : Nat)
  | write (data : Bytes)
  | flush
  | seek (goal : SeekTo)

/-- The operation of the handle that does the work, none for a flush. -/
def StreamCommand.command? : StreamCommand → Option HandleCommand
  | read n => some (.read n)
  | write data => some (.write data)
  | flush => none
  | seek goal => some (.seek goal)

/-- Whatever can be asked of a session: an operation, or one of a handle as a byte stream. -/
inductive Call where
  | command (command : Command)
  | stream (index : Nat) (command : StreamCommand)

/-- What a call answers. -/
inductive Answer where
  | command (result : Except FsError Reply)
  | stream (result : Except IoError Reply)

namespace Session

/-- An operation of the handle `index` as a byte stream. -/
def streamStep (session : Session) (clock : Clock) (index : Nat) (command : StreamCommand) :
    Except IoError Reply × Session :=
  match command.command? with
  | none => (.ok .done, session)
  | some command =>
    let (result, session) := session.step clock (.handle index command)
    (result.mapError FsError.toStream, session)

/-- One call, with what the clock shows during it. -/
def call (session : Session) (clock : Clock) : Call → Answer × Session
  | .command command =>
    let (result, session) := session.step clock command
    (.command result, session)
  | .stream index command =>
    let (result, session) := session.streamStep clock index command
    (.stream result, session)

/-- Calls one after the other, each with its own readings of the clock. -/
def calls (session : Session) : List (Clock × Call) → List Answer × Session
  | [] => ([], session)
  | (clock, call) :: rest =>
    let (answer, session) := session.call clock call
    let (answers, session) := calls session rest
    (answer :: answers, session)

end Session

end VirtualFs.Tree
