import Uniqueness.Archive
import Uniqueness.Machine

namespace Uniqueness.Storage

inductive Act where
  | read
  | write
  deriving DecidableEq

inductive Subject where
  | logs
  | vote
  | stateMachine
  | snapshot
  deriving DecidableEq

inductive Cause where
  | store (fault : Store.Fault)
  | machine (fault : Machine.Fault)
  | snapshot (fault : Snapshot.Fault)
  | archive (fault : Archive.Fault)
  deriving DecidableEq

structure Fault where
  act : Act
  subject : Subject
  cause : Cause
  deriving DecidableEq

def Act.text : Act → String
  | .read => "Read"
  | .write => "Write"

def Subject.text : Subject → String
  | .logs => "Logs"
  | .vote => "Vote"
  | .stateMachine => "StateMachine"
  | .snapshot => "Snapshot"

def Fault.occasion (f : Fault) : String :=
  f.act.text ++ " " ++ f.subject.text

def Fault.message (f : Fault) : String :=
  match f.cause with
  | .store fault => fault.message
  | .machine fault => fault.message
  | .snapshot fault => fault.message
  | .archive .missing => "No such file or directory (os error 2)"

end Uniqueness.Storage
