import Uniqueness.Cluster.Fault
import Uniqueness.Settings.File

namespace Uniqueness.CommandLine

structure Trouble where
  message : String
  causes : List String
  deriving DecidableEq

namespace Trouble

def of (message : String) : Trouble :=
  ⟨message, []⟩

def within (message : String) (t : Trouble) : Trouble :=
  ⟨message, t.message :: t.causes⟩

def causesInStore : Store.Fault → List String
  | .io reason => [reason]
  | _ => []

def causesOf : Cluster.Fault → List String
  | .network status => [status.text]
  | .transport text => [text]
  | .store fault => fault.message :: causesInStore fault
  | .machine (.store fault) => (Machine.Fault.store fault).message :: fault.message :: causesInStore fault
  | .machine fault => [fault.message]
  | .io reason => [reason]
  | _ => []

def ofFault (fault : Cluster.Fault) : Trouble :=
  ⟨fault.message, causesOf fault⟩

def ofFile : Settings.File.Fault → Trouble
  | .text fault => .of ("TOML parse error: " ++ fault.summary)
  | .settings fault => .of fault.message

def indented (first : String) (width : Nat) (text : String) : List String :=
  match text.splitOn "\n" with
  | [] => []
  | line :: lines => (first ++ line) :: lines.map fun l => "".pushn ' ' width ++ l

def numbered (n : Nat) (cause : String) : List String :=
  indented (String.ofList (((Decimal.text n).toList).leftpad 5 ' ') ++ ": ") 7 cause

def causeLines : List String → List String
  | [] => []
  | [cause] => ["", "Caused by:"] ++ indented "    " 4 cause
  | causes => ["", "Caused by:"] ++ (causes.zipIdx.flatMap fun c => numbered c.2 c.1)

def lines (t : Trouble) : List String :=
  ("Error: " ++ t.message) :: causeLines t.causes

end Trouble

end Uniqueness.CommandLine
