import Uniqueness.Command
import Uniqueness.Log.Membership

namespace Uniqueness.Log

inductive Payload where
  | blank
  | command (c : Command)
  | membership (m : Membership)
  deriving DecidableEq

structure Entry where
  id : Id
  payload : Payload
  deriving DecidableEq

namespace Payload

def cases : List (Case Payload) :=
  [.void "Blank" .blank, .holding "Normal" .command, .holding "Membership" .membership]

instance : Codec Payload where
  toTree
    | .blank => .text "Blank"
    | .command c => caseTree "Normal" (toTree c)
    | .membership m => caseTree "Membership" (toTree m)
  ofTree := Case.read cases

end Payload

namespace Entry

structure Draft where
  id : Option Id := none
  payload : Option Payload := none

def shape : Shape Draft where
  title := "Entry"
  fields := [.of "log_id" Draft.id fun d a => { d with id := some a },
    .of "payload" Draft.payload fun d a => { d with payload := some a }]

instance : Codec Entry where
  toTree e := .object [("log_id", toTree e.id), ("payload", toTree e.payload)]
  ofTree t := do
    let d ← shape.read {} t
    return ⟨← required "log_id" d.id, ← required "payload" d.payload⟩

end Entry

end Uniqueness.Log
