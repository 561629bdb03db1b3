import Uniqueness.Consumption
import Uniqueness.StateRef

namespace Uniqueness

abbrev History := SortedMap StateRef Consumption

structure Conflict where
  history : History
  deriving DecidableEq, Inhabited

namespace Conflict

def onlyWith (c : Conflict) (tx : Digest) : Bool :=
  !c.history.isEmpty && c.history.entries.all fun e => e.2.tx = tx

def transactions (c : Conflict) : SortedSet Digest :=
  .ofList (c.history.entries.map fun e => e.2.tx)

def text (c : Conflict) : String :=
  Decimal.text c.history.size ++ " input state(s) already consumed"

def detail (c : Conflict) : String :=
  Text.record "UniquenessConflict" [("state_history",
    Text.mapping (c.history.entries.map fun e => (e.1.detail, e.2.detail)))]

structure Draft where
  history : Option (List (StateRef × Consumption)) := none

def shape : Shape Draft where
  title := "UniquenessConflict"
  fields := [.of "state_history" Draft.history fun d a => { d with history := some a }]

instance : Codec Conflict where
  toTree c := .object [("state_history", toTree c.history.entries)]
  ofTree t := do
    let d ← shape.read {} t
    return ⟨.ofList (← required "state_history" d.history)⟩

end Conflict

inductive Verdict where
  | success
  | conflict (c : Conflict)
  deriving DecidableEq, Inhabited

namespace Verdict

def isSuccess : Verdict → Bool
  | .success => true
  | .conflict _ => false

def toExcept : Verdict → Except Conflict Unit
  | .success => .ok ()
  | .conflict c => .error c

def cases : List (Case Verdict) :=
  [.void "Success" .success, .holding "Conflict" .conflict]

instance : Codec Verdict where
  toTree
    | .success => .text "Success"
    | .conflict c => caseTree "Conflict" (toTree c)
  ofTree := Case.read cases

end Verdict

end Uniqueness
