import Uniqueness.Consumption
import Uniqueness.StateRef

namespace Uniqueness

structure Claim where
  inputs : List StateRef
  tx : Digest
  party : Party
  deriving DecidableEq

namespace Claim

/-- The records of inputs from `position` on, onto those made so far: an input listed again keeps its
first record. -/
def recordFrom (c : Claim) : Nat → List StateRef → SortedMap StateRef Consumption →
    SortedMap StateRef Consumption
  | _, [], done => done
  | position, input :: rest, done =>
    c.recordFrom (position + 1) rest
      (if done.contains input then done else done.insert input ⟨c.tx, UInt32.ofNat position, c.party⟩)

def records (c : Claim) : SortedMap StateRef Consumption :=
  c.recordFrom 0 c.inputs .empty

structure Draft where
  inputs : Option (List StateRef) := none
  tx : Option Digest := none
  party : Option Party := none

def shape : Shape Draft where
  title := "Claim"
  fields := [.of "inputs" Draft.inputs fun d a => { d with inputs := some a },
    .of "tx_id" Draft.tx fun d a => { d with tx := some a },
    .of "requesting_party" Draft.party fun d a => { d with party := some a }]

instance : Codec Claim where
  toTree c := .object [("inputs", toTree c.inputs), ("tx_id", toTree c.tx),
    ("requesting_party", toTree c.party)]
  ofTree t := do
    let d ← shape.read {} t
    return ⟨← required "inputs" d.inputs, ← required "tx_id" d.tx,
      ← required "requesting_party" d.party⟩

end Claim

inductive Command where
  | claim (c : Claim)
  | get (key : StateRef)
  | size
  deriving DecidableEq

namespace Command

def isReadOnly : Command → Bool
  | .claim _ => false
  | _ => true

def name : Command → String
  | .claim _ => "claim"
  | .get _ => "get"
  | .size => "size"

def detail : Command → String
  | .claim c => Text.record "Claim" [("inputs", Text.sequence (c.inputs.map StateRef.detail)),
      ("tx_id", c.tx.detail), ("requesting_party", c.party.detail)]
  | .get key => Text.record "Get" [("key", key.detail)]
  | .size => "Size"

structure GetDraft where
  key : Option StateRef := none

def getShape : Shape GetDraft where
  title := "Get"
  fields := [.of "key" GetDraft.key fun d a => { d with key := some a }]

def readGet (t : Tree) : Except Fault Command := do
  let d ← getShape.read {} t
  return .get (← required "key" d.key)

def cases : List (Case Command) :=
  [.ofRecord "Claim" fun t => .claim <$> ofTree t, .ofRecord "Get" readGet, .void "Size" .size]

instance : Codec Command where
  toTree
    | .claim c => caseTree "Claim" (toTree c)
    | .get key => caseTree "Get" (.object [("key", toTree key)])
    | .size => .text "Size"
  ofTree := Case.read cases

end Command

end Uniqueness
