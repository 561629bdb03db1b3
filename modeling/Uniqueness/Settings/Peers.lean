import Uniqueness.Codec
import Uniqueness.SortedMap

namespace Uniqueness

structure Peers where
  addresses : SortedMap UInt64 String
  deriving DecidableEq

namespace Peers

def empty : Peers :=
  ⟨.empty⟩

instance : Inhabited Peers :=
  ⟨empty⟩

def get? (p : Peers) (node : UInt64) : Option String :=
  p.addresses.get? node

def contains (p : Peers) (node : UInt64) : Bool :=
  p.addresses.contains node

def insert (p : Peers) (node : UInt64) (address : String) : Peers :=
  ⟨p.addresses.insert node address⟩

def ofList (peers : List (UInt64 × String)) : Peers :=
  ⟨.ofList peers⟩

def addNamed : List (String × String) → Peers → Except Fault Peers
  | [], p => .ok p
  | (name, address) :: rest, p => match Decimal.word64? name with
    | none => .error (.domain ("invalid peer node id '" ++ name ++ "'"))
    | some node => addNamed rest (p.insert node address)

def ofNamed (named : List (String × String)) : Except Fault Peers :=
  addNamed named .empty

def toNamed (p : Peers) : SortedMap String String :=
  .ofList (p.addresses.entries.map fun e => (Decimal.text e.1.toNat, e.2))

def readNamed (ending : Ending) : List (Label × Tree) → SortedMap String String →
    Except Fault (SortedMap String String)
  | [], named => if ending = .broken then .error .malformed else .ok named
  | (label, t) :: rest, named =>
    match label.text? with
    | none => .error .malformed
    | some name => do
      let address ← ofInner t
      readNamed ending rest (named.insert name address)

instance : Codec Peers where
  toTree p := .object (p.toNamed.entries.map fun e => (e.1, toTree e.2))
  ofTree
    | .table fields ending => do ofNamed (← readNamed ending fields .empty).entries
    | t => .error (t.refuse "a map")

end Peers

end Uniqueness
