import Uniqueness.Log.Id
import Uniqueness.SortedMap

namespace Uniqueness.Log

abbrev Voters := SortedSet UInt64

abbrev Nodes := SortedMap UInt64 String

structure Membership where
  configs : List Voters
  nodes : Nodes
  deriving DecidableEq

structure StoredMembership where
  id : Option Id
  membership : Membership
  deriving DecidableEq

namespace Nodes

structure Draft where
  address : Option String := none

def shape : Shape Draft where
  title := "BasicNode"
  fields := [.of "addr" Draft.address fun d a => { d with address := some a }]

def addressTree (address : String) : Tree :=
  .object [("addr", toTree address)]

def ofAddressTree (t : Tree) : Except Fault String := do
  let d ← shape.read {} t
  required "addr" d.address

def number? : Label → Option UInt64
  | .plain s => Decimal.canonical? s
  | _ => none

def ofFields (ending : Ending) : List (Label × Tree) → Nodes → Except Fault Nodes
  | [], nodes => if ending = .broken then .error .malformed else .ok nodes
  | (label, t) :: rest, nodes =>
    match number? label with
    | none => .error .malformed
    | some n => do
      let address ← (ofAddressTree t).mapError Fault.inner
      ofFields ending rest (nodes.insert n address)

instance : Codec Nodes where
  toTree nodes := .object (nodes.entries.map fun e => (Decimal.text e.1.toNat, addressTree e.2))
  ofTree
    | .table fields ending => ofFields ending fields .empty
    | t => .error (t.refuse "a map")

end Nodes

instance : Codec Voters where
  toTree voters := toTree voters.keys
  ofTree t := SortedSet.ofList <$> ofTree t

namespace Membership

def empty : Membership :=
  ⟨[], .empty⟩

instance : Inhabited Membership :=
  ⟨empty⟩

def voters (m : Membership) : Voters :=
  .ofList (m.configs.flatMap SortedMap.keys)

def of (configs : List Voters) (nodes : Nodes) : Membership :=
  ⟨configs, (configs.flatMap SortedMap.keys).foldl
    (fun nodes n => if nodes.contains n then nodes else nodes.insert n "") nodes⟩

def addLearner (m : Membership) (node : UInt64) (address : String) : Membership :=
  if m.nodes.contains node then m else { m with nodes := m.nodes.insert node address }

/-- The next membership on the way to `goal`: while the voters change, the last set and the goal vote
both. Who votes no longer leaves. -/
def toward (m : Membership) (goal : Voters) : Membership :=
  let configs := if goal ∈ m.configs then [goal] else m.configs.getLast?.toList ++ [goal]
  let voters := Membership.voters ⟨configs, m.nodes⟩
  ⟨configs, m.nodes.filter fun n => voters.contains n || !m.voters.contains n⟩

def agrees (m : Membership) (granted : Voters) : Bool :=
  m.configs.all fun voters => voters.size < 2 * (voters.filter granted.contains).size

def voterNotFound? (m : Membership) : Option UInt64 :=
  m.voters.keys.find? fun n => !m.nodes.contains n

structure Draft where
  configs : Option (List Voters) := none
  nodes : Option Nodes := none

def shape : Shape Draft where
  title := "Membership"
  fields := [.of "configs" Draft.configs fun d a => { d with configs := some a },
    .of "nodes" Draft.nodes fun d a => { d with nodes := some a }]

instance : Codec Membership where
  toTree m := .object [("configs", toTree m.configs), ("nodes", toTree m.nodes)]
  ofTree t := do
    let d ← shape.read {} t
    return ⟨← required "configs" d.configs, ← required "nodes" d.nodes⟩

end Membership

namespace StoredMembership

def empty : StoredMembership :=
  ⟨none, .empty⟩

instance : Inhabited StoredMembership :=
  ⟨empty⟩

structure Draft where
  id : Option (Option Id) := none
  membership : Option Membership := none

def shape : Shape Draft where
  title := "StoredMembership"
  fields := [.of "log_id" Draft.id fun d a => { d with id := some a },
    .of "membership" Draft.membership fun d a => { d with membership := some a }]

instance : Codec StoredMembership where
  toTree m := .object [("log_id", toTree m.id), ("membership", toTree m.membership)]
  ofTree t := do
    let d ← shape.read {} t
    return ⟨d.id.join, ← required "membership" d.membership⟩

end StoredMembership

end Uniqueness.Log
