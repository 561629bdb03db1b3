import Uniqueness.Cluster.Address
import Uniqueness.Cluster.Message

namespace Uniqueness.Cluster

structure Connection where
  address : String
  deriving DecidableEq

abbrev Connections := SortedMap UInt64 Connection

def Code.isDisconnect : Code → Bool
  | .unavailable | .deadlineExceeded | .cancelled => true
  | _ => false

inductive CallFault where
  | unreachable (fault : Fault)
  | unusable (fault : Fault)
  deriving DecidableEq

def CallFault.ofStatus (status : Status) : CallFault :=
  if status.code.isDisconnect then .unreachable (.network status) else .unusable (.network status)

namespace Connections

variable {ω α : Type}

/-- The connection to a node, opened to `address` if there is none. -/
def connect (net : Network ω) (c : Connections) (node : UInt64) (address : String) (w : ω) :
    Except Fault Connection × Connections × ω :=
  match c.get? node with
  | some connection => (.ok connection, c, w)
  | none =>
    match Address.check address with
    | .error fault => (.error (.config fault.message), c, w)
    | .ok () => match net.opens address w with
      | (.error text, w) => (.error (.transport text), c, w)
      | (.ok (), w) => (.ok ⟨address⟩, c.insert node ⟨address⟩, w)

def evict (c : Connections) (node : UInt64) : Connections :=
  c.erase node

def afterCall (c : Connections) (node : UInt64) (status : Status) : Connections :=
  if status.code.isDisconnect then c.evict node else c

def call [Codec α] (net : Network ω) (c : Connections) (node : UInt64) (address : String)
    (request : String → Call ω Bytes) (w : ω) : Except CallFault α × Connections × ω :=
  match c.connect net node address w with
  | (.error fault, c, w) => (.error (.unreachable fault), c, w)
  | (.ok connection, c, w) =>
    match request connection.address w with
    | (.error status, w) => (.error (.ofStatus status), c.afterCall node status, w)
    | (.ok answer, w) =>
      ((Json.decode α answer).mapError fun fault => .unusable (.undecodable fault), c, w)

end Connections

end Uniqueness.Cluster
