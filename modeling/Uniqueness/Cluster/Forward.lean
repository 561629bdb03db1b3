import Uniqueness.Cluster.Connections
import Uniqueness.Settings

namespace Uniqueness.Cluster

structure Forwarder where
  node : UInt64
  peers : Peers
  deadline : UInt64
  connections : Connections
  deriving DecidableEq

namespace Forwarder

variable {σ ω : Type}

def ofSettings (s : Settings) : Forwarder :=
  ⟨s.node, s.peers, s.commitTimeout, .empty⟩

def addressOf (f : Forwarder) (v : View) (node : UInt64) : Except Fault String :=
  if !(v.addressOf node).isEmpty then .ok (v.addressOf node)
  else match f.peers.get? node with
    | some address => .ok address
    | none => .error (.nodeNotFound node)

def leaderAddress (f : Forwarder) (v : View) (hint : LeaderHint) : Except Fault String :=
  if hint.address.isEmpty then f.addressOf v hint.id else .ok hint.address

def ofReply (leader : UInt64) : ExecuteReply → Except Fault Response
  | .done result => (Json.decode Response result).mapError .undecodable
  | .refused reason hint =>
    if hint.id ≠ 0 ∧ hint.id ≠ leader then .error (.notLeader (some hint.id))
    else .error (.remote reason)

def send (net : Network ω) (f : Forwarder) (leader : UInt64) (address : String) (command : Command)
    (w : ω) : Except Fault Response × Forwarder × ω :=
  match f.connections.connect net leader address w with
  | (.error fault, connections, w) => (.error fault, { f with connections }, w)
  | (.ok connection, connections, w) =>
    match net.execute connection.address (Json.encode command) w with
    | (.error status, w) =>
      (.error (.network status), { f with connections := connections.evict leader }, w)
    | (.ok reply, w) => (ofReply leader reply, { f with connections }, w)

def execute (g : Consensus σ) (net : Network ω) (f : Forwarder) (command : Command) (s : σ) (w : ω) :
    Except Fault Response × Forwarder × σ × ω :=
  match g.write command s with
  | (.applied response, s) => (.ok response, f, s, w)
  | (.waiting, s) => (.error (.timeout f.deadline), f, s, w)
  | (.failed fault, s) =>
    match fault.hint? with
    | none => (.error fault.toFault, f, s, w)
    | some hint =>
      if hint.id = f.node then (.error fault.toFault, f, s, w)
      else match f.leaderAddress (g.view s) hint with
        | .error unknown => (.error unknown, f, s, w)
        | .ok address =>
          let (result, f, w) := f.send net hint.id address command w
          (result, f, s, w)

end Forwarder

end Uniqueness.Cluster
