import Uniqueness.CommandLine.Help
import Uniqueness.CommandLine.Work

namespace Uniqueness.CommandLine

variable {σ : Type}

def part (m : Cluster.Member) : String :=
  if m.isLeader then "leader" else if m.isVoter then "voter" else "learner"

def memberLine (m : Cluster.Member) : String :=
  "  " ++ columnRight 4 (Decimal.text m.id.toNat) ++ "  " ++ column 24 m.address ++ " " ++ part m

def statusLines (r : Cluster.StatusReport) : List String :=
  ["Node:            " ++ Decimal.text r.node.toNat, "State:           " ++ r.role,
    "Leader:          " ++ (if r.leader = 0 then "unknown" else Decimal.text r.leader.toNat),
    "Term:            " ++ Decimal.text r.term.toNat,
    "Last log index:  " ++ Decimal.text r.lastIndex.toNat,
    "Last applied:    " ++ Decimal.text r.applied.toNat,
    "Snapshot index:  " ++ Decimal.text r.snapshot.toNat, "", "Members:"]
    ++ r.members.map memberLine

def showStatus (host : Host σ) (addresses : List String) : Work σ Unit := do
  let client ← Work.client addresses
  let report ← Work.call (Client.statusAt host.network client.first)
  Work.sayAll (statusLines report)

def addNode (host : Host σ) (addresses : List String) (node : UInt64) (address : String) :
    Work σ Unit := do
  let client ← Work.client addresses
  let _ ← Work.ask (client.addNode host.network node address)
  Work.say ("Node " ++ Decimal.text node.toNat ++ " (" ++ address ++ ") added")

def removeNode (host : Host σ) (addresses : List String) (node : UInt64) : Work σ Unit := do
  let client ← Work.client addresses
  let _ ← Work.ask (client.removeNode host.network node)
  Work.say ("Node " ++ Decimal.text node.toNat ++ " removed")

end Uniqueness.CommandLine
