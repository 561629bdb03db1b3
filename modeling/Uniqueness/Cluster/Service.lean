import Uniqueness.Cluster.Change

namespace Uniqueness.Cluster.Service

variable {σ : Type}

def leaderOf (v : View) : LeaderHint :=
  match v.leader with
  | none => ⟨0, ""⟩
  | some id => ⟨id, v.addressOf id⟩

/-- The answer to a command that was not written. A leader that the fault names without an address is
given the one of the leader that the node sees now. -/
def refusal (fault : WriteFault) (v : View) : ExecuteReply :=
  match fault.hint? with
  | some hint =>
    let address := if hint.address.isEmpty then (leaderOf v).address else hint.address
    .refused ("Not the leader. Leader is node " ++ Decimal.text hint.id.toNat ++ " at " ++ address)
      ⟨hint.id, address⟩
  | none => .refused ("Raft error: " ++ fault.message) (leaderOf v)

def unread (fault : Uniqueness.Fault) : Status :=
  ⟨.invalidArgument, "Invalid command: " ++ fault.summary⟩

def unanswered : Status :=
  ⟨.cancelled, "Timeout expired"⟩

def execute (g : Consensus σ) (command : Bytes) : Call σ ExecuteReply := fun s =>
  match Json.decode Command command with
  | .error fault => (.error (unread fault), s)
  | .ok command => match g.write command s with
    | (.applied response, s) => (.ok (.done (Json.encode response)), s)
    | (.waiting, s) => (.error unanswered, s)
    | (.failed fault, s) => (.ok (refusal fault (g.view s)), s)

def query (g : Consensus σ) (command : Bytes) : Call σ QueryReply := fun s =>
  match Json.decode Command command with
  | .error fault => (.error (unread fault), s)
  | .ok command => match g.query command s with
    | .ok response => (.ok (.done (Json.encode response)), s)
    | .error fault => (.ok (.refused fault.message), s)

def indexOf (id : Option Log.Id) : UInt64 :=
  (id.map (·.index)).getD 0

def members (v : View) : List Member :=
  v.membership.nodes.entries.map fun e =>
    ⟨e.1, e.2, e.1 = v.leader.getD 0, v.membership.voters.contains e.1⟩

def report (node : UInt64) (v : View) : StatusReport :=
  ⟨node, v.role.word, v.leader.getD 0, v.term, v.lastIndex.getD 0, indexOf v.applied,
    indexOf v.snapshot, members v⟩

def status (g : Consensus σ) (node : UInt64) : Call σ StatusReport := fun s =>
  (.ok (report node (g.view s)), s)

def change (g : Consensus σ) (c : Change) : Call σ ChangeReply := fun s =>
  match Handling.run g Handling.maxSteps (.received c) s with
  | (.finished reply, s) => (.ok reply, s)
  | (_, s) => (.error unanswered, s)

def network (g : Consensus σ) (node : UInt64) : Network σ where
  opens _ s := (.ok (), s)
  execute _ := execute g
  query _ := query g
  status _ := status g node
  addNode _ n address := change g (.add n address)
  removeNode _ n := change g (.remove n)

end Uniqueness.Cluster.Service
