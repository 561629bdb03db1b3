import Uniqueness.Cluster.Message

/-!
Changes of the membership, one node at a time. A request is handled in steps, between which other
requests are handled too: a node that joins is made a learner first; then the voters are looked up;
then they are replaced.
-/

namespace Uniqueness.Cluster

inductive Change where
  | add (node : UInt64) (address : String)
  | remove (node : UInt64)
  deriving DecidableEq

inductive Handling where
  | received (change : Change)
  | joined (node : UInt64)
  | planned (voters : Log.Voters)
  | finished (reply : ChangeReply)
  | waiting
  deriving DecidableEq

namespace Handling

variable {σ : Type}

def after (failure : String) (next : Handling) : Written Unit → Handling
  | .applied () => next
  | .waiting => .waiting
  | .failed fault => .finished (.refused (failure ++ ": " ++ fault.message))

def step (g : Consensus σ) : Handling → σ → Handling × σ
  | .received (.add node address), s =>
    let (written, s) := g.addLearner node address s
    (after "Failed to add learner" (.joined node) written, s)
  | .joined node, s => (.planned ((g.view s).membership.voters.insert node), s)
  | .received (.remove node), s =>
    let voters := (g.view s).membership.voters.erase node
    if voters.isEmpty then (.finished (.refused "Cannot remove last node from cluster"), s)
    else (.planned voters, s)
  | .planned voters, s =>
    let (written, s) := g.changeVoters voters s
    (after "Failed to change membership" (.finished .done) written, s)
  | .finished reply, s => (.finished reply, s)
  | .waiting, s => (.waiting, s)

def maxSteps : Nat :=
  3

def run (g : Consensus σ) : Nat → Handling → σ → Handling × σ
  | 0, h, s => (h, s)
  | n + 1, h, s =>
    let (h, s) := step g h s
    run g n h s

end Handling

end Uniqueness.Cluster
