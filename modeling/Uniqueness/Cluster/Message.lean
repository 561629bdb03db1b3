import Uniqueness.Cluster.Consensus

namespace Uniqueness.Cluster

inductive ExecuteReply where
  | done (result : Bytes)
  | refused (reason : String) (leader : LeaderHint)
  deriving DecidableEq

inductive QueryReply where
  | done (result : Bytes)
  | refused (reason : String)
  deriving DecidableEq

inductive ChangeReply where
  | done
  | refused (reason : String)
  deriving DecidableEq

structure Member where
  id : UInt64
  address : String
  isLeader : Bool
  isVoter : Bool
  deriving DecidableEq

structure StatusReport where
  node : UInt64
  role : String
  leader : UInt64
  term : UInt64
  lastIndex : UInt64
  applied : UInt64
  snapshot : UInt64
  members : List Member
  deriving DecidableEq

abbrev Call (σ α : Type) := σ → Except Status α × σ

structure Network (σ : Type) where
  opens : String → σ → Except String Unit × σ
  execute : String → Bytes → Call σ ExecuteReply
  query : String → Bytes → Call σ QueryReply
  status : String → Call σ StatusReport
  addNode : String → UInt64 → String → Call σ ChangeReply
  removeNode : String → UInt64 → Call σ ChangeReply

def Status.unreachable : Status :=
  ⟨.unavailable, "unreachable"⟩

def Network.isolated (σ : Type) : Network σ where
  opens _ w := (.error Status.unreachable.text, w)
  execute _ _ w := (.error .unreachable, w)
  query _ _ w := (.error .unreachable, w)
  status _ w := (.error .unreachable, w)
  addNode _ _ _ w := (.error .unreachable, w)
  removeNode _ _ w := (.error .unreachable, w)

end Uniqueness.Cluster
