import Uniqueness.Cluster.Fault
import Uniqueness.Log.Membership

namespace Uniqueness.Cluster

inductive WriteFault where
  | forward (leader : Option UInt64) (address : Option String)
  | learnerNotFound (node : UInt64)
  | emptyMembership
  | stopped
  | crashed
  deriving DecidableEq

structure LeaderHint where
  id : UInt64
  address : String
  deriving DecidableEq

namespace WriteFault

def hint? : WriteFault → Option LeaderHint
  | .forward (some id) address => some ⟨id, address.getD ""⟩
  | _ => none

def nodeDetail (address : String) : String :=
  Text.record "BasicNode" [("addr", Text.quoted address)]

def apiDetail : WriteFault → Option String
  | .forward leader address => some (Text.applied "ForwardToLeader" (Text.record "ForwardToLeader"
      [("leader_id", Text.optional (leader.map fun n => Decimal.text n.toNat)),
        ("leader_node", Text.optional (address.map nodeDetail))]))
  | .learnerNotFound node => some (Text.applied "ChangeMembershipError" (Text.applied "LearnerNotFound"
      (Text.record "LearnerNotFound" [("node_id", Decimal.text node.toNat)])))
  | .emptyMembership =>
    some (Text.applied "ChangeMembershipError" (Text.applied "EmptyMembership" "EmptyMembership"))
  | .stopped | .crashed => none

def detail (f : WriteFault) : String :=
  match f, apiDetail f with
  | _, some detail => Text.applied "APIError" detail
  | .crashed, none => Text.applied "Fatal" "Panicked"
  | _, none => Text.applied "Fatal" "Stopped"

def message : WriteFault → String
  | .forward leader address => "has to forward request to: "
      ++ Text.optional (leader.map fun n => Decimal.text n.toNat) ++ ", "
      ++ Text.optional (address.map nodeDetail)
  | .learnerNotFound node => "Learner " ++ Decimal.text node.toNat
      ++ " not found: add it as learner before adding it as a voter"
  | .emptyMembership => "new membership can not be empty"
  | .stopped => "raft stopped"
  | .crashed => "panicked"

def ofMembership? (m : Log.Membership) : Option WriteFault :=
  if m.configs.any (·.isEmpty) then some .emptyMembership
  else m.voterNotFound?.map .learnerNotFound

def toFault : WriteFault → Fault
  | .forward leader _ => .notLeader leader
  | f => .consensus f.detail

end WriteFault

inductive Role where
  | learner
  | follower
  | candidate
  | leader
  | shutdown
  deriving DecidableEq

def Role.name : Role → String
  | .learner => "Learner"
  | .follower => "Follower"
  | .candidate => "Candidate"
  | .leader => "Leader"
  | .shutdown => "Shutdown"

def Role.word : Role → String
  | .learner => "learner"
  | .follower => "follower"
  | .candidate => "candidate"
  | .leader => "leader"
  | .shutdown => "shutdown"

structure View where
  role : Role
  leader : Option UInt64
  term : UInt64
  lastIndex : Option UInt64
  applied : Option Log.Id
  snapshot : Option Log.Id
  membership : Log.Membership
  deriving DecidableEq

def View.addressOf (v : View) (node : UInt64) : String :=
  (v.membership.nodes.get? node).getD ""

inductive Written (α : Type) where
  | applied (answer : α)
  | waiting
  | failed (fault : WriteFault)
  deriving DecidableEq

structure Consensus (σ : Type) where
  write : Command → σ → Written Response × σ
  query : Command → σ → Except Machine.Fault Response
  addLearner : UInt64 → String → σ → Written Unit × σ
  changeVoters : Log.Voters → σ → Written Unit × σ
  view : σ → View

end Uniqueness.Cluster
