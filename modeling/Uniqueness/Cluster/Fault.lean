import Uniqueness.Failure

namespace Uniqueness.Cluster

inductive Code where
  | cancelled
  | unknown
  | invalidArgument
  | deadlineExceeded
  | notFound
  | alreadyExists
  | permissionDenied
  | resourceExhausted
  | failedPrecondition
  | aborted
  | outOfRange
  | unimplemented
  | internal
  | unavailable
  | dataLoss
  | unauthenticated
  deriving DecidableEq

def Code.name : Code → String
  | .cancelled => "Cancelled"
  | .unknown => "Unknown"
  | .invalidArgument => "InvalidArgument"
  | .deadlineExceeded => "DeadlineExceeded"
  | .notFound => "NotFound"
  | .alreadyExists => "AlreadyExists"
  | .permissionDenied => "PermissionDenied"
  | .resourceExhausted => "ResourceExhausted"
  | .failedPrecondition => "FailedPrecondition"
  | .aborted => "Aborted"
  | .outOfRange => "OutOfRange"
  | .unimplemented => "Unimplemented"
  | .internal => "Internal"
  | .unavailable => "Unavailable"
  | .dataLoss => "DataLoss"
  | .unauthenticated => "Unauthenticated"

structure Status where
  code : Code
  text : String
  deriving DecidableEq

inductive Fault where
  | consensus (reason : String)
  | network (status : Status)
  | transport (text : String)
  | serialization (reason : String)
  | store (fault : Store.Fault)
  | machine (fault : Machine.Fault)
  | response (failure : Failure)
  | nodeNotFound (node : UInt64)
  | notLeader (leader : Option UInt64)
  | remote (reason : String)
  | timeout (milliseconds : UInt64)
  | config (reason : String)
  | io (reason : String)
  deriving DecidableEq

namespace Fault

def message : Fault → String
  | .consensus reason => "Consensus error: " ++ reason
  | .network status => "Network error: " ++ status.text
  | .transport text => "Transport error: " ++ text
  | .serialization reason => "Serialization error: " ++ reason
  | .store fault => "Store error: " ++ fault.message
  | .machine fault => "State machine error: " ++ fault.message
  | .response failure => failure.message
  | .nodeNotFound node => "Node " ++ Decimal.text node.toNat ++ " not found in cluster"
  | .notLeader leader => "Not the leader, leader is node "
      ++ Text.optional (leader.map fun n => Decimal.text n.toNat)
  | .remote reason => "Remote error: " ++ reason
  | .timeout milliseconds => "Command not applied within " ++ Decimal.text milliseconds.toNat ++ "ms"
  | .config reason => "Configuration error: " ++ reason
  | .io reason => "IO error: " ++ reason

def undecodable (fault : Uniqueness.Fault) : Fault :=
  .serialization fault.summary

def toFailure : Fault → Failure
  | .timeout milliseconds => .timeout milliseconds
  | .store fault => .storage fault
  | .machine fault => .ofMachine fault
  | .response failure => failure
  | .config reason | .serialization reason => .rejected reason
  | fault => .unavailable fault.message

end Fault

end Uniqueness.Cluster
