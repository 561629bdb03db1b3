import Uniqueness.Machine

namespace Uniqueness

inductive Failure where
  | storage (fault : Store.Fault)
  | snapshot (fault : Snapshot.Fault)
  | unavailable (reason : String)
  | timeout (milliseconds : UInt64)
  | rejected (reason : String)
  deriving DecidableEq

namespace Failure

def message : Failure → String
  | .storage fault => "Storage error: " ++ fault.message
  | .snapshot fault => "Snapshot error: " ++ fault.message
  | .unavailable reason => "Service unavailable: " ++ reason
  | .timeout milliseconds => "Request timed out after " ++ Decimal.text milliseconds.toNat ++ "ms"
  | .rejected reason => "Request rejected: " ++ reason

def isRetryable : Failure → Bool
  | .unavailable _ | .timeout _ => true
  | _ => false

def ofMachine : Machine.Fault → Failure
  | .store fault => .storage fault
  | .notAQuery name => .rejected (name ++ " mutates state and cannot run as a query")
  | .needsResync => .unavailable "replica is waiting for a snapshot after a failed install"

end Failure

namespace Response

def expected (kind : String) (r : Response) : Failure :=
  .rejected ("expected a " ++ kind ++ " response, got " ++ r.detail)

def toVerdict : Response → Except Failure Verdict
  | .committed => .ok .success
  | .conflict c => .ok (.conflict c)
  | r => .error (r.expected "claim")

def toValue : Response → Except Failure (Option Consumption)
  | .value record => .ok record
  | r => .error (r.expected "get")

def toSize : Response → Except Failure UInt64
  | .size n => .ok n
  | r => .error (r.expected "size")

end Response

namespace Machine

def commit (m : Machine) (c : Claim) : Except Failure (Verdict × Machine) := do
  let (response, m) ← (m.apply (.claim c)).mapError .ofMachine
  return (← response.toVerdict, m)

def consumer (m : Machine) (key : StateRef) : Except Failure (Option Consumption) := do
  let response ← (m.query (.get key)).mapError .ofMachine
  response.toValue

def count (m : Machine) : Except Failure UInt64 := do
  let response ← (m.query .size).mapError .ofMachine
  response.toSize

end Machine

end Uniqueness
