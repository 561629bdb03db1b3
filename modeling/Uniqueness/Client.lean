import Uniqueness.Client.Retry
import Uniqueness.Cluster.Address
import Uniqueness.Cluster.Message

namespace Uniqueness

open Cluster (Call ChangeReply ExecuteReply LeaderHint Network QueryReply Status StatusReport)

structure Client where
  first : String
  others : List String
  next : Nat
  leader : Option String
  policy : Client.RetryPolicy
  deriving DecidableEq

namespace Client

def endpoints (c : Client) : List String :=
  c.first :: c.others

def ofEndpoints : List String → Except Cluster.Fault Client
  | [] => .error (.config "no notary endpoints given")
  | first :: others => .ok ⟨first, others, 0, none, .standard⟩

def endpoint (c : Client) (i : Nat) : String :=
  c.endpoints.getD (i % c.endpoints.length) c.first

def target (c : Client) : String :=
  c.leader.getD (c.endpoint c.next)

def rotate (c : Client) : Client :=
  { c with next := (c.next + 1) % c.endpoints.length }

inductive Outcome where
  | done (response : Response)
  | redirect (address : String)
  | backoff (fault : Cluster.Fault)
  | fail (fault : Cluster.Fault)
  deriving DecidableEq

def ofRefusal (target reason : String) (leader : LeaderHint) : Outcome :=
  if !leader.address.isEmpty && leader.address != target then .redirect leader.address
  else if reason.isEmpty then .backoff (.notLeader (if leader.id = 0 then none else some leader.id))
  else .backoff (.remote reason)

def ofReply (target : String) : Except Status ExecuteReply → Outcome
  | .error status =>
    if status.code = .invalidArgument then .fail (.network status) else .backoff (.network status)
  | .ok (.done result) => match Json.decode Response result with
    | .ok response => .done response
    | .error fault => .fail (.undecodable fault)
  | .ok (.refused reason leader) => ofRefusal target reason leader

def checkAddress (address : String) : Except Cluster.Fault Unit :=
  (Cluster.Address.check address).mapError fun fault => .config fault.message

variable {σ α : Type}

def attempt (net : Network σ) (command : Command) (target : String) (w : σ) : Outcome × σ :=
  match checkAddress target with
  | .error fault => (.fail fault, w)
  | .ok () =>
    let (reply, w) := net.execute target (Json.encode command) w
    (ofReply target reply, w)

structure Run (σ : Type) where
  result : Except Cluster.Fault Response
  client : Client
  world : σ
  targets : List String
  waits : List UInt64

def Run.addTarget (target : String) (r : Run σ) : Run σ :=
  { r with targets := target :: r.targets }

def Run.addWait (wait : UInt64) (r : Run σ) : Run σ :=
  { r with waits := wait :: r.waits }

/-- Makes attempt number `n` at `target`, and up to `left` more. The last attempt's fault counts, and
leaves what the client knows as it is. -/
def attempts (once : String → σ → Outcome × σ) :
    (left n : Nat) → (target : String) → Client → σ → Run σ
  | left, n, target, c, w =>
    match once target w with
    | (.done response, w) => ⟨.ok response, c, w, [target], []⟩
    | (.fail fault, w) => ⟨.error fault, c, w, [target], []⟩
    | (.redirect address, w) =>
      match left with
      | 0 => ⟨.error (.remote ("still redirected to " ++ address ++ " after " ++ Decimal.text n
          ++ " attempts")), c, w, [target], []⟩
      | left + 1 =>
        (attempts once left (n + 1) address { c with leader := some address } w).addTarget target
    | (.backoff fault, w) =>
      match left with
      | 0 => ⟨.error fault, c, w, [target], []⟩
      | left + 1 =>
        let c := { c with leader := none }.rotate
        ((attempts once left (n + 1) (c.endpoint c.next) c w).addWait
          (c.policy.backoff (UInt32.ofNat n))).addTarget target

def execute (net : Network σ) (c : Client) (command : Command) (w : σ) : Run σ :=
  attempts (attempt net command) (c.policy.maxAttempts.toNat - 1) 1 c.target c w

abbrev Answer (σ α : Type) := Except Cluster.Fault α × Client × σ

def answer (f : Response → Except Failure α) (r : Run σ) : Answer σ α :=
  (do (f (← r.result)).mapError .response, r.client, r.world)

def commit (net : Network σ) (c : Client) (claim : Claim) (w : σ) : Answer σ Verdict :=
  answer Response.toVerdict (c.execute net (.claim claim) w)

def consumer (net : Network σ) (c : Client) (key : StateRef) (w : σ) : Answer σ (Option Consumption) :=
  answer Response.toValue (c.execute net (.get key) w)

def count (net : Network σ) (c : Client) (w : σ) : Answer σ UInt64 :=
  answer Response.toSize (c.execute net .size w)

def asProvider (a : Answer σ α) : Except Failure α × Client × σ :=
  (a.1.mapError Cluster.Fault.toFailure, a.2)

def call (address : String) (request : Call σ α) (w : σ) : Except Cluster.Fault α × σ :=
  match checkAddress address with
  | .error fault => (.error fault, w)
  | .ok () =>
    let (reply, w) := request w
    (reply.mapError .network, w)

def readQuery : QueryReply → Except Cluster.Fault Response
  | .refused reason => .error (.remote reason)
  | .done result => (Json.decode Response result).mapError .undecodable

def localConsumer (net : Network σ) (address : String) (key : StateRef) (w : σ) :
    Except Cluster.Fault (Option Consumption) × σ :=
  let (reply, w) := call address (net.query address (Json.encode (Command.get key))) w
  (do (← readQuery (← reply)).toValue.mapError .response, w)

def statusAt (net : Network σ) (address : String) (w : σ) : Except Cluster.Fault StatusReport × σ :=
  call address (net.status address) w

def statusAmong (net : Network σ) (last : Cluster.Fault) : List String → σ →
    Except Cluster.Fault StatusReport × σ
  | [], w => (.error last, w)
  | address :: rest, w =>
    match statusAt net address w with
    | (.error (.network status), w) => statusAmong net (.network status) rest w
    | found => found

def status (net : Network σ) (c : Client) (w : σ) : Except Cluster.Fault StatusReport × σ :=
  statusAmong net (.notLeader none) c.endpoints w

def leaderOf (report : StatusReport) : Except Cluster.Fault String :=
  match report.members.find? fun m => m.isLeader && !m.address.isEmpty with
  | some m => .ok m.address
  | none => .error (.notLeader (if report.leader = 0 then none else some report.leader))

def findLeader (net : Network σ) (c : Client) (w : σ) : Answer σ String :=
  match c.leader with
  | some address => (.ok address, c, w)
  | none =>
    let (report, w) := c.status net w
    match report >>= leaderOf with
    | .error fault => (.error fault, c, w)
    | .ok address => (.ok address, { c with leader := some address }, w)

def readChange : ChangeReply → Except Cluster.Fault Unit
  | .done => .ok ()
  | .refused reason => .error (.remote reason)

def change (net : Network σ) (c : Client) (request : String → Call σ ChangeReply) (w : σ) :
    Answer σ Unit :=
  match c.findLeader net w with
  | (.error fault, c, w) => (.error fault, c, w)
  | (.ok leader, c, w) =>
    let (reply, w) := call leader (request leader) w
    (do readChange (← reply), c, w)

def addNode (net : Network σ) (c : Client) (node : UInt64) (address : String) (w : σ) : Answer σ Unit :=
  c.change net (fun leader => net.addNode leader node address) w

def removeNode (net : Network σ) (c : Client) (node : UInt64) (w : σ) : Answer σ Unit :=
  c.change net (fun leader => net.removeNode leader node) w

end Client

end Uniqueness
