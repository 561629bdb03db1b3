import Uniqueness.Cluster.Address
import Uniqueness.Cluster.Forward
import Uniqueness.Log.Journal
import Uniqueness.Replica

namespace Uniqueness.Cluster

structure Disk where
  journal : Log.Journal
  store : Store
  folder : Archive.Folder
  deriving DecidableEq

namespace Disk

def empty : Disk :=
  ⟨.empty, .empty, .empty⟩

end Disk

structure Node where
  settings : Settings
  journal : Log.Journal
  replica : Replica
  vote : Option Log.Vote
  last : Option Log.Id
  membership : Log.Membership
  snapshot : Option Log.Id
  isStopped : Bool
  deriving DecidableEq

namespace Node

def id (n : Node) : UInt64 :=
  n.settings.node

def disk (n : Node) : Disk :=
  ⟨n.journal, n.replica.machine.store, n.replica.archive.folder⟩

def wasElected (n : Node) : Bool :=
  n.vote.any (fun v => v.committed && v.leader.node = n.id) && n.membership.voters.contains n.id

def purgePoint? (n : Node) (id : Log.Id) : Option UInt64 :=
  let count := Log.countTo (some id) - n.settings.compaction.kept.toNat
  if count = 0 then none else some (UInt64.ofNat (count - 1))

def purge (n : Node) (id : Log.Id) : Node :=
  match n.purgePoint? id with
  | none => n
  | some index =>
    match n.journal.read ⟨.included index, .included index⟩ with
    | .ok [e] => { n with journal := n.journal.purge e.id }
    | _ => n

def buildSnapshot (n : Node) : Except Storage.Fault Unit × Node :=
  match n.replica.build with
  | (.error fault, replica) => (.error fault, { n with replica })
  | (.ok (about, _), replica) =>
    let n := { n with replica, snapshot := about.last }
    match about.last with
    | none => (.ok (), n)
    | some id => (.ok (), n.purge id)

def needsSnapshot (n : Node) : Bool :=
  Log.countTo n.snapshot + n.settings.compaction.threshold.toNat ≤ Log.countTo n.replica.applied.last

def nextIndex (n : Node) : UInt64 :=
  match n.last with
  | none => 0
  | some id => id.index + 1

def isMajority (n : Node) : Bool :=
  n.membership.agrees (.ofList [n.id])

def append (n : Node) (e : Log.Entry) : Node :=
  { n with
    journal := n.journal.append [e]
    last := some e.id
    membership := match e.payload with
      | .membership m => m
      | _ => n.membership }

def apply (n : Node) (e : Log.Entry) : Written Response × Node :=
  let n := { n with journal := n.journal.saveCommitted (some e.id) }
  match n.replica.apply [e] with
  | (.ok (response :: _), replica) =>
    let n := { n with replica }
    (.applied response, if n.needsSnapshot then n.buildSnapshot.2 else n)
  | (_, replica) => (.failed .stopped, { n with replica, isStopped := true })

def writeEntry (n : Node) (e : Log.Entry) : Written Response × Node :=
  let n := n.append e
  if n.isMajority then n.apply e else (.waiting, n)

def writePayload (n : Node) (p : Log.Payload) : Written Response × Node :=
  if n.isStopped then (.failed .stopped, n)
  else match n.vote with
    | none => (.failed (.forward none none), n)
    | some vote =>
      if n.wasElected then n.writeEntry ⟨⟨vote.leader, n.nextIndex⟩, p⟩
      else (.failed (.forward none none), n)

def write (command : Command) (n : Node) : Written Response × Node :=
  n.writePayload (.command command)

def writeMembership (n : Node) (m : Log.Membership) : Written Unit × Node :=
  match n.writePayload (.membership m) with
  | (.applied _, n) => (.applied (), n)
  | (.waiting, n) => (.waiting, n)
  | (.failed fault, n) => (.failed fault, n)

def addLearner (node : UInt64) (address : String) (n : Node) : Written Unit × Node :=
  n.writeMembership (n.membership.addLearner node address)

def changeVoters (voters : Log.Voters) (n : Node) : Written Unit × Node :=
  if n.isStopped then (.failed .stopped, n)
  else if !n.wasElected then (.failed (.forward none none), n)
  else
    let first := n.membership.toward voters
    match WriteFault.ofMembership? first with
    | some fault => (.failed fault, n)
    | none => match n.writeMembership first with
      | (.applied (), n) =>
        if first.configs.length ≤ 1 then (.applied (), n)
        else n.writeMembership (n.membership.toward voters)
      | other => other

def role (n : Node) : Role :=
  if n.isStopped then .shutdown
  else if n.wasElected then .leader
  else if n.membership.voters.contains n.id then .follower
  else .learner

def view (n : Node) : View where
  role := n.role
  leader := if n.wasElected then some n.id else none
  term := (n.vote.map (·.leader.term)).getD 0
  lastIndex := n.last.map (·.index)
  applied := n.replica.applied.last
  snapshot := n.snapshot
  membership := n.membership

def consensus : Consensus Node where
  write := write
  query command n := n.replica.machine.query command
  addLearner := addLearner
  changeVoters := changeVoters
  view := view

def isFresh (n : Node) : Bool :=
  n.last.isNone && n.vote.isNone

def bootstrap (n : Node) : Except Fault Unit × Node :=
  if n.isStopped then (.error (WriteFault.toFault .stopped), n)
  else if !n.isFresh then (.error (.consensus "APIError(NotAllowed)"), n)
  else
    let voters : Log.Voters := .ofList [n.id]
    let first : Log.Entry :=
      ⟨⟨⟨0, 0⟩, 0⟩, .membership ⟨[voters], .ofList [(n.id, n.settings.address)]⟩⟩
    let vote : Log.Vote := ⟨⟨1, n.id⟩, true⟩
    let n := { n with vote := some vote, journal := n.journal.saveVote vote }
    match n.writeEntry first with
    | (.failed fault, n) => (.error fault.toFault, n)
    | (_, n) => match n.writePayload .blank with
      | (.failed fault, n) => (.error fault.toFault, n)
      | (_, n) => (.ok (), n)

def lastMembership (before : Log.Membership) (es : List Log.Entry) : Log.Membership :=
  es.foldl (fun m e => match e.payload with
    | .membership m => m
    | _ => m) before

def atMost (limit : Option Log.Id) (e : Log.Entry) : Bool :=
  limit.any fun id => e.id.index ≤ id.index

def recover (settings : Settings) (journal : Log.Journal) (replica : Replica) :
    Except Storage.Fault Node := do
  let extent ← journal.extent
  let vote ← journal.readVote
  let committed ← journal.readCommitted
  let later ← journal.read ⟨.after replica.applied.last, .unbounded⟩
  let membership := lastMembership replica.applied.membership.membership later
  let (applied, replica) := replica.apply (later.filter (atMost committed))
  let _ ← applied
  return ⟨settings, journal, replica, vote, extent.last, membership,
    (replica.currentMeta.map (·.last)).join, false⟩

def noBatch : String :=
  "max_payload_entries must be > 0"

def check (settings : Settings) : Except Fault Unit := do
  settings.validate.mapError fun fault => .config fault.message
  if !Address.isListening settings.listen then .error (.config "invalid socket address syntax")

def start (settings : Settings) (disk : Disk) : Except Fault Node := do
  check settings
  let replica ← (Replica.ofDisk disk.store disk.folder).mapError .undecodable
  if settings.timing.batch = 0 then .error (.config noBatch)
  (recover settings disk.journal replica).mapError fun fault =>
    .consensus ("failed to create Raft: " ++ fault.message)

def restart (n : Node) : Except Fault Node :=
  start n.settings n.disk

def stop (n : Node) : Node :=
  { n with isStopped := true }

def query (n : Node) (command : Command) : Except Fault Response :=
  (n.replica.machine.query command).mapError .machine

def settle (r : Written Unit × Node) : Except Fault Unit × Node :=
  match r with
  | (.applied (), n) => (.ok (), n)
  | (.waiting, n) => (.error (.timeout n.settings.commitTimeout), n)
  | (.failed fault, n) => (.error (.consensus fault.detail), n)

def join (n : Node) (node : UInt64) (address : String) : Except Fault Unit × Node :=
  settle (n.addLearner node address)

def elect (n : Node) (voters : Log.Voters) : Except Fault Unit × Node :=
  settle (n.changeVoters voters)

def triggerSnapshot (n : Node) : Except Fault (Option UInt64) × Node :=
  if n.isStopped then (.error (.consensus "Stopped"), n)
  else match n.buildSnapshot with
    | (.ok (), n) => (.ok (n.snapshot.map (·.index)), n)
    | (.error fault, n) => (.error (.consensus fault.message), { n with isStopped := true })

def waitApplied (n : Node) (index milliseconds : UInt64) : Except Fault Unit :=
  if index.toNat < Log.countTo n.replica.applied.last then .ok () else .error (.timeout milliseconds)

def isLeader (n : Node) : Bool :=
  n.wasElected

end Node

end Uniqueness.Cluster
