import Uniqueness.Log.Entry
import Uniqueness.Storage

/-!
A replica: a machine that is driven by the replicated log, the position it has reached there, and
its snapshots. The position is kept in the machine's store and written after each batch of entries,
so that a replica that was interrupted has reached at least what it says; entries that are applied
again change nothing.
-/

namespace Uniqueness

structure Applied where
  last : Option Log.Id
  membership : Log.StoredMembership
  deriving DecidableEq, Inhabited

namespace Applied

def start : Applied :=
  ⟨none, .empty⟩

structure Draft where
  last : Option (Option Log.Id) := none
  membership : Option Log.StoredMembership := none

def shape : Shape Draft where
  title := "AppliedState"
  fields := [.of "last_applied_log" Draft.last fun d a => { d with last := some a },
    .of "last_membership" Draft.membership fun d a => { d with membership := some a }]

instance : Codec Applied where
  toTree a := .object [("last_applied_log", toTree a.last), ("last_membership", toTree a.membership)]
  ofTree t := do
    let d ← shape.read {} t
    return ⟨d.last.join, ← required "last_membership" d.membership⟩

end Applied

structure Replica where
  machine : Machine
  applied : Applied
  archive : Archive
  deriving DecidableEq

namespace Replica

open Archive (Meta)

def appliedNote : String :=
  "raft_applied_state"

def appliedOf (s : Store) : Except Fault Applied :=
  match s.readNote appliedNote with
  | none => .ok .start
  | some bs => Json.decode Applied bs

def ofDisk (s : Store) (folder : Archive.Folder) : Except Fault Replica := do
  return ⟨.ofStore s, ← appliedOf s, .ofFolder folder⟩

def empty : Replica :=
  ⟨.empty, .start, .empty⟩

instance : Inhabited Replica :=
  ⟨empty⟩

def reopen (r : Replica) : Except Fault Replica :=
  ofDisk r.machine.store r.archive.folder

def persist (r : Replica) : Replica :=
  { r with machine.store := r.machine.store.writeNote appliedNote (Json.encode r.applied) }

def applyEntry (r : Replica) (e : Log.Entry) : Except Storage.Fault (Response × Replica) :=
  match e.payload with
  | .blank => .ok (.noop, { r with applied.last := some e.id })
  | .command c => match r.machine.apply c with
    | .ok (response, machine) => .ok (response, { r with machine, applied.last := some e.id })
    | .error fault => .error ⟨.write, .stateMachine, .machine fault⟩
  | .membership m => .ok (.noop, { r with applied := ⟨some e.id, some e.id, m⟩ })

def applyAll (r : Replica) : List Log.Entry → Except Storage.Fault (List Response) × Replica
  | [] => (.ok [], r)
  | e :: rest => match r.applyEntry e with
    | .error fault => (.error fault, r)
    | .ok (response, r) => match r.applyAll rest with
      | (.ok responses, r) => (.ok (response :: responses), r)
      | (.error fault, r) => (.error fault, r)

/-- Applies a batch and then writes the position down, unless an entry fails. -/
def apply (r : Replica) (batch : List Log.Entry) : Except Storage.Fault (List Response) × Replica :=
  match r.applyAll batch with
  | (.ok responses, r) => (.ok responses, if batch.isEmpty then r else r.persist)
  | (.error fault, r) => (.error fault, r)

def snapshotName (a : Applied) (n : UInt64) : String :=
  match a.last with
  | none => "--" ++ Decimal.text n.toNat
  | some id => id.leader.text ++ "-" ++ Decimal.text id.index.toNat ++ "-" ++ Decimal.text n.toNat

def build (r : Replica) : Except Storage.Fault (Meta × Bytes) × Replica :=
  let (n, archive) := r.archive.draw
  let about : Meta := ⟨r.applied.last, r.applied.membership, snapshotName r.applied n⟩
  match r.machine.snapshot none with
  | .error fault =>
    (.error ⟨.write, .snapshot, .snapshot fault⟩, { r with archive := archive.writeDraft n [] })
  | .ok stream => match (archive.writeDraft n stream).commit n about (Archive.draftName n) with
    | (.error fault, archive) => (.error ⟨.write, .snapshot, .archive fault⟩, { r with archive })
    | (.ok (), archive) =>
      (match archive.read ⟨n, about⟩ with
        | .error fault => .error ⟨.read, .snapshot, .archive fault⟩
        | .ok stream => .ok (about, stream), { r with archive })

def receive (r : Replica) (stream : Bytes) : Replica :=
  { r with archive := r.archive.receive stream }

/-- Replaces contents and position by those of the snapshot that arrived. The contents come first;
if they cannot be read, everything else stays as it is. -/
def install (r : Replica) (about : Meta) : Except Storage.Fault Unit × Replica :=
  match r.archive.received with
  | .error fault => (.error ⟨.read, .snapshot, .archive fault⟩, r)
  | .ok stream => match r.machine.install stream with
    | (.error fault, machine) => (.error ⟨.read, .snapshot, .snapshot fault⟩, { r with machine })
    | (.ok _, machine) =>
      let r := { r with machine, applied := ⟨about.last, about.membership⟩ }.persist
      let (n, archive) := r.archive.draw
      match archive.commit n about Archive.receivingName with
      | (.error fault, archive) => (.error ⟨.write, .snapshot, .archive fault⟩, { r with archive })
      | (.ok (), archive) => (.ok (), { r with archive })

def currentMeta (r : Replica) : Option Meta :=
  r.archive.current.map (·.about)

def current (r : Replica) : Except Storage.Fault (Option (Meta × Bytes)) :=
  match r.archive.current with
  | none => .ok none
  | some s => match r.archive.read s with
    | .error fault => .error ⟨.read, .snapshot, .archive fault⟩
    | .ok stream => .ok (some (s.about, stream))

end Replica

end Uniqueness
