import Uniqueness.Command
import Uniqueness.Response
import Uniqueness.Snapshot

/-!
The state machine: claims, look-ups and counts on a store. After a snapshot that could not be
installed the machine answers no query until one is.
-/

namespace Uniqueness

structure Machine where
  store : Store
  needsResync : Bool
  deriving DecidableEq

namespace Machine

inductive Fault where
  | store (fault : Store.Fault)
  | notAQuery (name : String)
  | needsResync
  deriving DecidableEq

def Fault.message : Fault → String
  | .store fault => "Store error: " ++ fault.message
  | .notAQuery name => "Command '" ++ name ++ "' is not read-only"
  | .needsResync => "Replica requires a snapshot resync"

def ofStore (s : Store) : Machine :=
  ⟨s, false⟩

def empty : Machine :=
  ofStore .empty

instance : Inhabited Machine :=
  ⟨empty⟩

def reopen (m : Machine) : Machine :=
  ofStore m.store

/-- Records all inputs or none. A claim without inputs succeeds and touches nothing. -/
def claim (m : Machine) (c : Claim) : Except Store.Fault (Verdict × Machine) := do
  let records := c.records
  if records.isEmpty then return (.success, m)
  else
    let (existing, store) ← m.store.putAllIfAbsent records
    if existing.isEmpty then return (.success, { m with store })
    else return (.conflict ⟨existing⟩, { m with store })

def dispatch (m : Machine) (command : Command) : Except Store.Fault (Response × Machine) :=
  match command with
  | .claim c => do
    let (verdict, m) ← m.claim c
    return (.ofVerdict verdict, m)
  | .get key => do return (.value (← m.store.get key), m)
  | .size => .ok (.size (UInt64.ofNat m.store.size), m)

def apply (m : Machine) (command : Command) : Except Fault (Response × Machine) :=
  (m.dispatch command).mapError .store

def query (m : Machine) (command : Command) : Except Fault Response :=
  if !command.isReadOnly then .error (.notAQuery command.name)
  else if m.needsResync then .error .needsResync
  else (m.dispatch command).map (·.1) |>.mapError .store

def snapshot (m : Machine) (room : Option Nat) : Except Snapshot.Fault Bytes := do
  let entries ← m.store.entries.mapError .store
  Snapshot.write room m.store.size entries

/-- Replaces the contents by those of a stream and answers how many entries it has. A stream that is
not well formed leaves the contents as they are. -/
def install (m : Machine) (stream : Bytes) : Except Snapshot.Fault Nat × Machine :=
  let loaded := do
    let reader ← Snapshot.readHeader stream
    m.store.replaceAll reader.items.1
  match loaded with
  | .ok (count, store) => (.ok count, ⟨store, false⟩)
  | .error fault => (.error fault, { m with needsResync := true })

def detail (m : Machine) : String :=
  "UniquenessStateMachine \x7b resync_required: " ++ toString m.needsResync ++ ", .. \x7d"

end Machine

end Uniqueness
