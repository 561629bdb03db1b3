import Uniqueness.Log.Entry
import Uniqueness.Storage

/-!
The durable part of a node's log: entries under their indices, the id up to which the log was cut
off at its front, the vote, and the commit position. All are kept in JSON. Each call is one durable
step.
-/

namespace Uniqueness.Log

structure Journal where
  entries : SortedMap UInt64 Bytes
  purged : Option Bytes
  vote : Option Bytes
  committed : Option Bytes
  deriving DecidableEq

inductive Bound where
  | unbounded
  | included (index : UInt64)
  | excluded (index : UInt64)
  deriving DecidableEq

def Bound.below : Bound → UInt64 → Bool
  | .unbounded, _ => true
  | .included b, i => b ≤ i
  | .excluded b, i => b < i

def Bound.above : Bound → UInt64 → Bool
  | .unbounded, _ => true
  | .included b, i => i ≤ b
  | .excluded b, i => i < b

def Bound.after : Option Id → Bound
  | none => .unbounded
  | some id => .excluded id.index

structure Range where
  lower : Bound
  upper : Bound
  deriving DecidableEq

def Range.contains (r : Range) (i : UInt64) : Bool :=
  r.lower.below i && r.upper.above i

structure Extent where
  purged : Option Id
  last : Option Id
  deriving DecidableEq

namespace Journal

def empty : Journal :=
  ⟨.empty, none, none, none⟩

instance : Inhabited Journal :=
  ⟨empty⟩

def readAs (α : Type) [Codec α] (subject : Storage.Subject) (bs : Bytes) : Except Storage.Fault α :=
  (Json.decode α bs).mapError fun fault => ⟨.read, subject, .store (.record fault)⟩

def readAs? (α : Type) [Codec α] (subject : Storage.Subject) :
    Option Bytes → Except Storage.Fault (Option α)
  | none => .ok none
  | some bs => some <$> readAs α subject bs

def append (j : Journal) (es : List Entry) : Journal :=
  { j with entries := j.entries.insertAll (es.map fun e => (e.id.index, Json.encode e)) }

def read (j : Journal) (r : Range) : Except Storage.Fault (List Entry) :=
  (j.entries.filter r.contains).entries.mapM fun e => readAs Entry .logs e.2

def truncate (j : Journal) (id : Id) : Journal :=
  { j with entries := j.entries.filter (· < id.index) }

def purge (j : Journal) (id : Id) : Journal :=
  { j with entries := j.entries.filter (id.index < ·), purged := some (Json.encode id) }

def lastEntry (j : Journal) : Except Storage.Fault (Option Id) :=
  match j.entries.last? with
  | none => .ok none
  | some e => do return some (← readAs Entry .logs e.2).id

def extent (j : Journal) : Except Storage.Fault Extent := do
  let purged ← readAs? Id .logs j.purged
  let last ← j.lastEntry
  return ⟨purged, last <|> purged⟩

def saveVote (j : Journal) (v : Vote) : Journal :=
  { j with vote := some (Json.encode v) }

def readVote (j : Journal) : Except Storage.Fault (Option Vote) :=
  readAs? Vote .vote j.vote

def saveCommitted (j : Journal) (id : Option Id) : Journal :=
  { j with committed := some (Json.encode id) }

def readCommitted (j : Journal) : Except Storage.Fault (Option Id) :=
  Option.join <$> readAs? (Option Id) .logs j.committed

end Journal

end Uniqueness.Log
