import Uniqueness.Json
import Uniqueness.Verdict

/-!
The store of consumed states: a table from the keys of states to records in JSON, in the order of
the keys' bytes, and beside it named notes that others keep there. What is written here is durable;
a call that fails changes nothing.
-/

namespace Uniqueness

structure Store where
  table : SortedMap Bytes Bytes
  notes : SortedMap String Bytes
  deriving DecidableEq

namespace Store

abbrev Entry := StateRef × Consumption

inductive Fault where
  | unusable
  | record (fault : Uniqueness.Fault)
  | key (length : Nat)
  | io (reason : String)
  deriving DecidableEq

def Fault.message : Fault → String
  | .unusable => "Database error"
  | .record fault => "Value codec error: " ++ fault.summary
  | .key length => "Corrupt key of " ++ Decimal.text length ++ " bytes"
  | .io reason => "IO error: " ++ reason

def empty : Store :=
  ⟨.empty, .empty⟩

instance : Inhabited Store :=
  ⟨empty⟩

def ofFile (content : Bytes) : Except Fault Store :=
  if content.isEmpty then .ok empty else .error .unusable

def decodeRecord (bs : Bytes) : Except Fault Consumption :=
  (Json.decode Consumption bs).mapError .record

def decodeEntry (e : Bytes × Bytes) : Except Fault Entry :=
  match StateRef.ofKey? e.1 with
  | none => .error (.key e.1.length)
  | some r => do return (r, ← decodeRecord e.2)

def put (table : SortedMap Bytes Bytes) (e : Entry) : SortedMap Bytes Bytes :=
  table.insert e.1.key (Json.encode e.2)

def get (s : Store) (r : StateRef) : Except Fault (Option Consumption) :=
  match s.table.get? r.key with
  | none => .ok none
  | some bs => some <$> decodeRecord bs

def present (s : Store) : List StateRef → Except Fault (List Entry)
  | [] => .ok []
  | r :: keys => do
    let found ← s.get r
    let rest ← s.present keys
    match found with
    | none => return rest
    | some c => return (r, c) :: rest

def putAll (s : Store) (entries : List Entry) : Store :=
  { s with table := entries.foldl put s.table }

/-- Writes all entries if none of their keys is present, or else writes nothing and answers what is
present. -/
def putAllIfAbsent (s : Store) (entries : History) : Except Fault (History × Store) := do
  let existing ← s.present entries.keys
  if existing.isEmpty then return (.empty, s.putAll entries.entries)
  else return (.ofList existing, s)

def size (s : Store) : Nat :=
  s.table.size

abbrev Cursor := List (Bytes × Bytes)

def cursor (s : Store) : Cursor :=
  s.table.entries

def Cursor.next : Cursor → Option (Except Fault Entry) × Cursor
  | [] => (none, [])
  | e :: rest => match decodeEntry e with
    | .ok entry => (some (.ok entry), rest)
    | .error fault => (some (.error fault), [])

def entries (s : Store) : Except Fault (List Entry) :=
  s.table.entries.mapM decodeEntry

def clear (s : Store) : Store :=
  { s with table := .empty }

def load {ε : Type} (table : SortedMap Bytes Bytes) (count : Nat) :
    List (Except ε Entry) → Except ε (Nat × SortedMap Bytes Bytes)
  | [] => .ok (count, table)
  | .ok e :: items => load (put table e) (count + 1) items
  | .error fault :: _ => .error fault

def replaceAll {ε : Type} (s : Store) (items : List (Except ε Entry)) : Except ε (Nat × Store) := do
  let (count, table) ← load .empty 0 items
  return (count, { s with table })

def readNote (s : Store) (name : String) : Option Bytes :=
  s.notes.get? name

def writeNote (s : Store) (name : String) (value : Bytes) : Store :=
  { s with notes := s.notes.insert name value }

def detail (_ : Store) : String :=
  "UniquenessStore \x7b .. \x7d"

end Store

end Uniqueness
