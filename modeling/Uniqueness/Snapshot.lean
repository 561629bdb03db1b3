import Uniqueness.Store

/-!
Snapshots: the entries of a store as one stream of bytes. A count in four bytes comes first, then
each entry as the length of its JSON text, in four bytes, and the text. Entries come in the order
of their keys, so equal contents give equal streams.
-/

namespace Uniqueness.Snapshot

open Store (Entry)

inductive Corruption where
  | header
  | negative (count : Int)
  | ended (entry : Nat)
  | oversized (entry length : Nat)
  | truncated (entry : Nat)
  | invalid (entry : Nat) (fault : Uniqueness.Fault)
  | trailing (count : Nat)
  | reported (reason : String)
  deriving DecidableEq

def Corruption.message : Corruption → String
  | .header => "stream ends before the header"
  | .negative count => "negative entry count " ++ toString count
  | .ended entry => "stream ends before record " ++ Decimal.text entry
  | .oversized entry length =>
    "record " ++ Decimal.text entry ++ " claims " ++ Decimal.text length ++ " bytes"
  | .truncated entry => "record " ++ Decimal.text entry ++ " is truncated"
  | .invalid entry fault => "record " ++ Decimal.text entry ++ " is invalid: " ++ fault.summary
  | .trailing count => "trailing bytes after " ++ Decimal.text count ++ " records"
  | .reported reason => reason

inductive Fault where
  | corrupted (corruption : Corruption)
  | tooLarge (count : Nat)
  | miscounted (declared written : Nat)
  | io (reason : String)
  | store (fault : Store.Fault)
  deriving DecidableEq

def Fault.message : Fault → String
  | .corrupted corruption => "Corrupted snapshot: " ++ corruption.message
  | .tooLarge count => "Snapshot of " ++ Decimal.text count ++ " entries exceeds the format limit"
  | .miscounted declared written => "Snapshot declared " ++ Decimal.text declared ++ " entries but "
      ++ Decimal.text written ++ " were written"
  | .io reason => "IO error: " ++ reason
  | .store fault => "Store error: " ++ fault.message

def Fault.isCorruption : Fault → Bool
  | .corrupted _ => true
  | _ => false

structure Record where
  state : StateRef
  consumption : Consumption
  deriving DecidableEq

namespace Record

structure Draft where
  state : Option StateRef := none
  consumption : Option Consumption := none

def shape : Shape Draft where
  title := "Record"
  fields := [.of "state_ref" Draft.state fun d a => { d with state := some a },
    .of "consuming_tx" Draft.consumption fun d a => { d with consumption := some a }]
  noOthers := true

instance : Codec Record where
  toTree r := .object [("state_ref", toTree r.state), ("consuming_tx", toTree r.consumption)]
  ofTree t := do
    let d ← shape.read {} t
    return ⟨← required "state_ref" d.state, ← required "consuming_tx" d.consumption⟩

end Record

def frame (text : Bytes) : Bytes :=
  Bytes.word text.length ++ text

def entryBytes (e : Entry) : Bytes :=
  frame (Json.encode (⟨e.1, e.2⟩ : Record))

/-- The stream of `entries` under a declared `count`, for a target with room for so many bytes. A
target that is full is noticed before a count that does not fit. -/
def write (room : Option Nat) (count : Nat) (entries : List Entry) : Except Fault Bytes :=
  if UInt32.size / 2 ≤ count then .error (.tooLarge count)
  else
    let stream := Bytes.word count ++ entries.flatMap entryBytes
    if room.any (· < stream.length) then .error (.io "failed to write whole buffer")
    else if entries.length = count then .ok stream
    else .error (.miscounted count entries.length)

def maxRecord : Nat :=
  1024 * 1024

structure Reader where
  declared : Nat
  remaining : Nat
  rest : Bytes
  ended : Bool
  deriving DecidableEq

def readHeader (stream : Bytes) : Except Fault Reader :=
  match Bytes.split? 4 stream with
  | none => .error (.corrupted .header)
  | some (head, rest) =>
    let count := Bytes.signed (Bytes.toNat head)
    if count < 0 then .error (.corrupted (.negative count))
    else .ok ⟨count.toNat, count.toNat, rest, false⟩

def readEntry (i : Nat) (bs : Bytes) : Except Corruption (Entry × Bytes) :=
  match Bytes.split? 4 bs with
  | none => .error (.ended i)
  | some (head, rest) =>
    let length := Bytes.toNat head
    if maxRecord < length then .error (.oversized i length)
    else match Bytes.split? length rest with
      | none => .error (.truncated i)
      | some (text, rest) => match Json.decode Record text with
        | .error fault => .error (.invalid i fault)
        | .ok r => .ok ((r.state, r.consumption), rest)

namespace Reader

def next (r : Reader) : Option (Except Fault Entry) × Reader :=
  if r.ended then (none, r)
  else if r.remaining = 0 then
    (if r.rest.isEmpty then none else some (.error (.corrupted (.trailing r.declared))),
      { r with ended := true })
  else match readEntry (r.declared - r.remaining + 1) r.rest with
    | .ok (e, rest) => (some (.ok e), { r with remaining := r.remaining - 1, rest })
    | .error corruption =>
      (some (.error (.corrupted corruption)), { r with remaining := r.remaining - 1, ended := true })

def drain : Nat → Reader → List (Except Fault Entry) × Reader
  | 0, r => ([], r)
  | n + 1, r => match r.next with
    | (none, r) => ([], r)
    | (some item, r) => let (items, r) := drain n r; (item :: items, r)

def items (r : Reader) : List (Except Fault Entry) × Reader :=
  r.drain (r.remaining + 2)

end Reader

end Uniqueness.Snapshot
