import Uniqueness.Digest
import Uniqueness.SortedMap

namespace Uniqueness

structure StateRef where
  tx : Digest
  index : UInt32
  deriving DecidableEq, Inhabited

namespace StateRef

instance : Ord StateRef :=
  ⟨compareLex (compareOn tx) (compareOn index)⟩

instance : Std.TransOrd StateRef :=
  inferInstanceAs (Std.TransCmp (compareLex (compareOn tx) (compareOn index)))

theorem compare_eq (a b : StateRef) :
    compare a b = (compare a.tx b.tx).then (compare a.index b.index) :=
  rfl

instance : Std.LawfulEqOrd StateRef where
  compare_self := by simp
  eq_of_compare {a b} h := by
    obtain ⟨tx, index⟩ := a
    obtain ⟨tx', index'⟩ := b
    simpa [compare_eq, Ordering.then_eq_eq] using h

def key (r : StateRef) : Bytes :=
  r.tx.bytes ++ Bytes.word r.index.toNat

def ofKey? (k : Bytes) : Option StateRef :=
  match Digest.ofBytes? (k.take 32) with
  | none => none
  | some tx =>
    if (k.drop 32).length = 4 then some ⟨tx, UInt32.ofNat (Bytes.toNat (k.drop 32))⟩ else none

def text (r : StateRef) : String :=
  r.tx.text ++ ":" ++ Decimal.text r.index.toNat

def detail (r : StateRef) : String :=
  Text.record "StateRef" [("txhash", r.tx.detail), ("index", Decimal.text r.index.toNat)]

inductive Fault where
  | form (text : String)
  | digest (fault : Digest.Fault)
  deriving DecidableEq

def Fault.message : Fault → String
  | .form text => "Invalid state reference '" ++ text ++ "', expected <txhash>:<index>"
  | .digest fault => fault.message

def halves? (s : String) : Option (String × String) :=
  match s.toList.dropWhile (· != ':') with
  | [] => none
  | _ :: rest => some (String.ofList (s.toList.takeWhile (· != ':')), String.ofList rest)

/-- The position is read before the digest, so that a text with two faults is named for its form. -/
def parse (s : String) : Except Fault StateRef :=
  match halves? s with
  | none => .error (.form s)
  | some (digest, position) => match Decimal.word32? position with
    | none => .error (.form s)
    | some index => match Digest.parse digest with
      | .error fault => .error (.digest fault)
      | .ok tx => .ok ⟨tx, index⟩

structure Draft where
  tx : Option Digest := none
  index : Option UInt32 := none

def shape : Shape Draft where
  title := "StateRef"
  fields := [.of "txhash" Draft.tx fun d a => { d with tx := some a },
    .of "index" Draft.index fun d a => { d with index := some a }]

instance : Codec StateRef where
  toTree r := .object [("txhash", toTree r.tx), ("index", toTree r.index)]
  ofTree t := do
    let d ← shape.read {} t
    return ⟨← required "txhash" d.tx, ← required "index" d.index⟩

end StateRef

end Uniqueness
