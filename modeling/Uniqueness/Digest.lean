import Uniqueness.Codec
import Uniqueness.Hex
import Uniqueness.Sha256
import Uniqueness.Text.Blank
import Uniqueness.Text.Detail
import Uniqueness.Utf8

namespace Uniqueness

structure Digest where
  bytes : Bytes
  length_bytes : bytes.length = 32

namespace Digest

instance : DecidableEq Digest := fun a b =>
  if h : a.bytes = b.bytes then .isTrue (by cases a; cases b; cases h; rfl)
  else .isFalse fun e => h (congrArg bytes e)

@[ext] theorem ext {a b : Digest} (h : a.bytes = b.bytes) : a = b := by
  cases a; cases b; cases h; rfl

instance : Ord Digest :=
  ⟨compareOn bytes⟩

instance : Std.TransOrd Digest :=
  inferInstanceAs (Std.TransCmp (compareOn bytes))

theorem compare_eq_compare_bytes (a b : Digest) : compare a b = compare a.bytes b.bytes :=
  rfl

instance : Std.LawfulEqOrd Digest where
  compare_self := Std.compare_self (α := Bytes)
  eq_of_compare h := ext (Std.compare_eq_iff_eq.mp h)

def ofBytes? (bs : Bytes) : Option Digest :=
  if h : bs.length = 32 then some ⟨bs, h⟩ else none

def hash (bs : Bytes) : Digest :=
  ⟨Sha256.digest bs, Sha256.length_digest bs⟩

instance : Inhabited Digest :=
  ⟨⟨List.replicate 32 0, List.length_replicate⟩⟩

def text (d : Digest) : String :=
  Hex.text d.bytes

def short (d : Digest) : String :=
  Hex.text (d.bytes.take 4)

def detail (d : Digest) : String :=
  Text.applied "SecureHash" d.text

inductive Fault where
  | hex (fault : Hex.Fault)
  | length (found : Nat)
  deriving DecidableEq

def Fault.message : Fault → String
  | .hex .oddLength => "Invalid hex: Odd number of digits"
  | .hex (.badDigit byte position) =>
    "Invalid hex: Invalid character " ++ Text.quotedChar (Char.ofNat byte.toNat) ++ " at position "
      ++ Decimal.text position
  | .length found => "Expected 32 bytes, got " ++ Decimal.text found

def parse (s : String) : Except Fault Digest :=
  match Hex.decode (Utf8.encode (Text.trim s)) with
  | .error fault => .error (.hex fault)
  | .ok bs => match ofBytes? bs with
    | some d => .ok d
    | none => .error (.length bs.length)

instance : Codec Digest where
  toTree d := .text d.text
  ofTree t := do
    match parse (← ofTree t) with
    | .ok d => .ok d
    | .error fault => .error (.domain fault.message)

end Digest

end Uniqueness
