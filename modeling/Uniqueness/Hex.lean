import Uniqueness.Bytes

namespace Uniqueness.Hex

inductive Fault where
  | oddLength
  | badDigit (byte : UInt8) (position : Nat)
  deriving DecidableEq

def digit (n : Nat) : Char :=
  if n < 10 then Char.ofNat (48 + n) else Char.ofNat (87 + n)

def value? (b : UInt8) : Option Nat :=
  let n := b.toNat
  if 48 ≤ n ∧ n ≤ 57 then some (n - 48)
  else if 97 ≤ n ∧ n ≤ 102 then some (n - 87)
  else if 65 ≤ n ∧ n ≤ 70 then some (n - 55)
  else none

def encode (bs : Bytes) : List Char :=
  bs.flatMap fun b => [digit (b.toNat / 16), digit (b.toNat % 16)]

def text (bs : Bytes) : String :=
  String.ofList (encode bs)

def decodeFrom (i : Nat) (done : Bytes) : Bytes → Except Fault Bytes
  | [] => .ok done.reverse
  | [_] => .error .oddLength
  | a :: b :: rest =>
    match value? a with
    | none => .error (.badDigit a i)
    | some high =>
      match value? b with
      | none => .error (.badDigit b (i + 1))
      | some low => decodeFrom (i + 2) (UInt8.ofNat (16 * high + low) :: done) rest

def decode (digits : Bytes) : Except Fault Bytes :=
  if digits.length % 2 = 0 then decodeFrom 0 [] digits else .error .oddLength

theorem value?_digit : ∀ n, n < 16 → value? (UInt8.ofNat (digit n).toNat) = some n := by
  decide

end Uniqueness.Hex
