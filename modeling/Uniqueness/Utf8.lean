import Uniqueness.Bytes

namespace Uniqueness.Utf8

def encodeChar (c : Char) : Bytes :=
  let n := c.toNat
  if n < 0x80 then [UInt8.ofNat n]
  else if n < 0x800 then [UInt8.ofNat (0xC0 + n / 64), UInt8.ofNat (0x80 + n % 64)]
  else if n < 0x10000 then
    [UInt8.ofNat (0xE0 + n / 4096), UInt8.ofNat (0x80 + n / 64 % 64), UInt8.ofNat (0x80 + n % 64)]
  else
    [UInt8.ofNat (0xF0 + n / 262144), UInt8.ofNat (0x80 + n / 4096 % 64),
      UInt8.ofNat (0x80 + n / 64 % 64), UInt8.ofNat (0x80 + n % 64)]

def encodeList (cs : List Char) : Bytes :=
  cs.flatMap encodeChar

def encode (s : String) : Bytes :=
  encodeList s.toList

def tail? (b : UInt8) : Option Nat :=
  if 0x80 ≤ b.toNat ∧ b.toNat < 0xC0 then some (b.toNat - 0x80) else none

def scalar? (least n : Nat) : Option Char :=
  if least ≤ n ∧ n.isValidChar then some (Char.ofNat n) else none

def decodeFrom (done : List Char) : Bytes → Option (List Char)
  | [] => some done.reverse
  | a :: rest =>
    let n := a.toNat
    if n < 0x80 then decodeFrom (Char.ofNat n :: done) rest
    else if n < 0xC0 then none
    else match rest with
    | [] => none
    | b :: rest =>
      match tail? b with
      | none => none
      | some x =>
        if n < 0xE0 then
          match scalar? 0x80 ((n - 0xC0) * 64 + x) with
          | none => none
          | some c => decodeFrom (c :: done) rest
        else match rest with
        | [] => none
        | b :: rest =>
          match tail? b with
          | none => none
          | some y =>
            if n < 0xF0 then
              match scalar? 0x800 (((n - 0xE0) * 64 + x) * 64 + y) with
              | none => none
              | some c => decodeFrom (c :: done) rest
            else match rest with
            | [] => none
            | b :: rest =>
              match tail? b with
              | none => none
              | some z =>
                match scalar? 0x10000 ((((n - 0xF0) * 64 + x) * 64 + y) * 64 + z) with
                | none => none
                | some c => decodeFrom (c :: done) rest

def decodeList? (bs : Bytes) : Option (List Char) :=
  decodeFrom [] bs

def decode? (bs : Bytes) : Option String :=
  (decodeList? bs).map String.ofList

end Uniqueness.Utf8
