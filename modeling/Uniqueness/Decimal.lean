namespace Uniqueness.Decimal

def digit? (c : Char) : Option Nat :=
  if '0' ≤ c ∧ c ≤ '9' then some (c.toNat - 48) else none

def valueFrom (n : Nat) : List Char → Option Nat
  | [] => some n
  | c :: cs => match digit? c with
    | none => none
    | some d => valueFrom (n * 10 + d) cs

def value? : List Char → Option Nat
  | [] => none
  | cs => valueFrom 0 cs

def below? (bound : Nat) (cs : List Char) : Option Nat :=
  let digits := match cs with
    | '+' :: rest => rest
    | cs => cs
  match value? digits with
  | none => none
  | some n => if n < bound then some n else none

def word32? (s : String) : Option UInt32 :=
  (below? UInt32.size s.toList).map UInt32.ofNat

def word64? (s : String) : Option UInt64 :=
  (below? UInt64.size s.toList).map UInt64.ofNat

def digits (n : Nat) : List Char :=
  Nat.toDigits 10 n

def text (n : Nat) : String :=
  String.ofList (digits n)

def padded (width n : Nat) : String :=
  let ds := digits n
  String.ofList (List.replicate (width - ds.length) '0' ++ ds)

def canonical? (s : String) : Option UInt64 :=
  match word64? s with
  | none => none
  | some n => if text n.toNat = s then some n else none

end Uniqueness.Decimal
