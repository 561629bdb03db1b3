import Uniqueness.Tree
import Uniqueness.Utf8
import Uniqueness.Hex

namespace Uniqueness.Json

def isSpace (b : UInt8) : Bool :=
  b == 0x20 || b == 0x0A || b == 0x0D || b == 0x09

def skip (bs : Bytes) : Bytes :=
  bs.dropWhile isSpace

def isDigit (b : UInt8) : Bool :=
  0x30 ≤ b && b ≤ 0x39

inductive Piece where
  | byte (b : UInt8)
  | unit (n : Nat)
  deriving DecidableEq

def simpleEscape? (b : UInt8) : Option Nat :=
  if b = 0x22 ∨ b = 0x5C ∨ b = 0x2F then some b.toNat
  else if b = 0x62 then some 0x08
  else if b = 0x66 then some 0x0C
  else if b = 0x6E then some 0x0A
  else if b = 0x72 then some 0x0D
  else if b = 0x74 then some 0x09
  else none

def unit? (a b c d : UInt8) : Option Nat := do
  let a ← Hex.value? a
  let b ← Hex.value? b
  let c ← Hex.value? c
  let d ← Hex.value? d
  return ((a * 16 + b) * 16 + c) * 16 + d

def scan (done : List Piece) : Bytes → Option (List Piece × Bytes)
  | [] => none
  | b :: rest =>
    if b = 0x22 then some (done.reverse, rest)
    else if b = 0x5C then
      match rest with
      | [] => none
      | e :: rest =>
        if e = 0x75 then
          match rest with
          | w :: x :: y :: z :: rest =>
            match unit? w x y z with
            | none => none
            | some n => scan (.unit n :: done) rest
          | _ => none
        else
          match simpleEscape? e with
          | none => none
          | some n => scan (.unit n :: done) rest
    else if b < 0x20 then none
    else scan (.byte b :: done) rest

def isHighSurrogate (n : Nat) : Bool :=
  0xD800 ≤ n && n < 0xDC00

def isLowSurrogate (n : Nat) : Bool :=
  0xDC00 ≤ n && n < 0xE000

def assemble (done : Bytes) : List Piece → Option Bytes
  | [] => some done.reverse
  | .byte b :: ps => assemble (b :: done) ps
  | .unit n :: ps =>
    if isHighSurrogate n then
      match ps with
      | .unit m :: ps =>
        if isLowSurrogate m then
          let c := Char.ofNat (0x10000 + (n - 0xD800) * 0x400 + (m - 0xDC00))
          assemble ((Utf8.encodeChar c).reverse ++ done) ps
        else none
      | _ => none
    else if isLowSurrogate n then none
    else assemble ((Utf8.encodeChar (Char.ofNat n)).reverse ++ done) ps

def isUnit : Piece → Bool
  | .byte _ => false
  | .unit _ => true

def labelOf (ps : List Piece) : Label :=
  match assemble [] ps with
  | none => .unreadable
  | some bs => match Utf8.decode? bs with
    | none => .unreadable
    | some s => if ps.any isUnit then .escaped s else .plain s

def label (bs : Bytes) : Option (Label × Bytes) :=
  (scan [] bs).map fun p => (labelOf p.1, p.2)

def textOfLabel : Label → Tree
  | .plain s | .escaped s => .text s
  | .unreadable => .unreadable

def digits (bs : Bytes) : Bytes × Bytes :=
  (bs.takeWhile isDigit, bs.dropWhile isDigit)

def natOfDigits (ds : Bytes) : Nat :=
  ds.foldl (fun n b => n * 10 + (b.toNat - 48)) 0

def whole? (bs : Bytes) : Option (Bytes × Bytes) :=
  match digits bs with
  | ([], _) => none
  | (0x30 :: _ :: _, _) => none
  | found => some found

def fraction? (bs : Bytes) : Option (Bytes × Bytes) :=
  match bs with
  | 0x2E :: rest => match digits rest with
    | ([], _) => none
    | (ds, rest) => some (0x2E :: ds, rest)
  | bs => some ([], bs)

def exponent? (bs : Bytes) : Option (Bytes × Bytes) :=
  match bs with
  | b :: rest =>
    if b = 0x65 ∨ b = 0x45 then
      let (sign, rest) : Bytes × Bytes := match rest with
        | 0x2B :: rest => ([0x2B], rest)
        | 0x2D :: rest => ([0x2D], rest)
        | rest => ([], rest)
      match digits rest with
      | ([], _) => none
      | (ds, rest) => some (b :: sign ++ ds, rest)
    else some ([], b :: rest)
  | [] => some ([], [])

def numberTree (negative : Bool) (ds fraction exponent : Bytes) : Tree :=
  if fraction.isEmpty && exponent.isEmpty && !(negative && ds == [0x30]) then
    let n : Int := natOfDigits ds
    .int (if negative then -n else n)
  else
    let sign : Bytes := if negative then [0x2D] else []
    .real (String.ofList ((sign ++ ds ++ fraction ++ exponent).map fun b => Char.ofNat b.toNat))

def number (bs : Bytes) : Option (Tree × Bytes) := do
  let (negative, bs) := match bs with
    | 0x2D :: rest => (true, rest)
    | bs => (false, bs)
  let (ds, bs) ← whole? bs
  let (fraction, bs) ← fraction? bs
  let (exponent, bs) ← exponent? bs
  return (numberTree negative ds fraction exponent, bs)

def after? (word : String) (bs : Bytes) : Option Bytes :=
  let w := Utf8.encode word
  if w.isPrefixOf bs then some (bs.drop w.length) else none

def literal (word : String) (t : Tree) (bs : Bytes) : Tree × Bytes :=
  match after? word bs with
  | some rest => (t, rest)
  | none => (.broken, bs)

mutual

def value : Nat → Bytes → Tree × Bytes
  | 0, bs => (.broken, bs)
  | fuel + 1, bs =>
    match skip bs with
    | [] => (.broken, [])
    | b :: rest =>
      if b = 0x22 then
        match label rest with
        | none => (.broken, rest)
        | some (l, rest) => (textOfLabel l, rest)
      else if b = 0x5B then
        match skip rest with
        | 0x5D :: rest => (.list [] .closed, rest)
        | rest =>
          let (items, ending, rest) := items fuel rest
          (.list items ending, rest)
      else if b = 0x7B then
        match skip rest with
        | 0x7D :: rest => (.table [] .closed, rest)
        | rest =>
          let (fields, ending, rest) := fields fuel rest
          (.table fields ending, rest)
      else if b = 0x6E then literal "null" .null (b :: rest)
      else if b = 0x74 then literal "true" (.bool true) (b :: rest)
      else if b = 0x66 then literal "false" (.bool false) (b :: rest)
      else
        match number (b :: rest) with
        | none => (.broken, rest)
        | some found => found

def items : Nat → Bytes → List Tree × Ending × Bytes
  | 0, bs => ([], .broken, bs)
  | fuel + 1, bs =>
    let (t, rest) := value fuel bs
    if t.isSound then
      match skip rest with
      | 0x2C :: rest =>
        let (ts, ending, rest) := items fuel rest
        (t :: ts, ending, rest)
      | 0x5D :: rest => ([t], .closed, rest)
      | rest => ([t], .broken, rest)
    else ([t], .broken, rest)

def fields : Nat → Bytes → List (Label × Tree) × Ending × Bytes
  | 0, bs => ([], .broken, bs)
  | fuel + 1, bs =>
    match skip bs with
    | 0x22 :: rest =>
      match label rest with
      | none => ([], .broken, rest)
      | some (l, rest) =>
        match skip rest with
        | 0x3A :: rest =>
          let (t, rest) := value fuel rest
          if t.isSound then
            match skip rest with
            | 0x2C :: rest =>
              let (more, ending, rest) := fields fuel rest
              ((l, t) :: more, ending, rest)
            | 0x7D :: rest => ([(l, t)], .closed, rest)
            | rest => ([(l, t)], .broken, rest)
          else ([(l, t)], .broken, rest)
        | rest => ([(l, .broken)], .broken, rest)
    | rest => ([], .broken, rest)

end

/-- The tree of the text's first value, and what follows it. Every step reads a byte, so twice the
text's length bounds the steps. -/
def parse (bs : Bytes) : Tree × Bytes :=
  value (2 * bs.length + 2) bs

end Uniqueness.Json
