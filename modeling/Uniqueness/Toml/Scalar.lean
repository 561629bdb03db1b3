import Uniqueness.Decimal
import Uniqueness.Hex
import Uniqueness.Toml.Quoted
import Uniqueness.Tree

namespace Uniqueness.Toml

def isScalar (c : Char) : Bool :=
  c.isAlphanum || c = '+' || c = '-' || c = '_' || c = '.' || c = ':'

def grouped? (isDigit : Char → Bool) : List Char → Option (List Char)
  | [] => none
  | [c] => if isDigit c then some [c] else none
  | c :: '_' :: rest => if isDigit c then (grouped? isDigit rest).map (c :: ·) else none
  | c :: rest => if isDigit c then (grouped? isDigit rest).map (c :: ·) else none

def valueIn (base : Nat) (digits : List Char) : Nat :=
  digits.foldl (fun n c => n * base + (hexValue? c).getD 0) 0

def isDigitIn (base : Nat) (c : Char) : Bool :=
  (hexValue? c).any (· < base)

def whole? (cs : List Char) : Option (List Char) :=
  match grouped? Char.isDigit cs with
  | some ('0' :: _ :: _) => none
  | found => found

def signed : List Char → Bool × List Char
  | '-' :: rest => (true, rest)
  | '+' :: rest => (false, rest)
  | cs => (false, cs)

def fits (n : Int) : Bool :=
  Int64.minValue.toInt ≤ n && n ≤ Int64.maxValue.toInt

def integer? (cs : List Char) : Option Int := do
  let n : Int ← match cs with
    | '0' :: 'x' :: rest => (grouped? (isDigitIn 16) rest).map fun ds => valueIn 16 ds
    | '0' :: 'o' :: rest => (grouped? (isDigitIn 8) rest).map fun ds => valueIn 8 ds
    | '0' :: 'b' :: rest => (grouped? (isDigitIn 2) rest).map fun ds => valueIn 2 ds
    | cs =>
      let (negative, rest) := signed cs
      (whole? rest).map fun ds => if negative then -(valueIn 10 ds : Int) else valueIn 10 ds
  if fits n then some n else none

def splitAt (marks : List Char) (cs : List Char) : List Char × Option (List Char) :=
  let (front, rest) := cs.span fun c => !marks.contains c
  (front, rest.tail?)

def overflows (digits : List Char) (exponent : Int) : Bool :=
  let n := valueIn 10 digits
  let most : Int := (Nat.toDigits 10 n).length + exponent
  if n = 0 || most < 309 then false
  else if 310 < most then true
  else
    let limit := Nat.pow 2 1024 - Nat.pow 2 970
    if 0 ≤ exponent then limit ≤ n * Nat.pow 10 exponent.toNat
    else limit * Nat.pow 10 (-exponent).toNat ≤ n

def decimal? (negative : Bool) (cs : List Char) : Option Unit := do
  let (mantissa, exponent) := splitAt ['e', 'E'] cs
  let (front, fraction) := splitAt ['.'] mantissa
  if fraction.isNone && exponent.isNone then none
  let front ← whole? front
  let fraction ← match fraction with
    | none => some []
    | some ds => grouped? Char.isDigit ds
  let exponent : Int ← match exponent with
    | none => some 0
    | some ds =>
      let (below, ds) := signed ds
      (grouped? Char.isDigit ds).map fun ds => if below then -(valueIn 10 ds : Int) else valueIn 10 ds
  if !negative && overflows (front ++ fraction) (exponent - fraction.length) then none else some ()

def isReal (cs : List Char) : Bool :=
  let (negative, rest) := signed cs
  rest = ['i', 'n', 'f'] || rest = ['n', 'a', 'n'] || (decimal? negative rest).isSome

def twoDigits? (least most : Nat) : List Char → Option (Nat × List Char)
  | a :: b :: rest =>
    if a.isDigit && b.isDigit then
      let n := valueIn 10 [a, b]
      if least ≤ n ∧ n ≤ most then some (n, rest) else none
    else none
  | _ => none

def expect? (c : Char) : List Char → Option (List Char)
  | d :: rest => if d = c then some rest else none
  | [] => none

def daysIn (year month : Nat) : Nat :=
  let leap := year % 4 = 0 ∧ (year % 100 ≠ 0 ∨ year % 400 = 0)
  if month = 2 then if leap then 29 else 28
  else if month = 4 ∨ month = 6 ∨ month = 9 ∨ month = 11 then 30
  else 31

def date? (cs : List Char) : Option (List Char) := do
  let (century, cs) ← twoDigits? 0 99 cs
  let (year, cs) ← twoDigits? 0 99 cs
  let cs ← expect? '-' cs
  let (month, cs) ← twoDigits? 1 12 cs
  let cs ← expect? '-' cs
  let (_, cs) ← twoDigits? 1 (daysIn (century * 100 + year) month) cs
  return cs

def time? (cs : List Char) : Option (List Char) := do
  let (_, cs) ← twoDigits? 0 23 cs
  let cs ← expect? ':' cs
  let (_, cs) ← twoDigits? 0 59 cs
  let cs ← expect? ':' cs
  let (_, cs) ← twoDigits? 0 60 cs
  match cs with
  | '.' :: d :: cs => if d.isDigit then some (cs.dropWhile Char.isDigit) else none
  | cs => some cs

def isOffset : List Char → Bool
  | [] | ['Z'] | ['z'] => true
  | c :: rest =>
    if c = '+' ∨ c = '-' then
      let read := do
        let (_, cs) ← twoDigits? 0 23 rest
        let cs ← expect? ':' cs
        let (_, cs) ← twoDigits? 0 59 cs
        return cs
      read = some []
    else false

def isTimeWithOffset (cs : List Char) : Bool :=
  (time? cs).any isOffset

def isMoment (cs : List Char) : Bool :=
  time? cs = some [] || match date? cs with
    | some [] => true
    | some (mark :: rest) => (mark = 'T' ∨ mark = 't') && isTimeWithOffset rest
    | none => false

def momentTree (text : List Char) : Tree :=
  .table [(.plain "$__toml_private_datetime", .text (String.ofList text))] .lenient

def scalarTree? (cs : List Char) : Option Tree :=
  if cs = ['t', 'r', 'u', 'e'] then some (.bool true)
  else if cs = ['f', 'a', 'l', 's', 'e'] then some (.bool false)
  else if isMoment cs then some (momentTree cs)
  else match integer? cs with
  | some n => some (.int n)
  | none => if isReal cs then some (.real (String.ofList cs)) else none

def scalar? (cs : List Char) : Option (Tree × List Char) :=
  let (run, rest) := cs.span isScalar
  match date? run, rest with
  | some [], ' ' :: more =>
    let (time, after) := more.span isScalar
    if time.isEmpty then some (momentTree run, rest)
    else if isTimeWithOffset time then some (momentTree (run ++ ' ' :: time), after)
    else none
  | _, _ => (scalarTree? run).map (·, rest)

end Uniqueness.Toml
