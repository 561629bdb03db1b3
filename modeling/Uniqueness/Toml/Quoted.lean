import Uniqueness.Hex
import Uniqueness.Toml.Line

namespace Uniqueness.Toml

def hexValue? (c : Char) : Option Nat :=
  if c.toNat < 128 then Hex.value? (UInt8.ofNat c.toNat) else none

def numbered? (digits : List Char) : Option Char := do
  let n ← digits.foldlM (fun n c => (hexValue? c).map (n * 16 + ·)) 0
  if n.isValidChar then some (Char.ofNat n) else none

def number? (width : Nat) (cs : List Char) : Option (Char × List Char) :=
  let digits := cs.take width
  if digits.length = width then (numbered? digits).map (·, cs.drop width) else none

def escape? : List Char → Option (Char × List Char)
  | 'b' :: rest => some ('\x08', rest)
  | 't' :: rest => some ('\t', rest)
  | 'n' :: rest => some ('\n', rest)
  | 'f' :: rest => some ('\x0C', rest)
  | 'r' :: rest => some ('\r', rest)
  | '"' :: rest => some ('"', rest)
  | '\\' :: rest => some ('\\', rest)
  | 'u' :: rest => number? 4 rest
  | 'U' :: rest => number? 8 rest
  | _ => none

def inLine (quote : Char) : Nat → List Char → List Char → Option (String × List Char)
  | 0, _, _ | _, _, [] => none
  | fuel + 1, done, c :: rest =>
    if c = quote then some (String.ofList done.reverse, rest)
    else if c = '\\' && quote = '"' then
      match escape? rest with
      | none => none
      | some (c, rest) => inLine quote fuel (c :: done) rest
    else if isPlain c then inLine quote fuel (c :: done) rest
    else none

def closing? (quote : Char) (cs : List Char) : Option (List Char × List Char) :=
  let count := (cs.takeWhile (· = quote)).length
  if count < 3 then none
  else
    let extra := min (count - 3) 2
    some (List.replicate extra quote, cs.drop (extra + 3))

def joined? (cs : List Char) : Option (List Char) :=
  (newline? (skipBlanks cs)).map skipBlankLines

def overLines (quote : Char) : Nat → List Char → List Char → Option (String × List Char)
  | 0, _, _ | _, _, [] => none
  | fuel + 1, done, c :: rest =>
    match closing? quote (c :: rest) with
    | some (extra, rest) => some (String.ofList (done.reverse ++ extra), rest)
    | none =>
      if c = '\\' && quote = '"' then
        match joined? rest, escape? rest with
        | some rest, _ => overLines quote fuel done rest
        | none, some (c, rest) => overLines quote fuel (c :: done) rest
        | none, none => none
      else match newline? (c :: rest) with
      | some rest => overLines quote fuel ('\n' :: done) rest
      | none => if isPlain c then overLines quote fuel (c :: done) rest else none

def isQuote (c : Char) : Bool :=
  c = '"' || c = '\''

def shortString? : List Char → Option (String × List Char)
  | q :: rest => if isQuote q then inLine q (rest.length + 1) [] rest else none
  | [] => none

def string? : List Char → Option (String × List Char)
  | p :: q :: r :: rest =>
    if isQuote p && p = q && q = r then
      let body := (newline? rest).getD rest
      overLines p (body.length + 1) [] body
    else shortString? (p :: q :: r :: rest)
  | cs => shortString? cs

end Uniqueness.Toml
