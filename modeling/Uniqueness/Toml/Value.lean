import Uniqueness.Toml.Scalar
import Uniqueness.Toml.Table

namespace Uniqueness.Toml

def depthLimit : Nat :=
  80

def isBare (c : Char) : Bool :=
  c.isAlphanum || c = '_' || c = '-'

def name? (cs : List Char) : Option (String × List Char) :=
  match cs with
  | [] => none
  | c :: _ =>
    if isQuote c then shortString? cs
    else
      let (run, rest) := cs.span isBare
      if run.isEmpty then none else some (String.ofList run, rest)

def names? : Nat → List Char → Option (List String × List Char)
  | 0, _ => none
  | fuel + 1, cs => do
    let (name, rest) ← name? (skipBlanks cs)
    match skipBlanks rest with
    | '.' :: rest =>
      let (names, rest) ← names? fuel rest
      return (name :: names, rest)
    | rest => return ([name], rest)

def key? (cs : List Char) : Option (List String × String × List Char) := do
  let (names, rest) ← names? (depthLimit - 1) cs
  return (names.dropLast, ← names.getLast?, rest)

mutual

def value? : Nat → Nat → List Char → Option (Tree × List Char)
  | 0, _, _ | _, _, [] => none
  | fuel + 1, depth, c :: rest =>
    if isQuote c then do
      let (s, rest) ← string? (c :: rest)
      return (.text s, rest)
    else if c = '[' then do
      if depth + 1 < depthLimit then
        let (items, rest) ← items? fuel (depth + 1) rest
        return (.list items .lenient, rest)
      else none
    else if c = '{' then do
      if depth + 1 < depthLimit then
        let (fields, rest) ← inLineFields? fuel (depth + 1) rest
        return (fields.tree, rest)
      else none
    else scalar? (c :: rest)

def items? : Nat → Nat → List Char → Option (List Tree × List Char)
  | 0, _, _ => none
  | fuel + 1, depth, cs => do
    match ← skipSpace false cs with
    | ']' :: rest => return ([], rest)
    | cs =>
      let (t, rest) ← value? fuel depth cs
      match ← skipSpace false rest with
      | ',' :: rest =>
        let (ts, rest) ← items? fuel depth rest
        return (t :: ts, rest)
      | ']' :: rest => return ([t], rest)
      | _ => none

def inLineFields? : Nat → Nat → List Char → Option (Fields × List Char)
  | 0, _, _ => none
  | fuel + 1, depth, cs =>
    match skipBlanks cs with
    | '}' :: rest => some ([], rest)
    | cs => moreFields? fuel depth [] cs

def moreFields? : Nat → Nat → Fields → List Char → Option (Fields × List Char)
  | 0, _, _, _ => none
  | fuel + 1, depth, fields, cs => do
    let (path, name, rest) ← key? cs
    match rest with
    | '=' :: rest =>
      let (t, rest) ← value? fuel depth (skipBlanks rest)
      let fields ← fields.addValue path name t
      match skipBlanks rest with
      | ',' :: rest => moreFields? fuel depth fields rest
      | '}' :: rest => return (fields, rest)
      | _ => none
    | _ => none

end

end Uniqueness.Toml
