import Uniqueness.Codec
import Uniqueness.Toml.Value

namespace Uniqueness.Toml

structure Draft where
  root : Fields
  path : List String
  name : Option String
  isRepeated : Bool
  current : Fields

namespace Draft

def start : Draft :=
  ⟨[], [], none, false, []⟩

def finish (d : Draft) : Option Fields :=
  match d.name with
  | none => some d.current
  | some name =>
    if d.isRepeated then d.root.pushTable d.path name d.current
    else d.root.putTable d.path name d.current

def openTable (d : Draft) (path : List String) (name : String) : Option Draft := do
  let (current, root) ← (← d.finish).claim path name
  return ⟨root, path, some name, false, current⟩

def openRepeated (d : Draft) (path : List String) (name : String) : Option Draft := do
  let root ← (← d.finish).claimTables path name
  return ⟨root, path, some name, true, []⟩

def addValue (d : Draft) (path : List String) (name : String) (value : Tree) : Option Draft := do
  return { d with current := ← d.current.addValue path name value }

end Draft

def line? (d : Draft) : List Char → Option (Draft × List Char)
  | '[' :: '[' :: rest => do
    match ← key? rest with
    | (path, name, ']' :: ']' :: rest) => return (← d.openRepeated path name, ← endLine? rest)
    | _ => none
  | '[' :: rest => do
    match ← key? rest with
    | (path, name, ']' :: rest) => return (← d.openTable path name, ← endLine? rest)
    | _ => none
  | cs => do
    match ← key? cs with
    | (path, name, '=' :: rest) =>
      let (t, rest) ← value? (3 * rest.length + 3) 0 (skipBlanks rest)
      return (← d.addValue path name t, ← endLine? rest)
    | _ => none

def lines? : Nat → Draft → List Char → Option Draft
  | 0, _, _ => none
  | fuel + 1, d, cs =>
    match endLine? cs with
    | some [] => some d
    | some rest => lines? fuel d rest
    | none => do
      let (d, rest) ← line? d (skipBlanks cs)
      if rest.isEmpty then some d else lines? fuel d rest

def parse? (s : String) : Option Tree := do
  let cs := match s.toList with
    | '\uFEFF' :: rest => rest
    | cs => cs
  let d ← lines? (cs.length + 1) .start cs
  return (← d.finish).tree

def decode (α : Type) [Codec α] (s : String) : Except Fault α :=
  match parse? s with
  | none => .error .malformed
  | some t => ofTree t

end Uniqueness.Toml
