import Uniqueness.Tree.Fault

/-!
Values as trees. A record is a table with its fields in any order or a list of them in theirs; a
choice is the name of a case, or a table with that name over the case's content.
-/

namespace Uniqueness

class Codec (α : Type) where
  toTree : α → Tree
  ofTree : Tree → Except Fault α

export Codec (toTree ofTree)

variable {α β σ : Type}

def ofInner [Codec α] (t : Tree) : Except Fault α :=
  (ofTree t).mapError Fault.inner

namespace Codec

instance : Codec Bool where
  toTree := .bool
  ofTree
    | .bool b => .ok b
    | t => .error (t.refuse "a boolean")

instance : Codec String where
  toTree := .text
  ofTree
    | .text s => .ok s
    | t => .error (t.refuse "a string")

def natOfTree (bound : Nat) (expected : String) : Tree → Except Fault Nat
  | .int n => if 0 ≤ n ∧ n < bound then .ok n.toNat else .error (.outOfRange (Tree.int n).kind expected)
  | t => .error (t.refuse expected)

instance : Codec UInt32 where
  toTree n := .int n.toNat
  ofTree t := UInt32.ofNat <$> natOfTree UInt32.size "u32" t

instance : Codec UInt64 where
  toTree n := .int n.toNat
  ofTree t := UInt64.ofNat <$> natOfTree UInt64.size "u64" t

instance [Codec α] : Codec (Option α) where
  toTree
    | none => .null
    | some a => toTree a
  ofTree
    | .null => .ok none
    | t => some <$> ofTree t

def itemsOfTrees [Codec α] : List Tree → Except Fault (List α)
  | [] => .ok []
  | t :: ts => do
    let a ← ofInner t
    let rest ← itemsOfTrees ts
    return a :: rest

instance [Codec α] : Codec (List α) where
  toTree items := .array (items.map toTree)
  ofTree
    | .list items ending => do
      let values ← itemsOfTrees items
      if ending = .broken then .error .malformed else .ok values
    | t => .error (t.refuse "a sequence")

def endsList (rest : List Tree) (ending : Ending) : Bool :=
  match ending with
  | .broken => false
  | .lenient => true
  | .closed => rest.isEmpty

instance [Codec α] [Codec β] : Codec (α × β) where
  toTree p := .array [toTree p.1, toTree p.2]
  ofTree
    | .list (s :: t :: rest) ending => do
      let a ← ofInner s
      let b ← ofInner t
      if endsList rest ending then .ok (a, b) else .error .malformed
    | .list [s] _ => do
      let _ ← ofInner (α := α) s
      .error (.length 1 "a tuple of size 2")
    | .list [] _ => .error (.length 0 "a tuple of size 2")
    | t => .error (t.refuse "a tuple of size 2")

end Codec

structure Field (σ : Type) where
  name : String
  isFilled : σ → Bool
  fill : σ → Tree → Except Fault σ

def Field.of [Codec α] (name : String) (get : σ → Option α) (put : σ → α → σ) : Field σ :=
  ⟨name, fun d => (get d).isSome, fun d t => put d <$> ofInner t⟩

/-- A record's title, its fields in the order of a list of them, and what its reader insists on: that
a table has no other fields, and that a list has them all. -/
structure Shape (σ : Type) where
  title : String
  fields : List (Field σ)
  noOthers : Bool := false
  allListed : Bool := true

namespace Shape

variable (shape : Shape σ)

def readTable (ending : Ending) : List (Label × Tree) → σ → Except Fault σ
  | [], d => if ending = .broken then .error .malformed else .ok d
  | (label, t) :: rest, d =>
    match label.text? with
    | none => .error .malformed
    | some name =>
      match shape.fields.find? fun f => f.name = name with
      | some f => if f.isFilled d then .error (.repeated name) else do readTable ending rest (← f.fill d t)
      | none =>
        if shape.noOthers then .error (.unexpected name)
        else if t.isSound then readTable ending rest d
        else .error .malformed

def readList (ending : Ending) : List (Field σ) → List Tree → σ → Except Fault σ
  | [], rest, d =>
    if Codec.endsList rest ending then .ok d
    else if ending = .broken then .error .malformed
    else .error (.length (shape.fields.length + rest.length) "fewer elements in array")
  | f :: fields, t :: rest, d => do readList ending fields rest (← f.fill d t)
  | f :: fields, [], d =>
    if ending = .broken then .error .malformed
    else if shape.allListed then
      .error (.length (shape.fields.length - (f :: fields).length) ("struct " ++ shape.title))
    else .ok d

def read (start : σ) : Tree → Except Fault σ
  | .table fields ending => shape.readTable ending fields start
  | .list items ending => shape.readList ending shape.fields items start
  | t => .error (t.refuse ("struct " ++ shape.title))

end Shape

def required (name : String) : Option α → Except Fault α
  | some a => .ok a
  | none => .error (.missing name)

structure Case (α : Type) where
  name : String
  bare : Except Fault α
  full : Tree → Except Fault α

namespace Case

def isVoid : Tree → Bool
  | .null | .table [] .lenient | .list [] .lenient => true
  | _ => false

def void (name : String) (a : α) : Case α :=
  ⟨name, .ok a, fun t => if isVoid t then .ok a else .error (t.refuse "unit")⟩

def holding [Codec β] (name : String) (f : β → α) : Case α :=
  ⟨name, .error (.bare "newtype variant"), fun t => f <$> ofTree t⟩

def ofRecord (name : String) (read : Tree → Except Fault α) : Case α :=
  ⟨name, .error (.bare "struct variant"), read⟩

def find (cases : List (Case α)) (name : String) : Except Fault (Case α) :=
  match cases.find? fun c => c.name = name with
  | some c => .ok c
  | none => .error (.unknownCase name (cases.map (·.name)))

def read (cases : List (Case α)) : Tree → Except Fault α
  | .text name => do (← find cases name).bare
  | .table [] _ => .error (.outOfRange "map" "map with a single key")
  | .table ((label, content) :: rest) ending =>
    match label.text? with
    | none => .error .malformed
    | some name => do
      let a ← (← find cases name).full content
      if rest.isEmpty && ending != .broken then .ok a
      else .error (.outOfRange "map" "map with a single key")
  | t => .error (t.refuse "string or map")

end Case

def caseTree (name : String) (content : Tree) : Tree :=
  .object [(name, content)]

end Uniqueness
