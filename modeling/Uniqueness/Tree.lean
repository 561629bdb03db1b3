/-!
What a text of a data format says: scalars, lists and tables. A text that goes wrong at some point
has a tree too, which is broken at that point, so that whoever reads the tree meets its first
problem in the order of the text.
-/

namespace Uniqueness

inductive Label where
  | plain (s : String)
  | escaped (s : String)
  | unreadable
  deriving DecidableEq

def Label.text? : Label → Option String
  | .plain s | .escaped s => some s
  | .unreadable => none

inductive Ending where
  | closed
  | lenient
  | broken
  deriving DecidableEq

/-- An `unreadable` text is one that is delimited well and stands for no string. -/
inductive Tree where
  | null
  | bool (b : Bool)
  | int (n : Int)
  | real (literal : String)
  | text (s : String)
  | unreadable
  | list (items : List Tree) (ending : Ending)
  | table (fields : List (Label × Tree)) (ending : Ending)
  | broken

namespace Tree

instance : Inhabited Tree :=
  ⟨.null⟩

def isSound : Tree → Bool
  | .list _ ending | .table _ ending => ending != .broken
  | .broken => false
  | _ => true

def object (fields : List (String × Tree)) : Tree :=
  .table (fields.map fun f => (.plain f.1, f.2)) .closed

def array (items : List Tree) : Tree :=
  .list items .closed

def items : Tree → List Tree
  | .list items _ => items
  | _ => []

def field (t : Tree) (name : String) : Tree :=
  match t with
  | .table fields _ => ((fields.find? fun f => f.1.text? = some name).map (·.2)).getD .null
  | _ => .null

end Tree

end Uniqueness
