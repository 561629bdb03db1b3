import Uniqueness.Tree

namespace Uniqueness.Toml

inductive Origin where
  | header
  | path
  | dotted
  deriving DecidableEq

inductive Item where
  | value (t : Tree)
  | table (origin : Origin) (fields : List (String × Item))
  | tables (all : List (List (String × Item)))

abbrev Fields := List (String × Item)

namespace Fields

def get? (fields : Fields) (key : String) : Option Item :=
  fields.lookup key

def set (fields : Fields) (key : String) (item : Item) : Fields :=
  fields.map fun f => if f.1 = key then (key, item) else f

def erase (fields : Fields) (key : String) : Fields :=
  fields.filter fun f => f.1 != key

variable {α : Type}

/-- Changes the table at the end of a path that starts from a table of the given origin. Missing
tables are made on the way; of the others only those with an origin that is entered are followed. -/
def alter (made : Origin) (enters : Origin → Bool) (change : Origin → Fields → Option (α × Fields)) :
    List String → Origin → Fields → Option (α × Fields)
  | [], origin, fields => change origin fields
  | key :: path, _, fields =>
    match fields.get? key with
    | none => do
      let (a, sub) ← alter made enters change path made []
      return (a, fields ++ [(key, .table made sub)])
    | some (.value _) => none
    | some (.table origin sub) =>
      if enters origin then do
        let (a, sub) ← alter made enters change path origin sub
        return (a, fields.set key (.table origin sub))
      else none
    | some (.tables all) => do
      let (a, sub) ← alter made enters change path .header (← all.getLast?)
      return (a, fields.set key (.tables (all.dropLast ++ [sub])))

def addValue (fields : Fields) (path : List String) (key : String) (value : Tree) : Option Fields :=
  Prod.snd <$> alter .dotted (· != .header) (fun origin fields =>
    if decide (origin = .dotted) = path.isEmpty then none
    else if (fields.get? key).isSome then none
    else some ((), fields ++ [(key, .value value)])) path .header fields

def alterHeaded (fields : Fields) (path : List String)
    (change : Fields → Option (α × Fields)) : Option (α × Fields) :=
  alter .path (fun _ => true) (fun _ => change) path .header fields

def claim (fields : Fields) (path : List String) (key : String) : Option (Fields × Fields) :=
  fields.alterHeaded path fun fields => match fields.get? key with
    | none => some ([], fields)
    | some (.table .path sub) => some (sub, fields.erase key)
    | some _ => none

def putTable (fields : Fields) (path : List String) (key : String) (table : Fields) : Option Fields :=
  Prod.snd <$> fields.alterHeaded path fun fields =>
    if (fields.get? key).isSome then none else some ((), fields ++ [(key, .table .header table)])

def claimTables (fields : Fields) (path : List String) (key : String) : Option Fields :=
  Prod.snd <$> fields.alterHeaded path fun fields => match fields.get? key with
    | none => some ((), fields ++ [(key, .tables [])])
    | some (.tables _) => some ((), fields)
    | some _ => none

def pushTable (fields : Fields) (path : List String) (key : String) (table : Fields) : Option Fields :=
  Prod.snd <$> fields.alterHeaded path fun fields => match fields.get? key with
    | some (.tables all) => some ((), fields.set key (.tables (all ++ [table])))
    | _ => none

end Fields

mutual

def Item.tree : Item → Tree
  | .value t => t
  | .table _ fields => .table (fieldTrees fields) .lenient
  | .tables all => .list (tableTrees all) .lenient

def fieldTrees : List (String × Item) → List (Label × Tree)
  | [] => []
  | (key, item) :: rest => (.plain key, item.tree) :: fieldTrees rest

def tableTrees : List (List (String × Item)) → List Tree
  | [] => []
  | fields :: rest => .table (fieldTrees fields) .lenient :: tableTrees rest

end

def Fields.tree (fields : Fields) : Tree :=
  .table (fieldTrees fields) .lenient

end Uniqueness.Toml
