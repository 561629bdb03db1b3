import Uniqueness.Tree
import Uniqueness.Decimal
import Uniqueness.Text.Quoted

namespace Uniqueness

inductive Fault where
  | malformed
  | mismatch (found expected : String)
  | outOfRange (found expected : String)
  | missing (field : String)
  | repeated (field : String)
  | unexpected (field : String)
  | unknownCase (name : String) (known : List String)
  | length (n : Nat) (expected : String)
  | bare (expected : String)
  | domain (text : String)
  deriving DecidableEq

namespace Fault

def alternatives (names : List String) : String :=
  match names.map fun n => "`" ++ n ++ "`" with
  | [] => "there are no variants"
  | [a] => "expected " ++ a
  | [a, b] => "expected " ++ a ++ " or " ++ b
  | names => "expected one of " ++ String.intercalate ", " names

def message : Fault → String
  | .malformed => "json"
  | .mismatch found expected => "invalid type: " ++ found ++ ", expected " ++ expected
  | .outOfRange found expected => "invalid value: " ++ found ++ ", expected " ++ expected
  | .missing field => "missing field `" ++ field ++ "`"
  | .repeated field => "duplicate field `" ++ field ++ "`"
  | .unexpected field => "unknown field `" ++ field ++ "`"
  | .unknownCase name known => "unknown variant `" ++ name ++ "`, " ++ alternatives known
  | .length n expected => "invalid length " ++ Decimal.text n ++ ", expected " ++ expected
  | .bare expected => "invalid type: unit variant, expected " ++ expected
  | .domain text => text

def summary : Fault → String
  | .bare expected => message (.bare expected)
  | .domain text => text
  | _ => "json"

def inner : Fault → Fault
  | .bare _ => .malformed
  | f => f

end Fault

def Tree.kind : Tree → String
  | .null => "null"
  | .bool b => "boolean `" ++ toString b ++ "`"
  | .int n => "integer `" ++ toString n ++ "`"
  | .real literal => "floating point `" ++ literal ++ "`"
  | .text s => "string " ++ Text.quoted s
  | .unreadable => "string"
  | .list _ _ => "sequence"
  | .table _ _ => "map"
  | .broken => "nothing"

def Tree.refuse (t : Tree) (expected : String) : Fault :=
  match t with
  | .broken | .unreadable => .malformed
  | t => .mismatch t.kind expected

end Uniqueness
