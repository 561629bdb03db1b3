import Uniqueness.Text.Quoted

namespace Uniqueness.Text

def commas (items : List String) : String :=
  String.intercalate ", " items

def record (name : String) (fields : List (String × String)) : String :=
  name ++ " \x7b " ++ commas (fields.map fun f => f.1 ++ ": " ++ f.2) ++ " \x7d"

def applied (name content : String) : String :=
  name ++ "(" ++ content ++ ")"

def sequence (items : List String) : String :=
  "[" ++ commas items ++ "]"

def mapping (entries : List (String × String)) : String :=
  "\x7b" ++ commas (entries.map fun e => e.1 ++ ": " ++ e.2) ++ "\x7d"

def optional : Option String → String
  | none => "None"
  | some s => applied "Some" s

end Uniqueness.Text
