import Uniqueness.Tree
import Uniqueness.Decimal
import Uniqueness.Hex

namespace Uniqueness.Json

def escape (c : Char) : List Char :=
  if c = '"' then ['\\', '"']
  else if c = '\\' then ['\\', '\\']
  else if c = '\x08' then ['\\', 'b']
  else if c = '\t' then ['\\', 't']
  else if c = '\n' then ['\\', 'n']
  else if c = '\x0C' then ['\\', 'f']
  else if c = '\r' then ['\\', 'r']
  else if c.toNat < 0x20 then
    ['\\', 'u', '0', '0', Hex.digit (c.toNat / 16), Hex.digit (c.toNat % 16)]
  else [c]

def writeString (s : String) : List Char :=
  '"' :: s.toList.flatMap escape ++ ['"']

def writeInt : Int → List Char
  | .ofNat n => Decimal.digits n
  | .negSucc n => '-' :: Decimal.digits (n + 1)

def labelText (l : Label) : String :=
  l.text?.getD ""

mutual

def write : Tree → List Char
  | .null => ['n', 'u', 'l', 'l']
  | .bool true => ['t', 'r', 'u', 'e']
  | .bool false => ['f', 'a', 'l', 's', 'e']
  | .int n => writeInt n
  | .real literal => literal.toList
  | .text s => writeString s
  | .unreadable => writeString ""
  | .list items _ => '[' :: writeItems items ++ [']']
  | .table fields _ => '{' :: writeFields fields ++ ['}']
  | .broken => []

def writeItems : List Tree → List Char
  | [] => []
  | [t] => write t
  | t :: ts => write t ++ ',' :: writeItems ts

def writeFields : List (Label × Tree) → List Char
  | [] => []
  | [(l, t)] => writeString (labelText l) ++ ':' :: write t
  | (l, t) :: rest => writeString (labelText l) ++ ':' :: write t ++ ',' :: writeFields rest

end

end Uniqueness.Json
