import Uniqueness.Text.Printable

namespace Uniqueness.Text

def spell (quote c : Char) : List Char :=
  if c = quote ∨ c = '\\' then ['\\', c]
  else if c = '\x00' then ['\\', '0']
  else if c = '\t' then ['\\', 't']
  else if c = '\r' then ['\\', 'r']
  else if c = '\n' then ['\\', 'n']
  else if isPrintable c then [c]
  else ['\\', 'u', '{'] ++ Nat.toDigits 16 c.toNat ++ ['}']

def quoted (s : String) : String :=
  String.ofList (['"'] ++ s.toList.flatMap (spell '"') ++ ['"'])

def quotedChar (c : Char) : String :=
  String.ofList (['\''] ++ spell '\'' c ++ ['\''])

end Uniqueness.Text
