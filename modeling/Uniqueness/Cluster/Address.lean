import Uniqueness.Utf8

namespace Uniqueness.Cluster.Address

inductive Fault where
  | tooLong
  | empty
  | character
  | authority
  | noAuthority
  deriving DecidableEq

def Fault.message : Fault → String
  | .tooLong => "uri too long"
  | .empty => "empty string"
  | .character => "invalid uri character"
  | .authority => "invalid authority"
  | .noAuthority => "invalid format"

def isLetterOrDigit (n : Nat) : Bool :=
  (0x30 ≤ n && n ≤ 0x39) || (0x41 ≤ n && n ≤ 0x5A) || (0x61 ≤ n && n ≤ 0x7A)

def isAuthorityByte (b : UInt8) : Bool :=
  isLetterOrDigit b.toNat || (Utf8.encode "!$&'()*+,-.:;=@[]_~").contains b

def endsAuthority (b : UInt8) : Bool :=
  b == 0x2F || b == 0x3F || b == 0x23

structure Seen where
  colons : Nat := 0
  opened : Bool := false
  closed : Bool := false
  percent : Bool := false
  endsInAt : Bool := false

def Seen.next (s : Seen) (b : UInt8) : Except Fault Seen :=
  if b = 0x3A then
    if s.colons < 8 then .ok { s with colons := s.colons + 1, endsInAt := false }
    else .error .authority
  else if b = 0x5B then
    if s.percent || s.opened then .error .authority
    else .ok { s with opened := true, endsInAt := false }
  else if b = 0x5D then
    if !s.opened || s.closed then .error .authority
    else .ok { s with closed := true, colons := 0, percent := false, endsInAt := false }
  else if b = 0x40 then .ok { s with colons := 0, percent := false, endsInAt := true }
  else if b = 0x25 then .ok { s with percent := true, endsInAt := false }
  else if isAuthorityByte b then .ok { s with endsInAt := false }
  else .error .character

def Seen.isComplete (s : Seen) : Bool :=
  s.opened == s.closed && s.colons ≤ 1 && !s.endsInAt && !s.percent

def authority (s : Seen) : Bytes → Except Fault Bytes
  | [] => if s.isComplete then .ok [] else .error .authority
  | b :: rest =>
    if endsAuthority b then if s.isComplete then .ok (b :: rest) else .error .authority
    else do authority (← s.next b) rest

def isVisibleByte (b : UInt8) : Bool :=
  0x21 ≤ b && b != 0x7F

def isPathByte (b : UInt8) : Bool :=
  isVisibleByte b && b != 0x3C && b != 0x3E && b != 0x60 && b != 0x23 && b != 0x3F

def isQueryByte (b : UInt8) : Bool :=
  isVisibleByte b && b != 0x22 && b != 0x3C && b != 0x3E && b != 0x23

def isPathAndQuery (bs : Bytes) : Bool :=
  match bs.dropWhile isPathByte with
  | [] => true
  | b :: rest =>
    b == 0x23 || b == 0x3F && match rest.dropWhile isQueryByte with
      | [] => true
      | b :: _ => b == 0x23

def maxLength : Nat :=
  65534

def check (address : String) : Except Fault Unit := do
  let bs := Utf8.encode address
  if maxLength < bs.length + 7 then .error .tooLong
  if bs.isEmpty then .error .empty
  let rest ← authority {} bs
  if rest.length = bs.length then .error .noAuthority
  else if isPathAndQuery rest then .ok ()
  else .error .character

def number? (digit? : Char → Option Nat) (base bound most : Nat) (zeros : Bool) (cs : List Char) :
    Option (Nat × List Char) :=
  let digits := cs.takeWhile fun c => (digit? c).isSome
  let n := digits.foldl (fun n c => n * base + (digit? c).getD 0) 0
  if digits.isEmpty || most < digits.length || bound ≤ n then none
  else if !zeros && digits.head? = some '0' && 1 < digits.length then none
  else some (n, cs.drop digits.length)

def decimalDigit? (c : Char) : Option Nat :=
  if c.isDigit then some (c.toNat - 48) else none

def hexDigit? (c : Char) : Option Nat :=
  if c.isDigit then some (c.toNat - 48)
  else if 'a' ≤ c ∧ c ≤ 'f' then some (c.toNat - 87)
  else if 'A' ≤ c ∧ c ≤ 'F' then some (c.toNat - 55)
  else none

def after? (c : Char) : List Char → Option (List Char)
  | d :: rest => if d = c then some rest else none
  | [] => none

def octet? (cs : List Char) : Option (List Char) :=
  (number? decimalDigit? 10 256 3 false cs).map (·.2)

def four? (cs : List Char) : Option (List Char) := do
  let cs ← octet? cs
  let cs ← octet? (← after? '.' cs)
  let cs ← octet? (← after? '.' cs)
  octet? (← after? '.' cs)

def groups (done : Nat) : Nat → List Char → Nat × Bool × List Char
  | 0, cs => (done, false, cs)
  | left + 1, cs =>
    match if done = 0 then some cs else after? ':' cs with
    | none => (done, false, cs)
    | some inner =>
      match if left = 0 then none else four? inner with
      | some rest => (done + 2, true, rest)
      | none => match number? hexDigit? 16 65536 4 true inner with
        | none => (done, false, cs)
        | some (_, rest) => groups (done + 1) left rest

def eight? (cs : List Char) : Option (List Char) :=
  match groups 0 8 cs with
  | (8, _, rest) => some rest
  | (_, true, _) => none
  | (count, false, rest) => do
    let rest ← after? ':' (← after? ':' rest)
    return (groups 0 (7 - count) rest).2.2

def isChannel (cs : List Char) : Bool :=
  (number? decimalDigit? 10 65536 cs.length true cs).any (·.2.isEmpty)

def zone? : List Char → Option (List Char)
  | '%' :: cs => (number? decimalDigit? 10 UInt32.size cs.length true cs).map (·.2)
  | cs => some cs

def isListening (address : String) : Bool :=
  let read := match address.toList with
    | '[' :: cs => do after? ':' (← after? ']' (← zone? (← eight? cs)))
    | cs => do after? ':' (← four? cs)
  read.any isChannel

end Uniqueness.Cluster.Address
