import Uniqueness.Codec
import Uniqueness.Json.Reader
import Uniqueness.Json.Writer

namespace Uniqueness.Json

variable {α : Type} [Codec α]

def text (a : α) : String :=
  String.ofList (write (toTree a))

def encode (a : α) : Bytes :=
  Utf8.encode (text a)

def decode (α : Type) [Codec α] (bs : Bytes) : Except Fault α := do
  let (t, rest) := parse bs
  let a ← ofTree t
  if (skip rest).isEmpty then .ok a else .error .malformed

end Uniqueness.Json
