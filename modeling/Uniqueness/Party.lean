import Uniqueness.Digest

namespace Uniqueness

structure Party where
  name : String
  owningKey : String
  deriving DecidableEq, Inhabited

namespace Party

def named (name : String) : Party :=
  ⟨name, (Digest.hash (Utf8.encode name)).text⟩

def text (p : Party) : String :=
  p.name

def detail (p : Party) : String :=
  Text.record "Party" [("name", Text.quoted p.name), ("owning_key", Text.quoted p.owningKey)]

structure Draft where
  name : Option String := none
  owningKey : Option String := none

def shape : Shape Draft where
  title := "Party"
  fields := [.of "name" Draft.name fun d a => { d with name := some a },
    .of "owning_key" Draft.owningKey fun d a => { d with owningKey := some a }]

instance : Codec Party where
  toTree p := .object [("name", toTree p.name), ("owning_key", toTree p.owningKey)]
  ofTree t := do
    let d ← shape.read {} t
    return ⟨← required "name" d.name, ← required "owning_key" d.owningKey⟩

end Party

end Uniqueness
