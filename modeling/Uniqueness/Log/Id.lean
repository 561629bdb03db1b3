import Uniqueness.Codec

namespace Uniqueness.Log

structure Leadership where
  term : UInt64
  node : UInt64
  deriving DecidableEq, Inhabited

structure Id where
  leader : Leadership
  index : UInt64
  deriving DecidableEq, Inhabited

structure Vote where
  leader : Leadership
  committed : Bool
  deriving DecidableEq, Inhabited

namespace Leadership

def text (l : Leadership) : String :=
  "T" ++ Decimal.text l.term.toNat ++ "-N" ++ Decimal.text l.node.toNat

structure Draft where
  term : Option UInt64 := none
  node : Option UInt64 := none

def shape : Shape Draft where
  title := "LeaderId"
  fields := [.of "term" Draft.term fun d a => { d with term := some a },
    .of "node_id" Draft.node fun d a => { d with node := some a }]

instance : Codec Leadership where
  toTree l := .object [("term", toTree l.term), ("node_id", toTree l.node)]
  ofTree t := do
    let d ← shape.read {} t
    return ⟨← required "term" d.term, ← required "node_id" d.node⟩

end Leadership

namespace Id

structure Draft where
  leader : Option Leadership := none
  index : Option UInt64 := none

def shape : Shape Draft where
  title := "LogId"
  fields := [.of "leader_id" Draft.leader fun d a => { d with leader := some a },
    .of "index" Draft.index fun d a => { d with index := some a }]

instance : Codec Id where
  toTree i := .object [("leader_id", toTree i.leader), ("index", toTree i.index)]
  ofTree t := do
    let d ← shape.read {} t
    return ⟨← required "leader_id" d.leader, ← required "index" d.index⟩

end Id

def countTo (id : Option Id) : Nat :=
  id.elim 0 (·.index.toNat + 1)

namespace Vote

structure Draft where
  leader : Option Leadership := none
  committed : Option Bool := none

def shape : Shape Draft where
  title := "Vote"
  fields := [.of "leader_id" Draft.leader fun d a => { d with leader := some a },
    .of "committed" Draft.committed fun d a => { d with committed := some a }]

instance : Codec Vote where
  toTree v := .object [("leader_id", toTree v.leader), ("committed", toTree v.committed)]
  ofTree t := do
    let d ← shape.read {} t
    return ⟨← required "leader_id" d.leader, ← required "committed" d.committed⟩

end Vote

end Uniqueness.Log
