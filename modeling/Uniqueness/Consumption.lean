import Uniqueness.Party

namespace Uniqueness

structure Consumption where
  tx : Digest
  position : UInt32
  party : Party
  deriving DecidableEq, Inhabited

namespace Consumption

def detail (c : Consumption) : String :=
  Text.record "ConsumingTransaction" [("id", c.tx.detail),
    ("input_index", Decimal.text c.position.toNat), ("requesting_party", c.party.detail)]

structure Draft where
  tx : Option Digest := none
  position : Option UInt32 := none
  party : Option Party := none

def shape : Shape Draft where
  title := "ConsumingTransaction"
  fields := [.of "id" Draft.tx fun d a => { d with tx := some a },
    .of "input_index" Draft.position fun d a => { d with position := some a },
    .of "requesting_party" Draft.party fun d a => { d with party := some a }]

instance : Codec Consumption where
  toTree c := .object [("id", toTree c.tx), ("input_index", toTree c.position),
    ("requesting_party", toTree c.party)]
  ofTree t := do
    let d ← shape.read {} t
    return ⟨← required "id" d.tx, ← required "input_index" d.position,
      ← required "requesting_party" d.party⟩

end Consumption

end Uniqueness
