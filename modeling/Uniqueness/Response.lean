import Uniqueness.Verdict

namespace Uniqueness

inductive Response where
  | committed
  | conflict (c : Conflict)
  | value (record : Option Consumption)
  | size (n : UInt64)
  | noop
  deriving DecidableEq, Inhabited

namespace Response

def ofVerdict : Verdict → Response
  | .success => .committed
  | .conflict c => .conflict c

def detail : Response → String
  | .committed => "Committed"
  | .conflict c => Text.applied "Conflict" c.detail
  | .value record => Text.applied "Value" (Text.optional (record.map Consumption.detail))
  | .size n => Text.applied "Size" (Decimal.text n.toNat)
  | .noop => "Noop"

def cases : List (Case Response) :=
  [.void "Committed" .committed, .holding "Conflict" .conflict, .holding "Value" .value,
    .holding "Size" .size, .void "Noop" .noop]

instance : Codec Response where
  toTree
    | .committed => .text "Committed"
    | .conflict c => caseTree "Conflict" (toTree c)
    | .value record => caseTree "Value" (toTree record)
    | .size n => caseTree "Size" (toTree n)
    | .noop => .text "Noop"
  ofTree := Case.read cases

end Response

end Uniqueness
