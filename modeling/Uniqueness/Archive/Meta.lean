import Uniqueness.Log.Membership

namespace Uniqueness.Archive

structure Meta where
  last : Option Log.Id
  membership : Log.StoredMembership
  name : String
  deriving DecidableEq, Inhabited

namespace Meta

structure Draft where
  last : Option (Option Log.Id) := none
  membership : Option Log.StoredMembership := none
  name : Option String := none

def shape : Shape Draft where
  title := "SnapshotMeta"
  fields := [.of "last_log_id" Draft.last fun d a => { d with last := some a },
    .of "last_membership" Draft.membership fun d a => { d with membership := some a },
    .of "snapshot_id" Draft.name fun d a => { d with name := some a }]

instance : Codec Meta where
  toTree m := .object [("last_log_id", toTree m.last), ("last_membership", toTree m.membership),
    ("snapshot_id", toTree m.name)]
  ofTree t := do
    let d ← shape.read {} t
    return ⟨d.last.join, ← required "last_membership" d.membership, ← required "snapshot_id" d.name⟩

end Meta

end Uniqueness.Archive
