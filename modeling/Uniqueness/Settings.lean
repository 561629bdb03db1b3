import Uniqueness.Settings.Peers

namespace Uniqueness

structure Timing where
  electionTimeout : UInt64 × UInt64
  heartbeat : UInt64
  batch : UInt64
  deriving DecidableEq

structure Compaction where
  threshold : UInt64
  kept : UInt64
  deriving DecidableEq

structure Settings where
  node : UInt64
  listen : String
  advertised : Option String
  peers : Peers
  folder : String
  timing : Timing
  compaction : Compaction
  commitTimeout : UInt64
  deriving DecidableEq

namespace Timing

def standard : Timing :=
  ⟨(150, 300), 50, 100⟩

structure Draft where
  electionTimeout : Option (UInt64 × UInt64) := none
  heartbeat : Option UInt64 := none
  batch : Option UInt64 := none

def shape : Shape Draft where
  title := "RaftConfig"
  fields := [
    .of "election_timeout_ms" Draft.electionTimeout fun d a => { d with electionTimeout := some a },
    .of "heartbeat_interval_ms" Draft.heartbeat fun d a => { d with heartbeat := some a },
    .of "max_entries_per_append" Draft.batch fun d a => { d with batch := some a }]
  allListed := false

instance : Codec Timing where
  toTree t := .object [("election_timeout_ms", toTree t.electionTimeout),
    ("heartbeat_interval_ms", toTree t.heartbeat), ("max_entries_per_append", toTree t.batch)]
  ofTree t := do
    let d ← shape.read {} t
    return ⟨d.electionTimeout.getD standard.electionTimeout, d.heartbeat.getD standard.heartbeat,
      d.batch.getD standard.batch⟩

end Timing

namespace Compaction

def standard : Compaction :=
  ⟨10000, 1000⟩

structure Draft where
  threshold : Option UInt64 := none
  kept : Option UInt64 := none

def shape : Shape Draft where
  title := "SnapshotConfig"
  fields := [
    .of "snapshot_threshold" Draft.threshold fun d a => { d with threshold := some a },
    .of "max_in_snapshot_log_to_keep" Draft.kept fun d a => { d with kept := some a }]
  allListed := false

instance : Codec Compaction where
  toTree c := .object [("snapshot_threshold", toTree c.threshold),
    ("max_in_snapshot_log_to_keep", toTree c.kept)]
  ofTree t := do
    let d ← shape.read {} t
    return ⟨d.threshold.getD standard.threshold, d.kept.getD standard.kept⟩

end Compaction

namespace Settings

def standard : Settings :=
  ⟨1, "127.0.0.1:5000", none, .empty, "./notary-data", .standard, .standard, 5000⟩

instance : Inhabited Settings :=
  ⟨standard⟩

structure Draft where
  node : Option UInt64 := none
  listen : Option String := none
  advertised : Option (Option String) := none
  peers : Option Peers := none
  folder : Option String := none
  timing : Option Timing := none
  compaction : Option Compaction := none
  commitTimeout : Option UInt64 := none

def shape : Shape Draft where
  title := "ClusterConfig"
  fields := [
    .of "node_id" Draft.node fun d a => { d with node := some a },
    .of "listen_addr" Draft.listen fun d a => { d with listen := some a },
    .of "advertise_addr" Draft.advertised fun d a => { d with advertised := some a },
    .of "peers" Draft.peers fun d a => { d with peers := some a },
    .of "data_dir" Draft.folder fun d a => { d with folder := some a },
    .of "raft" Draft.timing fun d a => { d with timing := some a },
    .of "snapshot" Draft.compaction fun d a => { d with compaction := some a },
    .of "commit_timeout_ms" Draft.commitTimeout fun d a => { d with commitTimeout := some a }]
  allListed := false

def Draft.finish (d : Draft) : Settings where
  node := d.node.getD standard.node
  listen := d.listen.getD standard.listen
  advertised := d.advertised.getD standard.advertised
  peers := d.peers.getD standard.peers
  folder := d.folder.getD standard.folder
  timing := d.timing.getD standard.timing
  compaction := d.compaction.getD standard.compaction
  commitTimeout := d.commitTimeout.getD standard.commitTimeout

instance : Codec Settings where
  toTree s := .object [("node_id", toTree s.node), ("listen_addr", toTree s.listen),
    ("advertise_addr", toTree s.advertised), ("peers", toTree s.peers),
    ("data_dir", toTree s.folder), ("raft", toTree s.timing), ("snapshot", toTree s.compaction),
    ("commit_timeout_ms", toTree s.commitTimeout)]
  ofTree t := do return (← shape.read {} t).finish

def address (s : Settings) : String :=
  s.advertised.getD s.listen

def below (folder name : String) : String :=
  if folder.isEmpty || folder.endsWith "/" then folder ++ name else folder ++ "/" ++ name

def logPath (s : Settings) : String :=
  below (below s.folder "raft") "log.redb"

def storePath (s : Settings) : String :=
  below s.folder "notary.redb"

def snapshotFolder (s : Settings) : String :=
  below s.folder "snapshots"

inductive Fault where
  | noId
  | noListenAddress
  | peersIncludeSelf (node : UInt64)
  | emptyElectionRange (least most : UInt64)
  | slowHeartbeat (heartbeat least : UInt64)
  | noCommitTimeout
  | noThreshold
  deriving DecidableEq

def Fault.message : Fault → String
  | .noId => "node_id must be > 0"
  | .noListenAddress => "listen_addr is required"
  | .peersIncludeSelf node =>
    "peers must not include this node (" ++ Decimal.text node.toNat ++ ")"
  | .emptyElectionRange least most => "election_timeout_ms min (" ++ Decimal.text least.toNat
      ++ ") must be below max (" ++ Decimal.text most.toNat ++ ")"
  | .slowHeartbeat heartbeat least => "heartbeat_interval_ms (" ++ Decimal.text heartbeat.toNat
      ++ ") should be << election_timeout_ms (" ++ Decimal.text least.toNat ++ ")"
  | .noCommitTimeout => "commit_timeout_ms must be > 0"
  | .noThreshold => "snapshot_threshold must be > 0"

def fault? (s : Settings) : Option Fault :=
  let (least, most) := s.timing.electionTimeout
  if s.node = 0 then some .noId
  else if s.listen.isEmpty then some .noListenAddress
  else if s.peers.contains s.node then some (.peersIncludeSelf s.node)
  else if most ≤ least then some (.emptyElectionRange least most)
  else if least / 2 ≤ s.timing.heartbeat then some (.slowHeartbeat s.timing.heartbeat least)
  else if s.commitTimeout = 0 then some .noCommitTimeout
  else if s.compaction.threshold = 0 then some .noThreshold
  else none

def validate (s : Settings) : Except Fault Unit :=
  match s.fault? with
  | none => .ok ()
  | some fault => .error fault

end Settings

end Uniqueness
