import Uniqueness.Json
import Uniqueness.Proofs.DigestTexts
import Uniqueness.Proofs.JsonRoundTrip
import Uniqueness.Proofs.Results
import Uniqueness.Proofs.SortedMaps
import Uniqueness.Replica

namespace Uniqueness

open Json (isWritable areWritable areWritableFields isPlain)

class LawfulCodec (α : Type) [Codec α] : Prop where
  isWritable_toTree (a : α) : isWritable (toTree a) = true
  ofTree_toTree (a : α) : ofTree (toTree a) = .ok a

export LawfulCodec (isWritable_toTree ofTree_toTree)

attribute [simp] isWritable_toTree ofTree_toTree

variable {α β : Type} [Codec α] [Codec β]

namespace Json

theorem encode_eq_bytes (a : α) : encode a = bytes (toTree a) := by
  rw [encode, Utf8.encode, text, String.toList_ofList, bytes]

theorem decode_encode [LawfulCodec α] (a : α) : decode α (encode a) = .ok a := by
  rw [encode_eq_bytes, decode, parse_bytes (isWritable_toTree a)]
  simp only [bind, Except.bind, ofTree_toTree]
  rfl

end Json

variable [LawfulCodec α] [LawfulCodec β]

@[simp] theorem ofInner_toTree (a : α) : ofInner (toTree a) = .ok a := by
  rw [ofInner, ofTree_toTree, Except.mapError]

namespace LawfulCodec

instance : LawfulCodec Bool where
  isWritable_toTree _ := rfl
  ofTree_toTree _ := rfl

instance : LawfulCodec String where
  isWritable_toTree _ := rfl
  ofTree_toTree _ := rfl

theorem natOfTree_int {bound n : Nat} (h : n < bound) (expected : String) :
    Codec.natOfTree bound expected (.int n) = .ok n := by
  rw [Codec.natOfTree, if_pos ⟨Int.natCast_nonneg n, Int.ofNat_lt.mpr h⟩, Int.toNat_natCast]

instance : LawfulCodec UInt32 where
  isWritable_toTree _ := rfl
  ofTree_toTree n := by
    have h := natOfTree_int n.toNat_lt "u32"
    change UInt32.ofNat <$> Codec.natOfTree UInt32.size "u32" (.int n.toNat) = .ok n
    rw [h]
    exact congrArg Except.ok UInt32.ofNat_toNat

instance : LawfulCodec UInt64 where
  isWritable_toTree _ := rfl
  ofTree_toTree n := by
    have h := natOfTree_int n.toNat_lt "u64"
    change UInt64.ofNat <$> Codec.natOfTree UInt64.size "u64" (.int n.toNat) = .ok n
    rw [h]
    exact congrArg Except.ok UInt64.ofNat_toNat

theorem areWritable_map (items : List α) : areWritable (items.map toTree) = true := by
  induction items with
  | nil => rfl
  | cons a items ih => rw [List.map_cons, areWritable, isWritable_toTree, ih, Bool.and_self]

theorem itemsOfTrees_map (items : List α) : Codec.itemsOfTrees (items.map toTree) = .ok items := by
  induction items with
  | nil => rfl
  | cons a items ih =>
    rw [List.map_cons, Codec.itemsOfTrees, ofInner_toTree, ih]
    rfl

instance : LawfulCodec (List α) where
  isWritable_toTree := areWritable_map
  ofTree_toTree items := by
    change (do
      let values ← Codec.itemsOfTrees (items.map toTree)
      if Ending.closed = .broken then .error .malformed else .ok values) = Except.ok items
    rw [itemsOfTrees_map]
    rfl

instance : LawfulCodec (α × β) where
  isWritable_toTree p := by
    change areWritable [toTree p.1, toTree p.2] = true
    simp [areWritable]
  ofTree_toTree p := by
    change (do
      let a ← ofInner (toTree p.1)
      let b ← ofInner (toTree p.2)
      if Codec.endsList [] .closed then .ok (a, b) else .error .malformed) = Except.ok p
    rw [ofInner_toTree, ofInner_toTree]
    rfl

theorem option (h : ∀ a : α, toTree a ≠ .null) : LawfulCodec (Option α) where
  isWritable_toTree
    | none => rfl
    | some a => isWritable_toTree a
  ofTree_toTree
    | none => rfl
    | some a => by
      simp only [toTree, ofTree]
      split
      case h_1 hn => exact absurd hn (h a)
      case h_2 =>
        rw [ofTree_toTree]
        rfl

end LawfulCodec

theorem isWritable_object {fields : List (String × Tree)}
    (hn : (fields.map (·.1)).all (fun name => name.toList.all isPlain) = true)
    (ht : ∀ t ∈ fields.map (·.2), isWritable t = true) : isWritable (.object fields) = true := by
  change areWritableFields (fields.map fun f => (.plain f.1, f.2)) = true
  induction fields with
  | nil => rfl
  | cons f fields ih =>
    rw [List.map_cons, List.all_cons, Bool.and_eq_true] at hn
    rw [List.map_cons, List.forall_mem_cons] at ht
    rw [List.map_cons, areWritableFields, hn.1, ht.1, ih hn.2 ht.2]
    rfl

omit [Codec α] [LawfulCodec α] in
@[simp] theorem required_some (name : String) (a : α) : required name (some a) = .ok a :=
  rfl

@[simp] theorem Shape.read_object {σ : Type} (shape : Shape σ) (d : σ) (fields : List (String × Tree)) :
    shape.read d (.object fields) =
      shape.readTable .closed (fields.map fun f => (.plain f.1, f.2)) d :=
  rfl

attribute [simp] Shape.readTable Label.text? Field.of

instance : LawfulCodec Digest where
  isWritable_toTree _ := rfl
  ofTree_toTree d := by
    simp only [ofTree, toTree, ok_bind, Digest.parse_text]

instance : LawfulCodec Party where
  isWritable_toTree a := by
    apply isWritable_object
    · simp only [List.map_cons, List.map_nil]
      decide
    · simp
  ofTree_toTree a := by
    change ofTree (.object [("name", toTree a.name), ("owning_key", toTree a.owningKey)]) = .ok a
    simp [ofTree, Party.shape]

instance : LawfulCodec StateRef where
  isWritable_toTree a := by
    apply isWritable_object
    · simp only [List.map_cons, List.map_nil]
      decide
    · simp
  ofTree_toTree a := by
    change ofTree (.object [("txhash", toTree a.tx), ("index", toTree a.index)]) = .ok a
    simp [ofTree, StateRef.shape]

instance : LawfulCodec Consumption where
  isWritable_toTree a := by
    apply isWritable_object
    · simp only [List.map_cons, List.map_nil]
      decide
    · simp
  ofTree_toTree a := by
    change ofTree (.object [("id", toTree a.tx),
      ("input_index", toTree a.position),
      ("requesting_party", toTree a.party)]) =
      .ok a
    simp [ofTree, Consumption.shape]

instance : LawfulCodec Snapshot.Record where
  isWritable_toTree a := by
    apply isWritable_object
    · simp only [List.map_cons, List.map_nil]
      decide
    · simp
  ofTree_toTree a := by
    change ofTree (.object [("state_ref", toTree a.state), ("consuming_tx", toTree a.consumption)]) = .ok a
    simp [ofTree, Snapshot.Record.shape]

instance : LawfulCodec Log.Leadership where
  isWritable_toTree a := by
    apply isWritable_object
    · simp only [List.map_cons, List.map_nil]
      decide
    · simp
  ofTree_toTree a := by
    change ofTree (.object [("term", toTree a.term), ("node_id", toTree a.node)]) = .ok a
    simp [ofTree, Log.Leadership.shape]

instance : LawfulCodec Log.Id where
  isWritable_toTree a := by
    apply isWritable_object
    · simp only [List.map_cons, List.map_nil]
      decide
    · simp
  ofTree_toTree a := by
    change ofTree (.object [("leader_id", toTree a.leader), ("index", toTree a.index)]) = .ok a
    simp [ofTree, Log.Id.shape]

instance : LawfulCodec (Option Log.Id) :=
  .option fun _ => nofun

instance : LawfulCodec Log.Voters where
  isWritable_toTree voters := isWritable_toTree voters.keys
  ofTree_toTree voters := by
    change SortedSet.ofList <$> ofTree (toTree voters.keys) = Except.ok voters
    rw [ofTree_toTree, map_ok, SortedMap.ofList_keys]

theorem Decimal.isPlain_text {n : Nat} : (text n).toList.all isPlain = true := by
  rw [text, String.toList_ofList, List.all_eq_true]
  intro c hc
  have hd := isDigit_iff.mp (isDigit_of_mem_digits hc)
  rw [Json.isPlain_iff]
  refine ⟨by omega, ?_, ?_⟩
  · rintro rfl
    exact absurd hd (by decide)
  · rintro rfl
    exact absurd hd (by decide)

namespace Log.Nodes

theorem isWritable_addressTree (address : String) : isWritable (addressTree address) = true := by
  apply isWritable_object
  · simp only [List.map_cons, List.map_nil]
    decide
  · simp

theorem ofAddressTree_addressTree (address : String) : ofAddressTree (addressTree address) = .ok address := by
  simp [ofAddressTree, addressTree, shape]

theorem ofFields_map (es : List (UInt64 × String)) (nodes : Nodes) :
    ofFields .closed (es.map fun e => (.plain (Decimal.text e.1.toNat), addressTree e.2)) nodes =
      .ok (nodes.insertAll es) := by
  induction es generalizing nodes with
  | nil => rfl
  | cons e es ih =>
    rw [List.map_cons, ofFields]
    simp only [number?, Decimal.canonical?_text, ofAddressTree_addressTree, mapError_ok, ok_bind, ih]
    rfl

end Log.Nodes

instance : LawfulCodec Log.Nodes where
  isWritable_toTree nodes := by
    apply isWritable_object
    · rw [List.all_eq_true]
      intro name hn
      simp only [List.map_map, List.mem_map] at hn
      obtain ⟨e, -, rfl⟩ := hn
      exact Decimal.isPlain_text
    · intro t ht
      simp only [List.map_map, List.mem_map] at ht
      obtain ⟨e, -, rfl⟩ := ht
      exact Log.Nodes.isWritable_addressTree e.2
  ofTree_toTree nodes := by
    change Log.Nodes.ofFields .closed ((nodes.entries.map fun e =>
      (Decimal.text e.1.toNat, Log.Nodes.addressTree e.2)).map fun f => (.plain f.1, f.2)) .empty = .ok nodes
    rw [List.map_map]
    exact (Log.Nodes.ofFields_map nodes.entries .empty).trans (congrArg _ (SortedMap.ofList_entries nodes))

instance : LawfulCodec Log.Membership where
  isWritable_toTree a := by
    apply isWritable_object
    · simp only [List.map_cons, List.map_nil]
      decide
    · simp
  ofTree_toTree a := by
    change ofTree (.object [("configs", toTree a.configs), ("nodes", toTree a.nodes)]) = .ok a
    simp [ofTree, Log.Membership.shape]

instance : LawfulCodec Log.StoredMembership where
  isWritable_toTree a := by
    apply isWritable_object
    · simp only [List.map_cons, List.map_nil]
      decide
    · simp
  ofTree_toTree a := by
    change ofTree (.object [("log_id", toTree a.id), ("membership", toTree a.membership)]) = .ok a
    simp [ofTree, Log.StoredMembership.shape]

instance : LawfulCodec Applied where
  isWritable_toTree a := by
    apply isWritable_object
    · simp only [List.map_cons, List.map_nil]
      decide
    · simp
  ofTree_toTree a := by
    change ofTree (.object [("last_applied_log", toTree a.last),
      ("last_membership", toTree a.membership)]) = .ok a
    simp [ofTree, Applied.shape]

instance : LawfulCodec Archive.Meta where
  isWritable_toTree a := by
    apply isWritable_object
    · simp only [List.map_cons, List.map_nil]
      decide
    · simp
  ofTree_toTree a := by
    change ofTree (.object [("last_log_id", toTree a.last),
      ("last_membership", toTree a.membership),
      ("snapshot_id", toTree a.name)]) = .ok a
    simp [ofTree, Archive.Meta.shape]

instance : LawfulCodec Claim where
  isWritable_toTree a := by
    apply isWritable_object
    · simp only [List.map_cons, List.map_nil]
      decide
    · simp
  ofTree_toTree a := by
    change ofTree (.object [("inputs", toTree a.inputs),
      ("tx_id", toTree a.tx),
      ("requesting_party", toTree a.party)]) = .ok a
    simp [ofTree, Claim.shape]

instance : LawfulCodec (Option Consumption) :=
  .option fun _ => nofun

instance : LawfulCodec Conflict where
  isWritable_toTree a := by
    apply isWritable_object
    · simp only [List.map_cons, List.map_nil]
      decide
    · simp
  ofTree_toTree a := by
    change ofTree (.object [("state_history", toTree a.history.entries)]) = .ok a
    simp [ofTree, Conflict.shape, SortedMap.ofList_entries]

theorem isWritable_caseTree {name : String} {content : Tree} (hn : name.toList.all isPlain = true)
    (ht : isWritable content = true) : isWritable (caseTree name content) = true := by
  apply isWritable_object
  · simp [hn]
  · simp [ht]

omit [Codec α] [LawfulCodec α] in
theorem Case.read_caseTree {cases : List (Case α)} {c : Case α} {name : String}
    (h : cases.find? (fun c => c.name = name) = some c) (content : Tree) :
    Case.read cases (caseTree name content) = c.full content := by
  have hread : Case.read cases (caseTree name content) = (do
      let a ← (← Case.find cases name).full content
      if ([] : List (Label × Tree)).isEmpty && Ending.closed != .broken then .ok a
      else .error (.outOfRange "map" "map with a single key")) := rfl
  rw [hread, Case.find, h, ok_bind]
  cases c.full content with
  | error fault => rfl
  | ok a => rfl

omit [Codec α] [LawfulCodec α] in
theorem Case.read_holding {cases : List (Case α)} {name : String} {f : β → α}
    (h : cases.find? (fun c => c.name = name) = some (.holding name f)) (b : β) :
    Case.read cases (caseTree name (toTree b)) = .ok (f b) := by
  rw [Case.read_caseTree h]
  simp only [Case.holding, ofTree_toTree, map_ok]

instance : LawfulCodec Command where
  isWritable_toTree
    | .claim c => isWritable_caseTree (by decide) (isWritable_toTree c)
    | .get key => by
      apply isWritable_caseTree (by decide)
      apply isWritable_object
      · simp only [List.map_cons, List.map_nil]
        decide
      · simp
    | .size => rfl
  ofTree_toTree
    | .claim c => by
      change Case.read Command.cases (caseTree "Claim" (toTree c)) = .ok (.claim c)
      rw [Case.read_caseTree rfl]
      simp only [Case.ofRecord, ofTree_toTree, map_ok]
    | .get key => by
      change Case.read Command.cases (caseTree "Get" (.object [("key", toTree key)])) = .ok (.get key)
      rw [Case.read_caseTree rfl]
      simp [Case.ofRecord, Command.readGet, Command.getShape]
    | .size => rfl

instance : LawfulCodec Response where
  isWritable_toTree
    | .committed => rfl
    | .conflict c => isWritable_caseTree (by decide) (isWritable_toTree c)
    | .value record => isWritable_caseTree (by decide) (isWritable_toTree record)
    | .size n => isWritable_caseTree (by decide) (isWritable_toTree n)
    | .noop => rfl
  ofTree_toTree
    | .committed => rfl
    | .conflict c => Case.read_holding rfl c
    | .value record => Case.read_holding rfl record
    | .size n => Case.read_holding rfl n
    | .noop => rfl

instance : LawfulCodec Verdict where
  isWritable_toTree
    | .success => rfl
    | .conflict c => isWritable_caseTree (by decide) (isWritable_toTree c)
  ofTree_toTree
    | .success => rfl
    | .conflict c => Case.read_holding rfl c

instance : LawfulCodec Log.Vote where
  isWritable_toTree a := by
    apply isWritable_object
    · simp only [List.map_cons, List.map_nil]
      decide
    · simp
  ofTree_toTree a := by
    change ofTree (.object [("leader_id", toTree a.leader), ("committed", toTree a.committed)]) = .ok a
    simp [ofTree, Log.Vote.shape]

instance : LawfulCodec Log.Payload where
  isWritable_toTree
    | .blank => rfl
    | .command c => isWritable_caseTree (by decide) (isWritable_toTree c)
    | .membership m => isWritable_caseTree (by decide) (isWritable_toTree m)
  ofTree_toTree
    | .blank => rfl
    | .command c => Case.read_holding rfl c
    | .membership m => Case.read_holding rfl m

instance : LawfulCodec Log.Entry where
  isWritable_toTree a := by
    apply isWritable_object
    · simp only [List.map_cons, List.map_nil]
      decide
    · simp
  ofTree_toTree a := by
    change ofTree (.object [("log_id", toTree a.id), ("payload", toTree a.payload)]) = .ok a
    simp [ofTree, Log.Entry.shape]

namespace Json

/-- Values are read back from their texts as they were, whatever their strings and numbers and however
long their lists. A history, which is written as a list of pairs, is the same map again. -/
theorem written_values_are_read_back :
    (∀ c : Command, decode Command (encode c) = .ok c) ∧
    (∀ r : Response, decode Response (encode r) = .ok r) ∧
    (∀ v : Verdict, decode Verdict (encode v) = .ok v) ∧
    (∀ c : Conflict, decode Conflict (encode c) = .ok c ∧ toTree c = .object [("state_history",
      .array (c.history.entries.map fun e => .array [toTree e.1, toTree e.2]))]) ∧
    (∀ c : Consumption, decode Consumption (encode c) = .ok c) ∧
    (∀ e : Log.Entry, decode Log.Entry (encode e) = .ok e) ∧
    ∀ r : Snapshot.Record, decode Snapshot.Record (encode r) = .ok r := by
  refine ⟨decode_encode, decode_encode, decode_encode, ?_, decode_encode, decode_encode, decode_encode⟩
  intro c
  exact ⟨decode_encode c, rfl⟩

end Json

end Uniqueness
