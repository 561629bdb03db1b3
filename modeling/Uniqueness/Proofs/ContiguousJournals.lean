import Uniqueness.Log.Journal
import Uniqueness.Proofs.LawfulCodecs
import Mathlib.Data.List.Induction
import Mathlib.Data.List.Nodup
import Mathlib.Data.List.Range

/-!
The journal as a log without gaps. Consensus appends where the log ends, cuts it off from some index on, and
purges it up to an entry that it has or up to a place behind its end. Then what is stored is one run of
indices, which begins right behind the last purge and has at each index what was appended there last.
-/

namespace Uniqueness.Log

instance : Ord Leadership :=
  ⟨compareLex (compareOn Leadership.term) (compareOn Leadership.node)⟩

instance : Std.TransOrd Leadership :=
  inferInstanceAs (Std.TransCmp (compareLex (compareOn Leadership.term) (compareOn Leadership.node)))

instance : Ord Id :=
  ⟨compareLex (compareOn Id.leader) (compareOn Id.index)⟩

instance : Std.ReflCmp (compare (α := Id)) :=
  inferInstanceAs (Std.ReflCmp (compareLex (compareOn Id.leader) (compareOn Id.index)))

def Id.Precedes (a b : Id) : Prop :=
  (compare a.leader b.leader).isLE

instance : DecidableRel Id.Precedes :=
  fun _ _ => inferInstanceAs (Decidable (_ = true))

instance : Trans Id.Precedes Id.Precedes Id.Precedes :=
  ⟨Std.TransCmp.isLE_trans⟩

theorem Id.Precedes.isLE_compare {a b : Id} (h : a.Precedes b) (hi : a.index < b.index) : (compare a b).isLE := by
  change ((compare a.leader b.leader).then (compare a.index b.index)).isLE
  rw [Std.compare_eq_lt.mpr hi, Ordering.isLE_then_iff_and]
  exact ⟨h, .inr rfl⟩

def Consecutive (start : Nat) (es : List Entry) : Prop :=
  es.map (·.id.index.toNat) = List.range' start es.length

instance (start : Nat) (es : List Entry) : Decidable (Consecutive start es) :=
  inferInstanceAs (Decidable (_ = _))

section

variable {start : Nat} {es fs : List Entry} {e f : Entry}

theorem consecutive_nil (start : Nat) : Consecutive start [] :=
  rfl

theorem consecutive_cons :
    Consecutive start (e :: es) ↔ e.id.index.toNat = start ∧ Consecutive (start + 1) es := by
  rw [Consecutive, List.map_cons, List.length_cons, List.range'_succ, List.cons.injEq, Consecutive]

theorem consecutive_append :
    Consecutive start (es ++ fs) ↔ Consecutive start es ∧ Consecutive (start + es.length) fs := by
  induction es generalizing start with
  | nil => simp [consecutive_nil]
  | cons e es ih =>
    rw [List.cons_append, consecutive_cons, consecutive_cons, ih, and_assoc, List.length_cons, Nat.add_right_comm,
      Nat.add_assoc]

namespace Consecutive

theorem bounds (h : Consecutive start es) (he : e ∈ es) :
    start ≤ e.id.index.toNat ∧ e.id.index.toNat < start + es.length := by
  have hmem : e.id.index.toNat ∈ es.map (·.id.index.toNat) := List.mem_map_of_mem he
  rw [h] at hmem
  exact List.mem_range'_1.mp hmem

theorem middle {front back : List Entry} (h : Consecutive start (front ++ e :: back)) :
    e.id.index.toNat = start + front.length :=
  (consecutive_cons.mp (consecutive_append.mp h).2).1

theorem take (h : Consecutive start es) (n : Nat) : Consecutive start (es.take n) := by
  rw [← List.take_append_drop n es] at h
  exact (consecutive_append.mp h).1

theorem drop (h : Consecutive start es) {place : Nat} (hp : start ≤ place) :
    Consecutive place (es.drop (place - start)) := by
  by_cases hlong : place - start ≤ es.length
  · rw [← List.take_append_drop (place - start) es] at h
    have hdrop := (consecutive_append.mp h).2
    rwa [List.length_take, Nat.min_eq_left hlong, Nat.add_sub_cancel' hp] at hdrop
  · rw [List.drop_of_length_le (Nat.le_of_not_le hlong)]
    exact consecutive_nil place

theorem pairwise (h : Consecutive start es) : es.Pairwise fun a b => a.id.index < b.id.index := by
  have hrange : (es.map (·.id.index.toNat)).Pairwise (· < ·) := h ▸ List.pairwise_lt_range'
  rw [List.pairwise_map] at hrange
  exact hrange.imp fun hlt => UInt64.lt_iff_toNat_lt.mpr hlt

theorem eq_of_index (h : Consecutive start es) (he : e ∈ es) (hf : f ∈ es) (hi : e.id.index = f.id.index) : e = f := by
  have hnodup : (es.map (·.id.index.toNat)).Nodup := h ▸ List.nodup_range'
  exact List.inj_on_of_nodup_map hnodup he hf (congrArg UInt64.toNat hi)

theorem filter_before (h : Consecutive start es) (i : UInt64) :
    es.filter (·.id.index < i) = es.take (i.toNat - start) := by
  induction es generalizing start with
  | nil => rw [List.filter_nil, List.take_nil]
  | cons e es ih =>
    obtain ⟨he, hes⟩ := consecutive_cons.mp h
    rw [List.filter_cons, ih hes]
    simp only [UInt64.lt_iff_toNat_lt, he, decide_eq_true_eq]
    by_cases hlt : start < i.toNat
    · have hsucc : i.toNat - start = i.toNat - (start + 1) + 1 := by omega
      rw [if_pos hlt, hsucc, List.take_succ_cons]
    · have hzero : i.toNat - start = 0 := by omega
      have hzero' : i.toNat - (start + 1) = 0 := by omega
      rw [if_neg hlt, hzero, hzero', List.take_zero, List.take_zero]

theorem filter_after (h : Consecutive start es) (i : UInt64) :
    es.filter (i < ·.id.index) = es.drop (i.toNat + 1 - start) := by
  induction es generalizing start with
  | nil => rw [List.filter_nil, List.drop_nil]
  | cons e es ih =>
    obtain ⟨he, hes⟩ := consecutive_cons.mp h
    rw [List.filter_cons, ih hes]
    simp only [UInt64.lt_iff_toNat_lt, he, decide_eq_true_eq]
    by_cases hlt : i.toNat < start
    · have hzero : i.toNat + 1 - start = 0 := by omega
      have hzero' : i.toNat + 1 - (start + 1) = 0 := by omega
      rw [if_pos hlt, hzero, hzero', List.drop_zero, List.drop_zero]
    · have hsucc : i.toNat + 1 - start = i.toNat + 1 - (start + 1) + 1 := by omega
      rw [if_neg hlt, hsucc, List.drop_succ_cons]

end Consecutive

end

namespace Journal

inductive Call where
  | append (es : List Entry)
  | truncate (id : Id)
  | purge (id : Id)
  | saveVote (v : Vote)
  | saveCommitted (id : Option Id)
  | reopen

def perform (j : Journal) : Call → Journal
  | .append es => j.append es
  | .truncate id => j.truncate id
  | .purge id => j.purge id
  | .saveVote v => j.saveVote v
  | .saveCommitted id => j.saveCommitted id
  | .reopen => j

def performAll (j : Journal) (calls : List Call) : Journal :=
  calls.foldl perform j

namespace Call

def appended : Call → List Entry
  | .append es => es
  | _ => []

def purged? : Call → Option Id
  | .purge id => some id
  | _ => none

def vote? : Call → Option Vote
  | .saveVote v => some v
  | _ => none

def committed? : Call → Option (Option Id)
  | .saveCommitted id => some id
  | _ => none

end Call

def lastAppended (calls : List Call) (index : UInt64) : Option Entry :=
  ((calls.flatMap Call.appended).filter (·.id.index = index)).getLast?

def lastPurge (calls : List Call) : Option Id :=
  (calls.filterMap Call.purged?).getLast?

def lastVote (calls : List Call) : Option Vote :=
  (calls.filterMap Call.vote?).getLast?

def lastCommitted (calls : List Call) : Option (Option Id) :=
  (calls.filterMap Call.committed?).getLast?

end Journal

open Journal (Call)

structure Stretch where
  purged : Option Id
  entries : List Entry

namespace Stretch

def empty : Stretch :=
  ⟨none, []⟩

def start (t : Stretch) : Nat :=
  t.purged.elim 0 (·.index.toNat + 1)

def last (t : Stretch) : Option Id :=
  (t.entries.getLast?.map (·.id)).or t.purged

def next (t : Stretch) : Nat :=
  t.last.elim 0 (·.index.toNat + 1)

def perform (t : Stretch) : Call → Stretch
  | .append es => { t with entries := t.entries ++ es }
  | .truncate id => { t with entries := t.entries.take (id.index.toNat - t.start) }
  | .purge id => ⟨some id, t.entries.drop (id.index.toNat + 1 - t.start)⟩
  | _ => t

def performAll (t : Stretch) (calls : List Call) : Stretch :=
  calls.foldl perform t

/-- What consensus may call for: to append right behind the end, and to purge up to an entry or beyond them all. -/
def Allows (t : Stretch) : Call → Prop
  | .append es => Consecutive t.next es
  | .purge id => (∃ e ∈ t.entries, e.id = id) ∨ ∀ l ∈ t.last, l.index ≤ id.index
  | _ => True

instance (t : Stretch) : DecidablePred t.Allows
  | .append _ => inferInstanceAs (Decidable (Consecutive _ _))
  | .purge _ => inferInstanceAs (Decidable (_ ∨ _))
  | .truncate _ => .isTrue trivial
  | .saveVote _ => .isTrue trivial
  | .saveCommitted _ => .isTrue trivial
  | .reopen => .isTrue trivial

def Always (P : Stretch → Call → Prop) (t : Stretch) : List Call → Prop
  | [] => True
  | call :: calls => P t call ∧ Always P (t.perform call) calls

def decideAlways (P : Stretch → Call → Prop) [∀ t, DecidablePred (P t)] (t : Stretch) :
    (calls : List Call) → Decidable (t.Always P calls)
  | [] => .isTrue trivial
  | call :: calls =>
    letI := decideAlways P (t.perform call) calls
    inferInstanceAs (Decidable (P t call ∧ (t.perform call).Always P calls))

instance (P : Stretch → Call → Prop) [∀ t, DecidablePred (P t)] (t : Stretch) : DecidablePred (t.Always P) :=
  decideAlways P t

theorem always_concat {P : Stretch → Call → Prop} {t : Stretch} {calls : List Call} {call : Call} :
    Always P t (calls ++ [call]) ↔ Always P t calls ∧ P (t.performAll calls) call := by
  induction calls generalizing t with
  | nil => simp [Always, performAll]
  | cons call' calls ih =>
    rw [List.cons_append, Always, Always, ih, and_assoc]
    rfl

variable {t : Stretch} {call : Call}

theorem performAll_concat (t : Stretch) (calls : List Call) (call : Call) :
    t.performAll (calls ++ [call]) = (t.performAll calls).perform call := by
  rw [performAll, List.foldl_concat, ← performAll]

theorem purged_perform (t : Stretch) (call : Call) : (t.perform call).purged = call.purged?.or t.purged := by
  cases call <;> rfl

def Contiguous (t : Stretch) : Prop :=
  Consecutive t.start t.entries

theorem Contiguous.next_eq (h : t.Contiguous) : t.next = t.start + t.entries.length := by
  rw [next, last]
  cases hl : t.entries.getLast? with
  | none =>
    rw [List.getLast?_eq_none_iff.mp hl]
    rfl
  | some e =>
    obtain ⟨front, hfront⟩ := List.getLast?_eq_some_iff.mp hl
    rw [Contiguous, hfront] at h
    rw [hfront, List.length_append, List.length_singleton]
    change e.id.index.toNat + 1 = _
    rw [h.middle, Nat.add_assoc]

theorem Contiguous.perform_purge (h : t.Contiguous) {front back : List Entry} {e : Entry}
    (hes : t.entries = front ++ e :: back) : t.perform (.purge e.id) = ⟨some e.id, back⟩ := by
  have hindex : e.id.index.toNat = t.start + front.length := by
    rw [Contiguous, hes] at h
    exact h.middle
  have hcount : e.id.index.toNat + 1 - t.start = (front ++ [e]).length := by
    rw [hindex, List.length_append, List.length_singleton, Nat.add_assoc, Nat.add_sub_cancel_left]
  rw [Stretch.perform, hcount, hes, List.append_cons front e back, List.drop_left]

theorem next_le {id : Id} (h : ∀ l ∈ t.last, l.index ≤ id.index) : t.next ≤ id.index.toNat + 1 := by
  rw [next]
  cases hlast : t.last with
  | none => exact Nat.zero_le _
  | some l => exact Nat.succ_le_succ (UInt64.le_iff_toNat_le.mp (h l hlast))

theorem Contiguous.end_le (h : t.Contiguous) {id : Id} (hl : ∀ l ∈ t.last, l.index ≤ id.index) :
    t.start + t.entries.length ≤ id.index.toNat + 1 :=
  h.next_eq ▸ next_le hl

theorem Contiguous.start_le_purge (h : t.Contiguous) {id : Id} (ha : t.Allows (.purge id)) :
    t.start ≤ id.index.toNat + 1 := by
  rcases ha with ⟨e, he, rfl⟩ | hl
  · exact Nat.le_succ_of_le (h.bounds he).1
  · exact Nat.le_of_add_right_le (h.end_le hl)

theorem Contiguous.perform (h : t.Contiguous) (ha : t.Allows call) : (t.perform call).Contiguous := by
  cases call with
  | append es =>
    rw [Allows, h.next_eq] at ha
    exact consecutive_append.mpr ⟨h, ha⟩
  | truncate id => exact h.take _
  | purge id => exact h.drop (h.start_le_purge ha)
  | saveVote v => exact h
  | saveCommitted id => exact h
  | reopen => exact h

def ids (t : Stretch) : List Id :=
  t.purged.toList ++ t.entries.map (·.id)

def Rises (t : Stretch) : Call → Prop
  | .append es => (t.last.toList ++ es.map (·.id)).IsChain Id.Precedes
  | _ => True

instance (t : Stretch) : DecidablePred t.Rises
  | .append _ => inferInstanceAs (Decidable (List.IsChain _ _))
  | .purge _ => .isTrue trivial
  | .truncate _ => .isTrue trivial
  | .saveVote _ => .isTrue trivial
  | .saveCommitted _ => .isTrue trivial
  | .reopen => .isTrue trivial

theorem getLast?_ids (t : Stretch) : t.ids.getLast? = t.last := by
  rw [ids, List.getLast?_append, List.getLast?_map, last]
  cases t.purged <;> rfl

theorem Contiguous.ids_purge (h : t.Contiguous) {id : Id} (ha : t.Allows (.purge id)) :
    (t.perform (.purge id)).ids.Sublist t.ids ∨ (t.perform (.purge id)).ids = [id] := by
  rcases ha with ⟨e, he, rfl⟩ | hl
  · obtain ⟨front, back, hes⟩ := List.append_of_mem he
    left
    rw [h.perform_purge hes, ids, ids, hes, List.map_append]
    exact (List.sublist_append_right _ _).trans (List.sublist_append_right _ _)
  · right
    have hlong : t.entries.length ≤ id.index.toNat + 1 - t.start := Nat.le_sub_of_add_le' (h.end_le hl)
    rw [Stretch.perform, ids, List.drop_of_length_le hlong]
    rfl

theorem Contiguous.chain_perform (h : t.Contiguous) (ha : t.Allows call) (hr : t.Rises call)
    (hids : t.ids.IsChain Id.Precedes) : (t.perform call).ids.IsChain Id.Precedes := by
  cases call with
  | append es =>
    rw [Rises, List.isChain_append] at hr
    rw [Stretch.perform, ids, List.map_append, ← List.append_assoc, List.isChain_append]
    refine ⟨hids, hr.2.1, fun a ha => hr.2.2 a ?_⟩
    have hlast : a ∈ t.last := t.getLast?_ids ▸ ha
    rw [Option.mem_def.mp hlast]
    rfl
  | truncate id =>
    exact hids.sublist (((List.take_sublist _ _).map _).append_left _)
  | purge id =>
    rcases h.ids_purge ha with hsub | hone
    · exact hids.sublist hsub
    · rw [hone]
      exact .singleton id
  | saveVote v => exact hids
  | saveCommitted id => exact hids
  | reopen => exact hids

theorem chain_performAll {calls : List Call} (h : t.Contiguous) (ha : t.Always Allows calls) (hr : t.Always Rises calls)
    (hids : t.ids.IsChain Id.Precedes) : (t.performAll calls).ids.IsChain Id.Precedes := by
  induction calls generalizing t with
  | nil => exact hids
  | cons call calls ih => exact ih (h.perform ha.1) ha.2 hr.2 (h.chain_perform ha.1 hr.1 hids)

theorem Contiguous.purged_le_last (h : t.Contiguous) {p : Id} (hp : t.purged = some p) : ∃ l ∈ t.last,
    p.index ≤ l.index ∧ (t.ids.IsChain Id.Precedes → (compare p l).isLE) := by
  cases hlast : t.entries.getLast? with
  | none =>
    refine ⟨p, ?_, UInt64.le_refl _, fun _ => Std.ReflCmp.isLE_rfl⟩
    rw [last, hlast, hp]
    rfl
  | some e =>
    have he : e ∈ t.entries := List.mem_of_getLast? hlast
    have hlt : p.index < e.id.index := by
      have hstart := (h.bounds he).1
      rw [start, hp] at hstart
      exact UInt64.lt_iff_toNat_lt.mpr hstart
    refine ⟨e.id, ?_, UInt64.le_of_lt hlt, fun hids => ?_⟩
    · rw [last, hlast]
      rfl
    · rw [ids, hp, List.isChain_iff_pairwise, List.pairwise_append] at hids
      exact (hids.2.2 p List.mem_cons_self e.id (List.mem_map_of_mem he)).isLE_compare hlt

end Stretch

namespace Journal

theorem readAs_encode {α : Type} [Codec α] [LawfulCodec α] (subject : Storage.Subject) (a : α) :
    readAs α subject (Json.encode a) = .ok a := by
  rw [readAs, Json.decode_encode, mapError_ok]

theorem readAs?_encode {α : Type} [Codec α] [LawfulCodec α] (subject : Storage.Subject) (found : Option α) :
    readAs? α subject (found.map Json.encode) = .ok found := by
  cases found with
  | none => rfl
  | some a => rw [Option.map_some, readAs?, readAs_encode, map_ok]

def place (e : Entry) : UInt64 × Bytes :=
  (e.id.index, Json.encode e)

theorem mapM_place (es : List Entry) : (es.map place).mapM (fun e => readAs Entry .logs e.2) = .ok es := by
  induction es with
  | nil => rfl
  | cons e es ih => rw [List.map_cons, List.mapM_cons, place, readAs_encode, ok_bind, ih, ok_bind, pure_eq_ok]

theorem filter_place (es : List Entry) (p : UInt64 → Bool) :
    (es.map place).filter (fun e => p e.1) = (es.filter fun e => p e.id.index).map place :=
  List.filter_map

theorem increasing_place {start : Nat} {es : List Entry} (h : Consecutive start es) : Increasing (es.map place) := by
  rw [Increasing, List.pairwise_map]
  exact h.pairwise.imp fun hlt => Std.compare_eq_lt.mpr hlt

structure Stores (j : Journal) (t : Stretch) : Prop where
  entries : j.entries.entries = t.entries.map place
  purged : j.purged = t.purged.map Json.encode

variable {j : Journal} {t : Stretch} {call : Call}

theorem Stores.entries_filter (hs : j.Stores t) (p : UInt64 → Bool) :
    (j.entries.filter p).entries = (t.entries.filter fun e => p e.id.index).map place := by
  change (j.entries.entries.filter fun e => p e.1) = _
  rw [hs.entries, filter_place]

theorem Stores.perform (hs : j.Stores t) (ht : t.Contiguous) (ha : t.Allows call) :
    (j.perform call).Stores (t.perform call) := by
  cases call with
  | append es =>
    refine ⟨?_, hs.purged⟩
    have hall : j.entries.entries ++ es.map place = (t.entries ++ es).map place := by rw [hs.entries, List.map_append]
    have hincreasing : Increasing (j.entries.entries ++ es.map place) := hall ▸ increasing_place (ht.perform ha)
    exact (SortedMap.entries_insertAll hincreasing).trans hall
  | truncate id =>
    refine ⟨?_, hs.purged⟩
    change (j.entries.filter (· < id.index)).entries = _
    rw [hs.entries_filter, ht.filter_before]
    rfl
  | purge id =>
    refine ⟨?_, rfl⟩
    change (j.entries.filter (id.index < ·)).entries = _
    rw [hs.entries_filter, ht.filter_after]
    rfl
  | saveVote v => exact ⟨hs.entries, hs.purged⟩
  | saveCommitted id => exact ⟨hs.entries, hs.purged⟩
  | reopen => exact hs

theorem Stores.read (hs : j.Stores t) (range : Range) :
    j.read range = .ok (t.entries.filter fun e => range.contains e.id.index) := by
  rw [Journal.read, hs.entries_filter, mapM_place]

theorem Stores.extent (hs : j.Stores t) : j.extent = .ok ⟨t.purged, t.last⟩ := by
  have hlast : j.lastEntry = .ok (t.entries.getLast?.map (·.id)) := by
    rw [lastEntry, SortedMap.last?, hs.entries, List.getLast?_map]
    cases t.entries.getLast? with
    | none => rfl
    | some e =>
      simp only [Option.map_some, place, readAs_encode, ok_bind]
      rfl
  rw [Journal.extent, hs.purged, readAs?_encode, ok_bind, hlast, ok_bind, Stretch.last]
  cases t.entries.getLast? with
  | none => rfl
  | some e => rfl

theorem Stores.keys (hs : j.Stores t) : j.entries.keys = t.entries.map (·.id.index) := by
  rw [SortedMap.keys, hs.entries, List.map_map]
  rfl

theorem Stores.indices (hs : j.Stores t) (ht : t.Contiguous) :
    j.entries.keys.map UInt64.toNat = List.range' t.start j.entries.size := by
  rw [hs.keys, SortedMap.size, hs.entries, List.map_map, List.length_map]
  exact ht

theorem getLast?_filterMap_concat {α β : Type} (f : α → Option β) (as : List α) (a : α) :
    ((as ++ [a]).filterMap f).getLast? = (f a).or (as.filterMap f).getLast? := by
  rw [List.filterMap_append, List.getLast?_append]
  cases ha : f a with
  | none => rw [List.filterMap_cons_none ha, List.filterMap_nil, List.getLast?_nil]
  | some b => rw [List.filterMap_cons_some ha, List.filterMap_nil, List.getLast?_singleton]

theorem lastAppended_concat (calls : List Call) (call : Call) (i : UInt64) :
    lastAppended (calls ++ [call]) i = (call.appended.filter (·.id.index = i)).getLast?.or (lastAppended calls i) := by
  rw [lastAppended, List.flatMap_append, List.flatMap_singleton, List.filter_append, List.getLast?_append,
    lastAppended]

theorem getLast?_filter_index {start : Nat} {es : List Entry} (h : Consecutive start es) {e : Entry} (he : e ∈ es) :
    (es.filter (·.id.index = e.id.index)).getLast? = some e := by
  have hmem : e ∈ es.filter (·.id.index = e.id.index) := List.mem_filter.mpr ⟨he, decide_eq_true rfl⟩
  obtain ⟨f, hf⟩ := Option.ne_none_iff_exists'.mp (mt List.getLast?_eq_none_iff.mp (List.ne_nil_of_mem hmem))
  obtain ⟨hfes, hindex⟩ := List.mem_filter.mp (List.mem_of_getLast? hf)
  rw [hf, h.eq_of_index hfes he (of_decide_eq_true hindex)]

theorem vote_perform (j : Journal) (call : Call) :
    (j.perform call).vote = (call.vote?.map Json.encode).or j.vote := by
  cases call <;> rfl

theorem committed_perform (j : Journal) (call : Call) :
    (j.perform call).committed = (call.committed?.map Json.encode).or j.committed := by
  cases call <;> rfl

structure Keeps (calls : List Call) (j : Journal) (t : Stretch) : Prop extends Stores j t where
  contiguous : t.Contiguous
  lastPurge : t.purged = lastPurge calls
  lastAppended : ∀ e ∈ t.entries, lastAppended calls e.id.index = some e
  vote : j.vote = (lastVote calls).map Json.encode
  committed : j.committed = (lastCommitted calls).map Json.encode

variable {calls : List Call}

theorem Keeps.lastAppended_perform (hk : Keeps calls j t) (ha : t.Allows call) {e : Entry}
    (he : e ∈ (t.perform call).entries) : Journal.lastAppended (calls ++ [call]) e.id.index = some e := by
  have hold : ∀ e ∈ t.entries, call.appended = [] → Journal.lastAppended (calls ++ [call]) e.id.index = some e := by
    intro e he hnone
    rw [lastAppended_concat, hnone, hk.lastAppended e he]
    rfl
  cases call with
  | append es =>
    have hall := hk.contiguous.perform ha
    obtain ⟨hbefore, hafter⟩ := consecutive_append.mp hall
    rw [lastAppended_concat]
    rcases List.mem_append.mp he with hmem | hmem
    · -- what is appended now has higher indices
      have hnone : es.filter (·.id.index = e.id.index) = [] := by
        rw [List.filter_eq_nil_iff]
        intro f hf hindex
        have hlow := (hbefore.bounds hmem).2
        have hhigh := (hafter.bounds hf).1
        rw [of_decide_eq_true hindex] at hhigh
        exact absurd hlow (Nat.not_lt.mpr hhigh)
      rw [Call.appended, hnone, hk.lastAppended e hmem]
      rfl
    · rw [Call.appended, getLast?_filter_index hafter hmem]
      rfl
  | truncate id => exact hold e (List.mem_of_mem_take he) rfl
  | purge id => exact hold e (List.mem_of_mem_drop he) rfl
  | saveVote v => exact hold e he rfl
  | saveCommitted id => exact hold e he rfl
  | reopen => exact hold e he rfl

theorem Keeps.perform (hk : Keeps calls j t) (ha : t.Allows call) :
    Keeps (calls ++ [call]) (j.perform call) (t.perform call) where
  toStores := hk.toStores.perform hk.contiguous ha
  contiguous := hk.contiguous.perform ha
  lastPurge := by
    rw [t.purged_perform, hk.lastPurge, Journal.lastPurge, Journal.lastPurge, getLast?_filterMap_concat]
  lastAppended _ he := hk.lastAppended_perform ha he
  vote := by
    rw [j.vote_perform, hk.vote, lastVote, lastVote, getLast?_filterMap_concat, Option.map_or]
  committed := by
    rw [j.committed_perform, hk.committed, lastCommitted, lastCommitted, getLast?_filterMap_concat, Option.map_or]

theorem keeps_performAll (h : Stretch.empty.Always Stretch.Allows calls) :
    Keeps calls (empty.performAll calls) (Stretch.empty.performAll calls) := by
  induction calls using List.reverseRecOn with
  | nil => exact ⟨⟨rfl, rfl⟩, rfl, rfl, nofun, rfl, rfl⟩
  | append_singleton calls call ih =>
    obtain ⟨hcalls, hcall⟩ := Stretch.always_concat.mp h
    rw [Stretch.performAll_concat, performAll, List.foldl_concat, ← performAll]
    exact (ih hcalls).perform hcall

theorem refines_contiguous_log (h : Stretch.empty.Always Stretch.Allows calls) :
    let j := empty.performAll calls
    let t := Stretch.empty.performAll calls
    j.entries.keys.map UInt64.toNat = List.range' t.start j.entries.size ∧
      (∀ range, j.read range = .ok (t.entries.filter fun e => range.contains e.id.index)) ∧
      t.entries.map (·.id.index) = j.entries.keys ∧
      (∀ e ∈ t.entries, lastAppended calls e.id.index = some e) ∧
      j.extent = .ok ⟨lastPurge calls, t.last⟩ ∧ t.purged = lastPurge calls ∧
      (∀ p ∈ t.purged, ∃ l ∈ t.last, p.index ≤ l.index ∧
        (Stretch.empty.Always Stretch.Rises calls → (compare p l).isLE)) ∧
      j.readVote = .ok (lastVote calls) ∧ j.readCommitted = .ok (lastCommitted calls).join := by
  intro j t
  have hk : Keeps calls j t := keeps_performAll h
  refine ⟨hk.indices hk.contiguous, hk.read, hk.keys.symm, hk.lastAppended, ?_, hk.lastPurge, ?_, ?_, ?_⟩
  · rw [hk.extent, hk.lastPurge]
  · intro p hp
    obtain ⟨l, hl, hindex, hle⟩ := hk.contiguous.purged_le_last hp
    exact ⟨l, hl, hindex, fun hr => hle (Stretch.chain_performAll (consecutive_nil 0) h hr .nil)⟩
  · rw [readVote, hk.vote, readAs?_encode]
  · rw [readCommitted, hk.committed, readAs?_encode, map_ok]

def blank (term index : UInt64) : Entry :=
  ⟨⟨⟨term, 1⟩, index⟩, .blank⟩

def takenOver : List Call :=
  [.append [blank 1 0, blank 1 1, blank 1 2], .saveVote ⟨⟨2, 1⟩, true⟩, .truncate (blank 1 1).id,
    .append [blank 2 1, blank 2 2], .saveCommitted (blank 2 1).id, .purge (blank 2 1).id]

def caughtUp : List Call :=
  takenOver ++ [.purge (blank 3 9).id, .reopen, .append [blank 3 10]]

theorem purge_behind_the_end_is_kept :
    Stretch.empty.Always Stretch.Allows caughtUp ∧ Stretch.empty.Always Stretch.Rises caughtUp ∧
      (empty.performAll takenOver).read ⟨.unbounded, .excluded 3⟩ = .ok [blank 2 2] ∧
      (empty.performAll takenOver).extent = .ok ⟨some (blank 2 1).id, some (blank 2 2).id⟩ ∧
      (empty.performAll caughtUp).read ⟨.unbounded, .unbounded⟩ = .ok [blank 3 10] ∧
      (empty.performAll caughtUp).extent = .ok ⟨some (blank 3 9).id, some (blank 3 10).id⟩ ∧
      (empty.performAll caughtUp).readVote = .ok (some ⟨⟨2, 1⟩, true⟩) ∧
      (empty.performAll caughtUp).readCommitted = .ok (some (blank 2 1).id) := by
  obtain ⟨-, hread, -, -, hextent, -⟩ := @refines_contiguous_log takenOver (by decide)
  obtain ⟨-, hread', -, -, hextent', -, -, hvote, hcommitted⟩ := @refines_contiguous_log caughtUp (by decide)
  exact ⟨by decide, by decide, hread _, hextent, hread' _, hextent', hvote, hcommitted⟩

end Journal

end Uniqueness.Log
