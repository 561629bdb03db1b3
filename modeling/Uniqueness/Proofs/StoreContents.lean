import Uniqueness.Proofs.LawfulCodecs
import Uniqueness.Proofs.StateKeys

namespace Uniqueness.Store

open SortedMap (increasing_map lookup_map insertEntry_map get?_insertAll)

def tableOf (h : History) : SortedMap Bytes Bytes :=
  ⟨h.entries.map fun e => (e.1.key, Json.encode e.2),
    increasing_map StateRef.compare_key Json.encode h.increasing⟩

def Holds (s : Store) (h : History) : Prop :=
  s.table = tableOf h

def found (h : History) (keys : List StateRef) : List Entry :=
  keys.filterMap fun r => (h.get? r).map fun c => (r, c)

variable {s : Store} {h : History}

theorem mem_found {keys : List StateRef} {r : StateRef} {v : Consumption} :
    (r, v) ∈ found h keys ↔ r ∈ keys ∧ h.get? r = some v := by
  rw [found, List.mem_filterMap]
  constructor
  · rintro ⟨r', hr, hv⟩
    obtain ⟨v', hv', he⟩ := Option.map_eq_some_iff.mp hv
    cases he
    exact ⟨hr, hv'⟩
  · rintro ⟨hr, hv⟩
    exact ⟨r, hr, by rw [hv, Option.map_some]⟩

theorem ofList_found (h : History) (keys : List StateRef) :
    SortedMap.ofList (found h keys) = h.filter fun r => r ∈ keys := by
  apply SortedMap.ext_get?
  intro r
  rw [SortedMap.get?_filter, SortedMap.ofList]
  by_cases hr : r ∈ keys
  · rw [if_pos (decide_eq_true hr)]
    cases hv : h.get? r with
    | none =>
      rw [SortedMap.get?_insertAll_of_not_mem, SortedMap.get?_empty]
      rintro e he rfl
      rw [(mem_found.mp he).2] at hv
      cases hv
    | some v =>
      apply SortedMap.get?_insertAll_of_mem (mem_found.mpr ⟨hr, hv⟩)
      intro w hw
      rw [(mem_found.mp hw).2] at hv
      exact Option.some.inj hv
  · rw [if_neg (by simp [hr]), SortedMap.get?_insertAll_of_not_mem, SortedMap.get?_empty]
    rintro e he rfl
    exact hr (mem_found.mp he).1

theorem isEmpty_found (h : History) (keys : List StateRef) :
    (found h keys).isEmpty = (h.filter fun r => r ∈ keys).isEmpty := by
  rw [Bool.eq_iff_iff, SortedMap.isEmpty_filter, List.isEmpty_iff, found, List.filterMap_eq_nil_iff]
  simp only [Option.map_eq_none_iff, decide_eq_true_eq]

theorem get?_tableOf (h : History) (r : StateRef) : (tableOf h).get? r.key = (h.get? r).map Json.encode :=
  lookup_map StateRef.compare_key Json.encode r h.entries

theorem put_tableOf (h : History) (e : Entry) : put (tableOf h) e = tableOf (h.insert e.1 e.2) := by
  apply SortedMap.ext
  exact insertEntry_map StateRef.compare_key Json.encode e.1 e.2 h.entries

theorem foldl_put (es : List Entry) (h : History) : es.foldl put (tableOf h) = tableOf (h.insertAll es) := by
  induction es generalizing h with
  | nil => rfl
  | cons e es ih => rw [List.foldl_cons, put_tableOf, ih, SortedMap.insertAll_cons]

theorem size_tableOf (h : History) : (tableOf h).size = h.size :=
  List.length_map _

theorem decodeRecord_encode (c : Consumption) : decodeRecord (Json.encode c) = .ok c := by
  rw [decodeRecord, Json.decode_encode, mapError_ok]

theorem decodeEntry_key (e : Entry) : decodeEntry (e.1.key, Json.encode e.2) = .ok e := by
  simp only [decodeEntry, StateRef.ofKey?_key, decodeRecord_encode]
  rfl

theorem mapM_decodeEntry (es : List Entry) :
    (es.map fun e => (e.1.key, Json.encode e.2)).mapM decodeEntry = .ok es := by
  induction es with
  | nil => rfl
  | cons e es ih => rw [List.map_cons, List.mapM_cons, decodeEntry_key, ok_bind, ih, ok_bind, pure_eq_ok]

theorem holds_empty : empty.Holds .empty :=
  rfl

theorem Holds.get (hs : s.Holds h) (r : StateRef) : s.get r = .ok (h.get? r) := by
  rw [Store.get, hs, get?_tableOf]
  cases h.get? r with
  | none => rfl
  | some c => simp only [Option.map_some, decodeRecord_encode, map_ok]

theorem Holds.unique {h' : History} (hs : s.Holds h) (hs' : s.Holds h') : h = h' := by
  apply SortedMap.ext_get?
  intro r
  have hr := hs.get r
  rw [hs'.get] at hr
  exact (Except.ok.inj hr).symm

theorem Holds.entries (hs : s.Holds h) : s.entries = .ok h.entries := by
  rw [Store.entries, hs]
  exact mapM_decodeEntry h.entries

theorem Holds.size (hs : s.Holds h) : s.size = h.size := by
  rw [Store.size, hs, size_tableOf]

theorem Holds.present (hs : s.Holds h) (keys : List StateRef) : s.present keys = .ok (found h keys) := by
  induction keys with
  | nil => rfl
  | cons r keys ih =>
    rw [Store.present, hs.get, ok_bind, ih, ok_bind]
    cases hr : h.get? r with
    | none => simp [found, hr]
    | some c => simp [found, hr]

theorem Holds.putAll (hs : s.Holds h) (es : List Entry) : (s.putAll es).Holds (h.insertAll es) := by
  rw [Holds, Store.putAll, hs, foldl_put]

theorem Holds.putAllIfAbsent (hs : s.Holds h) (entries : History) :
    s.putAllIfAbsent entries = .ok (h.filter fun r => r ∈ entries.keys,
      if (h.filter fun r => r ∈ entries.keys).isEmpty then s.putAll entries.entries else s) := by
  rw [Store.putAllIfAbsent, hs.present, ok_bind, ← isEmpty_found, ← ofList_found]
  split
  case isTrue he =>
    rw [List.isEmpty_iff.mp he]
    rfl
  case isFalse => rfl

theorem load_eq {ε : Type} (h : History) (count : Nat) (items : List (Except ε Entry)) :
    load (tableOf h) count items =
      (items.mapM id).map fun es => (count + es.length, tableOf (h.insertAll es)) := by
  induction items generalizing h count with
  | nil => rfl
  | cons item items ih =>
    rw [List.mapM_cons, id]
    cases item with
    | error fault => rfl
    | ok e =>
      rw [load, put_tableOf, ih, ok_bind]
      cases items.mapM id with
      | error fault => rfl
      | ok es =>
        rw [ok_bind, pure_eq_ok, Except.map, Except.map, List.length_cons, SortedMap.insertAll_cons, Nat.add_assoc,
          Nat.add_comm 1]

theorem load_ok {ε : Type} (h : History) (count : Nat) (es : List Entry) :
    load (tableOf h) count (es.map (Except.ok (ε := ε))) =
      .ok (count + es.length, tableOf (h.insertAll es)) := by
  have hall : (es.map (Except.ok (ε := ε))).mapM id = .ok es := by
    rw [List.mapM_map]
    exact List.mapM_pure.trans (congrArg Except.ok (List.map_id es))
  rw [load_eq, hall]
  rfl

theorem load_error {ε : Type} (table : SortedMap Bytes Bytes) (count : Nat) (es : List Entry) (fault : ε)
    (items : List (Except ε Entry)) :
    load table count (es.map .ok ++ .error fault :: items) = .error fault := by
  induction es generalizing table count with
  | nil => rfl
  | cons e es ih => exact ih _ _

theorem replaceAll_eq {ε : Type} (s : Store) (items : List (Except ε Entry)) :
    s.replaceAll items = (items.mapM id).map fun es => (es.length, { s with table := tableOf (.ofList es) }) := by
  have hload := load_eq .empty 0 items
  rw [Store.replaceAll, show SortedMap.empty = tableOf .empty from rfl, hload]
  cases items.mapM id with
  | error fault => rfl
  | ok es =>
    simp only [Except.map, ok_bind, pure_eq_ok, Nat.zero_add]
    rfl

theorem readNote_writeNote (s : Store) (name : String) (value : Bytes) :
    (s.writeNote name value).readNote name = some value := by
  rw [readNote, writeNote, SortedMap.get?_insert, if_pos rfl]

theorem Holds.writeNote (hs : s.Holds h) (name : String) (value : Bytes) :
    (s.writeNote name value).Holds h :=
  hs

end Uniqueness.Store
