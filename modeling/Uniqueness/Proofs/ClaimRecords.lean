import Uniqueness.Command
import Uniqueness.Proofs.SortedMaps
import Mathlib.Data.List.Dedup
import Mathlib.Data.List.Nodup

namespace Uniqueness.Claim

open SortedMap (get?_insert get?_insertAll get?_insertAll_of_mem get?_insertAll_of_not_mem mem_keys)

def record (c : Claim) (r : StateRef) : Consumption :=
  ⟨c.tx, UInt32.ofNat (c.inputs.idxOf r), c.party⟩

def entries (c : Claim) : List (StateRef × Consumption) :=
  c.inputs.map fun r => (r, c.record r)

variable (c : Claim)

theorem mem_entries {c : Claim} {e : StateRef × Consumption} :
    e ∈ c.entries ↔ e.1 ∈ c.inputs ∧ e.2 = c.record e.1 := by
  rw [entries, List.mem_map]
  constructor
  · rintro ⟨r, hr, rfl⟩
    exact ⟨hr, rfl⟩
  · rintro ⟨hr, he⟩
    exact ⟨e.1, hr, Prod.ext rfl he.symm⟩

theorem get?_insertAll_entries (h : SortedMap StateRef Consumption) (r : StateRef) :
    (h.insertAll c.entries).get? r = if r ∈ c.inputs then some (c.record r) else h.get? r := by
  split
  case isTrue hr =>
    apply get?_insertAll_of_mem
    · exact mem_entries.mpr ⟨hr, rfl⟩
    · intro v hv
      exact (mem_entries.mp hv).2
  case isFalse hr =>
    apply get?_insertAll_of_not_mem
    rintro e he rfl
    exact hr (mem_entries.mp he).1

theorem get?_recordFrom (position : Nat) (rest : List StateRef) (done : SortedMap StateRef Consumption)
    (r : StateRef) : (c.recordFrom position rest done).get? r =
      (done.get? r).or
        (if r ∈ rest then some ⟨c.tx, UInt32.ofNat (position + rest.idxOf r), c.party⟩ else none) := by
  induction rest generalizing position done with
  | nil => rw [recordFrom, if_neg List.not_mem_nil, Option.or_none]
  | cons input rest ih =>
    rw [recordFrom, ih]
    by_cases hr : r = input
    · subst hr
      rw [if_pos List.mem_cons_self, List.idxOf_cons_self, Nat.add_zero]
      cases hd : done.get? r with
      | some v => simp [SortedMap.contains, hd]
      | none => simp [SortedMap.contains, hd, get?_insert]
    · have hdone : (if done.contains input then done
          else done.insert input ⟨c.tx, UInt32.ofNat position, c.party⟩).get? r = done.get? r := by
        split
        · rfl
        · rw [get?_insert, if_neg hr]
      have hplace : position + (rest.idxOf r + 1) = position + 1 + rest.idxOf r := by omega
      rw [hdone, List.idxOf_cons_ne _ (Ne.symm hr), hplace]
      simp [hr]

theorem get?_records (r : StateRef) :
    c.records.get? r = if r ∈ c.inputs then some (c.record r) else none := by
  rw [records, get?_recordFrom, SortedMap.get?_empty, Option.none_or, Nat.zero_add, record]

theorem mem_keys_records {r : StateRef} : r ∈ c.records.keys ↔ r ∈ c.inputs := by
  rw [mem_keys, get?_records]
  split
  case isTrue hr => exact iff_of_true rfl hr
  case isFalse hr => exact iff_of_false nofun hr

theorem size_records : c.records.size = c.inputs.dedup.length := by
  have hperm : c.records.keys.Perm c.inputs.dedup := by
    apply (List.perm_ext_iff_of_nodup c.records.nodup_keys c.inputs.nodup_dedup).mpr
    intro r
    rw [mem_keys_records, List.mem_dedup]
  rw [← hperm.length_eq, SortedMap.keys, List.length_map, SortedMap.size]

theorem isEmpty_records : c.records.isEmpty = c.inputs.isEmpty := by
  have hkeys : c.records.keys = [] ↔ c.inputs = [] := by
    rw [List.eq_nil_iff_forall_not_mem, List.eq_nil_iff_forall_not_mem]
    simp only [mem_keys_records]
  rw [SortedMap.keys, List.map_eq_nil_iff] at hkeys
  rw [SortedMap.isEmpty, Bool.eq_iff_iff, List.isEmpty_iff, List.isEmpty_iff, hkeys]

theorem insertAll_records (h : SortedMap StateRef Consumption) :
    h.insertAll c.records.entries = h.insertAll c.entries := by
  apply SortedMap.ext_get?
  intro r
  rw [get?_insertAll, get?_records, get?_insertAll_entries]
  split
  · rw [Option.some_or]
  · rw [Option.none_or]

end Uniqueness.Claim
