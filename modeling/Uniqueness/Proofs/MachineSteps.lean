import Uniqueness.Machine
import Uniqueness.Proofs.ClaimRecords
import Uniqueness.Proofs.StoreContents

namespace Uniqueness

namespace History

def Vacant (h : History) (c : Claim) : Prop :=
  ∀ r ∈ c.inputs, h.get? r = none

instance (h : History) (c : Claim) : Decidable (Vacant h c) :=
  inferInstanceAs (Decidable (∀ r ∈ c.inputs, h.get? r = none))

def commit (h : History) : Command → History
  | .claim c => if Vacant h c then h.insertAll c.entries else h
  | _ => h

def reply (h : History) : Command → Response
  | .claim c =>
    if Vacant h c then .committed else .conflict ⟨h.filter fun r => r ∈ c.inputs⟩
  | .get r => .value (h.get? r)
  | .size => .size (UInt64.ofNat h.size)

def commitAll (h : History) (commands : List Command) : History :=
  commands.foldl commit h

variable {h : History} {c : Claim}

theorem isEmpty_filter (h : History) (c : Claim) :
    (h.filter fun r => r ∈ c.inputs).isEmpty = true ↔ Vacant h c := by
  rw [SortedMap.isEmpty_filter]
  simp only [decide_eq_true_eq, Vacant]

theorem get?_commit {r : StateRef} {v : Consumption} (hr : h.get? r = some v) (command : Command) :
    (commit h command).get? r = some v := by
  cases command with
  | claim c =>
    rw [commit]
    split
    case isTrue hv =>
      have hc : r ∉ c.inputs := by
        intro hc
        rw [hv r hc] at hr
        cases hr
      rw [c.get?_insertAll_entries, if_neg hc, hr]
    case isFalse => exact hr
  | get r => exact hr
  | size => exact hr

theorem get?_commitAll {r : StateRef} {v : Consumption} (hr : h.get? r = some v) (commands : List Command) :
    (commitAll h commands).get? r = some v := by
  induction commands generalizing h with
  | nil => exact hr
  | cons command commands ih => exact ih (get?_commit hr command)

end History

namespace Machine

open History (Vacant isEmpty_filter)

variable {m : Machine} {h : History}

def holding (m : Machine) (h : History) : Machine :=
  { m with store.table := Store.tableOf h }

theorem holding_self (hm : m.store.Holds h) : m.holding h = m := by
  rw [holding, ← hm]

theorem claim_eq (hm : m.store.Holds h) (c : Claim) : m.claim c =
    .ok (if Vacant h c then .success else .conflict ⟨h.filter fun r => r ∈ c.inputs⟩,
      m.holding (h.commit (.claim c))) := by
  rw [claim, History.commit]
  by_cases he : c.inputs.isEmpty = true
  · -- nothing is written, and nothing would be
    have hnil := List.isEmpty_iff.mp he
    have hv : Vacant h c := by simp [Vacant, hnil]
    have hentries : h.insertAll c.entries = h := by simp [Claim.entries, hnil]
    simp only [c.isEmpty_records, he, if_true, if_pos hv, hentries, holding_self hm]
    rfl
  · simp only [c.isEmpty_records, if_neg he, hm.putAllIfAbsent, c.mem_keys_records, ok_bind, isEmpty_filter]
    by_cases hv : Vacant h c
    · have hput := hm.putAll c.records.entries
      rw [Store.Holds, c.insertAll_records] at hput
      simp only [if_pos hv, holding, ← hput]
      rfl
    · simp only [if_neg hv, holding_self hm]
      rfl

theorem apply_eq (hm : m.store.Holds h) (command : Command) :
    m.apply command = .ok (h.reply command, m.holding (h.commit command)) := by
  cases command with
  | claim c =>
    simp only [apply, dispatch, claim_eq hm, ok_bind, pure_eq_ok, mapError_ok, History.reply]
    split
    · rfl
    · rfl
  | get r =>
    simp only [apply, dispatch, hm.get, ok_bind, pure_eq_ok, mapError_ok, History.reply, History.commit,
      holding_self hm]
  | size =>
    simp only [apply, dispatch, mapError_ok, hm.size, History.reply, History.commit, holding_self hm]

theorem query_eq (hm : m.store.Holds h) (hr : m.needsResync = false) {command : Command}
    (hc : command.isReadOnly = true) : m.query command = .ok (h.reply command) := by
  rw [query, hc, hr]
  cases command with
  | claim c => cases hc
  | get key =>
    simp only [dispatch, hm.get]
    rfl
  | size =>
    simp only [dispatch, hm.size]
    rfl

def applyAll (m : Machine) : List Command → Except Fault (List Response × Machine)
  | [] => .ok ([], m)
  | command :: rest => do
    let (response, m) ← m.apply command
    let (responses, m) ← m.applyAll rest
    return (response :: responses, m)

end Machine

namespace History

def replies (h : History) : List Command → List Response
  | [] => []
  | command :: rest => reply h command :: replies (commit h command) rest

end History

namespace Machine

theorem applyAll_eq {m : Machine} {h : History} (hm : m.store.Holds h) (commands : List Command) :
    m.applyAll commands = .ok (h.replies commands, m.holding (h.commitAll commands)) := by
  induction commands generalizing m h with
  | nil => rw [applyAll, History.replies, History.commitAll, List.foldl_nil, holding_self hm]
  | cons command rest ih =>
    have hrest := ih (m := m.holding (h.commit command)) (h := h.commit command) rfl
    rw [applyAll, apply_eq hm, ok_bind]
    simp only [hrest, ok_bind, pure_eq_ok]
    rfl

end Machine

end Uniqueness
