import Uniqueness.Proofs.MachineSteps
import Mathlib.Data.List.Induction
import Mathlib.Algebra.GroupWithZero.Nat

/-!
The machine against its reference, which is a list: the claims accepted so far. A claim is accepted
when no input of it is an input of a claim accepted before, and whoever consumed a state is the one
claim of the list that has it among its inputs.
-/

namespace Uniqueness.Ledger

def Free (accepted : List Claim) (c : Claim) : Prop :=
  ∀ a ∈ accepted, ∀ r ∈ c.inputs, r ∉ a.inputs

instance (accepted : List Claim) (c : Claim) : Decidable (Free accepted c) :=
  inferInstanceAs (Decidable (∀ a ∈ accepted, ∀ r ∈ c.inputs, r ∉ a.inputs))

def accept (accepted : List Claim) : Command → List Claim
  | .claim c => if Free accepted c then accepted ++ [c] else accepted
  | _ => accepted

def acceptAll (accepted : List Claim) (commands : List Command) : List Claim :=
  commands.foldl accept accepted

def contents (accepted : List Claim) : History :=
  .ofList (accepted.flatMap Claim.entries)

def consumer? (accepted : List Claim) (r : StateRef) : Option Consumption :=
  (accepted.find? fun c => r ∈ c.inputs).map fun c => c.record r

def size (accepted : List Claim) : Nat :=
  (accepted.map fun c => c.inputs.dedup.length).sum

def answer (accepted : List Claim) : Command → Response
  | .claim c =>
    if Free accepted c then .committed
    else .conflict ⟨(contents accepted).filter fun r => r ∈ c.inputs⟩
  | .get r => .value (consumer? accepted r)
  | .size => .size (UInt64.ofNat (size accepted))

def answers (accepted : List Claim) : List Command → List Response
  | [] => []
  | command :: rest => answer accepted command :: answers (accept accepted command) rest

def Apart (accepted : List Claim) : Prop :=
  accepted.Pairwise fun a b => ∀ r ∈ b.inputs, r ∉ a.inputs

variable {accepted : List Claim}

theorem apart_accept (ha : Apart accepted) (command : Command) : Apart (accept accepted command) := by
  cases command with
  | claim c =>
    rw [accept]
    split
    case isTrue hf =>
      apply List.pairwise_append.mpr
      refine ⟨ha, List.pairwise_singleton _ _, ?_⟩
      intro a hm b hb
      rw [List.mem_singleton.mp hb]
      exact hf a hm
    case isFalse => exact ha
  | get r => exact ha
  | size => exact ha

theorem apart_acceptAll (ha : Apart accepted) (commands : List Command) :
    Apart (acceptAll accepted commands) := by
  induction commands generalizing accepted with
  | nil => exact ha
  | cons command rest ih => exact ih (apart_accept ha command)

theorem contents_concat (accepted : List Claim) (c : Claim) :
    contents (accepted ++ [c]) = (contents accepted).insertAll c.entries := by
  rw [contents, contents, List.flatMap_append, List.flatMap_singleton, SortedMap.ofList, SortedMap.insertAll,
    List.foldl_append]
  rfl

theorem get?_contents_concat (accepted : List Claim) (c : Claim) (r : StateRef) :
    (contents (accepted ++ [c])).get? r =
      if r ∈ c.inputs then some (c.record r) else (contents accepted).get? r := by
  rw [contents_concat, c.get?_insertAll_entries]

theorem get?_contents_eq_none_iff {r : StateRef} :
    (contents accepted).get? r = none ↔ ∀ c ∈ accepted, r ∉ c.inputs := by
  induction accepted using List.reverseRecOn with
  | nil => exact iff_of_true rfl nofun
  | append_singleton accepted c ih =>
    rw [get?_contents_concat, List.forall_mem_append, List.forall_mem_singleton]
    by_cases hr : r ∈ c.inputs
    · rw [if_pos hr]
      exact iff_of_false nofun fun h => h.2 hr
    · rw [if_neg hr, ih]
      exact ⟨fun h => ⟨h, hr⟩, fun h => h.1⟩

theorem vacant_iff_free {c : Claim} : History.Vacant (contents accepted) c ↔ Free accepted c := by
  simp only [History.Vacant, get?_contents_eq_none_iff, Free]
  exact ⟨fun h a ha r hr => h r hr a ha, fun h r hr a ha => h a ha r hr⟩

theorem get?_contents_eq_some_iff (ha : Apart accepted) {r : StateRef} {v : Consumption} :
    (contents accepted).get? r = some v ↔ ∃ c ∈ accepted, r ∈ c.inputs ∧ c.record r = v := by
  induction accepted using List.reverseRecOn with
  | nil => exact iff_of_false nofun nofun
  | append_singleton accepted c ih =>
    obtain ⟨ha, -, hc⟩ := List.pairwise_append.mp ha
    rw [get?_contents_concat]
    by_cases hr : r ∈ c.inputs
    · have hnone : ∀ a ∈ accepted, r ∉ a.inputs := fun a hm => hc a hm c List.mem_cons_self r hr
      simp only [if_pos hr, Option.some.injEq, List.mem_append, List.mem_singleton]
      constructor
      · intro hv
        exact ⟨c, .inr rfl, hr, hv⟩
      · rintro ⟨a, hm | rfl, hra, hv⟩
        · exact absurd hra (hnone a hm)
        · exact hv
    · rw [if_neg hr, ih ha]
      simp only [List.mem_append, List.mem_singleton]
      constructor
      · rintro ⟨a, hm, hra, hv⟩
        exact ⟨a, .inl hm, hra, hv⟩
      · rintro ⟨a, hm | rfl, hra, hv⟩
        · exact ⟨a, hm, hra, hv⟩
        · exact absurd hra hr

theorem get?_contents (ha : Apart accepted) (r : StateRef) :
    (contents accepted).get? r = consumer? accepted r := by
  induction accepted using List.reverseRecOn with
  | nil => rfl
  | append_singleton accepted c ih =>
    obtain ⟨ha, -, hc⟩ := List.pairwise_append.mp ha
    rw [get?_contents_concat, consumer?, List.find?_append, ih ha, consumer?]
    by_cases hr : r ∈ c.inputs
    · have hnone : accepted.find? (fun c => r ∈ c.inputs) = none := by
        rw [List.find?_eq_none]
        intro a hm hra
        exact hc a hm c List.mem_cons_self r hr (of_decide_eq_true hra)
      simp [hr, hnone]
    · simp [hr]

theorem contents_accept (accepted : List Claim) (command : Command) :
    contents (accept accepted command) = History.commit (contents accepted) command := by
  cases command with
  | claim c =>
    rw [accept, History.commit]
    by_cases hf : Free accepted c
    · rw [if_pos hf, if_pos (vacant_iff_free.mpr hf), contents_concat]
    · rw [if_neg hf, if_neg fun hv => hf (vacant_iff_free.mp hv)]
  | get r => rfl
  | size => rfl

theorem contents_acceptAll (accepted : List Claim) (commands : List Command) :
    contents (acceptAll accepted commands) = History.commitAll (contents accepted) commands := by
  induction commands generalizing accepted with
  | nil => rfl
  | cons command rest ih =>
    rw [acceptAll, List.foldl_cons, ← acceptAll, ih, contents_accept]
    rfl

theorem size_contents (ha : Apart accepted) : (contents accepted).size = size accepted := by
  induction accepted using List.reverseRecOn with
  | nil => rfl
  | append_singleton accepted c ih =>
    obtain ⟨ha, -, hc⟩ := List.pairwise_append.mp ha
    have hfree : ∀ e ∈ c.records.entries, (contents accepted).get? e.1 = none := by
      intro e he
      have hr := c.mem_keys_records.mp (List.mem_map_of_mem he)
      exact get?_contents_eq_none_iff.mpr fun a hm => hc a hm c List.mem_cons_self e.1 hr
    rw [contents_concat, ← c.insertAll_records, SortedMap.size_insertAll c.records.nodup_keys hfree, ih ha,
      ← SortedMap.size, c.size_records, size, size, List.map_append, List.sum_append, List.map_singleton,
      List.sum_singleton]

theorem reply_contents (ha : Apart accepted) (command : Command) :
    History.reply (contents accepted) command = answer accepted command := by
  cases command with
  | claim c =>
    rw [History.reply, answer]
    simp only [vacant_iff_free]
  | get r => rw [History.reply, answer, get?_contents ha]
  | size => rw [History.reply, answer, size_contents ha]

theorem replies_contents (ha : Apart accepted) (commands : List Command) :
    History.replies (contents accepted) commands = answers accepted commands := by
  induction commands generalizing accepted with
  | nil => rfl
  | cons command rest ih =>
    rw [History.replies, answers, reply_contents ha, ← contents_accept, ih (apart_accept ha command)]

theorem position_record {c : Claim} (hc : c.inputs.length ≤ UInt32.size) {r : StateRef} (hr : r ∈ c.inputs) :
    (c.record r).position.toNat = c.inputs.idxOf r := by
  have hi := List.idxOf_lt_length_of_mem hr
  exact UInt32.toNat_ofNat_of_lt' (Nat.lt_of_lt_of_le hi hc)

theorem applyAll_eq {m : Machine} (hm : m.store.Holds (contents accepted)) (ha : Apart accepted)
    (commands : List Command) : m.applyAll commands =
      .ok (answers accepted commands, m.holding (contents (acceptAll accepted commands))) := by
  rw [Machine.applyAll_eq hm, replies_contents ha, contents_acceptAll]

/-- Every run answers and leaves what the reference says, and no later run takes a record back. -/
theorem first_writer_wins (commands : List Command) :
    ∃ m, Machine.empty.applyAll commands = .ok (answers [] commands, m) ∧
      m.store.entries = .ok (contents (acceptAll [] commands)).entries ∧
      (∀ r, m.store.get r = .ok (consumer? (acceptAll [] commands) r)) ∧
      m.store.size = size (acceptAll [] commands) ∧
      Apart (acceptAll [] commands) ∧
      (∀ c ∈ acceptAll [] commands, c.inputs.length ≤ UInt32.size →
        ∀ r ∈ c.inputs, (c.record r).position.toNat = c.inputs.idxOf r) ∧
      ∀ later, ∃ m', m.applyAll later = .ok (answers (acceptAll [] commands) later, m') ∧
        ∀ r c, m.store.get r = .ok (some c) → m'.store.get r = .ok (some c) := by
  have ha := apart_acceptAll List.Pairwise.nil commands
  have hm : (Machine.empty.holding (contents (acceptAll [] commands))).store.Holds
      (contents (acceptAll [] commands)) := rfl
  refine ⟨_, applyAll_eq Store.holds_empty List.Pairwise.nil commands, hm.entries, ?_, ?_, ha, ?_, ?_⟩
  · intro r
    rw [hm.get, get?_contents ha]
  · rw [hm.size, size_contents ha]
  · intro c _ hc r hr
    exact position_record hc hr
  · intro later
    refine ⟨_, applyAll_eq hm ha later, ?_⟩
    intro r c hr
    have hl : ((Machine.empty.holding (contents (acceptAll [] commands))).holding
        (contents (acceptAll (acceptAll [] commands) later))).store.Holds _ := rfl
    rw [hm.get] at hr
    rw [hl.get, contents_acceptAll, History.get?_commitAll (Except.ok.inj hr)]

end Uniqueness.Ledger
