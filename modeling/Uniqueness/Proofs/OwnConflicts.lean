import Uniqueness.Proofs.FirstWriterWins

namespace Uniqueness

namespace History

theorem size_named (h : History) (c : Claim) : (h.filter fun r => r ∈ c.inputs).size =
    (c.inputs.dedup.filter fun r => (h.get? r).isSome).length := by
  have hperm : (h.filter fun r => r ∈ c.inputs).keys.Perm (c.inputs.dedup.filter fun r => (h.get? r).isSome) := by
    apply (List.perm_ext_iff_of_nodup (SortedMap.nodup_keys _) (c.inputs.nodup_dedup.filter _)).mpr
    intro r
    rw [SortedMap.mem_keys, SortedMap.get?_filter, List.mem_filter, List.mem_dedup]
    by_cases hr : r ∈ c.inputs
    · simp [hr]
    · simp [hr]
  rw [← hperm.length_eq, SortedMap.keys, List.length_map, SortedMap.size]

theorem size_named_eq_iff (h : History) (c : Claim) :
    (h.filter fun r => r ∈ c.inputs).size = c.inputs.dedup.length ↔ ∀ r ∈ c.inputs, (h.get? r).isSome = true := by
  rw [size_named, List.length_filter_eq_length_iff]
  simp only [List.mem_dedup]

theorem reply_claim_eq_conflict_iff {h : History} {c : Claim} {conflict : Conflict} :
    h.reply (.claim c) = .conflict conflict ↔ ¬Vacant h c ∧ conflict = ⟨h.filter fun r => r ∈ c.inputs⟩ := by
  rw [reply]
  split
  case isTrue hv => exact iff_of_false (fun he => Response.noConfusion he) fun hc => hc.1 hv
  case isFalse hv =>
    rw [Response.conflict.injEq]
    exact ⟨fun he => ⟨hv, he.symm⟩, fun hc => hc.2.symm⟩

end History

theorem Conflict.tx_of_onlyWith {conflict : Conflict} {tx : Digest} (ho : conflict.onlyWith tx = true) {r : StateRef}
    {v : Consumption} (hr : conflict.history.get? r = some v) : v.tx = tx := by
  rw [onlyWith, Bool.and_eq_true, List.all_eq_true] at ho
  exact of_decide_eq_true (ho.2 (r, v) (SortedMap.get?_eq_some_iff.mp hr))

namespace Ledger

def Accepted (commands : List Command) (responses : List Response) (a : Claim) : Prop :=
  ∃ i : Nat, commands[i]? = some (.claim a) ∧ responses[i]? = some .committed

theorem accepted_of_mem {accepted : List Claim} {commands : List Command} {a : Claim}
    (ha : a ∈ acceptAll accepted commands) : a ∈ accepted ∨ Accepted commands (answers accepted commands) a := by
  induction commands generalizing accepted with
  | nil => exact .inl ha
  | cons command rest ih =>
    rcases ih ha with hm | ⟨i, hi, hr⟩
    · -- it was accepted before, or is the first of these commands
      cases command with
      | claim c =>
        rw [accept] at hm
        split at hm
        case isFalse => exact .inl hm
        case isTrue hf =>
          rcases List.mem_append.mp hm with hm | hm
          · exact .inl hm
          · rw [List.mem_singleton.mp hm]
            refine .inr ⟨0, rfl, ?_⟩
            rw [answers, answer, if_pos hf]
            rfl
      | get r => exact .inl hm
      | size => exact .inl hm
    · exact .inr ⟨i + 1, hi, hr⟩

theorem exists_accepted {commands : List Command} {r : StateRef} {v : Consumption}
    (hget : (contents (acceptAll [] commands)).get? r = some v) :
    ∃ a, Accepted commands (answers [] commands) a ∧ r ∈ a.inputs ∧ a.record r = v ∧
      ∀ r' ∈ a.inputs, (contents (acceptAll [] commands)).get? r' = some (a.record r') := by
  have ha := apart_acceptAll List.Pairwise.nil commands
  obtain ⟨a, hmem, hra, rfl⟩ := (get?_contents_eq_some_iff ha).mp hget
  refine ⟨a, (accepted_of_mem hmem).resolve_left List.not_mem_nil, hra, rfl, fun r' hr' => ?_⟩
  exact (get?_contents_eq_some_iff ha).mpr ⟨a, hmem, hr', rfl⟩

end Ledger

namespace Machine

open Ledger (Accepted acceptAll answers contents exists_accepted)

/-- Whoever is refused on account of its own transaction finds the inputs that the conflict names consumed
by it, in claims that were committed, and the others free. So all its inputs are consumed by it exactly if
the conflict names them all, as it does when every claim of the transaction that got there first had them
all too. -/
theorem own_conflict_complete_iff (commands : List Command) (c : Claim) :
    ∃ responses m response m', empty.applyAll commands = .ok (responses, m) ∧
      m.apply (.claim c) = .ok (response, m') ∧
      ∀ conflict, response = .conflict conflict → conflict.onlyWith c.tx = true →
        (∀ r v, conflict.history.get? r = some v → r ∈ c.inputs ∧ v.tx = c.tx ∧ m'.store.get r = .ok (some v) ∧
          ∃ a, Accepted commands responses a ∧ a.tx = c.tx ∧ r ∈ a.inputs ∧ a.record r = v) ∧
        (∀ r ∈ c.inputs, conflict.history.get? r = none → m'.store.get r = .ok none) ∧
        ((∀ r ∈ c.inputs, ∃ v, m'.store.get r = .ok (some v) ∧ v.tx = c.tx) ↔
          conflict.history.size = c.inputs.dedup.length) ∧
        ((∀ a, Accepted commands responses a → a.tx = c.tx → (∃ r ∈ c.inputs, r ∈ a.inputs) →
          ∀ r ∈ c.inputs, r ∈ a.inputs) → conflict.history.size = c.inputs.dedup.length) := by
  have hm : (empty.holding (contents (acceptAll [] commands))).store.Holds (contents (acceptAll [] commands)) := rfl
  refine ⟨_, _, _, _, Ledger.applyAll_eq Store.holds_empty List.Pairwise.nil commands, apply_eq hm _, ?_⟩
  have haccepted := @exists_accepted commands
  generalize contents (acceptAll [] commands) = h at haccepted ⊢
  intro conflict hconflict honly
  obtain ⟨hv, rfl⟩ := History.reply_claim_eq_conflict_iff.mp hconflict
  have hm' : ((empty.holding h).holding (h.commit (.claim c))).store.Holds h := by
    rw [History.commit, if_neg hv]
    rfl
  have hnamed : ∀ r ∈ c.inputs, (h.filter fun r => r ∈ c.inputs).get? r = h.get? r := by
    intro r hr
    rw [SortedMap.get?_filter, if_pos (decide_eq_true hr)]
  have htx : ∀ r ∈ c.inputs, ∀ v, h.get? r = some v → v.tx = c.tx := fun r hr v hget =>
    Conflict.tx_of_onlyWith honly ((hnamed r hr).trans hget)
  refine ⟨?_, ?_, ?_, ?_⟩
  · intro r v hget
    have hr : r ∈ c.inputs := by
      by_contra hr
      simp [SortedMap.get?_filter, hr] at hget
    rw [hnamed r hr] at hget
    obtain ⟨a, hmem, hra, rfl, -⟩ := haccepted hget
    exact ⟨hr, htx r hr _ hget, by rw [hm'.get, hget], a, hmem, htx r hr _ hget, hra, rfl⟩
  · intro r hr hget
    rw [hnamed r hr] at hget
    rw [hm'.get, hget]
  · rw [History.size_named_eq_iff]
    apply forall₂_congr
    intro r hr
    rw [hm'.get, Option.isSome_iff_exists]
    constructor
    · rintro ⟨v, hget, -⟩
      exact ⟨v, Except.ok.inj hget⟩
    · rintro ⟨v, hget⟩
      exact ⟨v, congrArg _ hget, htx r hr v hget⟩
  · intro hall
    rw [History.size_named_eq_iff]
    -- one input has a record, and the claim that made it made one for every input
    rw [History.Vacant] at hv
    push Not at hv
    obtain ⟨r, hr, hsome⟩ := hv
    obtain ⟨v, hget⟩ := Option.ne_none_iff_exists'.mp hsome
    obtain ⟨a, hmem, hra, rfl, hrecords⟩ := haccepted hget
    intro r' hr'
    rw [hrecords r' (hall a hmem (htx r hr _ hget) ⟨r, hr, hra⟩ r' hr'), Option.isSome_some]

def part : Claim :=
  ⟨[⟨default, 0⟩], default, ⟨"a", ""⟩⟩

def whole : Claim :=
  { part with inputs := [⟨default, 0⟩, ⟨default, 1⟩] }

theorem own_conflict_leaves_input_free : ∃ m conflict m', empty.applyAll [.claim part] = .ok ([.committed], m) ∧
    m.apply (.claim whole) = .ok (.conflict conflict, m') ∧ conflict.onlyWith whole.tx = true ∧
    ⟨default, 1⟩ ∈ whole.inputs ∧ m'.store.get ⟨default, 1⟩ = .ok none := by
  have hrun := applyAll_eq (m := empty) Store.holds_empty [.claim part]
  have hreplies : History.replies .empty [.claim part] = [.committed] := by decide +kernel
  have hm : (empty.holding (History.commitAll .empty [.claim part])).store.Holds
      (History.commitAll .empty [.claim part]) := rfl
  have hreply : (History.commitAll .empty [.claim part]).reply (.claim whole) =
      .conflict ⟨.ofList [(⟨default, 0⟩, part.record ⟨default, 0⟩)]⟩ := by
    decide +kernel
  have hm' : ((empty.holding (History.commitAll .empty [.claim part])).holding
      ((History.commitAll .empty [.claim part]).commit (.claim whole))).store.Holds
      ((History.commitAll .empty [.claim part]).commit (.claim whole)) := rfl
  rw [hreplies] at hrun
  refine ⟨_, _, _, hrun, (apply_eq hm _).trans (by rw [hreply]), by decide +kernel, by decide, ?_⟩
  rw [hm'.get]
  decide +kernel

def rival : Claim :=
  ⟨[⟨default, 1⟩, ⟨default, 2⟩], ⟨List.replicate 32 1, rfl⟩, ⟨"b", ""⟩⟩

theorem repeated_claim_is_complete : ∃ responses m conflict m',
    empty.applyAll [.claim whole, .claim rival] = .ok (responses, m) ∧
    m.apply (.claim whole) = .ok (.conflict conflict, m') ∧ conflict.onlyWith whole.tx = true ∧
    conflict.history.size = 2 ∧ ∀ r ∈ whole.inputs, ∃ v, m'.store.get r = .ok (some v) ∧ v.tx = whole.tx := by
  obtain ⟨responses, m, response, m', hrun, happly, hall⟩ :=
    own_conflict_complete_iff [.claim whole, .claim rival] whole
  have hresponse : response = .conflict ⟨whole.records⟩ := by
    have hrun' := hrun
    rw [applyAll_eq (m := empty) Store.holds_empty, Except.ok.injEq, Prod.mk.injEq] at hrun'
    have hm : m.store.Holds (History.commitAll .empty [.claim whole, .claim rival]) := by
      rw [← hrun'.2]
      rfl
    rw [apply_eq hm, Except.ok.injEq, Prod.mk.injEq] at happly
    rw [← happly.1]
    decide +kernel
  have honly : Conflict.onlyWith ⟨whole.records⟩ whole.tx = true := by decide +kernel
  obtain ⟨-, -, hiff, hcomplete⟩ := hall _ hresponse honly
  have hsize : whole.records.size = whole.inputs.dedup.length := by
    apply hcomplete
    rintro a ⟨i, hi, -⟩ htx -
    match i with
    | 0 =>
      cases hi
      exact fun r hr => hr
    | 1 =>
      cases hi
      exact absurd htx (by decide)
  exact ⟨responses, m, _, m', hrun, hresponse ▸ happly, honly, by decide +kernel, hiff.mpr hsize⟩

end Machine

end Uniqueness
