import Uniqueness.Replica
import Uniqueness.Proofs.MachineSteps
import Mathlib.Data.List.Induction

namespace Uniqueness

namespace History

def after (h : History) (e : Log.Entry) : History :=
  match e.payload with
  | .command c => h.commit c
  | _ => h

def afterAll (h : History) (es : List Log.Entry) : History :=
  es.foldl after h

variable {h : History}

theorem afterAll_append (h : History) (es fs : List Log.Entry) :
    h.afterAll (es ++ fs) = (h.afterAll es).afterAll fs :=
  List.foldl_append

theorem get?_after {r : StateRef} {v : Consumption} (hr : h.get? r = some v) (e : Log.Entry) :
    (h.after e).get? r = some v := by
  rw [after]
  split
  · exact get?_commit hr _
  · exact hr

theorem get?_afterAll {r : StateRef} {v : Consumption} (hr : h.get? r = some v) (es : List Log.Entry) :
    (h.afterAll es).get? r = some v := by
  induction es generalizing h with
  | nil => exact hr
  | cons e es ih => exact ih (get?_after hr e)

def Settled (h : History) (e : Log.Entry) : Prop :=
  ∀ c, e.payload = .command (.claim c) → c.inputs = [] ∨ ∃ r ∈ c.inputs, (h.get? r).isSome = true

theorem after_of_settled {e : Log.Entry} (he : Settled h e) : h.after e = h := by
  rw [after]
  split
  case h_2 => rfl
  case h_1 command hc =>
    cases command with
    | get r => rfl
    | size => rfl
    | claim c =>
      rw [commit]
      split
      case isFalse => rfl
      case isTrue hv =>
        rcases he c hc with hnil | ⟨r, hr, hs⟩
        · rw [Claim.entries, hnil]
          rfl
        · rw [hv r hr] at hs
          cases hs

theorem settled_after (h : History) (e : Log.Entry) : Settled (h.after e) e := by
  intro c hc
  rw [after, hc]
  change c.inputs = [] ∨ ∃ r ∈ c.inputs, ((h.commit (.claim c)).get? r).isSome = true
  rw [commit]
  split
  case isTrue =>
    cases hi : c.inputs with
    | nil => exact .inl rfl
    | cons r rest =>
      have hr : r ∈ c.inputs := hi ▸ List.mem_cons_self
      refine .inr ⟨r, List.mem_cons_self, ?_⟩
      rw [c.get?_insertAll_entries, if_pos hr]
      rfl
  case isFalse hv =>
    rw [Vacant] at hv
    push Not at hv
    obtain ⟨r, hr, hn⟩ := hv
    exact .inr ⟨r, hr, Option.isSome_iff_ne_none.mpr hn⟩

theorem Settled.afterAll {e : Log.Entry} (he : Settled h e) (es : List Log.Entry) :
    Settled (h.afterAll es) e := by
  intro c hc
  rcases he c hc with hnil | ⟨r, hr, hs⟩
  · exact .inl hnil
  · obtain ⟨v, hv⟩ := Option.isSome_iff_exists.mp hs
    exact .inr ⟨r, hr, by rw [get?_afterAll hv, Option.isSome_some]⟩

theorem settled_of_mem {es : List Log.Entry} {e : Log.Entry} (he : e ∈ es) (h : History) :
    Settled (h.afterAll es) e := by
  obtain ⟨front, back, rfl⟩ := List.append_of_mem he
  rw [afterAll_append]
  exact (settled_after (h.afterAll front) e).afterAll back

theorem afterAll_replay {es : List Log.Entry} {fs : List Log.Entry} (hf : ∀ f ∈ fs, f ∈ es) (h : History) :
    (h.afterAll es).afterAll fs = h.afterAll es := by
  induction fs with
  | nil => rfl
  | cons f fs ih =>
    have hs := settled_of_mem (hf f List.mem_cons_self) h
    rw [afterAll, List.foldl_cons, after_of_settled hs]
    exact ih fun g hg => hf g (List.mem_cons_of_mem _ hg)

end History

namespace Applied

def advance (a : Applied) (e : Log.Entry) : Applied :=
  match e.payload with
  | .membership m => ⟨some e.id, some e.id, m⟩
  | _ => { a with last := some e.id }

def advanceAll (a : Applied) (es : List Log.Entry) : Applied :=
  es.foldl advance a

theorem advanceAll_append (a : Applied) (es fs : List Log.Entry) :
    a.advanceAll (es ++ fs) = (a.advanceAll es).advanceAll fs :=
  List.foldl_append

theorem last_advance (a : Applied) (e : Log.Entry) : (a.advance e).last = some e.id := by
  rw [advance]
  split
  · rfl
  · rfl

theorem last_advanceAll (a : Applied) (es : List Log.Entry) :
    (a.advanceAll es).last = (es.getLast?.map (·.id)).or a.last := by
  induction es using List.reverseRecOn with
  | nil => rfl
  | append_singleton es e =>
    rw [advanceAll_append, List.getLast?_concat]
    exact last_advance _ e

end Applied

namespace Log

structure Committed where
  entries : List Entry
  increasing : entries.Pairwise fun a b => a.id.index < b.id.index

namespace Committed

variable (log : Committed)

def records (n : Nat) : History :=
  History.afterAll .empty (log.entries.take n)

def position (n : Nat) : Applied :=
  Applied.start.advanceAll (log.entries.take n)

def pending (last : Option Id) : List Entry :=
  log.entries.filter fun e => last.all (·.index < e.id.index)

theorem index_le_of_getLast? {es : List Entry} (hes : es.Pairwise fun a b => a.id.index < b.id.index)
    {e f : Entry} (he : es.getLast? = some e) (hf : f ∈ es) : f.id.index ≤ e.id.index := by
  obtain ⟨front, rfl⟩ := List.getLast?_eq_some_iff.mp he
  rcases List.mem_append.mp hf with hf | hf
  · exact Std.le_of_lt ((List.pairwise_append.mp hes).2.2 f hf e List.mem_cons_self)
  · rw [List.mem_singleton.mp hf]
    exact Std.le_refl _

theorem all_position (n : Nat) :
    (∀ e ∈ log.entries.take n, (log.position n).last.all (·.index < e.id.index) = false) ∧
    ∀ e ∈ log.entries.drop n, (log.position n).last.all (·.index < e.id.index) = true := by
  have hinc := log.increasing
  rw [← List.take_append_drop n log.entries, List.pairwise_append] at hinc
  rw [position, Applied.last_advanceAll]
  cases hl : (log.entries.take n).getLast? with
  | none =>
    refine ⟨?_, fun _ _ => rfl⟩
    intro e he
    rw [List.getLast?_eq_none_iff.mp hl] at he
    cases he
  | some e =>
    constructor
    · intro f hf
      exact decide_eq_false (Std.not_lt_of_ge (index_le_of_getLast? hinc.1 hl hf))
    · intro f hf
      exact decide_eq_true (hinc.2.2 e (List.mem_of_getLast? hl) f hf)

theorem pending_position (n : Nat) : log.pending (log.position n).last = log.entries.drop n := by
  obtain ⟨hbefore, hafter⟩ := log.all_position n
  have hnone : (log.entries.take n).filter (fun e => (log.position n).last.all (·.index < e.id.index)) = [] := by
    rw [List.filter_eq_nil_iff]
    intro e he
    simp [hbefore e he]
  rw [pending]
  conv_lhs => rw [← List.take_append_drop n log.entries]
  rw [List.filter_append, hnone, List.nil_append, List.filter_eq_self.mpr hafter]

theorem le_of_last_le {m n : Nat} (hm : m ≤ log.entries.length)
    (h : ∀ id ∈ (log.position m).last, ∃ id' ∈ (log.position n).last, id.index ≤ id'.index) : m ≤ n := by
  by_contra hlt
  obtain ⟨k, rfl⟩ : ∃ k, m = n + (k + 1) := ⟨m - n - 1, by omega⟩
  have hne : (log.entries.drop n).take (k + 1) ≠ [] := by
    rw [← List.length_pos_iff_ne_nil, List.length_take, List.length_drop]
    omega
  obtain ⟨e, he⟩ := Option.ne_none_iff_exists'.mp (mt List.getLast?_eq_none_iff.mp hne)
  have hlast : (log.position (n + (k + 1))).last = some e.id := by
    rw [position, Applied.last_advanceAll, List.take_add, List.getLast?_append, he]
    rfl
  have hmem : e ∈ log.pending (log.position n).last := by
    rw [pending_position]
    exact List.mem_of_mem_take (List.mem_of_getLast? he)
  obtain ⟨id', hid', hle⟩ := h e.id hlast
  rw [pending, List.mem_filter, hid', Option.all_some, decide_eq_true_eq] at hmem
  exact absurd hmem.2 (Std.not_lt_of_ge hle)

theorem take_min (n : Nat) : log.entries.take (min n log.entries.length) = log.entries.take n := by
  rw [← List.take_take, List.take_length]

theorem position_add (a n : Nat) :
    (log.position a).advanceAll ((log.entries.drop a).take n) = log.position (a + n) := by
  rw [position, position, List.take_add, Applied.advanceAll_append]

theorem records_redelivered {a p : Nat} (ha : a ≤ p) (n : Nat) :
    (log.records p).afterAll ((log.entries.drop a).take n) = log.records (max p (a + n)) := by
  have hmem : ∀ k, k ≤ p - a → ∀ e ∈ (log.entries.drop a).take k, e ∈ log.entries.take p := by
    intro k hk e he
    have hp : p = a + (p - a) := by omega
    rw [hp, List.take_add]
    exact List.mem_append_right _ (List.take_subset_take_left _ hk he)
  by_cases hn : a + n ≤ p
  · rw [Nat.max_eq_left hn, records, History.afterAll_replay (hmem n (by omega))]
  · -- those before `p` are there already, and the rest are new
    obtain ⟨k, rfl⟩ : ∃ k, n = (p - a) + k := ⟨a + n - p, by omega⟩
    have hdrop : a + (p - a) = p := by omega
    have hall : a + ((p - a) + k) = p + k := by omega
    rw [Nat.max_eq_right (by omega), List.take_add, List.drop_drop, hdrop, History.afterAll_append, hall,
      records, History.afterAll_replay (hmem _ (Nat.le_refl _)), records, List.take_add,
      History.afterAll_append]

theorem get?_records_le {m n : Nat} (h : m ≤ n) {r : StateRef} {v : Consumption}
    (hr : (log.records m).get? r = some v) : (log.records n).get? r = some v := by
  obtain ⟨k, rfl⟩ := Nat.exists_eq_add_of_le h
  rw [records, List.take_add, History.afterAll_append]
  exact History.get?_afterAll hr _

theorem records_agree {m n : Nat} {r : StateRef} {v w : Consumption}
    (hv : (log.records m).get? r = some v) (hw : (log.records n).get? r = some w) : v = w := by
  rcases Nat.le_total m n with h | h
  · rw [log.get?_records_le h hv] at hw
    exact Option.some.inj hw
  · rw [log.get?_records_le h hw] at hv
    exact (Option.some.inj hv).symm

end Committed

end Log

end Uniqueness
