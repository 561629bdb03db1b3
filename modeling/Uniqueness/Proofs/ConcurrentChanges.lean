import Uniqueness.Cluster.Change
import Uniqueness.Proofs.SortedMaps
import Mathlib.Logic.Function.Basic

/-!
Requests to change the membership that are handled side by side. Each looks up the voters and replaces them
later, and whatever was written in between is replaced as well.
-/

namespace Uniqueness

namespace Cluster

open Log (Membership Voters)

namespace Change

def node : Change → UInt64
  | .add node _ => node
  | .remove node => node

def effect : Change → Voters → Voters
  | .add node _, voters => voters.insert node
  | .remove node, voters => voters.erase node

end Change

def Handling.goal? : Handling → Option Voters
  | .planned goal => some goal
  | _ => none

def Consensus.voters {σ : Type} (g : Consensus σ) (s : σ) : Voters :=
  (g.view s).membership.voters

/-- Voters are replaced as a whole, by just those that are asked for, or not at all. -/
structure Atomic {σ : Type} (g : Consensus σ) : Prop where
  learner : ∀ node address s, g.voters (g.addLearner node address s).2 = g.voters s
  applied : ∀ goal s, (g.changeVoters goal s).1 = .applied () → g.voters (g.changeVoters goal s).2 = goal
  failed : ∀ goal s fault, (g.changeVoters goal s).1 = .failed fault → g.voters (g.changeVoters goal s).2 = g.voters s

structure Crowd (σ ι : Type) where
  handlings : ι → Handling
  state : σ

namespace Crowd

variable {σ ι : Type}

def start (changes : ι → Change) (s : σ) : Crowd σ ι :=
  ⟨fun i => .received (changes i), s⟩

section Steps

variable [DecidableEq ι]

def step (g : Consensus σ) (c : Crowd σ ι) (i : ι) : Crowd σ ι :=
  let (h, s) := (c.handlings i).step g c.state
  ⟨Function.update c.handlings i h, s⟩

def run (g : Consensus σ) (c : Crowd σ ι) (turns : List ι) : Crowd σ ι :=
  turns.foldl (step g) c

end Steps

def Kept (changes : ι → Change) (before voters : Voters) (handlings : ι → Handling) : Prop :=
  ∀ node, voters.contains node = true ↔
    (∃ i address, changes i = .add node address ∧ handlings i = .finished .done) ∨
      before.contains node = true ∧ ¬∃ i, changes i = .remove node ∧ handlings i = .finished .done

def UpToDate (g : Consensus σ) (changes : ι → Change) (c : Crowd σ ι) (i : ι) : Prop :=
  ∀ goal ∈ (c.handlings i).goal?, (g.changeVoters goal c.state).1 = .applied () →
    goal = (changes i).effect (g.voters c.state)

instance (g : Consensus σ) (changes : ι → Change) (c : Crowd σ ι) (i : ι) : Decidable (UpToDate g changes c i) :=
  inferInstanceAs (Decidable (∀ goal ∈ (c.handlings i).goal?, _))

section Kept

variable {changes : ι → Change} {before voters voters' : Voters} {handlings handlings' : ι → Handling}

theorem kept_start (voters : Voters) : Kept changes voters voters fun i => .received (changes i) := by
  intro node
  constructor
  · exact fun h => .inr ⟨h, nofun⟩
  · rintro (⟨i, address, -, hdone⟩ | ⟨h, -⟩)
    · cases hdone
    · exact h

theorem kept_congr (hdone : ∀ i, handlings' i = .finished .done ↔ handlings i = .finished .done) :
    Kept changes before voters handlings' ↔ Kept changes before voters handlings := by
  simp only [Kept, hdone]

theorem Kept.voters_eq (h : Kept changes before voters handlings) (h' : Kept changes before voters' handlings) :
    voters = voters' :=
  SortedSet.ext_contains fun node => (h node).trans (h' node).symm

theorem Kept.effect [DecidableEq ι] (hdistinct : Function.Injective fun i => (changes i).node)
    (h : Kept changes before voters handlings) (i : ι) :
    Kept changes before ((changes i).effect voters) (Function.update handlings i (.finished .done)) := by
  have hupdate : ∀ j, Function.update handlings i (.finished .done) j = .finished .done ↔
      j = i ∨ handlings j = .finished .done := by
    intro j
    by_cases hj : j = i
    · simp [hj]
    · simp [hj]
  intro node
  -- of the changes that are done, only that of request `i` is new
  simp only [hupdate]
  cases hchange : changes i with
  | add m address =>
    have hadded : (∃ j a, changes j = .add node a ∧ (j = i ∨ handlings j = .finished .done)) ↔
        node = m ∨ ∃ j a, changes j = .add node a ∧ handlings j = .finished .done := by
      grind
    have hremoved : (∃ j, changes j = .remove node ∧ (j = i ∨ handlings j = .finished .done)) ↔
        ∃ j, changes j = .remove node ∧ handlings j = .finished .done := by
      grind
    rw [Change.effect, SortedSet.contains_insert, h node, hadded, hremoved, or_assoc]
  | remove m =>
    have hadded : (∃ j a, changes j = .add node a ∧ (j = i ∨ handlings j = .finished .done)) ↔
        node ≠ m ∧ ∃ j a, changes j = .add node a ∧ handlings j = .finished .done := by
      -- no other request is for this node
      have hother : ∀ j a, changes j ≠ .add m a := by
        intro j a hj
        have hi : j = i := hdistinct (by simp only [hj, hchange, Change.node])
        rw [hi, hchange] at hj
        cases hj
      grind
    have hremoved : (∃ j, changes j = .remove node ∧ (j = i ∨ handlings j = .finished .done)) ↔
        node = m ∨ ∃ j, changes j = .remove node ∧ handlings j = .finished .done := by
      grind
    rw [Change.effect, SortedSet.contains_erase, h node, hadded, hremoved, not_or, and_or_left, and_left_comm]

end Kept

variable [DecidableEq ι] {g : Consensus σ} {changes : ι → Change} {before : Voters} {c : Crowd σ ι} {i : ι}

theorem handlings_step (g : Consensus σ) (c : Crowd σ ι) (i : ι) : (c.step g i).handlings =
    Function.update c.handlings i ((c.handlings i).step g c.state).1 :=
  rfl

theorem state_step (g : Consensus σ) (c : Crowd σ ι) (i : ι) :
    (c.step g i).state = ((c.handlings i).step g c.state).2 :=
  rfl

theorem after_ne_done {h : Handling} (hh : h ≠ .finished .done) (failure : String) (written : Written Unit) :
    Handling.after failure h written ≠ .finished .done := by
  cases written with
  | applied => exact hh
  | waiting => nofun
  | failed fault => nofun

theorem step_of_goal?_eq_none (hg : Atomic g) {h : Handling} (hh : h.goal? = none) (s : σ) :
    g.voters (h.step g s).2 = g.voters s ∧ ((h.step g s).1 = .finished .done ↔ h = .finished .done) := by
  cases h with
  | received change =>
    cases change with
    | add node address =>
      have hnot := after_ne_done (h := .joined node) nofun
      exact ⟨hg.learner node address s, iff_of_false (hnot _ _) nofun⟩
    | remove node =>
      rw [Handling.step]
      split
      · exact ⟨rfl, iff_of_false nofun nofun⟩
      · exact ⟨rfl, iff_of_false nofun nofun⟩
  | joined node => exact ⟨rfl, iff_of_false nofun nofun⟩
  | planned goal => cases hh
  | finished reply => exact ⟨rfl, Iff.rfl⟩
  | waiting => exact ⟨rfl, Iff.rfl⟩

theorem kept_step_of_same (hc : Kept changes before (g.voters c.state) c.handlings)
    (hvoters : g.voters ((c.handlings i).step g c.state).2 = g.voters c.state)
    (hdone : ((c.handlings i).step g c.state).1 = .finished .done ↔ c.handlings i = .finished .done) :
    Kept changes before (g.voters (c.step g i).state) (c.step g i).handlings := by
  rw [state_step, hvoters, handlings_step]
  refine (kept_congr fun j => ?_).mpr hc
  by_cases hj : j = i
  · rw [hj, Function.update_self, hdone]
  · rw [Function.update_of_ne hj]

theorem kept_step_iff (hg : Atomic g) (hdistinct : Function.Injective fun i => (changes i).node)
    (hc : Kept changes before (g.voters c.state) c.handlings) (hwaiting : (c.step g i).handlings i ≠ .waiting) :
    Kept changes before (g.voters (c.step g i).state) (c.step g i).handlings ↔ UpToDate g changes c i := by
  cases hi : c.handlings i with
  | planned goal =>
    -- the one step that can change the voters, and that makes a request done
    rw [handlings_step, Function.update_self, hi, Handling.step] at hwaiting
    have hupToDate : UpToDate g changes c i ↔
        ((g.changeVoters goal c.state).1 = .applied () → goal = (changes i).effect (g.voters c.state)) := by
      rw [UpToDate, hi]
      exact ⟨fun h => h goal rfl, fun h goal' hgoal => Option.some.inj hgoal ▸ h⟩
    rw [hupToDate]
    cases hwritten : (g.changeVoters goal c.state).1 with
    | applied =>
      have hdone : (c.step g i).handlings = Function.update c.handlings i (.finished .done) := by
        rw [handlings_step, hi, Handling.step]
        simp only [hwritten, Handling.after]
      have hgoal : g.voters (c.step g i).state = goal := by
        rw [state_step, hi, Handling.step]
        exact hg.applied goal c.state hwritten
      have heffect := hc.effect hdistinct i
      rw [hdone, hgoal]
      constructor
      · exact fun h _ => h.voters_eq heffect
      · intro h
        rw [h rfl]
        exact heffect
    | waiting =>
      simp only [hwritten, Handling.after] at hwaiting
      exact absurd rfl hwaiting
    | failed fault =>
      refine iff_of_true (kept_step_of_same hc ?_ ?_) nofun
      · rw [hi, Handling.step]
        exact hg.failed goal c.state fault hwritten
      · rw [hi, Handling.step]
        simp only [hwritten, Handling.after]
        exact iff_of_false nofun nofun
  | _ =>
    have hnone : (c.handlings i).goal? = none := by rw [hi]; rfl
    obtain ⟨hvoters, hdone⟩ := step_of_goal?_eq_none hg hnone c.state
    refine iff_of_true (kept_step_of_same hc hvoters hdone) fun goal hgoal => ?_
    rw [hnone] at hgoal
    cases hgoal

theorem run_append (g : Consensus σ) (c : Crowd σ ι) (turns rest : List ι) :
    c.run g (turns ++ rest) = (c.run g turns).run g rest :=
  List.foldl_append

theorem waiting_run (g : Consensus σ) (turns : List ι) (h : c.handlings i = .waiting) :
    (c.run g turns).handlings i = .waiting := by
  induction turns generalizing c with
  | nil => exact h
  | cons j turns ih =>
    apply ih
    rw [handlings_step]
    by_cases hij : i = j
    · rw [hij, Function.update_self, ← hij, h]
      rfl
    · rw [Function.update_of_ne hij, h]

def reached (g : Consensus σ) (changes : ι → Change) (s : σ) (turns : List ι) : Crowd σ ι :=
  (start changes s).run g turns

theorem reached_take_succ (s : σ) {turns : List ι} {k : Nat} (hk : k < turns.length) :
    reached g changes s (turns.take (k + 1)) = (reached g changes s (turns.take k)).step g turns[k] := by
  rw [reached, List.take_succ_eq_append_getElem hk, run_append]
  rfl

/-- No change is lost, whatever the turns, exactly if each replacement of the voters is made for the handled
node only: by a set that was planned from voters which are still there. -/
theorem changes_kept_iff (hg : Atomic g) (hdistinct : Function.Injective fun i => (changes i).node) (s : σ)
    {turns : List ι} (hwaiting : ∀ i, (reached g changes s turns).handlings i ≠ .waiting) :
    (∀ k, Kept changes (g.voters s) (g.voters (reached g changes s (turns.take k)).state)
      (reached g changes s (turns.take k)).handlings) ↔
    ∀ k (hk : k < turns.length), UpToDate g changes (reached g changes s (turns.take k)) turns[k] := by
  -- a request that waits is still waiting at the end
  have hnever : ∀ k i, (reached g changes s (turns.take k)).handlings i ≠ .waiting := by
    intro k i h
    apply hwaiting i
    have hall := waiting_run g (turns.drop k) h
    rwa [reached, ← run_append, List.take_append_drop] at hall
  constructor
  · intro hkept k hk
    have hwait := hnever (k + 1) turns[k]
    have hnext := hkept (k + 1)
    rw [reached_take_succ s hk] at hwait hnext
    exact (kept_step_iff hg hdistinct (hkept k) hwait).mp hnext
  · intro hupToDate k
    induction k with
    | zero => exact kept_start _
    | succ k ih =>
      by_cases hk : k < turns.length
      · have hwait := hnever (k + 1) turns[k]
        rw [reached_take_succ s hk] at hwait ⊢
        exact (kept_step_iff hg hdistinct ih hwait).mpr (hupToDate k hk)
      · rw [List.take_of_length_le (Nat.le_of_not_lt hk)] at ih
        rwa [List.take_of_length_le (Nat.le_succ_of_le (Nat.le_of_not_lt hk))]

end Crowd

def united : Consensus (List Membership) where
  write _ log := (.applied .noop, log)
  query _ _ := .ok .noop
  addLearner node address log := (.applied (), (log.headD .empty).addLearner node address :: log)
  changeVoters goal log :=
    let first := (log.headD .empty).toward goal
    match WriteFault.ofMembership? first with
    | some fault => (.failed fault, log)
    | none => (.applied (), if first.configs.length ≤ 1 then first :: log else first.toward goal :: first :: log)
  view log := ⟨.leader, some 1, 1, none, none, none, log.headD .empty⟩

theorem voters_of_configs {m : Membership} {goal : Voters} (h : m.configs = [goal]) : m.voters = goal := by
  rw [Membership.voters, h, List.flatMap_singleton, SortedMap.ofList_keys]

theorem configs_toward {m : Membership} {goal : Voters} (h : goal ∈ m.configs) : (m.toward goal).configs = [goal] :=
  if_pos h

theorem mem_configs_toward (m : Membership) (goal : Voters) : goal ∈ (m.toward goal).configs := by
  change goal ∈ if _ then _ else _
  split
  · exact List.mem_singleton_self goal
  · exact List.mem_append_right _ (List.mem_singleton_self goal)

theorem atomic_united : Atomic united where
  learner node address log := by
    change ((log.headD .empty).addLearner node address).voters = (log.headD .empty).voters
    rw [Membership.addLearner]
    split
    · rfl
    · rfl
  applied goal log h := by
    have hmem := mem_configs_toward (log.headD .empty) goal
    change ((united.changeVoters goal log).2.headD .empty).voters = goal
    rw [united] at h ⊢
    simp only at h ⊢
    split at h
    case h_1 => cases h
    case h_2 =>
      apply voters_of_configs
      simp only
      split
      case isTrue hone =>
        obtain ⟨voters, hvoters⟩ := List.length_eq_one_iff.mp (Nat.le_antisymm hone (List.length_pos_of_mem hmem))
        rw [hvoters] at hmem
        rw [List.headD_cons, hvoters, List.mem_singleton.mp hmem]
      case isFalse => exact configs_toward hmem
  failed goal log fault h := by
    change ((united.changeVoters goal log).2.headD .empty).voters = (log.headD .empty).voters
    rw [united] at h ⊢
    simp only at h ⊢
    split at h
    case h_1 => rfl
    case h_2 => cases h

def additions : Fin 2 → Change
  | 0 => .add 2 "b"
  | 1 => .add 3 "c"

def alone : List Membership :=
  [.of [.ofList [1]] (.ofList [(1, "a")])]

theorem additions_distinct : Function.Injective fun i => (additions i).node := by
  unfold Function.Injective
  decide

def sideBySide : Crowd (List Membership) (Fin 2) :=
  .reached united additions alone [0, 1, 0, 1, 0, 1]

theorem concurrent_addition_is_lost : Atomic united ∧ (Function.Injective fun i => (additions i).node) ∧
    (∀ i, sideBySide.handlings i = .finished .done) ∧
    sideBySide.state.map (·.configs) = [[.ofList [1, 3]], [.ofList [1, 2], .ofList [1, 3]], [.ofList [1, 2]],
      [.ofList [1], .ofList [1, 2]], [.ofList [1]], [.ofList [1]], [.ofList [1]]] ∧
    (united.voters sideBySide.state).contains 2 = false ∧
    ¬Crowd.Kept additions (united.voters alone) (united.voters sideBySide.state) sideBySide.handlings := by
  have hdone : ∀ i, sideBySide.handlings i = .finished .done := by decide
  have hlost : (united.voters sideBySide.state).contains 2 = false := by decide
  refine ⟨atomic_united, additions_distinct, hdone, by decide, hlost, fun hkept => ?_⟩
  rw [(hkept 2).mpr (.inl ⟨0, "b", rfl, hdone 0⟩)] at hlost
  cases hlost

theorem later_addition_keeps_both : ∃ c : Crowd (List Membership) (Fin 2),
    c = .reached united additions alone [0, 1, 0, 0, 1, 1] ∧ (∀ i, c.handlings i = .finished .done) ∧
    united.voters c.state = .ofList [1, 2, 3] ∧
    Crowd.Kept additions (united.voters alone) (united.voters c.state) c.handlings := by
  have hdone : ∀ i, (Crowd.reached united additions alone [0, 1, 0, 0, 1, 1]).handlings i = .finished .done := by
    decide
  have hnot : ∀ i, (Crowd.reached united additions alone [0, 1, 0, 0, 1, 1]).handlings i ≠ .waiting := by
    intro i h
    rw [hdone i] at h
    cases h
  have hupToDate : ∀ k (hk : k < 6), Crowd.UpToDate united additions
      (Crowd.reached united additions alone ([0, 1, 0, 0, 1, 1].take k)) [0, 1, 0, 0, 1, 1][k] := by
    decide
  have hkept := (Crowd.changes_kept_iff atomic_united additions_distinct alone hnot).mpr hupToDate
  exact ⟨_, rfl, hdone, by decide, hkept 6⟩

end Cluster

end Uniqueness
