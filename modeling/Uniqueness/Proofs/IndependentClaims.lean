import Uniqueness.Proofs.RepeatedClaims
import Mathlib.Data.List.Pairwise

namespace Uniqueness

def Command.names : Command → List StateRef
  | .claim c => c.inputs
  | .get r => [r]
  | .size => []

namespace History

open Ledger (Apart)

variable {h h' : History} {a b c : Claim}

theorem get?_commit_claim (h : History) (c : Claim) (r : StateRef) :
    (h.commit (.claim c)).get? r = if r ∈ c.inputs ∧ Vacant h c then some (c.record r) else h.get? r := by
  rw [commit]
  by_cases hv : Vacant h c
  · rw [if_pos hv, c.get?_insertAll_entries]
    simp only [hv, and_true]
  · rw [if_neg hv, if_neg fun hr => hv hr.2]

theorem get?_commit_of_not_mem {r : StateRef} (hr : r ∉ c.inputs) : (h.commit (.claim c)).get? r = h.get? r := by
  rw [get?_commit_claim, if_neg fun hc => hr hc.1]

theorem vacant_congr (hc : ∀ r ∈ c.inputs, h.get? r = h'.get? r) : Vacant h c ↔ Vacant h' c := by
  apply forall₂_congr
  intro r hr
  rw [hc r hr]

theorem reply_congr {command : Command} (hs : command ≠ .size)
    (hc : ∀ r ∈ command.names, h.get? r = h'.get? r) : h.reply command = h'.reply command := by
  cases command with
  | claim c =>
    have hfilter : (h.filter fun r => r ∈ c.inputs) = h'.filter fun r => r ∈ c.inputs := by
      apply SortedMap.ext_get?
      intro r
      rw [SortedMap.get?_filter, SortedMap.get?_filter]
      by_cases hr : r ∈ c.inputs
      · rw [hc r hr]
      · simp only [hr, decide_false, Bool.false_eq_true, if_false]
    simp only [reply, hfilter, vacant_congr hc]
  | get r => rw [reply, reply, hc r List.mem_cons_self]
  | size => exact absurd rfl hs

theorem vacant_commit (ha : ∀ r ∈ b.inputs, r ∉ a.inputs) : Vacant (h.commit (.claim a)) b ↔ Vacant h b :=
  vacant_congr fun r hr => get?_commit_of_not_mem (ha r hr)

theorem commit_comm (h : History) (ha : ∀ r ∈ b.inputs, r ∉ a.inputs) :
    (h.commit (.claim a)).commit (.claim b) = (h.commit (.claim b)).commit (.claim a) := by
  have hb : ∀ r ∈ a.inputs, r ∉ b.inputs := fun r hr hm => ha r hm hr
  apply SortedMap.ext_get?
  intro r
  by_cases hr : r ∈ b.inputs
  · rw [get?_commit_of_not_mem (ha r hr), get?_commit_claim _ b, get?_commit_claim _ b,
      get?_commit_of_not_mem (ha r hr)]
    simp only [vacant_commit ha]
  · rw [get?_commit_of_not_mem hr, get?_commit_claim _ a, get?_commit_claim _ a, get?_commit_of_not_mem hr]
    simp only [vacant_commit hb]

theorem commitAll_perm {claims claims' : List Claim} (hp : claims'.Perm claims) (ha : Apart claims) (h : History) :
    h.commitAll (claims'.map .claim) = h.commitAll (claims.map .claim) := by
  rw [commitAll, commitAll, List.foldl_map, List.foldl_map]
  refine (hp.symm.foldl_eq' ?_ h).symm
  -- of two claims of the list, either both are the same or they have no input in common
  intro a hma b hmb h
  by_cases hab : a = b
  · rw [hab]
  · have : Std.Symm fun a b : Claim => ∀ r ∈ b.inputs, r ∉ a.inputs := ⟨fun _ _ hd r hr hm => hd r hm hr⟩
    exact commit_comm h (ha.forall hma hmb hab)

theorem replies_apart {claims : List Claim} (ha : Apart claims) (h : History) :
    h.replies (claims.map .claim) = claims.map fun c => h.reply (.claim c) := by
  induction claims generalizing h with
  | nil => rfl
  | cons a claims ih =>
    obtain ⟨hhead, htail⟩ := List.pairwise_cons.mp ha
    have hsame : ∀ b ∈ claims, (h.commit (.claim a)).reply (.claim b) = h.reply (.claim b) := by
      intro b hb
      apply reply_congr Command.noConfusion
      intro r hr
      exact get?_commit_of_not_mem (hhead b hb r hr)
    rw [List.map_cons, replies, ih htail, List.map_cons, List.map_congr_left hsame]

theorem apart_of_perm {claims claims' : List Claim} (hp : claims'.Perm claims) (ha : Apart claims) : Apart claims' :=
  (hp.pairwise_iff fun hd r hr hm => hd r hm hr).mpr ha

/-- Whether a claim among the first `i` commands was committed in one of two runs and refused in the other. -/
def Swayed (commands : List Command) (answers answers' : List Response) (i : Nat) (d : Claim) : Prop :=
  ∃ j < i, commands[j]? = some (.claim d) ∧ ¬(answers[j]? = some .committed ↔ answers'[j]? = some .committed)

theorem Swayed.mono {commands : List Command} {answers answers' : List Response} {i : Nat} {d : Claim}
    (hd : Swayed commands answers answers' i d) : Swayed commands answers answers' (i + 1) d := by
  obtain ⟨j, hj, hd⟩ := hd
  exact ⟨j, Nat.lt_succ_of_lt hj, hd⟩

theorem vacant_iff_of_not_swayed {later : List Command} {i : Nat} {d : Claim} (hi : later[i]? = some (.claim d))
    (hn : ¬Swayed later (h.replies later) (h'.replies later) (i + 1) d) :
    Vacant (h.commitAll (later.take i)) d ↔ Vacant (h'.commitAll (later.take i)) d := by
  have hsame : (h.replies later)[i]? = some .committed ↔ (h'.replies later)[i]? = some .committed := by
    by_contra hne
    exact hn ⟨i, Nat.lt_succ_self i, hi, hne⟩
  rw [getElem?_replies, getElem?_replies, hi, Option.map_some, Option.map_some, Option.some.injEq,
    Option.some.injEq, reply_claim_eq_committed_iff, reply_claim_eq_committed_iff] at hsame
  exact hsame

theorem get?_commitAll_congr {r : StateRef} (hr : h.get? r = h'.get? r) {later : List Command} {i : Nat}
    (hn : ∀ d, Swayed later (h.replies later) (h'.replies later) i d → r ∉ d.inputs) :
    (h.commitAll (later.take i)).get? r = (h'.commitAll (later.take i)).get? r := by
  induction i with
  | zero => exact hr
  | succ i ih =>
    have hbefore := ih fun d hd => hn d hd.mono
    rw [List.take_add_one, commitAll_append, commitAll_append]
    cases hi : later[i]? with
    | none => exact hbefore
    | some command =>
      cases command with
      | claim d =>
        change ((h.commitAll (later.take i)).commit (.claim d)).get? r =
          ((h'.commitAll (later.take i)).commit (.claim d)).get? r
        by_cases hd : r ∈ d.inputs
        · have hv := vacant_iff_of_not_swayed hi fun hs => hn d hs hd
          rw [get?_commit_claim, get?_commit_claim, hbefore]
          simp only [hv]
        · rw [get?_commit_of_not_mem hd, get?_commit_of_not_mem hd, hbefore]
      | get key => exact hbefore
      | size => exact hbefore

theorem reply_of_not_swayed (h : History) (c : Claim) {later : List Command} {i : Nat} {command : Command}
    (hi : later[i]? = some command) (hs : command ≠ .size)
    (hn : ∀ r ∈ command.names, r ∉ c.inputs ∧
      ∀ d, Swayed later (h.replies later) ((h.commit (.claim c)).replies later) i d → r ∉ d.inputs) :
    ∃ response, (h.replies later)[i]? = some response ∧
      ((h.commit (.claim c)).replies later)[i]? = some response := by
  have hagree : ∀ r ∈ command.names, (h.commitAll (later.take i)).get? r =
      ((h.commit (.claim c)).commitAll (later.take i)).get? r := by
    intro r hr
    obtain ⟨hc, hd⟩ := hn r hr
    exact get?_commitAll_congr (get?_commit_of_not_mem hc).symm hd
  refine ⟨_, by rw [getElem?_replies, hi]; rfl, ?_⟩
  rw [getElem?_replies, hi, reply_congr hs hagree]
  rfl

end History

namespace Machine

open History (Swayed)
open Ledger (Apart)

/-- Claims of which no two have an input in common are answered alike in every order, and leave one and the
same machine, hence the same snapshot. One more claim in a run changes the answers to those later look-ups
and claims alone that name an input of it, or of a claim in between that it sways. -/
theorem independent_claims_commute (commands : List Command) :
    ∃ responses m, empty.applyAll commands = .ok (responses, m) ∧
      (∀ claims, Apart claims → ∃ (reply : Claim → Response) (m' : Machine), ∀ claims' : List Claim,
        claims'.Perm claims → m.applyAll (claims'.map .claim) = .ok (claims'.map reply, m')) ∧
      ∀ c later, ∃ answers m₁ response answers' m₂, m.applyAll later = .ok (answers, m₁) ∧
        m.applyAll (.claim c :: later) = .ok (response :: answers', m₂) ∧
        ∀ (i : Nat) (command : Command), later[i]? = some command → command ≠ .size →
          (∀ r ∈ command.names, r ∉ c.inputs ∧ ∀ d, Swayed later answers answers' i d → r ∉ d.inputs) →
          ∃ answer, answers[i]? = some answer ∧ answers'[i]? = some answer := by
  obtain ⟨responses, m, h, hrun, hm⟩ : ∃ responses m h, empty.applyAll commands = .ok (responses, m) ∧
      m.store.Holds h := ⟨_, _, _, applyAll_eq Store.holds_empty commands, rfl⟩
  refine ⟨responses, m, hrun, ?_, ?_⟩
  · intro claims ha
    refine ⟨fun c => h.reply (.claim c), m.holding (h.commitAll (claims.map .claim)), fun claims' hp => ?_⟩
    rw [applyAll_eq hm, History.replies_apart (History.apart_of_perm hp ha), History.commitAll_perm hp ha]
  · intro c later
    refine ⟨_, _, _, _, _, applyAll_eq hm later, applyAll_eq hm (.claim c :: later), ?_⟩
    intro i command hi hs hn
    exact History.reply_of_not_swayed _ c hi hs hn

def claimOf (indices : List UInt32) : Claim :=
  ⟨indices.map (⟨default, ·⟩), default, ⟨"a", ""⟩⟩

theorem claim_apart_is_not_swayed :
    Apart [claimOf [0], claimOf [1]] ∧
    (∃ (reply : Claim → Response) (m : Machine),
      empty.applyAll [.claim (claimOf [0]), .claim (claimOf [1])] = .ok ([claimOf [0], claimOf [1]].map reply, m) ∧
      empty.applyAll [.claim (claimOf [1]), .claim (claimOf [0])] = .ok ([claimOf [1], claimOf [0]].map reply, m)) ∧
    ∃ answers m₁ response answers' m₂,
      empty.applyAll [.claim (claimOf [0, 2]), .claim (claimOf [1])] = .ok (answers, m₁) ∧
      empty.applyAll [.claim (claimOf [0]), .claim (claimOf [0, 2]), .claim (claimOf [1])] =
        .ok (response :: answers', m₂) ∧
      ∃ answer, answers[1]? = some answer ∧ answers'[1]? = some answer := by
  obtain ⟨responses, m, hrun, hperm, hinsert⟩ := independent_claims_commute []
  obtain ⟨rfl, rfl⟩ := Prod.mk.inj (Except.ok.inj hrun)
  have ha : Apart [claimOf [0], claimOf [1]] := by
    rw [Apart]
    decide
  obtain ⟨reply, m', hall⟩ := hperm _ ha
  obtain ⟨answers, m₁, response, answers', m₂, hwithout, hwith, hsame⟩ :=
    hinsert (claimOf [0]) [.claim (claimOf [0, 2]), .claim (claimOf [1])]
  refine ⟨ha, ⟨reply, m', hall _ (.refl _), hall _ (.swap ..)⟩, answers, m₁, response, answers', m₂, hwithout, hwith,
    ?_⟩
  apply hsame 1 (.claim (claimOf [1])) rfl Command.noConfusion
  intro r hr
  obtain rfl := List.mem_singleton.mp hr
  refine ⟨by decide, ?_⟩
  rintro d ⟨j, hj, hd, -⟩
  obtain rfl : j = 0 := Nat.lt_one_iff.mp hj
  obtain rfl : claimOf [0, 2] = d := Command.claim.inj (Option.some.inj hd)
  decide

end Machine

end Uniqueness
