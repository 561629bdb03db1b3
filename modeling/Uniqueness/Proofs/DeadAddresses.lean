import Uniqueness.Cluster.Change
import Uniqueness.Proofs.LawfulCodecs
import Uniqueness.Proofs.RequestCourses
import Uniqueness.Proofs.Results
import Mathlib.Data.List.GetD
import Mathlib.Order.Nat

/-!
Calls one after another while only one address of a client is served. Whether one of them gets there
depends on what the calls before have left behind: the known leader, and whose turn it is.
-/

namespace Uniqueness

variable {σ : Type}

namespace Cluster

def Call.FailsForNow {α : Type} (request : Call σ α) : Prop :=
  ∀ w, ∃ status, status.code ≠ .invalidArgument ∧ (request w).1 = .error status

def Network.change (net : Network σ) (address : String) : Change → Call σ ChangeReply
  | .add node other => net.addNode address node other
  | .remove node => net.removeNode address node

/-- A network with a leader at one address, and no node that answers at any other. -/
structure Network.OnlyServes (net : Network σ) (live : String) : Prop where
  executes (command : Command) (w : σ) : ∃ result response,
    (net.execute live (Json.encode command) w).1 = .ok (.done result) ∧ Json.decode Response result = .ok response
  leads (w : σ) : ∃ report, (net.status live w).1 = .ok report ∧ Client.leaderOf report = .ok live
  changes (change : Change) (w : σ) : (net.change live change w).1 = .ok .done
  failsExecute {address : String} (h : address ≠ live) (command : Bytes) : (net.execute address command).FailsForNow
  failsStatus {address : String} (h : address ≠ live) : (net.status address).FailsForNow
  failsChange {address : String} (h : address ≠ live) (change : Change) : (net.change address change).FailsForNow

end Cluster

namespace Client

open Cluster (Network)

structure Reaches (c : Client) (live : String) : Prop where
  given : live ∈ c.endpoints
  sends {address : String} (h : address ∈ c.endpoints ∨ c.leader = some address) : checkAddress address = .ok ()

def most (c : Client) : Nat :=
  max 1 c.policy.maxAttempts.toNat

def turn (c : Client) : Nat → String
  | 0 => c.target
  | k + 1 => c.endpoint (c.next + (k + 1))

def passed (c : Client) : Nat → Client
  | 0 => c
  | k + 1 => { c with leader := none, next := (c.next + (k + 1)) % c.endpoints.length }

theorem endpoint_mem (c : Client) (i : Nat) : c.endpoint i ∈ c.endpoints :=
  List.mem_of_getElem? (c.getElem?_endpoints i)

theorem turn_known (c : Client) (k : Nat) : c.turn k ∈ c.endpoints ∨ c.leader = some (c.turn k) := by
  cases k with
  | zero =>
    rw [turn, target]
    cases c.leader with
    | none => exact .inl (c.endpoint_mem c.next)
    | some address => exact .inr rfl
  | succ k => exact .inl (c.endpoint_mem _)

theorem Reaches.passed {c : Client} {live : String} (h : c.Reaches live) (k : Nat) : (c.passed k).Reaches live := by
  cases k with
  | zero => exact h
  | succ k => exact ⟨h.given, fun hknown => h.sends (.inl (hknown.resolve_right nofun))⟩

theorem most_passed (c : Client) (k : Nat) : (c.passed k).most = c.most := by
  cases k <;> rfl

theorem endpoint_passed (c : Client) (k i : Nat) :
    (c.passed k).endpoint ((c.passed k).next + i) = c.endpoint (c.next + k + i) := by
  cases k with
  | zero => rfl
  | succ k =>
    change c.endpoint ((c.next + (k + 1)) % c.endpoints.length + i) = _
    rw [← c.endpoint_mod, Nat.mod_add_mod, c.endpoint_mod]

theorem length_endpoints_pos (c : Client) : 0 < c.endpoints.length :=
  Nat.zero_lt_succ _

theorem exists_endpoint {c : Client} {live : String} (h : live ∈ c.endpoints) (start : Nat) :
    ∃ i, 0 < i ∧ i ≤ c.endpoints.length ∧ c.endpoint (start + i) = live := by
  obtain ⟨place, hplace, hlive⟩ := List.mem_iff_getElem.mp h
  have hstart := Nat.mod_lt start c.length_endpoints_pos
  obtain ⟨i, hpos, hle, hi⟩ : ∃ i, 0 < i ∧ i ≤ c.endpoints.length ∧
      (start + i) % c.endpoints.length = place := by
    rcases Nat.lt_or_ge (start % c.endpoints.length) place with hlt | hge
    · refine ⟨place - start % c.endpoints.length, by omega, by omega, ?_⟩
      rw [← Nat.mod_add_mod, Nat.add_sub_cancel' hlt.le, Nat.mod_eq_of_lt hplace]
    · refine ⟨place + c.endpoints.length - start % c.endpoints.length, by omega, by omega, ?_⟩
      rw [← Nat.mod_add_mod, Nat.add_sub_cancel' (by omega), Nat.add_mod_right, Nat.mod_eq_of_lt hplace]
  refine ⟨i, hpos, hle, ?_⟩
  rw [← c.endpoint_mod, hi, endpoint, Nat.mod_eq_of_lt hplace, List.getD_eq_getElem _ _ hplace, hlive]

section

variable {net : Network σ} {live : String} {command : Command} {c : Client} {w : σ}

theorem attempt_served (hnet : net.OnlyServes live) (hlive : checkAddress live = .ok ()) (command : Command) (w : σ) :
    ∃ response, (attempt net command live w).1 = .done response := by
  obtain ⟨result, response, hreply, hresult⟩ := hnet.executes command w
  exact ⟨response, congrArg Prod.fst (attempt_eq_iff.mpr (.inr ⟨hlive, _, Prod.ext hreply rfl, .answered hresult⟩))⟩

theorem attempt_unserved (hnet : net.OnlyServes live) {target : String} (htarget : checkAddress target = .ok ())
    (h : target ≠ live) (command : Command) (w : σ) :
    ∃ status, (attempt net command target w).1 = .backoff (.network status) := by
  obtain ⟨status, hstatus, hreply⟩ := hnet.failsExecute h (Json.encode command) w
  exact ⟨status, congrArg Prod.fst (attempt_eq_iff.mpr (.inr ⟨htarget, _, Prod.ext hreply rfl, .failed hstatus⟩))⟩

theorem failures_eq_self {outcome : Nat → Outcome} {k : Nat} (h : ∀ i < k, (outcome i).isBackoff = true) :
    failures outcome k = k := by
  have hall : failures outcome k = (List.range k).length :=
    List.countP_eq_length.mpr fun i hi => h i (List.mem_range.mp hi)
  rw [hall, List.length_range]

namespace Course

variable (s : Course net command c w)

theorem fst_attempt (k : Nat) : (attempt net command (s.target k) (s.world k)).1 = s.outcome k := by
  rw [s.attempted]

theorem goes_round (hnet : net.OnlyServes live) (hc : c.Reaches live) {k : Nat} (h : ∀ i < k, c.turn i ≠ live) :
    (∀ i < k, (s.outcome i).isBackoff = true) ∧ s.target k = c.turn k := by
  induction k with
  | zero => exact ⟨nofun, s.starts.1⟩
  | succ k ih =>
    obtain ⟨hbackoff, htarget⟩ := ih fun i hi => h i (Nat.lt_succ_of_lt hi)
    obtain ⟨status, hk⟩ :=
      attempt_unserved hnet (hc.sends (c.turn_known k)) (h k (Nat.lt_succ_self k)) command (s.world k)
    rw [← htarget, s.fst_attempt] at hk
    have hall : ∀ i < k + 1, (s.outcome i).isBackoff = true := by
      intro i hi
      rcases Nat.lt_succ_iff_lt_or_eq.mp hi with hlt | rfl
      · exact hbackoff i hlt
      · rw [hk]
        rfl
    refine ⟨hall, ?_⟩
    have hnext := (s.rotated hk).1
    rw [failures_eq_self hall, getElem?_endpoints] at hnext
    exact (Option.some.inj hnext).symm

theorem client_eq_passed {k : Nat} (h : ∀ i < k, (s.outcome i).isBackoff = true) : s.client k = c.passed k := by
  cases k with
  | zero => exact s.client_zero
  | succ k =>
    obtain ⟨fault, hk⟩ := Outcome.isBackoff_iff.mp (h k (Nat.lt_succ_self k))
    simp [client, failures_eq_self h, (s.rotated hk).2, passed]

end Course

theorem execute_served (hnet : net.OnlyServes live) (hc : c.Reaches live) (h : ∃ i < c.most, c.turn i = live)
    (command : Command) (w : σ) : ∃ response, (c.execute net command w).result = .ok response := by
  obtain ⟨s, k, hends, hrun⟩ := c.exists_run net command w
  obtain ⟨first, ⟨hfirst, hturn⟩, hbefore⟩ : ∃ first, (first < c.most ∧ c.turn first = live) ∧
      ∀ i < first, c.turn i ≠ live :=
    ⟨Nat.find h, Nat.find_spec h, fun i hi hlive =>
      Nat.find_min h hi ⟨hi.trans (Nat.find_spec h).1, hlive⟩⟩
  obtain ⟨hbackoff, htarget⟩ := s.goes_round hnet hc hbefore
  obtain ⟨response, hdone⟩ := attempt_served hnet (hc.sends (.inl hc.given)) command (s.world first)
  rw [← hturn, ← htarget, s.fst_attempt] at hdone
  refine ⟨response, ?_⟩
  rw [hrun]
  exact hends.answer_eq_ok_iff.mpr ⟨first, hfirst, hdone, fun i hi => Outcome.goesOn_of_isBackoff (hbackoff i hi)⟩

theorem execute_unserved (hnet : net.OnlyServes live) (hc : c.Reaches live) (h : ∀ i < c.most, c.turn i ≠ live)
    (command : Command) (w : σ) :
    (∃ fault, (c.execute net command w).result = .error fault) ∧
      (c.execute net command w).client = c.passed (c.most - 1) := by
  obtain ⟨s, k, hends, hrun⟩ := c.exists_run net command w
  obtain ⟨hbackoff, -⟩ := s.goes_round hnet hc h
  have hk := hbackoff k hends.within
  obtain hm | hend := hends.ends
  · have hlast : c.most - 1 = k := by
      rw [most, ← hm]
      rfl
    rw [hrun, hlast]
    obtain ⟨fault, ho⟩ := Outcome.isBackoff_iff.mp hk
    refine ⟨⟨fault, ?_⟩, s.client_eq_passed fun i hi => hbackoff i (hi.trans hends.within)⟩
    rw [Course.run, ho]
    rfl
  · rw [Outcome.goesOn_of_isBackoff hk] at hend
    cases hend

end

def answersTo {α β : Type} (once : Client → α → σ → Answer σ β) :
    Client → List α → σ → List (Except Cluster.Fault β)
  | _, [], _ => []
  | c, request :: rest, w =>
    let (result, c, w) := once c request w
    result :: answersTo once c rest w

theorem ok_not_mem_answersTo {α β : Type} {once : Client → α → σ → Answer σ β} {c : Client}
    (h : ∀ request w, (∃ fault, (once c request w).1 = .error fault) ∧ (once c request w).2.1 = c)
    (requests : List α) (w : σ) (b : β) : .ok b ∉ answersTo once c requests w := by
  induction requests generalizing w with
  | nil => simp [answersTo]
  | cons request rest ih =>
    intro hmem
    obtain ⟨⟨fault, hfault⟩, hclient⟩ := h request w
    rw [answersTo] at hmem
    simp only [hfault, hclient] at hmem
    rcases List.mem_cons.mp hmem with hok | hrest
    · cases hok
    · exact ih _ hrest

def executeAll (net : Network σ) : Client → List Command → σ → List (Except Cluster.Fault Response) :=
  answersTo fun c command w =>
    let run := c.execute net command w
    (run.result, run.client, run.world)

theorem executeAll_cons (net : Network σ) (c : Client) (command : Command) (rest : List Command) (w : σ) :
    c.executeAll net (command :: rest) w = (c.execute net command w).result ::
      (c.execute net command w).client.executeAll net rest (c.execute net command w).world :=
  rfl

section

variable {net : Network σ} {live : String} (hnet : net.OnlyServes live)

include hnet

theorem executeAll_covers {c : Client} (hc : c.Reaches live) (commands : List Command) (w : σ) :
    (∃ response, .ok response ∈ c.executeAll net commands w) ∨
      ∀ i, 0 < i → i ≤ commands.length * (c.most - 1) → c.endpoint (c.next + i) ≠ live := by
  induction commands generalizing c w with
  | nil =>
    right
    intro i hpos hle
    rw [List.length_nil, Nat.zero_mul] at hle
    omega
  | cons command rest ih =>
    by_cases h : ∃ i < c.most, c.turn i = live
    · obtain ⟨response, hresult⟩ := execute_served hnet hc h command w
      refine .inl ⟨response, ?_⟩
      rw [executeAll_cons, hresult]
      exact List.mem_cons_self
    · have hturns : ∀ i < c.most, c.turn i ≠ live := fun i hi hturn => h ⟨i, hi, hturn⟩
      obtain ⟨-, hclient⟩ := execute_unserved hnet hc hturns command w
      rcases ih (hc.passed (c.most - 1)) (c.execute net command w).world with ⟨response, hok⟩ | hcovered
      · refine .inl ⟨response, ?_⟩
        rw [executeAll_cons, hclient]
        exact List.mem_cons_of_mem _ hok
      · right
        intro i hpos hle
        rw [List.length_cons, Nat.succ_mul] at hle
        -- the addresses of this request come first, then those of the rest from where it has stopped
        rcases Nat.lt_or_ge (c.most - 1) i with hlt | hge
        · have hrest := hcovered (i - (c.most - 1)) (by omega) (by rw [most_passed]; omega)
          rwa [endpoint_passed, Nat.add_assoc, Nat.add_sub_cancel' hlt.le] at hrest
        · obtain ⟨j, rfl⟩ := Nat.exists_eq_add_of_lt hpos
          rw [Nat.zero_add] at hge ⊢
          exact hturns (j + 1) (by omega)

theorem executeAll_stuck {c : Client} (hc : c.Reaches live) (hmost : c.most = 1) (h : c.target ≠ live)
    (commands : List Command) (w : σ) (response : Response) : .ok response ∉ c.executeAll net commands w := by
  have hturns : ∀ i < c.most, c.turn i ≠ live := by
    intro i hi
    obtain rfl : i = 0 := by omega
    exact h
  refine ok_not_mem_answersTo (fun command w => ?_) commands w response
  have hstays := execute_unserved hnet hc hturns command w
  rwa [hmost] at hstays

theorem executeAll_ok_iff {c : Client} (hc : c.Reaches live) {commands : List Command}
    (hlength : c.endpoints.length ≤ commands.length) (w : σ) :
    (∃ response, .ok response ∈ c.executeAll net commands w) ↔
      2 ≤ c.policy.maxAttempts.toNat ∨ c.target = live := by
  constructor
  · rintro ⟨response, hok⟩
    by_contra hnot
    rw [not_or] at hnot
    have hmost : c.most = 1 := by
      rw [most]
      omega
    exact executeAll_stuck hnet hc hmost hnot.2 commands w response hok
  · rintro (hretries | htarget)
    · refine (executeAll_covers hnet hc commands w).resolve_right fun hcovered => ?_
      obtain ⟨i, hpos, hle, hlive⟩ := exists_endpoint hc.given c.next
      have hmost : 1 ≤ c.most - 1 := by
        rw [most]
        omega
      exact hcovered i hpos ((hle.trans hlength).trans (Nat.le_mul_of_pos_right _ hmost)) hlive
    · cases commands with
      | nil => exact absurd hlength (Nat.not_le_of_lt c.length_endpoints_pos)
      | cons command rest =>
        obtain ⟨response, hresult⟩ :=
          execute_served hnet hc ⟨0, Nat.le_max_left 1 _, htarget⟩ command w
        refine ⟨response, ?_⟩
        rw [executeAll_cons, hresult]
        exact List.mem_cons_self

end

def alter (net : Network σ) (c : Client) : Cluster.Change → σ → Answer σ Unit
  | .add node address, w => c.addNode net node address w
  | .remove node, w => c.removeNode net node w

def alterAll (net : Network σ) : Client → List Cluster.Change → σ → List (Except Cluster.Fault Unit) :=
  answersTo (alter net)

theorem alter_eq (net : Network σ) (c : Client) (change : Cluster.Change) (w : σ) :
    c.alter net change w = c.change net (fun leader => net.change leader change) w := by
  cases change <;> rfl

theorem call_ok {α : Type} {address : String} {request : Cluster.Call σ α} {w : σ} {reply : α}
    (h : checkAddress address = .ok ()) (hreply : (request w).1 = .ok reply) :
    (call address request w).1 = .ok reply := by
  rw [call, h]
  simp only [hreply]
  rfl

theorem call_failed {α : Type} {address : String} {request : Cluster.Call σ α} (h : checkAddress address = .ok ())
    (hfails : request.FailsForNow) (w : σ) : ∃ status, (call address request w).1 = .error (.network status) := by
  obtain ⟨status, -, hreply⟩ := hfails w
  refine ⟨status, ?_⟩
  rw [call, h]
  simp only [hreply]
  rfl

section

variable {net : Network σ} {live : String} (hnet : net.OnlyServes live)

include hnet

theorem statusAmong_served {addresses : List String} (hsends : ∀ address ∈ addresses, checkAddress address = .ok ())
    (hgiven : live ∈ addresses) (last : Cluster.Fault) (w : σ) :
    ∃ report, (statusAmong net last addresses w).1 = .ok report ∧ leaderOf report = .ok live := by
  induction addresses generalizing last w with
  | nil => cases hgiven
  | cons address rest ih =>
    have haddress := hsends address List.mem_cons_self
    rw [statusAmong, statusAt]
    by_cases hlive : address = live
    · subst hlive
      obtain ⟨report, hreply, hleader⟩ := hnet.leads w
      have hcall := call_ok haddress hreply
      rcases hfound : call address (net.status address) w with ⟨found, w'⟩
      rw [hfound] at hcall
      refine ⟨report, ?_, hleader⟩
      cases hcall
      rfl
    · obtain ⟨status, hcall⟩ := call_failed haddress (hnet.failsStatus hlive) w
      rcases hfound : call address (net.status address) w with ⟨found, w'⟩
      rw [hfound] at hcall
      cases hcall
      exact ih (fun other hother => hsends other (List.mem_cons_of_mem _ hother))
        ((List.mem_cons.mp hgiven).resolve_left fun h => hlive h.symm) _ _

theorem findLeader_served {c : Client} (hc : c.Reaches live) (h : c.leader = none ∨ c.leader = some live) (w : σ) :
    (c.findLeader net w).1 = .ok live := by
  rw [findLeader]
  rcases h with hnone | hsome
  · obtain ⟨report, hreport, hleader⟩ := statusAmong_served hnet (fun address h => hc.sends (.inl h)) hc.given
      (.notLeader none) w
    rw [hnone, status]
    simp only [hreport, ok_bind, hleader]
  · rw [hsome]

theorem alter_served {c : Client} (hc : c.Reaches live) (h : c.leader = none ∨ c.leader = some live)
    (change : Cluster.Change) (w : σ) : (c.alter net change w).1 = .ok () := by
  have hfound := findLeader_served hnet hc h w
  rw [alter_eq, Client.change]
  rcases hleader : c.findLeader net w with ⟨found, c', w'⟩
  rw [hleader] at hfound
  cases hfound
  simp only [call_ok (hc.sends (.inl hc.given)) (hnet.changes change w'), ok_bind, readChange]

theorem alter_unserved {c : Client} (hc : c.Reaches live) {address : String} (h : c.leader = some address)
    (hdead : address ≠ live) (change : Cluster.Change) (w : σ) :
    (∃ fault, (c.alter net change w).1 = .error fault) ∧ (c.alter net change w).2.1 = c := by
  obtain ⟨status, hcall⟩ := call_failed (hc.sends (.inr h)) (hnet.failsChange hdead change) w
  rw [alter_eq, Client.change, findLeader, h]
  simp only [hcall, error_bind]
  exact ⟨⟨_, rfl⟩, trivial⟩

theorem alterAll_ok_iff {c : Client} (hc : c.Reaches live) {changes : List Cluster.Change} (hsome : changes ≠ [])
    (w : σ) : .ok () ∈ c.alterAll net changes w ↔ c.leader = none ∨ c.leader = some live := by
  constructor
  · intro hok
    cases hleader : c.leader with
    | none => exact .inl rfl
    | some address =>
      by_cases hlive : address = live
      · exact .inr (congrArg some hlive)
      · exact absurd hok (ok_not_mem_answersTo (alter_unserved hnet hc hleader hlive) changes w ())
  · intro hleader
    cases changes with
    | nil => exact absurd rfl hsome
    | cons change rest =>
      rw [alterAll, answersTo]
      simp only [alter_served hnet hc hleader change w]
      exact List.mem_cons_self

end

/-- With one address served, one of as many requests as there are addresses succeeds exactly if the client
makes more than one attempt or that address has its turn already. A change succeeds exactly if no other
address is known as the leader's. -/
theorem comes_to_served_iff {net : Network σ} {live : String} (hnet : net.OnlyServes live) {c : Client}
    (hc : c.Reaches live) (w : σ) :
    (∀ commands : List Command, c.endpoints.length ≤ commands.length →
      ((∃ response, .ok response ∈ c.executeAll net commands w) ↔
        2 ≤ c.policy.maxAttempts.toNat ∨ c.target = live)) ∧
    ∀ changes : List Cluster.Change, changes ≠ [] →
      (.ok () ∈ c.alterAll net changes w ↔ c.leader = none ∨ c.leader = some live) :=
  ⟨fun _ hlength => executeAll_ok_iff hnet hc hlength w, fun _ hsome => alterAll_ok_iff hnet hc hsome w⟩

def onlyAt (live : String) : Network Unit :=
  { Network.isolated Unit with
    execute := fun address _ w =>
      (if address = live then .ok (.done (Json.encode (Response.size 0))) else .error .unreachable, w)
    status := fun address w =>
      (if address = live then .ok ⟨1, "Leader", 1, 1, 0, 0, 0, [⟨1, live, true, true⟩]⟩ else .error .unreachable, w)
    addNode := fun address _ _ w => (if address = live then .ok .done else .error .unreachable, w)
    removeNode := fun address _ w => (if address = live then .ok .done else .error .unreachable, w) }

theorem onlyServes_onlyAt {live : String} (h : live ≠ "") : (onlyAt live).OnlyServes live where
  executes command w := by
    refine ⟨Json.encode (Response.size 0), .size 0, ?_, Json.decode_encode _⟩
    simp [onlyAt]
  leads w := by
    refine ⟨⟨1, "Leader", 1, 1, 0, 0, 0, [⟨1, live, true, true⟩]⟩, ?_, ?_⟩
    · simp [onlyAt]
    · simp [leaderOf, h]
  changes change w := by
    cases change <;> simp [Network.change, onlyAt]
  failsExecute hdead command w := ⟨.unreachable, by decide, by simp [onlyAt, hdead]⟩
  failsStatus hdead w := ⟨.unreachable, by decide, by simp [onlyAt, hdead]⟩
  failsChange hdead change w := by
    refine ⟨.unreachable, by decide, ?_⟩
    cases change <;> simp [Network.change, onlyAt, hdead]

theorem reaches_second {c : Client} (hgiven : c.endpoints = ["a:1", "b:1"])
    (hleader : ∀ address, c.leader = some address → address ∈ c.endpoints) : c.Reaches "b:1" where
  given := by simp [hgiven]
  sends {address} h := by
    have hmem : address ∈ c.endpoints := h.elim id (hleader address)
    have hsends : ∀ address ∈ ["a:1", "b:1"], checkAddress address = .ok () := by decide +kernel
    rw [hgiven] at hmem
    exact hsends address hmem

theorem second_address_is_found : ∃ c, ofEndpoints ["a:1", "b:1"] = .ok c ∧ c.Reaches "b:1" ∧
    (onlyAt "b:1").OnlyServes "b:1" ∧ (∃ response, .ok response ∈ c.executeAll (onlyAt "b:1") [.size, .size] ()) ∧
    .ok () ∈ c.alterAll (onlyAt "b:1") [.remove 2] () := by
  have hnet : (onlyAt "b:1").OnlyServes "b:1" := onlyServes_onlyAt (by decide)
  have hc : Reaches ⟨"a:1", ["b:1"], 0, none, .standard⟩ "b:1" := reaches_second rfl nofun
  obtain ⟨hexecute, halter⟩ := comes_to_served_iff hnet hc ()
  refine ⟨_, rfl, hc, hnet, (hexecute [.size, .size] (by decide)).mpr (.inl (by decide)), ?_⟩
  exact (halter [.remove 2] nofun).mpr (.inl rfl)

theorem first_address_is_kept : ∃ c led, ofEndpoints ["a:1", "b:1"] = .ok c ∧
    (onlyAt "b:1").OnlyServes "b:1" ∧ Reaches { c with policy := .once } "b:1" ∧
    executeAll (onlyAt "b:1") { c with policy := .once } [.size, .size, .size] () =
      List.replicate 3 (.error (.network .unreachable)) ∧
    c.addNode (onlyAt "a:1") 2 "b:1" () = (.ok (), led, ()) ∧ led.Reaches "b:1" ∧
    led.alterAll (onlyAt "b:1") [.remove 1, .remove 1, .remove 1] () =
      List.replicate 3 (.error (.network .unreachable)) := by
  refine ⟨⟨"a:1", ["b:1"], 0, none, .standard⟩, ⟨"a:1", ["b:1"], 0, some "a:1", .standard⟩, rfl,
    onlyServes_onlyAt (by decide), reaches_second rfl nofun, ?_, ?_, reaches_second rfl (by simp [endpoints]), ?_⟩
  · decide +kernel
  · decide +kernel
  · decide +kernel

end Client

end Uniqueness
