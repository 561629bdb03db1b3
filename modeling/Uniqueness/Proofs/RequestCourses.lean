import Uniqueness.Client
import Mathlib.Data.List.Range

/-!
The attempts of a request to a cluster. Each goes where the one before was pointed to, or on round the
addresses of the client, until one of them settles the request or no more are allowed.
-/

namespace Uniqueness.Client

open Cluster (ExecuteReply LeaderHint Network Status)

variable {σ : Type}

namespace Outcome

def goesOn : Outcome → Bool
  | redirect _ | backoff _ => true
  | done _ | fail _ => false

def isBackoff : Outcome → Bool
  | backoff _ => true
  | _ => false

def answer (n : Nat) : Outcome → Except Cluster.Fault Response
  | done response => .ok response
  | fail fault | backoff fault => .error fault
  | redirect address =>
    .error (.remote ("still redirected to " ++ address ++ " after " ++ Decimal.text n ++ " attempts"))

theorem isBackoff_iff {o : Outcome} : o.isBackoff = true ↔ ∃ fault, o = .backoff fault := by
  cases o <;> simp [isBackoff]

theorem goesOn_of_isBackoff {o : Outcome} (h : o.isBackoff = true) : o.goesOn = true := by
  obtain ⟨fault, rfl⟩ := isBackoff_iff.mp h
  rfl

theorem answer_eq_ok_iff {o : Outcome} {n : Nat} {response : Response} :
    o.answer n = .ok response ↔ o = .done response := by
  cases o <;> simp [answer]

theorem answer_eq_error_iff {o : Outcome} {n : Nat} {fault : Cluster.Fault} :
    o.answer n = .error fault ↔ o = .fail fault ∨ o.goesOn = true ∧ o.answer n = .error fault := by
  cases o <;> simp [answer, goesOn]

end Outcome

inductive Reading (target : String) : Except Status ExecuteReply → Outcome → Prop
  | answered {result : Bytes} {response : Response} (h : Json.decode Response result = .ok response) :
    Reading target (.ok (.done result)) (.done response)
  | unreadable {result : Bytes} {fault : Uniqueness.Fault} (h : Json.decode Response result = .error fault) :
    Reading target (.ok (.done result)) (.fail (.undecodable fault))
  | rejected {status : Status} (h : status.code = .invalidArgument) :
    Reading target (.error status) (.fail (.network status))
  | failed {status : Status} (h : status.code ≠ .invalidArgument) :
    Reading target (.error status) (.backoff (.network status))
  | hinted {reason : String} {leader : LeaderHint} (hknown : leader.address ≠ "") (hother : leader.address ≠ target) :
    Reading target (.ok (.refused reason leader)) (.redirect leader.address)
  | refused {reason : String} {leader : LeaderHint} (h : leader.address = "" ∨ leader.address = target)
      (hreason : reason ≠ "") :
    Reading target (.ok (.refused reason leader)) (.backoff (.remote reason))
  | unexplained {leader : LeaderHint} (h : leader.address = "" ∨ leader.address = target) :
    Reading target (.ok (.refused "" leader))
      (.backoff (.notLeader (if leader.id = 0 then none else some leader.id)))

theorem reading_ofRefusal (target reason : String) (leader : LeaderHint) :
    Reading target (.ok (.refused reason leader)) (ofRefusal target reason leader) := by
  rw [ofRefusal]
  by_cases hhint : leader.address = "" ∨ leader.address = target
  · have hstays : (!leader.address.isEmpty && leader.address != target) = false := by
      rcases hhint with h | h
      · simp [h]
      · simp [h]
    rw [hstays, if_neg Bool.false_ne_true]
    split
    case isTrue hempty =>
      obtain rfl := String.isEmpty_iff.mp hempty
      exact .unexplained hhint
    case isFalse hreason => exact .refused hhint (mt String.isEmpty_iff.mpr hreason)
  · obtain ⟨hknown, hother⟩ := not_or.mp hhint
    have hmoves : (!leader.address.isEmpty && leader.address != target) = true := by
      simp [hknown, hother]
    rw [hmoves, if_pos rfl]
    exact .hinted hknown hother

theorem reading_ofReply (target : String) (reply : Except Status ExecuteReply) :
    Reading target reply (ofReply target reply) := by
  rcases reply with status | (result | ⟨reason, leader⟩)
  · rw [ofReply]
    split
    case isTrue h => exact .rejected h
    case isFalse h => exact .failed h
  · rw [ofReply]
    split
    case h_1 response h => exact .answered h
    case h_2 fault h => exact .unreadable h
  · exact reading_ofRefusal target reason leader

theorem Reading.ofReply_eq {target : String} {reply : Except Status ExecuteReply} {o : Outcome}
    (h : Reading target reply o) : ofReply target reply = o := by
  cases h with
  | answered h => simp only [ofReply, h]
  | unreadable h => simp only [ofReply, h]
  | rejected h => simp only [ofReply, if_pos h]
  | failed h => simp only [ofReply, if_neg h]
  | hinted hknown hother => simp [ofReply, ofRefusal, hknown, hother]
  | refused h hreason => rcases h with h | h <;> simp [ofReply, ofRefusal, h, hreason]
  | unexplained h => rcases h with h | h <;> simp [ofReply, ofRefusal, h]

theorem ofReply_eq_iff {target : String} {reply : Except Status ExecuteReply} {o : Outcome} :
    ofReply target reply = o ↔ Reading target reply o :=
  ⟨fun h => h ▸ reading_ofReply target reply, Reading.ofReply_eq⟩

theorem attempt_eq_iff {net : Network σ} {command : Command} {target : String} {w w' : σ} {o : Outcome} :
    attempt net command target w = (o, w') ↔
      (∃ fault, checkAddress target = .error fault ∧ o = .fail fault ∧ w' = w) ∨
      checkAddress target = .ok () ∧ ∃ reply, net.execute target (Json.encode command) w = (reply, w') ∧
        Reading target reply o := by
  rw [attempt]
  cases checkAddress target with
  | error fault =>
    simp only [Prod.mk.injEq, Except.error.injEq, exists_eq_left', reduceCtorEq, false_and, or_false, eq_comm]
  | ok =>
    simp only [Prod.mk.injEq, ofReply_eq_iff, reduceCtorEq, false_and, exists_false, false_or, true_and]
    constructor
    · rintro ⟨hreading, rfl⟩
      exact ⟨_, rfl, hreading⟩
    · rintro ⟨reply, hreply, hreading⟩
      obtain rfl : (net.execute target (Json.encode command) w).1 = reply := congrArg Prod.fst hreply
      exact ⟨hreading, congrArg Prod.snd hreply⟩

def failures (outcome : Nat → Outcome) (k : Nat) : Nat :=
  (List.range k).countP fun i => (outcome i).isBackoff

structure Course (net : Network σ) (command : Command) (c : Client) (w : σ) where
  target : Nat → String
  outcome : Nat → Outcome
  leader : Nat → Option String
  world : Nat → σ
  starts : target 0 = c.target ∧ leader 0 = c.leader ∧ world 0 = w
  attempted (k : Nat) : attempt net command (target k) (world k) = (outcome k, world (k + 1))
  redirected {k : Nat} {address : String} (h : outcome k = .redirect address) :
    target (k + 1) = address ∧ address ≠ target k ∧ leader (k + 1) = some address
  rotated {k : Nat} {fault : Cluster.Fault} (h : outcome k = .backoff fault) :
    c.endpoints[(c.next + failures outcome (k + 1)) % c.endpoints.length]? = some (target (k + 1)) ∧
      leader (k + 1) = none

theorem failures_succ (outcome : Nat → Outcome) (k : Nat) :
    failures outcome (k + 1) = failures outcome k + if (outcome k).isBackoff then 1 else 0 := by
  simp [failures, List.range_succ, List.countP_append, List.countP_cons]

theorem ne_of_redirect {net : Network σ} {command : Command} {target address : String} {w w' : σ}
    (h : attempt net command target w = (.redirect address, w')) : address ≠ target := by
  obtain ⟨fault, -, hfail, -⟩ | ⟨-, reply, -, hreading⟩ := attempt_eq_iff.mp h
  · cases hfail
  · cases hreading with
    | hinted hknown hother => exact hother

theorem getElem?_endpoints (c : Client) (i : Nat) :
    c.endpoints[i % c.endpoints.length]? = some (c.endpoint i) := by
  have hlt : i % c.endpoints.length < c.endpoints.length := Nat.mod_lt _ (Nat.zero_lt_succ _)
  rw [endpoint, List.getD_eq_getElem?_getD, List.getElem?_eq_getElem hlt, Option.getD_some]

theorem endpoint_mod (c : Client) (i : Nat) : c.endpoint (i % c.endpoints.length) = c.endpoint i := by
  rw [endpoint, endpoint, Nat.mod_mod]

structure Position (σ : Type) where
  target : String
  failed : Nat
  leader : Option String
  world : σ

namespace Position

variable (net : Network σ) (command : Command) (c : Client)

def outcome (p : Position σ) : Outcome :=
  (attempt net command p.target p.world).1

def next (p : Position σ) : Position σ :=
  let world := (attempt net command p.target p.world).2
  match p.outcome net command with
  | .redirect address => { p with target := address, leader := some address, world }
  | .backoff _ => ⟨c.endpoint (c.next + (p.failed + 1)), p.failed + 1, none, world⟩
  | .done _ | .fail _ => { p with world }

def after (w : σ) : Nat → Position σ
  | 0 => ⟨c.target, 0, c.leader, w⟩
  | k + 1 => (after w k).next net command c

variable {net command c}

theorem world_next (p : Position σ) : (p.next net command c).world = (attempt net command p.target p.world).2 := by
  rw [next]
  split <;> rfl

theorem next_of_redirect {p : Position σ} {address : String} (h : p.outcome net command = .redirect address) :
    (p.next net command c).target = address ∧ (p.next net command c).leader = some address := by
  simp [next, h]

theorem next_of_backoff {p : Position σ} {fault : Cluster.Fault} (h : p.outcome net command = .backoff fault) :
    (p.next net command c).target = c.endpoint (c.next + (p.failed + 1)) ∧
      (p.next net command c).leader = none := by
  simp [next, h]

theorem failed_next (p : Position σ) :
    (p.next net command c).failed = p.failed + if (p.outcome net command).isBackoff then 1 else 0 := by
  cases h : p.outcome net command <;> simp [next, h, Outcome.isBackoff]

theorem failed_after (w : σ) (k : Nat) : (after net command c w k).failed =
    failures (fun i => (after net command c w i).outcome net command) k := by
  induction k with
  | zero => rfl
  | succ k ih => rw [after, failed_next, failures_succ, ih]

end Position

def course (net : Network σ) (command : Command) (c : Client) (w : σ) : Course net command c w where
  target k := (Position.after net command c w k).target
  outcome k := (Position.after net command c w k).outcome net command
  leader k := (Position.after net command c w k).leader
  world k := (Position.after net command c w k).world
  starts := ⟨rfl, rfl, rfl⟩
  attempted k := Prod.ext rfl (Position.world_next _).symm
  redirected h := ⟨(Position.next_of_redirect h).1, ne_of_redirect (Prod.ext h rfl), (Position.next_of_redirect h).2⟩
  rotated {k fault} h := by
    obtain ⟨htarget, hleader⟩ := Position.next_of_backoff (c := c) h
    rw [failures_succ, h, ← Position.failed_after, Position.after, htarget, getElem?_endpoints]
    exact ⟨rfl, hleader⟩

namespace Course

variable {net : Network σ} {command : Command} {c : Client} {w : σ} (s : Course net command c w)

def client (k : Nat) : Client :=
  { c with
    leader := s.leader k
    next := if failures s.outcome k = 0 then c.next
      else (c.next + failures s.outcome k) % c.endpoints.length }

def waits (start n : Nat) : List UInt64 :=
  ((List.range' start n).filter fun i => (s.outcome i).isBackoff).map fun i =>
    c.policy.backoff (UInt32.ofNat (i + 1))

def run (start k : Nat) : Run σ :=
  ⟨(s.outcome k).answer (k + 1), s.client k, s.world (k + 1), (List.range' start (k + 1 - start)).map s.target,
    s.waits start (k - start)⟩

theorem client_zero : s.client 0 = c := by
  simp [client, failures, s.starts.2.1]

theorem client_of_redirect {k : Nat} {address : String} (h : s.outcome k = .redirect address) :
    s.client (k + 1) = { s.client k with leader := some address } := by
  simp [client, failures_succ, h, Outcome.isBackoff, (s.redirected h).2.2]

theorem client_of_backoff {k : Nat} {fault : Cluster.Fault} (h : s.outcome k = .backoff fault) :
    s.client (k + 1) = { s.client k with leader := none }.rotate ∧
      s.target (k + 1) = (s.client (k + 1)).endpoint (s.client (k + 1)).next := by
  obtain ⟨htarget, hleader⟩ := s.rotated h
  have hsucc : failures s.outcome (k + 1) = failures s.outcome k + 1 := by
    simp [failures_succ, h, Outcome.isBackoff]
  have hnext : (s.client (k + 1)).next = (c.next + (failures s.outcome k + 1)) % c.endpoints.length := by
    simp [client, hsucc]
  constructor
  · have hrotate : { s.client k with leader := none }.rotate.next =
        (c.next + (failures s.outcome k + 1)) % c.endpoints.length := by
      simp only [rotate, client]
      split
      case isTrue hzero => simp [hzero, endpoints]
      case isFalse => simp [endpoints, Nat.add_assoc]
    rw [← hrotate] at hnext
    simp only [client, rotate, hleader] at hnext ⊢
    rw [hnext]
  · have hendpoint : (s.client (k + 1)).endpoint (s.client (k + 1)).next =
        c.endpoint (c.next + (failures s.outcome k + 1)) := by
      rw [hnext]
      exact c.endpoint_mod _
    rw [hsucc, getElem?_endpoints] at htarget
    rw [hendpoint]
    exact (Option.some.inj htarget).symm

theorem run_start {start k : Nat} (h : start < k) : s.run start k =
    (if (s.outcome start).isBackoff then
      (s.run (start + 1) k).addWait (c.policy.backoff (UInt32.ofNat (start + 1)))
    else s.run (start + 1) k).addTarget (s.target start) := by
  have htargets : k + 1 - start = k + 1 - (start + 1) + 1 := by omega
  have hwaits : k - start = k - (start + 1) + 1 := by omega
  rw [run, run, waits, waits, htargets, hwaits, List.range'_succ, List.range'_succ]
  cases hb : (s.outcome start).isBackoff <;> simp [Run.addTarget, Run.addWait, hb]

theorem run_self (k : Nat) :
    s.run k k = ⟨(s.outcome k).answer (k + 1), s.client k, s.world (k + 1), [s.target k], []⟩ := by
  simp [run, waits]

theorem attempts_last {k left : Nat} (h : left = 0 ∨ (s.outcome k).goesOn = false) :
    attempts (attempt net command) left (k + 1) (s.target k) (s.client k) (s.world k) = s.run k k := by
  rw [attempts.eq_def, run_self]
  simp only [s.attempted]
  cases ho : s.outcome k with
  | done response => rfl
  | fail fault => rfl
  | redirect address =>
    obtain rfl : left = 0 := by simpa [ho, Outcome.goesOn] using h
    rfl
  | backoff fault =>
    obtain rfl : left = 0 := by simpa [ho, Outcome.goesOn] using h
    rfl

theorem attempts_next {k left last : Nat} (hgoes : (s.outcome k).goesOn = true) (hlast : k < last)
    (h : attempts (attempt net command) left (k + 2) (s.target (k + 1)) (s.client (k + 1)) (s.world (k + 1)) =
      s.run (k + 1) last) :
    attempts (attempt net command) (left + 1) (k + 1) (s.target k) (s.client k) (s.world k) = s.run k last := by
  rw [attempts.eq_def, s.run_start hlast, ← h]
  simp only [s.attempted]
  cases ho : s.outcome k with
  | done response => simp [ho, Outcome.goesOn] at hgoes
  | fail fault => simp [ho, Outcome.goesOn] at hgoes
  | redirect address =>
    rw [s.client_of_redirect ho, (s.redirected ho).1]
    rfl
  | backoff fault =>
    obtain ⟨hclient, htarget⟩ := s.client_of_backoff ho
    rw [htarget, hclient]
    rfl

structure Ends (m k : Nat) : Prop where
  within : k < m
  goesOn : ∀ i < k, (s.outcome i).goesOn = true
  ends : k + 1 = m ∨ (s.outcome k).goesOn = false

variable {s}

theorem exists_attempts (left k : Nat) (hgoes : ∀ i < k, (s.outcome i).goesOn = true) :
    ∃ last, k ≤ last ∧ s.Ends (k + left + 1) last ∧
      attempts (attempt net command) left (k + 1) (s.target k) (s.client k) (s.world k) = s.run k last := by
  induction left generalizing k with
  | zero => exact ⟨k, Nat.le_refl k, ⟨Nat.lt_succ_self k, hgoes, .inl rfl⟩, s.attempts_last (.inl rfl)⟩
  | succ left ih =>
    cases ho : (s.outcome k).goesOn with
    | false => exact ⟨k, Nat.le_refl k, ⟨by omega, hgoes, .inr ho⟩, s.attempts_last (.inr ho)⟩
    | true =>
      obtain ⟨last, hle, hends, hrun⟩ := ih (k + 1) fun i hi =>
        (Nat.lt_succ_iff_lt_or_eq.mp hi).elim (hgoes i) fun hik => hik ▸ ho
      refine ⟨last, Nat.le_of_succ_le hle, ?_, s.attempts_next ho hle hrun⟩
      rwa [show k + (left + 1) + 1 = k + 1 + left + 1 by omega]

theorem Ends.eq {m k i : Nat} (h : s.Ends m k) (hi : i < m) (hgoes : ∀ j < i, (s.outcome j).goesOn = true)
    (ho : (s.outcome i).goesOn = false) : i = k := by
  rcases Nat.lt_trichotomy i k with hlt | rfl | hlt
  · rw [h.goesOn i hlt] at ho
    cases ho
  · rfl
  · rcases h.ends with hm | hend
    · omega
    · rw [hgoes k hlt] at hend
      cases hend

theorem Ends.answer_eq_ok_iff {m k : Nat} (h : s.Ends m k) {response : Response} :
    (s.outcome k).answer (k + 1) = .ok response ↔
      ∃ i < m, s.outcome i = .done response ∧ ∀ j < i, (s.outcome j).goesOn = true := by
  rw [Outcome.answer_eq_ok_iff]
  constructor
  · intro ho
    exact ⟨k, h.within, ho, h.goesOn⟩
  · rintro ⟨i, hi, ho, hgoes⟩
    rw [← h.eq hi hgoes (by rw [ho]; rfl), ho]

theorem Ends.answer_eq_error_iff {m k : Nat} (h : s.Ends m k) {fault : Cluster.Fault} :
    (s.outcome k).answer (k + 1) = .error fault ↔
      (∃ i < m, s.outcome i = .fail fault ∧ ∀ j < i, (s.outcome j).goesOn = true) ∨
      (∀ j < m, (s.outcome j).goesOn = true) ∧ (s.outcome (m - 1)).answer m = .error fault := by
  rw [Outcome.answer_eq_error_iff]
  constructor
  · rintro (ho | ⟨hgoes, ho⟩)
    · exact .inl ⟨k, h.within, ho, h.goesOn⟩
    · rcases h.ends with rfl | hend
      · refine .inr ⟨?_, ho⟩
        intro j hj
        exact (Nat.lt_succ_iff_lt_or_eq.mp hj).elim (h.goesOn j) fun hjk => hjk ▸ hgoes
      · rw [hgoes] at hend
        cases hend
  · rintro (⟨i, hi, ho, hgoes⟩ | ⟨hgoes, ho⟩)
    · exact .inl (h.eq hi hgoes (by rw [ho]; rfl) ▸ ho)
    · obtain rfl : k + 1 = m := by
        rcases h.ends with hm | hend
        · exact hm
        · rw [hgoes k h.within] at hend
          cases hend
      exact .inr ⟨hgoes k (Nat.lt_succ_self k), ho⟩

end Course

theorem Course.outcome_cases {net : Network σ} {command : Command} {c : Client} {w : σ} (s : Course net command c w)
    (k : Nat) :
    (∃ fault, checkAddress (s.target k) = .error fault ∧ s.outcome k = .fail fault ∧ s.world (k + 1) = s.world k) ∨
      checkAddress (s.target k) = .ok () ∧
        ∃ reply, net.execute (s.target k) (Json.encode command) (s.world k) = (reply, s.world (k + 1)) ∧
          Reading (s.target k) reply (s.outcome k) :=
  attempt_eq_iff.mp (s.attempted k)

theorem exists_run (net : Network σ) (c : Client) (command : Command) (w : σ) :
    ∃ (s : Course net command c w) (k : Nat), s.Ends (max 1 c.policy.maxAttempts.toNat) k ∧
      c.execute net command w = s.run 0 k := by
  have s := course net command c w
  have hbound : 0 + (c.policy.maxAttempts.toNat - 1) + 1 = max 1 c.policy.maxAttempts.toNat := by omega
  obtain ⟨k, -, hends, hrun⟩ := s.exists_attempts (c.policy.maxAttempts.toNat - 1) 0 nofun
  obtain ⟨htarget, -, hworld⟩ := s.starts
  rw [htarget, s.client_zero, hworld] at hrun
  rw [hbound] at hends
  exact ⟨s, k, hends, hrun⟩

/-- A request follows its course for at least one attempt and at most as many as the policy allows. It
succeeds exactly if one of these does and all before it go on, ends with the first that fails for good, and
answers what the last one comes to if all of them go on. It waits after those only that fail for the moment. -/
theorem execute_follows_course (net : Network σ) (c : Client) (command : Command) (w : σ) :
    ∃ (s : Course net command c w) (k : Nat), s.Ends (max 1 c.policy.maxAttempts.toNat) k ∧
      (c.execute net command w).targets = (List.range (k + 1)).map s.target ∧
      (c.execute net command w).waits = (((List.range k).filter fun i => (s.outcome i).isBackoff).map fun i =>
        c.policy.backoff (UInt32.ofNat (i + 1))) ∧
      (c.execute net command w).client = s.client k ∧ (c.execute net command w).world = s.world (k + 1) ∧
      (∀ response, (c.execute net command w).result = .ok response ↔
        ∃ i < max 1 c.policy.maxAttempts.toNat, s.outcome i = .done response ∧
          ∀ j < i, (s.outcome j).goesOn = true) ∧
      ∀ fault, (c.execute net command w).result = .error fault ↔
        (∃ i < max 1 c.policy.maxAttempts.toNat, s.outcome i = .fail fault ∧
          ∀ j < i, (s.outcome j).goesOn = true) ∨
        (∀ j < max 1 c.policy.maxAttempts.toNat, (s.outcome j).goesOn = true) ∧
          (s.outcome (max 1 c.policy.maxAttempts.toNat - 1)).answer (max 1 c.policy.maxAttempts.toNat) =
            .error fault := by
  obtain ⟨s, k, hends, hrun⟩ := c.exists_run net command w
  refine ⟨s, k, hends, ?_⟩
  rw [hrun, List.range_eq_range', List.range_eq_range']
  exact ⟨rfl, rfl, rfl, rfl, fun _ => hends.answer_eq_ok_iff, fun _ => hends.answer_eq_error_iff⟩

end Uniqueness.Client
