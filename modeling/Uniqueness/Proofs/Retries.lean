import Uniqueness.Cluster.Service
import Uniqueness.Proofs.RepeatedClaims
import Uniqueness.Proofs.RequestCourses
import Uniqueness.Proofs.SnapshotInstalls

namespace Uniqueness

open Cluster (Consensus Network)

def Responds (before : List Command) (command : Command) (response : Response) : Prop :=
  ∃ responses m m', Machine.empty.applyAll before = .ok (responses, m) ∧ m.apply command = .ok (response, m')

theorem responds_iff {before : List Command} {command : Command} {response : Response} :
    Responds before command response ↔ (History.commitAll .empty before).reply command = response := by
  have hrun := Machine.applyAll_eq (m := Machine.empty) Store.holds_empty before
  have happly := Machine.apply_eq (m := Machine.empty.holding (.commitAll .empty before)) rfl command
  constructor
  · rintro ⟨responses, m, m', hm, hr⟩
    rw [hrun] at hm
    cases hm
    rw [happly] at hr
    cases hr
    rfl
  · rintro rfl
    exact ⟨_, _, _, hrun, happly⟩

namespace Cluster

variable {σ : Type}

/-- Consensus that answers a command with what it comes to at a place of the log where it is written. -/
structure Consensus.Logs (g : Consensus σ) (log : σ → List Command) : Prop where
  applied {command : Command} {s s' : σ} {response : Response} (h : g.write command s = (.applied response, s')) :
    ∃ before, before ++ [command] <+: log s' ∧ Responds before command response

namespace Service

theorem refusal_ne_done (fault : WriteFault) (v : View) (result : Bytes) : refusal fault v ≠ .done result := by
  rw [refusal]
  split
  · nofun
  · nofun

theorem execute_done {g : Consensus σ} {command : Command} {s s' : σ} {result : Bytes}
    (h : execute g (Json.encode command) s = (.ok (.done result), s')) :
    ∃ response, g.write command s = (.applied response, s') ∧ result = Json.encode response := by
  rw [execute, Json.decode_encode] at h
  simp only at h
  split at h
  case h_1 response s'' hwrite =>
    cases h
    exact ⟨response, hwrite, rfl⟩
  case h_2 => cases h
  case h_3 fault s'' hwrite => exact absurd (Except.ok.inj (Prod.mk.inj h).1) (refusal_ne_done _ _ _)

theorem execute_applied {g : Consensus σ} {command : Command} {s s' : σ} {response : Response}
    (h : g.write command s = (.applied response, s')) :
    execute g (Json.encode command) s = (.ok (.done (Json.encode response)), s') := by
  simp only [execute, Json.decode_encode, h]

end Service

/-- A network in which an answer is what a node answered while the call was under way. Calls and answers
may be lost, and what has been sent may be written later. -/
structure Network.Serves (net : Network σ) (log : σ → List Command) : Prop where
  done {address : String} {command result : Bytes} {w w' : σ}
    (h : net.execute address command w = (.ok (.done result), w')) :
    ∃ (g : Consensus σ) (s s' : σ), g.Logs log ∧ Service.execute g command s = (.ok (.done result), s') ∧
      log s' <+: log w'

end Cluster

namespace Client

variable {σ : Type}

theorem attempts_ok {once : String → σ → Outcome × σ} {response : Response} {left n : Nat} {target : String}
    {c : Client} {w : σ} (h : (attempts once left n target c w).result = .ok response) :
    ∃ target' w', once target' w' = (.done response, (attempts once left n target c w).world) := by
  induction left generalizing n target c w with
  | zero =>
    rcases honce : once target w with ⟨outcome, w'⟩
    rw [attempts.eq_def] at h ⊢
    simp only [honce] at h ⊢
    cases outcome with
    | done found =>
      cases h
      exact ⟨target, w, honce⟩
    | fail fault => cases h
    | redirect address => cases h
    | backoff fault => cases h
  | succ left ih =>
    rcases honce : once target w with ⟨outcome, w'⟩
    rw [attempts.eq_def] at h ⊢
    simp only [honce] at h ⊢
    cases outcome with
    | done found =>
      cases h
      exact ⟨target, w, honce⟩
    | fail fault => cases h
    | redirect address => exact ih h
    | backoff fault => exact ih h

theorem attempts_done {once : String → σ → Outcome × σ} {response : Response} {target : String} {w w' : σ}
    (h : once target w = (.done response, w')) (left n : Nat) (c : Client) :
    attempts once left n target c w = ⟨.ok response, c, w', [target], []⟩ := by
  rw [attempts.eq_def]
  simp only [h]

theorem attempt_done {net : Network σ} {command : Command} {target : String} {w w' : σ} {response : Response}
    (h : attempt net command target w = (.done response, w')) : ∃ result,
      net.execute target (Json.encode command) w = (.ok (.done result), w') ∧
        Json.decode Response result = .ok response := by
  obtain ⟨fault, -, hfail, -⟩ | ⟨-, reply, hreply, hreading⟩ := attempt_eq_iff.mp h
  · cases hfail
  · cases hreading with
    | answered hd => exact ⟨_, hreply, hd⟩

theorem attempt_of_done {net : Network σ} {command : Command} {target : String} {w w' : σ} {response : Response}
    (ht : checkAddress target = .ok ())
    (h : net.execute target (Json.encode command) w = (.ok (.done (Json.encode response)), w')) :
    attempt net command target w = (.done response, w') :=
  attempt_eq_iff.mpr (.inr ⟨ht, _, h, .answered (Json.decode_encode response)⟩)

theorem execute_ok {net : Network σ} {log : σ → List Command} (hnet : net.Serves log) {c : Client}
    {command : Command} {w : σ} {response : Response} (h : (c.execute net command w).result = .ok response) :
    ∃ before, before ++ [command] <+: log (c.execute net command w).world ∧ Responds before command response := by
  obtain ⟨target, w₁, hattempt⟩ := attempts_ok h
  obtain ⟨result, hexecute, hd⟩ := attempt_done hattempt
  obtain ⟨g, s, s', hg, hservice, hlog⟩ := hnet.done hexecute
  obtain ⟨written, hwrite, rfl⟩ := Cluster.Service.execute_done hservice
  obtain ⟨before, hbefore, hresponds⟩ := hg.applied hwrite
  rw [Json.decode_encode, Except.ok.injEq] at hd
  rw [← hd]
  exact ⟨before, hbefore.trans hlog, hresponds⟩

theorem toVerdict_eq_success {response : Response} (h : response.toVerdict = .ok .success) :
    response = .committed := by
  cases response with
  | committed => rfl
  | conflict c => cases h
  | value record => cases h
  | size n => cases h
  | noop => cases h

theorem commit_success {net : Network σ} {log : σ → List Command} (hnet : net.Serves log) {c c' : Client}
    {claim : Claim} {w w' : σ} (h : c.commit net claim w = (.ok .success, c', w')) :
    ∃ before, before ++ [.claim claim] <+: log w' ∧ Responds before (.claim claim) .committed := by
  rw [commit, answer] at h
  obtain ⟨hresult, -, rfl⟩ : _ ∧ _ ∧ _ := by simpa only [Prod.mk.injEq] using h
  obtain ⟨response, hresponse, hverdict⟩ := bind_eq_ok_iff.mp hresult
  cases hv : response.toVerdict with
  | error fault =>
    rw [hv] at hverdict
    cases hverdict
  | ok verdict =>
    rw [hv] at hverdict
    cases hverdict
    rw [toVerdict_eq_success hv] at hresponse
    exact execute_ok hnet hresponse

end Client

namespace Repeats

theorem getElem?_commands {c : Claim} {items : List Item} {i : Nat} (h : items[i]? = some .attempt) :
    (commands c items)[i]? = some (.claim c) := by
  rw [commands, List.getElem?_map, h]
  rfl

/-- However often a claim comes to the log, it is as if it had come the first time only. When it has been
committed, each further attempt is answered with the records that it made; and what a client was told to
be committed is recorded after every log that goes on from there. -/
theorem retries_take_effect_once (claim : Claim) (items : List Item) :
    ∃ responses m kept m',
    Machine.empty.applyAll (commands claim items) = .ok (responses, m) ∧
    Machine.empty.applyAll (commands claim (keepFirst items)) = .ok (kept, m') ∧
    m.store.table = m'.store.table ∧ answersToOthers items responses = answersToOthers (keepFirst items) kept ∧
    (claim.inputs = [] → ∀ i : Nat, items[i]? = some .attempt → responses[i]? = some .committed) ∧
    (claim.inputs ≠ [] → ∀ i j : Nat, i < j → items[i]? = some .attempt → items[j]? = some .attempt →
      responses[i]? = some .committed → ∃ conflict, responses[j]? = some (.conflict conflict) ∧
        (∀ r, conflict.history.get? r = if r ∈ claim.inputs then some (claim.record r) else none) ∧
        conflict.history.size = claim.inputs.dedup.length ∧ conflict.onlyWith claim.tx = true) ∧
    ∀ (σ : Type) (net : Network σ) (log : σ → List Command), net.Serves log →
      ∀ (client client' : Client) (w w' : σ), client.commit net claim w = (.ok .success, client', w') →
        log w' <+: commands claim items → ∀ r ∈ claim.inputs, m.store.get r = .ok (some (claim.record r)) ∧
          (claim.inputs.length ≤ UInt32.size → (claim.record r).position.toNat = claim.inputs.idxOf r) := by
  refine ⟨_, _, _, _, Machine.applyAll_eq (m := Machine.empty) Store.holds_empty _,
    Machine.applyAll_eq (m := Machine.empty) Store.holds_empty _, ?_, ?_, ?_, ?_, ?_⟩
  · rw [commitAll_keepFirst]
  · exact (answers_keepFirst .empty claim items).symm
  · intro hc i hi
    rw [History.getElem?_replies, getElem?_commands hi, Option.map_some, History.reply_of_nil hc]
  · intro hc i j hij hi hj hr
    exact ⟨_, History.reply_again hij (getElem?_commands hi) (getElem?_commands hj) hr hc, claim.get?_records,
      claim.size_records, Claim.onlyWith_records hc⟩
  · intro σ net log hnet client client' w w' hcommit hlater r hr
    -- the answer was given at a place of the log, and what is recorded there stays
    obtain ⟨before, hbefore, hresponds⟩ := Client.commit_success hnet hcommit
    obtain ⟨rest, hrest⟩ := hbefore.trans hlater
    have hrecorded := History.recorded_of_committed (responds_iff.mp hresponds) rest
    rw [List.append_assoc, List.singleton_append] at hrest
    rw [hrest] at hrecorded
    have hm : (Machine.empty.holding (.commitAll .empty (commands claim items))).store.Holds _ := rfl
    rw [hm.get, hrecorded r hr]
    exact ⟨rfl, fun hc => Ledger.position_record hc hr⟩

structure World where
  log : List Command
  lost : Bool

def leader : Consensus World where
  write command w := (.applied ((History.commitAll .empty w.log).reply command), { w with log := w.log ++ [command] })
  query _ _ := .error .needsResync
  addLearner _ _ w := (.waiting, w)
  changeVoters _ w := (.waiting, w)
  view _ := ⟨.leader, none, 0, none, none, none, default⟩

def lossy : Network World :=
  { Network.isolated World with
    execute := fun _ command w =>
      if w.lost then Cluster.Service.execute leader command w else (.error .unreachable, { w with lost := true }) }

theorem execute_lossy (target : String) (command : Bytes) (log : List Command) :
    lossy.execute target command ⟨log, true⟩ = Cluster.Service.execute leader command ⟨log, true⟩ :=
  rfl

theorem leader_logs : leader.Logs World.log where
  applied {command w w' response} h := by
    cases h
    exact ⟨w.log, List.prefix_refl _, responds_iff.mpr rfl⟩

theorem lossy_serves : lossy.Serves World.log where
  done {address command result w w'} h := by
    rw [lossy] at h
    simp only at h
    split at h
    · exact ⟨leader, w, w', leader_logs, h, List.prefix_refl _⟩
    · cases h

def client : Client :=
  ⟨"a:1", ["b:1"], 0, none, .standard⟩

def late : List Item :=
  [.attempt, .other (.claim (Machine.claimBy "b")), .attempt]

theorem commit_lossy : client.commit lossy (Machine.claimBy "a") ⟨[], false⟩ =
    (.ok .success, client.rotate, ⟨[.claim (Machine.claimBy "a")], true⟩) := by
  have hfirst : Client.attempt lossy (.claim (Machine.claimBy "a")) "a:1" ⟨[], false⟩ =
      (.backoff (.network .unreachable), ⟨[], true⟩) := by
    have haddress : Client.checkAddress "a:1" = .ok () := by decide +kernel
    rw [Client.attempt, haddress]
    rfl
  have hsecond : Client.attempt lossy (.claim (Machine.claimBy "a")) "b:1" ⟨[], true⟩ =
      (.done .committed, ⟨[.claim (Machine.claimBy "a")], true⟩) := by
    have haddress : Client.checkAddress "b:1" = .ok () := by decide +kernel
    have hwrite : leader.write (.claim (Machine.claimBy "a")) ⟨[], true⟩ =
        (.applied .committed, ⟨[.claim (Machine.claimBy "a")], true⟩) := by
      have hreply : (History.commitAll .empty []).reply (.claim (Machine.claimBy "a")) = .committed := by
        decide +kernel
      simp only [leader, hreply, List.nil_append]
    have hsend := (execute_lossy "b:1" _ []).trans (Cluster.Service.execute_applied hwrite)
    exact Client.attempt_of_done haddress hsend
  rw [Client.commit, Client.execute]
  change Client.answer _ (Client.attempts _ 7 1 "a:1" client _) = _
  rw [Client.attempts, hfirst]
  change Client.answer _ (((Client.attempts _ 6 2 "b:1" client.rotate _).addWait _).addTarget _) = _
  rw [Client.attempts, hsecond]
  rfl

theorem late_attempt_changes_nothing : ∃ client' w' responses m,
    client.commit lossy (Machine.claimBy "a") ⟨[], false⟩ = (.ok .success, client', w') ∧
    w'.log <+: commands (Machine.claimBy "a") late ∧
    Machine.empty.applyAll (commands (Machine.claimBy "a") late) = .ok (responses, m) ∧
    responses[0]? = some .committed ∧
    (∃ conflict, responses[2]? = some (.conflict conflict) ∧ conflict.onlyWith (Machine.claimBy "a").tx = true) ∧
    m.store.get default = .ok (some ((Machine.claimBy "a").record default)) := by
  obtain ⟨responses, m, kept, m', hrun, -, -, -, -, hagain, hclient⟩ :=
    retries_take_effect_once (Machine.claimBy "a") late
  have hresponses := hrun
  rw [Machine.applyAll_eq (m := Machine.empty) Store.holds_empty, Except.ok.injEq, Prod.mk.injEq] at hresponses
  have hfirst : responses[0]? = some .committed := by
    rw [← hresponses.1]
    decide +kernel
  have hprefix : [Command.claim (Machine.claimBy "a")] <+: commands (Machine.claimBy "a") late := ⟨_, rfl⟩
  obtain ⟨conflict, hconflict, -, -, honly⟩ := hagain nofun 0 2 (by decide) rfl rfl hfirst
  have hstore := hclient World lossy World.log lossy_serves _ _ _ _ commit_lossy hprefix default List.mem_cons_self
  exact ⟨_, _, responses, m, commit_lossy, hprefix, hrun, hfirst, ⟨conflict, hconflict, honly⟩, hstore.1⟩

end Repeats

end Uniqueness
