import Uniqueness.Cluster.Provider
import Uniqueness.Proofs.Retries
import Uniqueness.Proofs.SoleVoters

namespace Uniqueness

open Cluster (Consensus Forwarder Network Node ReadMode)
open Cluster.Node (Serves Stays)

namespace Calls

inductive Request where
  | commit (c : Claim)
  | consumer (key : StateRef)
  | count
  deriving DecidableEq

inductive Answer where
  | verdict (v : Verdict)
  | record (found : Option Consumption)
  | number (n : UInt64)
  deriving DecidableEq

namespace Request

def command : Request → Command
  | .commit c => .claim c
  | .consumer key => .get key
  | .count => .size

def read : Request → Response → Except Failure Answer
  | .commit _, response => .verdict <$> response.toVerdict
  | .consumer _, response => .record <$> response.toValue
  | .count, response => .number <$> response.toSize

end Request

structure Seen (ε : Type) where
  answer : Except ε Answer
  contents : SortedMap Bytes Bytes

def askMachine (m : Machine) : Request → Except Failure Answer × Machine
  | .commit c => match m.commit c with
    | .ok (verdict, m) => (.ok (.verdict verdict), m)
    | .error failure => (.error failure, m)
  | .consumer key => (.record <$> m.consumer key, m)
  | .count => (.number <$> m.count, m)

def serveAll (m : Machine) : List Request → List (Seen Failure)
  | [] => []
  | r :: rest =>
    let (answer, m) := askMachine m r
    ⟨answer, m.store.table⟩ :: serveAll m rest

abbrev Access (κ σ ε : Type) :=
  Request → κ → σ → Except ε Answer × κ × σ

variable {σ κ ε : Type}

def ofProvider {ω : Type} (g : Consensus σ) (net : Network ω) (mode : ReadMode) : Access (Forwarder × ω) σ Failure
  | .commit c, (f, w), n =>
    let (result, f, n, w) := Cluster.Provider.commit g net f c n w
    (.verdict <$> result, (f, w), n)
  | .consumer key, (f, w), n =>
    let (result, f, n, w) := Cluster.Provider.consumer g net mode f key n w
    (.record <$> result, (f, w), n)
  | .count, (f, w), n =>
    let (result, f, n, w) := Cluster.Provider.count g net mode f n w
    (.number <$> result, (f, w), n)

def ofClient (g : Consensus σ) (node : UInt64) : Access Client σ Cluster.Fault
  | .commit c, client, n =>
    let (result, client, n) := client.commit (Cluster.Service.network g node) c n
    (.verdict <$> result, client, n)
  | .consumer key, client, n =>
    let (result, client, n) := client.consumer (Cluster.Service.network g node) key n
    (.record <$> result, client, n)
  | .count, client, n =>
    let (result, client, n) := client.count (Cluster.Service.network g node) n
    (.number <$> result, client, n)

/-- Requests one after another, and what is seen of each. In between there may be anything on the node that is no
command: entries, batches, snapshots, purges, and openings. -/
inductive Course (g : Consensus σ) (site : σ → Site) (access : Access κ σ ε) :
    List Request → κ → σ → List (Seen ε) → Prop
  | nil (k : κ) (n : σ) : Course g site access [] k n []
  | request {r : Request} {requests : List Request} {k k' : κ} {n n' : σ} {answer : Except ε Answer}
    {seen : List (Seen ε)} (hg : g.Orderly site n) (ha : access r k n = (answer, k', n'))
    (h : Course g site access requests k' n' seen) :
    Course g site access (r :: requests) k n (⟨answer, (site n').replica.machine.store.table⟩ :: seen)
  | meanwhile {requests : List Request} {k : κ} {n n' : σ} {deeds : List Site.Deed} {seen : List (Seen ε)}
    (hrun : Site.Run (site n) deeds (site n')) (hquiet : Site.Quiet deeds)
    (h : Course g site access requests k n' seen) : Course g site access requests k n seen

def answerOf (h : History) (r : Request) : Answer :=
  match r with
  | .commit c => .verdict (if h.Vacant c then .success else .conflict ⟨h.filter fun r => r ∈ c.inputs⟩)
  | .consumer key => .record (h.get? key)
  | .count => .number (UInt64.ofNat h.size)

def transcript (h : History) : List Request → List (Answer × SortedMap Bytes Bytes)
  | [] => []
  | r :: rest => (answerOf h r, Store.tableOf (h.commit r.command)) :: transcript (h.commit r.command) rest

def Seen.done {ε : Type} (seen : Answer × SortedMap Bytes Bytes) : Seen ε :=
  ⟨.ok seen.1, seen.2⟩

theorem map_answer_done (answers : List (Answer × SortedMap Bytes Bytes)) :
    (answers.map (@Seen.done ε)).map Seen.answer = (answers.map Prod.fst).map .ok := by
  rw [List.map_map, List.map_map]
  rfl

variable {h : History} {m : Machine}

theorem read_reply (h : History) (r : Request) : r.read (h.reply r.command) = .ok (answerOf h r) := by
  cases r with
  | commit c =>
    rw [Request.read, Request.command, History.reply, answerOf]
    split
    · rfl
    · rfl
  | consumer key => rfl
  | count => rfl

theorem askMachine_eq (hm : m.store.Holds h) (hsync : m.needsResync = false) (r : Request) :
    askMachine m r = (.ok (answerOf h r), m.holding (h.commit r.command)) := by
  cases r with
  | commit c =>
    obtain ⟨verdict, hverdict, hanswer⟩ := map_eq_ok_iff.mp (read_reply h (.commit c))
    have hcommit : m.commit c = .ok (verdict, m.holding (h.commit (.claim c))) := by
      rw [Machine.commit, Machine.apply_eq hm, mapError_ok, ok_bind]
      exact congrArg (· >>= _) hverdict
    rw [askMachine, hcommit, ← hanswer]
    rfl
  | consumer key =>
    rw [askMachine, Machine.consumer, Machine.query_eq hm hsync rfl]
    exact Prod.ext rfl (Machine.holding_self hm).symm
  | count =>
    rw [askMachine, Machine.count, Machine.query_eq hm hsync rfl]
    exact Prod.ext rfl (Machine.holding_self hm).symm

theorem serveAll_eq (hm : m.store.Holds h) (hsync : m.needsResync = false) (requests : List Request) :
    serveAll m requests = (transcript h requests).map Seen.done := by
  induction requests generalizing m h with
  | nil => rfl
  | cons r rest ih =>
    have hrest := ih (m := m.holding (h.commit r.command)) rfl hsync
    rw [serveAll, askMachine_eq hm hsync]
    simp only [hrest]
    rfl

theorem commit_of_isReadOnly {command : Command} (hread : command.isReadOnly = true) : h.commit command = h := by
  cases command with
  | claim c => cases hread
  | get key => rfl
  | size => rfl

section

variable {g : Consensus σ} {site : σ → Site} {n : σ}

def Handles (g : Consensus σ) (command : Command) (n n' : σ) : Prop :=
  n' = (g.write command n).2 ∨ command.isReadOnly = true ∧ n' = n

theorem Handles.current {command : Command} {n' : σ} (hn' : Handles g command n n') (hg : g.Orderly site n)
    (hn : (site n).Current h) : (site n').Current (h.commit command) := by
  obtain rfl | ⟨hread, rfl⟩ := hn'
  · obtain ⟨n', hwrite, hcurrent⟩ := hg.write_eq hn command
    rwa [hwrite]
  · rwa [commit_of_isReadOnly hread]

def Faithful (g : Consensus σ) (site : σ → Site) (Ready : κ → Prop) (access : Access κ σ ε) : Prop :=
  ∀ h n k r, g.Orderly site n → (site n).Current h → Ready k → ∃ k' n', access r k n = (.ok (answerOf h r), k', n') ∧
    Ready k' ∧ Handles g r.command n n'

section

variable {ω : Type}

theorem execute_eq (hg : g.Orderly site n) (hn : (site n).Current h) (net : Network ω) (f : Forwarder)
    (command : Command) (w : ω) :
    ∃ n', f.execute g net command n w = (.ok (h.reply command), f, n', w) ∧ Handles g command n n' := by
  obtain ⟨n', hwrite, -⟩ := hg.write_eq hn command
  refine ⟨n', ?_, .inl (congrArg Prod.snd hwrite).symm⟩
  simp only [Forwarder.execute, hwrite]

theorem readMode_eq (hg : g.Orderly site n) (hn : (site n).Current h) (net : Network ω) (mode : ReadMode)
    (f : Forwarder) (command : Command) (hread : command.isReadOnly = true) (w : ω) :
    ∃ n', Cluster.Provider.read g net mode f command n w = (.ok (h.reply command), f, n', w) ∧
      Handles g command n n' := by
  cases mode with
  | log => exact execute_eq hg hn net f command w
  | applied =>
    -- all commands have been applied, so a look-up outside the log is not behind
    refine ⟨n, ?_, .inr ⟨hread, rfl⟩⟩
    rw [Cluster.Provider.read, hg.query_eq hn hread, mapError_ok]

theorem faithful_ofProvider (g : Consensus σ) (site : σ → Site) (net : Network ω) (mode : ReadMode) :
    Faithful g site (fun _ => True) (ofProvider g net mode) := by
  rintro h n ⟨f, w⟩ r hg hn -
  cases r with
  | commit c =>
    obtain ⟨n', hexecute, hn'⟩ := execute_eq hg hn net f (.claim c) w
    refine ⟨(f, w), n', ?_, trivial, hn'⟩
    rw [ofProvider, Cluster.Provider.commit, hexecute]
    exact congrArg (·, (f, w), n') (read_reply h (.commit c))
  | consumer key =>
    obtain ⟨n', hread, hn'⟩ := readMode_eq hg hn net mode f (.get key) rfl w
    refine ⟨(f, w), n', ?_, trivial, hn'⟩
    rw [ofProvider, Cluster.Provider.consumer, hread]
    rfl
  | count =>
    obtain ⟨n', hread, hn'⟩ := readMode_eq hg hn net mode f .size rfl w
    refine ⟨(f, w), n', ?_, trivial, hn'⟩
    rw [ofProvider, Cluster.Provider.count, hread]
    rfl

end

section

open Client (checkAddress)

theorem client_execute (hg : g.Orderly site n) (hn : (site n).Current h) {client : Client}
    (haddress : checkAddress client.target = .ok ()) (command : Command) (node : UInt64) :
    ∃ n', Handles g command n n' ∧ client.execute (Cluster.Service.network g node) command n =
      ⟨.ok (h.reply command), client, n', [client.target], []⟩ := by
  obtain ⟨n', hwrite, -⟩ := hg.write_eq hn command
  have hattempt : Client.attempt (Cluster.Service.network g node) command client.target n =
      (.done (h.reply command), n') :=
    Client.attempt_of_done haddress (Cluster.Service.execute_applied hwrite)
  exact ⟨n', .inl (congrArg Prod.snd hwrite).symm, Client.attempts_done hattempt _ _ _⟩

theorem faithful_ofClient (g : Consensus σ) (site : σ → Site) (node : UInt64) :
    Faithful g site (fun client => checkAddress client.target = .ok ()) (ofClient g node) := by
  intro h n client r hg hn haddress
  cases r with
  | commit c =>
    obtain ⟨n', hn', hexecute⟩ := client_execute hg hn haddress (.claim c) node
    obtain ⟨verdict, hverdict, hanswer⟩ := map_eq_ok_iff.mp (read_reply h (.commit c))
    refine ⟨client, n', ?_, haddress, hn'⟩
    rw [Request.command] at hverdict
    rw [ofClient, Client.commit, hexecute, Client.answer, ok_bind, hverdict, mapError_ok, ← hanswer]
    rfl
  | consumer key =>
    obtain ⟨n', hn', hexecute⟩ := client_execute hg hn haddress (.get key) node
    refine ⟨client, n', ?_, haddress, hn'⟩
    rw [ofClient, Client.consumer, hexecute]
    rfl
  | count =>
    obtain ⟨n', hn', hexecute⟩ := client_execute hg hn haddress .size node
    refine ⟨client, n', ?_, haddress, hn'⟩
    rw [ofClient, Client.count, hexecute]
    rfl

end

theorem course_eq {Ready : κ → Prop} {access : Access κ σ ε} (haccess : Faithful g site Ready access)
    {requests : List Request} {k : κ} {seen : List (Seen ε)} (hcourse : Course g site access requests k n seen)
    (hn : (site n).Current h) (hk : Ready k) : seen = (transcript h requests).map Seen.done := by
  -- a request changes the records as its command does, and what happens in between leaves them
  induction hcourse generalizing h with
  | nil => rfl
  | @request r requests k k' n n' answer seen hg ha hcourse ih =>
    obtain ⟨k'', n'', ha', hk', hn'⟩ := haccess h n k r hg hn hk
    rw [ha] at ha'
    cases ha'
    have hcurrent := hn'.current hg hn
    have hcontents : (site n').replica.machine.store.table = Store.tableOf (h.commit r.command) := by
      obtain ⟨_, -, hholds⟩ := hcurrent
      exact hholds.stands.holds
    rw [ih hcurrent hk', hcontents]
    rfl
  | meanwhile hrun hquiet _ ih => exact ih (hn.quiet hrun hquiet) hk

end

inductive Event (node : UInt64) where
  | blank
  | membership (m : Log.Membership) (alone : m.LoneVoter node)
  | snapshot
  | purge (id : Log.Id)
  | restart

def written {α : Type} : Cluster.Written α × Node → Option Node
  | (.applied _, n) => some n
  | _ => none

def Event.run {node : UInt64} (n : Node) : Event node → Option Node
  | .blank => written (n.writePayload .blank)
  | .membership m _ => written (n.writeMembership m)
  | .snapshot => some n.buildSnapshot.2
  | .purge id => some (n.purge id)
  | .restart => n.restart.toOption

inductive Turn (node : UInt64) where
  | request (r : Request)
  | event (e : Event node)

def Turn.requests {node : UInt64} : Turn node → List Request
  | .request r => [r]
  | .event _ => []

def requestsOf {node : UInt64} (turns : List (Turn node)) : List Request :=
  turns.flatMap Turn.requests

def attend {node : UInt64} (access : Access κ Node ε) : List (Turn node) → κ → Node → Option (List (Seen ε))
  | [], _, _ => some []
  | .request r :: turns, k, n =>
    let (answer, k, n) := access r k n
    (attend access turns k n).map (⟨answer, n.replica.machine.store.table⟩ :: ·)
  | .event e :: turns, k, n => match e.run n with
    | some n => attend access turns k n
    | none => none

section

variable {s : Settings} {n : Node}

theorem event_run (hvalid : Node.check s = .ok ()) (hbatch : s.timing.batch ≠ 0) (hn : Serves s h n)
    (hroom : Log.countTo n.last < UInt64.size) (e : Event s.node) :
    ∃ n' deeds, e.run n = some n' ∧ Serves s h n' ∧ Log.countTo n'.last ≤ Log.countTo n.last + 1 ∧
      Site.Run n.site deeds n'.site ∧ Site.Quiet deeds := by
  have hstays {n' : Node} (h' : Stays s h n n') : ∃ deeds, Serves s h n' ∧
      Log.countTo n'.last ≤ Log.countTo n.last + 1 ∧ Site.Run n.site deeds n'.site ∧ Site.Quiet deeds := by
    obtain ⟨deeds, hrun, hquiet⟩ := h'.moves.quiet nofun
    exact ⟨deeds, h'.serves, h'.last ▸ Nat.le_succ _, hrun, hquiet⟩
  cases e with
  | blank =>
    obtain ⟨id, n', hwrite, hn', hcount, hmoves⟩ := hn.writePayload hroom .blank nofun
    obtain ⟨deeds, hrun, hquiet⟩ := hmoves.quiet (List.forall_mem_singleton.mpr rfl)
    refine ⟨n', deeds, ?_, hn', hcount.le, hrun, hquiet⟩
    rw [Event.run, hwrite, written]
  | membership m alone =>
    obtain ⟨id, n', hwrite, hn', hcount, hmoves⟩ :=
      hn.writePayload hroom (.membership m) fun _ hm => Log.Payload.membership.inj hm ▸ alone
    obtain ⟨deeds, hrun, hquiet⟩ := hmoves.quiet (List.forall_mem_singleton.mpr rfl)
    refine ⟨n', deeds, ?_, hn', hcount.le, hrun, hquiet⟩
    rw [Event.run, Node.writeMembership, hwrite]
    rfl
  | snapshot =>
    obtain ⟨deeds, hn'⟩ := hstays hn.buildSnapshot
    exact ⟨_, deeds, rfl, hn'⟩
  | purge id =>
    obtain ⟨deeds, hn'⟩ := hstays (hn.purge id)
    exact ⟨_, deeds, rfl, hn'⟩
  | restart =>
    obtain ⟨n', hrestart, hstays'⟩ := hn.restart hvalid hbatch
    obtain ⟨deeds, hn'⟩ := hstays hstays'
    refine ⟨n', deeds, ?_, hn'⟩
    rw [Event.run, hrestart]
    rfl

theorem handles_serves (hn : Serves s h n) (hroom : Log.countTo n.last < UInt64.size) {command : Command} {n' : Node}
    (hn' : Handles Node.consensus command n n') :
    Serves s (h.commit command) n' ∧ Log.countTo n'.last ≤ Log.countTo n.last + 1 := by
  obtain rfl | ⟨hread, rfl⟩ := hn'
  · obtain ⟨id, n', hwrite, hserves, hcount, -⟩ := hn.writePayload hroom (.command command) nofun
    have hconsensus : Node.consensus.write command n = (.applied (h.replyTo ⟨id, .command command⟩), n') := hwrite
    rw [hconsensus]
    exact ⟨hserves, hcount.le⟩
  · rw [commit_of_isReadOnly hread]
    exact ⟨hn, Nat.le_succ _⟩

theorem attend_course {Ready : κ → Prop} {access : Access κ Node ε} (hvalid : Node.check s = .ok ())
    (hbatch : s.timing.batch ≠ 0) (haccess : Faithful Node.consensus Node.site Ready access) (hn : Serves s h n)
    {k : κ} (hk : Ready k) (turns : List (Turn s.node)) (hroom : Log.countTo n.last + turns.length < UInt64.size) :
    ∃ seen, attend access turns k n = some seen ∧
      Course Node.consensus Node.site access (requestsOf turns) k n seen := by
  induction turns generalizing n k h with
  | nil => exact ⟨[], rfl, .nil k n⟩
  | cons turn turns ih =>
    rw [List.length_cons] at hroom
    have hfirst : Log.countTo n.last < UInt64.size := by omega
    cases turn with
    | request r =>
      have horderly := hn.orderly hfirst
      obtain ⟨k', n', ha, hk', hhandles⟩ := haccess h n k r horderly hn.current hk
      obtain ⟨hn', hcount⟩ := handles_serves hn hfirst hhandles
      obtain ⟨seen, hseen, hcourse⟩ := ih hn' hk' (by omega)
      refine ⟨_, ?_, .request horderly ha hcourse⟩
      rw [attend, ha]
      simp only [hseen, Option.map_some]
      rfl
    | event e =>
      obtain ⟨n', deeds, he, hn', hcount, hrun, hquiet⟩ := event_run hvalid hbatch hn hfirst e
      obtain ⟨seen, hseen, hcourse⟩ := ih hn' hk (by omega)
      refine ⟨seen, ?_, .meanwhile hrun hquiet hcourse⟩
      rw [attend, he]
      exact hseen

end

/-- To the same requests a machine, the service on a node that is the only voter of its cluster, with either way of
looking up, and a client of that node all answer the same, and none fails. They hold the same contents after each
request. It makes no difference what else is appended and in which batches it is applied, what snapshots are built and
what is purged, and how often the node starts again. -/
theorem providers_agree (g : Consensus σ) (site : σ → Site) {n : σ} {folder : Archive.Folder} {deeds : List Site.Deed}
    (hstart : Site.Run (.fresh folder) deeds (site n)) (hquiet : Site.Quiet deeds) (requests : List Request) :
    ∃ answers : List (Answer × SortedMap Bytes Bytes), serveAll .empty requests = answers.map Seen.done ∧
      (∀ (ω : Type) (net : Network ω) (mode : ReadMode) (f : Forwarder) (w : ω) (seen : List (Seen Failure)),
        Course g site (ofProvider g net mode) requests (f, w) n seen → seen = answers.map Seen.done) ∧
      ∀ (node : UInt64) (client : Client) (seen : List (Seen Cluster.Fault)),
        Client.checkAddress client.target = .ok () →
          Course g site (ofClient g node) requests client n seen → seen = answers.map Seen.done := by
  have hn : (site n).Current .empty := (Site.Current.fresh folder).quiet hstart hquiet
  refine ⟨transcript .empty requests, serveAll_eq Store.holds_empty rfl requests, ?_, ?_⟩
  · intro ω net mode f w seen hcourse
    exact course_eq (faithful_ofProvider g site net mode) hcourse hn trivial
  · intro node client seen haddress hcourse
    exact course_eq (faithful_ofClient g site node) hcourse hn haddress

def frugal : Settings :=
  { Settings.standard with compaction := ⟨2, 1⟩ }

def claims : List Request :=
  [.commit (Machine.claimBy "a"), .commit (Machine.claimBy "b"), .consumer default, .count]

def disturbed : List (Turn frugal.node) :=
  [.event (.membership ⟨[.ofList [1]], .ofList [(1, "127.0.0.1:5000"), (2, "127.0.0.1:5001")]⟩ (.alone 1 _)),
    .request (.commit (Machine.claimBy "a")), .event .restart, .event .blank,
    .request (.commit (Machine.claimBy "b")), .event .snapshot, .request (.consumer default),
    .event (.purge ⟨⟨1, 1⟩, 4⟩), .request .count, .event .restart]

def caller : Client :=
  ⟨"a:1", [], 0, none, .standard⟩

def toClaims : List Answer :=
  [.verdict .success, .verdict (.conflict ⟨.ofList [(default, (Machine.claimBy "a").record default)]⟩),
    .record (some ((Machine.claimBy "a").record default)), .number 1]

theorem second_claim_is_refused_alike : ∃ n, Node.found frugal = .ok n ∧
    (serveAll .empty claims).map Seen.answer = toClaims.map .ok ∧
    (∀ mode, (attend (ofProvider Node.consensus (.isolated Unit) mode) disturbed (.ofSettings frugal, ()) n).map
      (List.map Seen.answer) = some (toClaims.map .ok)) ∧
    (attend (ofClient Node.consensus frugal.node) disturbed caller n).map
      (List.map Seen.answer) = some (toClaims.map .ok) := by
  have hvalid : Node.check frugal = .ok () := by decide +kernel
  have hbatch : frugal.timing.batch ≠ 0 := by decide
  have haddress : Client.checkAddress caller.target = .ok () := by decide +kernel
  obtain ⟨n, deeds, hfound, hn, hcount, hstart, hquiet⟩ := Cluster.Node.found_serves hvalid hbatch
  have hroom : Log.countTo n.last + disturbed.length < UInt64.size := by
    rw [hcount]
    decide
  obtain ⟨answers, hmachine, hprovider, hclient⟩ :=
    providers_agree Node.consensus Node.site hstart hquiet claims
  have hanswers : answers.map Prod.fst = toClaims := by
    have hseen := congrArg (List.map Seen.answer) (hmachine.symm.trans (serveAll_eq Store.holds_empty rfl claims))
    rw [map_answer_done, map_answer_done, List.map_inj_right fun _ _ => Except.ok.inj] at hseen
    rw [hseen]
    decide +kernel
  refine ⟨n, hfound, ?_, fun mode => ?_, ?_⟩
  · rw [hmachine, map_answer_done, hanswers]
  · obtain ⟨seen, hseen, hcourse⟩ := attend_course hvalid hbatch
      (faithful_ofProvider Node.consensus Node.site (.isolated Unit) mode) hn trivial disturbed hroom
    rw [hseen, hprovider Unit _ mode _ _ _ hcourse, Option.map_some, map_answer_done, hanswers]
  · obtain ⟨seen, hseen, hcourse⟩ := attend_course hvalid hbatch
      (faithful_ofClient Node.consensus Node.site frugal.node) hn haddress disturbed hroom
    rw [hseen, hclient _ _ _ haddress hcourse, Option.map_some, map_answer_done, hanswers]

end Calls

end Uniqueness
