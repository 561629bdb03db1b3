import Uniqueness.Cluster.Node
import Uniqueness.Proofs.AppliedBatches

namespace Uniqueness

namespace Log

def Membership.LoneVoter (node : UInt64) (m : Membership) : Prop :=
  m.configs ≠ [] ∧ ∀ voters ∈ m.configs, voters = .ofList [node]

namespace Membership.LoneVoter

variable {node : UInt64} {m : Membership}

theorem alone (node : UInt64) (nodes : Nodes) : Membership.LoneVoter node ⟨[.ofList [node]], nodes⟩ :=
  ⟨List.cons_ne_nil _ _, fun _ hvoters => List.mem_singleton.mp hvoters⟩

theorem contains (h : m.LoneVoter node) : m.voters.contains node = true := by
  obtain ⟨voters, hvoters⟩ := List.exists_mem_of_ne_nil _ h.1
  rw [Membership.voters, SortedSet.contains_ofList, List.mem_flatMap]
  refine ⟨voters, hvoters, ?_⟩
  rw [h.2 voters hvoters]
  exact List.mem_singleton_self node

theorem agrees (h : m.LoneVoter node) : m.agrees (.ofList [node]) = true := by
  rw [Membership.agrees, List.all_eq_true]
  intro voters hvoters
  have hself : SortedMap.contains (SortedSet.ofList [node]) node = true :=
    (SortedSet.contains_ofList _ _).mpr (List.mem_singleton_self node)
  have hentries : (SortedSet.ofList [node]).entries = [(node, ())] := rfl
  rw [h.2 voters hvoters, decide_eq_true_eq]
  simp only [SortedMap.size, SortedMap.filter, hentries, List.filter_cons, List.filter_nil, hself, if_true,
    List.length_singleton]
  omega

end Membership.LoneVoter

namespace Stretch

variable {t : Stretch}

theorem Contiguous.end_eq (h : t.Contiguous) : t.start + t.entries.length = countTo t.last :=
  h.next_eq.symm

theorem allows_append {e : Entry} (h : e.id.index.toNat = countTo t.last) : t.Allows (.append [e]) :=
  consecutive_cons.mpr ⟨h, consecutive_nil _⟩

theorem last_append (t : Stretch) (e : Entry) : (t.perform (.append [e])).last = some e.id := by
  rw [last, perform, List.getLast?_concat]
  rfl

theorem Contiguous.last_purge (h : t.Contiguous) {e : Entry} (he : e ∈ t.entries) :
    (t.perform (.purge e.id)).last = t.last := by
  obtain ⟨front, back, hes⟩ := List.append_of_mem he
  rw [h.perform_purge hes, last, last, hes, List.getLast?_append, List.getLast?_cons]
  cases back.getLast? with
  | none => rfl
  | some f => rfl

end Stretch

end Log

namespace Cluster.Node

open Log (Entry Membership Stretch Vote)
open Replica (Stands)
open Site (Run)

def site (n : Node) : Site :=
  ⟨n.journal, n.replica⟩

structure Leads (s : Settings) (h : History) (n : Node) : Prop where
  settings : n.settings = s
  replica : Stands h n.replica.applied n.replica
  synced : n.replica.machine.needsResync = false
  running : n.isStopped = false
  vote : ∃ vote, n.vote = some vote ∧ n.journal.vote = some (Json.encode vote) ∧ vote.committed = true ∧
    vote.leader.node = s.node
  stored : ∃ t, n.journal.Stores t ∧ t.Contiguous ∧ t.last = n.last
  level : n.replica.applied.last = n.last

structure Serves (s : Settings) (h : History) (n : Node) : Prop extends Leads s h n where
  membership : n.membership.LoneVoter s.node
  applied : n.replica.applied.membership.membership.LoneVoter s.node
  committed : n.journal.committed = some (Json.encode n.replica.applied.last)

def Moves (n : Node) (done : List (Entry × Response)) (n' : Node) : Prop :=
  ∃ deeds, Run n.site deeds n'.site ∧ Site.appended deeds = done.map Prod.fst ∧
    Site.applied deeds = done.map Prod.fst ∧ Site.answers deeds = done

variable {s : Settings} {h : History} {n n' n'' : Node}

theorem Moves.refl (n : Node) : Moves n [] n :=
  ⟨[], .nil _, rfl, rfl, rfl⟩

theorem Moves.single {d : Site.Deed} (hd : n.site.Does d n'.site) (happended : d.appended = [])
    (happlied : d.applied = []) (hanswers : d.answers = []) : Moves n [] n' := by
  refine ⟨[d], .cons hd (.nil _), ?_, ?_, ?_⟩
  · rw [Site.appended, List.flatMap_singleton, happended, List.map_nil]
  · rw [Site.applied, List.flatMap_singleton, happlied, List.map_nil]
  · rw [Site.answers, List.flatMap_singleton, hanswers]

theorem Moves.trans {done done' : List (Entry × Response)} (h : Moves n done n') (h' : Moves n' done' n'') :
    Moves n (done ++ done') n'' := by
  obtain ⟨deeds, hrun, happended, happlied, hanswers⟩ := h
  obtain ⟨deeds', hrun', happended', happlied', hanswers'⟩ := h'
  refine ⟨deeds ++ deeds', hrun.append hrun', ?_, ?_, ?_⟩
  · rw [Site.appended_append, happended, happended', List.map_append]
  · rw [Site.applied_append, happlied, happlied', List.map_append]
  · rw [Site.answers_append, hanswers, hanswers']

theorem Moves.quiet {done : List (Entry × Response)} (h : Moves n done n')
    (hdone : ∀ e ∈ done.map Prod.fst, e.isCommand = false) : ∃ deeds, Run n.site deeds n'.site ∧ Site.Quiet deeds := by
  obtain ⟨deeds, hrun, happended, -, -⟩ := h
  refine ⟨deeds, hrun, ?_⟩
  rwa [Site.Quiet, happended]

structure Stays (s : Settings) (h : History) (n n' : Node) : Prop where
  serves : Serves s h n'
  last : n'.last = n.last
  moves : Moves n [] n'

theorem Stays.trans (h₁ : Stays s h n n') (h₂ : Stays s h n' n'') : Stays s h n n'' :=
  ⟨h₂.serves, h₂.last.trans h₁.last, h₁.moves.trans h₂.moves⟩

theorem Serves.purge (hn : Serves s h n) (id : Log.Id) : Stays s h n (n.purge id) := by
  have hself : Stays s h n n := ⟨hn, rfl, .refl n⟩
  rw [Node.purge]
  split
  case h_1 => exact hself
  case h_2 index _ =>
    split
    case h_2 => exact hself
    case h_1 e hread =>
      obtain ⟨t, hstored, hlog, hlast⟩ := hn.stored
      have hfilter := hread
      rw [hstored.read, Except.ok.injEq] at hfilter
      obtain ⟨he, hrange⟩ := List.mem_filter.mp (hfilter ▸ List.mem_cons_self : e ∈ t.entries.filter _)
      obtain ⟨hlow, hhigh⟩ := Bool.and_eq_true_iff.mp hrange
      obtain rfl : index = e.id.index := UInt64.le_antisymm (of_decide_eq_true hlow) (of_decide_eq_true hhigh)
      have hallowed : t.Allows (.purge e.id) := .inl ⟨e, he, rfl⟩
      have happlied : e.id.index.toNat < Log.countTo n.replica.applied.last := by
        rw [hn.level, ← hlast, ← hlog.end_eq]
        exact (hlog.bounds he).2
      have hdoes : n.site.Does (.call (.purge e.id)) (Node.site { n with journal := n.journal.purge e.id }) :=
        .call ⟨happlied, e, rfl, hread⟩
      refine ⟨?_, rfl, .single hdoes rfl rfl rfl⟩
      exact { hn with
        stored := ⟨_, hstored.perform hlog hallowed, hlog.perform hallowed, (hlog.last_purge he).trans hlast⟩ }

theorem Serves.setArchive (hn : Serves s h n) {result : Except Storage.Fault (Archive.Meta × Bytes)} {archive : Archive}
    (hbuild : n.replica.build = (result, { n.replica with archive })) (snapshot : Option Log.Id) :
    Stays s h n { n with replica := { n.replica with archive }, snapshot } := by
  have hdoes := Site.Does.build (s := n.site)
  rw [Node.site, hbuild] at hdoes
  refine ⟨?_, rfl, .single hdoes rfl rfl rfl⟩
  exact { hn with replica := ⟨hn.replica.holds, hn.replica.applied, hn.replica.noted⟩ }

theorem Serves.buildSnapshot (hn : Serves s h n) : Stays s h n n.buildSnapshot.2 := by
  obtain ⟨result, archive, hbuild⟩ := Replica.build_eq hn.replica.holds
  rw [Node.buildSnapshot, hbuild]
  cases result with
  | error fault => exact hn.setArchive hbuild n.snapshot
  | ok built =>
    have hbuilt := hn.setArchive hbuild built.1.last
    cases hlast : built.1.last with
    | none =>
      rw [hlast] at hbuilt
      simp only [hlast]
      exact hbuilt
    | some id =>
      rw [hlast] at hbuilt
      simp only [hlast]
      exact hbuilt.trans (hbuilt.serves.purge id)

section

variable (hn : Leads s h n) {e : Entry} (hnext : e.id.index.toNat = Log.countTo n.last)

include hn hnext

theorem Leads.stored_append : ∃ t, (n.append e).journal.Stores t ∧ t.Contiguous ∧ t.last = some e.id := by
  obtain ⟨t, hstored, hlog, hlast⟩ := hn.stored
  have hallowed : t.Allows (.append [e]) := Stretch.allows_append (hlast ▸ hnext)
  exact ⟨_, hstored.perform hlog hallowed, hlog.perform hallowed, t.last_append e⟩

theorem Leads.does_append : n.site.Does (.call (.append [e])) (n.append e).site := by
  obtain ⟨t, hstored, -, hlast⟩ := hn.stored
  have hallowed : t.Allows (.append [e]) := Stretch.allows_append (hlast ▸ hnext)
  exact .call ⟨_, hstored.extent, hallowed⟩

theorem Leads.read_append :
    (n.append e).journal.read ⟨.after n.replica.applied.last, .unbounded⟩ = .ok [e] := by
  obtain ⟨t, hstored, hlog, hlast⟩ := hn.stored
  have hallowed : t.Allows (.append [e]) := Stretch.allows_append (hlast ▸ hnext)
  have hlevel : t.last = n.replica.applied.last := hlast.trans hn.level.symm
  have hstored' : (n.append e).journal.Stores ⟨t.purged, t.entries ++ [e]⟩ := hstored.perform hlog hallowed
  rw [hstored'.read, ← hlevel, List.filter_append, Log.filter_reached hlog hlog.end_eq.le,
    Log.filter_unreached hallowed (Nat.le_refl _)]
  rfl

theorem Leads.writeEntry (hm : (n.append e).membership.LoneVoter s.node)
    (ha : (n.replica.applied.advance e).membership.membership.LoneVoter s.node) :
    ∃ n', n.writeEntry e = (.applied (h.replyTo e), n') ∧ Serves s (h.after e) n' ∧ n'.last = some e.id ∧
      Moves n [(e, h.replyTo e)] n' := by
  obtain ⟨t, hstored, hlog, hlast⟩ := hn.stored_append hnext
  obtain ⟨r, happly, hstands, -⟩ := hn.replica.apply [e]
  have hsynced := (n.replica.apply_keeps [e]).1
  rw [happly] at hsynced
  have happlied : r.applied = n.replica.applied.advance e := hstands.applied
  have hreached : r.applied.last = some e.id := by rw [happlied, Applied.last_advance]
  have hserves : Serves s (h.after e)
      { n.append e with journal := (n.append e).journal.saveCommitted (some e.id), replica := r } :=
    { settings := hn.settings
      replica := happlied.symm ▸ hstands
      synced := hsynced.trans hn.synced
      running := hn.running
      vote := hn.vote
      stored := ⟨t, ⟨hstored.entries, hstored.purged⟩, hlog, hlast⟩
      level := hreached
      membership := hm
      applied := happlied.symm ▸ ha
      committed := by rw [hreached]; rfl }
  have hmoves : Moves n [(e, h.replyTo e)]
      { n.append e with journal := (n.append e).journal.saveCommitted (some e.id), replica := r } := by
    refine ⟨[.call (.append [e]), .call (.saveCommitted (some e.id)), .apply [e] (.ok [h.replyTo e])], ?_, rfl, rfl, rfl⟩
    exact .cons (hn.does_append hnext)
      (.cons (.call trivial) (.cons (.apply (hn.read_append hnext) happly) (.nil _)))
  -- a membership counts as soon as it is in the log
  have hmajority : (n.append e).isMajority = true := by
    rw [isMajority, Node.id, Node.append, hn.settings]
    exact hm.agrees
  have happly' : (n.append e).replica.apply [e] = (.ok [h.replyTo e], r) := happly
  rw [Node.writeEntry, if_pos hmajority, Node.apply]
  simp only [happly']
  split
  case isFalse => exact ⟨_, rfl, hserves, rfl, hmoves⟩
  case isTrue =>
    have hbuilt := hserves.buildSnapshot
    exact ⟨_, rfl, hbuilt.serves, hbuilt.last, hmoves.trans hbuilt.moves⟩

end

theorem Serves.wasElected (hn : Serves s h n) : n.wasElected = true := by
  obtain ⟨vote, hvote, -, hcommitted, hnode⟩ := hn.vote
  rw [Node.wasElected, hvote, Node.id, hn.settings, hn.membership.contains, Option.any_some, hcommitted, hnode]
  simp

theorem toNat_nextIndex (hroom : Log.countTo n.last < UInt64.size) : n.nextIndex.toNat = Log.countTo n.last := by
  rw [nextIndex]
  cases hlast : n.last with
  | none => rfl
  | some id =>
    rw [hlast] at hroom
    change (id.index + 1).toNat = id.index.toNat + 1
    rw [UInt64.toNat_add]
    exact Nat.mod_eq_of_lt hroom

theorem Serves.writePayload (hn : Serves s h n) (hroom : Log.countTo n.last < UInt64.size) (p : Log.Payload)
    (hp : ∀ m, p = .membership m → m.LoneVoter s.node) :
    ∃ id n', n.writePayload p = (.applied (h.replyTo ⟨id, p⟩), n') ∧ Serves s (h.after ⟨id, p⟩) n' ∧
      Log.countTo n'.last = Log.countTo n.last + 1 ∧ Moves n [(⟨id, p⟩, h.replyTo ⟨id, p⟩)] n' := by
  obtain ⟨vote, hvote, -⟩ := hn.vote
  have hnext := toNat_nextIndex hroom
  have hmembership : (n.append ⟨⟨vote.leader, n.nextIndex⟩, p⟩).membership.LoneVoter s.node := by
    cases p with
    | blank => exact hn.membership
    | command c => exact hn.membership
    | membership m => exact hp m rfl
  have happlied :
      (n.replica.applied.advance ⟨⟨vote.leader, n.nextIndex⟩, p⟩).membership.membership.LoneVoter s.node := by
    cases p with
    | blank => exact hn.applied
    | command c => exact hn.applied
    | membership m => exact hp m rfl
  have hwrite := hn.toLeads.writeEntry (e := ⟨⟨vote.leader, n.nextIndex⟩, p⟩) hnext hmembership happlied
  obtain ⟨n', hwrite, hn', hlast, hmoves⟩ := hwrite
  refine ⟨_, n', ?_, hn', ?_, hmoves⟩
  · simp only [Node.writePayload, hn.running, hvote, hn.wasElected, if_true, Bool.false_eq_true, if_false, hwrite]
  · rw [hlast, ← hnext]
    rfl

theorem Serves.current (hn : Serves s h n) : n.site.Current h := by
  obtain ⟨t, hstored, hlog, hlast⟩ := hn.stored
  have hreached : Log.countTo n.replica.applied.last = t.start + t.entries.length := by
    rw [hlog.end_eq, hlast, hn.level]
  refine ⟨[], nofun, hn.replica, hn.synced, t.purged, t.entries, ?_, ?_, hreached⟩
  · rw [List.append_nil]
    exact hstored
  · rw [List.append_nil]
    exact hlog

theorem Serves.orderly (hn : Serves s h n) (hroom : Log.countTo n.last < UInt64.size) :
    Node.consensus.Orderly Node.site n where
  write command := by
    obtain ⟨id, n', hwrite, -, -, deeds, hrun, happended, happlied, hanswers⟩ :=
      hn.writePayload hroom (.command command) nofun
    have hconsensus : Node.consensus.write command n = (.applied (h.replyTo ⟨id, .command command⟩), n') := hwrite
    rw [hconsensus]
    refine ⟨deeds, ⟨id, .command command⟩, hrun, ?_, rfl, ?_, fun response hmem => ?_⟩
    · rw [happended]
      rfl
    · rw [happlied]
      exact List.mem_cons_self
    · rw [hanswers] at hmem
      cases List.mem_singleton.mp hmem
      rfl
  query _ := rfl

theorem recover_eq {journal : Log.Journal} {r : Replica} {vote : Vote} {t : Stretch} (hstored : journal.Stores t)
    (hlog : t.Contiguous) (hlast : t.last = r.applied.last) (hvote : journal.vote = some (Json.encode vote))
    (hcommitted : journal.committed = some (Json.encode r.applied.last)) (s : Settings) :
    recover s journal r = .ok ⟨s, journal, r, some vote, t.last, r.applied.membership.membership,
      (r.currentMeta.map (·.last)).join, false⟩ := by
  have hreadVote : journal.readVote = .ok (some vote) := by
    rw [Log.Journal.readVote, hvote]
    exact Log.Journal.readAs?_encode _ (some vote)
  have hreadCommitted : journal.readCommitted = .ok r.applied.last := by
    have hread := Log.Journal.readAs?_encode .logs (some r.applied.last)
    rw [Option.map_some] at hread
    rw [Log.Journal.readCommitted, hcommitted, hread, map_ok]
    rfl
  -- the log ends where the replica is, so there is nothing left to apply
  have hlater : journal.read ⟨.after r.applied.last, .unbounded⟩ = .ok [] := by
    rw [hstored.read, ← hlast, Log.filter_reached hlog hlog.end_eq.le]
  rw [recover, hstored.extent, ok_bind, hreadVote, ok_bind, hreadCommitted, ok_bind, hlater, ok_bind]
  rfl

theorem start_eq (hvalid : check s = .ok ()) (hbatch : s.timing.batch ≠ 0) {d : Disk} {r : Replica}
    (hopened : Replica.ofDisk d.store d.folder = .ok r) (hrecover : recover s d.journal r = .ok n) :
    start s d = .ok n := by
  rw [start, hvalid, ok_bind, hopened, mapError_ok, ok_bind, if_neg hbatch, hrecover]
  rfl

theorem Serves.restart (hn : Serves s h n) (hvalid : check s = .ok ()) (hbatch : s.timing.batch ≠ 0) :
    ∃ n', n.restart = .ok n' ∧ Stays s h n n' := by
  obtain ⟨vote, -, hvote, helected⟩ := hn.vote
  obtain ⟨t, hstored, hlog, hlast⟩ := hn.stored
  have hopened := Replica.ofDisk_eq hn.replica.noted n.disk.folder
  have hrecover := recover_eq (r := ⟨.ofStore n.disk.store, n.replica.applied, .ofFolder n.disk.folder⟩)
    hstored hlog (hlast.trans hn.level.symm) hvote hn.committed s
  have hstart := start_eq hvalid hbatch (d := n.disk) hopened hrecover
  rw [← hn.settings] at hstart
  refine ⟨_, hstart, ?_, hlast, .single (.reopen hopened) rfl rfl rfl⟩
  exact { hn with
    replica := ⟨hn.replica.holds, rfl, hn.replica.noted⟩, synced := rfl, running := rfl
    vote := ⟨vote, rfl, hvote, helected⟩, stored := ⟨t, hstored, hlog, rfl⟩
    level := hn.level.trans hlast.symm, membership := hn.applied }

def found (s : Settings) : Except Fault Node := do
  let n ← start s .empty
  let (result, n) := n.bootstrap
  result
  return n

def unfounded (s : Settings) : Node :=
  ⟨s, .empty, .fresh .empty, none, none, .empty, none, false⟩

theorem start_empty (hvalid : check s = .ok ()) (hbatch : s.timing.batch ≠ 0) :
    start s .empty = .ok (unfounded s) :=
  start_eq hvalid hbatch (d := .empty) (r := .fresh .empty) rfl rfl

theorem leads_unfounded (s : Settings) {v : Vote} (hcommitted : v.committed = true) (hnode : v.leader.node = s.node) :
    Leads s .empty { unfounded s with vote := some v, journal := Log.Journal.empty.saveVote v } where
  settings := rfl
  replica := ⟨rfl, rfl, rfl⟩
  synced := rfl
  running := rfl
  vote := ⟨v, rfl, rfl, hcommitted, hnode⟩
  stored := ⟨.empty, ⟨rfl, rfl⟩, Log.consecutive_nil 0, rfl⟩
  level := rfl

theorem found_serves (hvalid : check s = .ok ()) (hbatch : s.timing.batch ≠ 0) :
    ∃ n deeds, found s = .ok n ∧ Serves s .empty n ∧ Log.countTo n.last = 2 ∧
      Run (.fresh .empty) deeds n.site ∧ Site.Quiet deeds := by
  have hm : Membership.LoneVoter s.node ⟨[.ofList [s.node]], .ofList [(s.node, s.address)]⟩ :=
    .alone _ _
  have hleads := leads_unfounded s (v := ⟨⟨1, s.node⟩, true⟩) rfl rfl
  obtain ⟨n₁, hfirst, hn₁, hlast₁, hmoves₁⟩ := hleads.writeEntry
    (e := ⟨⟨⟨0, 0⟩, 0⟩, .membership ⟨[.ofList [s.node]], .ofList [(s.node, s.address)]⟩⟩) rfl hm hm
  have hcount₁ : Log.countTo n₁.last = 1 := by
    rw [hlast₁]
    rfl
  obtain ⟨id, n₂, hblank, hn₂, hcount₂, hmoves₂⟩ := hn₁.writePayload (hcount₁ ▸ by decide) .blank nofun
  have hvoted : Moves (unfounded s) [] { unfounded s with
      vote := some ⟨⟨1, s.node⟩, true⟩, journal := Log.Journal.empty.saveVote ⟨⟨1, s.node⟩, true⟩ } :=
    .single (.call (c := .saveVote _) trivial) rfl rfl rfl
  have hbootstrap : (unfounded s).bootstrap = (.ok (), n₂) := by
    simp only [unfounded] at hfirst
    simp only [bootstrap, unfounded, isFresh, Node.id, Option.isNone_none, Bool.and_self, Bool.not_true,
      Bool.false_eq_true, if_false, hfirst, hblank]
  obtain ⟨deeds, hrun, hquiet⟩ := ((hvoted.trans hmoves₁).trans hmoves₂).quiet
    (List.forall_mem_cons.mpr ⟨rfl, List.forall_mem_singleton.mpr rfl⟩)
  refine ⟨n₂, deeds, ?_, hn₂, hcount₂.trans (congrArg (· + 1) hcount₁), hrun, hquiet⟩
  rw [found, start_empty hvalid hbatch, ok_bind, hbootstrap]
  rfl

end Cluster.Node

end Uniqueness
