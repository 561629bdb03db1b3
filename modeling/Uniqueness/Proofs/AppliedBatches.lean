import Uniqueness.Cluster.Consensus
import Uniqueness.Proofs.Bootstrap
import Uniqueness.Proofs.ContiguousJournals

/-!
What a node that votes alone keeps of the log: a journal, and a replica that the entries of the journal are applied
to, in batches of any size. Nothing depends on the batches, on snapshots that are built in between, on what is cut off
from the journal once it has been applied, or on how often the replica is opened again.
-/

namespace Uniqueness

open Log (Consecutive Entry Journal Stretch)
open Log.Journal (Call)

namespace Log

def Extent.next (extent : Extent) : Nat :=
  countTo extent.last

def Entry.isCommand (e : Entry) : Bool :=
  match e.payload with
  | .command _ => true
  | .blank | .membership _ => false

theorem below_after (last : Option Id) (i : UInt64) : (Bound.after last).below i = decide (countTo last ≤ i.toNat) := by
  cases last with
  | none => exact (decide_eq_true (Nat.zero_le _)).symm
  | some id => exact decide_eq_decide.mpr (UInt64.lt_iff_toNat_lt.trans Nat.lt_iff_add_one_le)

section

variable {start : Nat} {es : List Entry} {last : Option Id}

theorem filter_reached (h : Consecutive start es) (hlast : start + es.length ≤ countTo last) (upper : Bound) :
    es.filter (fun e => Range.contains ⟨.after last, upper⟩ e.id.index) = [] := by
  rw [List.filter_eq_nil_iff]
  intro e he hcontains
  have hhigh := (h.bounds he).2
  have hlow := (Bool.and_eq_true_iff.mp hcontains).1
  rw [below_after, decide_eq_true_eq] at hlow
  omega

theorem filter_unreached (h : Consecutive start es) (hlast : countTo last ≤ start) (upper : Bound) :
    es.filter (fun e => Range.contains ⟨.after last, upper⟩ e.id.index) =
      es.filter (fun e => upper.above e.id.index) := by
  refine List.filter_congr fun e he => ?_
  have hlow := Nat.le_trans hlast (h.bounds he).1
  rw [Range.contains, below_after, decide_eq_true hlow, Bool.true_and]

end

theorem Bound.above_of_lt {b : Bound} {i j : UInt64} (hij : i < j) (hj : b.above j = true) : b.above i = true := by
  cases b with
  | unbounded => rfl
  | included b => exact decide_eq_true (UInt64.le_trans (UInt64.le_of_lt hij) (of_decide_eq_true hj))
  | excluded b => exact decide_eq_true (UInt64.lt_trans hij (of_decide_eq_true hj))

theorem exists_filter_above {es : List Entry} (h : es.Pairwise fun a b => a.id.index < b.id.index) (upper : Bound) :
    ∃ rest, es = es.filter (fun e => upper.above e.id.index) ++ rest := by
  induction es with
  | nil => exact ⟨[], rfl⟩
  | cons e es ih =>
    obtain ⟨hfirst, hes⟩ := List.pairwise_cons.mp h
    by_cases he : upper.above e.id.index = true
    · obtain ⟨rest, hrest⟩ := ih hes
      refine ⟨rest, ?_⟩
      rw [List.filter_cons, if_pos he, List.cons_append, ← hrest]
    · have hnone : es.filter (fun f => upper.above f.id.index) = [] :=
        List.filter_eq_nil_iff.mpr fun f hf hf' => he (Bound.above_of_lt (hfirst f hf) hf')
      exact ⟨e :: es, by rw [List.filter_cons, if_neg he, hnone, List.nil_append]⟩

end Log

namespace History

variable {h : History} {es : List Entry} {e : Entry}

theorem length_repliesTo (h : History) (es : List Entry) : (h.repliesTo es).length = es.length := by
  induction es generalizing h with
  | nil => rfl
  | cons e es ih => rw [repliesTo, List.length_cons, ih, List.length_cons]

theorem after_eq_self (he : e.isCommand = false) : h.after e = h := by
  rw [after]
  split
  case h_1 c hc =>
    rw [Log.Entry.isCommand, hc] at he
    cases he
  case h_2 => rfl

theorem afterAll_eq_self (hes : ∀ e ∈ es, e.isCommand = false) : h.afterAll es = h := by
  induction es with
  | nil => rfl
  | cons e es ih =>
    obtain ⟨he, hes⟩ := List.forall_mem_cons.mp hes
    rw [afterAll, List.foldl_cons, after_eq_self he]
    exact ih hes

end History

structure Site where
  journal : Journal
  replica : Replica

namespace Site

inductive Deed where
  | call (c : Call)
  | apply (batch : List Entry) (outcome : Except Storage.Fault (List Response))
  | build
  | reopen

namespace Deed

def appended : Deed → List Entry
  | .call c => c.appended
  | _ => []

def applied : Deed → List Entry
  | .apply batch _ => batch
  | _ => []

def answers : Deed → List (Entry × Response)
  | .apply batch (.ok responses) => batch.zip responses
  | _ => []

end Deed

def fresh (folder : Archive.Folder) : Site :=
  ⟨.empty, .fresh folder⟩

/-- What a lone voter does to its log: it appends right behind the last entry, and cuts off what has been applied at
the front. -/
def Permits (s : Site) : Call → Prop
  | .append es => ∃ extent, s.journal.extent = .ok extent ∧ Consecutive extent.next es
  | .purge id => id.index.toNat < Log.countTo s.replica.applied.last ∧
    ∃ e, e.id = id ∧ s.journal.read ⟨.included id.index, .included id.index⟩ = .ok [e]
  | .truncate _ => False
  | _ => True

/-- A batch is read from the journal, from where the replica is on and as far as one likes. -/
inductive Does (s : Site) : Deed → Site → Prop
  | call {c : Call} (hc : s.Permits c) : Does s (.call c) { s with journal := s.journal.perform c }
  | apply {upper : Log.Bound} {batch : List Entry} {outcome : Except Storage.Fault (List Response)} {r : Replica}
    (hread : s.journal.read ⟨.after s.replica.applied.last, upper⟩ = .ok batch)
    (happly : s.replica.apply batch = (outcome, r)) : Does s (.apply batch outcome) { s with replica := r }
  | build : Does s .build { s with replica := s.replica.build.2 }
  | reopen {r : Replica} (hopen : s.replica.reopen = .ok r) : Does s .reopen { s with replica := r }

inductive Run : Site → List Deed → Site → Prop
  | nil (s : Site) : Run s [] s
  | cons {s s' s'' : Site} {d : Deed} {deeds : List Deed} (hd : Does s d s') (h : Run s' deeds s'') :
    Run s (d :: deeds) s''

def appended (deeds : List Deed) : List Entry :=
  deeds.flatMap Deed.appended

def applied (deeds : List Deed) : List Entry :=
  deeds.flatMap Deed.applied

def answers (deeds : List Deed) : List (Entry × Response) :=
  deeds.flatMap Deed.answers

theorem appended_append (deeds deeds' : List Deed) : appended (deeds ++ deeds') = appended deeds ++ appended deeds' :=
  List.flatMap_append

theorem applied_append (deeds deeds' : List Deed) : applied (deeds ++ deeds') = applied deeds ++ applied deeds' :=
  List.flatMap_append

theorem answers_append (deeds deeds' : List Deed) : answers (deeds ++ deeds') = answers deeds ++ answers deeds' :=
  List.flatMap_append

/-- These entries of the journal are still to be applied, and the others have made these records. -/
structure Holds (h : History) (pending : List Entry) (s : Site) : Prop where
  stands : s.replica.Stands h s.replica.applied
  synced : s.replica.machine.needsResync = false
  stored : ∃ purged done, s.journal.Stores ⟨purged, done ++ pending⟩ ∧ Stretch.Contiguous ⟨purged, done ++ pending⟩ ∧
    Log.countTo s.replica.applied.last = Log.countTo purged + done.length

variable {h : History} {pending : List Entry} {s s' : Site} {d : Deed} {deeds : List Deed}

theorem Run.append {s'' : Site} {deeds' : List Deed} (h : Run s deeds s') (h' : Run s' deeds' s'') :
    Run s (deeds ++ deeds') s'' := by
  induction h with
  | nil => exact h'
  | cons hd _ ih => exact .cons hd (ih h')

namespace Holds

theorem fresh (folder : Archive.Folder) : Holds .empty [] (fresh folder) where
  stands := .fresh folder
  synced := rfl
  stored := ⟨none, [], ⟨rfl, rfl⟩, Log.consecutive_nil 0, rfl⟩

theorem call (hs : Holds h pending s) {c : Call} (hc : s.Permits c) :
    Holds h (pending ++ c.appended) { s with journal := s.journal.perform c } := by
  obtain ⟨purged, done, hstored, hlog, hcount⟩ := hs.stored
  have hsame (hnone : c.appended = []) : pending ++ c.appended = pending := by rw [hnone, List.append_nil]
  refine ⟨hs.stands, hs.synced, ?_⟩
  cases c with
  | append es =>
    obtain ⟨extent, hextent, hnext⟩ := hc
    rw [hstored.extent] at hextent
    cases hextent
    have hallowed : Stretch.Allows ⟨purged, done ++ pending⟩ (.append es) := hnext
    have hentries : done ++ (pending ++ es) = done ++ pending ++ es := (List.append_assoc _ _ _).symm
    refine ⟨purged, done, ?_, ?_, hcount⟩
    · rw [Call.appended, hentries]
      exact hstored.perform hlog hallowed
    · rw [Call.appended, hentries]
      exact hlog.perform hallowed
  | truncate id => exact hc.elim
  | purge id =>
    obtain ⟨hreached, e, rfl, hread⟩ := hc
    rw [hstored.read, Except.ok.injEq] at hread
    have hmem : e ∈ done ++ pending := List.mem_of_mem_filter (hread ▸ List.mem_cons_self)
    obtain ⟨hdone, hpending⟩ := Log.consecutive_append.mp hlog
    -- the entry has been applied, so it stands before those that are pending
    have he : e ∈ done := (List.mem_append.mp hmem).resolve_right fun he => by
      have hlow : Log.countTo purged + done.length ≤ e.id.index.toNat := (hpending.bounds he).1
      omega
    obtain ⟨front, back, rfl⟩ := List.append_of_mem he
    have hindex : e.id.index.toNat = Log.countTo purged + front.length := hdone.middle
    have hallowed : Stretch.Allows ⟨purged, front ++ e :: back ++ pending⟩ (.purge e.id) := .inl ⟨e, hmem, rfl⟩
    have hrest : Stretch.perform ⟨purged, front ++ e :: back ++ pending⟩ (.purge e.id) =
        ⟨some e.id, back ++ pending⟩ := hlog.perform_purge (List.append_assoc _ _ _)
    rw [hsame rfl]
    refine ⟨some e.id, back, ?_, ?_, ?_⟩
    · rw [← hrest]
      exact hstored.perform hlog hallowed
    · rw [← hrest]
      exact hlog.perform hallowed
    · change Log.countTo s.replica.applied.last = e.id.index.toNat + 1 + back.length
      rw [hcount, List.length_append, List.length_cons]
      omega
  | saveVote v =>
    rw [hsame rfl]
    exact ⟨purged, done, ⟨hstored.entries, hstored.purged⟩, hlog, hcount⟩
  | saveCommitted id =>
    rw [hsame rfl]
    exact ⟨purged, done, ⟨hstored.entries, hstored.purged⟩, hlog, hcount⟩
  | reopen =>
    rw [hsame rfl]
    exact ⟨purged, done, hstored, hlog, hcount⟩

theorem read (hs : Holds h pending s) {upper : Log.Bound} {batch : List Entry}
    (hread : s.journal.read ⟨.after s.replica.applied.last, upper⟩ = .ok batch) : ∃ rest, pending = batch ++ rest := by
  obtain ⟨purged, done, hstored, hlog, hcount⟩ := hs.stored
  obtain ⟨hdone, hpending⟩ := Log.consecutive_append.mp hlog
  rw [hstored.read, List.filter_append, Log.filter_reached hdone hcount.ge, Log.filter_unreached hpending hcount.le,
    List.nil_append, Except.ok.injEq] at hread
  rw [← hread]
  exact Log.exists_filter_above hpending.pairwise upper

theorem apply {batch rest : List Entry} (hs : Holds h (batch ++ rest) s)
    {outcome : Except Storage.Fault (List Response)} {r : Replica} (happly : s.replica.apply batch = (outcome, r)) :
    outcome = .ok (h.repliesTo batch) ∧ Holds (h.afterAll batch) rest { s with replica := r } := by
  obtain ⟨r', happly', hstands, -⟩ := hs.stands.apply batch
  have hsynced := (s.replica.apply_keeps batch).1
  rw [happly] at happly' hsynced
  cases happly'
  have happlied := hstands.applied
  obtain ⟨purged, done, hstored, hlog, hcount⟩ := hs.stored
  rw [← List.append_assoc] at hstored hlog
  refine ⟨rfl, happlied.symm ▸ hstands, hsynced.trans hs.synced, purged, done ++ batch, hstored, hlog, ?_⟩
  rw [happlied, Applied.last_advanceAll]
  cases hlast : batch.getLast? with
  | none =>
    rw [List.getLast?_eq_none_iff.mp hlast, List.append_nil]
    exact hcount
  | some e =>
    obtain ⟨front, rfl⟩ := List.getLast?_eq_some_iff.mp hlast
    rw [← List.append_assoc, List.append_assoc (done ++ front)] at hlog
    have hindex : e.id.index.toNat = Log.countTo purged + (done ++ front).length := Consecutive.middle hlog
    have hlength : (done ++ (front ++ [e])).length = (done ++ front).length + 1 := by
      rw [← List.append_assoc, List.length_append, List.length_singleton]
    change e.id.index.toNat + 1 = _
    rw [hindex, hlength, Nat.add_assoc]

theorem build (hs : Holds h pending s) : Holds h pending { s with replica := s.replica.build.2 } := by
  obtain ⟨result, archive, hbuild⟩ := Replica.build_eq hs.stands.holds
  rw [hbuild]
  exact ⟨⟨hs.stands.holds, rfl, hs.stands.noted⟩, hs.synced, hs.stored⟩

theorem reopen (hs : Holds h pending s) {r : Replica} (hopen : s.replica.reopen = .ok r) :
    Holds h pending { s with replica := r } := by
  obtain ⟨r', hopen', hstands, -⟩ := hs.stands.reopen
  have hsynced : r'.machine.needsResync = false := by
    rw [Replica.reopen, Replica.ofDisk_eq hs.stands.noted] at hopen'
    cases hopen'
    rfl
  rw [hopen] at hopen'
  cases hopen'
  have happlied := hstands.applied
  exact ⟨happlied.symm ▸ hstands, hsynced, by rw [happlied]; exact hs.stored⟩

theorem does (hs : Holds h pending s) (hd : Does s d s') : ∃ rest, pending ++ d.appended = d.applied ++ rest ∧
    d.answers = d.applied.zip (h.repliesTo d.applied) ∧ Holds (h.afterAll d.applied) rest s' := by
  cases hd with
  | call hc => exact ⟨_, rfl, rfl, hs.call hc⟩
  | apply hread happly =>
    obtain ⟨rest, rfl⟩ := hs.read hread
    obtain ⟨rfl, hs'⟩ := hs.apply happly
    exact ⟨rest, List.append_nil _, rfl, hs'⟩
  | build => exact ⟨pending, List.append_nil _, rfl, hs.build⟩
  | reopen hopen => exact ⟨pending, List.append_nil _, rfl, hs.reopen hopen⟩

theorem run (hs : Holds h pending s) (hrun : Run s deeds s') : ∃ rest,
    pending ++ appended deeds = applied deeds ++ rest ∧
      answers deeds = (applied deeds).zip (h.repliesTo (applied deeds)) ∧ Holds (h.afterAll (applied deeds)) rest s' := by
  induction hrun generalizing h pending with
  | nil => exact ⟨pending, List.append_nil _, rfl, hs⟩
  | @cons s s₁ s' d deeds hd _ ih =>
    obtain ⟨between, hfront, hanswers, hs₁⟩ := hs.does hd
    obtain ⟨rest, hback, hanswers', hs'⟩ := ih hs₁
    have happlied : applied (d :: deeds) = d.applied ++ applied deeds := List.flatMap_cons
    refine ⟨rest, ?_, ?_, ?_⟩
    · calc pending ++ appended (d :: deeds) = pending ++ d.appended ++ appended deeds := by
            rw [appended, List.flatMap_cons, List.append_assoc, appended]
        _ = d.applied ++ (between ++ appended deeds) := by rw [hfront, List.append_assoc]
        _ = applied (d :: deeds) ++ rest := by rw [hback, happlied, List.append_assoc]
    · have hsplit : answers (d :: deeds) = d.answers ++ answers deeds := List.flatMap_cons
      rw [hsplit, hanswers, hanswers', happlied, History.repliesTo_append,
        List.zip_append (h.length_repliesTo _).symm]
    · rw [happlied, History.afterAll_append]
      exact hs'

end Holds

def Quiet (deeds : List Deed) : Prop :=
  ∀ e ∈ appended deeds, e.isCommand = false

def Current (h : History) (s : Site) : Prop :=
  ∃ pending, (∀ e ∈ pending, e.isCommand = false) ∧ Holds h pending s

namespace Current

theorem fresh (folder : Archive.Folder) : Current .empty (fresh folder) :=
  ⟨[], nofun, .fresh folder⟩

theorem quiet (hs : Current h s) (hrun : Run s deeds s') (hquiet : Quiet deeds) : Current h s' := by
  obtain ⟨pending, hpending, hholds⟩ := hs
  obtain ⟨rest, hentries, -, hholds'⟩ := hholds.run hrun
  have hnone : ∀ e ∈ applied deeds ++ rest, e.isCommand = false := by
    rw [← hentries]
    exact List.forall_mem_append.mpr ⟨hpending, hquiet⟩
  obtain ⟨happlied, hrest⟩ := List.forall_mem_append.mp hnone
  rw [History.afterAll_eq_self happlied] at hholds'
  exact ⟨rest, hrest, hholds'⟩

theorem executes (hs : Current h s) (hrun : Run s deeds s') {e : Entry} {c : Command}
    (hone : (appended deeds).filter Entry.isCommand = [e]) (hc : e.payload = .command c) (he : e ∈ applied deeds) :
    Current (h.commit c) s' ∧ (e, h.reply c) ∈ answers deeds := by
  obtain ⟨pending, hpending, hholds⟩ := hs
  obtain ⟨rest, hentries, hanswers, hholds'⟩ := hholds.run hrun
  have hcommand : e.isCommand = true := by rw [Entry.isCommand, hc]
  have hcommands : (applied deeds).filter Entry.isCommand ++ rest.filter Entry.isCommand = [e] := by
    have hnone : pending.filter Entry.isCommand = [] :=
      List.filter_eq_nil_iff.mpr fun f hf => Bool.eq_false_iff.mp (hpending f hf)
    rw [← List.filter_append, ← hentries, List.filter_append, hnone, hone, List.nil_append]
  obtain ⟨happlied, hrest⟩ := (List.append_eq_singleton_iff.mp hcommands).resolve_left fun h =>
    List.ne_nil_of_mem (List.mem_filter.mpr ⟨he, hcommand⟩) h.1
  obtain ⟨front, back, hsplit, hfront, -, hback⟩ := List.filter_eq_cons_iff.mp happlied
  have hbefore : h.afterAll front = h := History.afterAll_eq_self fun f hf => Bool.eq_false_iff.mpr (hfront f hf)
  have hafter : h.after e = h.commit c := by rw [History.after, hc]
  have hreply : h.replyTo e = h.reply c := by rw [History.replyTo, hc]
  constructor
  · refine ⟨rest, fun f hf => Bool.eq_false_iff.mpr (List.filter_eq_nil_iff.mp hrest f hf), ?_⟩
    rw [hsplit, History.afterAll_append, hbefore, History.afterAll, List.foldl_cons, hafter] at hholds'
    rwa [← History.afterAll, History.afterAll_eq_self fun f hf =>
      Bool.eq_false_iff.mpr (List.filter_eq_nil_iff.mp hback f hf)] at hholds'
  · rw [hanswers, hsplit, History.repliesTo_append, hbefore, List.zip_append (h.length_repliesTo front).symm,
      History.repliesTo, hreply]
    exact List.mem_append_right _ List.mem_cons_self

end Current

end Site

variable {σ : Type}

/-- What is assumed of consensus on a node that votes alone, of which `site` says what is on its disk. A command that
is written is appended once and applied, in the order of the log, and answered with what has been answered to its
entry. A look-up is answered from what has been applied. -/
structure Cluster.Consensus.Orderly (g : Consensus σ) (site : σ → Site) (n : σ) : Prop where
  write (command : Command) : ∃ deeds e, Site.Run (site n) deeds (site (g.write command n).2) ∧
    (Site.appended deeds).filter Entry.isCommand = [e] ∧ e.payload = .command command ∧ e ∈ Site.applied deeds ∧
    ∀ response, (e, response) ∈ Site.answers deeds → (g.write command n).1 = .applied response
  query (command : Command) : g.query command n = (site n).replica.machine.query command

namespace Cluster.Consensus.Orderly

variable {g : Consensus σ} {site : σ → Site} {n : σ} {h : History}

theorem write_eq (hg : g.Orderly site n) (hn : (site n).Current h) (command : Command) :
    ∃ n', g.write command n = (.applied (h.reply command), n') ∧ (site n').Current (h.commit command) := by
  obtain ⟨deeds, e, hrun, hone, hpayload, happlied, hanswer⟩ := hg.write command
  obtain ⟨hcurrent, hmem⟩ := hn.executes hrun hone hpayload happlied
  exact ⟨_, Prod.ext (hanswer _ hmem) rfl, hcurrent⟩

theorem query_eq (hg : g.Orderly site n) (hn : (site n).Current h) {command : Command}
    (hread : command.isReadOnly = true) : g.query command n = .ok (h.reply command) := by
  obtain ⟨pending, -, hholds⟩ := hn
  rw [hg.query]
  exact Machine.query_eq hholds.stands.holds hholds.synced hread

end Cluster.Consensus.Orderly

end Uniqueness
