import Uniqueness.Proofs.InstallOutcomes
import Uniqueness.Proofs.ReplicaAgreement

/-!
What the label of a snapshot is worth. It names an entry of the log and the membership there. The records are
those that the log makes up to this entry until a replica stops between the record of a claim and the position
after it. The next snapshot of this replica has the record and not the position.
-/

namespace Uniqueness

namespace Log

def membership? (e : Entry) : Option StoredMembership :=
  match e.payload with
  | .membership m => some ⟨some e.id, m⟩
  | _ => none

def lastMembership (es : List Entry) : StoredMembership :=
  (es.reverse.findSome? membership?).getD .empty

theorem membership_advanceAll (es : List Entry) : (Applied.start.advanceAll es).membership = lastMembership es := by
  induction es using List.reverseRecOn with
  | nil => rfl
  | append_singleton es e ih =>
    have hlast : (Applied.start.advanceAll (es ++ [e])) = (Applied.start.advanceAll es).advance e :=
      Applied.advanceAll_append _ _ _
    rw [hlast, lastMembership, List.reverse_concat, List.findSome?_cons]
    cases hp : e.payload with
    | membership m => simp [Applied.advance, membership?, hp]
    | _ => simp [Applied.advance, membership?, hp, ih, lastMembership]

namespace Committed

variable (log : Committed)

def upTo (last : Option Id) : List Entry :=
  log.entries.filter fun e => last.any (e.id.index ≤ ·.index)

theorem upTo_position (n : Nat) : log.upTo (log.position n).last = log.entries.take n := by
  obtain ⟨hbefore, hafter⟩ := log.all_position n
  have hany : ∀ e : Entry, (log.position n).last.any (e.id.index ≤ ·.index) =
      !(log.position n).last.all (·.index < e.id.index) := by
    intro e
    cases (log.position n).last with
    | none => rfl
    | some id =>
      rw [Option.any_some, Option.all_some, ← decide_not]
      exact decide_eq_decide.mpr Std.not_lt.symm
  have hall : (log.entries.take n).filter (fun e => (log.position n).last.any (e.id.index ≤ ·.index)) =
      log.entries.take n := by
    rw [List.filter_eq_self]
    intro e he
    rw [hany, hbefore e he, Bool.not_false]
  have hnone : (log.entries.drop n).filter (fun e => (log.position n).last.any (e.id.index ≤ ·.index)) = [] := by
    rw [List.filter_eq_nil_iff]
    intro e he
    rw [hany, hafter e he]
    decide
  rw [upTo]
  conv_lhs => rw [← List.take_append_drop n log.entries]
  rw [List.filter_append, hall, hnone, List.append_nil]

theorem records_eq_of_size {m n : Nat} (h : m ≤ n) (hsize : (log.records n).size = (log.records m).size) :
    log.records n = log.records m :=
  (SortedMap.eq_of_get?_of_size (fun _ _ => log.get?_records_le h) (Nat.le_of_eq hsize)).symm

end Committed

end Log

namespace Fleet

open Replica (Covers Follows ofDisk uninterrupted)
open Snapshot (streamOf)

def Exact (log : Log.Committed) (s : Archive.Meta × Bytes) : Prop :=
  (uninterrupted .empty (log.upTo s.1.last)).machine.snapshot none = .ok s.2

structure Labelled (log : Log.Committed) (about : Archive.Meta) : Prop where
  last : about.last = (log.upTo about.last).getLast?.map (·.id)
  membership : about.membership = Log.lastMembership (log.upTo about.last)

variable {log : Log.Committed} {a p : Nat} {s : Archive.Meta × Bytes}

theorem snapshot_uninterrupted (es : List Log.Entry) {b : Bytes} :
    (uninterrupted .empty es).machine.snapshot none = .ok b ↔
      (History.afterAll .empty es).size < UInt32.size / 2 ∧ b = streamOf (History.afterAll .empty es) :=
  Machine.snapshot_eq_ok_iff (Replica.table_uninterrupted .empty es)

namespace Faithful

theorem last (hs : Faithful log a p s) : s.1.last = (log.position a).last := by
  rw [← hs.label]

theorem upTo (hs : Faithful log a p s) : log.upTo s.1.last = log.entries.take a := by
  rw [hs.last, log.upTo_position]

theorem labelled (hs : Faithful log a p s) : Labelled log s.1 where
  last := by
    rw [hs.upTo, hs.last, Log.Committed.position, Applied.last_advanceAll]
    exact Option.or_none
  membership := by
    have hmembership : s.1.membership = (log.position a).membership := by rw [← hs.label]
    rw [hs.upTo, hmembership, Log.Committed.position, Log.membership_advanceAll]

theorem snapshot (hs : Faithful log a p s) :
    (uninterrupted .empty (log.entries.take p)).machine.snapshot none = .ok s.2 :=
  (snapshot_uninterrupted _).mpr ⟨hs.small, hs.stream⟩

theorem exact_iff (hs : Faithful log a p s) : Exact log s ↔ log.records p = log.records a := by
  have hhalf : UInt32.size / 2 < UInt32.size := by decide
  rw [Exact, hs.upTo, snapshot_uninterrupted, hs.stream]
  constructor
  · rintro ⟨hsmall, hstream⟩
    -- the stream says how many records there are, and records only ever come to be
    have hsize := (Snapshot.word_append_inj (Nat.lt_trans hs.small hhalf) (Nat.lt_trans hsmall hhalf) hstream).1
    exact log.records_eq_of_size hs.reached hsize
  · intro h
    have hsmall := hs.small
    rw [h] at hsmall
    exact ⟨hsmall, congrArg streamOf h⟩

end Faithful

variable {ι : Type} [DecidableEq ι]

def halted (log : Log.Committed) (f : Fleet ι) (i : ι) (n j : Nat) : Store :=
  ((f.replica i).applyAll ((f.batch log i n).take j)).2.machine.store

/-- Whether a stop leaves the records that there were at the position on disk. -/
def Quiet (log : Log.Committed) (f : Fleet ι) (i : ι) (n j : Nat) : Prop :=
  (halted log f i n j).table = (f.replica i).machine.store.table

inductive Move (log : Log.Committed) (stops : Fleet ι → ι → Nat → Nat → Prop) (f : Fleet ι) (i : ι) :
    Fleet ι → Prop
  | apply (n : Nat) : Move log stops f i (f.set i ((f.replica i).apply (f.batch log i n)).2)
  | build {s : Archive.Meta × Bytes} (h : (f.replica i).build.1 = .ok s) :
    Move log stops f i { f.set i (f.replica i).build.2 with snapshots := s :: f.snapshots }
  | buildFailed {fault : Storage.Fault} (h : (f.replica i).build.1 = .error fault) :
    Move log stops f i (f.set i (f.replica i).build.2)
  | install {about : Archive.Meta} {stream : Bytes} (h : (about, stream) ∈ f.snapshots) :
    Move log stops f i (f.set i (((f.replica i).receive stream).install about).2)
  | stop {n j : Nat} {folder : Archive.Folder} {r : Replica} (h : stops f i n j)
    (hr : ofDisk (halted log f i n j) folder = .ok r) : Move log stops f i (f.set i r)

inductive Run (log : Log.Committed) (stops : Fleet ι → ι → Nat → Nat → Prop) : Fleet ι → Prop
  | start (folders : ι → Archive.Folder) : Run log stops (start folders)
  | move {f f' : Fleet ι} {i : ι} (hf : Run log stops f) (h : Move log stops f i f') : Run log stops f'

variable {f f' : Fleet ι} {stops : Fleet ι → ι → Nat → Nat → Prop} {slack : Nat → Nat → Prop}

structure Led (log : Log.Committed) (slack : Nat → Nat → Prop) (f : Fleet ι) : Prop where
  replicas : ∀ i, ∃ a p, slack a p ∧ Follows log a p (f.replica i)
  snapshots : ∀ s ∈ f.snapshots, ∃ a p, slack a p ∧ Faithful log a p s

theorem Led.set (hf : Led log slack f) {i : ι} {r : Replica} (ha : slack a p) (hr : Follows log a p r) :
    Led log slack (f.set i r) where
  replicas :=
    forall_replica_set (P := fun r => ∃ a p, slack a p ∧ Follows log a p r) hf.replicas ⟨a, p, ha, hr⟩ i
  snapshots := hf.snapshots

structure Bounds (log : Log.Committed) (stops : Fleet ι → ι → Nat → Nat → Prop)
    (slack : Nat → Nat → Prop) : Prop where
  start : slack 0 0
  apply : ∀ a p n, slack a p → slack (a + n) (max p (a + n))
  stop : ∀ f i n j a p, stops f i n j → slack a p → Follows log a p (f.replica i) →
    ∃ q, slack a q ∧ Covers log a q (halted log f i n j)

theorem Bounds.move (hb : Bounds log stops slack) (hf : Led log slack f) {i : ι} (h : Move log stops f i f') :
    Led log slack f' := by
  obtain ⟨a, p, ha, hr⟩ := hf.replicas i
  cases h with
  | apply n =>
    obtain ⟨responses, r', happly, hr'⟩ := hr.apply n
    rw [batch, happly]
    exact hf.set (hb.apply a p n ha) hr'
  | build h =>
    have hset := hf.set ha (follows_build hr) (i := i)
    refine ⟨hset.replicas, ?_⟩
    intro s hs
    rcases List.mem_cons.mp hs with rfl | hs
    · exact ⟨a, p, ha, faithful_build hr h⟩
    · exact hset.snapshots s hs
  | buildFailed => exact hf.set ha (follows_build hr)
  | @install about stream h =>
    obtain ⟨a', p', ha', hs⟩ := hf.snapshots _ h
    have hreceived : Follows log a p ((f.replica i).receive stream) := ⟨hr.covers, hr.applied⟩
    rcases follows_install_cases hreceived hs (Replica.received_receive _ _) with hi | hi
    · exact hf.set ha' hi
    · exact hf.set ha hi
  | @stop n j folder r h hopen =>
    obtain ⟨q, hq, hcovers⟩ := hb.stop f i n j a p h ha hr
    obtain ⟨r', hr', hfollows⟩ := hcovers.opened folder
    rw [hr'] at hopen
    cases hopen
    exact hf.set hq hfollows

theorem Bounds.led (hb : Bounds log stops slack) (hf : Run log stops f) : Led log slack f := by
  induction hf with
  | start folders => exact ⟨fun i => ⟨0, 0, hb.start, .fresh log (folders i)⟩, nofun⟩
  | move _ h ih => exact hb.move ih h

omit [DecidableEq ι] in
theorem bounds_of_any (log : Log.Committed) (stops : Fleet ι → ι → Nat → Nat → Prop) :
    Bounds log stops fun _ _ => True where
  start := trivial
  apply _ _ _ _ := trivial
  stop _ _ n j _ _ _ _ hr := ⟨_, trivial, hr.halted n j⟩

omit [DecidableEq ι] in
theorem bounds_of_quiet (log : Log.Committed) : Bounds log (Quiet (ι := ι) log) Eq where
  start := rfl
  apply a p n h := by omega
  stop f i n j a p h ha hr := by
    subst ha
    exact ⟨a, rfl, Nat.le_refl a, h.trans hr.holds, (hr.halted n j).noted⟩

/-- The label of a snapshot is right, and the records of the log up to it are there. They are all as long as no
replica has stopped between a record and its position, and after the first such stop they are not. -/
theorem exact_until_a_stop_shows (log : Log.Committed) :
    (∀ stops, ∀ f : Fleet ι, Run log stops f → ∀ s ∈ f.snapshots, Labelled log s.1 ∧
      ∃ p, log.upTo s.1.last <+: log.entries.take p ∧
        (uninterrupted .empty (log.entries.take p)).machine.snapshot none = .ok s.2) ∧
    ∀ f : Fleet ι, Run log (Quiet log) f → (∀ s ∈ f.snapshots, Exact log s) ∧
      ∀ i n j folder, ∃ r, ofDisk (halted log f i n j) folder = .ok r ∧
        ∀ s, r.build.1 = .ok s → (Exact log s ↔ Quiet log f i n j) := by
  constructor
  · intro stops f hf s hs
    obtain ⟨a, p, -, hfaithful⟩ := ((bounds_of_any log stops).led hf).snapshots s hs
    refine ⟨hfaithful.labelled, p, ?_, hfaithful.snapshot⟩
    rw [hfaithful.upTo]
    exact List.take_prefix_take_left hfaithful.reached
  · intro f hf
    have hled := (bounds_of_quiet log).led hf
    constructor
    · intro s hs
      obtain ⟨a, p, rfl, hfaithful⟩ := hled.snapshots s hs
      exact hfaithful.exact_iff.mpr rfl
    · intro i n j folder
      obtain ⟨a, p, rfl, hr⟩ := hled.replicas i
      have hhalted := hr.halted n j
      obtain ⟨r, hopen, hr'⟩ := hhalted.opened folder
      refine ⟨r, hopen, ?_⟩
      intro s hb
      rw [(faithful_build hr' hb).exact_iff, Quiet, hr.holds]
      constructor
      · intro hsame
        exact hhalted.holds.trans (congrArg Store.tableOf hsame)
      · intro hsame
        exact hhalted.holds.unique hsame

def twoStates : Log.Committed where
  entries := [⟨⟨default, 1⟩, .command (.claim (contender "a"))⟩,
    ⟨⟨default, 2⟩, .command (.claim ⟨[⟨default, 1⟩], default, .named "b"⟩)⟩]
  increasing := by decide

theorem records_twoStates_ne : twoStates.records 2 ≠ twoStates.records 1 := by
  decide +kernel

theorem exists_one_applied (stops : Fleet Unit → Unit → Nat → Nat → Prop) :
    ∃ f : Fleet Unit, Run twoStates stops f ∧ Follows twoStates 1 1 (f.replica ()) := by
  obtain ⟨responses, r, happly, hr⟩ := (Follows.fresh twoStates .empty).apply 1
  refine ⟨_, (Run.start fun _ => .empty).move (i := ()) (.apply 1), ?_⟩
  rw [replica_set_self]
  exact (congrArg Prod.snd happly).symm ▸ hr

theorem build_one_applied {f : Fleet Unit} (hf : Follows twoStates 1 1 (f.replica ())) :
    ∃ s, (f.replica ()).build.1 = .ok s := by
  obtain ⟨archive, hbuild⟩ := Replica.build_ok hf.holds (by decide +kernel)
  exact ⟨_, congrArg Prod.fst hbuild⟩

theorem build_stopped {f : Fleet Unit} (hf : Follows twoStates 1 1 (f.replica ())) : ∃ r s,
    ofDisk (halted twoStates f () 1 1) .empty = .ok r ∧ r.build.1 = .ok s ∧ Faithful twoStates 1 2 s := by
  obtain ⟨r, hopen, hr⟩ := (hf.halted 1 1).opened .empty
  obtain ⟨archive, hbuild⟩ := Replica.build_ok hr.holds (by decide +kernel)
  have hb := congrArg Prod.fst hbuild
  exact ⟨r, _, hopen, hb, faithful_build hr hb⟩

theorem exact_before_the_stop : ∃ f : Fleet Unit, Run twoStates (Quiet twoStates) f ∧
    (∃ s ∈ f.snapshots, Labelled twoStates s.1 ∧ Exact twoStates s) ∧ ¬Quiet twoStates f () 1 1 ∧ ∃ r s,
      ofDisk (halted twoStates f () 1 1) .empty = .ok r ∧ r.build.1 = .ok s ∧ ¬Exact twoStates s := by
  obtain ⟨f, hf, hr⟩ := exists_one_applied (Quiet twoStates)
  obtain ⟨s, hb⟩ := build_one_applied hr
  have hf' : Run twoStates (Quiet twoStates) _ := hf.move (.build hb)
  have hr' := follows_build hr
  rw [← replica_set_self f () (f.replica ()).build.2] at hr'
  have hloud : ¬Quiet twoStates { f.set () (f.replica ()).build.2 with snapshots := s :: f.snapshots } () 1 1 := by
    intro hquiet
    exact records_twoStates_ne ((hr'.halted 1 1).holds.unique (hquiet.trans hr'.holds))
  have hlabel := ((exact_until_a_stop_shows twoStates).1 _ _ hf' s List.mem_cons_self).1
  obtain ⟨hexact, hstop⟩ := (exact_until_a_stop_shows twoStates).2 _ hf'
  obtain ⟨r, s', hopen, hb', -⟩ := build_stopped hr'
  obtain ⟨r', hopen', hiff⟩ := hstop () 1 1 .empty
  obtain rfl := Except.ok.inj (hopen.symm.trans hopen')
  exact ⟨_, hf', ⟨s, List.mem_cons_self, hlabel, hexact s List.mem_cons_self⟩, hloud, r, s', hopen, hb',
    mt (hiff s' hb').mp hloud⟩

theorem stopped_replica_builds_ahead : ∃ f : Fleet Unit, Run twoStates (fun _ _ _ _ => True) f ∧
    ∃ s ∈ f.snapshots, s.1.last = some ⟨default, 1⟩ ∧ s.2 = streamOf (twoStates.records 2) ∧
      ¬Exact twoStates s := by
  obtain ⟨f, hf, hr⟩ := exists_one_applied fun _ _ _ _ => True
  obtain ⟨r, s, hopen, hb, hs⟩ := build_stopped hr
  have hstopped : Run twoStates (fun _ _ _ _ => True) (f.set () r) := hf.move (.stop trivial hopen)
  rw [← replica_set_self f () r] at hb
  refine ⟨_, hstopped.move (.build hb), s, List.mem_cons_self, ?_, hs.stream, ?_⟩
  · exact congrArg Applied.last hs.label
  · rw [hs.exact_iff]
    exact records_twoStates_ne

end Fleet

end Uniqueness
