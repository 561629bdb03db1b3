import Uniqueness.Proofs.CrashReplay
import Uniqueness.Proofs.InstallOutcomes

/-!
Replicas of one log agree. Each has the records of a prefix of the log that reaches the position it
has written, through batches, snapshots of one another and crashes in any order.
-/

namespace Uniqueness

namespace Machine

def Answers (m : Machine) (key : StateRef) (c : Consumption) : Prop :=
  (∃ m', m.apply (.get key) = .ok (.value (some c), m')) ∨ m.query (.get key) = .ok (.value (some c))

theorem answers_iff {m : Machine} {h : History} (hm : m.store.Holds h) {key : StateRef} {c : Consumption} :
    m.Answers key c ↔ h.get? key = some c := by
  have happly : m.apply (.get key) = .ok (.value (h.get? key), m) := by
    rw [apply_eq hm, History.reply]
    exact congrArg _ (congrArg _ (holding_self hm))
  constructor
  · rintro (⟨m', hc⟩ | hc)
    · rw [happly, Except.ok.injEq, Prod.mk.injEq, Response.value.injEq] at hc
      exact hc.1
    · have hquery : (m.dispatch (.get key)).map (·.1) = .ok (.value (h.get? key)) := by
        rw [dispatch, hm.get]
        rfl
      rw [query, hquery] at hc
      split at hc
      · cases hc
      · split at hc
        · cases hc
        · rw [mapError_ok, Except.ok.injEq, Response.value.injEq] at hc
          exact hc
  · intro hc
    rw [hc] at happly
    exact .inl ⟨m, happly⟩

end Machine

structure Fleet (ι : Type) where
  replica : ι → Replica
  snapshots : List (Archive.Meta × Bytes)

namespace Fleet

open Replica (Covers Follows appliedOf ofDisk uninterrupted)
open Snapshot (streamOf)

variable {ι : Type} [DecidableEq ι]

def start (folders : ι → Archive.Folder) : Fleet ι :=
  ⟨fun i => .fresh (folders i), []⟩

def set (f : Fleet ι) (i : ι) (r : Replica) : Fleet ι :=
  { f with replica := fun j => if j = i then r else f.replica j }

def batch (log : Log.Committed) (f : Fleet ι) (i : ι) (n : Nat) : List Log.Entry :=
  (log.pending (f.replica i).applied.last).take n

structure Arrived (f : Fleet ι) (i : ι) (about : Archive.Meta) (stream : Bytes) : Prop where
  built : (about, stream) ∈ f.snapshots
  received : (f.replica i).archive.received = .ok stream
  notOlder : ∀ id ∈ (f.replica i).applied.last, ∃ id' ∈ about.last, id.index ≤ id'.index

/-- The stores that a replica may leave when it stops: as it is, or with part of the writes done of a
batch or of an installation. -/
inductive Left (log : Log.Committed) (f : Fleet ι) (i : ι) : Store → Prop
  | idle : Left log f i (f.replica i).machine.store
  | applying (n j : Nat) :
    Left log f i ((f.replica i).applyAll ((f.batch log i n).take j)).2.machine.store
  | replacing {about : Archive.Meta} {stream : Bytes} (h : f.Arrived i about stream) :
    Left log f i ((f.replica i).machine.install stream).2.store
  | installing {about : Archive.Meta} {stream : Bytes} (h : f.Arrived i about stream) :
    Left log f i ((f.replica i).install about).2.machine.store

inductive Step (log : Log.Committed) (f : Fleet ι) (i : ι) : Fleet ι → Prop
  | apply (n : Nat) : Step log f i (f.set i ((f.replica i).apply (f.batch log i n)).2)
  | build {snapshot : Archive.Meta × Bytes} (h : (f.replica i).build.1 = .ok snapshot) :
    Step log f i { f.set i (f.replica i).build.2 with snapshots := snapshot :: f.snapshots }
  | buildFailed {fault : Storage.Fault} (h : (f.replica i).build.1 = .error fault) :
    Step log f i (f.set i (f.replica i).build.2)
  | receive (stream : Bytes) : Step log f i (f.set i ((f.replica i).receive stream))
  | install {about : Archive.Meta} {stream : Bytes} (h : f.Arrived i about stream) :
    Step log f i (f.set i ((f.replica i).install about).2)
  | reopen {s : Store} {folder : Archive.Folder} {r : Replica} (hs : f.Left log i s)
    (hr : Replica.ofDisk s folder = .ok r) : Step log f i (f.set i r)

inductive Reachable (log : Log.Committed) : Fleet ι → Prop
  | start (folders : ι → Archive.Folder) : Reachable log (start folders)
  | step {f f' : Fleet ι} {i : ι} (hf : Reachable log f) (h : Step log f i f') : Reachable log f'

structure Faithful (log : Log.Committed) (a p : Nat) (s : Archive.Meta × Bytes) : Prop where
  reached : a ≤ p
  small : (log.records p).size < UInt32.size / 2
  stream : s.2 = streamOf (log.records p)
  label : (⟨s.1.last, s.1.membership⟩ : Applied) = log.position a

structure Sound (log : Log.Committed) (f : Fleet ι) : Prop where
  replicas : ∀ i, ∃ a p, Follows log a p (f.replica i)
  snapshots : ∀ s ∈ f.snapshots, ∃ a p, Faithful log a p s

variable {log : Log.Committed} {f : Fleet ι}

omit [DecidableEq ι] in
theorem sound_start (log : Log.Committed) (folders : ι → Archive.Folder) : Sound log (start folders) where
  replicas i := ⟨0, 0, .fresh log (folders i)⟩
  snapshots := nofun

theorem replica_set_self (f : Fleet ι) (i : ι) (r : Replica) : (f.set i r).replica i = r :=
  if_pos rfl

theorem replica_set_of_ne (f : Fleet ι) {i j : ι} (h : j ≠ i) (r : Replica) :
    (f.set i r).replica j = f.replica j :=
  if_neg h

theorem forall_replica_set {P : Replica → Prop} (hf : ∀ j, P (f.replica j)) {r : Replica} (hr : P r)
    (i j : ι) : P ((f.set i r).replica j) := by
  by_cases hj : j = i
  · subst hj
    rw [replica_set_self]
    exact hr
  · rw [replica_set_of_ne f hj]
    exact hf j

theorem Sound.set (hf : Sound log f) {i : ι} {r : Replica} {a p : Nat} (hr : Follows log a p r) :
    Sound log (f.set i r) where
  replicas := forall_replica_set (P := fun r => ∃ a p, Follows log a p r) hf.replicas ⟨a, p, hr⟩ i
  snapshots := hf.snapshots

variable {r : Replica} {a p a' p' : Nat} {s : Archive.Meta × Bytes}

theorem faithful_build (hr : Follows log a p r) (hb : r.build.1 = .ok s) : Faithful log a p s := by
  by_cases hsize : (log.records p).size < UInt32.size / 2
  · obtain ⟨archive, hbuild⟩ := Replica.build_ok hr.holds hsize
    rw [hbuild] at hb
    cases hb
    exact ⟨hr.covers.reached, hsize, rfl, hr.applied⟩
  · obtain ⟨fault, archive, hbuild⟩ := Replica.build_failed hr.holds hsize
    rw [hbuild] at hb
    cases hb

theorem follows_build (hr : Follows log a p r) : Follows log a p r.build.2 := by
  by_cases hsize : (log.records p).size < UInt32.size / 2
  · obtain ⟨archive, hbuild⟩ := Replica.build_ok hr.holds hsize
    rw [hbuild]
    exact ⟨hr.covers, hr.applied⟩
  · obtain ⟨fault, archive, hbuild⟩ := Replica.build_failed hr.holds hsize
    rw [hbuild]
    exact ⟨hr.covers, hr.applied⟩

theorem follows_install_cases (hr : Follows log a p r) (hs : Faithful log a' p' s)
    (harrived : r.archive.received = .ok s.2) :
    Follows log a' p' (r.install s.1).2 ∨ Follows log a p (r.install s.1).2 := by
  rw [hs.stream] at harrived
  by_cases hh : ∀ e ∈ (log.records p').entries, Snapshot.Readable e
  · obtain ⟨archive, hi⟩ := Replica.install_readable s.1 harrived hs.small hh
    rw [hi]
    refine .inl ⟨⟨hs.reached, rfl, ?_⟩, hs.label⟩
    rw [← hs.label]
    exact Replica.appliedOf_persist _
  · obtain ⟨fault, hi⟩ := Replica.install_unreadable s.1 harrived hs.small hh
    rw [hi]
    exact .inr ⟨hr.covers, hr.applied⟩

theorem follows_install (hr : Follows log a p r) (hs : Faithful log a' p' s)
    (harrived : r.archive.received = .ok s.2) : ∃ b q, Follows log b q (r.install s.1).2 := by
  rcases follows_install_cases hr hs harrived with h | h
  · exact ⟨a', p', h⟩
  · exact ⟨a, p, h⟩

theorem covers_replacing (hr : Covers log a p r.machine.store) (hs : Faithful log a' p' s) (ha : a ≤ p') :
    ∃ q, Covers log a q (r.machine.install s.2).2.store := by
  rw [hs.stream]
  by_cases hh : ∀ e ∈ (log.records p').entries, Snapshot.Readable e
  · rw [Machine.install_readable r.machine hs.small hh]
    exact ⟨p', ha, rfl, hr.noted⟩
  · obtain ⟨fault, hi⟩ := Machine.install_unreadable r.machine hs.small hh
    rw [hi]
    exact ⟨p, hr⟩

omit [DecidableEq ι] in
theorem Arrived.le {i : ι} {about : Archive.Meta} {stream : Bytes} (h : f.Arrived i about stream)
    (hr : Follows log a p (f.replica i)) (hs : Faithful log a' p' (about, stream)) :
    min a log.entries.length ≤ p' := by
  have hlast : (log.position a').last = about.last := by rw [← hs.label]
  have holder := h.notOlder
  rw [hr.applied, ← hlast] at holder
  have hmin : log.position (min a log.entries.length) = log.position a := by
    rw [Log.Committed.position, log.take_min, Log.Committed.position]
  rw [← hmin] at holder
  exact Nat.le_trans (log.le_of_last_le (Nat.min_le_right _ _) holder) hs.reached

omit [DecidableEq ι] in
theorem Sound.left (hf : Sound log f) {i : ι} {s : Store} (h : f.Left log i s) : ∃ a p, Covers log a p s := by
  obtain ⟨a, p, hr⟩ := hf.replicas i
  cases h with
  | idle => exact ⟨a, p, hr.covers⟩
  | applying n j => exact ⟨a, _, hr.halted n j⟩
  | replacing h =>
    -- the records are the snapshot's and the position is still the old one, so it must not be past them
    obtain ⟨a', p', hs⟩ := hf.snapshots _ h.built
    obtain ⟨q, hq⟩ := covers_replacing hr.covers.within hs (h.le hr hs)
    exact ⟨_, q, hq⟩
  | installing h =>
    obtain ⟨a', p', hs⟩ := hf.snapshots _ h.built
    obtain ⟨b, q, hq⟩ := follows_install hr hs h.received
    exact ⟨b, q, hq.covers⟩

theorem Sound.step (hf : Sound log f) {i : ι} {f' : Fleet ι} (h : Step log f i f') : Sound log f' := by
  obtain ⟨a, p, hr⟩ := hf.replicas i
  cases h with
  | apply n =>
    obtain ⟨responses, r', ha, hr'⟩ := hr.apply n
    rw [batch, ha]
    exact hf.set hr'
  | build h =>
    have hset := hf.set (follows_build hr) (i := i)
    refine ⟨hset.replicas, ?_⟩
    intro s hs
    rcases List.mem_cons.mp hs with rfl | hs
    · exact ⟨a, p, faithful_build hr h⟩
    · exact hset.snapshots s hs
  | buildFailed => exact hf.set (follows_build hr)
  | receive stream => exact hf.set (a := a) (p := p) ⟨hr.covers, hr.applied⟩
  | install h =>
    obtain ⟨a', p', hs⟩ := hf.snapshots _ h.built
    obtain ⟨b, q, hq⟩ := follows_install hr hs h.received
    exact hf.set hq
  | reopen hs hopen =>
    obtain ⟨b, q, hq⟩ := hf.left hs
    obtain ⟨r', hr', hfollows⟩ := hq.opened _
    rw [hr'] at hopen
    cases hopen
    exact hf.set hfollows

theorem sound_of_reachable (hf : Reachable log f) : Sound log f := by
  induction hf with
  | start folders => exact sound_start log folders
  | step _ h ih => exact ih.step h

omit [DecidableEq ι] in
theorem Sound.answers (hf : Sound log f) {i : ι} {m : Machine} (hm : f.Left log i m.store) {key : StateRef}
    {c : Consumption} (hc : m.Answers key c) : ∃ p, (log.records p).get? key = some c := by
  obtain ⟨a, p, hs⟩ := hf.left hm
  exact ⟨p, (Machine.answers_iff hs.holds).mp hc⟩

/-- Every replica, and every store that one may leave when it stops, has the records of a prefix of the
log that reaches the position written there. No two ever answer a look-up with two consumers. -/
theorem replicas_agree (hf : Reachable log f) (folder : Archive.Folder) :
    (∀ i s, f.Left log i s →
      (∃ a p, a ≤ p ∧ s.table = (uninterrupted folder (log.entries.take p)).machine.store.table ∧
        appliedOf s = .ok (uninterrupted folder (log.entries.take a)).applied) ∧
      ∃ r, ofDisk s folder = .ok r) ∧
    (∀ i, appliedOf (f.replica i).machine.store = .ok (f.replica i).applied) ∧
    (∀ i n, ∃ responses, ((f.replica i).apply (f.batch log i n)).1 = .ok responses) ∧
    ∀ f' : Fleet ι, Reachable log f' → ∀ i j, ∀ m m' : Machine, f.Left log i m.store → f'.Left log j m'.store →
      ∀ key c c', m.Answers key c → m'.Answers key c' → c = c' := by
  have hsound := sound_of_reachable hf
  refine ⟨?_, ?_, ?_, ?_⟩
  · intro i s hs
    obtain ⟨a, p, hcovers⟩ := hsound.left hs
    refine ⟨⟨a, p, hcovers.reached, ?_, ?_⟩, ?_⟩
    · rw [Replica.table_uninterrupted]
      exact hcovers.holds
    · rw [Replica.applied_uninterrupted]
      exact hcovers.noted
    · obtain ⟨r, hr, -⟩ := hcovers.opened folder
      exact ⟨r, hr⟩
  · intro i
    obtain ⟨a, p, hr⟩ := hsound.replicas i
    exact hr.noted
  · intro i n
    obtain ⟨a, p, hr⟩ := hsound.replicas i
    obtain ⟨responses, r', happly, -⟩ := hr.apply n
    exact ⟨responses, by rw [batch, happly]⟩
  · intro f' hf' i j m m' hm hm' key c c' hc hc'
    obtain ⟨p, hp⟩ := hsound.answers hm hc
    obtain ⟨p', hp'⟩ := (sound_of_reachable hf').answers hm' hc'
    exact log.records_agree hp hp'

def contender (name : String) : Claim :=
  ⟨[default], default, .named name⟩

def contested : Log.Committed where
  entries := [⟨⟨default, 1⟩, .command (.claim (contender "a"))⟩, ⟨⟨default, 2⟩, .command (.claim (contender "b"))⟩]
  increasing := by decide

theorem stopped_replica_agrees : ∃ f : Fleet Bool, Reachable contested f ∧
    (∀ i, (f.replica i).machine.Answers default ⟨default, 0, .named "a"⟩) ∧
    ∀ i, ∀ m : Machine, f.Left contested i m.store → ∀ c, m.Answers default c → c = ⟨default, 0, .named "a"⟩ := by
  let f₀ : Fleet Bool := start fun _ => .empty
  let f₁ := f₀.set true ((f₀.replica true).apply (f₀.batch contested true 2)).2
  have hfresh := Follows.fresh contested .empty
  obtain ⟨responses, r, happly, hr⟩ := hfresh.apply 2
  have hstopped := hfresh.halted 1 1
  obtain ⟨r', hopen, hr'⟩ := hstopped.opened .empty
  have hf : Reachable contested (f₁.set false r') :=
    ((Reachable.start _).step (.apply 2)).step (.reopen (.applying 1 1) hopen)
  have hanswers : ∀ i, ((f₁.set false r').replica i).machine.Answers default ⟨default, 0, .named "a"⟩ := by
    have happlied : f₁.replica true = r := by
      rw [replica_set_self]
      exact congrArg Prod.snd happly
    intro i
    cases i with
    | false =>
      rw [replica_set_self, Machine.answers_iff hr'.holds]
      decide +kernel
    | true =>
      rw [replica_set_of_ne f₁ (by decide), happlied, Machine.answers_iff hr.holds]
      decide +kernel
  refine ⟨_, hf, hanswers, ?_⟩
  intro i m hm c hc
  exact (replicas_agree hf .empty).2.2.2 _ hf i true m _ hm .idle default c _ hc (hanswers true)

end Fleet

end Uniqueness
