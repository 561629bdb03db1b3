import Uniqueness.Proofs.CrashReplay
import Uniqueness.Proofs.InstallOutcomes

namespace Uniqueness

namespace History

theorem repliesTo_append (h : History) (es fs : List Log.Entry) :
    h.repliesTo (es ++ fs) = h.repliesTo es ++ (h.afterAll es).repliesTo fs := by
  induction es generalizing h with
  | nil => rfl
  | cons e es ih =>
    rw [List.cons_append, repliesTo, ih]
    rfl

end History

namespace Replica

open Archive (Meta Newest NumberedBelow Stored)
open Snapshot (streamOf)

inductive Turn where
  | batch (es : List Log.Entry)
  | reopen

def Turn.entries : Turn → List Log.Entry
  | .batch es => es
  | .reopen => []

def entriesOf (turns : List Turn) : List Log.Entry :=
  turns.flatMap Turn.entries

theorem entriesOf_append (turns turns' : List Turn) :
    entriesOf (turns ++ turns') = entriesOf turns ++ entriesOf turns' :=
  List.flatMap_append

def work (r : Replica) : List Turn → Option (List Response × Replica)
  | [] => some ([], r)
  | .batch es :: turns => match r.apply es with
    | (.ok responses, r) => (r.work turns).map fun p => (responses ++ p.1, p.2)
    | (.error _, _) => none
  | .reopen :: turns => match r.reopen with
    | .ok r => r.work turns
    | .error _ => none

variable {r r' : Replica} {h : History} {a : Applied}

structure Stands (h : History) (a : Applied) (r : Replica) : Prop where
  holds : r.machine.store.Holds h
  applied : r.applied = a
  noted : appliedOf r.machine.store = .ok a

namespace Stands

theorem empty : Stands .empty .start Replica.empty :=
  ⟨rfl, rfl, rfl⟩

theorem fresh (folder : Archive.Folder) : Stands .empty .start (fresh folder) :=
  ⟨rfl, rfl, rfl⟩

theorem apply (hr : Stands h a r) (es : List Log.Entry) : ∃ r', r.apply es = (.ok (h.repliesTo es), r') ∧
    Stands (h.afterAll es) (a.advanceAll es) r' ∧ r'.archive = r.archive := by
  have happlied : (r.advanced h es).applied = a.advanceAll es := by rw [advanced, hr.applied]
  refine ⟨_, apply_eq hr.holds es, ?_⟩
  split
  case isTrue he =>
    rw [List.isEmpty_iff.mp he, advanced_nil hr.holds]
    exact ⟨hr, rfl⟩
  case isFalse =>
    refine ⟨⟨rfl, happlied, ?_⟩, rfl⟩
    rw [appliedOf_persist, happlied]

theorem reopen (hr : Stands h a r) :
    ∃ r', r.reopen = .ok r' ∧ Stands h a r' ∧ r'.archive = r.archive.reopen :=
  ⟨_, ofDisk_eq hr.noted _, ⟨hr.holds, rfl, hr.noted⟩, rfl⟩

theorem work (hr : Stands h a r) {P : Archive → Prop} (hP : ∀ a, P a → P a.reopen) (harchive : P r.archive)
    (turns : List Turn) : ∃ r', r.work turns = some (h.repliesTo (entriesOf turns), r') ∧
      Stands (h.afterAll (entriesOf turns)) (a.advanceAll (entriesOf turns)) r' ∧ P r'.archive := by
  induction turns generalizing r h a with
  | nil => exact ⟨r, rfl, hr, harchive⟩
  | cons turn turns ih =>
    have hentries : entriesOf (turn :: turns) = turn.entries ++ entriesOf turns := rfl
    rw [hentries, History.repliesTo_append, History.afterAll_append, Applied.advanceAll_append]
    cases turn with
    | batch es =>
      obtain ⟨r₁, happly, hr₁, hsame⟩ := hr.apply es
      obtain ⟨r', hwork, hr', harchive'⟩ := ih hr₁ (hsame ▸ harchive)
      refine ⟨r', ?_, hr', harchive'⟩
      rw [Replica.work, happly]
      simp only [hwork, Option.map_some]
      rfl
    | reopen =>
      obtain ⟨r₁, hopen, hr₁, hsame⟩ := hr.reopen
      obtain ⟨r', hwork, hr', harchive'⟩ := ih hr₁ (hsame ▸ hP _ harchive)
      refine ⟨r', ?_, hr', harchive'⟩
      rw [Replica.work, hopen]
      exact hwork

theorem build (hr : Stands h a r) : Stands h a r.build.2 := by
  obtain ⟨result, archive, hbuild⟩ := build_eq hr.holds
  rw [hbuild]
  exact ⟨hr.holds, hr.applied, hr.noted⟩

end Stands

theorem eq_installed {about : Meta} (hs : r.archive.received = .ok (streamOf h)) (hsize : h.size < UInt32.size / 2)
    (hi : r.install about = (.ok (), r')) : r' = r.installed h.entries about := by
  -- a stream with a record that is too long is not read again, so there is no installation
  by_cases hh : ∀ e ∈ h.entries, Snapshot.Readable e
  · rcases install_cases hs about with ⟨es, hes, hok⟩ | ⟨-, corruption, hfault⟩
    · rw [hi, hes.unique (Snapshot.wellFormed_streamOf hsize hh)] at hok
      exact congrArg Prod.snd hok
    · rw [hi] at hfault
      cases hfault
  · obtain ⟨fault, hfault⟩ := install_unreadable about hs hsize hh
    rw [hi] at hfault
    cases hfault

theorem stands_installed (r : Replica) (es : List Store.Entry) (about : Meta) :
    Stands (.ofList es) ⟨about.last, about.membership⟩ (r.installed es about) where
  holds := rfl
  applied := rfl
  noted := appliedOf_persist _

def Keeps (about : Meta) (stream : Bytes) (archive : Archive) : Prop :=
  ∃ s : Stored, s.about = about ∧ archive.current = some s ∧ Newest archive.folder s stream

variable {about : Meta} {stream : Bytes}

theorem Keeps.reopen {archive : Archive} (h : Keeps about stream archive) : Keeps about stream archive.reopen := by
  obtain ⟨s, rfl, -, hnewest⟩ := h
  exact ⟨s, rfl, hnewest.reopen⟩

theorem Keeps.current (hr : Keeps about stream r.archive) : r.current = .ok (some (about, stream)) := by
  obtain ⟨s, rfl, hs, hnewest⟩ := hr
  exact current_of_read hs hnewest.read

theorem keeps_installed (hr : r.archive = .empty) (es : List Store.Entry) (about : Meta) (stream : Bytes) :
    Keeps about stream ((r.receive stream).installed es about).archive := by
  have hfile := Archive.received_eq_ok_iff.mp (r.received_receive stream)
  have hcurrent : ∀ s ∈ (r.receive stream).archive.current, s.number < (r.receive stream).archive.next := by
    rw [receive, hr]
    intro s hs
    cases hs
  have hbelow : NumberedBelow (r.receive stream).archive.folder (r.receive stream).archive.next := by
    intro name n hn hname
    rw [receive, hr, Archive.receive, Archive.get?_writeFile_of_ne (Archive.ne_receivingName hn)] at hname
    exact absurd rfl hname
  exact ⟨_, rfl, (Archive.current_commit (a := (r.receive stream).archive.draw.2) hfile hcurrent about).1,
    Archive.newest_commit (a := (r.receive stream).archive.draw.2) hfile Archive.number?_receivingName hbelow hcurrent
      about⟩

structure Alike (r r' : Replica) : Prop where
  contents : r.machine.store.table = r'.machine.store.table
  applied : r.applied = r'.applied
  noted : appliedOf r.machine.store = .ok r.applied ∧ appliedOf r'.machine.store = .ok r'.applied
  snapshot : r.machine.snapshot none = r'.machine.snapshot none

theorem Stands.alike (hr : Stands h a r) (hr' : Stands h a r') : Alike r r' where
  contents := by rw [hr.holds, hr'.holds]
  applied := by rw [hr.applied, hr'.applied]
  noted := by rw [hr.noted, hr.applied, hr'.noted, hr'.applied]; exact ⟨rfl, rfl⟩
  snapshot := by rw [Machine.snapshot_eq hr.holds, Machine.snapshot_eq hr'.holds]

theorem stands_uninterrupted (es : List Log.Entry) :
    Stands (History.afterAll .empty es) (Applied.start.advanceAll es) (uninterrupted .empty es) := by
  obtain ⟨r, hr, hstands, -⟩ := (Stands.fresh .empty).apply es
  rw [uninterrupted, hr]
  exact hstands

theorem Stands.installs {about : Meta} {stream : Bytes} {leader leader' : Replica} (hl : Stands h a leader)
    (hb : leader.build = (.ok (about, stream), leader')) (hr : r.archive = .empty)
    (hi : (r.receive stream).install about = (.ok (), r')) :
    Stands h a leader' ∧ Stands h a r' ∧ Keeps about stream r'.archive := by
  have hl' := hl.build
  rw [hb] at hl'
  -- the snapshot is built, so it is the stream of the records and is labelled with the position
  have hsize : h.size < UInt32.size / 2 := by
    by_contra hsize
    obtain ⟨fault, archive, hfailed⟩ := build_failed hl.holds hsize
    rw [hfailed] at hb
    cases hb
  obtain ⟨archive, hbuilt⟩ := build_ok hl.holds hsize
  rw [hbuilt] at hb
  cases hb
  have hlabel : (⟨leader.label.last, leader.label.membership⟩ : Applied) = a := hl.applied
  have hf := stands_installed (r.receive (streamOf h)) h.entries leader.label
  rw [SortedMap.ofList_entries, hlabel] at hf
  rw [eq_installed (r.received_receive _) hsize hi]
  exact ⟨hl', hf, keeps_installed hr _ _ _⟩

/-- A replica that installs a snapshot of another, whatever it has applied before, answers all later
entries as that one does. It is then as that one is, and as one that has applied all entries at once. -/
theorem bootstrap_equals_replay (leaderTurns followerTurns : List Turn) :
    ∃ answers leader answers' follower,
      empty.work leaderTurns = some (answers, leader) ∧ empty.work followerTurns = some (answers', follower) ∧
      ∀ about stream leader' follower', leader.build = (.ok (about, stream), leader') →
        (follower.receive stream).install about = (.ok (), follower') →
        follower'.current = .ok (some (about, stream)) ∧
        ∀ leaderRest followerRest, entriesOf leaderRest = entriesOf followerRest →
          ∃ responses l f, leader'.work leaderRest = some (responses, l) ∧
            follower'.work followerRest = some (responses, f) ∧ Alike l f ∧ f.current = .ok (some (about, stream)) ∧
            ((uninterrupted .empty (entriesOf leaderTurns)).apply (entriesOf leaderRest)).1 = .ok responses ∧
            Alike l (uninterrupted .empty (entriesOf (leaderTurns ++ leaderRest))) := by
  obtain ⟨leader, hwork, hl, -⟩ := Stands.empty.work (P := fun _ => True) (fun _ _ => trivial) trivial leaderTurns
  have hopen : ∀ archive : Archive, archive = .empty → archive.reopen = .empty := by
    rintro _ rfl
    rfl
  obtain ⟨follower, hwork', -, hempty⟩ := Stands.empty.work hopen rfl followerTurns
  refine ⟨_, leader, _, follower, hwork, hwork', ?_⟩
  intro about stream leader' follower' hbuild hinstall
  obtain ⟨hl', hf', hkeeps⟩ := hl.installs hbuild hempty hinstall
  refine ⟨hkeeps.current, ?_⟩
  intro leaderRest followerRest hrest
  obtain ⟨l, hrun, hstands, -⟩ := hl'.work (P := fun _ => True) (fun _ _ => trivial) trivial leaderRest
  obtain ⟨f, hrun', hstands', hkept⟩ := hf'.work (P := Keeps about stream) (fun _ => Keeps.reopen)
    hkeeps followerRest
  rw [← hrest] at hrun' hstands'
  obtain ⟨r, happly, -, -⟩ := (stands_uninterrupted (entriesOf leaderTurns)).apply (entriesOf leaderRest)
  have hall := stands_uninterrupted (entriesOf (leaderTurns ++ leaderRest))
  refine ⟨_, l, f, hrun, hrun', hstands.alike hstands', hkept.current, congrArg Prod.fst happly, ?_⟩
  rw [← History.afterAll_append, ← Applied.advanceAll_append, ← entriesOf_append] at hstands
  exact hstands.alike hall

def claimed : Log.Entry :=
  ⟨⟨default, 1⟩, .command (.claim (Machine.claimBy "a"))⟩

def joined : Log.Entry :=
  ⟨⟨default, 2⟩, .membership default⟩

def refused : Log.Entry :=
  ⟨⟨default, 3⟩, .command (.claim (Machine.claimBy "b"))⟩

theorem readable_claimed : ∀ e ∈ (History.afterAll .empty [claimed, joined]).entries, Snapshot.Readable e := by
  have hentries : (History.afterAll .empty [claimed, joined]).entries =
      [(default, (Machine.claimBy "a").record default)] := by
    decide +kernel
  rw [hentries, List.forall_mem_singleton]
  exact Machine.compact_claimBy _ List.mem_cons_self default List.mem_cons_self

theorem snapshot_of_claim_bootstraps : ∃ answers leader follower about stream leader' follower' responses l f,
    empty.work [.batch [claimed], .reopen, .batch [joined]] = some (answers, leader) ∧
    leader.build = (.ok (about, stream), leader') ∧
    empty.work [] = some ([], follower) ∧ (follower.receive stream).install about = (.ok (), follower') ∧
    follower'.current = .ok (some (about, stream)) ∧
    leader'.work [.batch [refused]] = some (responses, l) ∧
    follower'.work [.reopen, .batch [], .batch [refused], .reopen] = some (responses, f) ∧ Alike l f ∧
    responses = [.conflict ⟨.ofList [(default, (Machine.claimBy "a").record default)]⟩] := by
  obtain ⟨answers, leader, answers', follower, hwork, hwork', hall⟩ :=
    bootstrap_equals_replay [.batch [claimed], .reopen, .batch [joined]] []
  obtain ⟨leader₁, hwork₁, hl, -⟩ := Stands.empty.work (P := fun _ => True) (fun _ _ => trivial) trivial
    [.batch [claimed], .reopen, .batch [joined]]
  rw [hwork₁, Option.some.injEq, Prod.mk.injEq] at hwork
  obtain ⟨rfl, rfl⟩ := hwork
  cases hwork'
  have hsize : (History.afterAll .empty [claimed, joined]).size < UInt32.size / 2 := by decide +kernel
  obtain ⟨archive, hbuild⟩ := build_ok hl.holds hsize
  obtain ⟨archive', hinstall⟩ := install_readable leader₁.label (empty.received_receive _) hsize readable_claimed
  obtain ⟨hcurrent, hrest⟩ := hall _ _ _ _ hbuild hinstall
  obtain ⟨responses, l, f, hrun, hrun', halike, -, happly, -⟩ := hrest [.batch [refused]]
    [.reopen, .batch [], .batch [refused], .reopen] rfl
  refine ⟨_, leader₁, empty, _, _, _, _, responses, l, f, hwork₁, hbuild, rfl, hinstall, hcurrent, hrun, hrun',
    halike, ?_⟩
  rw [apply_eq (stands_uninterrupted _).holds, Except.ok.injEq] at happly
  rw [← happly]
  decide +kernel

end Replica

end Uniqueness
