import Uniqueness.Failure
import Uniqueness.Proofs.NewestSnapshot
import Uniqueness.Proofs.ReplicaSnapshots
import Uniqueness.Proofs.SnapshotFormat

namespace Uniqueness

namespace Machine

def marked (m : Machine) (b : Bool) : Machine :=
  { m with needsResync := b }

theorem claim_marked (m : Machine) (b : Bool) (c : Claim) :
    (m.marked b).claim c = (m.claim c).map fun p => (p.1, p.2.marked b) := by
  rw [claim, claim]
  split
  · rfl
  · change (m.store.putAllIfAbsent c.records >>= _) = _
    cases m.store.putAllIfAbsent c.records with
    | error fault => rfl
    | ok found =>
      simp only [ok_bind]
      split
      · rfl
      · rfl

theorem apply_marked (m : Machine) (b : Bool) (command : Command) :
    (m.marked b).apply command = (m.apply command).map fun p => (p.1, p.2.marked b) := by
  cases command with
  | claim c =>
    simp only [apply, dispatch, claim_marked]
    cases m.claim c with
    | error fault => rfl
    | ok found => rfl
  | get key =>
    simp only [apply, dispatch]
    change ((m.store.get key >>= _).mapError _) = _
    cases m.store.get key with
    | error fault => rfl
    | ok found => rfl
  | size => rfl

theorem applyAll_marked (m : Machine) (b : Bool) (commands : List Command) :
    (m.marked b).applyAll commands = (m.applyAll commands).map fun p => (p.1, p.2.marked b) := by
  induction commands generalizing m with
  | nil => rfl
  | cons command rest ih =>
    rw [applyAll, applyAll, apply_marked]
    cases m.apply command with
    | error fault => rfl
    | ok found =>
      change ((found.2.marked b).applyAll rest >>= _) = (found.2.applyAll rest >>= _).map _
      rw [ih]
      cases found.2.applyAll rest with
      | error fault => rfl
      | ok found => rfl

theorem needsResync_apply {m m' : Machine} {command : Command} {response : Response}
    (h : m.apply command = .ok (response, m')) : m'.needsResync = m.needsResync := by
  have hm := apply_marked m m.needsResync command
  change m.apply command = _ at hm
  rw [h] at hm
  have hm' : m' = m'.marked m.needsResync := (Prod.mk.inj (Except.ok.inj hm)).2
  rw [hm']
  rfl

theorem query_needsResync {m : Machine} (hr : m.needsResync = true) {command : Command}
    (hc : command.isReadOnly = true) : m.query command = .error .needsResync := by
  rw [query, hc, hr]
  rfl

end Machine

namespace Replica

open Archive (Meta receivingName)
open Snapshot (Readable WellFormed streamOf)

variable {r r' : Replica} {stream : Bytes}

theorem install_missing {fault : Archive.Fault} (hs : r.archive.received = .error fault) (about : Meta) :
    r.install about = (.error ⟨.read, .snapshot, .archive fault⟩, r) := by
  rw [install, hs]

def installed (r : Replica) (es : List Store.Entry) (about : Meta) : Replica :=
  { (r.replaced (.ofList es) about).persist with
    archive := (r.archive.draw.2.commit r.archive.next about receivingName).2 }

theorem install_cases (hs : r.archive.received = .ok stream) (about : Meta) :
    (∃ es, WellFormed stream es ∧ r.install about = (.ok (), r.installed es about)) ∨
    (¬∃ es, WellFormed stream es) ∧ ∃ corruption, r.install about =
      (.error ⟨.read, .snapshot, .snapshot (.corrupted corruption)⟩, { r with machine := r.machine.marked true }) := by
  rcases r.machine.install_cases stream with ⟨es, hes, hi⟩ | ⟨hnone, corruption, hi⟩
  · have hfile := Archive.received_eq_ok_iff.mp hs
    have hcommit := Archive.commit_eq (a := r.archive.draw.2) hfile r.archive.next about
    refine .inl ⟨es, hes, ?_⟩
    rw [installed, hcommit]
    simp only [Archive.draw] at hcommit
    simp only [install, hs, hi, persist, Archive.draw, hcommit, replaced]
  · refine .inr ⟨hnone, corruption, ?_⟩
    rw [install, hs]
    simp only [hi]
    rfl

variable {h : History}

theorem install_readable (about : Meta) (hs : r.archive.received = .ok (streamOf h))
    (hsize : h.size < UInt32.size / 2) (hh : ∀ e ∈ h.entries, Readable e) :
    ∃ archive, r.install about = (.ok (), { (r.replaced h about).persist with archive }) := by
  have hes := Snapshot.wellFormed_streamOf hsize hh
  rcases install_cases hs about with ⟨es, hes', hi⟩ | ⟨hnone, -⟩
  · obtain rfl := hes.unique hes'
    rw [installed, SortedMap.ofList_entries] at hi
    exact ⟨_, hi⟩
  · exact absurd ⟨_, hes⟩ hnone

theorem install_unreadable (about : Meta) (hs : r.archive.received = .ok (streamOf h))
    (hsize : h.size < UInt32.size / 2) (hh : ¬∀ e ∈ h.entries, Readable e) :
    ∃ fault, r.install about = (.error fault, { r with machine.needsResync := true }) := by
  rcases install_cases hs about with ⟨es, hes, -⟩ | ⟨-, corruption, hi⟩
  · exact absurd (hes.readable hsize) hh
  · exact ⟨_, hi⟩

theorem applyEntry_keeps {e : Log.Entry} {response : Response} (h : r.applyEntry e = .ok (response, r')) :
    r'.machine.needsResync = r.machine.needsResync ∧ r'.archive = r.archive := by
  rw [applyEntry.eq_def] at h
  split at h
  · cases h
    exact ⟨rfl, rfl⟩
  · split at h
    case h_1 hc =>
      cases h
      exact ⟨Machine.needsResync_apply hc, rfl⟩
    case h_2 => cases h
  · cases h
    exact ⟨rfl, rfl⟩

theorem applyAll_keeps (r : Replica) (es : List Log.Entry) :
    (r.applyAll es).2.machine.needsResync = r.machine.needsResync ∧ (r.applyAll es).2.archive = r.archive := by
  induction es generalizing r with
  | nil => exact ⟨rfl, rfl⟩
  | cons e es ih =>
    rw [applyAll]
    cases h : r.applyEntry e with
    | error fault => exact ⟨rfl, rfl⟩
    | ok found =>
      obtain ⟨response, next⟩ := found
      obtain ⟨hmark, harchive⟩ := applyEntry_keeps h
      have hrest := ih next
      rw [hmark, harchive] at hrest
      simp only
      split
      case h_1 hes => rwa [hes] at hrest
      case h_2 hes => rwa [hes] at hrest

theorem apply_keeps (r : Replica) (es : List Log.Entry) :
    (r.apply es).2.machine.needsResync = r.machine.needsResync ∧ (r.apply es).2.archive = r.archive := by
  have h := r.applyAll_keeps es
  rw [apply]
  split
  case h_1 hes =>
    rw [hes] at h
    split
    · exact h
    · exact h
  case h_2 hes => rwa [hes] at h

inductive Meanwhile (r : Replica) : Replica → Prop
  | start : Meanwhile r r
  | apply {r' : Replica} (h : Meanwhile r r') (batch : List Log.Entry) : Meanwhile r (r'.apply batch).2
  | archive {r' : Replica} (h : Meanwhile r r') (archive : Archive) : Meanwhile r { r' with archive }
  | refused {r' : Replica} (h : Meanwhile r r') {about : Meta} {fault : Storage.Fault}
    (hf : (r'.install about).1 = .error fault) : Meanwhile r (r'.install about).2

theorem Meanwhile.needsResync (h : Meanwhile r r') (hr : r.machine.needsResync = true) :
    r'.machine.needsResync = true := by
  -- an installation that is refused leaves the mark or sets it; only one that succeeds takes it away
  induction h with
  | start => exact hr
  | apply _ batch ih => rw [(apply_keeps _ batch).1, ih]
  | archive _ archive ih => exact ih
  | @refused r' _ about fault hf ih =>
    cases hs : r'.archive.received with
    | error _ => rw [install_missing hs, ih]
    | ok stream =>
      rcases install_cases hs about with ⟨es, -, hi⟩ | ⟨-, corruption, hi⟩
      · rw [hi] at hf
        cases hf
      · rw [hi]
        rfl

inductive Lives : Replica → Prop
  | opened {s : Store} {folder : Archive.Folder} {r : Replica} (h : ofDisk s folder = .ok r)
    (hn : r.archive.next ≠ 0) : Lives r
  | apply {r : Replica} (h : Lives r) (batch : List Log.Entry) : Lives (r.apply batch).2
  | draw {r : Replica} (h : Lives r) (hn : r.archive.next + 1 ≠ 0) : Lives { r with archive := r.archive.draw.2 }
  | draft {r : Replica} (h : Lives r) (n : UInt64) (content : Bytes) :
    Lives { r with archive := r.archive.writeDraft n content }
  | commit {r : Replica} (h : Lives r) {n : UInt64} (hn : n < r.archive.next) (about : Meta) (source : String) :
    Lives { r with archive := (r.archive.commit n about source).2 }
  | receive {r : Replica} (h : Lives r) (stream : Bytes) : Lives (r.receive stream)
  | install {r : Replica} (h : Lives r) (hn : r.archive.next + 1 ≠ 0) (about : Meta) : Lives (r.install about).2

theorem Lives.number_lt (h : Lives r) : ∀ s ∈ r.archive.current, s.number < r.archive.next := by
  induction h with
  | opened h hn =>
    obtain ⟨a, -, hr⟩ := bind_eq_ok_iff.mp h
    cases hr
    exact Archive.number_lt_ofFolder hn
  | apply _ batch ih =>
    rw [(apply_keeps _ batch).2]
    exact ih
  | draw _ hn ih =>
    intro s hs
    exact Std.lt_trans (ih s hs) (Archive.lt_succ hn)
  | draft _ n content ih => exact ih
  | @commit r _ n hn about source ih =>
    obtain ⟨hnext, hcurrent⟩ := r.archive.commit_keeps n about source
    intro s hs
    rw [hnext]
    rcases hcurrent s hs with hs | rfl
    · exact ih s hs
    · exact hn
  | receive _ stream ih => exact ih
  | @install r _ hn about ih =>
    cases hs : r.archive.received with
    | error _ =>
      rw [install_missing hs]
      exact ih
    | ok stream =>
      rcases install_cases hs about with ⟨es, -, hi⟩ | ⟨-, corruption, hi⟩
      · obtain ⟨hnext, hcurrent⟩ := r.archive.draw.2.commit_keeps r.archive.next about receivingName
        rw [hi]
        intro s hs
        refine Std.lt_of_lt_of_le ?_ (Std.le_of_eq hnext.symm)
        rcases hcurrent s hs with hs | hs
        · exact Std.lt_trans (ih s hs) (Archive.lt_succ hn)
        · rw [hs]
          exact Archive.lt_succ hn
      · rw [hi]
        exact ih

theorem received_receive (r : Replica) (stream : Bytes) : (r.receive stream).archive.received = .ok stream :=
  Archive.received_eq_ok_iff.mpr (Archive.get?_writeFile _ _ _)

theorem current_receive (r : Replica) (stream : Bytes) : (r.receive stream).current = r.current := by
  have hcurrent : (r.receive stream).archive.current = r.archive.current := rfl
  rw [current, current, hcurrent]
  cases r.archive.current with
  | none => rfl
  | some s =>
    have hname := Archive.ne_receivingName (Archive.number?_dataName s.number)
    have hread : (r.receive stream).archive.read s = r.archive.read s := by
      rw [Archive.read, receive, Archive.receive, Archive.get?_writeFile_of_ne hname, Archive.read]
    simp only [hread]

theorem current_of_read {s : Archive.Stored} (hs : r.archive.current = some s)
    (hread : r.archive.read s = .ok stream) : r.current = .ok (some (s.about, stream)) := by
  simp only [current, hs, hread]

theorem current_installed (hs : r.archive.received = .ok stream)
    (hcurrent : ∀ s ∈ r.archive.current, s.number < r.archive.next) (es : List Store.Entry) (about : Meta) :
    (r.installed es about).currentMeta = some about ∧
      (r.installed es about).current = .ok (some (about, stream)) := by
  have hfile := Archive.received_eq_ok_iff.mp hs
  obtain ⟨hc, hread⟩ := Archive.current_commit (a := r.archive.draw.2) hfile hcurrent about
  have hcurrent' := current_of_read (r := r.installed es about) hc hread
  exact ⟨congrArg (Option.map Archive.Stored.about) hc, hcurrent'⟩

/-- Well-formed bytes become the whole state of a replica, and of other bytes nothing does. -/
theorem install_all_or_nothing (r : Replica) (about : Meta) (stream : Bytes) :
    (∀ es, WellFormed stream es → ∃ r', (r.receive stream).install about = (.ok (), r') ∧
      r'.machine.store.entries = .ok (SortedMap.ofList es).entries ∧
      r'.applied = ⟨about.last, about.membership⟩ ∧ appliedOf r'.machine.store = .ok r'.applied ∧
      (r.Lives → r'.currentMeta = some about ∧ r'.current = .ok (some (about, stream))) ∧
      ∀ command, command.isReadOnly = true →
        r'.machine.query command = .ok (History.reply (.ofList es) command)) ∧
    ((¬∃ es, WellFormed stream es) → ∃ fault r', (r.receive stream).install about = (.error fault, r') ∧
      r'.machine.store = r.machine.store ∧ r'.applied = r.applied ∧
      r'.currentMeta = r.currentMeta ∧ r'.current = r.current ∧
      (∀ commands, r'.machine.applyAll commands =
        (r.machine.applyAll commands).map fun p => (p.1, p.2.marked true)) ∧
      ∀ later, Meanwhile r' later → ∀ command, command.isReadOnly = true →
        later.machine.query command = .error .needsResync) := by
  have hcases := install_cases (r.received_receive stream) about
  constructor
  · intro es hes
    rcases hcases with ⟨es', hes', hi⟩ | ⟨hnone, -⟩
    · obtain rfl := hes.unique hes'
      have hholds : ((r.receive stream).installed es about).machine.store.Holds (.ofList es) := rfl
      refine ⟨_, hi, hholds.entries, rfl, appliedOf_persist _, ?_, ?_⟩
      · intro hr
        exact current_installed (r.received_receive stream) hr.number_lt es about
      · intro command hc
        exact Machine.query_eq hholds rfl hc
    · exact absurd ⟨es, hes⟩ hnone
  · intro hnone
    rcases hcases with ⟨es, hes, -⟩ | ⟨-, corruption, hi⟩
    · exact absurd ⟨es, hes⟩ hnone
    · refine ⟨_, _, hi, rfl, rfl, rfl, r.current_receive stream, r.machine.applyAll_marked true, ?_⟩
      intro later hl command hc
      exact Machine.query_needsResync (hl.needsResync rfl) hc

end Replica

end Uniqueness
