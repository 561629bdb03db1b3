import Uniqueness.Proofs.ReplicaSteps
import Uniqueness.Proofs.SnapshotFolders
import Uniqueness.Proofs.SnapshotInstalls

namespace Uniqueness.Replica

open Archive (Meta)
open Snapshot (streamOf)

variable {r : Replica} {h : History}

def label (r : Replica) : Meta :=
  ⟨r.applied.last, r.applied.membership, snapshotName r.applied r.archive.next⟩

theorem build_ok (hr : r.machine.store.Holds h) (hsize : h.size < UInt32.size / 2) :
    ∃ archive, r.build = (.ok (r.label, streamOf h), { r with archive }) := by
  have hb := (Machine.snapshot_eq_ok_iff hr).mpr ⟨hsize, rfl⟩
  have hdraft := Archive.get?_writeFile r.archive.draw.2 (Archive.draftName r.archive.next) (streamOf h)
  obtain ⟨archive, hcommit, hread⟩ := Archive.commit_ok hdraft r.archive.next r.label
  rw [label] at hcommit hread
  refine ⟨archive, ?_⟩
  simp only [Archive.draw] at hcommit
  simp only [build, Archive.draw, hb, Archive.writeDraft, hcommit, hread, label]

theorem build_failed (hr : r.machine.store.Holds h) (hsize : ¬h.size < UInt32.size / 2) :
    ∃ fault archive, r.build = (.error fault, { r with archive }) := by
  have hb := Machine.snapshot_eq hr
  rw [if_pos (Nat.le_of_not_lt hsize)] at hb
  rw [build, hb]
  exact ⟨_, _, rfl⟩

theorem build_eq (hr : r.machine.store.Holds h) : ∃ result archive, r.build = (result, { r with archive }) := by
  by_cases hsize : h.size < UInt32.size / 2
  · obtain ⟨archive, hbuild⟩ := build_ok hr hsize
    exact ⟨_, archive, hbuild⟩
  · obtain ⟨fault, archive, hbuild⟩ := build_failed hr hsize
    exact ⟨_, archive, hbuild⟩

def replaced (r : Replica) (h : History) (about : Meta) : Replica :=
  { r with
    machine := { r.machine.holding h with needsResync := false }
    applied := ⟨about.last, about.membership⟩ }

end Uniqueness.Replica
