import Uniqueness.Proofs.FirstWriterWins
import Uniqueness.Proofs.SnapshotFormat

namespace Uniqueness.Machine

open Snapshot (Readable WellFormed streamOf)

variable {m : Machine} {h : History}

theorem snapshot_eq (hm : m.store.Holds h) : m.snapshot none =
    if UInt32.size / 2 ≤ h.size then .error (.tooLarge h.size) else .ok (streamOf h) := by
  rw [snapshot, hm.entries, mapError_ok, ok_bind, hm.size, Snapshot.write_entries]

theorem snapshot_eq_ok_iff (hm : m.store.Holds h) {b : Bytes} :
    m.snapshot none = .ok b ↔ h.size < UInt32.size / 2 ∧ b = streamOf h := by
  rw [snapshot_eq hm]
  split
  case isTrue hsize => exact iff_of_false nofun fun hb => absurd hb.1 (Nat.not_lt.mpr hsize)
  case isFalse hsize =>
    rw [Except.ok.injEq, eq_comm]
    exact ⟨fun hb => ⟨Nat.lt_of_not_le hsize, hb⟩, fun hb => hb.2⟩

theorem install_cases (m : Machine) (stream : Bytes) :
    (∃ es, WellFormed stream es ∧
      m.install stream = (.ok es.length, { m.holding (.ofList es) with needsResync := false })) ∨
    (¬∃ es, WellFormed stream es) ∧ ∃ corruption,
      m.install stream = (.error (.corrupted corruption), { m with needsResync := true }) := by
  rcases Snapshot.readHeader_cases stream with ⟨count, rest, hsmall, rfl, hhead⟩ | ⟨hnone, corruption, hhead⟩
  · rcases Snapshot.items_cases count count rest with
      ⟨es, hlength, hf, hitems⟩ | ⟨hnone, front, corruption, hitems⟩
    · have hload : Store.load (ε := Snapshot.Fault) .empty 0 (es.map .ok) =
          .ok (es.length, Store.tableOf (.ofList es)) := by
        have h := Store.load_ok (ε := Snapshot.Fault) .empty 0 es
        rw [Nat.zero_add] at h
        exact h
      refine .inl ⟨es, ⟨by rw [hlength]; exact hsmall, rest, by rw [hlength], hf⟩, ?_⟩
      simp only [install, hhead, ok_bind, Store.replaceAll, hitems, hload]
      rfl
    · refine .inr ⟨?_, corruption, ?_⟩
      · rintro ⟨es, hes⟩
        exact hnone ⟨es, hes.frames (Nat.lt_trans hsmall (by decide))⟩
      · simp only [install, hhead, ok_bind, Store.replaceAll, hitems, Store.load_error, error_bind]
  · refine .inr ⟨hnone, corruption, ?_⟩
    simp only [install, hhead, error_bind]

theorem install_eq_of_wellFormed {stream : Bytes} {es : List Store.Entry} (hes : WellFormed stream es)
    (m : Machine) :
    m.install stream = (.ok es.length, { m.holding (.ofList es) with needsResync := false }) := by
  rcases m.install_cases stream with ⟨es', hes', hi⟩ | ⟨hnone, -⟩
  · obtain rfl := hes.unique hes'
    exact hi
  · exact absurd ⟨es, hes⟩ hnone

theorem install_readable (m : Machine) (hsize : h.size < UInt32.size / 2)
    (hr : ∀ e ∈ h.entries, Readable e) :
    m.install (streamOf h) = (.ok h.size, { m.holding h with needsResync := false }) := by
  rw [install_eq_of_wellFormed (Snapshot.wellFormed_streamOf hsize hr), SortedMap.ofList_entries, SortedMap.size]

theorem install_unreadable (m : Machine) (hsize : h.size < UInt32.size / 2)
    (hr : ¬∀ e ∈ h.entries, Readable e) :
    ∃ fault, m.install (streamOf h) = (.error fault, { m with needsResync := true }) := by
  rcases m.install_cases (streamOf h) with ⟨es, hes, -⟩ | ⟨-, corruption, hi⟩
  · exact absurd (hes.readable hsize) hr
  · exact ⟨_, hi⟩

def Compact (accepted : List Claim) : Prop :=
  ∀ c ∈ accepted, ∀ r ∈ c.inputs, Readable (r, c.record r)

theorem readable_iff_compact {accepted : List Claim} (ha : Ledger.Apart accepted) :
    (∀ e ∈ (Ledger.contents accepted).entries, Readable e) ↔ Compact accepted := by
  constructor
  · intro he c hc r hr
    apply he
    rw [← SortedMap.get?_eq_some_iff, Ledger.get?_contents_eq_some_iff ha]
    exact ⟨c, hc, hr, rfl⟩
  · rintro hc ⟨r, v⟩ he
    rw [← SortedMap.get?_eq_some_iff, Ledger.get?_contents_eq_some_iff ha] at he
    obtain ⟨c, hm, hr, rfl⟩ := he
    exact hc c hm r hr

/-- A snapshot is installed, and written again as it was, if every committed claim is compact. If one
is not, the snapshot is refused by every machine. -/
theorem install_snapshot_iff_compact (commands : List Command) {responses : List Response} {m : Machine}
    {b : Bytes} (hrun : empty.applyAll commands = .ok (responses, m)) (hb : m.snapshot none = .ok b)
    (other : Machine) :
    (Compact (Ledger.acceptAll [] commands) → ∃ es other', m.store.entries = .ok es ∧
      other.install b = (.ok es.length, other') ∧ other'.store.entries = .ok es ∧
      other'.needsResync = false ∧ other'.snapshot none = .ok b) ∧
    (¬Compact (Ledger.acceptAll [] commands) →
      ∃ fault, other.install b = (.error fault, { other with needsResync := true })) := by
  have ha := Ledger.apart_acceptAll List.Pairwise.nil commands
  have hm : m.store.Holds (Ledger.contents (Ledger.acceptAll [] commands)) := by
    rw [Ledger.applyAll_eq Store.holds_empty List.Pairwise.nil commands] at hrun
    cases hrun
    rfl
  obtain ⟨hsize, rfl⟩ := (snapshot_eq_ok_iff hm).mp hb
  rw [← readable_iff_compact ha]
  constructor
  · intro hr
    have hother : (other.holding (Ledger.contents (Ledger.acceptAll [] commands))).store.Holds _ := rfl
    exact ⟨_, _, hm.entries, install_readable other hsize hr, hother.entries, rfl,
      (snapshot_eq_ok_iff hother).mpr ⟨hsize, rfl⟩⟩
  · exact install_unreadable other hsize

def claimBy (name : String) : Claim :=
  ⟨[default], default, ⟨name, ""⟩⟩

theorem applyAll_claimBy (name : String) : empty.applyAll [.claim (claimBy name)] =
    .ok ([.committed], empty.holding (Ledger.contents [claimBy name])) := by
  have hfree : Ledger.Free [] (claimBy name) := nofun
  rw [Ledger.applyAll_eq Store.holds_empty List.Pairwise.nil]
  simp [Ledger.answers, Ledger.answer, Ledger.acceptAll, Ledger.accept, hfree]

theorem size_claimBy (name : String) : (Ledger.contents [claimBy name]).size < UInt32.size / 2 := by
  have hsize : Ledger.size [claimBy name] = 1 := by simp [Ledger.size, claimBy]
  rw [Ledger.size_contents (List.pairwise_singleton _ _), hsize]
  decide

theorem snapshot_claimBy (name : String) :
    (empty.holding (Ledger.contents [claimBy name])).snapshot none =
      .ok (streamOf (Ledger.contents [claimBy name])) := by
  have hm : (empty.holding (Ledger.contents [claimBy name])).store.Holds
    (Ledger.contents [claimBy name]) := rfl
  exact (snapshot_eq_ok_iff hm).mpr ⟨size_claimBy name, rfl⟩

theorem compact_claimBy : Compact [claimBy "a"] := by
  intro c hc r hr
  rw [List.mem_singleton.mp hc] at hr ⊢
  rw [List.mem_singleton.mp hr, Readable, Snapshot.recordBytes, Json.encode_eq_bytes]
  decide +kernel

theorem compact_claim_installs : ∃ m b, empty.applyAll [.claim (claimBy "a")] = .ok ([.committed], m) ∧
    m.snapshot none = .ok b ∧ ∃ es other, m.store.entries = .ok es ∧
      empty.install b = (.ok es.length, other) ∧ other.store.entries = .ok es ∧
      other.needsResync = false ∧ other.snapshot none = .ok b := by
  have hrun := applyAll_claimBy "a"
  have hb := snapshot_claimBy "a"
  exact ⟨_, _, hrun, hb, (install_snapshot_iff_compact _ hrun hb empty).1 compact_claimBy⟩

theorem not_compact_claimBy {name : String} (hn : Snapshot.maxRecord < name.toList.length) :
    ¬Compact [claimBy name] := by
  intro hc
  have hr := hc _ List.mem_cons_self default List.mem_cons_self
  exact absurd hr (Nat.not_le.mpr (Nat.lt_of_lt_of_le hn (Snapshot.length_name_le (default, (claimBy name).record default))))

theorem large_party_is_refused :
    ∃ m b, empty.applyAll [.claim (claimBy (String.ofList (List.replicate (1024 * 1024 + 1) 'a')))] =
        .ok ([.committed], m) ∧
      m.snapshot none = .ok b ∧ ∃ fault, empty.install b = (.error fault, { empty with needsResync := true }) := by
  have hn : Snapshot.maxRecord < (String.ofList (List.replicate (1024 * 1024 + 1) 'a')).toList.length := by
    rw [String.toList_ofList, List.length_replicate]
    exact Nat.lt_succ_self _
  have hnot := mt (readable_iff_compact (List.pairwise_singleton _ _)).mp (not_compact_claimBy hn)
  exact ⟨_, _, applyAll_claimBy _, snapshot_claimBy _, install_unreadable empty (size_claimBy _) hnot⟩

end Uniqueness.Machine
