import Uniqueness.Proofs.CanonicalSnapshots

namespace Uniqueness.Machine

open Snapshot (Readable WellFormed entryBytes frame readHeader)

theorem declared_of_wellFormed {stream : Bytes} {es : List Store.Entry} (hes : WellFormed stream es) :
    ∃ reader, readHeader stream = .ok reader ∧ reader.declared = es.length := by
  obtain ⟨rest, rfl, -⟩ := hes.body
  exact ⟨_, Snapshot.readHeader_word hes.small rest, rfl⟩

theorem wellFormed_of_install {m m' : Machine} {stream : Bytes} {count : Nat}
    (h : m.install stream = (.ok count, m')) :
    ∃ es, WellFormed stream es ∧ es.length = count ∧ m'.store.Holds (.ofList es) := by
  rcases m.install_cases stream with ⟨es, hes, hi⟩ | ⟨-, corruption, hi⟩
  · rw [hi] at h
    cases h
    exact ⟨es, hes, rfl, rfl⟩
  · rw [hi] at h
    cases h

theorem snapshot_declares {m : Machine} {h : History} (hm : m.store.Holds h) (hsize : h.size < UInt32.size / 2) :
    ∃ b reader, m.snapshot none = .ok b ∧ readHeader b = .ok reader ∧ reader.declared = m.store.size := by
  refine ⟨_, _, (snapshot_eq_ok_iff hm).mpr ⟨hsize, rfl⟩, Snapshot.readHeader_word hsize _, ?_⟩
  exact hm.size.symm

/-- The count is that of the header and of the records, and it is the size that the next snapshot declares
exactly if no state comes twice. Of the records of one state the last is kept. -/
theorem installed_count_is_size_iff {m m' : Machine} {stream : Bytes} {count : Nat}
    (h : m.install stream = (.ok count, m')) : ∃ es, WellFormed stream es ∧ es.length = count ∧
      (∃ reader, readHeader stream = .ok reader ∧ reader.declared = count) ∧
      m'.store.size = (es.map (·.1)).dedup.length ∧ (m'.store.size = count ↔ (es.map (·.1)).Nodup) ∧
      (∃ b reader, m'.snapshot none = .ok b ∧ readHeader b = .ok reader ∧ reader.declared = m'.store.size) ∧
      ∀ r, m'.store.get r = .ok ((es.reverse.find? fun e => e.1 = r).map (·.2)) := by
  obtain ⟨es, hes, rfl, hm⟩ := wellFormed_of_install h
  refine ⟨es, hes, rfl, declared_of_wellFormed hes, ?_, ?_, ?_, ?_⟩
  · rw [hm.size, SortedMap.size_ofList]
  · rw [hm.size, SortedMap.size_ofList_eq_length_iff]
  · exact snapshot_declares hm (Nat.lt_of_le_of_lt (SortedMap.size_ofList_le es) hes.small)
  · intro r
    rw [hm.get, SortedMap.get?_ofList]

def digestOf (b : UInt8) : Digest :=
  ⟨List.replicate 32 b, List.length_replicate⟩

def firstOfState : Store.Entry :=
  (⟨digestOf 0xAB, 0⟩, ⟨digestOf 0xAB, 0, ⟨"a", ""⟩⟩)

def secondOfState : Store.Entry :=
  (⟨digestOf 0xAB, 0⟩, ⟨digestOf 0xCD, 0, ⟨"b", ""⟩⟩)

def repeatingStream : Bytes :=
  Bytes.word 2 ++ (frame (spelledRecord 0x30) ++ (entryBytes secondOfState ++ []))

theorem readable_secondOfState : Readable secondOfState := by
  rw [Readable, Snapshot.recordBytes, Json.encode_eq_bytes]
  decide +kernel

theorem wellFormed_repeatingStream : WellFormed repeatingStream [firstOfState, secondOfState] where
  small := by decide
  body := ⟨_, rfl, .cons (by decide +kernel) (by decide +kernel)
    (.cons readable_secondOfState (Json.decode_encode _) .nil)⟩

theorem last_record_of_state_is_kept : ∃ m', empty.install repeatingStream = (.ok 2, m') ∧ m'.store.size = 1 ∧
    m'.store.get secondOfState.1 = .ok (some secondOfState.2) := by
  obtain ⟨m', hinstall, -⟩ := install_wellFormed wellFormed_repeatingStream empty
  obtain ⟨es, hes, -, -, hsize, -, -, hget⟩ := installed_count_is_size_iff hinstall
  obtain rfl := hes.unique wellFormed_repeatingStream
  refine ⟨m', hinstall, hsize.trans (by decide +kernel), ?_⟩
  rw [hget]
  decide +kernel

theorem count_of_repeating_stream_is_not_size : ∃ m', empty.install repeatingStream = (.ok 2, m') ∧
    m'.store.size ≠ 2 ∧ m'.store.get firstOfState.1 ≠ .ok (some firstOfState.2) := by
  obtain ⟨m', hinstall, hm⟩ := install_wellFormed wellFormed_repeatingStream empty
  refine ⟨m', hinstall, ?_, ?_⟩
  · rw [hm.size]
    decide +kernel
  · rw [hm.get]
    decide +kernel

end Uniqueness.Machine
