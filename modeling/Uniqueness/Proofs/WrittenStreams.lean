import Uniqueness.Proofs.CanonicalSnapshots
import Uniqueness.Proofs.SnapshotReaders

namespace Uniqueness.Snapshot

open Store (Entry)

variable {e : Entry} {es front back : List Entry} {declared remaining : Nat} {rest : Bytes}

theorem write_eq (count : Nat) (es : List Entry) : write none count es =
    if UInt32.size / 2 ≤ count then .error (.tooLarge count)
    else if es.length = count then .ok (Bytes.word count ++ es.flatMap entryBytes)
    else .error (.miscounted count es.length) := by
  simp [write]

theorem write_eq_ok_iff {count : Nat} {b : Bytes} : write none count es = .ok b ↔
    count < UInt32.size / 2 ∧ es.length = count ∧ b = Bytes.word count ++ es.flatMap entryBytes := by
  rw [write_eq]
  split
  case isTrue hcount => simp [Nat.not_lt.mpr hcount]
  case isFalse hcount =>
    split
    case isTrue hlength => simp [Nat.lt_of_not_le hcount, hlength, eq_comm]
    case isFalse hlength => simp [hlength]

theorem readEntry_oversized (he : ¬Readable e) (hf : Framed e) (i : Nat) (rest : Bytes) :
    readEntry i (entryBytes e ++ rest) = .error (.oversized i (recordBytes e).length) := by
  have hmod : (recordBytes e).length % UInt32.size = (recordBytes e).length := Nat.mod_eq_of_lt hf
  have hlong : maxRecord < (recordBytes e).length % UInt32.size := by
    rw [hmod]
    exact Nat.lt_of_not_le he
  rw [entryBytes, ← recordBytes, readEntry_long hlong, hmod]

theorem exists_corruption (he : ¬Readable e) (i : Nat) (rest : Bytes) : ∃ corruption,
    (Framed e → corruption = .oversized i (recordBytes e).length) ∧
      readEntry i (entryBytes e ++ rest) = .error corruption := by
  by_cases hf : Framed e
  · exact ⟨_, fun _ => rfl, readEntry_oversized he hf i rest⟩
  · obtain ⟨corruption, hc⟩ := readEntry_unreadable he i rest
    exact ⟨corruption, fun h => absurd h hf, hc⟩

theorem answer_append {items : List (Except Fault Entry)} (hes : ∀ e ∈ es, Readable e)
    (h : ∀ k, (Reader.before declared remaining rest).answer k = items[k]?) :
    ∀ k, (Reader.before declared (es.length + remaining) (es.flatMap entryBytes ++ rest)).answer k =
      (es.map .ok ++ items)[k]? := by
  induction es with
  | nil => simpa using h
  | cons e es ih =>
    obtain ⟨he, hes⟩ := List.forall_mem_cons.mp hes
    have hlength : (e :: es).length + remaining = es.length + remaining + 1 := by
      rw [List.length_cons]
      omega
    rw [List.flatMap_cons, List.append_assoc, hlength]
    apply Reader.answer_cons
    · exact next_of_readEntry (readEntry_readable he _ _)
    · exact ih hes

theorem answer_unreadable {corruption : Corruption} (hfront : ∀ f ∈ front, Readable f)
    (hc : readEntry (front.length + 1) (entryBytes e ++ back.flatMap entryBytes) = .error corruption) (k : Nat) :
    (Reader.before (front ++ e :: back).length (front ++ e :: back).length
        ((front ++ e :: back).flatMap entryBytes)).answer k =
      (front.map .ok ++ [.error (.corrupted corruption)])[k]? := by
  have hlength : (front ++ e :: back).length = front.length + (back.length + 1) := by simp
  have hnumber : front.length + (back.length + 1) - (back.length + 1) + 1 = front.length + 1 := by omega
  rw [← hnumber] at hc
  have hnext := next_of_corruption hc
  rw [List.flatMap_append, List.flatMap_cons, hlength]
  apply answer_append hfront
  apply Reader.answer_cons hnext
  exact Reader.answer_of_ended rfl

/-- A stream is written if its count fits and is that of the entries. It is read back as they are exactly
if no record is too long, and otherwise up to the first that is. -/
theorem written_entries_are_read_back (count : Nat) (entries : List Entry) :
    ((∃ b, write none count entries = .ok b) ↔ count < UInt32.size / 2 ∧ entries.length = count) ∧
    ∀ b, write none count entries = .ok b → ∃ r, readHeader b = .ok r ∧ r.declared = count ∧
      ((∀ k, r.answer k = (entries.map .ok)[k]?) ↔ ∀ e ∈ entries, Readable e) ∧
      ∀ front e back, entries = front ++ e :: back → (∀ f ∈ front, Readable f) → ¬Readable e →
        ∃ corruption, (Framed e → corruption = .oversized (front.length + 1) (recordBytes e).length) ∧
          ∀ k, r.answer k = (front.map .ok ++ [.error (.corrupted corruption)])[k]? := by
  constructor
  · simp [write_eq_ok_iff]
  · intro b hb
    obtain ⟨hcount, rfl, rfl⟩ := write_eq_ok_iff.mp hb
    have hlong : ∀ front e back, entries = front ++ e :: back → (∀ f ∈ front, Readable f) → ¬Readable e →
        ∃ corruption, (Framed e → corruption = .oversized (front.length + 1) (recordBytes e).length) ∧
          ∀ k, (Reader.before entries.length entries.length (entries.flatMap entryBytes)).answer k =
            (front.map .ok ++ [.error (.corrupted corruption)])[k]? := by
      rintro front e back rfl hfront he
      obtain ⟨corruption, hoversized, hc⟩ := exists_corruption he (front.length + 1) (back.flatMap entryBytes)
      exact ⟨corruption, hoversized, answer_unreadable hfront hc⟩
    refine ⟨_, readHeader_word hcount _, rfl, ?_, hlong⟩
    constructor
    · intro hes
      by_contra hnot
      obtain ⟨front, e, back, hsplit, hfront, he⟩ := exists_first_unreadable hnot
      obtain ⟨corruption, -, hes'⟩ := hlong front e back hsplit hfront he
      exact map_ok_ne fun k => (hes' k).symm.trans (hes k)
    · intro hes
      obtain ⟨r, hr, hanswers⟩ := WellFormed.answers ⟨hcount, _, rfl, frames_entryBytes hes⟩
      rw [readHeader_word hcount, Except.ok.injEq] at hr
      rwa [← hr] at hanswers

end Uniqueness.Snapshot
