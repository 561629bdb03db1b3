import Uniqueness.Machine
import Uniqueness.Proofs.JsonExtension
import Uniqueness.Proofs.StoreContents

namespace Uniqueness.Snapshot

open Store (Entry)

def recordBytes (e : Entry) : Bytes :=
  Json.encode (⟨e.1, e.2⟩ : Record)

def Readable (e : Entry) : Prop :=
  (recordBytes e).length ≤ maxRecord

instance (e : Entry) : Decidable (Readable e) :=
  inferInstanceAs (Decidable ((recordBytes e).length ≤ maxRecord))

theorem toNat_word (n : Nat) : Bytes.toNat (Bytes.word n) = n % UInt32.size :=
  Bytes.toNat_ofNat 4 n

theorem word_inj {m n : Nat} (hm : m < UInt32.size) (hn : n < UInt32.size) (h : Bytes.word m = Bytes.word n) :
    m = n := by
  have htoNat := congrArg Bytes.toNat h
  rwa [toNat_word, toNat_word, Nat.mod_eq_of_lt hm, Nat.mod_eq_of_lt hn] at htoNat

theorem word_append_inj {m n : Nat} {rest rest' : Bytes} (hm : m < UInt32.size) (hn : n < UInt32.size)
    (h : Bytes.word m ++ rest = Bytes.word n ++ rest') : m = n ∧ rest = rest' := by
  have hlength : (Bytes.word m).length = (Bytes.word n).length := by
    rw [Bytes.word, Bytes.length_ofNat, Bytes.word, Bytes.length_ofNat]
  obtain ⟨hword, hrest⟩ := List.append_inj h hlength
  exact ⟨word_inj hm hn hword, hrest⟩

theorem split?_word (n : Nat) (rest : Bytes) :
    Bytes.split? 4 (Bytes.word n ++ rest) = some (Bytes.word n, rest) := by
  have h := Bytes.split?_append (Bytes.word n) rest
  rwa [Bytes.word, Bytes.length_ofNat] at h

theorem readEntry_long {text : Bytes} (h : maxRecord < text.length % UInt32.size) (i : Nat) (rest : Bytes) :
    readEntry i (frame text ++ rest) = .error (.oversized i (text.length % UInt32.size)) := by
  rw [readEntry, frame, List.append_assoc, split?_word]
  simp only [toNat_word, if_pos h]

theorem readEntry_short {text front back : Bytes} (h : ¬maxRecord < text.length % UInt32.size) (rest : Bytes)
    (hs : Bytes.split? (text.length % UInt32.size) (text ++ rest) = some (front, back)) (i : Nat) :
    readEntry i (frame text ++ rest) = match Json.decode Record front with
      | .error fault => .error (.invalid i fault)
      | .ok r => .ok ((r.state, r.consumption), back) := by
  rw [readEntry, frame, List.append_assoc, split?_word]
  cases hd : Json.decode Record front with
  | error fault => simp only [toNat_word, if_neg h, hs, hd]
  | ok r => simp only [toNat_word, if_neg h, hs, hd]

theorem readEntry_readable {e : Entry} (he : Readable e) (i : Nat) (rest : Bytes) :
    readEntry i (entryBytes e ++ rest) = .ok (e, rest) := by
  have hmax : maxRecord < UInt32.size := by decide
  have hmod : (recordBytes e).length % UInt32.size = (recordBytes e).length :=
    Nat.mod_eq_of_lt (Nat.lt_of_le_of_lt he hmax)
  have hdecode : Json.decode Record (recordBytes e) = .ok ⟨e.1, e.2⟩ := Json.decode_encode _
  have hsplit := Bytes.split?_append (recordBytes e) rest
  rw [← hmod] at hsplit
  rw [entryBytes, ← recordBytes, readEntry_short (by rw [hmod]; exact Nat.not_lt.mpr he) rest hsplit, hdecode]

theorem length_name_le (e : Entry) : e.2.party.name.toList.length ≤ (recordBytes e).length := by
  have hname : ("name", toTree e.2.party.name) ∈
      [("name", toTree e.2.party.name), ("owning_key", toTree e.2.party.owningKey)] := List.mem_cons_self
  have hparty : ("requesting_party", toTree e.2.party) ∈ [("id", toTree e.2.tx),
      ("input_index", toTree e.2.position), ("requesting_party", toTree e.2.party)] := by simp
  have hconsumption : ("consuming_tx", toTree e.2) ∈
      [("state_ref", toTree e.1), ("consuming_tx", toTree e.2)] := by simp
  rw [recordBytes, Json.encode_eq_bytes]
  calc e.2.party.name.toList.length ≤ (Json.bytes (toTree e.2.party.name)).length :=
        Json.length_le_bytes_text _
    _ ≤ (Json.bytes (toTree e.2.party)).length := Json.length_bytes_le_object hname
    _ ≤ (Json.bytes (toTree e.2)).length := Json.length_bytes_le_object hparty
    _ ≤ _ := Json.length_bytes_le_object hconsumption

theorem ne_broken_of_readTable {σ : Type} {shape : Shape σ} {ending : Ending} {fields : List (Label × Tree)}
    {d d' : σ} (h : shape.readTable ending fields d = .ok d') : ending ≠ .broken := by
  induction fields generalizing d with
  | nil =>
    rintro rfl
    cases h
  | cons f fields ih =>
    obtain ⟨label, t⟩ := f
    rw [Shape.readTable] at h
    split at h
    · cases h
    split at h
    · split at h
      · cases h
      · obtain ⟨d₁, -, h⟩ := bind_eq_ok_iff.mp h
        exact ih h
    · split at h
      · cases h
      · split at h
        · exact ih h
        · cases h

theorem ne_broken_of_readList {σ : Type} {shape : Shape σ} {ending : Ending} {fields : List (Field σ)}
    {items : List Tree} {d d' : σ} (h : shape.readList ending fields items d = .ok d') : ending ≠ .broken := by
  induction fields generalizing items d with
  | nil =>
    rintro rfl
    cases h
  | cons f fields ih =>
    cases items with
    | nil =>
      rintro rfl
      cases h
    | cons t items =>
      obtain ⟨d₁, -, h⟩ := bind_eq_ok_iff.mp h
      exact ih h

theorem isSound_of_read {σ : Type} {shape : Shape σ} {t : Tree} {d d' : σ} (h : shape.read d t = .ok d') :
    t.isSound = true ∧ (∀ n, t ≠ .int n) ∧ ∀ s, t ≠ .real s := by
  cases t with
  | list items ending =>
    refine ⟨by simpa [Tree.isSound] using ne_broken_of_readList h, ?_, ?_⟩
    · intro n hn
      cases hn
    · intro s hs
      cases hs
  | table fields ending =>
    refine ⟨by simpa [Tree.isSound] using ne_broken_of_readTable h, ?_, ?_⟩
    · intro n hn
      cases hn
    · intro s hs
      cases hs
  | _ => cases h

theorem decode_beginning {r r' : Record} {p q : Bytes} (hp : p ++ q = Json.encode r)
    (h : Json.decode Record p = .ok r') : q = [] := by
  rcases hparse : Json.parse p with ⟨t, rest⟩
  rw [Json.decode, hparse] at h
  obtain ⟨a, hof, -⟩ := bind_eq_ok_iff.mp h
  obtain ⟨d, hread, -⟩ := bind_eq_ok_iff.mp hof
  obtain ⟨hs, hn⟩ := isSound_of_read hread
  rw [Json.encode_eq_bytes] at hp
  exact Json.eq_nil_of_parse (isWritable_toTree r) hp hparse hs hn

theorem readEntry_unreadable {e : Entry} (he : ¬Readable e) (i : Nat) (rest : Bytes) :
    ∃ corruption, readEntry i (entryBytes e ++ rest) = .error corruption := by
  rw [entryBytes, ← recordBytes]
  by_cases hlong : maxRecord < (recordBytes e).length % UInt32.size
  · exact ⟨_, readEntry_long hlong i rest⟩
  · -- the length does not fit its word, so the reader takes a beginning of the record, which is no record
    have hlt : (recordBytes e).length % UInt32.size < (recordBytes e).length := by
      rw [Readable] at he
      omega
    have hparts := List.take_append_drop ((recordBytes e).length % UInt32.size) (recordBytes e)
    have hsplit := Bytes.split?_append ((recordBytes e).take ((recordBytes e).length % UInt32.size))
      ((recordBytes e).drop ((recordBytes e).length % UInt32.size) ++ rest)
    rw [← List.append_assoc, hparts, List.length_take, Nat.min_eq_left (Nat.le_of_lt hlt)] at hsplit
    rw [readEntry_short hlong rest hsplit]
    cases hd : Json.decode Record ((recordBytes e).take ((recordBytes e).length % UInt32.size)) with
    | error fault => exact ⟨_, rfl⟩
    | ok r =>
      have hnil := decode_beginning hparts hd
      rw [List.drop_eq_nil_iff] at hnil
      omega

def streamOf (h : History) : Bytes :=
  Bytes.word h.size ++ h.entries.flatMap entryBytes

theorem write_entries (h : History) : write none h.size h.entries =
    if UInt32.size / 2 ≤ h.size then .error (.tooLarge h.size) else .ok (streamOf h) := by
  rw [write]
  split
  · rfl
  · simp [SortedMap.size, streamOf]

def Reader.before (declared remaining : Nat) (rest : Bytes) : Reader :=
  ⟨declared, remaining, rest, false⟩

theorem readHeader_word {count : Nat} (h : count < UInt32.size / 2) (rest : Bytes) :
    readHeader (Bytes.word count ++ rest) = .ok (Reader.before count count rest) := by
  have hsize : UInt32.size / 2 < UInt32.size := by decide
  have hmod : count % UInt32.size = count := Nat.mod_eq_of_lt (Nat.lt_trans h hsize)
  have hn : ¬(count : Int) < 0 := Int.not_lt.mpr (Int.natCast_nonneg count)
  rw [readHeader, split?_word]
  simp only [toNat_word, hmod, Bytes.signed, if_pos h, if_neg hn, Int.toNat_natCast, Reader.before]

theorem exists_first_unreadable {es : List Entry} (he : ¬∀ e ∈ es, Readable e) :
    ∃ front e back, es = front ++ e :: back ∧ (∀ f ∈ front, Readable f) ∧ ¬Readable e := by
  induction es with
  | nil => exact absurd nofun he
  | cons e es ih =>
    by_cases hr : Readable e
    · have hes : ¬∀ f ∈ es, Readable f := fun h => he (List.forall_mem_cons.mpr ⟨hr, h⟩)
      obtain ⟨front, f, back, rfl, hfront, hf⟩ := ih hes
      exact ⟨e :: front, f, back, rfl, List.forall_mem_cons.mpr ⟨hr, hfront⟩, hf⟩
    · exact ⟨[], e, es, rfl, nofun, hr⟩

end Uniqueness.Snapshot
