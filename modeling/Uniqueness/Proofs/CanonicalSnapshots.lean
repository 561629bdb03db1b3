import Uniqueness.Proofs.InstallOutcomes

/-!
Snapshots as a normal form of the contents. Each record comes behind its length and can be read back, so a
stream gives away all records; and records come in the order of their states, so nothing else shows in it.
-/

namespace Uniqueness

namespace Snapshot

open Store (Entry)

def Framed (e : Entry) : Prop :=
  (recordBytes e).length < UInt32.size

instance (e : Entry) : Decidable (Framed e) :=
  inferInstanceAs (Decidable ((recordBytes e).length < UInt32.size))

theorem recordBytes_injective {e e' : Entry} (h : recordBytes e = recordBytes e') : e = e' := by
  have hd : Json.decode Record (recordBytes e) = .ok ⟨e.1, e.2⟩ := Json.decode_encode _
  rw [h, recordBytes, Json.decode_encode, Except.ok.injEq, Record.mk.injEq] at hd
  exact Prod.ext hd.1.symm hd.2.symm

theorem entryBytes_append_inj {e e' : Entry} {rest rest' : Bytes} (he : Framed e) (he' : Framed e')
    (h : entryBytes e ++ rest = entryBytes e' ++ rest') : e = e' ∧ rest = rest' := by
  rw [entryBytes, entryBytes, ← recordBytes, ← recordBytes, frame, frame, List.append_assoc, List.append_assoc] at h
  obtain ⟨hlength, htext⟩ := word_append_inj he he' h
  obtain ⟨hrecord, hrest⟩ := List.append_inj htext hlength
  exact ⟨recordBytes_injective hrecord, hrest⟩

theorem flatMap_entryBytes_inj {es es' : List Entry} (hes : ∀ e ∈ es, Framed e) (hes' : ∀ e ∈ es', Framed e)
    (hlength : es.length = es'.length) (h : es.flatMap entryBytes = es'.flatMap entryBytes) : es = es' := by
  induction es generalizing es' with
  | nil => exact (List.eq_nil_of_length_eq_zero hlength.symm).symm
  | cons e es ih =>
    cases es' with
    | nil => cases hlength
    | cons e' es' =>
      obtain ⟨he, hback⟩ := List.forall_mem_cons.mp hes
      obtain ⟨he', hback'⟩ := List.forall_mem_cons.mp hes'
      rw [List.flatMap_cons, List.flatMap_cons] at h
      obtain ⟨rfl, hrest⟩ := entryBytes_append_inj he he' h
      rw [ih hback hback' (by simpa using hlength) hrest]

theorem streamOf_inj {h h' : History} (hsize : h.size < UInt32.size / 2) (hsize' : h'.size < UInt32.size / 2)
    (hframed : ∀ e ∈ h.entries, Framed e) (hframed' : ∀ e ∈ h'.entries, Framed e) :
    streamOf h = streamOf h' ↔ h = h' := by
  have hhalf : UInt32.size / 2 < UInt32.size := by decide
  constructor
  · intro hs
    obtain ⟨hlength, hrest⟩ := word_append_inj (Nat.lt_trans hsize hhalf) (Nat.lt_trans hsize' hhalf) hs
    exact SortedMap.ext (flatMap_entryBytes_inj hframed hframed' hlength hrest)
  · rintro rfl
    rfl

end Snapshot

namespace Machine

open Snapshot (Framed WellFormed streamOf recordBytes)

inductive Reached : Machine → Prop
  | empty : Reached .empty
  | apply {m m' : Machine} {command : Command} {response : Response} (h : Reached m)
    (ha : m.apply command = .ok (response, m')) : Reached m'
  | install {m : Machine} (h : Reached m) (stream : Bytes) : Reached (m.install stream).2
  | reopen {m : Machine} (h : Reached m) : Reached m.reopen

theorem Reached.holds {m : Machine} (hm : m.Reached) : ∃ h, m.store.Holds h := by
  induction hm with
  | empty => exact ⟨.empty, Store.holds_empty⟩
  | @apply m m' command response _ ha ih =>
    obtain ⟨h, hh⟩ := ih
    rw [apply_eq hh] at ha
    cases ha
    exact ⟨h.commit command, rfl⟩
  | @install m _ stream ih =>
    rcases m.install_cases stream with ⟨es, -, hi⟩ | ⟨-, corruption, hi⟩
    · rw [hi]
      exact ⟨.ofList es, rfl⟩
    · rw [hi]
      exact ih
  | reopen _ ih => exact ih

structure Sized (m : Machine) : Prop where
  count : m.store.size < UInt32.size / 2
  records : ∀ r c, m.store.get r = .ok (some c) → Framed (r, c)

variable {m m' : Machine} {h h' : History}

theorem Sized.framed (hs : m.Sized) (hm : m.store.Holds h) : ∀ e ∈ h.entries, Framed e := by
  rintro ⟨r, c⟩ he
  apply hs.records
  rw [hm.get, SortedMap.get?_eq_some_iff.mpr he]

theorem Sized.snapshot (hs : m.Sized) (hm : m.store.Holds h) : m.snapshot none = .ok (streamOf h) :=
  (snapshot_eq_ok_iff hm).mpr ⟨hm.size ▸ hs.count, rfl⟩

theorem get_congr_iff (hm : m.store.Holds h) (hm' : m'.store.Holds h') :
    (∀ r, m.store.get r = m'.store.get r) ↔ h = h' := by
  constructor
  · intro hget
    apply SortedMap.ext_get?
    intro r
    have hr := hget r
    rw [hm.get, hm'.get] at hr
    exact Except.ok.inj hr
  · rintro rfl r
    rw [hm.get, hm'.get]

theorem install_wellFormed {stream : Bytes} {es : List Store.Entry} (hes : WellFormed stream es) (m : Machine) :
    ∃ installed : Machine, m.install stream = (.ok es.length, installed) ∧ installed.store.Holds (.ofList es) :=
  ⟨_, install_eq_of_wellFormed hes m, rfl⟩

/-- Two machines write the same snapshot exactly if they hold the same records, however they came by them. Of
a stream that was installed nothing shows but the records that its texts stand for. -/
theorem snapshot_eq_iff_same_records (hm : m.Reached) (hm' : m'.Reached) (hs : m.Sized) (hs' : m'.Sized) :
    (∃ b b', m.snapshot none = .ok b ∧ m'.snapshot none = .ok b' ∧
      (b = b' ↔ ∀ r, m.store.get r = m'.store.get r)) ∧
    ∀ stream stream' es es', WellFormed stream es → WellFormed stream' es' →
      SortedMap.ofList es = SortedMap.ofList es' → ∃ installed installed' : Machine,
        m.install stream = (.ok es.length, installed) ∧ m'.install stream' = (.ok es'.length, installed') ∧
        installed.snapshot none = installed'.snapshot none := by
  obtain ⟨h, hh⟩ := hm.holds
  obtain ⟨h', hh'⟩ := hm'.holds
  constructor
  · refine ⟨_, _, hs.snapshot hh, hs'.snapshot hh', ?_⟩
    rw [get_congr_iff hh hh', Snapshot.streamOf_inj (hh.size ▸ hs.count) (hh'.size ▸ hs'.count) (hs.framed hh)
      (hs'.framed hh')]
  · intro stream stream' es es' hes hes' hsame
    obtain ⟨installed, hi, hholds⟩ := install_wellFormed hes m
    obtain ⟨installed', hi', hholds'⟩ := install_wellFormed hes' m'
    refine ⟨installed, installed', hi, hi', ?_⟩
    rw [snapshot_eq hholds, snapshot_eq hholds', hsame]

def bothStates : Claim :=
  ⟨[⟨⟨List.replicate 32 0xAB, rfl⟩, 0⟩, ⟨⟨List.replicate 32 0xAB, rfl⟩, 1⟩], ⟨List.replicate 32 0xAB, rfl⟩, ⟨"a", ""⟩⟩

def spelledRecord (place : UInt8) : Bytes :=
  let digest := (List.replicate 32 [0x41, 0x42]).flatten
  Utf8.encode "\x7b \"consuming_tx\":\x7b\"requesting_party\":\x7b\"owning_key\":\"\"," ++
    Utf8.encode "\"name\":\"\\u0061\"\x7d,\"input_index\": " ++
    place :: Utf8.encode ",\"id\":\"" ++ digest ++ Utf8.encode "\"\x7d,\n\"state_ref\":\x7b\"index\":" ++
    place :: Utf8.encode ",\"txhash\":\"" ++ digest ++ Utf8.encode "\"\x7d\x7d"

def spelledStream : Bytes :=
  Bytes.word 2 ++ (Snapshot.frame (spelledRecord 0x31) ++ (Snapshot.frame (spelledRecord 0x30) ++ []))

def spelledEntries : List Store.Entry :=
  bothStates.entries.reverse

theorem wellFormed_spelledStream : WellFormed spelledStream spelledEntries where
  small := by decide
  body := ⟨_, rfl, .cons (by decide +kernel) (by decide +kernel) (.cons (by decide +kernel) (by decide +kernel) .nil)⟩

theorem framed_spelledEntries : ∀ e ∈ (SortedMap.ofList spelledEntries).entries, Framed e := by
  intro e he
  rw [Framed, recordBytes, Json.encode_eq_bytes]
  revert e
  decide +kernel

theorem sized_spelledEntries {m : Machine} (hm : m.store.Holds (.ofList spelledEntries)) : m.Sized where
  count := by
    rw [hm.size]
    decide +kernel
  records r c hr := by
    rw [hm.get, Except.ok.injEq, SortedMap.get?_eq_some_iff] at hr
    exact framed_spelledEntries _ hr

theorem claimed_and_installed_alike : ∃ m m' b, empty.apply (.claim bothStates) = .ok (.committed, m) ∧
    empty.install spelledStream = (.ok 2, m') ∧ m.snapshot none = .ok b ∧ m'.snapshot none = .ok b := by
  have hreply : History.reply .empty (.claim bothStates) = .committed := by decide +kernel
  have hcontents : History.commit .empty (.claim bothStates) = .ofList spelledEntries := by decide +kernel
  have happly := apply_eq (m := empty) Store.holds_empty (.claim bothStates)
  rw [hreply, hcontents] at happly
  have hm : (empty.holding (.ofList spelledEntries)).store.Holds (.ofList spelledEntries) := rfl
  obtain ⟨m', hinstall, hm'⟩ := install_wellFormed wellFormed_spelledStream empty
  have hreached' := Reached.install .empty spelledStream
  rw [hinstall] at hreached'
  obtain ⟨⟨b, b', hb, hb', hiff⟩, -⟩ := snapshot_eq_iff_same_records (.apply .empty happly) hreached'
    (sized_spelledEntries hm) (sized_spelledEntries hm')
  obtain rfl := hiff.mpr ((get_congr_iff hm hm').mpr rfl)
  exact ⟨_, m', b, happly, hinstall, hb, hb'⟩

end Machine

end Uniqueness
