import Uniqueness.Proofs.SnapshotFormat

namespace Uniqueness.Snapshot

open Store (Entry)

namespace Record

inductive Described : Tree → Record → Prop
  | stateFirst {l l' : Label} {s c : Tree} {r : Record} {ending : Ending} (hl : l.text? = some "state_ref")
    (hl' : l'.text? = some "consuming_tx") (hs : ofTree s = .ok r.state) (hc : ofTree c = .ok r.consumption)
    (he : ending ≠ .broken) : Described (.table [(l, s), (l', c)] ending) r
  | consumptionFirst {l l' : Label} {s c : Tree} {r : Record} {ending : Ending} (hl : l.text? = some "state_ref")
    (hl' : l'.text? = some "consuming_tx") (hs : ofTree s = .ok r.state) (hc : ofTree c = .ok r.consumption)
    (he : ending ≠ .broken) : Described (.table [(l', c), (l, s)] ending) r
  | listed {s c : Tree} {rest : List Tree} {r : Record} {ending : Ending} (hs : ofTree s = .ok r.state)
    (hc : ofTree c = .ok r.consumption) (he : Codec.endsList rest ending = true) :
    Described (.list (s :: c :: rest) ending) r

theorem ofInner_eq_ok_iff {α : Type} [Codec α] {t : Tree} {a : α} : ofInner t = .ok a ↔ ofTree t = .ok a := by
  rw [ofInner]
  cases (ofTree t : Except Uniqueness.Fault α) with
  | error fault => simp
  | ok b => simp

variable {ending : Ending} {l : Label} {t : Tree} {fields : List (Label × Tree)} {d d' : Draft}

section

variable {α : Type} [Codec α] {name : String} {get : Draft → Option α} {put : Draft → α → Draft}

theorem readTable_field (hfind : shape.fields.find? (fun f => f.name = name) = some (.of name get put))
    (hl : l.text? = some name) : shape.readTable ending ((l, t) :: fields) d =
      if (get d).isSome then .error (.repeated name)
      else (do shape.readTable ending fields (put d (← ofInner t))) := by
  simp only [Shape.readTable, hl, hfind, Field.of]
  cases (ofInner t : Except Uniqueness.Fault α) with
  | error fault => rfl
  | ok a => rfl

theorem first_of_readTable (hfind : shape.fields.find? (fun f => f.name = name) = some (.of name get put))
    (hl : l.text? = some name) (h : shape.readTable ending ((l, t) :: fields) d = .ok d') :
    get d = none ∧ ∃ a, ofTree t = .ok a ∧ shape.readTable ending fields (put d a) = .ok d' := by
  rw [readTable_field hfind hl] at h
  split at h
  case isTrue => cases h
  case isFalse hnone =>
    obtain ⟨a, ha, hrest⟩ := bind_eq_ok_iff.mp h
    exact ⟨by simpa using hnone, a, ofInner_eq_ok_iff.mp ha, hrest⟩

end

theorem readTable_state (hl : l.text? = some "state_ref") : shape.readTable ending ((l, t) :: fields) d =
    if d.state.isSome then .error (.repeated "state_ref")
    else (do shape.readTable ending fields { d with state := some (← ofInner t) }) :=
  readTable_field rfl hl

theorem readTable_consumption (hl : l.text? = some "consuming_tx") :
    shape.readTable ending ((l, t) :: fields) d =
      if d.consumption.isSome then .error (.repeated "consuming_tx")
      else (do shape.readTable ending fields { d with consumption := some (← ofInner t) }) :=
  readTable_field rfl hl

theorem cases_of_readTable (h : shape.readTable ending ((l, t) :: fields) d = .ok d') :
    (l.text? = some "state_ref" ∧ d.state = none ∧ ∃ a, ofTree t = .ok a ∧
      shape.readTable ending fields { d with state := some a } = .ok d') ∨
    (l.text? = some "consuming_tx" ∧ d.consumption = none ∧ ∃ a, ofTree t = .ok a ∧
      shape.readTable ending fields { d with consumption := some a } = .ok d') := by
  by_cases hs : l.text? = some "state_ref"
  · exact .inl ⟨hs, first_of_readTable rfl hs h⟩
  by_cases hc : l.text? = some "consuming_tx"
  · exact .inr ⟨hc, first_of_readTable rfl hc h⟩
  · -- no other field is taken
    cases hname : l.text? with
    | none =>
      rw [Shape.readTable, hname] at h
      cases h
    | some name =>
      rw [hname, Option.some.injEq] at hs hc
      have hfind : shape.fields.find? (fun f => f.name = name) = none := by
        simp [shape, Ne.symm hs, Ne.symm hc]
      simp only [Shape.readTable, hname, hfind] at h
      cases h

theorem eq_of_readTable_nil (h : shape.readTable ending [] d = .ok d') : d' = d ∧ ending ≠ .broken := by
  rw [Shape.readTable] at h
  split at h
  case isTrue => cases h
  case isFalse he => exact ⟨(Except.ok.inj h).symm, he⟩

theorem eq_of_readTable_filled {a : StateRef} {b : Consumption}
    (h : shape.readTable ending fields ⟨some a, some b⟩ = .ok d) :
    fields = [] ∧ d = ⟨some a, some b⟩ ∧ ending ≠ .broken := by
  cases fields with
  | nil => exact ⟨rfl, eq_of_readTable_nil h⟩
  | cons f fields =>
    rcases cases_of_readTable h with ⟨-, hnone, -⟩ | ⟨-, hnone, -⟩
    · cases hnone
    · cases hnone

variable {r : Record}

theorem described_of_readTable (h : shape.readTable ending fields {} = .ok ⟨some r.state, some r.consumption⟩) :
    Described (.table fields ending) r := by
  cases fields with
  | nil => cases (eq_of_readTable_nil h).1
  | cons f fields =>
    rcases cases_of_readTable h with ⟨hl, -, a, ha, h⟩ | ⟨hl, -, b, hb, h⟩
    · cases fields with
      | nil => cases (eq_of_readTable_nil h).1
      | cons g fields =>
        rcases cases_of_readTable h with ⟨-, hnone, -⟩ | ⟨hl', -, b, hb, h⟩
        · cases hnone
        · obtain ⟨rfl, hd, he⟩ := eq_of_readTable_filled h
          cases hd
          exact .stateFirst hl hl' ha hb he
    · cases fields with
      | nil => cases (eq_of_readTable_nil h).1
      | cons g fields =>
        rcases cases_of_readTable h with ⟨hl', -, a, ha, h⟩ | ⟨-, hnone, -⟩
        · obtain ⟨rfl, hd, he⟩ := eq_of_readTable_filled h
          cases hd
          exact .consumptionFirst hl' hl ha hb he
        · cases hnone

theorem read_pair (s c : Tree) (rest : List Tree) (ending : Ending) :
    shape.read {} (.list (s :: c :: rest) ending) = (do
      let a ← ofInner s
      let b ← ofInner c
      if Codec.endsList rest ending then .ok ⟨some a, some b⟩
      else if ending = .broken then .error .malformed
      else .error (.length (2 + rest.length) "fewer elements in array")) := by
  simp only [Shape.read, shape, Field.of, Shape.readList]
  cases (ofInner s : Except Uniqueness.Fault StateRef) with
  | error fault => rfl
  | ok a =>
    cases (ofInner c : Except Uniqueness.Fault Consumption) with
    | error fault => rfl
    | ok b => rfl

theorem described_of_readList {items : List Tree}
    (h : shape.readList ending shape.fields items {} = .ok ⟨some r.state, some r.consumption⟩) :
    Described (.list items ending) r := by
  match items with
  | [] =>
    simp only [shape, Shape.readList] at h
    split at h
    · cases h
    · cases h
  | [s] =>
    simp only [shape, Shape.readList] at h
    obtain ⟨d, -, h⟩ := bind_eq_ok_iff.mp h
    split at h
    · cases h
    · cases h
  | s :: c :: rest =>
    have hpair := read_pair s c rest ending
    rw [Shape.read, h] at hpair
    obtain ⟨a, ha, hpair⟩ := bind_eq_ok_iff.mp hpair.symm
    obtain ⟨b, hb, hpair⟩ := bind_eq_ok_iff.mp hpair
    split at hpair
    case isTrue he =>
      cases hpair
      exact .listed (ofInner_eq_ok_iff.mp ha) (ofInner_eq_ok_iff.mp hb) he
    case isFalse =>
      split at hpair
      · cases hpair
      · cases hpair

theorem read_eq_ok_iff : shape.read {} t = .ok ⟨some r.state, some r.consumption⟩ ↔ Described t r := by
  constructor
  · intro h
    cases t with
    | table fields ending => exact described_of_readTable h
    | list items ending => exact described_of_readList h
    | _ => cases h
  · intro h
    cases h with
    | stateFirst hl hl' hs hc he =>
      rw [Shape.read, readTable_state hl, ofInner_eq_ok_iff.mpr hs, ok_bind, readTable_consumption hl',
        ofInner_eq_ok_iff.mpr hc, ok_bind]
      simp [he]
    | consumptionFirst hl hl' hs hc he =>
      rw [Shape.read, readTable_consumption hl', ofInner_eq_ok_iff.mpr hc, ok_bind, readTable_state hl,
        ofInner_eq_ok_iff.mpr hs, ok_bind]
      simp [he]
    | listed hs hc he =>
      rw [read_pair, ofInner_eq_ok_iff.mpr hs, ofInner_eq_ok_iff.mpr hc, ok_bind, ok_bind, if_pos he]

theorem ofTree_eq_ok_iff : ofTree t = .ok r ↔ Described t r := by
  rw [← read_eq_ok_iff]
  constructor
  · intro h
    obtain ⟨⟨s, c⟩, hread, h⟩ := bind_eq_ok_iff.mp h
    obtain ⟨a, ha, h⟩ := bind_eq_ok_iff.mp h
    obtain ⟨b, hb, h⟩ := bind_eq_ok_iff.mp h
    cases h
    cases s with
    | none => cases ha
    | some s =>
      cases c with
      | none => cases hb
      | some c =>
        cases ha
        cases hb
        exact hread
  · intro h
    change (shape.read {} t >>= _) = _
    rw [h]
    rfl

theorem decode_eq_ok_iff {text : Bytes} : Json.decode Record text = .ok r ↔
    ∃ t rest, Json.parse text = (t, rest) ∧ Json.skip rest = [] ∧ Described t r := by
  rcases h : Json.parse text with ⟨t, rest⟩
  rw [Json.decode, h]
  constructor
  · intro hd
    obtain ⟨r', hof, hd⟩ := bind_eq_ok_iff.mp hd
    split at hd
    case isTrue he =>
      cases hd
      exact ⟨t, rest, rfl, List.isEmpty_iff.mp he, ofTree_eq_ok_iff.mp hof⟩
    case isFalse => cases hd
  · rintro ⟨t', rest', heq, he, hr⟩
    cases heq
    simp only [ofTree_eq_ok_iff.mpr hr, ok_bind, he, List.isEmpty_nil, if_true]

end Record

theorem map_ok_injective {es es' : List Entry}
    (h : ∀ k : Nat, (es.map (Except.ok (ε := Fault)))[k]? = (es'.map Except.ok)[k]?) : es = es' := by
  have hmap := List.ext_getElem? h
  exact List.map_injective_iff.mpr (fun _ _ => Except.ok.inj) hmap

theorem map_ok_ne {es front : List Entry} {fault : Fault}
    (h : ∀ k : Nat, (front.map Except.ok ++ [.error fault])[k]? = (es.map Except.ok)[k]?) : False := by
  have hmap := List.ext_getElem? h
  have hmem : Except.error fault ∈ es.map Except.ok := hmap ▸ List.mem_append_right _ List.mem_cons_self
  obtain ⟨e, -, he⟩ := List.mem_map.mp hmem
  cases he

theorem WellFormed.answers {stream : Bytes} {es : List Entry} (h : WellFormed stream es) :
    ∃ r, readHeader stream = .ok r ∧ ∀ k, r.answer k = (es.map Except.ok)[k]? := by
  obtain ⟨rest, rfl, hf⟩ := h.body
  refine ⟨_, readHeader_word h.small rest, ?_⟩
  rcases answers_cases es.length es.length rest with ⟨es', -, hf', hes⟩ | ⟨hnone, -⟩
  · obtain rfl := hf.unique hf'
    exact hes
  · exact absurd ⟨es, rfl, hf⟩ hnone

theorem wellFormed_of_answers {stream : Bytes} {es : List Entry} {r : Reader} (hr : readHeader stream = .ok r)
    (hes : ∀ k, r.answer k = (es.map Except.ok)[k]?) : WellFormed stream es := by
  rcases readHeader_cases stream with ⟨count, rest, hcount, rfl, hhead⟩ | ⟨-, corruption, hhead⟩
  · rw [hhead] at hr
    cases hr
    rcases answers_cases count count rest with ⟨es', hlength, hf, hes'⟩ | ⟨-, front, corruption, -, hes'⟩
    · obtain rfl := map_ok_injective fun k => (hes' k).symm.trans (hes k)
      exact ⟨hlength ▸ hcount, rest, by rw [hlength], hf⟩
    · exact (map_ok_ne fun k => (hes' k).symm.trans (hes k)).elim
  · rw [hhead] at hr
    cases hr

/-- A reader gives the entries of a stream and nothing more exactly if the stream has the format. From
another stream it gives what is in the longest run of frames at the front, then a corruption, and then
nothing. The text in a frame has to stand for a record with its two fields and no other. -/
theorem reads_exactly_the_format (stream : Bytes) :
    (∀ es, WellFormed stream es ↔
      ∃ r, readHeader stream = .ok r ∧ ∀ k, r.answer k = (es.map Except.ok)[k]?) ∧
    ((¬∃ es, WellFormed stream es) →
      (stream.length < 4 ∧ readHeader stream = .error (.corrupted .header)) ∨
      (∃ count rest, UInt32.size / 2 ≤ count ∧ count < UInt32.size ∧ stream = Bytes.word count ++ rest ∧
        readHeader stream = .error (.corrupted (.negative (count - UInt32.size)))) ∨
      ∃ count rest r front corruption, count < UInt32.size / 2 ∧ stream = Bytes.word count ++ rest ∧
        readHeader stream = .ok r ∧ Longest count rest front ∧
        ∀ k, r.answer k = (front.map Except.ok ++ [.error (.corrupted corruption)])[k]?) ∧
    ∀ text r, Json.decode Record text = .ok r ↔
      ∃ t rest, Json.parse text = (t, rest) ∧ Json.skip rest = [] ∧ Record.Described t r := by
  refine ⟨?_, ?_, fun _ _ => Record.decode_eq_ok_iff⟩
  · intro es
    constructor
    · exact WellFormed.answers
    · rintro ⟨r, hr, hes⟩
      exact wellFormed_of_answers hr hes
  · intro hnone
    rcases header_cases stream with hshort | ⟨count, rest, hsize, rfl⟩
    · exact .inl ⟨hshort, readHeader_short hshort⟩
    by_cases hcount : count < UInt32.size / 2
    · have hhead := readHeader_word hcount rest
      rcases answers_cases count count rest with ⟨es, hlength, hf, -⟩ | ⟨-, front, corruption, hfront, hes⟩
      · exact absurd ⟨es, hlength ▸ hcount, rest, by rw [hlength], hf⟩ hnone
      · exact .inr (.inr ⟨count, rest, _, front, corruption, hcount, rfl, hhead, hfront, hes⟩)
    · have hle := Nat.le_of_not_lt hcount
      exact .inr (.inl ⟨count, rest, hle, hsize, rfl, readHeader_negative hle hsize rest⟩)

def soleEntry : Entry :=
  (default, ⟨default, 0, ⟨"a", ""⟩⟩)

theorem readable_soleEntry : Readable soleEntry := by
  rw [Readable, recordBytes, Json.encode_eq_bytes]
  decide +kernel

def trailed : Bytes :=
  Bytes.word 1 ++ (entryBytes soleEntry ++ [7])

theorem not_wellFormed_trailed : ¬∃ es, WellFormed trailed es := by
  rintro ⟨es, hes⟩
  obtain ⟨hlength, hf⟩ := hes.frames (by decide)
  obtain ⟨es', rfl, hf'⟩ := frames_of_readEntry (readEntry_readable readable_soleEntry 0 [7]) hf
  obtain rfl := List.length_eq_zero_iff.mp (Nat.succ.inj hlength)
  cases hf'

theorem one_byte_too_many_is_reported : (¬∃ es, WellFormed trailed es) ∧
    ∃ r corruption, readHeader trailed = .ok r ∧ r.answer 0 = some (.ok soleEntry) ∧
      r.answer 1 = some (.error (.corrupted corruption)) ∧ ∀ k, r.answer (k + 2) = none := by
  refine ⟨not_wellFormed_trailed, ?_⟩
  have hhead : readHeader trailed = .ok (Reader.before 1 1 (entryBytes soleEntry ++ [7])) :=
    readHeader_word (by decide) _
  rcases (reads_exactly_the_format trailed).2.1 not_wellFormed_trailed with
    ⟨-, hshort⟩ | ⟨_, _, _, _, _, hnegative⟩ |
      ⟨count, rest, r, front, corruption, hcount, hstream, hr, hfront, hes⟩
  · rw [hhead] at hshort
    cases hshort
  · rw [hhead] at hnegative
    cases hnegative
  · have hsize : UInt32.size / 2 < UInt32.size := by decide
    obtain ⟨rfl, rfl⟩ := word_append_inj (by decide) (Nat.lt_trans hcount hsize) hstream
    have hsole : Frames [soleEntry] (entryBytes soleEntry ++ []) :=
      .cons readable_soleEntry (Json.decode_encode _) .nil
    have hprefix := hfront.longest _ (entryBytes soleEntry ++ []) [7] (by rw [List.append_nil]) hsole (Nat.le_refl 1)
    obtain rfl := hprefix.eq_of_length_le hfront.atMost
    refine ⟨r, corruption, hr, hes 0, hes 1, ?_⟩
    intro k
    rw [hes]
    rfl

end Uniqueness.Snapshot
