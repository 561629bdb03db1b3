import Uniqueness.Proofs.SnapshotStreams
import Mathlib.Data.List.Induction

namespace Uniqueness

namespace Bytes

theorem split?_eq_some_iff {n : Nat} {bs front back : Bytes} :
    split? n bs = some (front, back) ↔ bs = front ++ back ∧ front.length = n := by
  constructor
  · intro h
    simp only [split?] at h
    split at h
    case isTrue hn =>
      cases h
      exact ⟨(List.take_append_drop n bs).symm, hn⟩
    case isFalse => cases h
  · rintro ⟨rfl, rfl⟩
    exact split?_append front back

end Bytes

namespace Snapshot

open Store (Entry)

inductive Frames : List Entry → Bytes → Prop
  | nil : Frames [] []
  | cons {e : Entry} {es : List Entry} {text rest : Bytes} (short : text.length ≤ maxRecord)
    (decodes : Json.decode Record text = .ok ⟨e.1, e.2⟩) (h : Frames es rest) :
    Frames (e :: es) (frame text ++ rest)

structure WellFormed (stream : Bytes) (es : List Entry) : Prop where
  small : es.length < UInt32.size / 2
  body : ∃ rest, stream = Bytes.word es.length ++ rest ∧ Frames es rest

theorem readEntry_frame {text : Bytes} {e : Entry} (hshort : text.length ≤ maxRecord)
    (hd : Json.decode Record text = .ok ⟨e.1, e.2⟩) (i : Nat) (rest : Bytes) :
    readEntry i (frame text ++ rest) = .ok (e, rest) := by
  have hmax : maxRecord < UInt32.size := by decide
  have hmod : text.length % UInt32.size = text.length := Nat.mod_eq_of_lt (Nat.lt_of_le_of_lt hshort hmax)
  have hsplit := Bytes.split?_append text rest
  rw [← hmod] at hsplit
  rw [readEntry_short (by rw [hmod]; exact Nat.not_lt.mpr hshort) rest hsplit, hd]

theorem frame_of_readEntry {i : Nat} {bs rest : Bytes} {e : Entry} (h : readEntry i bs = .ok (e, rest)) :
    ∃ text, text.length ≤ maxRecord ∧ Json.decode Record text = .ok ⟨e.1, e.2⟩ ∧ bs = frame text ++ rest := by
  rw [readEntry.eq_def] at h
  split at h
  case h_1 => cases h
  case h_2 head tail hhead =>
    obtain ⟨rfl, hlength⟩ := Bytes.split?_eq_some_iff.mp hhead
    simp only at h
    split at h
    case isTrue => cases h
    case isFalse hshort =>
      split at h
      case h_1 => cases h
      case h_2 text rest' htext =>
        obtain ⟨rfl, htoNat⟩ := Bytes.split?_eq_some_iff.mp htext
        split at h
        case h_1 => cases h
        case h_2 r hd =>
          cases h
          refine ⟨text, by omega, hd, ?_⟩
          rw [frame, htoNat, Bytes.word_toNat hlength, List.append_assoc]

theorem frames_of_readEntry {e : Entry} {es : List Entry} {i : Nat} {bs rest : Bytes}
    (h : readEntry i bs = .ok (e, rest)) (hf : Frames es bs) : ∃ es', es = e :: es' ∧ Frames es' rest := by
  cases hf with
  | nil => cases h
  | cons short decodes hf =>
    rw [readEntry_frame short decodes, Except.ok.injEq, Prod.mk.injEq] at h
    obtain ⟨rfl, rfl⟩ := h
    exact ⟨_, rfl, hf⟩

theorem frames_cons_of_readEntry {e : Entry} {es : List Entry} {i : Nat} {bs rest : Bytes}
    (h : readEntry i bs = .ok (e, rest)) (hf : Frames es rest) : Frames (e :: es) bs := by
  obtain ⟨text, hshort, hd, rfl⟩ := frame_of_readEntry h
  exact .cons hshort hd hf

theorem frame_append_ne_nil (text rest : Bytes) : frame text ++ rest ≠ [] := by
  intro hnil
  have hlength := congrArg List.length hnil
  rw [frame, List.append_assoc, List.length_append, Bytes.word, Bytes.length_ofNat, List.length_nil] at hlength
  omega

theorem eq_nil_of_frames {es : List Entry} (h : Frames es []) : es = [] := by
  generalize hbs : ([] : Bytes) = bs at h
  cases h with
  | nil => rfl
  | cons short decodes hf => exact absurd hbs.symm (frame_append_ne_nil _ _)

theorem Frames.unique {es es' : List Entry} {bs : Bytes} (h : Frames es bs) (h' : Frames es' bs) : es = es' := by
  induction h generalizing es' with
  | nil => exact (eq_nil_of_frames h').symm
  | cons short decodes _ ih =>
    obtain ⟨rest, rfl, hrest⟩ := frames_of_readEntry (readEntry_frame short decodes 0 _) h'
    rw [ih hrest]

theorem WellFormed.frames {es : List Entry} {count : Nat} {rest : Bytes} (hcount : count < UInt32.size)
    (h : WellFormed (Bytes.word count ++ rest) es) : es.length = count ∧ Frames es rest := by
  obtain ⟨rest', hstream, hf⟩ := h.body
  have hsize : UInt32.size / 2 < UInt32.size := by decide
  obtain ⟨rfl, rfl⟩ := word_append_inj hcount (Nat.lt_trans h.small hsize) hstream
  exact ⟨rfl, hf⟩

theorem WellFormed.unique {es es' : List Entry} {stream : Bytes} (h : WellFormed stream es)
    (h' : WellFormed stream es') : es = es' := by
  obtain ⟨rest, rfl, hf⟩ := h.body
  have hsize : UInt32.size / 2 < UInt32.size := by decide
  exact hf.unique (h'.frames (Nat.lt_trans h.small hsize)).2

theorem frames_entryBytes {es : List Entry} (h : ∀ e ∈ es, Readable e) : Frames es (es.flatMap entryBytes) := by
  induction es with
  | nil => exact .nil
  | cons e es ih =>
    obtain ⟨he, hes⟩ := List.forall_mem_cons.mp h
    exact .cons he (Json.decode_encode _) (ih hes)

theorem readable_of_frames {e : Entry} {es : List Entry} {rest : Bytes} (h : Frames es (entryBytes e ++ rest)) :
    Readable e := by
  by_contra he
  obtain ⟨corruption, hc⟩ := readEntry_unreadable he 0 rest
  generalize hbs : entryBytes e ++ rest = bs at h hc
  cases h with
  | nil => exact frame_append_ne_nil _ _ hbs
  | cons short decodes hf =>
    rw [readEntry_frame short decodes] at hc
    cases hc

theorem forall_readable_of_frames {es es' : List Entry} (h : Frames es' (es.flatMap entryBytes)) :
    ∀ e ∈ es, Readable e := by
  induction es generalizing es' with
  | nil => exact nofun
  | cons e es ih =>
    rw [List.flatMap_cons] at h
    have he := readable_of_frames h
    obtain ⟨rest, -, hrest⟩ := frames_of_readEntry (readEntry_readable he 0 _) h
    exact List.forall_mem_cons.mpr ⟨he, ih hrest⟩

theorem wellFormed_streamOf {h : History} (hsize : h.size < UInt32.size / 2) (hh : ∀ e ∈ h.entries, Readable e) :
    WellFormed (streamOf h) h.entries where
  small := hsize
  body := ⟨_, rfl, frames_entryBytes hh⟩

theorem WellFormed.readable {h : History} {es : List Entry} (hsize : h.size < UInt32.size / 2)
    (hes : WellFormed (streamOf h) es) : ∀ e ∈ h.entries, Readable e := by
  have hword : UInt32.size / 2 < UInt32.size := by decide
  exact forall_readable_of_frames (hes.frames (Nat.lt_trans hsize hword)).2

theorem next_of_readEntry {e : Entry} {declared remaining : Nat} {bs rest : Bytes}
    (h : readEntry (declared - (remaining + 1) + 1) bs = .ok (e, rest)) :
    (Reader.before declared (remaining + 1) bs).next = (some (.ok e), Reader.before declared remaining rest) := by
  rw [Reader.next]
  simp [Reader.before, h]

theorem next_of_corruption {corruption : Corruption} {declared remaining : Nat} {bs : Bytes}
    (h : readEntry (declared - (remaining + 1) + 1) bs = .error corruption) :
    (Reader.before declared (remaining + 1) bs).next =
      (some (.error (.corrupted corruption)), ⟨declared, remaining, bs, true⟩) := by
  rw [Reader.next]
  simp [Reader.before, h]

namespace Reader

def answer : Nat → Reader → Option (Except Fault Entry)
  | 0, r => r.next.1
  | k + 1, r => answer k r.next.2

variable {r : Reader}

theorem answer_of_ended (h : r.ended = true) (k : Nat) : r.answer k = none := by
  have hnext : r.next = (none, r) := by rw [next, if_pos h]
  induction k with
  | zero => rw [answer, hnext]
  | succ k ih => rw [answer, hnext, ih]

theorem answer_cons {item : Except Fault Entry} {r' : Reader} {items : List (Except Fault Entry)}
    (h : r.next = (some item, r')) (hr' : ∀ k, r'.answer k = items[k]?) (k : Nat) :
    r.answer k = (item :: items)[k]? := by
  cases k with
  | zero => simp [answer, h]
  | succ k => simp [answer, h, hr']

theorem drain_of_answer {items : List (Except Fault Entry)} {n : Nat} (h : ∀ k, r.answer k = items[k]?)
    (hn : items.length < n) : (r.drain n).1 = items := by
  induction n generalizing r items with
  | zero => omega
  | succ n ih =>
    have hnext := h 0
    rcases hr : r.next with ⟨item, r'⟩
    rw [answer, hr] at hnext
    rw [drain, hr]
    cases items with
    | nil =>
      obtain rfl : item = none := hnext
      rfl
    | cons first items =>
      obtain rfl : item = some first := hnext
      have hrest : ∀ k, r'.answer k = items[k]? := by
        intro k
        have hk := h (k + 1)
        rwa [answer, hr] at hk
      exact congrArg (first :: ·) (ih hrest (Nat.lt_of_succ_lt_succ hn))

end Reader

structure Longest (n : Nat) (bs : Bytes) (front : List Entry) : Prop where
  atMost : front.length ≤ n
  begins : ∃ framed rest, bs = framed ++ rest ∧ Frames front framed
  longest : ∀ es framed rest, bs = framed ++ rest → Frames es framed → es.length ≤ n → es <+: front

theorem longest_nil {n : Nat} {bs : Bytes}
    (h : ∀ e es framed rest, bs = framed ++ rest → Frames (e :: es) framed → ¬es.length < n) :
    Longest n bs [] where
  atMost := Nat.zero_le n
  begins := ⟨[], bs, rfl, .nil⟩
  longest := by
    intro es framed rest hbs hf hlength
    cases es with
    | nil => exact List.nil_prefix
    | cons e es => exact absurd hlength (h e es framed rest hbs hf)

theorem frames_append_of_readEntry {e : Entry} {es : List Entry} {i : Nat} {framed rest rest' : Bytes}
    (h : readEntry i (framed ++ rest) = .ok (e, rest')) (hf : Frames es framed) (hne : es ≠ []) :
    ∃ es' framed', es = e :: es' ∧ rest' = framed' ++ rest ∧ Frames es' framed' := by
  cases hf with
  | nil => exact absurd rfl hne
  | cons short decodes hf =>
    rw [List.append_assoc, readEntry_frame short decodes, Except.ok.injEq, Prod.mk.injEq] at h
    obtain ⟨rfl, rfl⟩ := h
    exact ⟨_, _, rfl, rfl, hf⟩

theorem Longest.cons {e : Entry} {i n : Nat} {bs rest : Bytes} {front : List Entry}
    (h : readEntry i bs = .ok (e, rest)) (hfront : Longest n rest front) : Longest (n + 1) bs (e :: front) where
  atMost := Nat.succ_le_succ hfront.atMost
  begins := by
    obtain ⟨framed, tail, rfl, hf⟩ := hfront.begins
    obtain ⟨text, hshort, hd, rfl⟩ := frame_of_readEntry h
    exact ⟨frame text ++ framed, tail, by rw [List.append_assoc], .cons hshort hd hf⟩
  longest := by
    rintro es framed tail rfl hf hlength
    by_cases hne : es = []
    · rw [hne]
      exact List.nil_prefix
    · obtain ⟨es', framed', rfl, rfl, hf'⟩ := frames_append_of_readEntry h hf hne
      exact List.prefix_cons_inj e |>.mpr (hfront.longest es' framed' tail rfl hf' (Nat.le_of_succ_le_succ hlength))

theorem answers_cases (declared remaining : Nat) (bs : Bytes) :
    (∃ es, es.length = remaining ∧ Frames es bs ∧
      ∀ k, (Reader.before declared remaining bs).answer k = (es.map Except.ok)[k]?) ∨
    (¬∃ es, es.length = remaining ∧ Frames es bs) ∧ ∃ front corruption, Longest remaining bs front ∧
      ∀ k, (Reader.before declared remaining bs).answer k =
        (front.map Except.ok ++ [.error (.corrupted corruption)])[k]? := by
  induction remaining generalizing bs with
  | zero =>
    -- nothing may follow the last frame
    cases bs with
    | nil =>
      refine .inl ⟨[], rfl, .nil, ?_⟩
      intro k
      cases k with
      | zero => rfl
      | succ k => exact Reader.answer_of_ended rfl k
    | cons b bs =>
      refine .inr ⟨?_, [], .trailing declared, longest_nil fun _ _ _ _ _ _ => Nat.not_lt_zero _, ?_⟩
      · rintro ⟨es, hlength, hf⟩
        rw [List.length_eq_zero_iff.mp hlength] at hf
        cases hf
      · exact Reader.answer_cons rfl fun k => Reader.answer_of_ended rfl k
  | succ remaining ih =>
    cases h : readEntry (declared - (remaining + 1) + 1) bs with
    | error corruption =>
      refine .inr ⟨?_, [], corruption, longest_nil ?_, ?_⟩
      · rintro ⟨es, hlength, hf⟩
        cases hf with
        | nil => cases hlength
        | cons short decodes hf =>
          rw [readEntry_frame short decodes] at h
          cases h
      · rintro e es framed rest rfl hf
        cases hf with
        | cons short decodes hf =>
          rw [List.append_assoc, readEntry_frame short decodes] at h
          cases h
      · exact Reader.answer_cons (next_of_corruption h) fun k => Reader.answer_of_ended rfl k
    | ok found =>
      obtain ⟨e, rest⟩ := found
      have hnext := next_of_readEntry h
      rcases ih rest with ⟨es, hlength, hf, hes⟩ | ⟨hnone, front, corruption, hfront, hes⟩
      · exact .inl ⟨e :: es, by rw [List.length_cons, hlength], frames_cons_of_readEntry h hf,
          Reader.answer_cons hnext hes⟩
      · refine .inr ⟨?_, e :: front, corruption, hfront.cons h, Reader.answer_cons hnext hes⟩
        rintro ⟨es, hlength, hf⟩
        obtain ⟨es', rfl, hf'⟩ := frames_of_readEntry h hf
        exact hnone ⟨es', Nat.succ.inj hlength, hf'⟩

theorem items_cases (declared remaining : Nat) (bs : Bytes) :
    (∃ es, es.length = remaining ∧ Frames es bs ∧
      (Reader.before declared remaining bs).items.1 = es.map .ok) ∨
    (¬∃ es, es.length = remaining ∧ Frames es bs) ∧ ∃ (front : List Entry) (corruption : Corruption),
      (Reader.before declared remaining bs).items.1 = front.map .ok ++ [.error (.corrupted corruption)] := by
  rcases answers_cases declared remaining bs with
    ⟨es, hlength, hf, hes⟩ | ⟨hnone, front, corruption, hfront, hes⟩
  · refine .inl ⟨es, hlength, hf, Reader.drain_of_answer hes ?_⟩
    simp [Reader.before, hlength]
  · refine .inr ⟨hnone, front, corruption, Reader.drain_of_answer hes ?_⟩
    have := hfront.atMost
    simp [Reader.before]
    omega

theorem readHeader_short {stream : Bytes} (h : stream.length < 4) :
    readHeader stream = .error (.corrupted .header) := by
  cases hs : Bytes.split? 4 stream with
  | none => rw [readHeader, hs]
  | some parts =>
    obtain ⟨head, rest⟩ := parts
    obtain ⟨rfl, hlength⟩ := Bytes.split?_eq_some_iff.mp hs
    rw [List.length_append] at h
    omega

theorem readHeader_negative {count : Nat} (hcount : UInt32.size / 2 ≤ count) (hsize : count < UInt32.size)
    (rest : Bytes) :
    readHeader (Bytes.word count ++ rest) = .error (.corrupted (.negative (count - UInt32.size))) := by
  have hn : (count : Int) - UInt32.size < 0 := by omega
  rw [readHeader, split?_word]
  simp only [toNat_word, Nat.mod_eq_of_lt hsize, Bytes.signed, if_neg (Nat.not_lt.mpr hcount), if_pos hn]

theorem header_cases (stream : Bytes) :
    stream.length < 4 ∨ ∃ count rest, count < UInt32.size ∧ stream = Bytes.word count ++ rest := by
  by_cases h : stream.length < 4
  · exact .inl h
  · have hlength : (stream.take 4).length = 4 := by
      rw [List.length_take]
      omega
    refine .inr ⟨Bytes.toNat (stream.take 4), stream.drop 4, Bytes.toNat_lt hlength, ?_⟩
    rw [Bytes.word_toNat hlength, List.take_append_drop]

theorem WellFormed.length_ge {stream : Bytes} {es : List Entry} (h : WellFormed stream es) : 4 ≤ stream.length := by
  obtain ⟨rest, rfl, -⟩ := h.body
  rw [List.length_append, Bytes.word, Bytes.length_ofNat]
  omega

theorem readHeader_cases (stream : Bytes) :
    (∃ count rest, count < UInt32.size / 2 ∧ stream = Bytes.word count ++ rest ∧
      readHeader stream = .ok (Reader.before count count rest)) ∨
    (¬∃ es, WellFormed stream es) ∧ ∃ corruption, readHeader stream = .error (.corrupted corruption) := by
  rcases header_cases stream with hshort | ⟨count, rest, hsize, rfl⟩
  · refine .inr ⟨?_, .header, readHeader_short hshort⟩
    rintro ⟨es, hes⟩
    exact absurd hes.length_ge (Nat.not_le.mpr hshort)
  · by_cases hcount : count < UInt32.size / 2
    · exact .inl ⟨count, rest, hcount, rfl, readHeader_word hcount rest⟩
    · refine .inr ⟨?_, _, readHeader_negative (Nat.le_of_not_lt hcount) hsize rest⟩
      rintro ⟨es, hes⟩
      exact hcount ((hes.frames hsize).1 ▸ hes.small)

end Snapshot

end Uniqueness
