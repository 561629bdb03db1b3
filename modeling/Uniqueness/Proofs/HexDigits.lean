import Uniqueness.Proofs.DigestTexts
import Uniqueness.Proofs.Numerals

namespace Uniqueness.Hex

def IsDigit (c : Char) : Prop :=
  c.isDigit = true ∨ ('a' ≤ c ∧ c ≤ 'f') ∨ 'A' ≤ c ∧ c ≤ 'F'

instance (c : Char) : Decidable (IsDigit c) :=
  inferInstanceAs (Decidable (_ ∨ _ ∨ _))

def IsDigitByte (b : UInt8) : Prop :=
  IsDigit (Char.ofNat b.toNat)

def FirstBad (us : Bytes) (b : UInt8) (position : Nat) : Prop :=
  ∃ before after, us = before ++ b :: after ∧ before.length = position ∧ (∀ a ∈ before, IsDigitByte a) ∧
    ¬IsDigitByte b

def halves (b : UInt8) : List Nat :=
  [b.toNat / 16, b.toNat % 16]

theorem map_value? : ∀ n, n < 0x80 → (value? (UInt8.ofNat n)).map digit =
    if IsDigit (Char.ofNat n) then some (Char.ofNat n).toLower else none := by
  decide +kernel

theorem isSome_value? : ∀ n, n < 256 → ((value? (UInt8.ofNat n)).isSome = true ↔ IsDigit (Char.ofNat n)) := by
  decide +kernel

theorem digit_inj : ∀ m, m < 16 → ∀ n, n < 16 → digit m = digit n → m = n := by
  decide +kernel

theorem isSome_value?_iff (b : UInt8) : (value? b).isSome = true ↔ IsDigitByte b := by
  have h := isSome_value? b.toNat b.toNat_lt
  rwa [UInt8.ofNat_toNat] at h

theorem isDigitByte_of_value? {b : UInt8} {n : Nat} (h : value? b = some n) : IsDigitByte b :=
  (isSome_value?_iff b).mp (by rw [h, Option.isSome_some])

theorem not_isDigitByte_of_value? {b : UInt8} (h : value? b = none) : ¬IsDigitByte b := by
  intro hb
  have hsome := (isSome_value?_iff b).mpr hb
  rw [h] at hsome
  cases hsome

theorem value?_lt {b : UInt8} {n : Nat} (h : value? b = some n) : n < 16 := by
  simp only [value?] at h
  split at h
  · cases h
    omega
  split at h
  · cases h
    omega
  split at h
  · cases h
    omega
  · cases h

theorem value?_eq_none_of_le {b : UInt8} (h : 0x80 ≤ b.toNat) : value? b = none := by
  simp only [value?]
  rw [if_neg (by omega), if_neg (by omega), if_neg (by omega)]

theorem toNat_lt_of_isDigit {c : Char} (h : IsDigit c) : c.toNat < 0x80 := by
  rcases h with h | ⟨-, h⟩ | ⟨-, h⟩
  · have hle := (Decimal.isDigit_iff.mp h).2
    omega
  · exact Nat.lt_of_le_of_lt (UInt32.le_iff_toNat_le.mp h) (by decide)
  · exact Nat.lt_of_le_of_lt (UInt32.le_iff_toNat_le.mp h) (by decide)

theorem value?_eq_some_iff {c : Char} (hc : c.toNat < 0x80) {n : Nat} (hn : n < 16) :
    value? (UInt8.ofNat c.toNat) = some n ↔ IsDigit c ∧ c.toLower = digit n := by
  have hmap := map_value? c.toNat hc
  rw [Char.ofNat_toNat] at hmap
  cases hv : value? (UInt8.ofNat c.toNat) with
  | none =>
    rw [hv, Option.map_none] at hmap
    split at hmap
    case isTrue => cases hmap
    case isFalse hnot => exact iff_of_false nofun fun h => hnot h.1
  | some m =>
    rw [hv, Option.map_some] at hmap
    split at hmap
    case isTrue hd =>
      rw [← Option.some.inj hmap, Option.some.injEq]
      exact ⟨fun h => ⟨hd, congrArg digit h⟩, fun h => digit_inj m (value?_lt hv) n hn h.2⟩
    case isFalse => cases hmap

theorem halves_ofNat {high low : Nat} (hh : high < 16) (hl : low < 16) :
    halves (UInt8.ofNat (16 * high + low)) = [high, low] := by
  have hn : (UInt8.ofNat (16 * high + low)).toNat = 16 * high + low := Utf8.toNat_ofNat (by omega)
  rw [halves, hn, show (16 * high + low) / 16 = high by omega, show (16 * high + low) % 16 = low by omega]

theorem encode_eq_map (bs : Bytes) : encode bs = (bs.flatMap halves).map digit := by
  rw [encode, List.map_flatMap]
  rfl

theorem length_halves (bs : Bytes) : (bs.flatMap halves).length = 2 * bs.length := by
  rw [← length_encode, encode_eq_map, List.length_map]

theorem lt_of_mem_halves {bs : Bytes} : ∀ n ∈ bs.flatMap halves, n < 16 := by
  intro n hn
  obtain ⟨b, -, hb⟩ := List.mem_flatMap.mp hn
  have hlt := b.toNat_lt
  simp only [halves, List.mem_cons, List.not_mem_nil, or_false] at hb
  omega

theorem halves_inj {a b : UInt8} (h : halves a = halves b) : a = b := by
  simp only [halves, List.cons.injEq] at h
  apply UInt8.toNat_inj.mp
  omega

theorem decodeFrom_eq_ok_iff (i : Nat) (done us bs : Bytes) : decodeFrom i done us = .ok bs ↔
    ∃ rest, bs = done.reverse ++ rest ∧ us.map value? = (rest.flatMap halves).map some := by
  fun_induction decodeFrom i done us with
  | case1 i done =>
    constructor
    · rintro ⟨⟩
      exact ⟨[], (List.append_nil _).symm, rfl⟩
    · rintro ⟨rest, rfl, h⟩
      cases rest with
      | nil => rw [List.append_nil]
      | cons => cases h
  | case2 i done a =>
    refine iff_of_false nofun ?_
    rintro ⟨rest, -, h⟩
    have hl := congrArg List.length h
    rw [List.length_map, List.length_map, length_halves, List.length_singleton] at hl
    omega
  | case3 i done a b rest ha =>
    refine iff_of_false nofun ?_
    rintro ⟨rest, -, h⟩
    cases rest with
    | nil => cases h
    | cons => simp [ha, halves] at h
  | case4 i done a b rest high ha hb =>
    refine iff_of_false nofun ?_
    rintro ⟨rest, -, h⟩
    cases rest with
    | nil => cases h
    | cons => simp [hb, halves] at h
  | case5 i done a b us high ha low hb ih =>
    have hbyte := halves_ofNat (value?_lt ha) (value?_lt hb)
    rw [ih]
    constructor
    · rintro ⟨rest, rfl, h⟩
      refine ⟨UInt8.ofNat (16 * high + low) :: rest, by simp, ?_⟩
      rw [List.flatMap_cons, hbyte]
      simp [ha, hb, h]
    · rintro ⟨rest, rfl, h⟩
      cases rest with
      | nil => cases h
      | cons c rest =>
        simp only [List.map_cons, ha, hb, List.flatMap_cons, List.map_append] at h
        have hc : UInt8.ofNat (16 * high + low) = c := by
          apply halves_inj
          rw [hbyte]
          simp only [halves, List.map_cons, List.map_nil, List.cons_append, List.nil_append, List.cons.injEq,
            Option.some.injEq] at h ⊢
          exact ⟨h.1, h.2.1, trivial⟩
        refine ⟨rest, by simp [hc], ?_⟩
        simp only [halves, List.map_cons, List.map_nil, List.cons_append, List.nil_append, List.cons.injEq] at h
        exact h.2.2

theorem map_value?_encodeList {cs : List Char} {ns : List Nat} (hns : ∀ n ∈ ns, n < 16) :
    (Utf8.encodeList cs).map value? = ns.map some ↔ (∀ c ∈ cs, IsDigit c) ∧ cs.map Char.toLower = ns.map digit := by
  induction cs generalizing ns with
  | nil => cases ns <;> simp [Utf8.encodeList]
  | cons c cs ih =>
    have hcons : Utf8.encodeList (c :: cs) = Utf8.encodeChar c ++ Utf8.encodeList cs := rfl
    rw [hcons]
    by_cases hc : c.toNat < 0x80
    case pos =>
      rw [Utf8.encodeChar_of_lt hc]
      cases ns with
      | nil => simp
      | cons n ns =>
        obtain ⟨hn, hrest⟩ := List.forall_mem_cons.mp hns
        simp only [List.cons_append, List.nil_append, List.map_cons, List.cons.injEq, value?_eq_some_iff hc hn,
          ih hrest, List.forall_mem_cons]
        exact and_and_and_comm
    case neg =>
      -- all bytes of a character beyond the first 128 are high, and no digits
      refine iff_of_false ?_ fun h => hc (toNat_lt_of_isDigit (h.1 c List.mem_cons_self))
      intro h
      obtain ⟨b, hb⟩ : ∃ b, b ∈ Utf8.encodeChar c := by
        apply List.exists_mem_of_ne_nil
        rw [Utf8.encodeChar]
        split_ifs <;> exact List.cons_ne_nil _ _
      have hmem : value? b ∈ ns.map some := by
        rw [← h]
        exact List.mem_map_of_mem (List.mem_append_left _ hb)
      rw [value?_eq_none_of_le (Utf8.le_of_mem_encodeChar hb (Nat.le_of_not_lt hc))] at hmem
      simp at hmem

theorem decode_eq_ok_iff {us bs : Bytes} : decode us = .ok bs ↔ us.map value? = (bs.flatMap halves).map some := by
  rw [decode]
  split
  case isTrue => rw [decodeFrom_eq_ok_iff]; simp
  case isFalse hodd =>
    refine iff_of_false (fun h => by cases h) fun h => hodd ?_
    have hl := congrArg List.length h
    rw [List.length_map, List.length_map, length_halves] at hl
    omega

theorem decode_text_eq_ok_iff {cs : List Char} {bs : Bytes} :
    decode (Utf8.encodeList cs) = .ok bs ↔ (∀ c ∈ cs, IsDigit c) ∧ cs.map Char.toLower = encode bs := by
  rw [decode_eq_ok_iff, map_value?_encodeList lt_of_mem_halves, encode_eq_map]

theorem not_firstBad_nil (b : UInt8) (k : Nat) : ¬FirstBad [] b k := by
  rintro ⟨before, after, h, -⟩
  cases before <;> cases h

theorem firstBad_cons_of_not {a : UInt8} (ha : ¬IsDigitByte a) (us : Bytes) {b : UInt8} {k : Nat} :
    FirstBad (a :: us) b k ↔ a = b ∧ k = 0 := by
  constructor
  · rintro ⟨before, after, h, rfl, hall, -⟩
    cases before with
    | nil => exact ⟨(List.cons.inj h).1, rfl⟩
    | cons c before =>
      rw [(List.cons.inj h).1] at ha
      exact absurd (hall c List.mem_cons_self) ha
  · rintro ⟨rfl, rfl⟩
    exact ⟨[], us, rfl, rfl, nofun, ha⟩

theorem firstBad_cons_of_isDigitByte {a : UInt8} (ha : IsDigitByte a) (us : Bytes) {b : UInt8} {k : Nat} :
    FirstBad (a :: us) b k ↔ ∃ j, k = j + 1 ∧ FirstBad us b j := by
  constructor
  · rintro ⟨before, after, h, rfl, hall, hb⟩
    cases before with
    | nil =>
      rw [(List.cons.inj h).1] at ha
      exact absurd ha hb
    | cons c before =>
      obtain ⟨-, rfl⟩ := List.cons.inj h
      exact ⟨before.length, rfl, before, after, rfl, rfl, (List.forall_mem_cons.mp hall).2, hb⟩
  · rintro ⟨j, rfl, before, after, rfl, rfl, hall, hb⟩
    exact ⟨a :: before, after, rfl, rfl, List.forall_mem_cons.mpr ⟨ha, hall⟩, hb⟩

theorem decodeFrom_eq_error_iff (i : Nat) (done us : Bytes) (heven : us.length % 2 = 0) (fault : Fault) :
    decodeFrom i done us = .error fault ↔ ∃ b k, fault = .badDigit b (i + k) ∧ FirstBad us b k := by
  fun_induction decodeFrom i done us with
  | case1 i done =>
    refine iff_of_false nofun ?_
    rintro ⟨b, k, -, h⟩
    exact not_firstBad_nil b k h
  | case2 i done a => cases heven
  | case3 i done a b rest ha =>
    simp only [firstBad_cons_of_not (not_isDigitByte_of_value? ha), Except.error.injEq]
    constructor
    · rintro rfl
      exact ⟨a, 0, rfl, rfl, rfl⟩
    · rintro ⟨_, _, rfl, rfl, rfl⟩
      rfl
  | case4 i done a b rest high ha hb =>
    simp only [firstBad_cons_of_isDigitByte (isDigitByte_of_value? ha),
      firstBad_cons_of_not (not_isDigitByte_of_value? hb), Except.error.injEq]
    constructor
    · rintro rfl
      exact ⟨b, 1, rfl, 0, rfl, rfl, rfl⟩
    · rintro ⟨_, _, rfl, _, rfl, rfl, rfl⟩
      rfl
  | case5 i done a b us high ha low hb ih =>
    rw [List.length_cons, List.length_cons] at heven
    simp only [firstBad_cons_of_isDigitByte (isDigitByte_of_value? ha),
      firstBad_cons_of_isDigitByte (isDigitByte_of_value? hb), ih (by omega)]
    constructor
    · rintro ⟨c, k, rfl, h⟩
      exact ⟨c, k + 2, by rw [Nat.add_assoc, Nat.add_comm 2], k + 1, rfl, k, rfl, h⟩
    · rintro ⟨c, _, rfl, _, rfl, k, rfl, h⟩
      exact ⟨c, k, by rw [Nat.add_assoc i, Nat.add_comm 2], h⟩

theorem decode_eq_oddLength_iff {us : Bytes} : decode us = .error .oddLength ↔ us.length % 2 = 1 := by
  rw [decode]
  split
  case isTrue heven =>
    rw [decodeFrom_eq_error_iff 0 [] us heven]
    exact iff_of_false (by rintro ⟨_, _, h, -⟩; cases h) (by omega)
  case isFalse hodd => exact iff_of_true rfl (by omega)

theorem decode_eq_badDigit_iff {us : Bytes} {b : UInt8} {position : Nat} :
    decode us = .error (.badDigit b position) ↔ us.length % 2 = 0 ∧ FirstBad us b position := by
  rw [decode]
  split
  case isTrue heven =>
    rw [decodeFrom_eq_error_iff 0 [] us heven]
    constructor
    · rintro ⟨_, k, h, hfirst⟩
      rw [Nat.zero_add] at h
      cases h
      exact ⟨heven, hfirst⟩
    · rintro ⟨-, hfirst⟩
      exact ⟨b, position, by rw [Nat.zero_add], hfirst⟩
  case isFalse hodd => exact iff_of_false (fun h => by cases h) fun h => hodd h.1

theorem length_of_decode {us bs : Bytes} (h : decode us = .ok bs) : us.length = 2 * bs.length := by
  have hl := congrArg List.length (decode_eq_ok_iff.mp h)
  rwa [List.length_map, List.length_map, length_halves] at hl

theorem exists_decode_iff {us : Bytes} {n : Nat} :
    (∃ bs, decode us = .ok bs ∧ bs.length = n) ↔ us.length = 2 * n ∧ ∀ b ∈ us, IsDigitByte b := by
  constructor
  · rintro ⟨bs, h, rfl⟩
    refine ⟨length_of_decode h, fun b hb => ?_⟩
    have hmem : value? b ∈ (bs.flatMap halves).map some := by
      rw [← decode_eq_ok_iff.mp h]
      exact List.mem_map_of_mem hb
    obtain ⟨m, -, hm⟩ := List.mem_map.mp hmem
    exact isDigitByte_of_value? hm.symm
  · rintro ⟨hlength, hall⟩
    cases h : decode us with
    | ok bs =>
      have hbs := length_of_decode h
      exact ⟨bs, rfl, by omega⟩
    | error fault =>
      cases fault with
      | oddLength =>
        have hodd := decode_eq_oddLength_iff.mp h
        omega
      | badDigit b position =>
        obtain ⟨-, before, after, rfl, -, -, hb⟩ := decode_eq_badDigit_iff.mp h
        exact absurd (hall b (List.mem_append_right _ List.mem_cons_self)) hb

end Uniqueness.Hex
