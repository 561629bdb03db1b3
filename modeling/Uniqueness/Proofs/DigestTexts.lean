import Uniqueness.Digest
import Uniqueness.Proofs.Utf8RoundTrip
import Mathlib.Data.List.Basic

namespace Uniqueness

namespace Hex

theorem toNat_digit_lt : ∀ n, n < 16 → (digit n).toNat < 0x80 := by
  decide

theorem not_isBlank_digit : ∀ n, n < 16 → Text.isBlank (digit n) = false := by
  decide

theorem encode_cons (b : UInt8) (bs : Bytes) :
    encode (b :: bs) = digit (b.toNat / 16) :: digit (b.toNat % 16) :: encode bs :=
  rfl

theorem exists_digit {bs : Bytes} {c : Char} (h : c ∈ encode bs) : ∃ n, n < 16 ∧ c = digit n := by
  obtain ⟨b, -, hc⟩ := List.mem_flatMap.mp h
  have hb := b.toNat_lt
  simp only [List.mem_cons, List.not_mem_nil, or_false] at hc
  rcases hc with rfl | rfl
  · exact ⟨b.toNat / 16, by omega, rfl⟩
  · exact ⟨b.toNat % 16, by omega, rfl⟩

theorem utf8_encode (bs : Bytes) :
    Utf8.encodeList (encode bs) = (encode bs).map fun c => UInt8.ofNat c.toNat := by
  rw [Utf8.encodeList, List.map_eq_flatMap]
  apply List.flatMap_congr
  intro c hc
  obtain ⟨n, hn, rfl⟩ := exists_digit hc
  exact Utf8.encodeChar_of_lt (toNat_digit_lt n hn)

theorem decodeFrom_encode (i : Nat) (done bs : Bytes) :
    decodeFrom i done ((encode bs).map fun c => UInt8.ofNat c.toNat) = .ok (done.reverse ++ bs) := by
  induction bs generalizing i done with
  | nil => simp [encode, decodeFrom]
  | cons b bs ih =>
    have hb := b.toNat_lt
    have hv : UInt8.ofNat (16 * (b.toNat / 16) + b.toNat % 16) = b := by
      rw [Nat.div_add_mod, UInt8.ofNat_toNat]
    rw [encode_cons, List.map_cons, List.map_cons, decodeFrom]
    simp only [value?_digit (b.toNat / 16) (by omega), value?_digit (b.toNat % 16) (by omega), hv, ih]
    simp

theorem length_encode (bs : Bytes) : (encode bs).length = 2 * bs.length := by
  induction bs with
  | nil => rfl
  | cons b bs ih =>
    rw [encode_cons, List.length_cons, List.length_cons, ih, List.length_cons]
    omega

theorem decode_encode (bs : Bytes) : decode (Utf8.encodeList (encode bs)) = .ok bs := by
  rw [utf8_encode, decode, List.length_map, length_encode, if_pos (by omega), decodeFrom_encode]
  rfl

theorem trimList_encode (bs : Bytes) : Text.trimList (encode bs) = encode bs := by
  have hblank : ∀ cs : List Char, (∀ c ∈ cs, Text.isBlank c = false) → cs.dropWhile Text.isBlank = cs := by
    intro cs h
    cases cs with
    | nil => rfl
    | cons c cs => exact List.dropWhile_cons_of_neg (by rw [h c List.mem_cons_self]; decide)
  have hd : ∀ c ∈ encode bs, Text.isBlank c = false := by
    intro c hc
    obtain ⟨n, hn, rfl⟩ := exists_digit hc
    exact not_isBlank_digit n hn
  rw [Text.trimList, hblank _ hd, hblank _ fun c hc => hd c (List.mem_reverse.mp hc), List.reverse_reverse]

end Hex

namespace Digest

theorem ofBytes?_bytes (d : Digest) : ofBytes? d.bytes = some d :=
  dif_pos d.length_bytes

theorem parse_text (d : Digest) : parse d.text = .ok d := by
  have ht : Text.trim d.text = String.ofList (Hex.encode d.bytes) := by
    rw [Text.trim, text, Hex.text, String.toList_ofList, Hex.trimList_encode]
  rw [parse, ht, Utf8.encode, String.toList_ofList, Hex.decode_encode]
  simp only [ofBytes?_bytes]

end Digest

end Uniqueness
