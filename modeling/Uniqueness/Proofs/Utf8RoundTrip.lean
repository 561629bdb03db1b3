import Uniqueness.Utf8

namespace Uniqueness.Utf8

theorem toNat_ofNat {n : Nat} (h : n < 256) : (UInt8.ofNat n).toNat = n := by
  rw [UInt8.toNat_ofNat']
  omega

theorem tail?_ofNat {n : Nat} (h : n < 64) : tail? (UInt8.ofNat (0x80 + n)) = some n := by
  have hn : (UInt8.ofNat (0x80 + n)).toNat = 0x80 + n := toNat_ofNat (by omega)
  rw [tail?, hn, if_pos (by omega), Nat.add_sub_cancel_left]

theorem scalar?_toNat (least : Nat) {c : Char} (h : least ≤ c.toNat) :
    scalar? least c.toNat = some c := by
  rw [scalar?, if_pos ⟨h, c.valid⟩, Char.ofNat_toNat]

theorem toNat_lt (c : Char) : c.toNat < 0x110000 := by
  rcases c.valid with h | h
  · exact Nat.lt_trans h (by decide)
  · exact h.2

theorem decodeFrom_encodeChar (done : List Char) (c : Char) (rest : Bytes) :
    decodeFrom done (encodeChar c ++ rest) = decodeFrom (c :: done) rest := by
  have hc := toNat_lt c
  simp only [encodeChar]
  split
  case isTrue h =>
    have ha : (UInt8.ofNat c.toNat).toNat = c.toNat := toNat_ofNat (by omega)
    rw [List.cons_append, List.nil_append, decodeFrom.eq_def]
    simp only [ha, if_pos h, Char.ofNat_toNat]
  split
  case isFalse.isTrue h₁ h =>
    have ha : (UInt8.ofNat (0xC0 + c.toNat / 64)).toNat = 0xC0 + c.toNat / 64 := toNat_ofNat (by omega)
    have hb := tail?_ofNat (Nat.mod_lt c.toNat (by decide : 0 < 64))
    have hn : (0xC0 + c.toNat / 64 - 0xC0) * 64 + c.toNat % 64 = c.toNat := by omega
    simp only [List.cons_append, List.nil_append]
    rw [decodeFrom]
    simp only [ha, hb, hn, scalar?_toNat 0x80 (c := c) (by omega)]
    rw [if_neg (by omega), if_neg (by omega), if_pos (by omega)]
  split
  case isFalse.isFalse.isTrue h₁ h₂ h =>
    have ha : (UInt8.ofNat (0xE0 + c.toNat / 4096)).toNat = 0xE0 + c.toNat / 4096 :=
      toNat_ofNat (by omega)
    have hb := tail?_ofNat (Nat.mod_lt (c.toNat / 64) (by decide : 0 < 64))
    have hd := tail?_ofNat (Nat.mod_lt c.toNat (by decide : 0 < 64))
    have hn : ((0xE0 + c.toNat / 4096 - 0xE0) * 64 + c.toNat / 64 % 64) * 64 + c.toNat % 64 = c.toNat := by
      omega
    simp only [List.cons_append, List.nil_append]
    rw [decodeFrom]
    simp only [ha, hb, hd, hn, scalar?_toNat 0x800 (c := c) (by omega)]
    rw [if_neg (by omega), if_neg (by omega), if_neg (by omega), if_pos (by omega)]
  case isFalse.isFalse.isFalse h₁ h₂ h₃ =>
    have ha : (UInt8.ofNat (0xF0 + c.toNat / 262144)).toNat = 0xF0 + c.toNat / 262144 :=
      toNat_ofNat (by omega)
    have hb := tail?_ofNat (Nat.mod_lt (c.toNat / 4096) (by decide : 0 < 64))
    have hd := tail?_ofNat (Nat.mod_lt (c.toNat / 64) (by decide : 0 < 64))
    have he := tail?_ofNat (Nat.mod_lt c.toNat (by decide : 0 < 64))
    have hn : (((0xF0 + c.toNat / 262144 - 0xF0) * 64 + c.toNat / 4096 % 64) * 64 + c.toNat / 64 % 64) * 64 +
        c.toNat % 64 = c.toNat := by
      omega
    simp only [List.cons_append, List.nil_append]
    rw [decodeFrom]
    simp only [ha, hb, hd, he, hn, scalar?_toNat 0x10000 (c := c) (by omega)]
    rw [if_neg (by omega), if_neg (by omega), if_neg (by omega), if_neg (by omega)]

theorem decodeFrom_encodeList (done cs : List Char) :
    decodeFrom done (encodeList cs) = some (done.reverse ++ cs) := by
  induction cs generalizing done with
  | nil => simp [encodeList, decodeFrom]
  | cons c cs ih =>
    have hcons : encodeList (c :: cs) = encodeChar c ++ encodeList cs := rfl
    rw [hcons, decodeFrom_encodeChar, ih, List.reverse_cons, List.append_assoc]
    rfl

theorem decode?_encode (s : String) : decode? (encode s) = some s := by
  simp [decode?, decodeList?, encode, decodeFrom_encodeList]

theorem encodeList_append (cs ds : List Char) :
    encodeList (cs ++ ds) = encodeList cs ++ encodeList ds :=
  List.flatMap_append

theorem le_of_mem_encodeChar {c : Char} {b : UInt8} (hb : b ∈ encodeChar c) (hc : 0x80 ≤ c.toNat) :
    0x80 ≤ b.toNat := by
  have hlt := toNat_lt c
  simp only [encodeChar] at hb
  split at hb
  · omega
  split at hb
  · simp only [List.mem_cons, List.not_mem_nil, or_false] at hb
    rcases hb with rfl | rfl <;> rw [toNat_ofNat (by omega)] <;> omega
  split at hb
  · simp only [List.mem_cons, List.not_mem_nil, or_false] at hb
    rcases hb with rfl | rfl | rfl <;> rw [toNat_ofNat (by omega)] <;> omega
  · simp only [List.mem_cons, List.not_mem_nil, or_false] at hb
    rcases hb with rfl | rfl | rfl | rfl <;> rw [toNat_ofNat (by omega)] <;> omega

theorem encodeChar_of_lt {c : Char} (h : c.toNat < 0x80) : encodeChar c = [UInt8.ofNat c.toNat] :=
  if_pos h

theorem encodeChar_eq_utf8EncodeChar (c : Char) : encodeChar c = String.utf8EncodeChar c := by
  have hc := toNat_lt c
  have hval : c.val.toNat = c.toNat := rfl
  simp only [encodeChar, String.utf8EncodeChar, hval]
  split
  case isTrue h => rw [if_pos (by omega)]
  split
  case isFalse.isTrue h₁ h =>
    rw [if_neg (by omega), if_pos (by omega), Nat.mod_eq_of_lt (a := c.toNat / 64) (by omega), Nat.add_comm 0xC0,
      Nat.add_comm 0x80]
  split
  case isFalse.isFalse.isTrue h₁ h₂ h =>
    rw [if_neg (by omega), if_neg (by omega), if_pos (by omega), Nat.mod_eq_of_lt (a := c.toNat / 4096) (by omega),
      Nat.add_comm 0xE0, Nat.add_comm 0x80, Nat.add_comm 0x80]
  case isFalse.isFalse.isFalse h₁ h₂ h₃ =>
    rw [if_neg (by omega), if_neg (by omega), if_neg (by omega),
      Nat.mod_eq_of_lt (a := c.toNat / 262144) (by omega), Nat.add_comm 0xF0, Nat.add_comm 0x80, Nat.add_comm 0x80,
      Nat.add_comm 0x80]

theorem encodeList_eq_flatMap (cs : List Char) : encodeList cs = cs.flatMap String.utf8EncodeChar := by
  rw [encodeList, funext encodeChar_eq_utf8EncodeChar]

end Uniqueness.Utf8
