import Uniqueness.Json
import Uniqueness.Proofs.Utf8RoundTrip

namespace Uniqueness.Json

open Utf8 (encodeChar encodeList)

def isPlain (c : Char) : Bool :=
  escape c == [c]

def piecesOf (c : Char) : List Piece :=
  if isPlain c then (encodeChar c).map .byte else [.unit c.toNat]

theorem isPlain_iff {c : Char} : isPlain c = true ↔ 0x20 ≤ c.toNat ∧ c ≠ '"' ∧ c ≠ '\\' := by
  rw [isPlain, beq_iff_eq, escape]
  iterate 7
    split
    · subst c
      decide
  rename_i hq hb _ _ _ _ _
  split
  case isTrue h => simp only [List.cons.injEq, reduceCtorEq, and_false, false_iff]; omega
  case isFalse h => simp only [true_iff]; exact ⟨by omega, hq, hb⟩

theorem scan_quote (done : List Piece) (rest : Bytes) :
    scan done (0x22 :: rest) = some (done.reverse, rest) := by
  rw [scan.eq_def]
  rfl

theorem scan_byte {b : UInt8} (hq : b ≠ 0x22) (hs : b ≠ 0x5C) (hc : ¬b < 0x20) (done : List Piece)
    (rest : Bytes) : scan done (b :: rest) = scan (.byte b :: done) rest := by
  rw [scan.eq_def]
  simp only [if_neg hq, if_neg hs, if_neg hc]

theorem scan_bytes {bs : Bytes} (h : ∀ b ∈ bs, b ≠ 0x22 ∧ b ≠ 0x5C ∧ ¬b < 0x20) (done : List Piece)
    (rest : Bytes) : scan done (bs ++ rest) = scan ((bs.map .byte).reverse ++ done) rest := by
  induction bs generalizing done with
  | nil => rfl
  | cons b bs ih =>
    obtain ⟨h₁, h₂, h₃⟩ := h b List.mem_cons_self
    rw [List.cons_append, scan_byte h₁ h₂ h₃, ih fun c hc => h c (List.mem_cons_of_mem _ hc)]
    simp

theorem scan_simple {e : UInt8} {n : Nat} (h : simpleEscape? e = some n) (hu : e ≠ 0x75)
    (done : List Piece) (rest : Bytes) :
    scan done (0x5C :: e :: rest) = scan (.unit n :: done) rest := by
  rw [scan.eq_def]
  simp only [if_neg hu, h]
  rfl

theorem scan_unit {w x y z : UInt8} {n : Nat} (h : unit? w x y z = some n) (done : List Piece)
    (rest : Bytes) :
    scan done (0x5C :: 0x75 :: w :: x :: y :: z :: rest) = scan (.unit n :: done) rest := by
  rw [scan.eq_def]
  simp only [h]
  rfl

theorem ne_of_toNat_ne {b : UInt8} {n : Nat} (h : b.toNat ≠ n) (c : UInt8) (hc : c.toNat = n) : b ≠ c :=
  fun he => h (he ▸ hc)

theorem bytes_of_isPlain {c : Char} (h : isPlain c = true) {b : UInt8} (hb : b ∈ encodeChar c) :
    b ≠ 0x22 ∧ b ≠ 0x5C ∧ ¬b < 0x20 := by
  obtain ⟨hl, hq, hs⟩ := isPlain_iff.mp h
  have key : b.toNat ≠ 0x22 ∧ b.toNat ≠ 0x5C ∧ 0x20 ≤ b.toNat := by
    by_cases hc : c.toNat < 0x80
    · rw [Utf8.encodeChar_of_lt hc, List.mem_singleton] at hb
      have hbc : b.toNat = c.toNat := by rw [hb, Utf8.toNat_ofNat (by omega)]
      have hne : ∀ d : Char, c ≠ d → c.toNat ≠ d.toNat := fun d hcd he => hcd (Char.toNat_inj.mp he)
      rw [hbc]
      exact ⟨hne '"' hq, hne '\\' hs, hl⟩
    · have := Utf8.le_of_mem_encodeChar hb (by omega)
      omega
  rw [UInt8.lt_iff_toNat_lt, Nat.not_lt]
  exact ⟨ne_of_toNat_ne key.1 _ rfl, ne_of_toNat_ne key.2.1 _ rfl, key.2.2⟩

theorem digit_lt : ∀ n, n < 16 → (Hex.digit n).toNat < 0x80 := by
  decide

theorem unit?_digits : ∀ n, n < 32 → unit? 0x30 0x30 (UInt8.ofNat (Hex.digit (n / 16)).toNat)
    (UInt8.ofNat (Hex.digit (n % 16)).toNat) = some n := by
  decide

theorem scan_control {c : Char} (h : c.toNat < 0x20) (done : List Piece) (rest : Bytes) :
    scan done (encodeList ['\\', 'u', '0', '0', Hex.digit (c.toNat / 16), Hex.digit (c.toNat % 16)] ++ rest) =
      scan (.unit c.toNat :: done) rest := by
  have h₁ := Utf8.encodeChar_of_lt (digit_lt (c.toNat / 16) (by omega))
  have h₂ := Utf8.encodeChar_of_lt (digit_lt (c.toNat % 16) (by omega))
  simp only [encodeList, List.flatMap_cons, List.flatMap_nil, h₁, h₂]
  exact scan_unit (unit?_digits c.toNat h) done rest

theorem scan_escape (c : Char) (done : List Piece) (rest : Bytes) :
    scan done (encodeList (escape c) ++ rest) = scan ((piecesOf c).reverse ++ done) rest := by
  by_cases hp : isPlain c = true
  · have he : escape c = [c] := beq_iff_eq.mp hp
    rw [he, piecesOf, if_pos hp]
    have hl : encodeList [c] = encodeChar c := by simp [encodeList]
    rw [hl]
    exact scan_bytes (fun b hb => bytes_of_isPlain hp hb) done rest
  · rw [piecesOf, if_neg hp, escape]
    iterate 7
      split
      · subst c
        exact scan_simple rfl (by decide) done rest
    split
    case isTrue h => exact scan_control h done rest
    case isFalse h =>
      refine absurd (isPlain_iff.mpr ⟨by omega, ?_, ?_⟩) hp <;> assumption

theorem scan_text (cs : List Char) (done : List Piece) (rest : Bytes) :
    scan done (encodeList (cs.flatMap escape) ++ 0x22 :: rest) =
      some (done.reverse ++ cs.flatMap piecesOf, rest) := by
  induction cs generalizing done with
  | nil => simp [encodeList, scan_quote]
  | cons c cs ih =>
    rw [List.flatMap_cons, Utf8.encodeList_append, List.append_assoc, scan_escape, ih]
    simp

theorem assemble_bytes (bs : Bytes) (done : Bytes) (ps : List Piece) :
    assemble done (bs.map .byte ++ ps) = assemble (bs.reverse ++ done) ps := by
  induction bs generalizing done with
  | nil => rfl
  | cons b bs ih =>
    rw [List.map_cons, List.cons_append, assemble, ih]
    simp

theorem assemble_unit {n : Nat} (h : n < 0xD800) (done : Bytes) (ps : List Piece) :
    assemble done (.unit n :: ps) = assemble ((encodeChar (Char.ofNat n)).reverse ++ done) ps := by
  have hh : isHighSurrogate n = false := by simp [isHighSurrogate]; omega
  have hl : isLowSurrogate n = false := by simp [isLowSurrogate]; omega
  rw [assemble.eq_def]
  simp [hh, hl]

theorem toNat_lt_of_not_isPlain {c : Char} (h : ¬isPlain c = true) : c.toNat < 0x80 := by
  by_cases hl : c.toNat < 0x20
  · omega
  by_cases hq : c = '"'
  · subst hq
    decide
  by_cases hs : c = '\\'
  · subst hs
    decide
  exact absurd (isPlain_iff.mpr ⟨by omega, hq, hs⟩) h

theorem assemble_piecesOf (c : Char) (done : Bytes) (ps : List Piece) :
    assemble done (piecesOf c ++ ps) = assemble ((encodeChar c).reverse ++ done) ps := by
  rw [piecesOf]
  split
  case isTrue h => exact assemble_bytes _ done ps
  case isFalse h =>
    have hc := toNat_lt_of_not_isPlain h
    rw [List.cons_append, List.nil_append, assemble_unit (by omega), Char.ofNat_toNat]

theorem assemble_pieces (cs : List Char) (done : Bytes) :
    assemble done (cs.flatMap piecesOf) = some (done.reverse ++ encodeList cs) := by
  induction cs generalizing done with
  | nil => simp [assemble, encodeList]
  | cons c cs ih =>
    have hc : encodeList (c :: cs) = encodeChar c ++ encodeList cs := rfl
    rw [List.flatMap_cons, assemble_piecesOf, ih, hc]
    simp

theorem any_isUnit_piecesOf (c : Char) : (piecesOf c).any isUnit = !isPlain c := by
  rw [piecesOf]
  split
  case isTrue h => simp [h, isUnit, Function.comp_def]
  case isFalse h => simp [h, isUnit]

def labelFor (s : String) : Label :=
  if s.toList.all isPlain then .plain s else .escaped s

theorem labelOf_pieces (s : String) : labelOf (s.toList.flatMap piecesOf) = labelFor s := by
  have hd : Utf8.decode? (encodeList s.toList) = some s := Utf8.decode?_encode s
  have ha : (s.toList.flatMap piecesOf).any isUnit = !s.toList.all isPlain := by
    rw [List.any_flatMap, List.not_all_eq_any_not]
    simp only [any_isUnit_piecesOf]
  rw [labelOf, assemble_pieces, labelFor]
  simp only [List.reverse_nil, List.nil_append, hd, ha]
  cases s.toList.all isPlain <;> rfl

theorem textOfLabel_labelFor (s : String) : textOfLabel (labelFor s) = .text s := by
  rw [labelFor]
  split <;> rfl

theorem exists_label_writeString (s : String) (rest : Bytes) :
    ∃ tail, encodeList (writeString s) ++ rest = 0x22 :: tail ∧ label tail = some (labelFor s, rest) := by
  refine ⟨encodeList (s.toList.flatMap escape) ++ 0x22 :: rest, ?_, ?_⟩
  · rw [writeString, ← List.singleton_append, Utf8.encodeList_append, Utf8.encodeList_append,
      List.append_assoc, List.append_assoc]
    rfl
  · rw [label, scan_text, Option.map_some, List.reverse_nil, List.nil_append, labelOf_pieces]

end Uniqueness.Json
