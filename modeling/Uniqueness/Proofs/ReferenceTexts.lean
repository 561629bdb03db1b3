import Uniqueness.Proofs.HexDigits
import Uniqueness.Proofs.Results
import Uniqueness.StateRef
import Mathlib.Data.List.DropRight

namespace Uniqueness

namespace Text

structure Trimmed (cs t : List Char) : Prop where
  around : ∃ front back, cs = front ++ t ++ back ∧ ∀ c ∈ front ++ back, isBlank c = true
  first : ∀ c ∈ t.head?, isBlank c = false
  last : ∀ c ∈ t.getLast?, isBlank c = false

theorem dropWhile_of_head {t : List Char} (ht : t ≠ []) (h : ∀ c ∈ t.head?, isBlank c = false) (rest : List Char) :
    (t ++ rest).dropWhile isBlank = t ++ rest := by
  cases t with
  | nil => exact absurd rfl ht
  | cons c t => exact List.dropWhile_cons_of_neg (by rw [h c rfl]; decide)

theorem Trimmed.trimList_eq {cs t : List Char} (h : Trimmed cs t) : trimList cs = t := by
  obtain ⟨front, back, rfl, hblank⟩ := h.around
  obtain ⟨hfront, hback⟩ := List.forall_mem_append.mp hblank
  rw [trimList, List.append_assoc, List.dropWhile_append_of_pos hfront]
  by_cases ht : t = []
  case pos =>
    rw [ht, List.nil_append, List.dropWhile_eq_nil_iff.mpr hback]
    rfl
  case neg =>
    have hreverse : ∀ c ∈ t.reverse.head?, isBlank c = false := by
      rw [List.head?_reverse]
      exact h.last
    have hdrop := dropWhile_of_head (mt List.reverse_eq_nil_iff.mp ht) hreverse []
    rw [List.append_nil] at hdrop
    rw [dropWhile_of_head ht h.first, List.reverse_append,
      List.dropWhile_append_of_pos fun c hc => hback c (List.mem_reverse.mp hc), hdrop, List.reverse_reverse]

theorem not_isBlank_head_dropWhile (cs : List Char) : ∀ c ∈ (cs.dropWhile isBlank).head?, isBlank c = false := by
  intro c hc
  have hnot := List.head?_dropWhile_not isBlank cs
  rw [hc] at hnot
  exact hnot

theorem trimmed_trimList (cs : List Char) : Trimmed cs (trimList cs) := by
  have hback : trimList cs ++ ((cs.dropWhile isBlank).reverse.takeWhile isBlank).reverse = cs.dropWhile isBlank := by
    rw [trimList, ← List.reverse_append, List.takeWhile_append_dropWhile, List.reverse_reverse]
  refine ⟨⟨cs.takeWhile isBlank, ((cs.dropWhile isBlank).reverse.takeWhile isBlank).reverse, ?_, ?_⟩, ?_, ?_⟩
  · rw [List.append_assoc, hback, List.takeWhile_append_dropWhile]
  · rw [List.forall_mem_append]
    exact ⟨fun c hc => List.mem_takeWhile_imp hc, fun c hc => List.mem_takeWhile_imp (List.mem_reverse.mp hc)⟩
  · intro c hc
    apply not_isBlank_head_dropWhile cs
    rw [← hback, Option.mem_def, List.head?_append, Option.mem_def.mp hc]
    rfl
  · intro c hc
    rw [trimList, List.getLast?_reverse] at hc
    exact not_isBlank_head_dropWhile _ c hc

end Text

namespace Digest

def Spelled (cs : List Char) (d : Digest) : Prop :=
  ∃ digits, Text.Trimmed cs digits ∧ digits.length = 64 ∧ (∀ c ∈ digits, Hex.IsDigit c) ∧
    digits.map Char.toLower = d.text.toList

def Wrong (us : Bytes) : Fault → Prop
  | .hex .oddLength => us.length % 2 = 1
  | .hex (.badDigit b position) => us.length % 2 = 0 ∧ Hex.FirstBad us b position
  | .length n => (us.length = 2 * n ∧ ∀ b ∈ us, Hex.IsDigitByte b) ∧ n ≠ 32

def Refused (cs : List Char) (fault : Fault) : Prop :=
  ∃ t, Text.Trimmed cs t ∧ Wrong (t.flatMap String.utf8EncodeChar) fault

def Respelled (cs cs' : List Char) : Prop :=
  ∃ t t', Text.Trimmed cs t ∧ Text.Trimmed cs' t' ∧ t.map Char.toLower = t'.map Char.toLower

theorem toList_text (d : Digest) : d.text.toList = Hex.encode d.bytes := by
  rw [text, Hex.text, String.toList_ofList]

theorem length_text (d : Digest) : d.text.toList.length = 64 := by
  rw [toList_text, Hex.length_encode, d.length_bytes]

theorem ofBytes?_eq_some_iff {bs : Bytes} {d : Digest} : ofBytes? bs = some d ↔ bs = d.bytes := by
  constructor
  · intro h
    rw [ofBytes?] at h
    split at h
    case isTrue => cases h; rfl
    case isFalse => cases h
  · rintro rfl
    exact ofBytes?_bytes d

theorem wrong_hex_iff {us : Bytes} {fault : Hex.Fault} : Wrong us (.hex fault) ↔ Hex.decode us = .error fault := by
  cases fault with
  | oddLength => exact Hex.decode_eq_oddLength_iff.symm
  | badDigit b position => exact Hex.decode_eq_badDigit_iff.symm

theorem wrong_length_iff {us : Bytes} {n : Nat} :
    Wrong us (.length n) ↔ (∃ bs, Hex.decode us = .ok bs ∧ bs.length = n) ∧ n ≠ 32 := by
  rw [Hex.exists_decode_iff]
  rfl

def core (s : String) : Bytes :=
  Utf8.encodeList (Text.trimList s.toList)

theorem refused_iff {s : String} {fault : Fault} : Refused s.toList fault ↔ Wrong (core s) fault := by
  rw [core, Utf8.encodeList_eq_flatMap]
  constructor
  · rintro ⟨t, htrim, h⟩
    rwa [htrim.trimList_eq]
  · exact fun h => ⟨_, Text.trimmed_trimList _, h⟩

theorem parse_of_error {s : String} {fault : Hex.Fault} (h : Hex.decode (core s) = .error fault) :
    parse s = .error (.hex fault) := by
  rw [parse, Utf8.encode, Text.trim, String.toList_ofList, ← core, h]

theorem parse_of_ok {s : String} {bs : Bytes} (h : Hex.decode (core s) = .ok bs) :
    parse s = (ofBytes? bs).elim (.error (.length bs.length)) .ok := by
  rw [parse, Utf8.encode, Text.trim, String.toList_ofList, ← core, h]
  simp only
  cases ofBytes? bs <;> rfl

theorem parse_eq_ok_iff {s : String} {d : Digest} : parse s = .ok d ↔ Spelled s.toList d := by
  have hdecode : parse s = .ok d ↔ Hex.decode (core s) = .ok d.bytes := by
    cases h : Hex.decode (core s) with
    | error fault =>
      rw [parse_of_error h]
      exact iff_of_false nofun nofun
    | ok bs =>
      rw [parse_of_ok h, Except.ok.injEq, ← ofBytes?_eq_some_iff]
      cases ofBytes? bs <;> simp
  rw [hdecode, core, Hex.decode_text_eq_ok_iff, ← toList_text]
  constructor
  · rintro ⟨hdigits, hlower⟩
    refine ⟨_, Text.trimmed_trimList _, ?_, hdigits, hlower⟩
    rw [← d.length_text, ← hlower, List.length_map]
  · rintro ⟨digits, htrim, -, h⟩
    rwa [htrim.trimList_eq]

theorem parse_eq_error_iff {s : String} {fault : Fault} : parse s = .error fault ↔ Refused s.toList fault := by
  rw [refused_iff]
  cases h : Hex.decode (core s) with
  | error found =>
    rw [parse_of_error h]
    cases fault with
    | hex fault => rw [wrong_hex_iff, h, Except.error.injEq, Except.error.injEq, Fault.hex.injEq]
    | length n => simp [wrong_length_iff, h]
  | ok bs =>
    rw [parse_of_ok h]
    have hnone : ofBytes? bs = none ↔ bs.length ≠ 32 := by simp [ofBytes?]
    cases fault with
    | hex fault => cases ofBytes? bs <;> simp [wrong_hex_iff, h]
    | length n =>
      have hlength : Wrong (core s) (.length n) ↔ bs.length = n ∧ ofBytes? bs = none := by
        rw [wrong_length_iff, h, hnone]
        constructor
        · rintro ⟨⟨_, ⟨⟩, rfl⟩, hn⟩
          exact ⟨rfl, hn⟩
        · rintro ⟨rfl, hn⟩
          exact ⟨⟨bs, rfl, rfl⟩, hn⟩
      rw [hlength]
      cases ofBytes? bs <;> simp

theorem Spelled.colon_notMem {cs : List Char} {d : Digest} (h : Spelled cs d) : ':' ∉ cs := by
  obtain ⟨digits, htrim, -, hdigits, -⟩ := h
  obtain ⟨front, back, rfl, hblank⟩ := htrim.around
  obtain ⟨hfront, hback⟩ := List.forall_mem_append.mp hblank
  simp only [List.mem_append, not_or]
  exact ⟨⟨fun hc => absurd (hfront _ hc) (by decide), fun hc => absurd (hdigits _ hc) (by decide)⟩,
    fun hc => absurd (hback _ hc) (by decide)⟩

theorem isDigit_of_toLower {c : Char} (h : Hex.IsDigit c.toLower) : Hex.IsDigit c := by
  have hlow : ∀ n, n < 0x80 → Hex.IsDigit (Char.ofNat n).toLower → Hex.IsDigit (Char.ofNat n) := by
    decide +kernel
  by_cases hc : c.toNat < 0x80
  · have hn := hlow c.toNat hc
    rw [Char.ofNat_toNat] at hn
    exact hn h
  · have hsame : c.toLower = c := dif_neg fun hcase =>
      hc (Nat.lt_of_le_of_lt (UInt32.le_iff_toNat_le.mp hcase.2) (by decide))
    rwa [hsame] at h

theorem isDigit_digit : ∀ n, n < 16 → Hex.IsDigit (Hex.digit n) := by
  decide

theorem Spelled.respelled {cs cs' : List Char} {d : Digest} (h : Spelled cs d) (hsame : Respelled cs cs') :
    Spelled cs' d := by
  obtain ⟨digits, htrim, hlength, -, hlower⟩ := h
  obtain ⟨t, t', ht, ht', hcase⟩ := hsame
  obtain rfl : digits = t := by rw [← htrim.trimList_eq, ht.trimList_eq]
  rw [hcase] at hlower
  refine ⟨t', ht', ?_, fun c hc => isDigit_of_toLower ?_, hlower⟩
  · rw [← hlength, ← List.length_map, ← hcase, List.length_map]
  · have hmem : c.toLower ∈ Hex.encode d.bytes := by
      rw [← toList_text, ← hlower]
      exact List.mem_map_of_mem hc
    obtain ⟨n, hn, hdigit⟩ := Hex.exists_digit hmem
    rw [hdigit]
    exact isDigit_digit n hn

end Digest

namespace StateRef

def Formed (cs digest : List Char) (n : Nat) : Prop :=
  ∃ position, cs = digest ++ ':' :: position ∧ ':' ∉ digest ∧ Decimal.Numeral position n ∧ n < UInt32.size

def Spelled (cs : List Char) (r : StateRef) : Prop :=
  ∃ digest, Formed cs digest r.index.toNat ∧ r.tx.Spelled digest

def Refused (cs : List Char) : Fault → Prop
  | .form text => text.toList = cs ∧ ∀ digest n, ¬Formed cs digest n
  | .digest fault => ∃ digest n, Formed cs digest n ∧ Digest.Refused digest fault

def Respelled (cs cs' : List Char) : Prop :=
  ∃ digest digest' position, cs = digest ++ ':' :: position ∧ cs' = digest' ++ ':' :: position ∧ ':' ∉ digest ∧
    Digest.Respelled digest digest'

theorem takeWhile_ne_append {digest : List Char} (h : ':' ∉ digest) (position : List Char) :
    (digest ++ ':' :: position).takeWhile (· != ':') = digest ∧
      (digest ++ ':' :: position).dropWhile (· != ':') = ':' :: position := by
  have hne : ∀ c ∈ digest, (c != ':') = true := by
    intro c hc
    rw [bne_iff_ne]
    rintro rfl
    exact h hc
  rw [List.takeWhile_append_of_pos hne, List.dropWhile_append_of_pos hne]
  exact ⟨by simp, by simp⟩

theorem append_colon_inj {digest digest' position position' : List Char} (h : ':' ∉ digest) (h' : ':' ∉ digest')
    (heq : digest ++ ':' :: position = digest' ++ ':' :: position') : digest = digest' ∧ position = position' := by
  obtain ⟨htake, hdrop⟩ := takeWhile_ne_append h position
  obtain ⟨htake', hdrop'⟩ := takeWhile_ne_append h' position'
  rw [heq] at htake hdrop
  exact ⟨htake.symm.trans htake', (List.cons.inj (hdrop.symm.trans hdrop')).2⟩

theorem Formed.unique {cs digest digest' : List Char} {n n' : Nat} (h : Formed cs digest n)
    (h' : Formed cs digest' n') : digest = digest' ∧ n = n' := by
  obtain ⟨position, hcs, hcolon, hn, hlt⟩ := h
  obtain ⟨position', hcs', hcolon', hn', hlt'⟩ := h'
  obtain ⟨hdigest, rfl⟩ := append_colon_inj hcolon hcolon' (hcs.symm.trans hcs')
  refine ⟨hdigest, Option.some.inj ?_⟩
  rw [← Decimal.below?_eq_some_iff.mpr ⟨hn, hlt⟩, ← Decimal.below?_eq_some_iff.mpr ⟨hn', hlt'⟩]

theorem parse_of_formed {s : String} {digest : List Char} {n : Nat} (h : Formed s.toList digest n) :
    parse s = (fun tx => ⟨tx, UInt32.ofNat n⟩) <$> (Digest.parse (String.ofList digest)).mapError Fault.digest := by
  obtain ⟨position, hs, hcolon, hn, hlt⟩ := h
  have hhalves : halves? s = some (String.ofList digest, String.ofList position) := by
    obtain ⟨htake, hdrop⟩ := takeWhile_ne_append hcolon position
    rw [halves?, hs, htake, hdrop]
  have hposition : Decimal.word32? (String.ofList position) = some (UInt32.ofNat n) := by
    rw [Decimal.word32?, String.toList_ofList, Decimal.below?_eq_some_iff.mpr ⟨hn, hlt⟩, Option.map_some]
  rw [parse, hhalves]
  simp only [hposition]
  cases Digest.parse (String.ofList digest) <;> rfl

theorem parse_of_not_formed {s : String} (h : ∀ digest n, ¬Formed s.toList digest n) :
    parse s = .error (.form s) := by
  rw [parse]
  by_cases hcolon : ':' ∈ s.toList
  case pos =>
    obtain ⟨digest, position, hs, hdigest⟩ := List.eq_append_cons_of_mem hcolon
    obtain ⟨htake, hdrop⟩ := takeWhile_ne_append hdigest position
    have hhalves : halves? s = some (String.ofList digest, String.ofList position) := by
      rw [halves?, hs, htake, hdrop]
    have hposition : Decimal.word32? (String.ofList position) = none := by
      refine Option.eq_none_iff_forall_ne_some.mpr fun n hn => ?_
      have hnumeral := Decimal.word32?_eq_some_iff.mp hn
      rw [String.toList_ofList] at hnumeral
      exact h digest n.toNat ⟨position, hs, hdigest, hnumeral, n.toNat_lt⟩
    rw [hhalves]
    simp only [hposition]
  case neg =>
    have hdrop : s.toList.dropWhile (· != ':') = [] := by
      rw [List.dropWhile_eq_nil_iff]
      intro c hc
      rw [bne_iff_ne]
      rintro rfl
      exact hcolon hc
    rw [halves?, hdrop]

theorem parse_eq_ok_iff {s : String} {r : StateRef} : parse s = .ok r ↔ Spelled s.toList r := by
  by_cases h : ∃ digest n, Formed s.toList digest n
  case pos =>
    obtain ⟨digest, n, hformed⟩ := h
    have hn : (UInt32.ofNat n).toNat = n := by
      obtain ⟨-, -, -, -, hlt⟩ := hformed
      exact UInt32.toNat_ofNat_of_lt' hlt
    rw [parse_of_formed hformed, map_eq_ok_iff]
    simp only [mapError_eq_ok_iff, Digest.parse_eq_ok_iff, String.toList_ofList]
    constructor
    · rintro ⟨tx, htx, rfl⟩
      exact ⟨digest, hn.symm ▸ hformed, htx⟩
    · rintro ⟨_, hformed', htx⟩
      obtain ⟨rfl, hindex⟩ := hformed.unique hformed'
      exact ⟨r.tx, htx, by rw [hindex, UInt32.ofNat_toNat]⟩
  case neg =>
    rw [parse_of_not_formed fun digest n hformed => h ⟨digest, n, hformed⟩]
    refine iff_of_false nofun ?_
    rintro ⟨digest, hformed, -⟩
    exact h ⟨digest, _, hformed⟩

theorem parse_eq_error_iff {s : String} {fault : Fault} : parse s = .error fault ↔ Refused s.toList fault := by
  by_cases h : ∃ digest n, Formed s.toList digest n
  case pos =>
    obtain ⟨digest, n, hformed⟩ := h
    rw [parse_of_formed hformed, map_eq_error_iff, mapError_eq_error_iff]
    simp only [Digest.parse_eq_error_iff, String.toList_ofList]
    cases fault with
    | form text =>
      refine iff_of_false ?_ fun hnot => hnot.2 digest n hformed
      rintro ⟨_, -, hform⟩
      cases hform
    | digest fault =>
      constructor
      · rintro ⟨_, hrefused, ⟨⟩⟩
        exact ⟨digest, n, hformed, hrefused⟩
      · rintro ⟨_, _, hformed', hrefused⟩
        obtain ⟨rfl, -⟩ := hformed.unique hformed'
        exact ⟨fault, hrefused, rfl⟩
  case neg =>
    have hnot : ∀ digest n, ¬Formed s.toList digest n := fun digest n hformed => h ⟨digest, n, hformed⟩
    rw [parse_of_not_formed hnot, Except.error.injEq]
    cases fault with
    | form text =>
      rw [Fault.form.injEq, ← String.toList_inj]
      exact ⟨fun hs => ⟨hs.symm, hnot⟩, fun hs => hs.1.symm⟩
    | digest fault =>
      refine iff_of_false nofun ?_
      rintro ⟨digest, n, hformed, -⟩
      exact hnot digest n hformed

theorem Spelled.respelled {cs cs' : List Char} {r : StateRef} (h : Spelled cs r) (hsame : Respelled cs cs') :
    Spelled cs' r := by
  obtain ⟨_, ⟨position', hcs, hcolon, hn, hlt⟩, htx⟩ := h
  obtain ⟨digest, digest', position, hcs', rfl, hcolon', hdigest⟩ := hsame
  obtain ⟨rfl, rfl⟩ := append_colon_inj hcolon hcolon' (hcs.symm.trans hcs')
  have htx' := htx.respelled hdigest
  exact ⟨digest', ⟨position', rfl, htx'.colon_notMem, hn, hlt⟩, htx'⟩

theorem parse_text (r : StateRef) : parse r.text = .ok r := by
  rw [parse_eq_ok_iff, text, String.toList_append, String.toList_append, List.append_assoc]
  have htx : r.tx.Spelled r.tx.text.toList := Digest.parse_eq_ok_iff.mp r.tx.parse_text
  have hindex : Decimal.Numeral (Decimal.digits r.index.toNat) r.index.toNat :=
    ⟨_, .inl rfl, Decimal.digits_ne_nil _, fun _ => Decimal.isDigit_of_mem_digits, Decimal.ofDigitChars_digits _⟩
  refine ⟨r.tx.text.toList, ⟨_, rfl, htx.colon_notMem, ?_, r.index.toNat_lt⟩, htx⟩
  rwa [Decimal.text, String.toList_ofList]

/-- Digests and state references are read from the texts of their grammar and no others. Of several things that are
wrong with a text it is the form that is named before the digest, and in the digest an odd number of bytes before a
byte that is no digit, the first one, before a wrong number of digits. What is written is read back, and neither the
case of letters nor the white space around a digest makes a difference. -/
theorem texts_are_read_by_their_grammar :
    (∀ s d, Digest.parse s = .ok d ↔ Digest.Spelled s.toList d) ∧
    (∀ s fault, Digest.parse s = .error fault ↔ Digest.Refused s.toList fault) ∧
    (∀ s r, parse s = .ok r ↔ Spelled s.toList r) ∧
    (∀ s fault, parse s = .error fault ↔ Refused s.toList fault) ∧
    (∀ d : Digest, Digest.parse d.text = .ok d) ∧ (∀ r : StateRef, parse r.text = .ok r) ∧
    (∀ s s' d, Digest.parse s = .ok d → Digest.Respelled s.toList s'.toList → Digest.parse s' = .ok d) ∧
    ∀ s s' r, parse s = .ok r → Respelled s.toList s'.toList → parse s' = .ok r := by
  refine ⟨fun _ _ => Digest.parse_eq_ok_iff, fun _ _ => Digest.parse_eq_error_iff, fun _ _ => parse_eq_ok_iff,
    fun _ _ => parse_eq_error_iff, Digest.parse_text, parse_text, ?_, ?_⟩
  · intro s s' d h hsame
    exact Digest.parse_eq_ok_iff.mpr ((Digest.parse_eq_ok_iff.mp h).respelled hsame)
  · intro s s' r h hsame
    exact parse_eq_ok_iff.mpr ((parse_eq_ok_iff.mp h).respelled hsame)

end StateRef

end Uniqueness
