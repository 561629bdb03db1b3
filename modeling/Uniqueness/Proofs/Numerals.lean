import Uniqueness.Decimal

namespace Uniqueness.Decimal

theorem isDigit_of_mem_digits {n : Nat} {c : Char} (h : c ∈ digits n) : c.isDigit = true :=
  Nat.isDigit_of_mem_toDigits (by decide) (by decide) h

theorem digits_ne_nil (n : Nat) : digits n ≠ [] :=
  Nat.toDigits_ne_nil

theorem ofDigitChars_digits (n : Nat) : Nat.ofDigitChars 10 (digits n) 0 = n :=
  Nat.ofDigitChars_ten_toDigits

theorem digitChar_ne_zero {n : Nat} (hn : n < 10) (h : n ≠ 0) : n.digitChar ≠ '0' := by
  intro hc
  have := Nat.toNat_digitChar_of_lt_ten hn
  rw [hc] at this
  simp at this
  omega

theorem head_digits {n : Nat} (h : n ≠ 0) : (digits n).head? ≠ some '0' := by
  induction n using Nat.strongRecOn with
  | _ n ih =>
    by_cases hn : n < 10
    · rw [digits, Nat.toDigits_of_lt_base hn, List.head?_cons]
      exact fun hc => digitChar_ne_zero hn h (Option.some.inj hc)
    · rw [digits, Nat.toDigits_of_base_le (by decide) (by omega), List.head?_append]
      have hrec := ih (n / 10) (by omega) (by omega)
      cases hd : Nat.toDigits 10 (n / 10) with
      | nil => exact absurd hd Nat.toDigits_ne_nil
      | cons c cs => rwa [digits, hd] at hrec

theorem eq_nil_of_digits_eq {n : Nat} {cs : List Char} (h : digits n = '0' :: cs) : cs = [] := by
  by_cases hn : n = 0
  · subst hn
    rw [digits, Nat.toDigits_zero, List.cons.injEq] at h
    exact h.2.symm
  · exact absurd (by rw [h, List.head?_cons]) (head_digits hn)

theorem isDigit_iff {c : Char} : c.isDigit = true ↔ 48 ≤ c.toNat ∧ c.toNat ≤ 57 := by
  rw [Char.isDigit, Bool.and_eq_true, decide_eq_true_eq, decide_eq_true_eq, ge_iff_le,
    UInt32.le_iff_toNat_le, UInt32.le_iff_toNat_le]
  rfl

theorem digit?_of_isDigit {c : Char} (h : c.isDigit = true) : digit? c = some (c.toNat - 48) := by
  obtain ⟨h₁, h₂⟩ := isDigit_iff.mp h
  exact if_pos ⟨UInt32.le_iff_toNat_le.mpr h₁, UInt32.le_iff_toNat_le.mpr h₂⟩

theorem valueFrom_eq {cs : List Char} (h : ∀ c ∈ cs, c.isDigit = true) (n : Nat) :
    valueFrom n cs = some (Nat.ofDigitChars 10 cs n) := by
  induction cs generalizing n with
  | nil => rw [valueFrom, Nat.ofDigitChars_nil]
  | cons c cs ih =>
    have hc := digit?_of_isDigit (h c List.mem_cons_self)
    rw [valueFrom, hc, Nat.ofDigitChars_cons, Nat.mul_comm 10]
    exact ih (fun d hd => h d (List.mem_cons_of_mem _ hd)) _

theorem below?_of_isDigit {bound : Nat} {cs : List Char} (hd : ∀ c ∈ cs, c.isDigit = true) (hne : cs ≠ [])
    (h : Nat.ofDigitChars 10 cs 0 < bound) : below? bound cs = some (Nat.ofDigitChars 10 cs 0) := by
  have hplus : ∀ rest, cs ≠ '+' :: rest := by
    rintro rest rfl
    exact absurd (hd '+' List.mem_cons_self) (by decide)
  have hvalue : value? cs = some (Nat.ofDigitChars 10 cs 0) := by
    cases cs with
    | nil => exact absurd rfl hne
    | cons c cs => exact valueFrom_eq hd 0
  rw [below?, hvalue]
  · exact if_pos h
  · exact hplus

theorem word64?_of_isDigit {cs : List Char} (hd : ∀ c ∈ cs, c.isDigit = true) (hne : cs ≠ []) {n : UInt64}
    (h : Nat.ofDigitChars 10 cs 0 = n.toNat) : word64? (String.ofList cs) = some n := by
  have hlt : Nat.ofDigitChars 10 cs 0 < UInt64.size := h ▸ n.toNat_lt
  rw [word64?, String.toList_ofList, below?_of_isDigit hd hne hlt, h, Option.map_some, UInt64.ofNat_toNat]

theorem word64?_text (n : UInt64) : word64? (text n.toNat) = some n :=
  word64?_of_isDigit (fun _ => isDigit_of_mem_digits) (digits_ne_nil _) (ofDigitChars_digits _)

theorem toList_padded (width n : Nat) :
    (padded width n).toList = List.replicate (width - (digits n).length) '0' ++ digits n :=
  String.toList_ofList

theorem isDigit_of_mem_padded {width n : Nat} {c : Char} (h : c ∈ (padded width n).toList) :
    c.isDigit = true := by
  rw [toList_padded, List.mem_append] at h
  rcases h with h | h
  · rw [List.eq_of_mem_replicate h]
    rfl
  · exact isDigit_of_mem_digits h

theorem word64?_padded (width : Nat) (n : UInt64) : word64? (padded width n.toNat) = some n := by
  have hvalue : Nat.ofDigitChars 10 (padded width n.toNat).toList 0 = n.toNat := by
    rw [toList_padded, Nat.ofDigitChars_append, Nat.ofDigitChars_replicate_zero, Nat.mul_zero,
      ofDigitChars_digits]
  have hne : (padded width n.toNat).toList ≠ [] := by
    rw [toList_padded]
    exact List.append_ne_nil_of_right_ne_nil _ (digits_ne_nil _)
  have h := word64?_of_isDigit (fun _ => isDigit_of_mem_padded) hne hvalue
  rwa [String.ofList_toList] at h

theorem canonical?_text (n : UInt64) : canonical? (text n.toNat) = some n := by
  rw [canonical?, word64?_text]
  exact if_pos rfl

def Numeral (cs : List Char) (n : Nat) : Prop :=
  ∃ ds, (cs = ds ∨ cs = '+' :: ds) ∧ ds ≠ [] ∧ (∀ c ∈ ds, c.isDigit = true) ∧ Nat.ofDigitChars 10 ds 0 = n

theorem isSome_digit?_iff {c : Char} : (digit? c).isSome = true ↔ c.isDigit = true := by
  constructor
  · intro h
    rw [digit?] at h
    split at h
    case isTrue hc => exact isDigit_iff.mpr ⟨UInt32.le_iff_toNat_le.mp hc.1, UInt32.le_iff_toNat_le.mp hc.2⟩
    case isFalse => cases h
  · intro h
    rw [digit?_of_isDigit h, Option.isSome_some]

theorem isSome_digit?_of_valueFrom {cs : List Char} {n m : Nat} (h : valueFrom n cs = some m) :
    ∀ c ∈ cs, (digit? c).isSome = true := by
  induction cs generalizing n with
  | nil => nofun
  | cons c cs ih =>
    rw [valueFrom] at h
    cases hd : digit? c with
    | none =>
      rw [hd] at h
      cases h
    | some d =>
      rw [hd] at h
      exact List.forall_mem_cons.mpr ⟨by rw [hd, Option.isSome_some], ih h⟩

theorem value?_eq_some_iff {ds : List Char} {n : Nat} : value? ds = some n ↔
    ds ≠ [] ∧ (∀ c ∈ ds, c.isDigit = true) ∧ Nat.ofDigitChars 10 ds 0 = n := by
  cases ds with
  | nil => exact iff_of_false nofun fun h => h.1 rfl
  | cons c ds =>
    rw [value?]
    constructor
    · intro h
      have hall : ∀ d ∈ c :: ds, d.isDigit = true :=
        fun d hd => isSome_digit?_iff.mp (isSome_digit?_of_valueFrom h d hd)
      rw [valueFrom_eq hall] at h
      exact ⟨List.cons_ne_nil c ds, hall, Option.some.inj h⟩
    · rintro ⟨-, hall, hvalue⟩
      rw [valueFrom_eq hall, hvalue]
    · nofun

theorem numeral_iff {cs : List Char} {n : Nat} :
    Numeral cs n ↔ value? cs = some n ∨ ∃ ds, cs = '+' :: ds ∧ value? ds = some n := by
  simp only [value?_eq_some_iff]
  constructor
  · rintro ⟨ds, rfl | rfl, h⟩
    · exact .inl h
    · exact .inr ⟨ds, rfl, h⟩
  · rintro (h | ⟨ds, rfl, h⟩)
    · exact ⟨cs, .inl rfl, h⟩
    · exact ⟨ds, .inr rfl, h⟩

theorem below?_eq_some_iff {bound n : Nat} {cs : List Char} :
    below? bound cs = some n ↔ Numeral cs n ∧ n < bound := by
  have hplus : ∀ ds, value? ('+' :: ds) ≠ some n := fun ds h =>
    absurd ((value?_eq_some_iff.mp h).2.1 '+' List.mem_cons_self) (by decide)
  have hbound : ∀ m, m < bound ∧ m = n ↔ m = n ∧ n < bound := fun m =>
    ⟨fun h => ⟨h.2, h.2 ▸ h.1⟩, fun h => ⟨h.1 ▸ h.2, h.1⟩⟩
  rw [numeral_iff]
  unfold below?
  split
  case h_1 rest =>
    cases hv : value? rest with
    | none => simp [hplus, hv]
    | some m => simp [hplus, hv, hbound]
  case h_2 hnot =>
    have hno : ¬∃ ds, cs = '+' :: ds ∧ value? ds = some n := fun ⟨ds, hcs, _⟩ => hnot ds hcs
    rw [or_iff_left hno]
    cases hv : value? cs with
    | none => simp [hv]
    | some m => simp [hv, hbound]

theorem word32?_eq_some_iff {s : String} {n : UInt32} : word32? s = some n ↔ Numeral s.toList n.toNat := by
  rw [word32?, Option.map_eq_some_iff]
  constructor
  · rintro ⟨m, hm, rfl⟩
    obtain ⟨hnumeral, hlt⟩ := below?_eq_some_iff.mp hm
    rwa [UInt32.toNat_ofNat_of_lt' hlt]
  · intro h
    exact ⟨n.toNat, below?_eq_some_iff.mpr ⟨h, n.toNat_lt⟩, UInt32.ofNat_toNat⟩

theorem word64?_eq_some_iff {s : String} {n : UInt64} : word64? s = some n ↔ Numeral s.toList n.toNat := by
  rw [word64?, Option.map_eq_some_iff]
  constructor
  · rintro ⟨m, hm, rfl⟩
    obtain ⟨hnumeral, hlt⟩ := below?_eq_some_iff.mp hm
    rwa [UInt64.toNat_ofNat_of_lt' hlt]
  · intro h
    exact ⟨n.toNat, below?_eq_some_iff.mpr ⟨h, n.toNat_lt⟩, UInt64.ofNat_toNat⟩

theorem point_notMem_of_word64? {s : String} {n : UInt64} (h : word64? s = some n) : '.' ∉ s.toList := by
  obtain ⟨m, hm, -⟩ := Option.map_eq_some_iff.mp h
  obtain ⟨⟨ds, hs, -, hdigits, -⟩, -⟩ := below?_eq_some_iff.mp hm
  have hpoint : '.' ∉ ds := fun hc => absurd (hdigits _ hc) (by decide)
  rcases hs with hs | hs
  · rwa [hs]
  · rw [hs, List.mem_cons, not_or]
    exact ⟨by decide, hpoint⟩

end Uniqueness.Decimal
