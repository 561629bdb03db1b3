import Uniqueness.Proofs.JsonStrings
import Uniqueness.Proofs.Numerals

namespace Uniqueness.Json

open Utf8 (encodeChar encodeList)

def Ends (rest : Bytes) : Prop :=
  ∀ b ∈ rest.head?, b = 0x2C ∨ b = 0x5D ∨ b = 0x7D

theorem Ends.nil : Ends [] :=
  nofun

theorem Ends.not_isDigit {b : UInt8} {rest : Bytes} (h : Ends (b :: rest)) : isDigit b = false := by
  rcases h b rfl with rfl | rfl | rfl <;> decide

def digitBytes (n : Nat) : Bytes :=
  (Decimal.digits n).map fun c => UInt8.ofNat c.toNat

theorem encodeList_digits {cs : List Char} (h : ∀ c ∈ cs, c.isDigit = true) :
    encodeList cs = cs.map fun c => UInt8.ofNat c.toNat := by
  induction cs with
  | nil => rfl
  | cons c cs ih =>
    have hc := (Decimal.isDigit_iff.mp (h c List.mem_cons_self)).2
    rw [encodeList, List.flatMap_cons, Utf8.encodeChar_of_lt (by omega), List.map_cons, List.singleton_append]
    congr 1
    exact ih fun d hd => h d (List.mem_cons_of_mem _ hd)

theorem toNat_digit {c : Char} (h : c.isDigit = true) : (UInt8.ofNat c.toNat).toNat = c.toNat := by
  have hc := (Decimal.isDigit_iff.mp h).2
  exact Utf8.toNat_ofNat (by omega)

theorem isDigit_digitBytes {n : Nat} {b : UInt8} (hb : b ∈ digitBytes n) : isDigit b = true := by
  obtain ⟨c, hc, rfl⟩ := List.mem_map.mp hb
  have hd := Decimal.isDigit_of_mem_digits hc
  have hr := Decimal.isDigit_iff.mp hd
  rw [isDigit, Bool.and_eq_true, decide_eq_true_eq, decide_eq_true_eq, UInt8.le_iff_toNat_le,
    UInt8.le_iff_toNat_le, toNat_digit hd]
  exact hr

theorem natOfDigits_map {cs : List Char} (h : ∀ c ∈ cs, c.isDigit = true) (n : Nat) :
    (cs.map fun c => UInt8.ofNat c.toNat).foldl (fun n b => n * 10 + (b.toNat - 48)) n =
      Nat.ofDigitChars 10 cs n := by
  induction cs generalizing n with
  | nil => rw [List.map_nil, List.foldl_nil, Nat.ofDigitChars_nil]
  | cons c cs ih =>
    rw [List.map_cons, List.foldl_cons, toNat_digit (h c List.mem_cons_self), Nat.ofDigitChars_cons,
      Nat.mul_comm 10]
    exact ih (fun d hd => h d (List.mem_cons_of_mem _ hd)) _

theorem natOfDigits_digitBytes (n : Nat) : natOfDigits (digitBytes n) = n := by
  rw [natOfDigits, digitBytes, natOfDigits_map fun c hc => Decimal.isDigit_of_mem_digits hc,
    Decimal.ofDigitChars_digits]

theorem digits_append {n : Nat} {rest : Bytes} (h : Ends rest) :
    digits (digitBytes n ++ rest) = (digitBytes n, rest) := by
  have hall : ∀ b ∈ digitBytes n, isDigit b = true := fun b hb => isDigit_digitBytes hb
  rw [digits, List.takeWhile_append_of_pos hall, List.dropWhile_append_of_pos hall]
  cases rest with
  | nil => simp
  | cons b rest => simp [h.not_isDigit]

theorem whole?_digitBytes {n : Nat} {rest : Bytes} (h : Ends rest) :
    whole? (digitBytes n ++ rest) = some (digitBytes n, rest) := by
  rw [whole?.eq_def, digits_append h]
  split
  case h_1 heq =>
    have hnil : digitBytes n = [] := congrArg Prod.fst heq
    exact absurd (List.map_eq_nil_iff.mp hnil) (Decimal.digits_ne_nil n)
  case h_2 b bs r heq =>
    have hcons : digitBytes n = 0x30 :: b :: bs := congrArg Prod.fst heq
    obtain ⟨c, cs, hd, hc, hcs⟩ := List.map_eq_cons_iff.mp hcons
    have hdigit := Decimal.isDigit_of_mem_digits (n := n) (c := c) (hd ▸ List.mem_cons_self)
    have hzero : c = '0' := by
      apply Char.toNat_inj.mp
      rw [← toNat_digit hdigit, hc]
      rfl
    rw [hzero] at hd
    rw [Decimal.eq_nil_of_digits_eq hd] at hcs
    cases hcs
  case h_3 => rfl

theorem fraction?_of_ends {rest : Bytes} (h : Ends rest) : fraction? rest = some ([], rest) := by
  rw [fraction?.eq_def]
  split
  · rcases h _ rfl with he | he | he <;> cases he
  · rfl

theorem exponent?_of_ends {rest : Bytes} (h : Ends rest) : exponent? rest = some ([], rest) := by
  cases rest with
  | nil => rfl
  | cons b rest =>
    have hb : ¬(b = 0x65 ∨ b = 0x45) := by
      rcases h b rfl with rfl | rfl | rfl <;> decide
    rw [exponent?.eq_def]
    simp only [if_neg hb]

theorem number_digitBytes {n : Nat} {rest : Bytes} (h : Ends rest) :
    number (digitBytes n ++ rest) = some (.int n, rest) := by
  have hminus : ∀ r, digitBytes n ++ rest = 0x2D :: r → False := by
    intro r hr
    cases hd : digitBytes n with
    | nil => exact absurd (List.map_eq_nil_iff.mp hd) (Decimal.digits_ne_nil n)
    | cons b bs =>
      rw [hd, List.cons_append, List.cons.injEq] at hr
      have hb := isDigit_digitBytes (n := n) (b := b) (hd ▸ List.mem_cons_self)
      rw [hr.1] at hb
      cases hb
  unfold number
  simp only [whole?_digitBytes h, Option.bind_eq_bind, Option.bind_some, fraction?_of_ends h,
    exponent?_of_ends h]
  simp [numberTree, natOfDigits_digitBytes]

theorem digitBytes_ne_zero {n : Nat} (hn : n ≠ 0) : digitBytes n ≠ [0x30] := by
  intro h
  have := natOfDigits_digitBytes n
  rw [h] at this
  exact hn this.symm

theorem number_minus {n : Nat} {rest : Bytes} (hn : n ≠ 0) (h : Ends rest) :
    number (0x2D :: (digitBytes n ++ rest)) = some (.int (-n), rest) := by
  unfold number
  simp only [whole?_digitBytes h, Option.bind_eq_bind, Option.bind_some, fraction?_of_ends h,
    exponent?_of_ends h]
  simp [numberTree, natOfDigits_digitBytes, digitBytes_ne_zero hn]

theorem number_writeInt (n : Int) {rest : Bytes} (h : Ends rest) :
    number (encodeList (writeInt n) ++ rest) = some (.int n, rest) := by
  have hdigits : ∀ n, encodeList (Decimal.digits n) = digitBytes n := fun n =>
    encodeList_digits fun c hc => Decimal.isDigit_of_mem_digits hc
  cases n with
  | ofNat n =>
    rw [writeInt, hdigits]
    exact number_digitBytes h
  | negSucc n =>
    rw [writeInt, ← List.singleton_append, Utf8.encodeList_append, hdigits, List.append_assoc]
    exact number_minus (Nat.succ_ne_zero n) h

mutual

def isWritable : Tree → Bool
  | .null | .bool _ | .int _ | .text _ => true
  | .list items .closed => areWritable items
  | .table fields .closed => areWritableFields fields
  | _ => false

def areWritable : List Tree → Bool
  | [] => true
  | t :: ts => isWritable t && areWritable ts

def areWritableFields : List (Label × Tree) → Bool
  | [] => true
  | (.plain s, t) :: fields => s.toList.all isPlain && isWritable t && areWritableFields fields
  | _ => false

end

def bytes (t : Tree) : Bytes :=
  encodeList (write t)

def itemBytes (ts : List Tree) : Bytes :=
  encodeList (writeItems ts)

def fieldBytes (fields : List (Label × Tree)) : Bytes :=
  encodeList (writeFields fields)

theorem bytes_list (ts : List Tree) (ending : Ending) :
    bytes (.list ts ending) = 0x5B :: (itemBytes ts ++ [0x5D]) := by
  rw [bytes, write, ← List.singleton_append, Utf8.encodeList_append, Utf8.encodeList_append]
  rfl

theorem bytes_table (fields : List (Label × Tree)) (ending : Ending) :
    bytes (.table fields ending) = 0x7B :: (fieldBytes fields ++ [0x7D]) := by
  rw [bytes, write, ← List.singleton_append, Utf8.encodeList_append, Utf8.encodeList_append]
  rfl

theorem itemBytes_cons (t u : Tree) (ts : List Tree) :
    itemBytes (t :: u :: ts) = bytes t ++ 0x2C :: itemBytes (u :: ts) := by
  rw [itemBytes, writeItems, Utf8.encodeList_append, ← List.singleton_append, Utf8.encodeList_append]
  · rfl
  · nofun

theorem fieldBytes_singleton (l : Label) (t : Tree) :
    fieldBytes [(l, t)] = encodeList (writeString (labelText l)) ++ 0x3A :: bytes t := by
  rw [fieldBytes, writeFields, Utf8.encodeList_append, ← List.singleton_append, Utf8.encodeList_append]
  rfl

theorem fieldBytes_cons (l : Label) (t : Tree) (f : Label × Tree) (fs : List (Label × Tree)) :
    fieldBytes ((l, t) :: f :: fs) =
      encodeList (writeString (labelText l)) ++ 0x3A :: (bytes t ++ 0x2C :: fieldBytes (f :: fs)) := by
  rw [fieldBytes, writeFields, List.append_assoc, Utf8.encodeList_append, List.cons_append,
    ← List.singleton_append, Utf8.encodeList_append, Utf8.encodeList_append, ← List.singleton_append,
    Utf8.encodeList_append]
  · rfl
  · nofun

def opens (b : UInt8) : Bool :=
  b == 0x22 || b == 0x5B || b == 0x7B || b == 0x6E || b == 0x74 || b == 0x66 || b == 0x2D || isDigit b

theorem opens_writeInt (n : Int) :
    ∃ b tail, encodeList (writeInt n) = b :: tail ∧ (b = 0x2D ∨ isDigit b = true) := by
  cases n with
  | ofNat n =>
    rw [writeInt, encodeList_digits fun c hc => Decimal.isDigit_of_mem_digits hc]
    change ∃ b tail, digitBytes n = b :: tail ∧ _
    cases hd : digitBytes n with
    | nil => exact absurd (List.map_eq_nil_iff.mp hd) (Decimal.digits_ne_nil n)
    | cons b bs => exact ⟨b, bs, rfl, .inr (isDigit_digitBytes (n := n) (hd ▸ List.mem_cons_self))⟩
  | negSucc n => exact ⟨0x2D, _, rfl, .inl rfl⟩

theorem opens_bytes {t : Tree} (h : isWritable t = true) :
    ∃ b tail, bytes t = b :: tail ∧ opens b = true := by
  cases t with
  | null => exact ⟨0x6E, _, rfl, by decide⟩
  | bool b => cases b with
    | false => exact ⟨0x66, _, rfl, by decide⟩
    | true => exact ⟨0x74, _, rfl, by decide⟩
  | int n =>
    obtain ⟨b, tail, hb, ho⟩ := opens_writeInt n
    exact ⟨b, tail, hb, by rcases ho with rfl | ho <;> simp [opens, *]⟩
  | text s => exact ⟨0x22, _, rfl, by decide⟩
  | list ts ending => exact ⟨0x5B, _, bytes_list ts ending, by decide⟩
  | table fields ending => exact ⟨0x7B, _, bytes_table fields ending, by decide⟩
  | _ => cases h

theorem isSpace_of_opens {b : UInt8} (h : opens b = true) : isSpace b = false := by
  rw [Bool.eq_false_iff]
  intro hs
  simp only [isSpace, Bool.or_eq_true, beq_iff_eq] at hs
  rcases hs with ((rfl | rfl) | rfl) | rfl <;> cases h

theorem skip_cons {b : UInt8} (h : isSpace b = false) (rest : Bytes) : skip (b :: rest) = b :: rest := by
  rw [skip, List.dropWhile_cons, if_neg (by simp [h])]

theorem isSound_of_isWritable {t : Tree} (h : isWritable t = true) : t.isSound = true := by
  cases t with
  | list ts ending => cases ending <;> first | rfl | cases h
  | table fields ending => cases ending <;> first | rfl | cases h
  | unreadable => cases h
  | broken => cases h
  | _ => rfl

structure Reads (fuel : Nat) : Prop where
  value : ∀ {t rest}, isWritable t = true → Ends rest → 2 * (bytes t).length ≤ fuel →
    Json.value fuel (bytes t ++ rest) = (t, rest)
  items : ∀ {t ts}, areWritable (t :: ts) = true → 2 * (itemBytes (t :: ts)).length < fuel → ∀ rest,
    Json.items fuel (itemBytes (t :: ts) ++ 0x5D :: rest) = (t :: ts, .closed, rest)
  fields : ∀ {f fs}, areWritableFields (f :: fs) = true →
    2 * (fieldBytes (f :: fs)).length < fuel → ∀ rest,
    Json.fields fuel (fieldBytes (f :: fs) ++ 0x7D :: rest) = (f :: fs, .closed, rest)

theorem ends_cons {b : UInt8} (h : b = 0x2C ∨ b = 0x5D ∨ b = 0x7D) (rest : Bytes) : Ends (b :: rest) := by
  intro c hc
  cases hc
  exact h

theorem reads_items {fuel : Nat} (ih : Reads fuel) {t : Tree} {ts : List Tree}
    (hw : areWritable (t :: ts) = true) (hf : 2 * (itemBytes (t :: ts)).length < fuel + 1) (rest : Bytes) :
    items (fuel + 1) (itemBytes (t :: ts) ++ 0x5D :: rest) = (t :: ts, .closed, rest) := by
  rw [areWritable, Bool.and_eq_true] at hw
  have hs := isSound_of_isWritable hw.1
  cases ts with
  | nil =>
    change 2 * (bytes t).length < fuel + 1 at hf
    change items (fuel + 1) (bytes t ++ 0x5D :: rest) = _
    have hv := ih.value hw.1 (ends_cons (.inr (.inl rfl)) rest) (by omega)
    rw [items, hv]
    simp only [hs, if_true, skip_cons (b := 0x5D) rfl]
  | cons u ts =>
    rw [itemBytes_cons, List.length_append, List.length_cons] at hf
    rw [itemBytes_cons, List.append_assoc, List.cons_append]
    have hv := ih.value hw.1 (ends_cons (.inl rfl) (itemBytes (u :: ts) ++ 0x5D :: rest)) (by omega)
    have hi := ih.items hw.2 (by omega) rest
    rw [items, hv]
    simp only [hs, if_true, skip_cons (b := 0x2C) rfl, hi]

theorem labelFor_of_all {s : String} (h : s.toList.all isPlain = true) : labelFor s = .plain s :=
  if_pos h

theorem reads_fields {fuel : Nat} (ih : Reads fuel) {f : Label × Tree} {fs : List (Label × Tree)}
    (hw : areWritableFields (f :: fs) = true) (hf : 2 * (fieldBytes (f :: fs)).length < fuel + 1)
    (rest : Bytes) :
    fields (fuel + 1) (fieldBytes (f :: fs) ++ 0x7D :: rest) = (f :: fs, .closed, rest) := by
  obtain ⟨l, t⟩ := f
  cases l with
  | escaped s => cases hw
  | unreadable => cases hw
  | plain s =>
    rw [areWritableFields, Bool.and_eq_true, Bool.and_eq_true] at hw
    have hs := isSound_of_isWritable hw.1.2
    have hlabel : labelText (.plain s) = s := rfl
    cases fs with
    | nil =>
      rw [fieldBytes_singleton, List.length_append, List.length_cons, hlabel] at hf
      rw [fieldBytes_singleton, List.append_assoc, List.cons_append, hlabel]
      obtain ⟨tail, htail, hl⟩ := exists_label_writeString s (0x3A :: (bytes t ++ 0x7D :: rest))
      have hv := ih.value hw.1.2 (ends_cons (.inr (.inr rfl)) rest) (by omega)
      rw [htail, fields]
      simp only [skip_cons (b := 0x22) rfl, hl, labelFor_of_all hw.1.1, skip_cons (b := 0x3A) rfl, hv, hs,
        if_true, skip_cons (b := 0x7D) rfl]
    | cons g fs =>
      rw [fieldBytes_cons, List.length_append, List.length_cons, List.length_append, List.length_cons,
        hlabel] at hf
      rw [fieldBytes_cons, List.append_assoc, List.cons_append, List.append_assoc, List.cons_append, hlabel]
      obtain ⟨tail, htail, hl⟩ :=
        exists_label_writeString s (0x3A :: (bytes t ++ 0x2C :: (fieldBytes (g :: fs) ++ 0x7D :: rest)))
      have hv := ih.value hw.1.2 (ends_cons (.inl rfl) (fieldBytes (g :: fs) ++ 0x7D :: rest)) (by omega)
      have hi := ih.fields hw.2 (by omega) rest
      rw [htail, fields]
      simp only [skip_cons (b := 0x22) rfl, hl, labelFor_of_all hw.1.1, skip_cons (b := 0x3A) rfl, hv, hs,
        if_true, skip_cons (b := 0x2C) rfl, hi]

theorem value_word (fuel : Nat) (word : String) {t : Tree} {b : UInt8} {tail : Bytes}
    (hw : Utf8.encode word = b :: tail)
    (hv : ∀ rest, value (fuel + 1) (b :: rest) = literal word t (b :: rest)) (rest : Bytes) :
    value (fuel + 1) (Utf8.encode word ++ rest) = (t, rest) := by
  have ha : after? word (Utf8.encode word ++ rest) = some rest := by
    have hp : (Utf8.encode word).isPrefixOf (Utf8.encode word ++ rest) = true := by
      rw [List.isPrefixOf_iff_prefix]
      exact List.prefix_append _ _
    simp only [after?, hp, if_true, List.drop_left]
  rw [hw, List.cons_append, hv, ← List.cons_append, ← hw, literal, ha]

theorem value_number (fuel : Nat) {b : UInt8} {tail : Bytes} (h : b = 0x2D ∨ isDigit b = true)
    {found : Tree × Bytes} (hn : number (b :: tail) = some found) : value (fuel + 1) (b :: tail) = found := by
  have hne : ∀ c : UInt8, c ≠ 0x2D → isDigit c = false → b ≠ c := by
    rintro c hc hd rfl
    rcases h with h | h
    · exact hc h
    · rw [hd] at h
      cases h
  have hs : isSpace b = false := isSpace_of_opens (by rcases h with rfl | h <;> simp [opens, *])
  rw [value, skip_cons hs]
  simp only [if_neg (hne 0x22 (by decide) rfl), if_neg (hne 0x5B (by decide) rfl),
    if_neg (hne 0x7B (by decide) rfl), if_neg (hne 0x6E (by decide) rfl),
    if_neg (hne 0x74 (by decide) rfl), if_neg (hne 0x66 (by decide) rfl), hn]

theorem value_int (fuel : Nat) (n : Int) {rest : Bytes} (h : Ends rest) :
    value (fuel + 1) (bytes (.int n) ++ rest) = (.int n, rest) := by
  obtain ⟨b, tail, hb, ho⟩ := opens_writeInt n
  have hn := number_writeInt n h
  change value (fuel + 1) (encodeList (writeInt n) ++ rest) = _
  rw [hb, List.cons_append] at hn ⊢
  exact value_number fuel ho hn

theorem opens_items {t : Tree} (h : isWritable t = true) (ts : List Tree) :
    ∃ b tail, itemBytes (t :: ts) = b :: tail ∧ opens b = true := by
  obtain ⟨b, tail, hb, ho⟩ := opens_bytes h
  cases ts with
  | nil => exact ⟨b, tail, hb, ho⟩
  | cons u ts =>
    rw [itemBytes_cons, hb]
    exact ⟨b, _, rfl, ho⟩

theorem opens_fields (l : Label) (t : Tree) (fs : List (Label × Tree)) :
    ∃ tail, fieldBytes ((l, t) :: fs) = 0x22 :: tail := by
  cases fs with
  | nil => exact ⟨_, fieldBytes_singleton l t⟩
  | cons f fs => exact ⟨_, fieldBytes_cons l t f fs⟩

theorem value_items {fuel : Nat} {bs rest : Bytes} {ts : List Tree} {ending : Ending}
    (hb : (skip bs).head? ≠ some 0x5D) (hi : items fuel (skip bs) = (ts, ending, rest)) :
    value (fuel + 1) (0x5B :: bs) = (.list ts ending, rest) := by
  have hquote : ¬(0x5B : UInt8) = 0x22 := by decide
  rw [value, skip_cons (b := 0x5B) rfl]
  simp only [if_neg hquote, if_true]
  split
  case h_1 heq => exact absurd (by rw [heq, List.head?_cons]) hb
  case h_2 => rw [hi]

theorem value_fields {fuel : Nat} {bs rest : Bytes} {fs : List (Label × Tree)} {ending : Ending}
    (hb : (skip bs).head? ≠ some 0x7D) (hi : fields fuel (skip bs) = (fs, ending, rest)) :
    value (fuel + 1) (0x7B :: bs) = (.table fs ending, rest) := by
  have hquote : ¬(0x7B : UInt8) = 0x22 := by decide
  have hlist : ¬(0x7B : UInt8) = 0x5B := by decide
  rw [value, skip_cons (b := 0x7B) rfl]
  simp only [if_neg hquote, if_neg hlist, if_true]
  split
  case h_1 heq => exact absurd (by rw [heq, List.head?_cons]) hb
  case h_2 => rw [hi]

theorem reads_list {fuel : Nat} (ih : Reads fuel) {ts : List Tree} (hw : areWritable ts = true)
    (hf : 2 * (bytes (.list ts .closed)).length ≤ fuel + 1) (rest : Bytes) :
    value (fuel + 1) (bytes (.list ts .closed) ++ rest) = (.list ts .closed, rest) := by
  rw [bytes_list, List.length_cons, List.length_append, List.length_singleton] at hf
  rw [bytes_list, List.cons_append, List.append_assoc, List.singleton_append]
  cases ts with
  | nil => rfl
  | cons t ts =>
    have hi := ih.items hw (by omega) rest
    rw [areWritable, Bool.and_eq_true] at hw
    obtain ⟨b, tail, hb, ho⟩ := opens_items hw.1 ts
    have hskip : skip (itemBytes (t :: ts) ++ 0x5D :: rest) = itemBytes (t :: ts) ++ 0x5D :: rest := by
      rw [hb, List.cons_append, skip_cons (isSpace_of_opens ho)]
    apply value_items
    · rw [hskip, hb]
      rintro ⟨⟩
      cases ho
    · rw [hskip, hi]

theorem reads_table {fuel : Nat} (ih : Reads fuel) {fs : List (Label × Tree)}
    (hw : areWritableFields fs = true) (hf : 2 * (bytes (.table fs .closed)).length ≤ fuel + 1) (rest : Bytes) :
    value (fuel + 1) (bytes (.table fs .closed) ++ rest) = (.table fs .closed, rest) := by
  rw [bytes_table, List.length_cons, List.length_append, List.length_singleton] at hf
  rw [bytes_table, List.cons_append, List.append_assoc, List.singleton_append]
  cases fs with
  | nil => rfl
  | cons f fs =>
    have hi := ih.fields hw (by omega) rest
    obtain ⟨tail, hb⟩ := opens_fields f.1 f.2 fs
    have hskip : skip (fieldBytes (f :: fs) ++ 0x7D :: rest) = fieldBytes (f :: fs) ++ 0x7D :: rest := by
      rw [hb, List.cons_append, skip_cons (b := 0x22) rfl]
    apply value_fields
    · rw [hskip, hb]
      rintro ⟨⟩
    · rw [hskip, hi]

theorem reads_value {fuel : Nat} (ih : Reads fuel) {t : Tree} {rest : Bytes} (hw : isWritable t = true)
    (he : Ends rest) (hf : 2 * (bytes t).length ≤ fuel + 1) :
    value (fuel + 1) (bytes t ++ rest) = (t, rest) := by
  cases t with
  | null => exact value_word fuel "null" rfl (fun _ => rfl) rest
  | bool b => cases b with
    | false => exact value_word fuel "false" rfl (fun _ => rfl) rest
    | true => exact value_word fuel "true" rfl (fun _ => rfl) rest
  | int n => exact value_int fuel n he
  | text s =>
    obtain ⟨tail, htail, hl⟩ := exists_label_writeString s rest
    change value (fuel + 1) (encodeList (writeString s) ++ rest) = _
    rw [htail, value, skip_cons (b := 0x22) rfl]
    simp only [hl, if_true, textOfLabel_labelFor]
  | list ts ending =>
    cases ending with
    | lenient => cases hw
    | broken => cases hw
    | closed => exact reads_list ih hw hf rest
  | table fs ending =>
    cases ending with
    | lenient => cases hw
    | broken => cases hw
    | closed => exact reads_table ih hw hf rest
  | _ => cases hw

theorem reads (fuel : Nat) : Reads fuel := by
  -- the readers call one another with one step less, so the three are proved together
  induction fuel with
  | zero =>
    refine ⟨?_, nofun, nofun⟩
    intro t rest hw _ hf
    obtain ⟨b, tail, hb, _⟩ := opens_bytes hw
    rw [hb, List.length_cons] at hf
    omega
  | succ fuel ih => exact ⟨reads_value ih, reads_items ih, reads_fields ih⟩

theorem parse_bytes {t : Tree} (hw : isWritable t = true) : parse (bytes t) = (t, []) := by
  have h := (reads (2 * (bytes t).length + 2)).value hw Ends.nil (by omega)
  rwa [List.append_nil] at h

theorem length_le_encodeList (cs : List Char) : cs.length ≤ (encodeList cs).length := by
  induction cs with
  | nil => exact Nat.le_refl 0
  | cons c cs ih =>
    have hc : 0 < (encodeChar c).length := by
      simp only [encodeChar]
      repeat' split
      all_goals exact Nat.zero_lt_succ _
    rw [List.length_cons, encodeList, List.flatMap_cons, List.length_append]
    rw [encodeList] at ih
    omega

theorem length_le_bytes_text (s : String) : s.toList.length ≤ (bytes (.text s)).length := by
  have hescape : ∀ cs : List Char, cs.length ≤ (cs.flatMap escape).length := by
    intro cs
    induction cs with
    | nil => exact Nat.le_refl 0
    | cons c cs ih =>
      have hc : 0 < (escape c).length := by
        unfold escape
        repeat' split
        all_goals exact Nat.zero_lt_succ _
      rw [List.length_cons, List.flatMap_cons, List.length_append]
      omega
  have hwrite : (s.toList.flatMap escape).length ≤ (writeString s).length := by
    rw [writeString, List.length_append, List.length_cons]
    omega
  exact Nat.le_trans (hescape _) (Nat.le_trans hwrite (length_le_encodeList _))

theorem length_bytes_le_fieldBytes {l : Label} {t : Tree} {fields : List (Label × Tree)}
    (h : (l, t) ∈ fields) : (bytes t).length ≤ (fieldBytes fields).length := by
  induction fields with
  | nil => cases h
  | cons f fields ih =>
    obtain ⟨l', t'⟩ := f
    cases fields with
    | nil =>
      cases List.mem_singleton.mp h
      rw [fieldBytes_singleton, List.length_append, List.length_cons]
      omega
    | cons g fields =>
      rw [fieldBytes_cons, List.length_append, List.length_cons, List.length_append, List.length_cons]
      rcases List.mem_cons.mp h with h | h
      · cases h
        omega
      · have := ih h
        omega

theorem length_bytes_le_object {name : String} {t : Tree} {fields : List (String × Tree)}
    (h : (name, t) ∈ fields) : (bytes t).length ≤ (bytes (.object fields)).length := by
  have hf : (Label.plain name, t) ∈ fields.map fun f => (Label.plain f.1, f.2) :=
    List.mem_map_of_mem h
  have hle := length_bytes_le_fieldBytes hf
  rw [Tree.object, bytes_table, List.length_cons, List.length_append]
  omega

end Uniqueness.Json
