import Uniqueness.StateRef
import Mathlib.Algebra.GroupWithZero.Nat
import Mathlib.Data.List.Induction

namespace Uniqueness

namespace Bytes

theorem compare_append {as bs : Bytes} (h : as.length = bs.length) (cs ds : Bytes) :
    compare (as ++ cs) (bs ++ ds) = (compare as bs).then (compare cs ds) := by
  induction as generalizing bs with
  | nil =>
    cases List.eq_nil_of_length_eq_zero h.symm
    rfl
  | cons a as ih =>
    cases bs with
    | nil => cases h
    | cons b bs =>
      have hl : as.length = bs.length := Nat.succ.inj h
      rw [List.cons_append, List.cons_append, List.compare_cons_cons, List.compare_cons_cons, ih hl,
        Ordering.then_assoc]

theorem compare_toNat (a b : UInt8) : compare a b = compare a.toNat b.toNat := by
  change compareOfLessAndEq a b = compareOfLessAndEq a.toNat b.toNat
  simp only [compareOfLessAndEq, UInt8.lt_iff_toNat_lt, ← UInt8.toNat_inj]

theorem compare_singleton (a b : UInt8) : compare ([a] : Bytes) [b] = compare a.toNat b.toNat := by
  rw [List.compare_cons_cons, List.compare_nil_nil, Ordering.then_eq, compare_toNat]

theorem compare_div_mod (m n : Nat) :
    (compare (m / 256) (n / 256)).then (compare (m % 256) (n % 256)) = compare m n := by
  rcases Nat.lt_trichotomy (m / 256) (n / 256) with h | h | h
  · have hmn : m < n := by omega
    rw [Nat.compare_eq_lt.mpr h, Nat.compare_eq_lt.mpr hmn]
    rfl
  · rw [Nat.compare_eq_eq.mpr h]
    rcases Nat.lt_trichotomy (m % 256) (n % 256) with h' | h' | h'
    · have hmn : m < n := by omega
      rw [Nat.compare_eq_lt.mpr h', Nat.compare_eq_lt.mpr hmn]
      rfl
    · have hmn : m = n := by omega
      rw [Nat.compare_eq_eq.mpr h', Nat.compare_eq_eq.mpr hmn]
      rfl
    · have hmn : n < m := by omega
      rw [Nat.compare_eq_gt.mpr h', Nat.compare_eq_gt.mpr hmn]
      rfl
  · have hmn : n < m := by omega
    rw [Nat.compare_eq_gt.mpr h, Nat.compare_eq_gt.mpr hmn]
    rfl

theorem compare_ofNat {width m n : Nat} (hm : m < 256 ^ width) (hn : n < 256 ^ width) :
    compare (ofNat width m) (ofNat width n) = compare m n := by
  induction width generalizing m n with
  | zero =>
    have hmn : m = n := by
      rw [Nat.pow_zero] at hm hn
      omega
    rw [hmn, Std.compare_self, Std.compare_self]
  | succ width ih =>
    rw [Nat.pow_succ] at hm hn
    have hl : (ofNat width (m / 256)).length = (ofNat width (n / 256)).length := by
      rw [length_ofNat, length_ofNat]
    rw [ofNat, ofNat, compare_append hl, ih (by omega) (by omega), compare_singleton, UInt8.toNat_ofNat',
      UInt8.toNat_ofNat', compare_div_mod]

theorem ofNat_toNat (bs : Bytes) : ofNat bs.length (toNat bs) = bs := by
  induction bs using List.reverseRecOn with
  | nil => rfl
  | append_singleton bs b ih =>
    have hb := b.toNat_lt
    have hdiv : (toNat bs * 256 + b.toNat) / 256 = toNat bs := by omega
    have hlast : UInt8.ofNat (toNat bs * 256 + b.toNat) = b := by
      apply UInt8.toNat_inj.mp
      rw [UInt8.toNat_ofNat']
      omega
    rw [List.length_append, List.length_singleton, toNat_append_singleton, ofNat, hdiv, hlast, ih]

theorem word_toNat {bs : Bytes} (h : bs.length = 4) : word (toNat bs) = bs := by
  rw [word, ← h, ofNat_toNat]

theorem toNat_lt {bs : Bytes} (h : bs.length = 4) : toNat bs < UInt32.size := by
  have hmod := toNat_ofNat 4 (toNat bs)
  rw [← word, word_toNat h] at hmod
  rw [hmod]
  exact Nat.mod_lt _ (by decide)

def Lower (as bs : Bytes) : Prop :=
  ∃ front a b as' bs', as = front ++ a :: as' ∧ bs = front ++ b :: bs' ∧ a < b

theorem lower_cons_iff {a b : UInt8} {as bs : Bytes} : Lower (a :: as) (b :: bs) ↔ a < b ∨ a = b ∧ Lower as bs := by
  constructor
  · rintro ⟨front, x, y, as', bs', has, hbs, hlt⟩
    cases front with
    | nil =>
      cases has
      cases hbs
      exact .inl hlt
    | cons c front =>
      cases has
      cases hbs
      exact .inr ⟨rfl, front, x, y, as', bs', rfl, rfl, hlt⟩
  · rintro (hlt | ⟨rfl, front, x, y, as', bs', rfl, rfl, hlt⟩)
    · exact ⟨[], a, b, as, bs, rfl, rfl, hlt⟩
    · exact ⟨a :: front, x, y, as', bs', rfl, rfl, hlt⟩

theorem compare_eq_lt_iff_lower {as bs : Bytes} (h : as.length = bs.length) : compare as bs = .lt ↔ Lower as bs := by
  induction as generalizing bs with
  | nil =>
    cases List.eq_nil_of_length_eq_zero h.symm
    refine iff_of_false (by rw [List.compare_nil_nil]; nofun) ?_
    rintro ⟨front, a, b, as', bs', hnil, -⟩
    exact List.append_ne_nil_of_right_ne_nil front (List.cons_ne_nil a as') hnil.symm
  | cons a as ih =>
    cases bs with
    | nil => cases h
    | cons b bs =>
      rw [List.compare_cons_cons, Ordering.then_eq_lt, ih (Nat.succ.inj h), lower_cons_iff,
        Std.compare_eq_iff_eq, compare_toNat, Nat.compare_eq_lt, UInt8.lt_iff_toNat_lt]

end Bytes

namespace StateRef

theorem compare_index (m n : UInt32) : compare m n = compare m.toNat n.toNat := by
  change compareOfLessAndEq m n = compareOfLessAndEq m.toNat n.toNat
  simp only [compareOfLessAndEq, UInt32.lt_iff_toNat_lt, ← UInt32.toNat_inj]

theorem compare_key (a b : StateRef) : compare a.key b.key = compare a b := by
  have hl : a.tx.bytes.length = b.tx.bytes.length := by
    rw [a.tx.length_bytes, b.tx.length_bytes]
  have hw : compare (Bytes.word a.index.toNat) (Bytes.word b.index.toNat) = compare a.index b.index := by
    rw [compare_index]
    exact Bytes.compare_ofNat a.index.toNat_lt b.index.toNat_lt
  rw [key, key, Bytes.compare_append hl, hw, compare_eq, Digest.compare_eq_compare_bytes]

theorem ofKey?_key (r : StateRef) : ofKey? r.key = some r := by
  have ht : r.key.take 32 = r.tx.bytes := by
    rw [key, ← r.tx.length_bytes, List.take_left]
  have hd : r.key.drop 32 = Bytes.word r.index.toNat := by
    rw [key, ← r.tx.length_bytes, List.drop_left]
  have hi : UInt32.ofNat (Bytes.toNat (Bytes.word r.index.toNat)) = r.index := by
    rw [Bytes.word, Bytes.toNat_ofNat, Nat.mod_eq_of_lt r.index.toNat_lt, UInt32.ofNat_toNat]
  have hof : Digest.ofBytes? r.tx.bytes = some r.tx := dif_pos r.tx.length_bytes
  have hl : (Bytes.word r.index.toNat).length = 4 := Bytes.length_ofNat 4 _
  rw [ofKey?, ht, hd, hof]
  simp only [hl, if_true, hi]

theorem length_key (r : StateRef) : r.key.length = 36 := by
  rw [key, List.length_append, r.tx.length_bytes, Bytes.word, Bytes.length_ofNat]

theorem exists_key {k : Bytes} (h : k.length = 36) : ∃ r : StateRef, r.key = k := by
  have htake : (k.take 32).length = 32 := by
    rw [List.length_take, h]
    rfl
  have hdrop : (k.drop 32).length = 4 := by rw [List.length_drop, h]
  have hindex : (UInt32.ofNat (Bytes.toNat (k.drop 32))).toNat = Bytes.toNat (k.drop 32) :=
    UInt32.toNat_ofNat_of_lt' (Bytes.toNat_lt hdrop)
  refine ⟨⟨⟨k.take 32, htake⟩, UInt32.ofNat (Bytes.toNat (k.drop 32))⟩, ?_⟩
  rw [key, hindex, Bytes.word_toNat hdrop, List.take_append_drop]

theorem length_of_ofKey? {k : Bytes} {r : StateRef} (h : ofKey? k = some r) : k.length = 36 := by
  rw [ofKey?] at h
  split at h
  case h_1 => cases h
  case h_2 tx htx =>
    split at h
    case isTrue hdrop =>
      rw [List.length_drop] at hdrop
      omega
    case isFalse => cases h

theorem ofKey?_eq_some_iff {k : Bytes} {r : StateRef} : ofKey? k = some r ↔ r.key = k := by
  constructor
  · intro h
    obtain ⟨r', rfl⟩ := exists_key (length_of_ofKey? h)
    rw [ofKey?_key] at h
    rw [Option.some.inj h]
  · rintro rfl
    exact ofKey?_key r

theorem isSome_ofKey?_iff {k : Bytes} : (ofKey? k).isSome = true ↔ k.length = 36 := by
  rw [Option.isSome_iff_exists]
  constructor
  · rintro ⟨r, h⟩
    exact length_of_ofKey? h
  · intro h
    obtain ⟨r, rfl⟩ := exists_key h
    exact ⟨r, ofKey?_key r⟩

theorem isLE_total (a b : StateRef) : ((compare a b).isLE || (compare b a).isLE) = true := by
  rw [← Std.OrientedCmp.isGE_eq_isLE]
  cases compare b a <;> rfl

theorem sorted_iff {rs sorted : List StateRef} :
    (sorted.Perm rs ∧ sorted.Pairwise fun a b => (compare a b).isLE = true) ↔
      sorted = rs.mergeSort fun a b => (compare a b).isLE := by
  have hperm := rs.mergeSort_perm fun a b => (compare a b).isLE
  have hsorted : (rs.mergeSort fun a b => (compare a b).isLE).Pairwise fun a b => (compare a b).isLE = true :=
    List.pairwise_mergeSort (fun _ _ _ => Std.TransCmp.isLE_trans) isLE_total rs
  constructor
  · rintro ⟨hp, hs⟩
    refine List.Perm.eq_of_pairwise ?_ hs hsorted (hp.trans hperm.symm)
    intro a b _ _ hab hba
    exact Std.LawfulEqCmp.eq_of_compare (Std.OrientedCmp.isLE_antisymm hab hba)
  · rintro rfl
    exact ⟨hperm, hsorted⟩

/-- The keys of states are all the strings of as many bytes, and are in the order of the states: by their digests,
and for one digest by their positions. So it does not matter by which of the two orders states are sorted. -/
theorem keys_are_ordered_as_states :
    (∀ a b : StateRef, compare a b = (compare a.tx.bytes b.tx.bytes).then (compare a.index.toNat b.index.toNat) ∧
      compare a b = compare a.key b.key ∧ (compare a b = .lt ↔ Bytes.Lower a.key b.key)) ∧
    (∀ a : StateRef, ofKey? a.key = some a) ∧
    (∀ k : Bytes, ((ofKey? k).isSome = true ↔ k.length = 36) ∧ ∀ r, ofKey? k = some r ↔ r.key = k) ∧
    ∀ rs sorted : List StateRef,
      ((sorted.Perm rs ∧ sorted.Pairwise fun a b => (compare a b).isLE = true) ↔
        sorted = rs.mergeSort fun a b => (compare a.key b.key).isLE) ∧
      (rs.mergeSort fun a b => (compare a b).isLE).map key =
        (rs.map key).mergeSort fun k l => (compare k l).isLE := by
  refine ⟨?_, ofKey?_key, fun k => ⟨isSome_ofKey?_iff, fun r => ofKey?_eq_some_iff⟩, ?_⟩
  · intro a b
    have hl : a.key.length = b.key.length := by rw [length_key, length_key]
    refine ⟨?_, (compare_key a b).symm, ?_⟩
    · rw [compare_eq, Digest.compare_eq_compare_bytes, compare_index]
    · rw [← compare_key, Bytes.compare_eq_lt_iff_lower hl]
  · intro rs sorted
    refine ⟨?_, List.map_mergeSort fun a _ b _ => by rw [compare_key]⟩
    simp only [compare_key]
    exact sorted_iff

end StateRef

end Uniqueness
