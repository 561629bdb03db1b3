import Mathlib
import Uniqueness.Proofs.RequestCourses

namespace Uniqueness.Client

open Cluster (Network)

namespace RetryPolicy

theorem toNat_ite_le {α : Type} [LE α] [DecidableLE α] {f : α → Nat} (h : ∀ {a b : α}, a ≤ b ↔ f a ≤ f b) (a b : α) :
    f (if a ≤ b then a else b) = min (f a) (f b) := by
  split
  case isTrue hle => exact (Nat.min_eq_left (h.mp hle)).symm
  case isFalse hle => exact (Nat.min_eq_right (Nat.le_of_not_le fun hab => hle (h.mpr hab))).symm

theorem toNat_doublings (n : UInt32) : (doublings n).toNat = min (max n.toNat 1 - 1) 16 := by
  have hpred : (if n = 0 then 0 else n - 1).toNat = max n.toNat 1 - 1 := by
    split
    case isTrue h =>
      subst h
      rfl
    case isFalse h =>
      have hpos : 1 ≤ n.toNat := Nat.one_le_iff_ne_zero.mpr fun hn => h (UInt32.toNat_inj.mp hn)
      have hle : (1 : UInt32) ≤ n := UInt32.le_iff_toNat_le.mpr hpos
      rw [UInt32.toNat_sub_of_le _ _ hle, Nat.max_eq_left hpos]
      rfl
  rw [← hpred]
  exact toNat_ite_le UInt32.le_iff_toNat_le _ maxDoublings

theorem toNat_factor (n : UInt32) : (factor n).toNat = 2 ^ (doublings n).toNat := by
  have hle : (doublings n).toNat ≤ 16 := by
    rw [toNat_doublings]
    exact Nat.min_le_right _ _
  have hpow : 2 ^ (doublings n).toNat ≤ 2 ^ 16 := Nat.pow_le_pow_right (by decide) hle
  have hbits : (doublings n).toNat % 64 = (doublings n).toNat := Nat.mod_eq_of_lt (by omega)
  rw [factor, UInt64.toNat_shiftLeft, UInt32.toNat_toUInt64, hbits, UInt64.toNat_one, Nat.one_shiftLeft]
  exact Nat.mod_eq_of_lt (by omega)

theorem toNat_cappedMul (a b : UInt64) : (cappedMul a b).toNat = min (a.toNat * b.toNat) (UInt64.size - 1) := by
  rw [cappedMul]
  split
  case isTrue h =>
    rw [UInt64.toNat_mul, Nat.mod_eq_of_lt h]
    exact (Nat.min_eq_left (Nat.le_sub_one_of_lt h)).symm
  case isFalse h =>
    rw [UInt64.toNat_ofNat_of_lt' (by decide)]
    exact (Nat.min_eq_right (by omega)).symm

theorem toNat_backoff (p : RetryPolicy) (n : UInt32) : (p.backoff n).toNat =
    min (p.initialBackoff.toNat * 2 ^ min (max n.toNat 1 - 1) 16) p.maxBackoff.toNat := by
  have hmax : p.maxBackoff.toNat ≤ UInt64.size - 1 := Nat.le_sub_one_of_lt p.maxBackoff.toNat_lt
  have hmin : (p.backoff n).toNat = min (cappedMul p.initialBackoff (factor n)).toNat p.maxBackoff.toNat :=
    toNat_ite_le UInt64.le_iff_toNat_le _ _
  rw [hmin, toNat_cappedMul, toNat_factor, toNat_doublings, Nat.min_assoc, Nat.min_eq_right hmax]

theorem backoff_le (p : RetryPolicy) (n : UInt32) : p.backoff n ≤ p.maxBackoff := by
  rw [UInt64.le_iff_toNat_le, toNat_backoff]
  exact Nat.min_le_right _ _

theorem backoff_mono (p : RetryPolicy) {m n : UInt32} (h : m ≤ n) : p.backoff m ≤ p.backoff n := by
  have hmn : m.toNat ≤ n.toNat := UInt32.le_iff_toNat_le.mp h
  have hdoublings : min (max m.toNat 1 - 1) 16 ≤ min (max n.toNat 1 - 1) 16 := by omega
  rw [UInt64.le_iff_toNat_le, toNat_backoff, toNat_backoff]
  exact min_le_min_right _ (Nat.mul_le_mul_left _ (Nat.pow_le_pow_right (by decide) hdoublings))

end RetryPolicy

section Request

variable {σ : Type} {net : Network σ} {c : Client} {command : Command} {w : σ}

theorem Course.sum_waits_le (s : Course net command c w) (start n : Nat) :
    ((s.waits start n).map UInt64.toNat).sum ≤ n * c.policy.maxBackoff.toNat := by
  have hlength : (s.waits start n).length ≤ n := by
    rw [waits, List.length_map]
    exact (List.length_filter_le _ _).trans_eq List.length_range'
  have hmem : ∀ t ∈ (s.waits start n).map UInt64.toNat, t ≤ c.policy.maxBackoff.toNat := by
    intro t ht
    obtain ⟨wait, hwait, rfl⟩ := List.mem_map.mp ht
    obtain ⟨i, -, rfl⟩ := List.mem_map.mp hwait
    exact UInt64.le_iff_toNat_le.mp (c.policy.backoff_le _)
  have hsum := List.sum_le_card_nsmul _ _ hmem
  rw [List.length_map, Nat.nsmul_eq_mul] at hsum
  exact hsum.trans (Nat.mul_le_mul_right _ hlength)

variable (net c command w)

theorem length_targets_le :
    (c.execute net command w).targets.length ≤ max 1 c.policy.maxAttempts.toNat := by
  obtain ⟨s, k, hends, hrun⟩ := c.exists_run net command w
  rw [hrun, Course.run, List.length_map, List.length_range']
  exact hends.within

theorem sum_waits_le :
    ((c.execute net command w).waits.map UInt64.toNat).sum ≤
      ((c.execute net command w).targets.length - 1) * c.policy.maxBackoff.toNat := by
  obtain ⟨s, k, -, hrun⟩ := c.exists_run net command w
  rw [hrun, Course.run, List.length_map, List.length_range']
  exact s.sum_waits_le 0 k

end Request

/-- A wait is the first one doubled for each earlier attempt, sixteen times at most, and bounded by the longest
wait: neither the shift nor the product leaves the word, or the bound hides it. Waits do not become shorter, and
those of one request add up to no more than the longest for each attempt after the first. -/
theorem waits_are_exact :
    (∀ (p : RetryPolicy) (n : UInt32),
      (RetryPolicy.doublings n).toNat = min (max n.toNat 1 - 1) 16 ∧
      (RetryPolicy.factor n).toNat = 2 ^ (RetryPolicy.doublings n).toNat ∧
      (RetryPolicy.cappedMul p.initialBackoff (RetryPolicy.factor n)).toNat =
        min (p.initialBackoff.toNat * 2 ^ (RetryPolicy.doublings n).toNat) (2 ^ 64 - 1) ∧
      (p.backoff n).toNat =
        min (p.initialBackoff.toNat * 2 ^ min (max n.toNat 1 - 1) 16) p.maxBackoff.toNat ∧
      p.backoff n ≤ p.maxBackoff) ∧
    (∀ (p : RetryPolicy) (m n : UInt32), m ≤ n → p.backoff m ≤ p.backoff n) ∧
    ∀ (σ : Type) (net : Network σ) (c : Client) (command : Command) (w : σ),
      (c.execute net command w).targets.length ≤ max 1 c.policy.maxAttempts.toNat ∧
      ((c.execute net command w).waits.map UInt64.toNat).sum ≤
        ((c.execute net command w).targets.length - 1) * c.policy.maxBackoff.toNat := by
  refine ⟨?_, fun p m n h => p.backoff_mono h, fun σ net c command w =>
    ⟨length_targets_le net c command w, sum_waits_le net c command w⟩⟩
  intro p n
  refine ⟨RetryPolicy.toNat_doublings n, RetryPolicy.toNat_factor n, ?_, p.toNat_backoff n, p.backoff_le n⟩
  rw [RetryPolicy.toNat_cappedMul, RetryPolicy.toNat_factor]
  rfl

def RetryPolicy.steep : RetryPolicy :=
  ⟨4, 9223372036854775808, 18446744073709551615⟩

theorem steep_waits_do_not_fall :
    (1 : UInt32) ≤ 4 ∧ RetryPolicy.steep.backoff 1 ≤ RetryPolicy.steep.backoff 4 ∧
      (RetryPolicy.steep.backoff 4).toNat = 2 ^ 64 - 1 := by
  have h : (1 : UInt32) ≤ 4 := by decide
  exact ⟨h, waits_are_exact.2.1 RetryPolicy.steep 1 4 h, by decide⟩

end Uniqueness.Client
