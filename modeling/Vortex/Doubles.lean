import Mathlib.Data.Int.Log
import Mathlib.Data.Rat.Floor
import Mathlib.Tactic.Linarith

/-!
# Doubles

Reading a non-negative number as a double: the nearest one, ties to even, and
infinity from halfway between the largest one and the next power of two on.
What is read as itself is an integer of at most 53 bits times a power of two.
-/

namespace Binary64

/-- Halfway between the largest double and the next power of two. -/
def limit : ℚ := 2 ^ 1024 - 2 ^ 970

/-- The distance of the doubles around a number. -/
def spacing (v : ℚ) : ℚ := 2 ^ (max (Int.log 2 v) (-1022) - 52)

def nearest (v : ℚ) : ℚ :=
  let k := ⌊v / spacing v⌋
  let r := v / spacing v - k
  (if r < 1 / 2 ∨ (r = 1 / 2 ∧ k % 2 = 0) then k else k + 1 : ℤ) * spacing v

/-- Nothing where the double is infinite. -/
def read (v : ℚ) : Option ℚ := if limit ≤ v then none else some (nearest v)

/-- A double, but for the limit. -/
def IsDouble (v : ℚ) : Prop := ∃ (m : ℕ) (e : ℤ), m ≤ 2 ^ 53 ∧ -1074 ≤ e ∧ v = m * 2 ^ e

section
variable {v : ℚ}

theorem spacing_pos (v : ℚ) : 0 < spacing v := zpow_pos two_pos _

theorem lt_spacing (v : ℚ) : v < 2 ^ 53 * spacing v := by
  have hlog : v < 2 ^ (Int.log 2 v + 1) := Int.lt_zpow_succ_log_self one_lt_two v
  have hle : (2 : ℚ) ^ (Int.log 2 v + 1) ≤ 2 ^ (53 + (max (Int.log 2 v) (-1022) - 52)) :=
    zpow_le_zpow_right₀ one_le_two (by omega)
  rw [zpow_add₀ two_ne_zero 53] at hle
  exact hlog.trans_le hle

theorem nearest_of_multiple {k : ℤ} (h : v = k * spacing v) : nearest v = v := by
  have hdiv : v / spacing v = k := (div_eq_iff (spacing_pos v).ne').mpr h
  rw [nearest, hdiv, Int.floor_intCast, sub_self, if_pos (.inl one_half_pos), ← h]

/-- Among multiples of a power of two no finer one is a multiple of the spacing. -/
theorem multiple_of_spacing_le {m : ℕ} {e : ℤ} (h : max (Int.log 2 ((m : ℚ) * 2 ^ e)) (-1022) - 52 ≤ e) :
    ∃ k : ℤ, (m : ℚ) * 2 ^ e = k * spacing (m * 2 ^ e) := by
  set s : ℤ := max (Int.log 2 ((m : ℚ) * 2 ^ e)) (-1022) - 52 with hs
  refine ⟨m * 2 ^ (e - s).toNat, ?_⟩
  have hexp : (2 : ℚ) ^ e = 2 ^ (e - s).toNat * 2 ^ s := by
    rw [← zpow_natCast, Int.toNat_of_nonneg (by omega), ← zpow_add₀ two_ne_zero, sub_add_cancel]
  rw [spacing, ← hs, hexp]
  push_cast
  ring

theorem multiple_of_isDouble (h : IsDouble v) : ∃ k : ℤ, v = k * spacing v := by
  obtain ⟨m, e, hm, he, rfl⟩ := h
  rcases Nat.eq_zero_or_pos m with rfl | hpos
  · exact ⟨0, by simp⟩
  rcases hm.lt_or_eq with hlt | rfl
  · apply multiple_of_spacing_le
    have hv : 0 < (m : ℚ) * 2 ^ e := mul_pos (Nat.cast_pos.mpr hpos) (zpow_pos two_pos e)
    have hlog : (2 : ℚ) ^ Int.log 2 ((m : ℚ) * 2 ^ e) ≤ m * 2 ^ e := Int.zpow_log_le_self one_lt_two hv
    have hlim : (m : ℚ) * 2 ^ e < 2 ^ (53 + e) := by
      rw [zpow_add₀ two_ne_zero]
      exact mul_lt_mul_of_pos_right (mod_cast hlt) (zpow_pos two_pos e)
    have := (zpow_lt_zpow_iff_right₀ one_lt_two).mp (hlog.trans_lt hlim)
    omega
  · -- the next power of two, as 2 ^ 52 times the next exponent
    have hnext : ((2 ^ 53 : ℕ) : ℚ) * 2 ^ e = ((2 ^ 52 : ℕ) : ℚ) * 2 ^ (e + 1) := by
      rw [zpow_add_one₀ two_ne_zero]
      push_cast
      ring
    rw [hnext]
    apply multiple_of_spacing_le
    have hpow : ((2 ^ 52 : ℕ) : ℚ) * 2 ^ (e + 1) = ((2 : ℕ) : ℚ) ^ (52 + (e + 1)) := by
      rw [Nat.cast_two, zpow_add₀ two_ne_zero 52, Nat.cast_pow, Nat.cast_two, ← zpow_natCast]
      rfl
    rw [hpow, Int.log_zpow one_lt_two]
    omega

/-- A whole number of spacings, between the two that enclose the number. -/
theorem nearest_multiple (hv : 0 ≤ v) : ∃ k : ℕ, nearest v = k * spacing v ∧ k ≤ 2 ^ 53 ∧ ⌊v / spacing v⌋ ≤ k := by
  have hfloor : 0 ≤ ⌊v / spacing v⌋ := Int.floor_nonneg.mpr (div_nonneg hv (spacing_pos v).le)
  have hlt : ⌊v / spacing v⌋ < 2 ^ 53 := by
    rw [Int.floor_lt, div_lt_iff₀ (spacing_pos v)]
    exact_mod_cast lt_spacing v
  obtain ⟨n, hn⟩ := Int.eq_ofNat_of_zero_le hfloor
  rw [nearest, hn]
  rw [hn] at hlt
  split
  · exact ⟨n, by simp, by omega, by omega⟩
  · exact ⟨n + 1, by simp, by omega, by omega⟩

theorem isDouble_nearest (hv : 0 ≤ v) : IsDouble (nearest v) := by
  obtain ⟨k, hk, hle, -⟩ := nearest_multiple hv
  exact ⟨k, _, hle, by omega, hk⟩

theorem nearest_eq_self_iff (hv : 0 ≤ v) : nearest v = v ↔ IsDouble v := by
  constructor
  · intro h
    rw [← h]
    exact isDouble_nearest hv
  · intro h
    obtain ⟨k, hk⟩ := multiple_of_isDouble h
    exact nearest_of_multiple hk

theorem read_eq_self_iff (hv : 0 ≤ v) : read v = some v ↔ v < limit ∧ IsDouble v := by
  rw [read]
  split
  · rename_i h
    simp [h.not_gt]
  · rename_i h
    rw [Option.some.injEq, nearest_eq_self_iff hv, and_iff_right (not_le.mp h)]

theorem eq_nearest_of_read {u : ℚ} (h : read u = some v) : v = nearest u := by
  rw [read] at h
  split at h
  · cases h
  · exact (Option.some.inj h).symm

theorem nearest_nonneg (hv : 0 ≤ v) : 0 ≤ nearest v := by
  obtain ⟨k, hk, -⟩ := nearest_multiple hv
  rw [hk]
  exact mul_nonneg (Nat.cast_nonneg k) (spacing_pos v).le

/-- Rounding stays above a power of two. -/
theorem pow_le_nearest {n : ℕ} (h : 2 ^ n ≤ v) : 2 ^ n ≤ nearest v := by
  have hv : 0 < v := (pow_pos two_pos n).trans_le h
  obtain ⟨k, hk, -, hfloor⟩ := nearest_multiple hv.le
  have hn : (n : ℤ) ≤ Int.log 2 v := by
    rw [← Int.zpow_le_iff_le_log one_lt_two hv]
    exact_mod_cast h
  have hspacing : 2 ^ 52 * spacing v = 2 ^ Int.log 2 v := by
    have hexp : max (Int.log 2 v) (-1022) - 52 = Int.log 2 v - 52 := by omega
    rw [spacing, hexp, zpow_sub₀ two_ne_zero]
    exact mul_div_cancel₀ _ (by norm_num)
  have hwhole : (2 ^ 52 : ℤ) ≤ ⌊v / spacing v⌋ := by
    have hlog : 2 ^ 52 * spacing v ≤ v := by
      rw [hspacing]
      exact Int.zpow_log_le_self one_lt_two hv
    rw [Int.le_floor, le_div_iff₀ (spacing_pos v)]
    exact_mod_cast hlog
  have hk52 : (2 ^ 52 : ℚ) ≤ k := by
    have : 2 ^ 52 ≤ k := by omega
    exact_mod_cast this
  calc (2 : ℚ) ^ n ≤ 2 ^ Int.log 2 v := by
        rw [← zpow_natCast]
        exact zpow_le_zpow_right₀ one_le_two hn
    _ = 2 ^ 52 * spacing v := hspacing.symm
    _ ≤ k * spacing v := mul_le_mul_of_nonneg_right hk52 (spacing_pos v).le
    _ = nearest v := hk.symm

end

/-! ## Whole numbers -/

theorem isDouble_nat_iff {n : ℕ} : IsDouble n ↔ ∃ m k : ℕ, m ≤ 2 ^ 53 ∧ n = m * 2 ^ k := by
  constructor
  · rintro ⟨m, e, hm, -, h⟩
    obtain ⟨k, rfl | rfl⟩ := e.eq_nat_or_neg
    · exact ⟨m, k, hm, by exact_mod_cast h⟩
    · -- a fraction of at most 53 bits
      rw [zpow_neg, zpow_natCast, ← div_eq_mul_inv, eq_div_iff (pow_pos two_pos k).ne'] at h
      have hm' : n * 2 ^ k = m := by exact_mod_cast h
      refine ⟨n, 0, le_trans ?_ hm, by simp⟩
      rw [← hm']
      exact Nat.le_mul_of_pos_right n (Nat.two_pow_pos k)
  · rintro ⟨m, k, hm, rfl⟩
    exact ⟨m, k, hm, by omega, by push_cast; rw [zpow_natCast]⟩

/-- A double without its last bits. -/
theorem IsDouble.div_pow {n : ℕ} (h : IsDouble n) (j : ℕ) : IsDouble ((n / 2 ^ j : ℕ) : ℚ) := by
  obtain ⟨m, k, hm, rfl⟩ := isDouble_nat_iff.mp h
  rw [isDouble_nat_iff]
  rcases Nat.le_total j k with hle | hle
  · refine ⟨m, k - j, hm, ?_⟩
    rw [Nat.mul_div_assoc _ (Nat.pow_dvd_pow 2 hle), Nat.pow_div hle two_pos]
  · refine ⟨m * 2 ^ k / 2 ^ j, 0, le_trans ?_ hm, by simp⟩
    exact Nat.div_le_of_le_mul (by rw [Nat.mul_comm]; exact Nat.mul_le_mul_right m (Nat.pow_le_pow_right two_pos hle))

end Binary64
