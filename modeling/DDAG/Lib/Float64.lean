import Mathlib.Data.Int.Log
import Mathlib.Data.Rat.Floor
import Mathlib.Tactic.FieldSimp
import Mathlib.Tactic.Linarith

/-!
# Rounding to 64-bit floating point

A finite floating-point number is the rational number it stands for.
`round64` rounds a rational number to the nearest number with a significand of
53 bits, ties to the even one.  Numbers too small or too large for the exponent
of a 64-bit float are out of scope: the program only rounds integers of 64 bits
and their quotients.

`ofRat` gives the bits of the rounded number and `value` the number some bits
stand for (`value_ofRat`).  An integer is not rounded exactly if it has at most 53
significant bits (`round64_eq_iff`), and a rounded integer is one
(`exists_exact_round64`).
-/

namespace Float64

/-- The nearest integer, ties to the even one. -/
def nearestEven (x : ℚ) : ℤ :=
  let low := ⌊x⌋
  if x - low < 1 / 2 then low
  else if 1 / 2 < x - low then low + 1
  else if low % 2 = 0 then low
  else low + 1

/-- The unit in the last place of a number with 53 significant bits. -/
def unit (x : ℚ) : ℚ := 2 ^ (Int.log 2 |x| - 52)

/-- The nearest floating-point number. -/
def round64 (x : ℚ) : ℚ := if x = 0 then 0 else nearestEven (x / unit x) * unit x

/-! ## The nearest integer -/

theorem nearestEven_cases (x : ℚ) : nearestEven x = ⌊x⌋ ∨ nearestEven x = ⌊x⌋ + 1 ∧ (⌊x⌋ : ℚ) < x := by
  unfold nearestEven
  dsimp only
  split_ifs with hlow hhigh heven
  · exact .inl rfl
  · exact .inr ⟨rfl, by linarith⟩
  · exact .inl rfl
  · exact .inr ⟨rfl, by linarith⟩

theorem nearestEven_intCast (n : ℤ) : nearestEven n = n := by
  simp [nearestEven]

/-- Rounding does not cross an integer. -/
theorem nearestEven_le {x : ℚ} {n : ℤ} (h : x ≤ n) : nearestEven x ≤ n := by
  have hfloor : ⌊x⌋ ≤ n := Int.cast_le.mp ((Int.floor_le x).trans h)
  rcases nearestEven_cases x with heq | ⟨heq, hlt⟩
  · omega
  · have : (⌊x⌋ : ℚ) < n := hlt.trans_le h
    have : ⌊x⌋ < n := Int.cast_lt.mp this
    omega

theorem le_nearestEven {x : ℚ} {n : ℤ} (h : (n : ℚ) ≤ x) : n ≤ nearestEven x := by
  have hfloor : n ≤ ⌊x⌋ := Int.le_floor.mpr h
  rcases nearestEven_cases x with heq | ⟨heq, _⟩ <;> omega

/-! ## Significands -/

theorem unit_pos (x : ℚ) : 0 < unit x := zpow_pos (by norm_num) _

/-- A number in its unit has 53 binary digits before the point. -/
theorem abs_div_unit {x : ℚ} (hx : x ≠ 0) : 2 ^ 52 ≤ |x / unit x| ∧ |x / unit x| < 2 ^ 53 := by
  have hpos : 0 < |x| := abs_pos.mpr hx
  have hlow := Int.zpow_log_le_self (b := 2) (by norm_num) hpos
  have hhigh := Int.lt_zpow_succ_log_self (b := 2) (by norm_num) |x|
  have hunit := unit_pos x
  rw [abs_div, abs_of_pos hunit, le_div_iff₀ hunit, div_lt_iff₀ hunit]
  have h52 : (2 : ℚ) ^ 52 * unit x = 2 ^ Int.log 2 |x| := by
    rw [unit, ← zpow_natCast, ← zpow_add₀ (by norm_num)]
    congr 1
    push_cast
    ring
  have h53 : (2 : ℚ) ^ 53 * unit x = 2 ^ (Int.log 2 |x| + 1) := by
    rw [unit, ← zpow_natCast, ← zpow_add₀ (by norm_num)]
    congr 1
    push_cast
    ring
  rw [h52, h53]
  exact ⟨by exact_mod_cast hlow, by exact_mod_cast hhigh⟩

/-- The significand of a rounded number, in units. -/
def significand (x : ℚ) : ℤ := nearestEven (x / unit x)

theorem natAbs_significand {x : ℚ} (hx : x ≠ 0) :
    2 ^ 52 ≤ (significand x).natAbs ∧ (significand x).natAbs ≤ 2 ^ 53 := by
  obtain ⟨hlow, hhigh⟩ := abs_div_unit hx
  unfold significand
  rcases le_total 0 (x / unit x) with hpos | hneg
  · rw [abs_of_nonneg hpos] at hlow hhigh
    have h52 := le_nearestEven (n := 2 ^ 52) (by exact_mod_cast hlow)
    have h53 := nearestEven_le (n := 2 ^ 53) (by exact_mod_cast hhigh.le)
    omega
  · rw [abs_of_nonpos hneg] at hlow hhigh
    have h52 := nearestEven_le (x := x / unit x) (n := -2 ^ 52) (by push_cast; linarith)
    have h53 := le_nearestEven (x := x / unit x) (n := -2 ^ 53) (by push_cast; linarith)
    omega

/-- The sign of a number is the sign of its significand. -/
theorem significand_eq (x : ℚ) :
    ((significand x : ℤ) : ℚ) = (if x < 0 then -1 else 1) * ((significand x).natAbs : ℚ) := by
  have hunit := unit_pos x
  have hcast : (((significand x).natAbs : ℤ) : ℚ) = |((significand x : ℤ) : ℚ)| := by
    rw [Int.natCast_natAbs, Int.cast_abs]
  rw [← Int.cast_natCast, hcast]
  split
  next hneg =>
    have h : significand x ≤ 0 :=
      nearestEven_le (by rw [Int.cast_zero]; exact (div_neg_of_neg_of_pos hneg hunit).le)
    rw [abs_of_nonpos (by exact_mod_cast h)]
    ring
  next hpos =>
    have h : 0 ≤ significand x :=
      le_nearestEven (by rw [Int.cast_zero]; exact div_nonneg (not_lt.mp hpos) hunit.le)
    rw [abs_of_nonneg (by exact_mod_cast h), one_mul]

/-! ## Bits -/

/-- The number the bits of a finite float stand for. -/
def value (bits : UInt64) : Option ℚ :=
  let b : ℕ := bits.toNat
  let exponent : ℕ := b / 2 ^ 52 % 2 ^ 11
  let fraction : ℕ := b % 2 ^ 52
  let sign : ℚ := if b < 2 ^ 63 then 1 else -1
  if exponent = 2047 then none
  else if exponent = 0 then some (sign * fraction * 2 ^ (-1074 : ℤ))
  else some (sign * ((2 ^ 52 + fraction : ℕ) : ℚ) * 2 ^ ((exponent : ℤ) - 1075))

/-- The bits of the nearest float, for a number with the exponent of a normal one.
The significand carries into the exponent when it is rounded up to a power of
two. -/
def ofRat (x : ℚ) : UInt64 :=
  if x = 0 then 0
  else
    .ofNat ((if x < 0 then 2 ^ 63 else 0) + (Int.log 2 |x| + 1022).toNat * 2 ^ 52 +
      (significand x).natAbs)

theorem value_ofNat {neg : Prop} [Decidable neg] {e m : ℕ} (he : e ≤ 2044) (hlow : 2 ^ 52 ≤ m) (hhigh : m ≤ 2 ^ 53) :
    value (.ofNat ((if neg then 2 ^ 63 else 0) + e * 2 ^ 52 + m)) =
      some ((if neg then -1 else 1) * (m : ℚ) * 2 ^ ((e : ℤ) - 1074)) := by
  have hsize : (if neg then 2 ^ 63 else 0) + e * 2 ^ 52 + m < 2 ^ 64 := by split <;> omega
  have hb : (UInt64.ofNat ((if neg then 2 ^ 63 else 0) + e * 2 ^ 52 + m)).toNat =
      (if neg then 2 ^ 63 else 0) + e * 2 ^ 52 + m := by
    rw [UInt64.toNat_ofNat']
    exact Nat.mod_eq_of_lt hsize
  unfold value
  simp only [hb]
  have hsign : (if (if neg then 2 ^ 63 else 0) + e * 2 ^ 52 + m < 2 ^ 63 then (1 : ℚ) else -1) =
      if neg then -1 else 1 := by
    by_cases hneg : neg
    · rw [if_pos hneg, if_pos hneg, if_neg (by omega)]
    · rw [if_neg hneg, if_neg hneg, if_pos (by omega)]
  rw [hsign]
  rcases Nat.lt_or_eq_of_le hhigh with hlt | rfl
  · have hexp : ((if neg then 2 ^ 63 else 0) + e * 2 ^ 52 + m) / 2 ^ 52 % 2 ^ 11 = e + 1 := by
      split <;> omega
    have hfrac : 2 ^ 52 + ((if neg then 2 ^ 63 else 0) + e * 2 ^ 52 + m) % 2 ^ 52 = m := by
      split <;> omega
    rw [hexp, hfrac, if_neg (by omega), if_neg (by omega)]
    congr 3
    push_cast
    ring
  · -- the significand is rounded up to the next power of two
    have hexp : ((if neg then 2 ^ 63 else 0) + e * 2 ^ 52 + 2 ^ 53) / 2 ^ 52 % 2 ^ 11 = e + 2 := by
      split <;> omega
    have hfrac : 2 ^ 52 + ((if neg then 2 ^ 63 else 0) + e * 2 ^ 52 + 2 ^ 53) % 2 ^ 52 = 2 ^ 52 := by
      split <;> omega
    rw [hexp, hfrac, if_neg (by omega), if_neg (by omega)]
    have hadd : ((e + 2 : ℕ) : ℤ) - 1075 = 1 + ((e : ℤ) - 1074) := by
      push_cast
      ring
    rw [hadd, zpow_one_add₀ (by norm_num)]
    refine congrArg some ?_
    push_cast
    ring

/-- The bits stand for the rounded number. -/
theorem value_ofRat {x : ℚ} (hlow : -1022 ≤ Int.log 2 |x|) (hhigh : Int.log 2 |x| ≤ 1022) :
    value (ofRat x) = some (round64 x) := by
  unfold ofRat round64
  split
  next _ => simp [value]
  next hx =>
    obtain ⟨hm, hm'⟩ := natAbs_significand hx
    rw [value_ofNat (by omega) hm hm', ← significand_eq x]
    congr 2
    rw [unit, Int.toNat_of_nonneg (by omega)]
    congr 1
    ring

/-! ## Integers without rounding -/

/-- The integer has at most 53 significant bits. -/
def Exact (n : ℤ) : Prop := ∃ (m : ℤ) (k : ℕ), |m| < 2 ^ 53 ∧ n = m * 2 ^ k

theorem exact_of_lt {n : ℤ} (h : |n| < 2 ^ 53) : Exact n := ⟨n, 0, h, by simp⟩

/-- The exponent of an integer is a natural number. -/
theorem log_intCast_nonneg (n : ℤ) : 0 ≤ Int.log 2 |(n : ℚ)| := by
  rw [← Int.cast_abs, ← Int.natCast_natAbs, Int.cast_natCast, Int.log_natCast]
  exact Int.natCast_nonneg _

theorem log_intCast_le {n : ℤ} {k : ℕ} (h : |n| ≤ 2 ^ k) : Int.log 2 |(n : ℚ)| ≤ k := by
  by_cases hn : n = 0
  · simp [hn]
  · have hpos : (0 : ℚ) < |(n : ℚ)| := abs_pos.mpr (Int.cast_ne_zero.mpr hn)
    have hle : |(n : ℚ)| ≤ ((2 : ℕ) : ℚ) ^ (k : ℤ) := by
      rw [zpow_natCast, ← Int.cast_abs]
      exact_mod_cast h
    calc Int.log 2 |(n : ℚ)| ≤ Int.log 2 (((2 : ℕ) : ℚ) ^ (k : ℤ)) := Int.log_mono_right hpos hle
      _ = k := Int.log_zpow (by decide) _

theorem unit_large {x : ℚ} {k : ℕ} (h : Int.log 2 |x| = 52 + k) : unit x = 2 ^ k := by
  rw [unit, h, add_sub_cancel_left, zpow_natCast]

theorem unit_small {x : ℚ} {k : ℕ} (h : Int.log 2 |x| + k = 52) : unit x = (2 ^ k)⁻¹ := by
  rw [unit, ← zpow_natCast, ← zpow_neg]
  congr 1
  omega

/-- A number that is a whole number of units is not rounded. -/
theorem round64_of_units {x : ℚ} {m : ℤ} (h : x = m * unit x) : round64 x = x := by
  unfold round64
  split
  next hx => exact hx.symm
  next _ =>
    have hm : x / unit x = m := (div_eq_iff (unit_pos x).ne').mpr h
    rw [hm, nearestEven_intCast]
    exact h.symm

theorem round64_small {n : ℤ} (h : Int.log 2 |(n : ℚ)| < 52) : round64 n = n := by
  have hnonneg := log_intCast_nonneg n
  obtain ⟨k, hk⟩ : ∃ k : ℕ, Int.log 2 |(n : ℚ)| + k = 52 := ⟨(52 - Int.log 2 |(n : ℚ)|).toNat, by omega⟩
  refine round64_of_units (m := n * 2 ^ k) ?_
  rw [unit_small hk]
  push_cast
  field_simp

theorem abs_lt_of_small {n : ℤ} (h : Int.log 2 |(n : ℚ)| < 52) : |n| < 2 ^ 53 := by
  have hlt := Int.lt_zpow_succ_log_self (b := 2) (by norm_num) |(n : ℚ)|
  have hle : ((2 : ℕ) : ℚ) ^ (Int.log 2 |(n : ℚ)| + 1) ≤ ((2 : ℕ) : ℚ) ^ ((53 : ℕ) : ℤ) :=
    zpow_le_zpow_right₀ (by norm_num) (by omega)
  have hbound := hlt.trans_le hle
  rw [zpow_natCast] at hbound
  exact_mod_cast hbound

/-- A whole significand times a power of two has at most 53 significant bits, also
when it was rounded up to 54 bits. -/
theorem exact_significand {m : ℤ} (hm : m.natAbs ≤ 2 ^ 53) (k : ℕ) : Exact (m * 2 ^ k) := by
  rcases Nat.lt_or_eq_of_le hm with hlt | heq
  · exact ⟨m, k, by rw [Int.abs_eq_natAbs]; exact_mod_cast hlt, rfl⟩
  · rcases Int.natAbs_eq m with hpos | hneg
    · refine ⟨2 ^ 52, k + 1, by norm_num, ?_⟩
      rw [hpos, heq, pow_succ 2 k]
      push_cast
      ring
    · refine ⟨-2 ^ 52, k + 1, by norm_num, ?_⟩
      rw [hneg, heq, pow_succ 2 k]
      push_cast
      ring

theorem exists_shift {n : ℤ} (h : ¬Int.log 2 |(n : ℚ)| < 52) :
    ∃ k : ℕ, Int.log 2 |(n : ℚ)| = 52 + k :=
  ⟨(Int.log 2 |(n : ℚ)| - 52).toNat, by omega⟩

/-- A rounded integer is an integer that is not rounded. -/
theorem exists_exact_round64 (n : ℤ) : ∃ r : ℤ, round64 n = r ∧ Exact r := by
  by_cases hsmall : Int.log 2 |(n : ℚ)| < 52
  · exact ⟨n, round64_small hsmall, exact_of_lt (abs_lt_of_small hsmall)⟩
  obtain ⟨k, hk⟩ := exists_shift hsmall
  have hn : (n : ℚ) ≠ 0 := by
    intro hzero
    rw [hzero, abs_zero, Int.log_zero_right] at hk
    omega
  refine ⟨significand n * 2 ^ k, ?_, exact_significand (natAbs_significand hn).2 k⟩
  push_cast
  rw [round64, if_neg hn, ← unit_large hk]
  rfl

theorem round64_eq_iff (n : ℤ) : round64 n = n ↔ Exact n := by
  constructor
  · intro h
    obtain ⟨r, hr, hexact⟩ := exists_exact_round64 n
    rw [h] at hr
    rwa [Int.cast_injective hr]
  · rintro ⟨m, j, hm, rfl⟩
    by_cases hsmall : Int.log 2 |((m * 2 ^ j : ℤ) : ℚ)| < 52
    · exact round64_small hsmall
    obtain ⟨k, hk⟩ := exists_shift hsmall
    -- the number is smaller than `2 ^ (53 + j)`, so its unit divides `2 ^ j`
    have hkj : k ≤ j := by
      have hpos : 0 < |((m * 2 ^ j : ℤ) : ℚ)| := by
        by_contra hnot
        rw [Int.log_of_right_le_zero _ (not_lt.mp hnot)] at hk
        omega
      have hlt : |((m * 2 ^ j : ℤ) : ℚ)| < ((2 : ℕ) : ℚ) ^ ((53 + j : ℕ) : ℤ) := by
        have hpow : (0 : ℤ) < 2 ^ j := pow_pos (by norm_num) j
        have hint : |m * 2 ^ j| < 2 ^ (53 + j) := by
          rw [abs_mul, abs_of_pos hpow, pow_add]
          exact mul_lt_mul_of_pos_right hm hpow
        rw [zpow_natCast]
        exact_mod_cast hint
      have hlog := (Int.lt_zpow_iff_log_lt (by norm_num) hpos).mp hlt
      omega
    refine round64_of_units (m := m * 2 ^ (j - k)) ?_
    rw [unit_large hk]
    push_cast
    rw [mul_assoc, ← pow_add, Nat.sub_add_cancel hkj]

end Float64
