/-
Rounding an integer to a number of significant bits, ties to even.

This is what a conversion from an integer type to a binary floating-point type of
precision `p` does, as long as the exponent does not matter. An integer is its own value if
and only if the bits beyond the first `p` are 0 (`roundInt_eq_self_iff`), so for one that
has no more than `p` bits nothing is lost.
-/
import Mathlib.Data.Nat.Size
import Mathlib.Data.Int.Order.Basic
import Mathlib.Algebra.GroupWithZero.Nat

set_option autoImplicit false

namespace OsIrose.Significand

/-- `n`, rounded to `p` significant bits. -/
def roundNat (p n : ℕ) : ℕ :=
  let unit := 2 ^ (n.size - p)
  let q := n / unit
  let r := n % unit
  if unit < 2 * r ∨ 2 * r = unit ∧ q % 2 = 1 then (q + 1) * unit else q * unit

def roundInt (p : ℕ) (n : ℤ) : ℤ :=
  n.sign * roundNat p n.natAbs

theorem dvd_roundNat (p n : ℕ) : 2 ^ (n.size - p) ∣ roundNat p n := by
  unfold roundNat
  dsimp only
  split_ifs
  · exact Nat.dvd_mul_left _ _
  · exact Nat.dvd_mul_left _ _

theorem roundNat_eq_self_iff {p n : ℕ} : roundNat p n = n ↔ 2 ^ (n.size - p) ∣ n := by
  constructor
  · intro h
    have hdvd := dvd_roundNat p n
    rwa [h] at hdvd
  · intro h
    have hr : n % 2 ^ (n.size - p) = 0 := Nat.mod_eq_zero_of_dvd h
    have hunit : 0 < 2 ^ (n.size - p) := Nat.two_pow_pos _
    unfold roundNat
    dsimp only
    rw [hr, if_neg (by omega), Nat.div_mul_cancel h]

theorem roundInt_eq_self_iff {p : ℕ} {n : ℤ} :
    roundInt p n = n ↔ 2 ^ (n.natAbs.size - p) ∣ n.natAbs := by
  rw [← roundNat_eq_self_iff, roundInt]
  constructor
  · intro h
    rcases eq_or_ne n 0 with rfl | hn
    · simp [roundNat]
    · have habs := congrArg Int.natAbs h
      rwa [Int.natAbs_mul, Int.natAbs_sign_of_ne_zero hn, Int.natAbs_natCast, Nat.one_mul] at habs
  · intro h
    rw [h, Int.sign_mul_natAbs]

/-- No bit is lost of an integer that has no more than `p`. -/
theorem roundInt_of_lt {p : ℕ} {n : ℤ} (h : n.natAbs < 2 ^ p) : roundInt p n = n := by
  rw [roundInt_eq_self_iff, Nat.sub_eq_zero_of_le (Nat.size_le.mpr h), Nat.pow_zero]
  exact Nat.one_dvd _

end OsIrose.Significand
