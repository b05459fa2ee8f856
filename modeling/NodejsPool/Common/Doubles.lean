import Mathlib.Algebra.Order.Ring.Int
import Mathlib.Data.Nat.Log

/-! Integers as JavaScript numbers: exact up to 2^53, and the nearest double above it. -/
namespace NodejsPool.Doubles

/-- The multiple of `2^shift` nearest to a natural number, the even one of two. -/
def roundTo (shift value : ℕ) : ℕ :=
  let quotient := value / 2^shift
  let rest := 2 * (value % 2^shift)
  (if 2^shift < rest ∨ (rest = 2^shift ∧ quotient % 2 = 1) then quotient + 1 else quotient) * 2^shift

def ofNat (value : ℕ) : ℕ := if value < 2^53 then value else roundTo (Nat.log 2 value - 52) value

/-- `Number(value)`. -/
def ofInt (value : ℤ) : ℤ := if 0 ≤ value then ofNat value.toNat else -(ofNat (-value).toNat)

/-- `Number.isSafeInteger` of an integer. -/
def isSafeInteger (value : ℤ) : Bool := -(2^53) < value && value < 2^53

theorem roundTo_ge (shift value : ℕ) : value / 2^shift * 2^shift ≤ roundTo shift value := by
  unfold roundTo
  apply Nat.mul_le_mul_right
  split
  · exact Nat.le_succ _
  · exact le_rfl

theorem ofNat_large {value : ℕ} (large : 2^53 ≤ value) : 2^53 ≤ ofNat value := by
  have positive : value ≠ 0 := by
    rintro rfl
    exact absurd large (by decide)
  have log : 53 ≤ Nat.log 2 value := (Nat.le_log_iff_pow_le (by decide) positive).mpr large
  obtain ⟨shift,same⟩ : ∃ shift, Nat.log 2 value - 52 = shift + 1 := ⟨Nat.log 2 value - 53,by omega⟩
  have power : 2^(52 + (shift + 1)) ≤ value := by
    rw [← same,Nat.add_sub_cancel' (by omega)]
    exact Nat.pow_log_le_self 2 positive
  have quotient : 2^52 ≤ value / 2^(shift + 1) := by
    rw [Nat.le_div_iff_mul_le (Nat.two_pow_pos _),← pow_add]
    exact power
  rw [ofNat,if_neg (not_lt.mpr large),same]
  calc
    2^53 ≤ 2^52 * 2^(shift + 1) := by
      rw [← pow_add]
      exact Nat.pow_le_pow_right (by decide) (by omega)
    _ ≤ value / 2^(shift + 1) * 2^(shift + 1) := Nat.mul_le_mul_right _ quotient
    _ ≤ roundTo (shift + 1) value := roundTo_ge _ _

theorem ofNat_small {value : ℕ} (small : value < 2^53) : ofNat value = value := if_pos small

theorem ofInt_small {value : ℤ} (low : -(2^53) < value) (high : value < 2^53) : ofInt value = value := by
  unfold ofInt
  split
  · next positive =>
    rw [ofNat_small (by omega)]
    omega
  · next negative =>
    rw [ofNat_small (by omega)]
    omega

theorem ofInt_safe {value : ℤ} (safe : isSafeInteger (ofInt value) = true) : ofInt value = value := by
  simp only [isSafeInteger,Bool.and_eq_true,decide_eq_true_eq] at safe
  apply ofInt_small
  · by_contra! low
    have large := ofNat_large (show 2^53 ≤ (-value).toNat by omega)
    rw [ofInt,if_neg (by omega)] at safe
    omega
  · by_contra! high
    have large := ofNat_large (show 2^53 ≤ value.toNat by omega)
    rw [ofInt,if_pos (by omega)] at safe
    omega

def Collide (left right : ℤ) : Prop := left ≠ right ∧ ofInt left = ofInt right

theorem Collide.large {left right : ℤ} (collide : Collide left right) : left ≤ -(2^53) ∨ 2^53 ≤ left := by
  by_contra! small
  have same := ofInt_small small.1 small.2
  have safe : isSafeInteger (ofInt right) = true := by
    rw [← collide.2,same]
    simp only [isSafeInteger,Bool.and_eq_true,decide_eq_true_eq]
    exact small
  exact collide.1 (by rw [← same,collide.2,ofInt_safe safe])

end NodejsPool.Doubles
