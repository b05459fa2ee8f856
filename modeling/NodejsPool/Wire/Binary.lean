import Mathlib.Data.Int.Log
import Mathlib.Data.Rat.Floor
import Mathlib.Tactic.Positivity
import NodejsPool.Wire.Varint

/-! Binary interchange formats: the finite numbers a format holds, and their words. -/
namespace NodejsPool.Wire

structure Format where
  fraction : ℕ
  exponent : ℕ

namespace Format

def single : Format := ⟨23,8⟩

def double : Format := ⟨52,11⟩

variable (format : Format)

def least : ℤ := 2 - 2 ^ (format.exponent - 1) - format.fraction

def exponents : ℕ := 2 ^ format.exponent - 2

/-- A finite magnitude of the format: at most `fraction + 1` bits over one of its last places. -/
def Holds (value : ℚ) : Prop :=
  ∃ mantissa step : ℕ, mantissa < 2 ^ (format.fraction + 1) ∧ step < format.exponents ∧
    |value| = mantissa * (2 : ℚ) ^ (format.least + step)

def step (value : ℚ) : ℕ := (Int.log 2 value - format.fraction - format.least).toNat

def mantissa (value : ℚ) : ℕ := ⌊value * (2 : ℚ) ^ (-(format.least + format.step value))⌋.toNat

def magnitude (value : ℚ) : ℕ := if value = 0 then 0 else format.step value * 2 ^ format.fraction +
    format.mantissa value

def word (value : ℚ) : ℕ :=
  (if value < 0 then 2 ^ (format.fraction + format.exponent) else 0) + format.magnitude |value|

def readMagnitude (bits : ℕ) : ℚ :=
  if bits < 2 ^ format.fraction then bits * (2 : ℚ) ^ format.least
  else (2 ^ format.fraction + bits % 2 ^ format.fraction : ℕ) *
    (2 : ℚ) ^ (format.least + (bits / 2 ^ format.fraction - 1 : ℕ))

def readWord (bits : ℕ) : ℚ :=
  if bits < 2 ^ (format.fraction + format.exponent) then format.readMagnitude bits
  else -format.readMagnitude (bits - 2 ^ (format.fraction + format.exponent))

variable {format}

theorem Holds.whole {value : ℚ} (holds : format.Holds value) (large : (2 : ℚ) ^ (format.fraction + 1) ≤ value) :
    value.den = 1 := by
  obtain ⟨mantissa,step,bound,_,same⟩ := holds
  have positive : 0 ≤ value := le_trans (by positivity) large
  rw [abs_of_nonneg positive] at same
  have place : 0 ≤ format.least + step := by
    by_contra below
    have one : (2 : ℚ) ^ (format.least + step) ≤ 1 := zpow_le_one_of_nonpos₀ (by norm_num) (by omega)
    have small : value < 2 ^ (format.fraction + 1) := by
      calc
        value = mantissa * (2 : ℚ) ^ (format.least + step) := same
        _ ≤ mantissa * 1 := mul_le_mul_of_nonneg_left one (Nat.cast_nonneg _)
        _ < 2 ^ (format.fraction + 1) := by
          rw [mul_one]
          exact_mod_cast bound
    exact absurd large (not_le.mpr small)
  obtain ⟨count,place⟩ := Int.eq_ofNat_of_zero_le place
  rw [same,place,zpow_natCast]
  have integer : (mantissa : ℚ) * 2 ^ count = ((mantissa * 2 ^ count : ℕ) : ℚ) := by push_cast; rfl
  rw [integer,Rat.den_natCast]

theorem holds_zero (some : 0 < format.exponents) : format.Holds 0 := ⟨0,0,by positivity,some,by simp⟩

theorem readMagnitude_parts {step mantissa : ℕ} (bound : mantissa < 2 ^ (format.fraction + 1))
    (normal : step = 0 ∨ 2 ^ format.fraction ≤ mantissa) :
    format.readMagnitude (step * 2 ^ format.fraction + mantissa) = mantissa * (2 : ℚ) ^ (format.least + step) := by
  unfold readMagnitude
  have positive : 0 < 2 ^ format.fraction := by positivity
  by_cases hidden : 2 ^ format.fraction ≤ mantissa
  · have rest : mantissa - 2 ^ format.fraction < 2 ^ format.fraction := by
      rw [pow_succ] at bound
      omega
    have split : step * 2 ^ format.fraction + mantissa =
        (mantissa - 2 ^ format.fraction) + 2 ^ format.fraction * (step + 1) := by
      rw [mul_add,mul_one,mul_comm]
      omega
    have big : ¬step * 2 ^ format.fraction + mantissa < 2 ^ format.fraction := by omega
    rw [if_neg big,split,Nat.add_mul_mod_self_left,Nat.mod_eq_of_lt rest,Nat.add_mul_div_left _ _ positive,
      Nat.div_eq_of_lt rest]
    congr 2
    · omega
    · omega
  · obtain rfl : step = 0 := normal.resolve_right hidden
    have small : 0 * 2 ^ format.fraction + mantissa < 2 ^ format.fraction := by omega
    rw [if_pos small]
    simp

theorem parts_lt {step mantissa : ℕ} (wide : 2 ≤ format.exponent) (bound : mantissa < 2 ^ (format.fraction + 1))
    (finite : step < format.exponents) :
    step * 2 ^ format.fraction + mantissa < 2 ^ (format.fraction + format.exponent) := by
  have four : 4 ≤ 2 ^ format.exponent := by
    calc
      4 = 2 ^ 2 := rfl
      _ ≤ 2 ^ format.exponent := Nat.pow_le_pow_right (by decide) wide
  have steps : step + 3 ≤ 2 ^ format.exponent := by
    unfold exponents at finite
    omega
  calc
    step * 2 ^ format.fraction + mantissa < step * 2 ^ format.fraction + 2 ^ (format.fraction + 1) := by omega
    _ = (step + 2) * 2 ^ format.fraction := by ring
    _ ≤ 2 ^ format.exponent * 2 ^ format.fraction := Nat.mul_le_mul_right _ (by omega)
    _ = 2 ^ (format.fraction + format.exponent) := by ring

theorem log_parts {mantissa : ℕ} {place : ℤ} (positive : 0 < mantissa) {bits : ℕ} (bound : mantissa < 2 ^ (bits + 1)) :
    Int.log 2 ((mantissa : ℚ) * 2 ^ place) ≤ bits + place := by
  have one : (0 : ℚ) < 2 ^ place := zpow_pos (by norm_num) place
  have value : (0 : ℚ) < mantissa * 2 ^ place := mul_pos (by exact_mod_cast positive) one
  have below : (mantissa : ℚ) * 2 ^ place < 2 ^ ((bits : ℤ) + place + 1) := by
    calc
      (mantissa : ℚ) * 2 ^ place < 2 ^ (bits + 1) * 2 ^ place := by
        apply mul_lt_mul_of_pos_right _ one
        exact_mod_cast bound
      _ = 2 ^ ((bits : ℤ) + place + 1) := by
        rw [← zpow_natCast,← zpow_add₀ (by norm_num)]
        congr 1
        push_cast
        ring
  have log := (Int.zpow_le_iff_le_log (by norm_num) value (b := 2)
    (x := Int.log 2 ((mantissa : ℚ) * 2 ^ place))).mpr le_rfl
  have less := lt_of_le_of_lt log below
  have := (zpow_lt_zpow_iff_right₀ (by norm_num : (1 : ℚ) < 2)).mp less
  omega

theorem parts_of {value : ℚ} (positive : 0 < value) (holds : format.Holds value) :
    format.mantissa value < 2 ^ (format.fraction + 1) ∧ format.step value < format.exponents ∧
      (format.step value = 0 ∨ 2 ^ format.fraction ≤ format.mantissa value) ∧
      value = format.mantissa value * (2 : ℚ) ^ (format.least + format.step value) := by
  obtain ⟨mantissa,step,bound,finite,same⟩ := holds
  rw [abs_of_pos positive] at same
  have two : (2 : ℚ) ≠ 0 := by norm_num
  have nonzero : 0 < mantissa := by
    rcases Nat.eq_zero_or_pos mantissa with rfl | here
    · rw [same] at positive
      simp at positive
    · exact here
  have high : Int.log 2 value ≤ format.fraction + (format.least + step) := by
    rw [same]
    exact log_parts nonzero bound
  have below : format.step value ≤ step := by
    unfold Format.step
    omega
  have whole : value * (2 : ℚ) ^ (-(format.least + format.step value)) =
      ((mantissa * 2 ^ (step - format.step value) : ℕ) : ℚ) := by
    rw [same,mul_assoc,← zpow_add₀ two,← same]
    push_cast
    rw [← zpow_natCast]
    congr 2
    omega
  have parts : (format.mantissa value : ℚ) = value * (2 : ℚ) ^ (-(format.least + format.step value)) := by
    unfold Format.mantissa
    rw [whole,Int.floor_natCast,Int.toNat_natCast]
  have back : value = format.mantissa value * (2 : ℚ) ^ (format.least + format.step value) := by
    rw [parts,mul_assoc,← zpow_add₀ two,neg_add_cancel,zpow_zero,mul_one]
  refine ⟨?_,by omega,?_,back⟩
  · have limit : (format.mantissa value : ℚ) < 2 ^ (format.fraction + 1) := by
      calc
        (format.mantissa value : ℚ) = value * (2 : ℚ) ^ (-(format.least + format.step value)) := parts
        _ < (2 : ℚ) ^ (Int.log 2 value + 1) * (2 : ℚ) ^ (-(format.least + format.step value)) := by
          apply mul_lt_mul_of_pos_right _ (zpow_pos (by norm_num) _)
          exact Int.lt_zpow_succ_log_self (by norm_num) value
        _ = (2 : ℚ) ^ (Int.log 2 value + 1 + -(format.least + format.step value)) := (zpow_add₀ two _ _).symm
        _ ≤ (2 : ℚ) ^ ((format.fraction : ℤ) + 1) := by
          apply zpow_le_zpow_right₀ (by norm_num)
          unfold Format.step
          omega
        _ = 2 ^ (format.fraction + 1) := by
          rw [← zpow_natCast]
          rfl
    exact_mod_cast limit
  · rcases Nat.eq_zero_or_pos (format.step value) with zero | above
    · exact .inl zero
    · refine .inr ?_
      have limit : (2 ^ format.fraction : ℚ) ≤ format.mantissa value := by
        calc
          (2 ^ format.fraction : ℚ) = (2 : ℚ) ^ (Int.log 2 value + -(format.least + format.step value)) := by
            rw [← zpow_natCast]
            congr 1
            unfold Format.step at above ⊢
            omega
          _ = (2 : ℚ) ^ Int.log 2 value * (2 : ℚ) ^ (-(format.least + format.step value)) := zpow_add₀ two _ _
          _ ≤ value * (2 : ℚ) ^ (-(format.least + format.step value)) := by
            apply mul_le_mul_of_nonneg_right _ (zpow_pos (by norm_num) _).le
            exact Int.zpow_log_le_self (by norm_num) positive
          _ = format.mantissa value := parts.symm
      exact_mod_cast limit

theorem readWord_word {value : ℚ} (wide : 2 ≤ format.exponent) (holds : format.Holds value) :
    format.word value < 2 ^ (format.fraction + format.exponent + 1) ∧ format.readWord (format.word value) = value := by
  have magnitude : format.magnitude |value| < 2 ^ (format.fraction + format.exponent) ∧
      format.readMagnitude (format.magnitude |value|) = |value| := by
    unfold Format.magnitude
    split
    next zero =>
      rw [zero]
      constructor
      · positivity
      · simp [readMagnitude]
    next nonzero =>
      have positive : 0 < |value| := lt_of_le_of_ne (abs_nonneg value) (Ne.symm nonzero)
      have own : format.Holds |value| := by
        obtain ⟨mantissa,step,bound,finite,same⟩ := holds
        exact ⟨mantissa,step,bound,finite,(abs_abs value).trans same⟩
      obtain ⟨bound,finite,normal,back⟩ := parts_of positive own
      exact ⟨parts_lt wide bound finite,(readMagnitude_parts bound normal).trans back.symm⟩
  obtain ⟨fits,reads⟩ := magnitude
  have double : 2 ^ (format.fraction + format.exponent + 1) = 2 * 2 ^ (format.fraction + format.exponent) := by ring
  unfold word readWord
  by_cases negative : value < 0
  · rw [if_pos negative,if_neg (by omega),Nat.add_sub_cancel_left,reads]
    refine ⟨by omega,?_⟩
    rw [abs_of_neg negative,neg_neg]
  · rw [if_neg negative,zero_add,if_pos fits,reads,abs_of_nonneg (not_lt.mp negative)]
    rw [abs_of_nonneg (not_lt.mp negative)] at fits
    exact ⟨by omega,rfl⟩

end Format
end NodejsPool.Wire
