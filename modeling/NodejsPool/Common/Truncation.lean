import Mathlib.Data.Nat.Log
import Mathlib.Order.Bounds.Basic
import Mathlib.Tactic.Ring

/-! Whole numbers cut off after a few digits, where the first digit fills the lower half of its place only. -/
namespace NodejsPool.Truncation

variable (base digits : ℕ)

def exponent (value : ℕ) : ℕ := Nat.log base (2 * value) + 1

def mantissa (value : ℕ) : ℕ := value * base ^ digits / base ^ exponent base value

def number (exponent mantissa : ℕ) : ℕ := mantissa * base ^ exponent / base ^ digits

def truncate (value : ℕ) : ℕ := number base digits (exponent base value) (mantissa base digits value)

/-- The exponent and the mantissa in one number, in the order of the numbers they stand for. -/
def code (value : ℕ) : ℕ := exponent base value * base ^ digits + mantissa base digits value

variable {base digits} {value other places : ℕ}

theorem exponent_eq_iff (large : 1 < base) (positive : 0 < value) :
    exponent base value = places + 1 ↔ base ^ places ≤ 2 * value ∧ 2 * value < base ^ (places + 1) := by
  unfold exponent
  rw [Nat.add_right_cancel_iff]
  exact Nat.log_eq_iff (.inr ⟨large,by omega⟩)

variable (base) in
theorem exponent_mono (le : value ≤ other) : exponent base value ≤ exponent base other :=
  Nat.succ_le_succ (Nat.log_mono_right (Nat.mul_le_mul_left 2 le))

theorem lt_exponent (large : 1 < base) (value : ℕ) : 2 * value < base ^ exponent base value :=
  Nat.lt_pow_succ_log_self large (2 * value)

variable (base) in
theorem exponent_le (positive : 0 < value) : base ^ (exponent base value - 1) ≤ 2 * value :=
  Nat.pow_log_le_self base (by omega)

section Digits

variable (positive : 0 < base)
include positive

theorem mantissa_eq (long : digits ≤ exponent base value) :
    mantissa base digits value = value / base ^ (exponent base value - digits) := by
  obtain ⟨rest,same⟩ := Nat.exists_eq_add_of_le long
  unfold mantissa
  rw [same,Nat.add_sub_cancel_left,Nat.pow_add,Nat.mul_comm value,Nat.mul_div_mul_left _ _ (Nat.pow_pos positive)]

theorem mantissa_short (short : exponent base value ≤ digits) :
    mantissa base digits value = value * base ^ (digits - exponent base value) := by
  obtain ⟨rest,same⟩ := Nat.exists_eq_add_of_le short
  unfold mantissa
  rw [same,Nat.add_sub_cancel_left,Nat.pow_add,Nat.mul_left_comm,Nat.mul_div_cancel_left _ (Nat.pow_pos positive)]

theorem number_eq (mantissa : ℕ) (long : digits ≤ places) :
    number base digits places mantissa = mantissa * base ^ (places - digits) := by
  obtain ⟨rest,rfl⟩ := Nat.exists_eq_add_of_le long
  unfold number
  rw [Nat.add_sub_cancel_left,Nat.pow_add,Nat.mul_left_comm,Nat.mul_div_cancel_left _ (Nat.pow_pos positive)]

theorem number_short (mantissa : ℕ) (short : places ≤ digits) :
    number base digits places mantissa = mantissa / base ^ (digits - places) := by
  obtain ⟨rest,rfl⟩ := Nat.exists_eq_add_of_le short
  unfold number
  rw [Nat.add_sub_cancel_left,Nat.pow_add,Nat.mul_comm mantissa,Nat.mul_div_mul_left _ _ (Nat.pow_pos positive)]

theorem truncate_eq (digits value : ℕ) : truncate base digits value =
      value / base ^ (exponent base value - digits) * base ^ (exponent base value - digits) := by
  unfold truncate
  rcases Nat.le_total digits (exponent base value) with long | short
  · rw [number_eq positive _ long,mantissa_eq positive long]
  · rw [number_short positive _ short,mantissa_short positive short,Nat.mul_div_cancel _ (Nat.pow_pos positive),
      Nat.sub_eq_zero_of_le short,Nat.pow_zero,Nat.div_one,Nat.mul_one]

theorem truncate_le (digits value : ℕ) : truncate base digits value ≤ value := by
  rw [truncate_eq positive]
  exact Nat.div_mul_le_self value _

end Digits

section Halves

variable (even : Even base) (large : 1 < base) (two : 2 ≤ digits)
include even large two

section

variable (positive : 0 < value)
include positive

theorem exponent_le_truncate : base ^ (exponent base value - 1) ≤ 2 * truncate base digits value := by
  have low := exponent_le base positive
  obtain ⟨places,same⟩ : ∃ places, exponent base value = places + 1 := ⟨_,rfl⟩
  rw [truncate_eq (zero_lt_one.trans large),same,Nat.add_sub_cancel]
  rw [same,Nat.add_sub_cancel] at low
  rcases Nat.le_total (places + 1) digits with short | long
  · rw [Nat.sub_eq_zero_of_le short,Nat.pow_zero,Nat.div_one,Nat.mul_one]
    exact low
  · obtain ⟨half,rfl⟩ := even
    obtain ⟨spare,rfl⟩ := Nat.exists_eq_add_of_le two
    obtain ⟨rest,split⟩ := Nat.exists_eq_add_of_le long
    have first : places = 1 + (spare + rest) := by omega
    have whole : (half + half) ^ places = 2 * (half * (half + half) ^ spare * (half + half) ^ rest) := by
      rw [first,Nat.pow_add,Nat.pow_add]
      ring
    rw [whole] at low ⊢
    rw [split,Nat.add_sub_cancel_left]
    have part : half * (half + half) ^ spare ≤ value / (half + half) ^ rest :=
      (Nat.le_div_iff_mul_le (Nat.pow_pos (by omega))).mpr (by omega)
    exact Nat.mul_le_mul_left 2 (Nat.mul_le_mul_right _ part)

theorem truncate_pos : 0 < truncate base digits value := by
  have kept := exponent_le_truncate even large two positive
  have some : 0 < base ^ (exponent base value - 1) := Nat.pow_pos (by omega)
  omega

theorem exponent_truncate : exponent base (truncate base digits value) = exponent base value := by
  have high := lt_exponent large value
  have below := truncate_le (zero_lt_one.trans large) digits value
  refine (exponent_eq_iff large
    (truncate_pos even large two positive)).mpr ⟨exponent_le_truncate even large two positive,?_⟩
  exact (Nat.mul_le_mul_left 2 below).trans_lt high

theorem mantissa_truncate : mantissa base digits (truncate base digits value) = mantissa base digits value := by
  have same := exponent_truncate even large two positive
  have cut := truncate_eq (zero_lt_one.trans large) digits value
  rcases Nat.le_total digits (exponent base value) with long | short
  · rw [mantissa_eq (by omega) (same ▸ long),mantissa_eq (by omega) long,same,cut,
    Nat.mul_div_cancel _ (Nat.pow_pos (by omega))]
  · rw [Nat.sub_eq_zero_of_le short,Nat.pow_zero,Nat.div_one,Nat.mul_one] at cut
    rw [cut]

theorem code_truncate : code base digits (truncate base digits value) = code base digits value := by
  unfold code
  rw [exponent_truncate even large two positive,mantissa_truncate even large two positive]

theorem truncate_truncate : truncate base digits (truncate base digits value) = truncate base digits value := by
  rw [truncate,exponent_truncate even large two positive,mantissa_truncate even large two positive,truncate]

theorem truncate_mono (le : value ≤ other) : truncate base digits value ≤ truncate base digits other := by
  rcases (exponent_mono base le).lt_or_eq with less | same
  · have high := lt_exponent large value
    have below := truncate_le (zero_lt_one.trans large) digits value
    have low := exponent_le base (truncate_pos even large two (positive.trans_le le))
    rw [exponent_truncate even large two (positive.trans_le le)] at low
    have between : base ^ exponent base value ≤ base ^ (exponent base other - 1) :=
      Nat.pow_le_pow_right (by omega) (by omega)
    omega
  · rw [truncate_eq (by omega),truncate_eq (by omega),same]
    exact Nat.mul_le_mul_right _ (Nat.div_le_div_right le)

theorem isGreatest_truncate : IsGreatest {number | 0 < number ∧ truncate base digits number = number ∧ number ≤ value}
      (truncate base digits value) := by
  refine ⟨⟨truncate_pos even large two positive,truncate_truncate even large two positive,
    truncate_le (by omega) digits value⟩,?_⟩
  rintro number ⟨some,kept,le⟩
  rw [← kept]
  exact truncate_mono even large two some le

end

end Halves

theorem mantissa_lt (large : 1 < base) (digits value : ℕ) : 2 * mantissa base digits value < base ^ digits := by
  have high := lt_exponent large value
  have part : mantissa base digits value * base ^ exponent base value ≤ value * base ^ digits := Nat.div_mul_le_self _ _
  have less : 2 * value * base ^ digits < base ^ exponent base value * base ^ digits :=
    Nat.mul_lt_mul_of_pos_right high (Nat.pow_pos (by omega))
  refine Nat.lt_of_mul_lt_mul_right (a := base ^ exponent base value) ?_
  calc 2 * mantissa base digits value * base ^ exponent base value
      ≤ 2 * value * base ^ digits := by rw [Nat.mul_assoc,Nat.mul_assoc]; exact Nat.mul_le_mul_left 2 part
    _ < base ^ digits * base ^ exponent base value := by rw [Nat.mul_comm (base ^ digits)]; exact less

theorem code_mono (large : 1 < base) (le : value ≤ other) : code base digits value ≤ code base digits other := by
  unfold code
  rcases (exponent_mono base le).lt_or_eq with less | same
  · have small := mantissa_lt large digits value
    calc exponent base value * base ^ digits + mantissa base digits value
        ≤ (exponent base value + 1) * base ^ digits := by rw [Nat.succ_mul]; omega
      _ ≤ exponent base other * base ^ digits := Nat.mul_le_mul_right _ less
      _ ≤ _ := Nat.le_add_right _ _
  · rw [same]
    refine Nat.add_le_add_left ?_ _
    unfold mantissa
    rw [same]
    exact Nat.div_le_div_right (Nat.mul_le_mul_right _ le)

end NodejsPool.Truncation
