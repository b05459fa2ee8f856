import NodejsPool.Common.Truncation
import Mathlib.Data.Nat.Bitwise
import Mathlib.Tactic.NormNum

/-! Compact targets of pearl headers: one byte for the length, three for the leading digits, a sign bit that stays
clear. -/
namespace NodejsPool.Coins.CompactTargets
open Truncation

def uint256Max : ℤ := 2 ^ 256 - 1

/-- `value.toString(2).length`. -/
def bitLength (value : ℕ) : ℕ := if value = 0 then 0 else (Nat.toDigits 2 value).length

def pack (size compact : ℕ) : ℕ := ((size <<< 24) ||| (compact &&& 0x007fffff)) % 2 ^ 32

def targetToCompact (target : ℤ) : Option ℕ :=
  if target ≤ 0 ∨ target > uint256Max then none
  else
    let size := (bitLength target.toNat + 7) / 8
    let compact := if size ≤ 3 then target.toNat <<< (8 * (3 - size)) else target.toNat >>> (8 * (size - 3))
    if compact &&& 0x00800000 ≠ 0 then some (pack (size + 1) (compact >>> 8)) else some (pack size compact)

structure CompactTarget where
  target : ℤ
  compact : ℤ

def compactToTarget (compact : ℤ) : Option CompactTarget :=
  if compact < 0 ∨ compact > 0xffffffff then none
  else
    let exponent := compact.toNat >>> 24
    let mantissa := compact.toNat &&& 0x007fffff
    if compact.toNat &&& 0x00800000 ≠ 0 ∨ mantissa = 0 ∨ exponent = 0 ∨ exponent > 32 then none
    else
      let target : ℕ := if 3 ≤ exponent then mantissa <<< (8 * (exponent - 3)) else mantissa >>> (8 * (3 - exponent))
      if (target : ℤ) ≤ 0 ∨ target > uint256Max ∨ targetToCompact target ≠ some compact.toNat then none
      else some { target := target,compact := compact }

section Bits

theorem byte_pow (places : ℕ) : 256 ^ places = 2 ^ (8 * places) := by rw [Nat.pow_mul]

theorem sign_eq (bits : ℕ) : bits &&& 0x00800000 ≠ 0 ↔ bits / 2 ^ 23 % 2 = 1 := by
  rw [show (0x00800000 : ℕ) = 2 ^ 23 from rfl,Nat.and_two_pow,Nat.testBit_eq_decide_div_mod_eq]
  by_cases set : bits / 2 ^ 23 % 2 = 1 <;> simp

theorem low_bits (bits : ℕ) : bits &&& 0x007fffff = bits % 2 ^ 23 := by
  rw [show (0x007fffff : ℕ) = 2 ^ 23 - 1 from rfl,Nat.and_two_pow_sub_one_eq_mod]

theorem pack_eq {size compact : ℕ} (short : size < 256) (small : compact < 2 ^ 23) :
    pack size compact = size * 256 ^ 3 + compact := by
  unfold pack
  rw [low_bits,Nat.mod_eq_of_lt small,← Nat.shiftLeft_add_eq_or_of_lt (by omega),Nat.shiftLeft_eq]
  exact Nat.mod_eq_of_lt (by omega)

theorem bitLength_spec {value : ℕ} (positive : 0 < value) :
    2 ^ bitLength value ≤ 2 * value ∧ value < 2 ^ bitLength value := by
  have two : 1 < 2 := by norm_num
  obtain ⟨bits,same⟩ : ∃ bits, bitLength value = bits + 1 :=
    Nat.exists_eq_succ_of_ne_zero (by rw [bitLength,if_neg (by omega)]; exact Nat.length_toDigits_pos.ne')
  have length : (Nat.toDigits 2 value).length = bits + 1 := by rw [← same,bitLength,if_neg (by omega)]
  have high := (Nat.length_toDigits_le_iff two (Nat.succ_pos bits)).mp length.le
  refine ⟨?_,same ▸ high⟩
  rw [same,Nat.pow_succ']
  refine Nat.mul_le_mul_left 2 ?_
  rcases Nat.eq_zero_or_pos bits with rfl | some
  · exact positive
  · by_contra less
    have short := (Nat.length_toDigits_le_iff two some).mpr (not_le.mp less)
    omega

theorem exponent_bitLength {value : ℕ} (positive : 0 < value) : exponent 256 value = bitLength value / 8 + 1 := by
  obtain ⟨low,high⟩ := bitLength_spec positive
  refine (exponent_eq_iff (by norm_num) positive).mpr ?_
  rw [byte_pow,byte_pow]
  constructor
  · exact (Nat.pow_le_pow_right (by norm_num) (by omega)).trans low
  · calc 2 * value < 2 ^ (bitLength value + 1) := by rw [Nat.pow_succ']; omega
      _ ≤ 2 ^ (8 * (bitLength value / 8 + 1)) := Nat.pow_le_pow_right (by norm_num) (by omega)

private theorem leading_eq (value size : ℕ) :
    (if size ≤ 3 then value <<< (8 * (3 - size)) else value >>> (8 * (size - 3))) = value * 256 ^ 3 / 256 ^ size := by
  split
  next short =>
    obtain ⟨rest,same⟩ := Nat.exists_eq_add_of_le short
    rw [Nat.shiftLeft_eq,← byte_pow,same,Nat.add_sub_cancel_left,Nat.pow_add,Nat.mul_left_comm,
      Nat.mul_div_cancel_left _ (Nat.pow_pos (by norm_num))]
  next long =>
    obtain ⟨rest,rfl⟩ := Nat.exists_eq_add_of_le (Nat.le_of_lt (not_le.mp long))
    rw [Nat.shiftRight_eq_div_pow,← byte_pow,Nat.add_sub_cancel_left,Nat.pow_add,Nat.mul_comm value,
      Nat.mul_div_mul_left _ _ (Nat.pow_pos (by norm_num))]

theorem decoded_eq (places digits : ℕ) :
    (if 3 ≤ places then digits <<< (8 * (places - 3)) else digits >>> (8 * (3 - places))) =
      number 256 3 places digits := by
  split
  next long => rw [number_eq (by norm_num) _ long,Nat.shiftLeft_eq,← byte_pow]
  next short => rw [number_short (by norm_num) _ (not_le.mp short).le,Nat.shiftRight_eq_div_pow,← byte_pow]

end Bits

section Encoding

variable {target : ℕ}

theorem digits_lt (target : ℕ) : mantissa 256 3 target < 2 ^ 23 := by
  have half := mantissa_lt (by norm_num : 1 < 256) 3 target
  omega

private theorem exponent_bound (bounded : target < 2 ^ 256) : exponent 256 target ≤ 33 := by
  unfold exponent
  have less : Nat.log 256 (2 * target) < 33 := Nat.log_lt_of_lt_pow' (by norm_num) (by omega)
  omega

theorem targetToCompact_eq (positive : 0 < target) (bounded : target < 2 ^ 256) :
    targetToCompact target = some (code 256 3 target) := by
  have inside : ¬ ((target : ℤ) ≤ 0 ∨ (target : ℤ) > uint256Max) := by
    unfold uint256Max
    omega
  have places := exponent_bitLength positive
  have bound := exponent_bound bounded
  have small := digits_lt target
  obtain ⟨low,high⟩ := bitLength_spec positive
  unfold targetToCompact
  rw [if_neg inside,Int.toNat_natCast]
  dsimp only
  rw [leading_eq]
  by_cases full : bitLength target % 8 = 0
  · -- the top bit of the leading byte is set, so the digits move down by one byte
    have size : (bitLength target + 7) / 8 = bitLength target / 8 := by omega
    have top : bitLength target = 8 * (bitLength target / 8) := by omega
    rw [size]
    have room : target * 256 ^ 3 / 256 ^ (bitLength target / 8) < 2 ^ 24 := by
      refine Nat.div_lt_of_lt_mul ?_
      rw [byte_pow (bitLength target / 8),← top]
      exact Nat.mul_lt_mul_of_lt_of_le high (by norm_num) (by norm_num)
    have set : 2 ^ 23 ≤ target * 256 ^ 3 / 256 ^ (bitLength target / 8) := by
      refine (Nat.le_div_iff_mul_le (Nat.pow_pos (by norm_num))).mpr ?_
      rw [byte_pow (bitLength target / 8),← top]
      omega
    have moved : (target * 256 ^ 3 / 256 ^ (bitLength target / 8)) >>> 8 = mantissa 256 3 target := by
      rw [Nat.shiftRight_eq_div_pow,Nat.div_div_eq_div_mul,mantissa,places,Nat.pow_succ]
      rfl
    rw [if_pos ((sign_eq _).mpr (by omega)),moved,pack_eq (by omega) small,code,places]
  · have size : (bitLength target + 7) / 8 = bitLength target / 8 + 1 := by omega
    have digits : target * 256 ^ 3 / 256 ^ (bitLength target / 8 + 1) = mantissa 256 3 target := by rw [mantissa,places]
    rw [size,digits,if_neg (fun set => absurd ((sign_eq _).mp set) (by omega)),pack_eq (by omega) small,code,places]

theorem code_mod (target : ℕ) : code 256 3 target % 2 ^ 23 = mantissa 256 3 target := by
  have small := digits_lt target
  unfold code
  omega

theorem code_div (target : ℕ) : code 256 3 target / 2 ^ 24 = exponent 256 target := by
  have small := digits_lt target
  unfold code
  omega

private theorem code_sign (target : ℕ) : ¬ code 256 3 target &&& 0x00800000 ≠ 0 := by
  have small := digits_lt target
  rw [sign_eq]
  unfold code
  omega

end Encoding

section Decoding

variable {target : ℕ} {compact : ℤ} {decoded : CompactTarget}

theorem even_byte : Even 256 := ⟨128,rfl⟩

theorem compactToTarget_code (positive : 0 < target) (bounded : target < 2 ^ 255) :
    compactToTarget (code 256 3 target) = some { target := truncate 256 3 target,compact := code 256 3 target } := by
  have large : 1 < 256 := by norm_num
  have two : 2 ≤ 3 := by norm_num
  have small := digits_lt target
  have some := truncate_pos even_byte large two positive
  have below := truncate_le (by norm_num : 0 < 256) 3 target
  have short : exponent 256 target ≤ 32 := by
    unfold exponent
    have less : Nat.log 256 (2 * target) < 32 := Nat.log_lt_of_lt_pow' (by norm_num) (by omega)
    omega
  have first : 1 ≤ exponent 256 target := Nat.succ_le_succ (Nat.zero_le _)
  have digits : mantissa 256 3 target ≠ 0 := fun none => by
    rw [truncate,none,number,Nat.zero_mul,Nat.zero_div] at some
    exact absurd some (lt_irrefl _)
  have range : ¬ ((code 256 3 target : ℤ) < 0 ∨ (code 256 3 target : ℤ) > 0xffffffff) := by
    unfold code
    omega
  unfold compactToTarget
  rw [if_neg range,Int.toNat_natCast]
  dsimp only
  rw [Nat.shiftRight_eq_div_pow,code_div,low_bits,code_mod,if_neg,decoded_eq,if_neg]
  · rfl
  · rintro (none | high | other)
    · rw [← truncate] at none
      omega
    · rw [← truncate] at high
      unfold uint256Max at high
      omega
    · refine other ?_
      rw [← truncate,targetToCompact_eq some (by omega),code_truncate even_byte large two positive]
  · rintro (sign | none | none | long)
    · exact code_sign target sign
    · exact digits none
    · omega
    · omega

theorem compactToTarget_large (high : 2 ^ 255 ≤ target) : compactToTarget (code 256 3 target) = none := by
  have long : 33 ≤ exponent 256 target := by
    unfold exponent
    have places := Nat.le_log_of_pow_le (by norm_num : 1 < 256) (by omega : 256 ^ 32 ≤ 2 * target)
    omega
  unfold compactToTarget
  split
  · rfl
  · dsimp only
    rw [Int.toNat_natCast,Nat.shiftRight_eq_div_pow,code_div,if_pos (.inr (.inr (.inr (by omega))))]

theorem compactToTarget_eq (accepted : compactToTarget compact = some decoded) :
    ∃ target : ℕ, 0 < target ∧ target < 2 ^ 256 ∧ truncate 256 3 target = target ∧ compact = code 256 3 target ∧
      decoded = { target := target,compact := compact } := by
  unfold compactToTarget at accepted
  obtain ⟨range,accepted⟩ := Option.ite_none_left_eq_some.mp accepted
  dsimp only at accepted
  obtain ⟨parts,accepted⟩ := Option.ite_none_left_eq_some.mp accepted
  obtain ⟨again,accepted⟩ := Option.ite_none_left_eq_some.mp accepted
  rw [decoded_eq] at again accepted
  rw [not_or,not_or] at again
  obtain ⟨some,inside,same⟩ := again
  set target := number 256 3 (compact.toNat >>> 24) (compact.toNat &&& 0x007fffff) with value
  have bounded : target < 2 ^ 256 := by
    unfold uint256Max at inside
    omega
  have positive : 0 < target := by omega
  rw [not_not,targetToCompact_eq positive bounded,Option.some.injEq] at same
  refine ⟨target,positive,bounded,?_,by omega,(Option.some.inj accepted).symm⟩
  rw [Nat.shiftRight_eq_div_pow,low_bits,← same,code_div,code_mod] at value
  exact value.symm

end Decoding

section Representable

variable {target low high compact first second : ℤ} {decoded left right : CompactTarget}

def Representable (target : ℤ) : Prop :=
  ∃ compact decoded, compactToTarget compact = some decoded ∧ decoded.target = target

/-- The compact value of a target is accepted and stands for the largest target not above it. -/
def Represented (target : ℤ) : Prop :=
  ∃ compact : ℕ, targetToCompact target = some compact ∧ ∃ decoded, compactToTarget compact = some decoded ∧
    IsGreatest {value | Representable value ∧ value ≤ target} decoded.target

theorem Representable.truncate (held : Representable target) :
    ∃ number : ℕ, target = number ∧ 0 < number ∧ Truncation.truncate 256 3 number = number := by
  obtain ⟨compact,decoded,accepted,rfl⟩ := held
  obtain ⟨number,positive,_,kept,_,rfl⟩ := compactToTarget_eq accepted
  exact ⟨number,rfl,positive,kept⟩

theorem represented_iff (positive : 0 < target) (bounded : target < 2 ^ 256) :
    Represented target ↔ target < 2 ^ 255 := by
  obtain ⟨number,rfl⟩ := Int.eq_ofNat_of_zero_le positive.le
  have some : 0 < number := by omega
  have written := targetToCompact_eq some (by omega)
  constructor
  · rintro ⟨compact,encoded,decoded,accepted,_⟩
    by_contra large
    cases written.symm.trans encoded
    rw [compactToTarget_large (by omega)] at accepted
    cases accepted
  · intro small
    have accepted := compactToTarget_code some (by omega)
    obtain ⟨⟨_,_,below⟩,greatest⟩ := isGreatest_truncate even_byte (by norm_num : 1 < 256) (by norm_num : 2 ≤ 3) some
    refine ⟨_,written,_,accepted,⟨⟨_,_,accepted,rfl⟩,Int.ofNat_le.mpr below⟩,?_⟩
    rintro value ⟨held,le⟩
    obtain ⟨other,rfl,least,kept⟩ := held.truncate
    exact Int.ofNat_le.mpr (greatest ⟨least,kept,Int.ofNat_le.mp le⟩)

private theorem targetToCompact_mono (positive : 0 < low) (le : low ≤ high) (bounded : high < 2 ^ 256) :
    ∃ lower upper, targetToCompact low = some lower ∧ targetToCompact high = some upper ∧ lower ≤ upper := by
  obtain ⟨least,rfl⟩ := Int.eq_ofNat_of_zero_le positive.le
  obtain ⟨most,rfl⟩ := Int.eq_ofNat_of_zero_le (positive.le.trans le)
  exact ⟨_,_,targetToCompact_eq (by omega) (by omega),targetToCompact_eq (by omega) (by omega),
    code_mono (by norm_num) (by exact_mod_cast le)⟩

theorem targetToCompact_decoded (accepted : compactToTarget compact = some decoded) :
    ∃ written : ℕ, targetToCompact decoded.target = some written ∧ (written : ℤ) = compact := by
  obtain ⟨number,positive,bounded,_,rfl,rfl⟩ := compactToTarget_eq accepted
  exact ⟨_,targetToCompact_eq positive bounded,rfl⟩

private theorem compactToTarget_injective (one : compactToTarget first = some left)
    (other : compactToTarget second = some right) (same : left.target = right.target) : first = second := by
  obtain ⟨written,encoded,rfl⟩ := targetToCompact_decoded one
  obtain ⟨again,repeated,rfl⟩ := targetToCompact_decoded other
  rw [same,repeated] at encoded
  cases encoded
  rfl

/-- The encoder gives the largest targets an exponent of 33, which the decoder refuses; below them the two agree, and
everywhere the encoding keeps the order and a decoded target has one compact value. -/
theorem compact_targets (target : ℤ) (positive : 0 < target) (bounded : target < 2 ^ 256) :
    (Represented target ↔ target < 2 ^ 255) ∧
    (∀ high, target ≤ high → high < 2 ^ 256 →
      ∃ lower upper, targetToCompact target = some lower ∧ targetToCompact high = some upper ∧ lower ≤ upper) ∧
    (∀ compact decoded, compactToTarget compact = some decoded →
      ∃ written : ℕ, targetToCompact decoded.target = some written ∧ (written : ℤ) = compact) ∧
    ∀ first second left right, compactToTarget first = some left → compactToTarget second = some right →
      left.target = right.target → first = second :=
  ⟨represented_iff positive bounded,fun _ le inside => targetToCompact_mono positive le inside,
    fun _ _ accepted => targetToCompact_decoded accepted,
      fun _ _ _ _ one other same => compactToTarget_injective one other same⟩

theorem compact_targets_one : Represented (0xffff * 2 ^ 208) ↔ (0xffff * 2 ^ 208 : ℤ) < 2 ^ 255 :=
  (compact_targets (0xffff * 2 ^ 208) (by norm_num) (by norm_num)).1

/-- The compact value of the largest target is refused. -/
theorem largest_refused : 0 < uint256Max ∧ uint256Max < 2 ^ 256 ∧
    (∃ compact : ℕ, targetToCompact uint256Max = some compact ∧ compactToTarget compact = none) ∧
      ¬ Represented uint256Max := by
  refine ⟨by decide,by decide,⟨0x2100ffff,by decide +kernel,by decide +kernel⟩,fun held => ?_⟩
  exact absurd ((represented_iff (by decide) (by decide)).mp held) (by decide)

end Representable

end NodejsPool.Coins.CompactTargets
