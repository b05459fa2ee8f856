import Mathlib.Data.List.Induction
import Mathlib.Data.List.TakeDrop
import Mathlib.Data.Nat.Size
import Mathlib.Tactic.FinCases
import Mathlib.Tactic.Ring

/-! Numbers as hexadecimal text of a fixed width, and the width of a number in bits. -/
namespace NodejsPool.Hex

/-- `number.toString(16)`. -/
def toHex (number : ℕ) : List Char := Nat.toDigits 16 number

/-- `("00".repeat(bytes) + str.substr(0, hexLength)).substr(-hexLength)`. -/
def padHex (str : List Char) (bytes : ℕ) : List Char :=
  let padded := List.replicate (bytes * 2) '0' ++ str.take (bytes * 2)
  padded.drop (padded.length - bytes * 2)

def digitValue (char : Char) : ℕ := "0123456789abcdef".toList.idxOf char

def hexValue (text : List Char) : ℕ := text.foldl (fun value char => 16 * value + digitValue char) 0

theorem digitValue_digitChar : ∀ digit < 16, digitValue (Nat.digitChar digit) = digit := by decide

theorem hexValue_append (text : List Char) (char : Char) :
    hexValue (text ++ [char]) = 16 * hexValue text + digitValue char := by
  simp [hexValue]

theorem hexValue_toHex (number : ℕ) : hexValue (toHex number) = number := by
  induction number using Nat.strongRecOn with
  | ind number ih =>
    unfold toHex at ih ⊢
    rw [Nat.toDigits_eq_if (by decide)]
    split
    next small => simpa [hexValue] using digitValue_digitChar number small
    next large =>
      have less : number / 16 < number := by omega
      rw [hexValue_append,ih _ less,digitValue_digitChar _ (Nat.mod_lt _ (by decide))]
      omega

theorem hexValue_concat (left right : List Char) :
    hexValue (left ++ right) = hexValue left * 16^right.length + hexValue right := by
  induction right using List.reverseRecOn with
  | nil => simp [hexValue]
  | append_singleton right char ih =>
    rw [← List.append_assoc,hexValue_append,hexValue_append,ih,List.length_append,List.length_singleton,pow_succ]
    ring

theorem digitChar_digitValue {char : Char} (digit : digitValue char < 16) : Nat.digitChar (digitValue char) = char := by
  have member : char ∈ "0123456789abcdef".toList := List.idxOf_lt_length_iff.mp digit
  fin_cases member <;> rfl

theorem toHex_digits (number : ℕ) : ∀ char ∈ toHex number, digitValue char < 16 := by
  induction number using Nat.strongRecOn with
  | ind number ih =>
    unfold toHex at ih ⊢
    rw [Nat.toDigits_eq_if (by decide)]
    split
    next small =>
      intro char member
      rw [List.mem_singleton.mp member,digitValue_digitChar _ small]
      exact small
    next large =>
      intro char member
      rcases List.mem_append.mp member with before | last
      · exact ih _ (by omega) char before
      · rw [List.mem_singleton.mp last,digitValue_digitChar _ (Nat.mod_lt _ (by decide))]
        exact Nat.mod_lt _ (by decide)

theorem hexValue_zeros (zeros : ℕ) (text : List Char) : hexValue (List.replicate zeros '0' ++ text) =
    hexValue text := by
  induction zeros with
  | zero => rfl
  | succ zeros ih =>
    rw [List.replicate_succ,List.cons_append]
    exact ih

theorem length_toHex {number bytes : ℕ} (positive : 0 < bytes) (fits : number < 16 ^ (bytes * 2)) :
    (toHex number).length ≤ bytes * 2 :=
  (Nat.length_toDigits_le_iff (by decide) (by omega)).mpr fits

theorem padHex_short {str : List Char} {bytes : ℕ} (short : str.length ≤ bytes * 2) :
    padHex str bytes = List.replicate (bytes * 2 - str.length) '0' ++ str := by
  have whole : str.take (bytes * 2) = str := List.take_of_length_le short
  have size : (List.replicate (bytes * 2) '0' ++ str).length - bytes * 2 = str.length := by simp
  unfold padHex
  simp only [whole,size]
  rw [List.drop_append_of_le_length (by simpa using short),List.drop_replicate]

theorem length_padHex (str : List Char) (bytes : ℕ) : (padHex str bytes).length = bytes * 2 := by
  simp only [padHex,List.length_drop,List.length_append,List.length_replicate]
  omega

theorem hexValue_padHex {number bytes : ℕ} (positive : 0 < bytes) (fits : number < 16 ^ (bytes * 2)) :
    hexValue (padHex (toHex number) bytes) = number := by
  rw [padHex_short (length_toHex positive fits),hexValue_zeros,hexValue_toHex]

theorem toDigits_four {base number : ℕ} (large : 1 < base) (low : base^3 ≤ number) (high : number < base^4) :
    Nat.toDigits base number = [Nat.digitChar (number / base^3),Nat.digitChar (number / base^2 % base),
      Nat.digitChar (number / base % base),Nat.digitChar (number % base)] := by
  have positive : 0 < base := Nat.zero_lt_of_lt large
  have third : base ≤ number / base^2 := by
    rw [Nat.le_div_iff_mul_le (Nat.pow_pos positive)]
    exact (pow_succ' base 2).symm.le.trans low
  have second : base ≤ number / base :=
    third.trans (Nat.div_le_div_left (Nat.le_self_pow two_ne_zero base) positive)
  have first : base ≤ number := second.trans (Nat.div_le_self number base)
  have top : number / base^3 < base := by
    rw [Nat.div_lt_iff_lt_mul (Nat.pow_pos positive)]
    exact high.trans_eq (pow_succ' base 3)
  have square : number / base / base = number / base^2 := by rw [Nat.div_div_eq_div_mul,← pow_two]
  have cube : number / base^2 / base = number / base^3 := by rw [Nat.div_div_eq_div_mul,← pow_succ]
  rw [Nat.toDigits_of_base_le large first,Nat.toDigits_of_base_le large second,square,
    Nat.toDigits_of_base_le large third,cube,Nat.toDigits_of_lt_base top]
  rfl

end NodejsPool.Hex
