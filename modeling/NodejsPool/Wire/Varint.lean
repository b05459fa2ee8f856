import Mathlib.Data.Nat.Log
import Mathlib.Tactic.Ring

/-! Numbers as bytes: base-128 varints, little-endian words and two's complement. -/
namespace NodejsPool.Wire

abbrev Byte := Fin 256

def byte (value : ℕ) : Byte := Fin.ofNat 256 value

theorem byte_val {value : ℕ} (small : value < 256) : (byte value).val = value := Nat.mod_eq_of_lt small

namespace Varint

def groups : ℕ → ℕ → List Byte
  | 0,value => [byte (value % 128)]
  | fuel + 1,value =>
    if value < 128 then [byte value] else byte (value % 128 + 128) :: groups fuel (value / 128)

def write (value : ℕ) : List Byte := groups value.log2 value

def read : List Byte → Option (ℕ × List Byte)
  | [] => none
  | low::rest =>
    if low.val < 128 then some (low.val,rest)
    else (read rest).map fun (high,rest) => (low.val - 128 + 128 * high,rest)

theorem read_groups {fuel value : ℕ} (enough : value < 128 ^ (fuel + 1)) (rest : List Byte) :
    read (groups fuel value ++ rest) = some (value,rest) := by
  induction fuel generalizing value with
  | zero =>
    have small : value < 128 := by simpa using enough
    have same : value % 128 = value := Nat.mod_eq_of_lt small
    have here : (byte value).val = value := byte_val (by omega)
    simp [groups,read,same,here,small]
  | succ fuel ih =>
    unfold groups
    split
    next small =>
      have here : (byte value).val = value := byte_val (by omega)
      simp [read,here,small]
    next =>
      have here : (byte (value % 128 + 128)).val = value % 128 + 128 := byte_val (by omega)
      have high : value / 128 < 128 ^ (fuel + 1) := by
        rw [Nat.div_lt_iff_lt_mul (by decide)]
        exact enough
      rw [List.cons_append,read,here,if_neg (by omega),ih high]
      simp only [Option.map_some,Option.some.injEq,Prod.mk.injEq,and_true]
      omega

theorem lt_groups (value : ℕ) : value < 128 ^ (value.log2 + 1) := by
  calc
    value < 2 ^ (value.log2 + 1) := Nat.lt_log2_self
    _ ≤ 128 ^ (value.log2 + 1) := Nat.pow_le_pow_left (by decide) _

@[simp] theorem read_write (value : ℕ) (rest : List Byte) : read (write value ++ rest) = some (value,rest) :=
  read_groups (lt_groups value) rest

theorem groups_stable {fuel more value : ℕ} (enough : value < 128 ^ (fuel + 1)) (enough' : value < 128 ^ (more + 1)) :
    groups fuel value = groups more value := by
  induction fuel generalizing more value with
  | zero =>
    have small : value < 128 := by simpa using enough
    cases more with
    | zero => rfl
    | succ more => simp [groups,small,Nat.mod_eq_of_lt small]
  | succ fuel ih =>
    cases more with
    | zero =>
      have small : value < 128 := by simpa using enough'
      simp [groups,small,Nat.mod_eq_of_lt small]
    | succ more =>
      have high (fuel : ℕ) (enough : value < 128 ^ (fuel + 1 + 1)) : value / 128 < 128 ^ (fuel + 1) := by
        rw [Nat.div_lt_iff_lt_mul (by decide)]
        exact enough
      unfold groups
      rw [ih (high fuel enough) (high more enough')]

theorem write_small {value : ℕ} (small : value < 128) : write value = [byte value] := by
  have enough : value < 128 ^ (0 + 1) := by simpa using small
  rw [write,groups_stable (lt_groups value) enough]
  simp [groups,Nat.mod_eq_of_lt small]

theorem write_large {value : ℕ} (large : 128 ≤ value) :
    write value = byte (value % 128 + 128) :: write (value / 128) := by
  have high : value / 128 < 128 ^ ((value / 128).log2 + 1) := lt_groups _
  have enough : value < 128 ^ ((value / 128).log2 + 1 + 1) := (Nat.div_lt_iff_lt_mul (by decide)).mp high
  rw [write,groups_stable (lt_groups value) enough,groups,if_neg (by omega),write]

theorem write_length_le {value count : ℕ} (fits : value < 128 ^ (count + 1)) : (write value).length ≤ count + 1 := by
  induction count generalizing value with
  | zero =>
    rw [write_small (by simpa using fits)]
    simp
  | succ count ih =>
    by_cases small : value < 128
    · rw [write_small small]
      simp
    · rw [write_large (by omega),List.length_cons]
      have high : value / 128 < 128 ^ (count + 1) := by
        rw [Nat.div_lt_iff_lt_mul (by decide)]
        exact fits
      exact Nat.succ_le_succ (ih high)

theorem lt_write_length (value : ℕ) : value < 128 ^ (write value).length := by
  induction value using Nat.strongRecOn with
  | ind value ih =>
    by_cases small : value < 128
    · rw [write_small small]
      simpa using small
    · rw [write_large (by omega),List.length_cons]
      have high := ih (value / 128) (by omega)
      exact (Nat.div_lt_iff_lt_mul (by decide)).mp high

theorem write_ne_nil (value : ℕ) : write value ≠ [] := by
  unfold write
  cases value.log2 with
  | zero => simp [groups]
  | succ fuel =>
    unfold groups
    split <;> simp

end Varint

def littleEndian : ℕ → ℕ → List Byte
  | 0,_ => []
  | count + 1,value => byte (value % 256) :: littleEndian count (value / 256)

def readLittleEndian : ℕ → List Byte → Option (ℕ × List Byte)
  | 0,bytes => some (0,bytes)
  | _ + 1,[] => none
  | count + 1,low::bytes => (readLittleEndian count bytes).map fun (high,bytes) => (low.val + 256 * high,bytes)

@[simp] theorem littleEndian_length (count value : ℕ) : (littleEndian count value).length = count := by
  induction count generalizing value with
  | zero => rfl
  | succ count ih => simp [littleEndian,ih]

theorem readLittleEndian_write {count value : ℕ} (fits : value < 256 ^ count) (rest : List Byte) :
    readLittleEndian count (littleEndian count value ++ rest) = some (value,rest) := by
  induction count generalizing value with
  | zero =>
    obtain rfl : value = 0 := by simpa using fits
    rfl
  | succ count ih =>
    have high : value / 256 < 256 ^ count := by
      rw [Nat.div_lt_iff_lt_mul (by decide)]
      exact fits
    have low : (byte (value % 256)).val = value % 256 := byte_val (Nat.mod_lt _ (by decide))
    rw [littleEndian,List.cons_append,readLittleEndian,ih high]
    simp only [Option.map_some,low,Option.some.injEq,Prod.mk.injEq,and_true]
    exact Nat.mod_add_div value 256

def unsigned64 (value : ℤ) : ℕ := (value % 2 ^ 64).toNat

def signed64 (value : ℕ) : ℤ := if value < 2 ^ 63 then value else value - 2 ^ 64

theorem signed64_unsigned64 {value : ℤ} (low : -(2 ^ 63) ≤ value) (high : value < 2 ^ 63) :
    signed64 (unsigned64 value) = value := by
  unfold signed64 unsigned64
  split <;> omega

end NodejsPool.Wire
