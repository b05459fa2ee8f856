import Mathlib.Data.Nat.Digits.Defs
import Mathlib.Data.Rat.Floor
import NodejsPool.Pool.BlockTemplates

/-! The target a job carries, cut to the width of its nonce, and the difficulty the pool reads off
a hash: what meets the first is not low for the second. -/
namespace NodejsPool.Pool.Targets
open Templates List Hex

variable {size d : ℕ} {hash : Bytes}

section Bytes

theorem toLower_digit {char : Char} (digit : digitValue char < 16) : hexDigit char = some (digitValue char) := by
  have member : char ∈ "0123456789abcdef".toList := idxOf_lt_length_iff.mp digit
  fin_cases member <;> rfl

theorem byte_text : ∀ high < 16, ∀ low < 16,
    padHex (toHex (16 * high + low)) 1 = [Nat.digitChar high,Nat.digitChar low] := by
  decide +kernel

theorem bytesHex_nil : (bytesHex []).toList = [] := by simp [bytesHex]

theorem bytesHex_cons (byte : UInt8) (bytes : Bytes) :
    (bytesHex (byte::bytes)).toList = padHex (toHex byte.toNat) 1 ++ (bytesHex bytes).toList := by
  simp [bytesHex]

theorem length_bytesHex (bytes : Bytes) : (bytesHex bytes).toList.length = 2 * bytes.length := by
  induction bytes with
  | nil => rw [bytesHex_nil,length_nil,length_nil]
  | cons byte bytes ih =>
    rw [bytesHex_cons,length_append,length_padHex,ih,length_cons]
    omega

theorem bytesHex_fromHexList : ∀ (size : ℕ) (text : List Char), text.length = 2 * size →
    (∀ char ∈ text, digitValue char < 16) → (bytesHex (fromHexList text)).toList = text
  | 0, text, length, _ => by
    rw [eq_nil_of_length_eq_zero length]
    exact bytesHex_nil
  | size + 1, [], length, _ => by simp at length
  | size + 1, [_], length, _ => by
    simp only [length_singleton] at length
    omega
  | size + 1, high::low::rest, length, digits => by
    have first : digitValue high < 16 := digits high (by simp)
    have second : digitValue low < 16 := digits low (by simp)
    have small : 16 * digitValue high + digitValue low < 256 := by omega
    have ih := bytesHex_fromHexList size rest (by simp only [length_cons] at length; omega)
      fun char member => digits char (by simp [member])
    simp only [fromHexList,toLower_digit first,toLower_digit second]
    rw [bytesHex_cons,ih,UInt8.toNat_ofNat_of_lt' small,byte_text _ first _ second,digitChar_digitValue first,
      digitChar_digitValue second]
    rfl

def littleValue (bytes : Bytes) : ℕ := Nat.ofDigits 256 (bytes.map UInt8.toNat)

theorem littleValue_append (low high : Bytes) :
    littleValue (low ++ high) = littleValue low + 256^low.length * littleValue high := by
  simp [littleValue,Nat.ofDigits_append]

theorem littleValue_lt (bytes : Bytes) : littleValue bytes < 256^bytes.length := by
  have bound := Nat.ofDigits_lt_base_pow_length (b := 256) (l := bytes.map UInt8.toNat) (by decide)
    fun digit member => by
      obtain ⟨byte,-,rfl⟩ := mem_map.mp member
      exact byte.toNat_lt
  simpa [littleValue] using bound

private theorem hexValue_byte : ∀ number < 256, hexValue (padHex (toHex number) 1) = number :=
  fun number small => hexValue_padHex (by decide) (by simpa using small)

theorem hexValue_bytesHex (bytes : Bytes) : hexValue (bytesHex bytes).toList = littleValue bytes.reverse := by
  induction bytes with
  | nil => simp [bytesHex_nil,littleValue,hexValue]
  | cons byte bytes ih =>
    have power : 16^(2 * bytes.length) = 256^bytes.length := by
      rw [pow_mul]
      rfl
    rw [bytesHex_cons,hexValue_concat,length_bytesHex,ih,hexValue_byte _ byte.toNat_lt,reverse_cons,
      littleValue_append,length_reverse,power]
    simp only [littleValue,map_cons,map_nil,Nat.ofDigits_singleton]
    ring

end Bytes

section Integers

/-- What the integer helpers are given here: a finite number, a `BigInt` or a buffer. -/
inductive BigIntInput where
  | number (value : ℚ)
  | bigint (value : ℤ)
  | buffer (bytes : Bytes)

inductive Endian where
  | little
  | big
  deriving DecidableEq

/-- `Math.trunc(value)`. -/
def trunc (value : ℚ) : ℤ := value.num.tdiv value.den

/-- `BigInt("0x" + (text || "00"))`. -/
def bigIntHex (text : List Char) : ℤ := Hex.hexValue (if text = [] then ['0','0'] else text)

def toBigInt : BigIntInput → ℤ
  | .number value => trunc value
  | .bigint value => value
  | .buffer bytes => bigIntHex (bytesHex bytes).toList

def fromBuffer (buffer : Bytes) (endian : Endian) : ℤ :=
  let normalized := if endian = .little then buffer.reverse else buffer
  bigIntHex (bytesHex normalized).toList

/-- `value.toString(16)` of a `BigInt`. -/
def bigIntText (value : ℤ) : List Char := if value < 0 then '-' :: Hex.toHex value.natAbs else Hex.toHex value.natAbs

/-- `hex` brought to `size` bytes: zeros on the left, or the low bytes dropped. -/
def sizedText (size : ℕ) (hex : List Char) : List Char :=
  if hex.length < size * 2 then
    let padded := List.replicate (size * 2) '0' ++ hex
    padded.drop (padded.length - size * 2)
  else if size * 2 < hex.length then hex.take (size * 2)
  else hex

def toBuffer (value : BigIntInput) (endian : Endian) (size : Option ℕ) : Bytes :=
  let text := bigIntText (toBigInt value)
  let even := if text.length % 2 = 1 then '0' :: text else text
  let hex := size.elim even fun size => sizedText size even
  let buffer := fromHexList (if hex = [] then ['0','0'] else hex)
  if endian = .little then buffer.reverse else buffer

/-- Division of two `BigInt`s; none is the `RangeError` of a zero divisor. -/
def bigDivide (left right : ℤ) : Option ℤ := if right = 0 then none else some (left.tdiv right)

end Integers

section Difficulties

variable (baseDiff : ℤ)

def divideBaseDiff (diff : BigIntInput) : Option ℤ :=
  let divisor := toBigInt diff
  if divisor = 0 then some 0 else bigDivide baseDiff divisor

def hashBuffDiff (hash : Bytes) : Option ℤ := divideBaseDiff baseDiff (.bigint (fromBuffer hash .little))

def hashEthBuffDiff (hash : Bytes) : Option ℤ := divideBaseDiff baseDiff (.bigint (fromBuffer hash .big))

def ge (left right : BigIntInput) : Bool :=
  match left, right with
  | .number left, .number right => right ≤ left
  | _, _ => toBigInt right ≤ toBigInt left

def sizedTargetValue (diff : BigIntInput) (size : ℕ) : Option ℤ := bigDivide (2^(size * 8) - 1) (toBigInt diff)

def getTargetHex (diff : BigIntInput) (size : ℕ) : Option (List Char) :=
  (sizedTargetValue diff size).map fun target =>
    Hex.padHex (bytesHex (toBuffer (.bigint target) .little (some size))).toList size

structure JobInput where
  /-- The miner's own difficulty. -/
  difficulty : ℚ
  coinHashFactor : ℚ
  hashesPerDifficulty : ℚ
  curr_coin_min_diff : ℚ
  templateDifficulty : ℚ
  integerDifficulty : Bool

/-- The difficulty `getCoinJob` gives a job. -/
def coinDiff (input : JobInput) : ℚ :=
  let rawCoinDiff := input.difficulty / (input.coinHashFactor * input.hashesPerDifficulty)
  let coinDiff := min (max rawCoinDiff input.curr_coin_min_diff) input.templateDifficulty
  if input.integerDifficulty then ⌊coinDiff⌋ else coinDiff

/-- `nonceSize` is the number of bytes of the nonce of the job's blob type. -/
def buildDefaultTarget (nonceSize : ℕ) (input : JobInput) : Option (List Char) :=
  getTargetHex (.number (coinDiff input)) nonceSize

def ergTarget (coinDiff : ℚ) : Option ℤ := bigDivide baseDiff (toBigInt (.number coinDiff))

def notLow (hash : Bytes) (difficulty : ℚ) : Bool :=
  (hashBuffDiff baseDiff hash).any fun hashDiff => ge (.bigint hashDiff) (.number difficulty)

/-- An honest miner reads its target, lowest byte first, and submits a hash whose top bytes are below it. -/
def Honest (size : ℕ) (target : List Char) (hash : Bytes) : Prop :=
  littleValue (hash.drop (hash.length - size)) < littleValue (fromHexList target)

instance (size : ℕ) (target : List Char) (hash : Bytes) : Decidable (Honest size target hash) :=
  inferInstanceAs (Decidable (_ < _))

end Difficulties

theorem trunc_natCast (value : ℕ) : trunc value = value := by
  simp [trunc]

theorem bigIntHex_bytes (bytes : Bytes) : bigIntHex (bytesHex bytes).toList = littleValue bytes.reverse := by
  unfold bigIntHex
  split
  next empty =>
    have length := length_bytesHex bytes
    rw [empty,length_nil] at length
    rw [eq_nil_of_length_eq_zero (show bytes.length = 0 by omega)]
    rfl
  · rw [hexValue_bytesHex]

theorem fromBuffer_little (hash : Bytes) : fromBuffer hash .little = littleValue hash := by
  unfold fromBuffer
  rw [if_pos rfl,bigIntHex_bytes,reverse_reverse]

theorem fromBuffer_big (hash : Bytes) : fromBuffer hash .big = littleValue hash.reverse := by
  unfold fromBuffer
  rw [if_neg (by decide),bigIntHex_bytes]

private theorem sizedText_short {hex : List Char} (short : hex.length ≤ size * 2) :
    sizedText size hex = replicate (size * 2 - hex.length) '0' ++ hex := by
  unfold sizedText
  split
  · have size : (replicate (size * 2) '0' ++ hex).length - size * 2 = hex.length := by simp
    simp only [size]
    rw [drop_append_of_le_length (by simpa using short),drop_replicate]
  · next full =>
    rw [if_neg (by omega),show size * 2 - hex.length = 0 by omega]
    rfl

private theorem toBuffer_fits {value : ℕ} (positive : 0 < size) (fits : value < 256^size) :
    (toBuffer (.bigint value) .little (some size)).length = size ∧
      littleValue (toBuffer (.bigint value) .little (some size)) = value := by
  have width : 16^(size * 2) = 256^size := by
    rw [mul_comm,pow_mul]
    rfl
  have short : (toHex value).length ≤ size * 2 := length_toHex positive (by omega)
  -- an odd text gets a digit, which an even width has room for
  obtain ⟨even,evenText⟩ : ∃ even, even =
    if (toHex value).length % 2 = 1 then '0' :: toHex value else toHex value := ⟨_,rfl⟩
  have facts : even.length ≤ size * 2 ∧ hexValue even = value ∧ ∀ char ∈ even, digitValue char < 16 := by
    subst evenText
    split
    · refine ⟨?_,?_,?_⟩
      · rw [length_cons]
        omega
      · exact (hexValue_zeros 1 _).trans (hexValue_toHex value)
      · intro char member
        rcases mem_cons.mp member with rfl | member
        · decide
        · exact toHex_digits value char member
    · exact ⟨short,hexValue_toHex value,toHex_digits value⟩
  obtain ⟨evenShort,evenValue,evenDigits⟩ := facts
  obtain ⟨hex,hexText⟩ : ∃ hex, hex = sizedText size even := ⟨_,rfl⟩
  have text : hex = replicate (size * 2 - even.length) '0' ++ even := hexText.trans (sizedText_short evenShort)
  have length : hex.length = 2 * size := by
    rw [text,length_append,length_replicate]
    omega
  have digits : ∀ char ∈ hex, digitValue char < 16 := by
    intro char member
    rw [text] at member
    rcases mem_append.mp member with zero | digit
    · rw [eq_of_mem_replicate zero]
      decide
    · exact evenDigits char digit
  have written := bytesHex_fromHexList size hex length digits
  have whole : toBuffer (.bigint value) .little (some size) = (fromHexList hex).reverse := by
    have nonempty : hex ≠ [] := by
      rintro rfl
      rw [length_nil] at length
      omega
    have natural : bigIntText (value : ℤ) = toHex value := by simp [bigIntText]
    unfold toBuffer
    simp only [toBigInt,natural,Option.elim,← evenText,← hexText]
    rw [if_neg nonempty,if_pos trivial]
  rw [whole]
  refine ⟨?_,?_⟩
  · have twice := length_bytesHex (fromHexList hex)
    rw [written,length] at twice
    rw [length_reverse]
    omega
  · rw [← hexValue_bytesHex,written,text,hexValue_zeros,evenValue]

private theorem target_fits (d size : ℕ) : (2^(8 * size) - 1) / d < 256^size := by
  have power : 2^(8 * size) = 256^size := by
    rw [pow_mul]
    rfl
  have positive : 0 < 256^size := pow_pos (by decide) size
  have bound := Nat.div_le_self (2^(8 * size) - 1) d
  omega

theorem getTargetHex_natCast (positive : 1 ≤ d) (wide : 0 < size) :
    ∃ target : Bytes, getTargetHex (.number d) size = some (bytesHex target).toList ∧ target.length = size ∧
      littleValue target = (2^(8 * size) - 1) / d := by
  obtain ⟨length,value⟩ := toBuffer_fits wide (target_fits d size)
  refine ⟨_,?_,length,value⟩
  have quotient : sizedTargetValue (.number d) size = some (((2^(8 * size) - 1) / d : ℕ) : ℤ) := by
    have top : (2^(size * 8) - 1 : ℤ) = ((2^(8 * size) - 1 : ℕ) : ℤ) := by
      rw [Nat.cast_sub Nat.one_le_two_pow,mul_comm]
      norm_num
    unfold sizedTargetValue
    rw [toBigInt,trunc_natCast,bigDivide,if_neg (by omega),top,Int.ofNat_tdiv]
  unfold getTargetHex
  rw [quotient,Option.map_some,padHex_short (by rw [length_bytesHex,length,mul_comm]),length_bytesHex,length,
    show size * 2 - 2 * size = 0 by omega]
  rfl

theorem hash_mul_le (size low : ℕ) {top : ℕ} (inside : size ≤ 32) (small : low < 256^(32 - size))
    (below : top < (2^(8 * size) - 1) / d) : (low + 256^(32 - size) * top) * d ≤ 2^256 - 1 := by
  have next : (top + 1) * d ≤ 2^(8 * size) - 1 := (Nat.mul_le_mul_right d below).trans (Nat.div_mul_le_self _ d)
  have power : 256^(32 - size) * 2^(8 * size) = 2^256 := by
    rw [show (256 : ℕ) = 2^8 from rfl,← pow_mul,← pow_add]
    congr 1
    omega
  have scale : 0 < 256^(32 - size) := pow_pos (by decide) _
  calc
    (low + 256^(32 - size) * top) * d ≤ (256^(32 - size) * (top + 1)) * d := by
      apply Nat.mul_le_mul_right
      rw [Nat.mul_add]
      omega
    _ = 256^(32 - size) * ((top + 1) * d) := Nat.mul_assoc ..
    _ ≤ 256^(32 - size) * (2^(8 * size) - 1) := Nat.mul_le_mul_left _ next
    _ = 2^256 - 256^(32 - size) := by rw [Nat.mul_sub,power,Nat.mul_one]
    _ ≤ 2^256 - 1 := Nat.sub_le_sub_left scale _

theorem littleValue_zero (size : ℕ) : littleValue (replicate size 0) = 0 := by
  induction size with
  | zero => rfl
  | succ size ih =>
    rw [replicate_succ',littleValue_append,ih]
    simp [littleValue]

theorem littleValue_eq_zero {bytes : Bytes} (zero : littleValue bytes = 0) : bytes = replicate bytes.length 0 := by
  induction bytes with
  | nil => rfl
  | cons byte bytes ih =>
    have parts : byte.toNat + 256 * littleValue bytes = 0 := zero
    rw [length_cons,replicate_succ,← ih (by omega)]
    rw [UInt8.toNat_inj.mp (show byte.toNat = (0 : UInt8).toNat by simpa using show byte.toNat = 0 by omega)]

theorem hashBuffDiff_nonzero (baseDiff : ℕ) (nonzero : littleValue hash ≠ 0) :
    hashBuffDiff baseDiff hash = some ((baseDiff / littleValue hash : ℕ) : ℤ) := by
  unfold hashBuffDiff divideBaseDiff
  simp only [toBigInt,fromBuffer_little]
  rw [if_neg (by omega),bigDivide,if_neg (by omega),Int.ofNat_tdiv]

theorem divideBaseDiff_isSome (baseDiff : ℤ) (diff : BigIntInput) : (divideBaseDiff baseDiff diff).isSome = true := by
  unfold divideBaseDiff
  dsimp only
  split
  · rfl
  · next divisor =>
    rw [bigDivide,if_neg divisor]
    rfl

theorem honest_difficulty {target : Bytes} (inside : size ≤ 32) (wide : hash.length = 32)
    (value : littleValue target = (2^(8 * size) - 1) / d) (honest : Honest size (bytesHex target).toList hash)
    (nonzero : littleValue hash ≠ 0) : ∃ hashDiff : ℤ, hashBuffDiff (2^256 - 1) hash = some hashDiff ∧ d ≤ hashDiff ∧
      notLow (2^256 - 1) hash d = true := by
  have read : fromHexList (bytesHex target).toList = target := fromHex_bytesHex target
  unfold Honest at honest
  rw [read,value,wide] at honest
  have parts : littleValue hash =
      littleValue (hash.take (32 - size)) + 256^(32 - size) * littleValue (hash.drop (32 - size)) := by
    have cut := littleValue_append (hash.take (32 - size)) (hash.drop (32 - size))
    rw [take_append_drop,length_take,wide,Nat.min_eq_left (Nat.sub_le _ _)] at cut
    exact cut
  have low : littleValue (hash.take (32 - size)) < 256^(32 - size) := by
    have bound := littleValue_lt (hash.take (32 - size))
    rwa [length_take,wide,Nat.min_eq_left (Nat.sub_le _ _)] at bound
  have product := hash_mul_le _ _ inside low honest
  rw [← parts] at product
  have enough : d ≤ (2^256 - 1) / littleValue hash := by
    rw [Nat.le_div_iff_mul_le (Nat.pos_of_ne_zero nonzero),Nat.mul_comm]
    exact product
  have hashDiff : hashBuffDiff (2^256 - 1) hash = some (((2^256 - 1) / littleValue hash : ℕ) : ℤ) :=
    hashBuffDiff_nonzero (2^256 - 1) nonzero
  refine ⟨_,hashDiff,by exact_mod_cast enough,?_⟩
  rw [notLow,hashDiff,Option.any_some]
  change decide (trunc (d : ℚ) ≤ (((2^256 - 1) / littleValue hash : ℕ) : ℤ)) = true
  rw [trunc_natCast,decide_eq_true_eq]
  exact_mod_cast enough

private theorem ergo_quotient {target : ℤ} (sent : bigDivide (2^256 - 1) (d : ℤ) = some target)
    (below : fromBuffer hash .big < target) (nonzero : fromBuffer hash .big ≠ 0) :
    ∃ hashDiff : ℤ, hashEthBuffDiff (2^256 - 1) hash = some hashDiff ∧ d ≤ hashDiff := by
  rw [fromBuffer_big] at below nonzero
  unfold bigDivide at sent
  split at sent
  · cases sent
  have quotient : target = ((2^256 - 1) / d : ℕ) := (Option.some.inj sent).symm.trans (Int.ofNat_tdiv (2^256 - 1) d)
  rw [quotient] at below
  have product := hash_mul_le (d := d) 32 0 le_rfl (by decide) (by exact_mod_cast below)
  rw [Nat.sub_self,pow_zero,Nat.zero_add,Nat.one_mul] at product
  have enough : d ≤ (2^256 - 1) / littleValue hash.reverse := by
    rw [Nat.le_div_iff_mul_le (by omega),Nat.mul_comm]
    exact product
  have hashDiff := hashBuffDiff_nonzero (2^256 - 1) (show littleValue hash.reverse ≠ 0 by omega)
  unfold hashBuffDiff at hashDiff
  rw [fromBuffer_little,← fromBuffer_big] at hashDiff
  exact ⟨_,hashDiff,by exact_mod_cast enough⟩

/-- The pool compares whole numbers: a difficulty's fraction is in neither the target nor the check. -/
theorem ergo_difficulty {difficulty : ℚ} (positive : 0 ≤ difficulty) {target : ℤ}
    (sent : ergTarget (2^256 - 1) difficulty = some target) (below : fromBuffer hash .big < target)
    (nonzero : fromBuffer hash .big ≠ 0) :
    ∃ hashDiff : ℤ, hashEthBuffDiff (2^256 - 1) hash = some hashDiff ∧ ⌊difficulty⌋ ≤ hashDiff ∧
      ge (.bigint hashDiff) (.number difficulty) = true := by
  have whole : toBigInt (.number difficulty) = ⌊difficulty⌋ := by
    rw [toBigInt,trunc,Int.tdiv_eq_ediv_of_nonneg (Rat.num_nonneg.mpr positive)]
    exact (Rat.floor_def difficulty).symm
  obtain ⟨d,same⟩ := Int.eq_ofNat_of_zero_le (Int.floor_nonneg.mpr positive)
  rw [ergTarget,whole,same] at sent
  obtain ⟨hashDiff,read,enough⟩ := ergo_quotient sent below nonzero
  refine ⟨hashDiff,read,same ▸ enough,?_⟩
  change decide (toBigInt (.number difficulty) ≤ hashDiff) = true
  rw [decide_eq_true_eq,whole,same]
  exact enough

theorem ergo_difficulty_two : ∃ hashDiff : ℤ, hashEthBuffDiff (2^256 - 1) [1] = some hashDiff ∧
    ⌊(5 / 2 : ℚ)⌋ ≤ hashDiff ∧ ge (.bigint hashDiff) (.number (5 / 2)) = true :=
  ergo_difficulty (by norm_num) (show ergTarget (2^256 - 1) (5 / 2) = some ((2^256 - 1) / 2) by decide +kernel)
    (by decide) (by decide)

private theorem target_positive_iff (positive : 1 ≤ d) : 0 < (2^(8 * size) - 1) / d ↔ d < 2^(8 * size) := by
  have power : 0 < 2^(8 * size) := Nat.two_pow_pos _
  rw [Nat.div_pos_iff]
  omega

theorem target_agrees {d size : ℕ} (positive : 1 ≤ d) (wide : 0 < size) (inside : size ≤ 32) :
    ∃ target, getTargetHex (.number d) size = some target ∧ target.length = 2 * size ∧
      littleValue (fromHexList target) = (2^(8 * size) - 1) / d ∧
      (∀ hash : Bytes, hash.length = 32 → Honest size target hash → hash ≠ List.replicate 32 0 →
        ∃ hashDiff : ℤ, hashBuffDiff (2^256 - 1) hash = some hashDiff ∧ d ≤ hashDiff ∧
        notLow (2^256 - 1) hash d = true) ∧
      (d < 2^(8 * size) → 0 < littleValue (fromHexList target) ∧ ∃ hash : Bytes, hash.length = 32 ∧
        Honest size target hash) ∧
      hashBuffDiff (2^256 - 1) (List.replicate 32 0) = some 0 ∧
      ∀ diff, (divideBaseDiff (2^256 - 1) diff).isSome = true := by
  obtain ⟨target,text,length,value⟩ := getTargetHex_natCast positive wide
  have read : fromHexList (bytesHex target).toList = target := fromHex_bytesHex target
  refine ⟨_,text,?_,?_,?_,?_,?_,divideBaseDiff_isSome _⟩
  · rw [length_bytesHex,length]
  · rw [read,value]
  · intro hash wholeHash honest notZero
    exact honest_difficulty inside wholeHash value honest fun zero =>
      notZero (wholeHash ▸ littleValue_eq_zero zero)
  · intro fits
    have above : 0 < littleValue (fromHexList (bytesHex target).toList) := by
      rw [read,value]
      exact (target_positive_iff positive).mpr fits
    refine ⟨above,List.replicate 32 0,List.length_replicate,?_⟩
    unfold Honest
    rw [List.drop_replicate,littleValue_zero]
    exact above
  · unfold hashBuffDiff divideBaseDiff
    simp only [toBigInt,fromBuffer_little,littleValue_zero]
    rfl

theorem target_agrees_boundary : ∃ target, getTargetHex (.number (3 : ℕ)) 4 = some target ∧
    ∃ hashDiff : ℤ, hashBuffDiff (2^256 - 1) (List.replicate 28 255 ++ [84,85,85,85]) = some hashDiff ∧
    3 ≤ hashDiff := by
  obtain ⟨target,text,-,value,difficulty,-⟩ := @target_agrees 3 4 (by decide) (by decide) (by decide)
  obtain ⟨hashDiff,read,enough,-⟩ := difficulty (List.replicate 28 255 ++ [84,85,85,85]) (by decide)
    (by
      unfold Honest
      rw [value]
      decide +kernel) (by decide)
  exact ⟨target,text,hashDiff,read,enough⟩

/-- The zero hash meets every target that is not zero, and is low; and a builder with no cap on the difficulty
sends a target of four bytes that nothing meets. -/
theorem zero_hash_low : (∃ target, getTargetHex (.number (1 : ℕ)) 4 = some target ∧
      Honest 4 target (List.replicate 32 0) ∧ hashBuffDiff (2^256 - 1) (List.replicate 32 0) = some 0 ∧
      notLow (2^256 - 1) (List.replicate 32 0) (1 : ℕ) = false) ∧
    buildDefaultTarget 4 ⟨5000000000,1,1,1,500000000000,false⟩ = some (List.replicate 8 '0') := by
  refine ⟨⟨"ffffffff".toList,?_,?_,?_,?_⟩,?_⟩ <;> decide +kernel

end NodejsPool.Pool.Targets
