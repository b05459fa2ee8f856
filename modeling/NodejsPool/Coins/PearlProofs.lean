import NodejsPool.Common.Base64

/-! Base64 texts of a pearl submission: each byte string has one accepted spelling. -/
namespace NodejsPool.Coins.PearlProofs
open Base64 List

abbrev Bytes := List UInt8

abbrev Text := List UInt16

def PEARL_MAX_PROOF_BYTES : ℕ := 8 * 1024 * 1024

/-- `Math.ceil(bytes / 3) * 4`. -/
def base64Chars (bytes : ℕ) : ℕ := (bytes + 2) / 3 * 4

def PEARL_MAX_PROOF_BASE64_CHARS : ℕ := base64Chars PEARL_MAX_PROOF_BYTES

/-- `buffer.toString("base64")`. -/
def encodeBase64 (buffer : Bytes) : Text := (encodeBytes buffer).map fun char => UInt16.ofNat char.toNat

/-- `Buffer.from(value, "base64")`. -/
def fromBase64 (value : Text) : Bytes := decode (String.ofList (value.map fun unit => Char.ofNat unit.toNat))

def isDataCode (code : ℕ) : Bool :=
  (65 ≤ code && code ≤ 90) || (97 ≤ code && code ≤ 122) || (48 ≤ code && code ≤ 57) || code == 43 || code == 47

def base64Value (code : ℕ) : ℕ :=
  if 65 ≤ code ∧ code ≤ 90 then code - 65
  else if 97 ≤ code ∧ code ≤ 122 then code - 71
  else if 48 ≤ code ∧ code ≤ 57 then code + 4
  else if code = 43 then 62 else 63

def paddingOf (value : Text) : ℕ := if [61,61] <:+ value then 2 else if [61] <:+ value then 1 else 0

def isCanonicalBase64 (value : Text) : Bool :=
  if value.length = 0 ∨ value.length % 4 ≠ 0 then false
  else
    let padding := paddingOf value
    let dataLength := value.length - padding
    if !((value.take dataLength).all fun unit => isDataCode unit.toNat) then false
    else if !((value.drop dataLength).all fun unit => unit.toNat == 61) then false
    else if padding = 2 then base64Value (value.getD (dataLength - 1) 0).toNat % 16 == 0
    else if padding = 1 then base64Value (value.getD (dataLength - 1) 0).toNat % 4 == 0
    else true

def decodeCanonicalBase64 (value : Text) (expectedBytes : ℕ) : Option Bytes :=
  if value.length > base64Chars expectedBytes ∨ !isCanonicalBase64 value then none
  else
    let decoded := fromBase64 value
    if decoded.length = expectedBytes then some decoded else none

def decodeBoundedBase64 (value : Text) (maxBytes : ℕ) (allowEmpty : Bool) : Option Bytes :=
  if allowEmpty ∧ value = [] then some []
  else if value.length > base64Chars maxBytes ∨ !isCanonicalBase64 value then none
  else
    let decoded := fromBase64 value
    if decoded.length ≤ maxBytes then some decoded else none

inductive Encoding
  | undefined
  | plain
  | gzip
  | other
  deriving DecidableEq

/-- `retained` is the compressed text kept for a decoded proof. -/
structure Proof where
  decoded : Option Bytes
  retained : Option Bytes

def isGzip (encoded : Bytes) : Bool := encoded[0]? == some 0x1f && encoded[1]? == some 0x8b && encoded[2]? == some 8

/-- `gunzipSync` has none where it throws. -/
def decodePearlProof (gunzipSync : Bytes → ℕ → Option Bytes) (value : Text) (encoding : Encoding)
    (allowImplicitGzip retainGzip : Bool) : Proof :=
  if value.length > PEARL_MAX_PROOF_BASE64_CHARS ∨ !isCanonicalBase64 value then ⟨none,none⟩
  else
    let encoded := fromBase64 value
    if encoded.length = 0 ∨ encoded.length > PEARL_MAX_PROOF_BYTES then ⟨none,none⟩
    else
      let implicitGzip := encoding = .undefined ∧ allowImplicitGzip ∧ isGzip encoded
      if encoding = .plain ∨ (encoding = .undefined ∧ ¬ implicitGzip) then ⟨some encoded,none⟩
      else if encoding ≠ .gzip ∧ ¬ implicitGzip then ⟨none,none⟩
      else
        match gunzipSync encoded PEARL_MAX_PROOF_BYTES with
        | none => ⟨none,none⟩
        | some decoded =>
          if decoded.length > 0 then ⟨some decoded,if retainGzip then some encoded else none⟩ else ⟨none,none⟩

section Units

def dataUnit (value : ℕ) : UInt16 := UInt16.ofNat (digit value).toNat

theorem dataUnit_spec : ∀ value < 64,
    isDataCode (dataUnit value).toNat = true ∧ base64Value (dataUnit value).toNat = value ∧ dataUnit value ≠ 61 ∧
      Char.ofNat (dataUnit value).toNat = digit value := by
  decide +kernel

private theorem dataCode_spec :
    ∀ code < 128, isDataCode code = true → base64Value code < 64 ∧ (digit (base64Value code)).toNat = code := by
  decide +kernel

theorem dataUnit_base64Value {unit : UInt16} (data : isDataCode unit.toNat = true) :
    base64Value unit.toNat < 64 ∧ dataUnit (base64Value unit.toNat) = unit := by
  have small : unit.toNat < 128 := by
    unfold isDataCode at data
    simp only [Bool.or_eq_true,Bool.and_eq_true,decide_eq_true_eq,beq_iff_eq] at data
    omega
  obtain ⟨value,same⟩ := dataCode_spec unit.toNat small data
  exact ⟨value,by rw [dataUnit,same,UInt16.ofNat_toNat]⟩

def units (digits : List ℕ) : Text := digits.map dataUnit ++ List.replicate (padding digits.length) 61

theorem encodeBase64_eq (buffer : Bytes) : encodeBase64 buffer = units (toSextets buffer) := by
  rw [encodeBase64,encodeBytes_eq,map_append,map_map,map_replicate,units]
  rfl

theorem fromBase64_units {digits : List ℕ} (small : ∀ digit ∈ digits, digit < 64) :
    fromBase64 (units digits) = decodeSextets digits := by
  have chars : (units digits).map (fun unit => Char.ofNat unit.toNat) =
      digits.map digit ++ replicate (padding digits.length) '=' := by
    rw [units,map_append,map_map,map_replicate]
    congr 1
    exact map_congr_left fun value member => (dataUnit_spec value (small value member)).2.2.2
  rw [fromBase64,chars,decode,String.toList_ofList,sextets_digits small]

end Units

section Canonical

variable {value : Text} {digits : List ℕ} {buffer : Bytes}

theorem paddingOf_le (value : Text) : paddingOf value ≤ 2 := by
  unfold paddingOf
  split
  · exact Nat.le_refl 2
  · split <;> omega

private theorem paddingOf_concat {rest : Text} {last : UInt16} (data : last ≠ 61) {count : ℕ} (few : count ≤ 2) :
    paddingOf (rest ++ [last] ++ replicate count 61) = count := by
  have apart : ¬ (61 : UInt16) = last := fun same => data same.symm
  unfold paddingOf
  simp only [← reverse_prefix]
  match count,few with
  | 0,_ => simp [apart]
  | 1,_ => simp [apart]
  | 2,_ => simp

theorem units_canonical (tight : Tight digits) (some : digits ≠ []) : isCanonicalBase64 (units digits) = true := by
  obtain ⟨small,whole,two,one⟩ := (tight_iff digits).mp tight
  obtain ⟨rest,last,rfl⟩ := eq_nil_or_concat' digits |>.resolve_left some
  obtain ⟨_,known,data,_⟩ := dataUnit_spec last (small last (by simp))
  rw [getLast?_concat,Option.getD_some,length_append,length_singleton] at two one
  rw [length_append,length_singleton] at whole
  have count : (rest ++ [last]).length = rest.length + 1 := by simp
  have few : padding (rest.length + 1) ≤ 2 := by
    unfold padding
    omega
  have text :
      units (rest ++ [last]) = (rest ++ [last]).map dataUnit ++ replicate (padding (rest.length + 1)) 61 := by
    rw [units,count]
  have length : (units (rest ++ [last])).length = rest.length + 1 + padding (rest.length + 1) := by
    rw [text,length_append,length_map,length_replicate,count]
  have filled :
      ¬ (rest.length + 1 + padding (rest.length + 1) = 0 ∨ (rest.length + 1 + padding (rest.length + 1)) % 4 ≠ 0) := by
    unfold padding
    omega
  have padded : paddingOf (units (rest ++ [last])) = padding (rest.length + 1) := by
    rw [text,map_append]
    exact paddingOf_concat data few
  have front : (units (rest ++ [last])).take (rest.length + 1) = (rest ++ [last]).map dataUnit := by
    rw [text,take_left' (by simp)]
  have back : (units (rest ++ [last])).drop (rest.length + 1) = replicate (padding (rest.length + 1)) 61 := by
    rw [text,drop_left' (by simp)]
  have final : (units (rest ++ [last])).getD rest.length 0 = dataUnit last := by
    rw [text]
    simp
  unfold isCanonicalBase64
  rw [length,if_neg filled,padded]
  dsimp only
  rw [Nat.add_sub_cancel,front,back,Nat.add_sub_cancel,final,known,if_neg,if_neg]
  · split
    next double => exact beq_iff_eq.mpr (two (by unfold padding at double; omega))
    · split
      next single => exact beq_iff_eq.mpr (one (by unfold padding at single; omega))
      · rfl
  · simp
  · rw [Bool.not_eq_true',Bool.not_eq_false,all_eq_true,forall_mem_map]
    exact fun digit member => (dataUnit_spec digit (small digit member)).1

private theorem canonical_units (canonical : isCanonicalBase64 value = true) :
    ∃ digits, Tight digits ∧ digits ≠ [] ∧ value = units digits := by
  unfold isCanonicalBase64 at canonical
  split at canonical
  · cases canonical
  next filled =>
  rw [not_or,not_not] at filled
  obtain ⟨some,filled⟩ := filled
  have few := paddingOf_le value
  dsimp only at canonical
  generalize paddingOf value = padded at few canonical
  split at canonical
  · cases canonical
  next data =>
  split at canonical
  · cases canonical
  next pads =>
  rw [Bool.not_eq_true,Bool.not_eq_false',all_eq_true] at data pads
  have longer : padded < value.length := by omega
  set count := value.length - padded with counted
  have length : ((value.take count).map fun unit => base64Value unit.toNat).length = count := by
    rw [length_map,length_take]
    omega
  have last : ((value.take count).map fun unit => base64Value unit.toNat).getLast?.getD 0 =
      base64Value (value.getD (count - 1) 0).toNat := by
    have inside : count - 1 < value.length := by omega
    rw [getLast?_map,getLast?_take,if_neg (by omega),getElem?_eq_getElem inside,Option.some_or,
      getD_eq_getElem?_getD,getElem?_eq_getElem inside]
    rfl
  refine ⟨(value.take count).map fun unit => base64Value unit.toNat,(tight_iff _).mpr ⟨?_,?_,?_,?_⟩,?_,?_⟩
  · rw [forall_mem_map]
    exact fun unit member => (dataUnit_base64Value (data unit member)).1
  · rw [length]
    omega
  · rw [length,last]
    intro double
    rw [if_pos (show padded = 2 by omega)] at canonical
    exact beq_iff_eq.mp canonical
  · rw [length,last]
    intro single
    rw [if_neg (show padded ≠ 2 by omega),if_pos (show padded = 1 by omega)] at canonical
    exact beq_iff_eq.mp canonical
  · exact ne_nil_of_length_pos (by omega)
  · have same : padding count = padded := by
      unfold padding
      omega
    have front : ((value.take count).map fun unit => base64Value unit.toNat).map dataUnit = value.take count := by
      rw [map_map]
      exact (map_congr_left fun unit member => (dataUnit_base64Value (data unit member)).2).trans (map_id _)
    have back : value.drop count = replicate padded 61 := by
      refine eq_replicate_iff.mpr ⟨by rw [length_drop]; omega,fun unit member => ?_⟩
      exact UInt16.toNat_inj.mp (beq_iff_eq.mp (pads unit member))
    rw [units,length,same,front,← back,take_append_drop]

theorem length_encodeBase64 (buffer : Bytes) : (encodeBase64 buffer).length = base64Chars buffer.length := by
  rw [encodeBase64,length_map]
  unfold base64Chars
  induction buffer using encodeBytes.induct with
  | case1 | case2 first | case3 first second => simp [encodeBytes]
  | case4 first second third rest ih =>
    simp only [encodeBytes,length_cons,ih]
    omega

theorem fromBase64_encodeBase64 (buffer : Bytes) : fromBase64 (encodeBase64 buffer) = buffer := by
  have small := ((tight_iff _).mp (tight_toSextets buffer)).1
  rw [encodeBase64_eq,fromBase64_units small,decodeSextets_toSextets]

theorem canonical_iff : isCanonicalBase64 value = true ↔ ∃ buffer, buffer ≠ [] ∧ value = encodeBase64 buffer := by
  constructor
  · intro canonical
    obtain ⟨digits,tight,some,rfl⟩ := canonical_units canonical
    have back := toSextets_decodeSextets tight
    refine ⟨decodeSextets digits,fun none => some ?_,by rw [encodeBase64_eq,back]⟩
    rw [← back,none]
    rfl
  · rintro ⟨buffer,some,rfl⟩
    rw [encodeBase64_eq]
    refine units_canonical (tight_toSextets buffer) fun none => some ?_
    rw [← decodeSextets_toSextets buffer,none]
    rfl

end Canonical

section Decoders

variable {value other : Text} {buffer : Bytes} {size : ℕ}

theorem encode_fromBase64 (canonical : isCanonicalBase64 value = true) :
    fromBase64 value ≠ [] ∧ value = encodeBase64 (fromBase64 value) := by
  obtain ⟨buffer,some,rfl⟩ := canonical_iff.mp canonical
  rw [fromBase64_encodeBase64]
  exact ⟨some,rfl⟩

private theorem base64Chars_mono {less more : ℕ} (le : less ≤ more) : base64Chars less ≤ base64Chars more :=
  Nat.mul_le_mul_right 4 (Nat.div_le_div_right (Nat.add_le_add_right le 2))

theorem accepted_iff (limit : ℕ) (fits : ℕ → Prop) (within : ∀ length, fits length → length ≤ limit) :
    (¬ (value.length > base64Chars limit ∨ !isCanonicalBase64 value) ∧ fits (fromBase64 value).length ∧
      fromBase64 value = buffer) ↔
      buffer ≠ [] ∧ fits buffer.length ∧ value = encodeBase64 buffer := by
  constructor
  · rintro ⟨text,fit,rfl⟩
    rw [not_or,Bool.not_eq_true,Bool.not_eq_false'] at text
    obtain ⟨some,spelled⟩ := encode_fromBase64 text.2
    exact ⟨some,fit,spelled⟩
  · rintro ⟨some,fit,rfl⟩
    rw [fromBase64_encodeBase64,length_encodeBase64]
    refine ⟨not_or.mpr ⟨Nat.not_lt.mpr (base64Chars_mono (within _ fit)),?_⟩,fit,rfl⟩
    rw [Bool.not_eq_true,Bool.not_eq_false']
    exact canonical_iff.mpr ⟨buffer,some,rfl⟩

theorem decodeCanonicalBase64_iff : decodeCanonicalBase64 value size = some buffer ↔
    buffer ≠ [] ∧ buffer.length = size ∧ value = encodeBase64 buffer := by
  rw [← accepted_iff size (· = size) fun _ same => Nat.le_of_eq same]
  unfold decodeCanonicalBase64
  rw [Option.ite_none_left_eq_some,Option.ite_none_right_eq_some,Option.some.injEq]

theorem decodeBoundedBase64_iff : decodeBoundedBase64 value size false = some buffer ↔
    buffer ≠ [] ∧ buffer.length ≤ size ∧ value = encodeBase64 buffer := by
  rw [← accepted_iff size (· ≤ size) fun _ le => le]
  unfold decodeBoundedBase64
  rw [if_neg (by simp),Option.ite_none_left_eq_some,Option.ite_none_right_eq_some,Option.some.injEq]

def Unencoded (encoding : Encoding) (allowImplicitGzip : Bool) : Prop :=
  encoding = .plain ∨ (encoding = .undefined ∧ allowImplicitGzip = false)

private theorem decodePearlProof_iff {gunzipSync : Bytes → ℕ → Option Bytes} {encoding : Encoding}
    {allowImplicitGzip retainGzip : Bool} (unencoded : Unencoded encoding allowImplicitGzip) :
    (decodePearlProof gunzipSync value encoding allowImplicitGzip retainGzip).decoded = some buffer ↔
      buffer ≠ [] ∧ buffer.length ≤ PEARL_MAX_PROOF_BYTES ∧ value = encodeBase64 buffer := by
  rw [← accepted_iff PEARL_MAX_PROOF_BYTES (· ≤ PEARL_MAX_PROOF_BYTES) fun _ le => le]
  unfold decodePearlProof
  split
  next refused => exact ⟨fun found => (Option.some_ne_none _ found.symm).elim,fun held => absurd refused held.1⟩
  next text =>
  have canonical := text
  rw [not_or,Bool.not_eq_true,Bool.not_eq_false'] at canonical
  have some : (fromBase64 value).length ≠ 0 := fun none =>
    (encode_fromBase64 canonical.2).1 (eq_nil_of_length_eq_zero none)
  dsimp only
  split
  next size =>
    refine ⟨fun found => (Option.some_ne_none _ found.symm).elim,fun held => ?_⟩
    exact absurd held.2.1 (Nat.not_le.mpr (size.resolve_left some))
  next size =>
    have plain : encoding = .plain ∨ (encoding = .undefined ∧
        ¬ (encoding = .undefined ∧ allowImplicitGzip ∧ isGzip (fromBase64 value))) := by
      rcases unencoded with same | ⟨same,implicit⟩
      · exact .inl same
      · exact .inr ⟨same,fun gzip => by simp [implicit] at gzip⟩
    rw [if_pos plain,Option.some.injEq]
    exact ⟨fun same => ⟨text,Nat.not_lt.mp (not_or.mp size).2,same⟩,fun held => held.2.2⟩

/-- An accepted text is the standard spelling of some bytes, and each decoder accepts the spelling of the nonempty
byte strings within its limit. -/
theorem canonical_base64 (value : Text) :
    (isCanonicalBase64 value = true ↔ ∃ buffer, buffer ≠ [] ∧ value = encodeBase64 buffer) ∧
    (∀ other, isCanonicalBase64 value = true → isCanonicalBase64 other = true → fromBase64 value = fromBase64 other →
      value = other) ∧
    (∀ size buffer, decodeCanonicalBase64 value size = some buffer ↔
      buffer ≠ [] ∧ buffer.length = size ∧ value = encodeBase64 buffer) ∧
    (∀ size buffer, decodeBoundedBase64 value size false = some buffer ↔
      buffer ≠ [] ∧ buffer.length ≤ size ∧ value = encodeBase64 buffer) ∧
    ∀ gunzipSync encoding allowImplicitGzip retainGzip buffer, Unencoded encoding allowImplicitGzip →
      ((decodePearlProof gunzipSync value encoding allowImplicitGzip retainGzip).decoded = some buffer ↔
        buffer ≠ [] ∧ buffer.length ≤ PEARL_MAX_PROOF_BYTES ∧ value = encodeBase64 buffer) := by
  refine ⟨canonical_iff,fun other one two same => ?_,fun _ _ => decodeCanonicalBase64_iff,
    fun _ _ => decodeBoundedBase64_iff,fun _ _ _ _ _ unencoded => decodePearlProof_iff unencoded⟩
  rw [(encode_fromBase64 one).2,(encode_fromBase64 two).2,same]

/-- The empty text spells the empty byte string and is refused. -/
theorem empty_refused :
    encodeBase64 [] = [] ∧ decodeCanonicalBase64 [] 0 = none ∧ decodeBoundedBase64 [] 0 false = none ∧
    (decodePearlProof (fun _ _ => none) [] .plain false false).decoded = none := by
  decide

end Decoders
end NodejsPool.Coins.PearlProofs
