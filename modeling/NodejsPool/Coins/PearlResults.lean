import NodejsPool.Coins.PearlProofs
import NodejsPool.Coins.CompactTargets
import NodejsPool.Common.Doubles

/-! What miners and verifiers send about a pearl proof, and the targets a jackpot is held against. -/
namespace NodejsPool.Coins.PearlResults
open PearlProofs CompactTargets

inductive Value
  | undefined
  | null
  | boolean (value : Bool)
  | number (value : Option ℚ)
  | string (text : Text)
  | buffer (bytes : Bytes)
  | array (values : List Value)
  | record (fields : List (String × Value))

namespace Value

def isRecord : Value → Bool
  | .buffer _ => true
  | .record _ => true
  | _ => false

/-- `value[name]`. -/
def field (value : Value) (name : String) : Value :=
  match value with
  | .record fields => ((fields.find? fun entry => entry.1 = name).map Prod.snd).getD .undefined
  | _ => .undefined

def isUndefined : Value → Bool
  | .undefined => true
  | _ => false

def isBoolean : Value → Option Bool
  | .boolean value => some value
  | _ => none

end Value

section Texts

def isHexCode (code : ℕ) : Bool :=
  (48 ≤ code && code ≤ 57) || (97 ≤ code && code ≤ 102) || (65 ≤ code && code ≤ 70)

def isHex (text : Text) : Bool := text.all fun unit => isHexCode unit.toNat

/-- `/^[0-9a-fA-F]{64}$/`. -/
def isHash (text : Text) : Bool := text.length == 64 && isHex text

/-- `/^[0-9a-f]{64}$/`. -/
def isLowerHash (text : Text) : Bool := isHash text && text.all fun unit => !(65 ≤ unit.toNat && unit.toNat ≤ 70)

/-- `text.toLowerCase()`, of text that is hexadecimal where it counts. -/
def toLowerCase (text : Text) : Text :=
  text.map fun unit => if 65 ≤ unit.toNat ∧ unit.toNat ≤ 90 then unit + 32 else unit

def hexCodeValue (code : ℕ) : ℕ :=
  if code ≤ 57 then code - 48 else if 97 ≤ code then code - 87 else code - 55

/-- `Buffer.from(text, "hex")`, of hexadecimal text. -/
def fromHex : Text → Bytes
  | high::low::rest => UInt8.ofNat (16 * hexCodeValue high.toNat + hexCodeValue low.toNat) :: fromHex rest
  | _ => []

def hexUnit (digit : ℕ) : UInt16 := UInt16.ofNat (if digit < 10 then digit + 48 else digit + 87)

/-- `buffer.toString("hex")`. -/
def toHex (buffer : Bytes) : Text := buffer.flatMap fun byte => [hexUnit (byte.toNat / 16),hexUnit (byte.toNat % 16)]

def bigEndian (buffer : Bytes) : ℕ := buffer.foldl (fun value byte => 256 * value + byte.toNat) 0

/-- `/^(?:0|[1-9][0-9]*)$/`. -/
def isDecimal : Text → Bool
  | [] => false
  | [unit] => 48 ≤ unit.toNat && unit.toNat ≤ 57
  | first::rest => 49 ≤ first.toNat && first.toNat ≤ 57 && rest.all fun unit => 48 ≤ unit.toNat && unit.toNat ≤ 57

def decimalValue (text : Text) : ℕ := text.foldl (fun value unit => 10 * value + (unit.toNat - 48)) 0

private theorem hexCodeValue_lower :
    ∀ code < 128, isHexCode code = true → 65 ≤ code ∧ code ≤ 90 → hexCodeValue (code + 32) = hexCodeValue code := by
  decide

theorem fromHex_toLowerCase {text : Text} (hex : isHex text = true) : fromHex (toLowerCase text) = fromHex text := by
  have same : ∀ unit : UInt16, isHexCode unit.toNat = true →
      hexCodeValue (if 65 ≤ unit.toNat ∧ unit.toNat ≤ 90 then unit + 32 else unit).toNat = hexCodeValue unit.toNat := by
    intro unit digit
    split
    next upper =>
      have small : unit.toNat < 128 := by omega
      rw [UInt16.toNat_add,show (32 : UInt16).toNat = 32 from rfl,Nat.mod_eq_of_lt (by omega)]
      exact hexCodeValue_lower unit.toNat small digit upper
    · rfl
  induction text using fromHex.induct with
  | case1 high low rest ih =>
    simp only [isHex,List.all_cons,Bool.and_eq_true] at hex
    obtain ⟨first,second,others⟩ := hex
    simp only [toLowerCase,List.map_cons,fromHex,same high first,same low second]
    rw [← ih others]
    rfl
  | case2 text short =>
    match text,short with
    | [],_ => rfl
    | [unit],_ => rfl
    | high::low::rest,short => exact absurd rfl (short high low rest)

end Texts

section Targets

def parseUint256Decimal (value : Value) : Option ℕ :=
  match value with
  | .string text =>
    if !isDecimal text then none
    else
      let parsed := decimalValue text
      if parsed > 0 ∧ (parsed : ℤ) ≤ uint256Max then some parsed else none
  | _ => none

/-- A number within `Number.isSafeInteger` that is not negative. -/
def safeNonNegativeInteger (value : Value) : Option ℕ :=
  match value with
  | .number (some number) =>
    if number.den = 1 ∧ Doubles.isSafeInteger number.num ∧ 0 ≤ number then some number.num.toNat else none
  | _ => none

def parseAdjustmentFactor (value : Value) : Option ℕ := (safeNonNegativeInteger value).filter fun factor => 0 < factor

def adjustedNetworkTarget (targetDecimal adjustmentFactor : Value) : Option ℕ := do
  let target ← parseUint256Decimal targetDecimal
  let factor ← parseAdjustmentFactor adjustmentFactor
  let adjusted := target * factor
  if (adjusted : ℤ) > uint256Max then none else some adjusted

def isPearlTargetCandidate (jackpotLittleEndian : Text) (targetDecimal adjustmentFactor : Value) : Bool :=
  if !isHash jackpotLittleEndian then false
  else
    match adjustedNetworkTarget targetDecimal adjustmentFactor with
    | none => false
    | some adjusted => bigEndian (fromHex jackpotLittleEndian).reverse ≤ adjusted

def isPearlNetworkCandidate : Text → Value → Value → Bool := isPearlTargetCandidate

/-- The jackpot, its lowest byte first, is within the target a factor eases, and that target is one of 256 bits. -/
def Meets (jackpot : Text) (target : Value) (factor : ℕ) : Prop :=
  ∃ goal, parseUint256Decimal target = some goal ∧ (goal * factor : ℤ) ≤ uint256Max ∧
    bigEndian (fromHex jackpot).reverse ≤ goal * factor

private theorem parseAdjustmentFactor_number {factor : ℕ} (positive : 0 < factor) (safe : factor < 2 ^ 53) :
    parseAdjustmentFactor (.number (some factor)) = some factor := by
  unfold parseAdjustmentFactor safeNonNegativeInteger
  have inside : Doubles.isSafeInteger (factor : ℤ) = true := by
    unfold Doubles.isSafeInteger
    rw [Bool.and_eq_true,decide_eq_true_eq,decide_eq_true_eq]
    omega
  simp [inside,positive]

theorem candidate_iff {jackpot : Text} {target : Value} {factor : ℕ} (hash : isHash jackpot = true)
    (positive : 0 < factor) (safe : factor < 2 ^ 53) :
    isPearlTargetCandidate jackpot target (.number (some factor)) = true ↔ Meets jackpot target factor := by
  unfold isPearlTargetCandidate adjustedNetworkTarget Meets
  rw [parseAdjustmentFactor_number positive safe,if_neg (by simp [hash])]
  cases parseUint256Decimal target with
  | none => simp
  | some goal =>
    simp only [Option.bind_eq_bind,Option.bind_some,Option.some.injEq,exists_eq_left']
    by_cases large : ((goal * factor : ℕ) : ℤ) > uint256Max
    · rw [if_pos large]
      push_cast at large
      simp [large]
    · rw [if_neg large]
      push_cast at large
      simp [not_lt.mp large]

end Targets

section Results

variable {value : Value} {solution : Solution}

structure Config where
  m : ℕ
  n : ℕ
  k : ℕ
  rank : ℕ
  experts : ℕ
  top_k : ℕ
  expert_index : ℕ
  t_rows : ℕ
  t_cols : ℕ
  adjustment_factor : ℕ
  moe : Bool

def boundedVerifierConfig (value : Value) : Option Config :=
  let number (name : String) := safeNonNegativeInteger (value.field name)
  if !value.isRecord then none
  else do
    let m ← number "m"
    let n ← number "n"
    let k ← number "k"
    let rank ← number "rank"
    let experts ← number "experts"
    let top_k ← number "top_k"
    let expert_index ← number "expert_index"
    let t_rows ← number "t_rows"
    let t_cols ← number "t_cols"
    let adjustment_factor ← (number "adjustment_factor").filter fun factor => 0 < factor ∧ factor ≤ 0xffffffff
    let moe ← (value.field "moe").isBoolean
    some ⟨m,n,k,rank,experts,top_k,expert_index,t_rows,t_cols,adjustment_factor,moe⟩

structure Solution where
  solution_data : Text
  candidate : Bool
  jackpot : Text
  config : Config
  proof_id : Option Text

inductive VerifierResult
  | invalid
  | valid (solution : Solution)

def PEARL_MAX_SOLUTION_DATA_BYTES : ℕ := 16 * 1024

def isSolutionData (text : Text) : Bool :=
  2 ≤ text.length && text.length ≤ PEARL_MAX_SOLUTION_DATA_BYTES * 2 && text.length % 2 == 0 &&
    text.take 2 == [48,49] && isHex text

def parseProofId (value : Value) : Option (Option Text) :=
  match value with
  | .undefined => some none
  | .string text => if isHash text then some (some (toLowerCase text)) else none
  | _ => none

def parseSolution (value : Value) : Option Solution :=
  match value.field "full",value.field "candidate",value.field "jackpot",value.field "solution_data" with
  | .boolean true,.boolean candidate,.string jackpot,.string solutionData =>
    if isHash jackpot && isSolutionData solutionData then do
      let proof_id ← parseProofId (value.field "proof_id")
      let config ← boundedVerifierConfig (value.field "config")
      some ⟨toLowerCase solutionData,candidate,toLowerCase jackpot,config,proof_id⟩
    else none
  | _,_,_,_ => none

def parsePearlVerifierResult (value : Value) : Option VerifierResult :=
  if !value.isRecord then none
  else
    match value.field "valid" with
    | .boolean false => some .invalid
    | .boolean true => (parseSolution value).map .valid
    | _ => none

inductive IdResult
  | invalid
  | valid (solution_id : Text) (config : Config)

def parsePearlSolutionIdResult (value : Value) : Option IdResult :=
  if !value.isRecord then none
  else
    match value.field "valid" with
    | .boolean false => some .invalid
    | .boolean true =>
      match value.field "solution_id",boundedVerifierConfig (value.field "config") with
      | .string solutionId,some config => if isHash solutionId then some (.valid (toLowerCase solutionId) config)
        else none
      | _,_ => none
    | _ => none

def isFactor (value : Option ℚ) : Bool :=
  match value with
  | some factor => factor.den == 1 && 0 < factor && factor ≤ 0xffffffff
  | none => false

def hasValidPearlClaim (params : Value) : Bool :=
  match params.field "jackpot",params.field "adjustment_factor" with
  | .undefined,.undefined => true
  | .string jackpot,.number factor => isHash jackpot && isFactor factor
  | _,_ => false

private theorem safeNonNegativeInteger_eq {number : ℕ} (safe : safeNonNegativeInteger value = some number) :
    value = .number (some (number : ℚ)) := by
  unfold safeNonNegativeInteger at safe
  split at safe
  next exact =>
    obtain ⟨⟨whole,_,positive⟩,same⟩ := Option.ite_none_right_eq_some.mp safe
    have natural : 0 ≤ exact.num := Rat.num_nonneg.mpr positive
    rw [← Option.some.inj same]
    congr 2
    rw [← Rat.coe_int_num_of_den_eq_one whole]
    norm_cast
    exact (Int.toNat_of_nonneg natural).symm
  · cases safe

theorem boundedVerifierConfig_factor {config : Config} (read : boundedVerifierConfig value = some config) :
    value.field "adjustment_factor" = .number (some (config.adjustment_factor : ℚ)) ∧
      0 < config.adjustment_factor ∧ config.adjustment_factor ≤ 0xffffffff := by
  obtain ⟨_,found⟩ := Option.ite_none_left_eq_some.mp read
  simp only [Option.bind_eq_bind,Option.bind_eq_some_iff,Option.filter_eq_some_iff,decide_eq_true_eq] at found
  obtain ⟨_,_,_,_,_,_,_,_,_,_,_,_,_,_,_,_,_,_,factor,⟨safe,range⟩,_,_,same⟩ := found
  cases same
  exact ⟨safeNonNegativeInteger_eq safe,range⟩

theorem parseSolution_spec (parsed : parseSolution value = some solution) :
    value.field "full" = .boolean true ∧ value.field "candidate" = .boolean solution.candidate ∧
    boundedVerifierConfig (value.field "config") = some solution.config ∧
    (∃ jackpot, value.field "jackpot" = .string jackpot ∧ isHash jackpot = true ∧
      solution.jackpot = toLowerCase jackpot) ∧
    ∃ solutionData, value.field "solution_data" = .string solutionData ∧
      solution.solution_data = toLowerCase solutionData := by
  unfold parseSolution at parsed
  split at parsed
  next candidate jackpot solutionData full told found data =>
    obtain ⟨checked,read⟩ := Option.ite_none_right_eq_some.mp parsed
    obtain ⟨proof_id,_,rest⟩ := Option.bind_eq_some_iff.mp read
    obtain ⟨config,bounded,same⟩ := Option.bind_eq_some_iff.mp rest
    cases same
    exact ⟨full,told,bounded,⟨jackpot,found,(Bool.and_eq_true_iff.mp checked).1,rfl⟩,⟨solutionData,data,rfl⟩⟩
  · cases parsed

theorem parsePearlVerifierResult_valid (parsed : parsePearlVerifierResult value = some (.valid solution)) :
    value.field "valid" = .boolean true ∧ parseSolution value = some solution := by
  unfold parsePearlVerifierResult at parsed
  split at parsed
  · cases parsed
  split at parsed
  · cases parsed
  next valid =>
    obtain ⟨other,read,same⟩ := Option.map_eq_some_iff.mp parsed
    cases same
    exact ⟨valid,read⟩
  · cases parsed

theorem hasValidPearlClaim_spec {params : Value} (valid : hasValidPearlClaim params = true)
    (some : (params.field "jackpot").isUndefined = false ∨ (params.field "adjustment_factor").isUndefined = false) :
    ∃ (jackpot : Text) (factor : ℕ), params.field "jackpot" = .string jackpot ∧ isHash jackpot = true ∧
      params.field "adjustment_factor" = .number (Option.some (factor : ℚ)) ∧ 0 < factor ∧ factor ≤ 0xffffffff := by
  unfold hasValidPearlClaim at valid
  split at valid
  next one two =>
    rw [one,two] at some
    rcases some with one | two
    · cases one
    · cases two
  next jackpot factor one two =>
    obtain ⟨hash,whole⟩ := Bool.and_eq_true_iff.mp valid
    unfold isFactor at whole
    split at whole
    next exact =>
      simp only [Bool.and_eq_true,beq_iff_eq,decide_eq_true_eq] at whole
      obtain ⟨⟨integer,positive⟩,bounded⟩ := whole
      have natural : ((exact.num.toNat : ℕ) : ℚ) = exact := by
        rw [← Rat.coe_int_num_of_den_eq_one integer]
        norm_cast
        exact Int.toNat_of_nonneg (Rat.num_nonneg.mpr positive.le)
      refine ⟨jackpot,exact.num.toNat,one,hash,by rw [two,natural],?_,?_⟩
      · exact_mod_cast natural ▸ positive
      · exact_mod_cast natural ▸ bounded
    · cases whole
  · cases valid

end Results
end NodejsPool.Coins.PearlResults
