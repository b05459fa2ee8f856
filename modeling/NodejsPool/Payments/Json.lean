import Mathlib.Data.List.Basic
import NodejsPool.Wire.Rounding

/-! JSON values as the payment code receives them from the wallet, and the
JavaScript conversions it applies to them. A text is read as the nearest double; an absent
property is `none`. -/
namespace NodejsPool.Payments
open Wire

section Texts

/-- The shortest digits that name a positive double, and where their decimal point is. -/
def shortestDigits (value : ℚ) : ℕ × ℤ :=
  let point := Int.log 10 value + 1
  let candidates := (List.range' 1 17).flatMap fun count : ℕ =>
    let unit := (10 : ℚ) ^ (point - count)
    let below := ⌊value / unit⌋.toNat
    let nearest := nearestEven (value / unit)
    [(nearest,count),(if nearest = below then below + 1 else below,count)]
  match candidates.find? fun candidate =>
      Format.double.round (candidate.1 * (10 : ℚ) ^ (point - candidate.2)) = some value with
  | some (digits,count) => if digits = 10 ^ count then (1,point + 1) else (digits,point)
  | none => (0,1)

def placeDigits (digits : List Char) (point : ℤ) : List Char :=
  let size : ℤ := digits.length
  if size ≤ point ∧ point ≤ 21 then digits ++ List.replicate (point - size).toNat '0'
  else if 0 < point ∧ point ≤ 21 then digits.take point.toNat ++ '.' :: digits.drop point.toNat
  else if -6 < point ∧ point ≤ 0 then '0' :: '.' :: (List.replicate (-point).toNat '0' ++ digits)
  else
    digits.take 1 ++ (if digits.length = 1 then [] else '.' :: digits.drop 1) ++
      'e' :: (if 0 < point then '+' else '-') :: (toString (point - 1).natAbs).toList

/-- `String(value)` of a number. -/
def numberText (value : ℚ) : String :=
  if value.den = 1 ∧ |value| ≤ 2 ^ 53 then toString value.num
  else
    let (digits,point) := shortestDigits |value|
    String.ofList ((if value < 0 then ['-'] else []) ++ placeDigits (toString digits).toList point)

end Texts

inductive Json where
  | null
  | bool (value : Bool)
  | num (value : ℚ)
  | str (value : String)
  | arr (values : List Json)
  | obj (fields : List (String × Json))

namespace Json

def isRecord : Json → Bool
  | .obj _ => true
  | _ => false

/-- `value[key]`. -/
def field (value : Json) (key : String) : Option Json :=
  match value with
  | .obj fields => (fields.find? fun entry => entry.1 = key).map Prod.snd
  | _ => none

/-- `isRecord(value[key]) ? value[key] : null`. -/
def record (value : Json) (key : String) : Option Json := (value.field key).filter isRecord

def truthy : Json → Bool
  | .null => false
  | .bool value => value
  | .num value => value ≠ 0
  | .str value => value ≠ ""
  | .arr _ => true
  | .obj _ => true

mutual

/-- `String(value)`. -/
def toText : Json → String
  | .null => "null"
  | .bool value => if value then "true" else "false"
  | .num value => numberText value
  | .str value => value
  | .arr values => String.intercalate "," (elementTexts values)
  | .obj _ => "[object Object]"

def elementTexts : List Json → List String
  | [] => []
  | .null::values => "" :: elementTexts values
  | value::values => value.toText :: elementTexts values

end

def escape (value : String) : String :=
  value.foldl (fun text char =>
    if char = '"' then text ++ "\\\""
    else if char = '\\' then text ++ "\\\\"
    else if char = '\n' then text ++ "\\n"
    else if char = '\r' then text ++ "\\r"
    else if char = '\t' then text ++ "\\t"
    else text.push char) ""

mutual

/-- `JSON.stringify(value)`. -/
def stringify : Json → String
  | .null => "null"
  | .bool value => if value then "true" else "false"
  | .num value => toText (.num value)
  | .str value => "\"" ++ escape value ++ "\""
  | .arr values => "[" ++ String.intercalate "," (stringifyAll values) ++ "]"
  | .obj fields => "\x7b" ++ String.intercalate "," (stringifyFields fields) ++ "\x7d"

def stringifyAll : List Json → List String
  | [] => []
  | value::values => value.stringify :: stringifyAll values

def stringifyFields : List (String × Json) → List String
  | [] => []
  | (key,value)::fields => ("\"" ++ escape key ++ "\":" ++ value.stringify) :: stringifyFields fields

end

mutual

def same : Json → Json → Bool
  | .null,.null => true
  | .bool left,.bool right => left = right
  | .num left,.num right => left = right
  | .str left,.str right => left = right
  | .arr left,.arr right => sameAll left right
  | .obj left,.obj right => sameFields left right
  | _,_ => false

def sameAll : List Json → List Json → Bool
  | [],[] => true
  | left::lefts,right::rights => left.same right && sameAll lefts rights
  | _,_ => false

def sameFields : List (String × Json) → List (String × Json) → Bool
  | [],[] => true
  | (key,left)::lefts,(other,right)::rights => key = other && left.same right && sameFields lefts rights
  | _,_ => false

end

mutual

theorem same_eq {left right : Json} (equal : left.same right = true) : left = right := by
  cases left <;> cases right <;> simp only [same,Bool.false_eq_true,decide_eq_true_eq] at equal
  · rfl
  · rw [equal]
  · rw [equal]
  · rw [equal]
  · rw [sameAll_eq equal]
  · rw [sameFields_eq equal]

theorem sameAll_eq {left right : List Json} (equal : sameAll left right = true) : left = right := by
  cases left <;> cases right <;> simp only [sameAll,Bool.false_eq_true,Bool.and_eq_true] at equal
  · rfl
  · rw [same_eq equal.1,sameAll_eq equal.2]

theorem sameFields_eq {left right : List (String × Json)} (equal : sameFields left right = true) : left = right := by
  rcases left with _ | ⟨⟨key,left⟩,lefts⟩ <;> rcases right with _ | ⟨⟨other,right⟩,rights⟩ <;>
    simp only [sameFields,Bool.false_eq_true,Bool.and_eq_true,decide_eq_true_eq] at equal
  · rfl
  · rw [equal.1.1,same_eq equal.1.2,sameFields_eq equal.2]

end

end Json

/-- The characters `String.prototype.trim` removes. -/
def isSpace (char : Char) : Bool :=
  char.toNat ∈ [9,10,11,12,13,32,160,5760,8232,8233,8239,8287,12288,65279] ||
    (8192 ≤ char.toNat && char.toNat ≤ 8202)

def trim (value : String) : String :=
  String.ofList (((value.toList.dropWhile isSpace).reverse.dropWhile isSpace).reverse)

def hexDigit (char : Char) : Option Nat :=
  if '0' ≤ char ∧ char ≤ '9' then some (char.toNat - '0'.toNat)
  else if 'a' ≤ char ∧ char ≤ 'f' then some (char.toNat - 'a'.toNat + 10)
  else if 'A' ≤ char ∧ char ≤ 'F' then some (char.toNat - 'A'.toNat + 10)
  else none

def digitOf (base : Nat) (char : Char) : Option Nat := (hexDigit char).filter fun digit => digit < base

def readDigits (base : Nat) (chars : List Char) : Option Nat :=
  if chars.isEmpty then none
  else chars.foldlM (fun value char => (digitOf base char).map fun digit => value * base + digit) 0

def readOptionalDigits (chars : List Char) : Option Nat := if chars.isEmpty then some 0 else readDigits 10 chars

def readSigned (read : List Char → Option ℚ) : List Char → Option ℚ
  | '-' :: chars => (read chars).map fun value => -value
  | '+' :: chars => read chars
  | chars => read chars

/-- `digits`, `digits.digits` or `.digits`. -/
def readMantissa (chars : List Char) : Option ℚ :=
  let whole := chars.takeWhile fun char => char ≠ '.'
  let fraction := (chars.drop whole.length).drop 1
  if whole.isEmpty && fraction.isEmpty then none
  else do
    let high ← readOptionalDigits whole
    let low ← readOptionalDigits fraction
    some ((high : ℚ) + (low : ℚ) / 10 ^ fraction.length)

def readExponent : List Char → Option ℤ
  | [] => some 0
  | _ :: '-' :: chars => (readDigits 10 chars).map fun value => -(value : ℤ)
  | _ :: '+' :: chars => (readDigits 10 chars).map fun value => (value : ℤ)
  | _::chars => (readDigits 10 chars).map fun value => (value : ℤ)

def readDecimal (chars : List Char) : Option ℚ := do
  let mantissa := chars.takeWhile fun char => char ≠ 'e' && char ≠ 'E'
  let value ← readMantissa mantissa
  let exponent ← readExponent (chars.drop mantissa.length)
  some (value * (10 : ℚ) ^ exponent)

/-- The number a text names, before it is rounded. -/
def exactNumber (text : String) : Option ℚ :=
  match (trim text).toList with
  | [] => some 0
  | '0' :: 'x' :: chars => (readDigits 16 chars).map fun value => (value : ℚ)
  | '0' :: 'X' :: chars => (readDigits 16 chars).map fun value => (value : ℚ)
  | '0' :: 'o' :: chars => (readDigits 8 chars).map fun value => (value : ℚ)
  | '0' :: 'O' :: chars => (readDigits 8 chars).map fun value => (value : ℚ)
  | '0' :: 'b' :: chars => (readDigits 2 chars).map fun value => (value : ℚ)
  | '0' :: 'B' :: chars => (readDigits 2 chars).map fun value => (value : ℚ)
  | chars => readSigned readDecimal chars

/-- `Number(text)` where it is finite. -/
def readNumber (text : String) : Option ℚ := (exactNumber text).bind Format.double.round

/-- `Number(value)` where it is finite. -/
def toNumber : Option Json → Option ℚ
  | none => none
  | some .null => some 0
  | some (.bool value) => some (if value then 1 else 0)
  | some (.num value) => some value
  | some (.str value) => readNumber value
  | some (.arr values) => readNumber (Json.arr values).toText
  | some (.obj _) => none

mutual

/-- Whether `Number(value)` does not throw: an own `toString` of a JSON object is no function. -/
def convertible : Json → Bool
  | .obj fields => (fields.find? fun entry => entry.1 = "toString").isNone
  | .arr values => allConvertible values
  | _ => true

def allConvertible : List Json → Bool
  | [] => true
  | value::values => convertible value && allConvertible values

end

def normalizeInteger : Option Json → Option ℚ
  | some (.num value) => some value
  | some (.str value) => if value = "" then none else readNumber value
  | _ => none

def zeroPaymentId : String := "0000000000000000"

def normalizePaymentId : Option Json → Option String
  | none => none
  | some .null => none
  | some value =>
    let normalized := trim value.toText
    if normalized = "" ∨ normalized = zeroPaymentId then none else some normalized

def isHash (text : String) : Bool := text.toList.length = 64 && text.toList.all fun char => (hexDigit char).isSome

def normalizeHash : Option Json → Option String
  | some (.str value) => if isHash (trim value) then some (trim value).toLower else none
  | _ => none

section Hash

private theorem hexDigit_small {char : Char} (hex : (hexDigit char).isSome = true) : char.toNat < 128 := by
  have below {top : Char} (le : char ≤ top) : char.toNat ≤ top.toNat := UInt32.le_iff_toNat_le.mp le
  unfold hexDigit at hex
  split at hex
  next digit => exact Nat.lt_of_le_of_lt (below digit.2) (by decide)
  · split at hex
    next lower => exact Nat.lt_of_le_of_lt (below lower.2) (by decide)
    · split at hex
      next upper => exact Nat.lt_of_le_of_lt (below upper.2) (by decide)
      · cases hex

private theorem hexDigit_toLower {char : Char} (hex : (hexDigit char).isSome = true) :
    (hexDigit char.toLower).isSome = true ∧ isSpace char.toLower = false ∧
      char.toLower.toLower = char.toLower := by
  have all : ∀ code < 128, (hexDigit (Char.ofNat code)).isSome = true →
      (hexDigit (Char.ofNat code).toLower).isSome = true ∧ isSpace (Char.ofNat code).toLower = false ∧
        (Char.ofNat code).toLower.toLower = (Char.ofNat code).toLower := by decide
  have here := all char.toNat (hexDigit_small hex)
  rw [Char.ofNat_toNat] at here
  exact here hex

theorem trim_eq {value : String} (solid : ∀ char ∈ value.toList, isSpace char = false) : trim value = value := by
  have keep {chars : List Char} (solid : ∀ char ∈ chars, isSpace char = false) : chars.dropWhile isSpace = chars := by
    cases chars with
    | nil => rfl
    | cons head tail => rw [List.dropWhile_cons_of_neg (by simp [solid head])]
  unfold trim
  rw [keep solid,keep (by simpa using solid),List.reverse_reverse,String.ofList_toList]

private theorem isHash_chars {text : String} (hash : isHash text = true) :
    text.toList.length = 64 ∧ ∀ char ∈ text.toList, (hexDigit char).isSome = true := by
  simp only [isHash,Bool.and_eq_true,decide_eq_true_eq,List.all_eq_true] at hash
  exact hash

private theorem isHash_toLower {text : String} (hash : isHash text = true) :
    isHash text.toLower = true ∧ trim text.toLower = text.toLower ∧ text.toLower.toLower = text.toLower := by
  obtain ⟨size,digits⟩ := isHash_chars hash
  have chars : text.toLower.toList = text.toList.map Char.toLower := String.toList_map
  have lowered {char : Char} (member : char ∈ text.toLower.toList) :
      ∃ old ∈ text.toList, old.toLower = char := List.mem_map.mp (chars ▸ member)
  refine ⟨?_,?_,?_⟩
  · simp only [isHash,Bool.and_eq_true,decide_eq_true_eq,List.all_eq_true]
    refine ⟨by rw [chars,List.length_map,size],?_⟩
    intro char member
    obtain ⟨old,inside,rfl⟩ := lowered member
    exact (hexDigit_toLower (digits old inside)).1
  · apply trim_eq
    intro char member
    obtain ⟨old,inside,rfl⟩ := lowered member
    exact (hexDigit_toLower (digits old inside)).2.1
  · apply String.toList_inj.mp
    have twice : text.toLower.toLower.toList = text.toLower.toList.map Char.toLower := String.toList_map
    rw [twice,chars,List.map_map]
    apply List.map_congr_left
    intro char member
    exact (hexDigit_toLower (digits char member)).2.2

theorem normalizeHash_idem {value : Option Json} {hash : String} (normalized : normalizeHash value = some hash) :
    normalizeHash (some (.str hash)) = some hash := by
  unfold normalizeHash at normalized
  split at normalized
  next text =>
    split at normalized
    next isHex =>
      cases normalized
      obtain ⟨again,trimmed,lower⟩ := isHash_toLower isHex
      simp only [normalizeHash,trimmed,again,lower,if_true]
    · cases normalized
  · cases normalized

end Hash

/-- A wallet RPC resolves with a JSON value, or with an `Error`. -/
inductive RpcResponse where
  | error (message : String)
  | json (value : Json)

namespace RpcResponse

/-- `reply instanceof Error || typeof reply === "string"`. -/
def unreachable : RpcResponse → Bool
  | .error _ => true
  | .json (.str _) => true
  | .json _ => false

/-- `resultObject`. -/
def result : RpcResponse → Option Json
  | .error _ => none
  | .json value => value.record "result"

def hasRpcError : RpcResponse → Bool
  | .error _ => false
  | .json value => (value.record "error").isSome

def formatError : RpcResponse → String
  | .error message => message
  | .json (.str value) => value
  | .json value => value.stringify

def describeWalletReply (reply : RpcResponse) : String :=
  match reply with
  | .error message => message
  | .json value =>
    match (value.record "error").bind fun error => (error.field "message").filter Json.truthy with
    | some message => message.toText
    | none => reply.formatError

end RpcResponse
end NodejsPool.Payments
