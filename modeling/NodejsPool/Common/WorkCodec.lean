import NodejsPool.RemoteShare.ShareStore
import NodejsPool.Wire.Message

/-! Work beyond signed 64-bit integers: the legacy field is zero and an extension field holds
the double. The codecs of the schema are the protocol-buffers library's. -/
namespace NodejsPool.Common.WorkCodec
open RemoteShare.ShareStore (Number Value)
open Wire (Byte Field Format Kind Scalar byName)

def INT64_LIMIT : ℚ := 0x8000000000000000

abbrev Object := String → Value

abbrev Ref := ℕ

structure Heap where
  next : Ref
  objects : Ref → Object

namespace Heap

def assign (heap : Heap) (ref : Ref) (name : String) (value : Value) : Heap :=
  {heap with objects := Function.update heap.objects ref (Function.update (heap.objects ref) name value)}

def spread (heap : Heap) (ref : Ref) : Ref × Heap :=
  (heap.next,{next := heap.next + 1, objects := Function.update heap.objects heap.next (heap.objects ref)})

end Heap

def isDefined : Value → Bool
  | .undefined | .null => false
  | _ => true

def validateWork (value : Value) (field : String) (integer : Bool) : Except String Unit :=
  let failure := field ++ " must be a finite nonnegative" ++ (if integer then " integer" else " number")
  match value.readFinite with
  | none => .error failure
  | some number => if (integer && number.den ≠ 1) || number < 0 then .error failure else .ok ()

def extension (field : String) : String := field ++ "_double"

def overflows (value : Value) : Bool := value.readFinite.any fun number => INT64_LIMIT ≤ number

def prepareFields (data wire : Ref) : List String → Heap → Except String Unit × Heap
  | [],heap => (.ok (),heap)
  | field::fields,heap =>
    let heap := heap.assign wire (extension field) .undefined
    let value := heap.objects data field
    if isDefined value then
      match validateWork value field false with
      | .error failure => (.error failure,heap)
      | .ok () =>
        if overflows value then
          prepareFields data wire fields
            ((heap.assign wire field (.number (.finite 0))).assign wire (extension field) value)
        else prepareFields data wire fields heap
    else prepareFields data wire fields heap

def prepareWire (data : Ref) (fields : List String) (heap : Heap) : Except String Ref × Heap :=
  let (wire,heap) := heap.spread data
  match prepareFields data wire fields heap with
  | (.ok (),heap) => (.ok wire,heap)
  | (.error failure,heap) => (.error failure,heap)

structure Written where
  buffer : List Byte
  bytes : ℕ

structure Decoded where
  data : Object
  bytes : ℕ

structure Raw where
  encode : Object → Option (List Byte × ℕ) → Except String Written
  decode : Option (List Byte) → ℕ → Option ℕ → Except String Decoded
  encodingLength : Object → Except String ℕ

def limit (buffer : List Byte) (end_ : Option ℕ) : ℕ := (end_.filter fun position => position ≠ 0).getD buffer.length

def window (buffer : List Byte) (offset : ℕ) (end_ : Option ℕ) : Option (List Byte) :=
  if limit buffer end_ ≤ buffer.length ∧ offset ≤ limit buffer end_ then
    some ((buffer.take (limit buffer end_)).drop offset)
  else none

section Repair

def readVarint : ℕ → ℕ → ℕ → List Byte → Option (ℕ × List Byte)
  | 0,_,_,_ => none
  | _ + 1,_,_,[] => none
  | maxBytes + 1,count,value,byte::rest =>
    let value := value + byte.val % 128 * 128 ^ count
    if byte.val < 128 then if 0 < count ∧ byte.val = 0 then none else some (value,rest)
    else readVarint maxBytes (count + 1) value rest

def toNumber (value : ℕ) : Number :=
  let shift := value.log2 - Format.double.fraction
  let low := value % 2 ^ shift
  let mantissa := value / 2 ^ shift
  let up := 2 ^ shift < 2 * low ∨ 2 ^ shift = 2 * low ∧ mantissa % 2 = 1
  let rounded := (if up then mantissa + 1 else mantissa) * 2 ^ shift
  if rounded < 2 ^ 1024 then .finite rounded else .nonfinite

structure Repairing where
  repaired : Bool := false
  hasExtension : Bool := false
  duplicateWork : Bool := false
  seenWork : List ℕ := []
  parts : List Byte := []

def tagBytes (key : ℕ) : List Byte :=
  if key < 128 then [Wire.byte key] else [Wire.byte (key % 128 + 128),Wire.byte (key / 128)]

def replacement (key extensionTag : ℕ) (number : ℚ) : List Byte :=
  tagBytes key ++ [Wire.byte 0] ++ tagBytes (extensionTag * 8 + 1) ++ Wire.littleEndian 8 (Format.double.word number)

def extensionOf (tags : List (ℕ × ℕ)) (tag : ℕ) : Option ℕ := (tags.find? fun entry => entry.1 = tag).map Prod.snd

def note (tags : List (ℕ × ℕ)) (tag : ℕ) (state : Repairing) : Repairing :=
  let state := {state with hasExtension := state.hasExtension || tags.any fun entry => entry.2 = tag}
  if (extensionOf tags tag).isSome then
    {state with duplicateWork := state.duplicateWork || state.seenWork.contains tag, seenWork := tag::state.seenWork}
  else state

def passField (extensionTag : Option ℕ) (wireType : ℕ) (rest : List Byte) : Option (List Byte × Option ℚ) :=
  match wireType with
  | 0 => do
    let (value,rest) ← readVarint (if extensionTag.isSome then 147 else 10) 0 0 rest
    if value ≤ 0xffffffffffffffff then some (rest,none)
    else
      guard extensionTag.isSome
      match toNumber value with
      | .finite number => some (rest,some number)
      | .nonfinite => none
  | 1 => if 8 ≤ rest.length then some (rest.drop 8,none) else none
  | 2 => do
    let (length,rest) ← readVarint 5 0 0 rest
    if length ≤ rest.length then some (rest.drop length,none) else none
  | 5 => if 4 ≤ rest.length then some (rest.drop 4,none) else none
  | _ => none

def repairFields (tags : List (ℕ × ℕ)) : ℕ → List Byte → Repairing → Option Repairing
  | _,[],state => some state
  | 0,_::_,_ => none
  | fuel + 1,bytes,state => do
    let (key,rest) ← readVarint 5 0 0 bytes
    guard (key ≤ 0xffffffff)
    let tag := key / 8
    let wireType := key % 8
    guard (tag ≠ 0)
    let state := note tags tag state
    let extensionTag := extensionOf tags tag
    guard (extensionTag.isNone || wireType = 0)
    let (rest,number) ← passField extensionTag wireType rest
    match number with
    | some number =>
      let parts := state.parts ++ replacement key (extensionTag.getD 0) number
      repairFields tags fuel rest {state with parts := parts, repaired := true}
    | none =>
      let parts := state.parts ++ bytes.take (bytes.length - rest.length)
      repairFields tags fuel rest {state with parts := parts}

def repairLegacyOverflow (buffer : Option (List Byte)) (offset : ℕ) (end_ : Option ℕ) (tags : List (ℕ × ℕ)) :
    Option (List Byte) := do
  let buffer ← buffer
  let bytes ← window buffer offset end_
  let state ← repairFields tags bytes.length bytes {}
  guard (state.repaired && !state.hasExtension && !state.duplicateWork)
  some state.parts

end Repair

def isZero : Value → Bool
  | .number (.finite value) => value = 0
  | _ => false

def adoptExtension (field : String) (data : Object) : Except String Object :=
  let value := data (extension field)
  if isDefined value && !isZero value then
    match validateWork value (extension field) true with
    | .error failure => .error failure
    | .ok () =>
      if !overflows value || !isZero (data field) then .error ("Invalid " ++ extension field ++ " work extension")
      else .ok (Function.update data field value)
  else .ok data

def adoptField (field : String) (data : Object) : Except String Object := do
  let data ← adoptExtension field data
  let data := Function.update data (extension field) .undefined
  if isDefined (data field) then validateWork (data field) field false
  return data

def adoptFields : List String → Object → Except String Object
  | [],data => .ok data
  | field::fields,data => do
    let data ← adoptField field data
    adoptFields fields data

structure Codec where
  encode : Ref → Option (List Byte × ℕ) → Heap → Except String Written × Heap
  decode : Option (List Byte) → ℕ → Option ℕ → Except String Decoded
  encodingLength : Ref → Heap → Except String ℕ × Heap

def originalDecode (raw : Raw) (tags : List (ℕ × ℕ)) (buffer : Option (List Byte)) (offset : ℕ) (end_ : Option ℕ) :
    Except String Decoded :=
  match raw.decode buffer offset end_ with
  | .ok decoded => .ok decoded
  | .error failure =>
    match repairLegacyOverflow buffer offset end_ tags with
    | none => .error failure
    | some repaired => do
      let decoded ← raw.decode (some repaired) 0 none
      .ok {decoded with bytes := limit (buffer.getD []) end_ - offset}

def wrapCodec (raw : Raw) (fields : List String) (tags : List (ℕ × ℕ)) : Codec where
  encode data target heap :=
    match prepareWire data fields heap with
    | (.error failure,heap) => (.error failure,heap)
    | (.ok wire,heap) => (raw.encode (heap.objects wire) target,heap)
  decode buffer offset end_ := do
    let decoded ← originalDecode raw tags buffer offset end_
    let data ← adoptFields fields decoded.data
    return {decoded with data := data}
  encodingLength data heap :=
    match prepareWire data fields heap with
    | (.error failure,heap) => (.error failure,heap)
    | (.ok wire,heap) => (raw.encodingLength (heap.objects wire),heap)

inductive MessageType where
  | Share
  | Block
  | AltBlock

def POOLTYPE : Kind := .enum 4

def schema : MessageType → List Field
  | .Share => [⟨1,"shares",.int64,false⟩,⟨2,"paymentAddress",.string,true⟩,⟨3,"foundBlock",.bool,true⟩,
      ⟨4,"paymentID",.string,false⟩,⟨5,"trustedShare",.bool,true⟩,⟨6,"poolType",POOLTYPE,true⟩,
      ⟨7,"poolID",.int32,true⟩,⟨8,"blockDiff",.int64,true⟩,⟨10,"blockHeight",.int32,true⟩,
      ⟨11,"timestamp",.int64,true⟩,⟨12,"identifier",.string,true⟩,⟨13,"port",.int32,false⟩,
      ⟨14,"shares2",.int64,false⟩,⟨15,"share_num",.int64,false⟩,⟨16,"raw_shares",.float,false⟩,
      ⟨17,"shares_double",.double,false⟩,⟨18,"shares2_double",.double,false⟩,⟨19,"blockDiff_double",.double,false⟩]
  | .Block => [⟨1,"hash",.string,true⟩,⟨2,"difficulty",.int64,true⟩,⟨3,"shares",.int64,true⟩,
      ⟨4,"timestamp",.int64,true⟩,⟨5,"poolType",POOLTYPE,true⟩,⟨6,"unlocked",.bool,true⟩,⟨7,"valid",.bool,true⟩,
      ⟨8,"value",.int64,false⟩,⟨9,"pay_ready",.bool,false⟩,⟨10,"difficulty_double",.double,false⟩,
      ⟨11,"shares_double",.double,false⟩]
  | .AltBlock => [⟨1,"hash",.string,true⟩,⟨2,"difficulty",.int64,true⟩,⟨3,"shares",.int64,true⟩,
      ⟨4,"timestamp",.int64,true⟩,⟨5,"poolType",POOLTYPE,true⟩,⟨6,"unlocked",.bool,true⟩,⟨7,"valid",.bool,true⟩,
      ⟨8,"port",.int32,true⟩,⟨9,"height",.int32,true⟩,⟨10,"anchor_height",.int32,true⟩,⟨11,"value",.uint64,false⟩,
      ⟨12,"pay_value",.uint64,false⟩,⟨13,"pay_stage",.string,false⟩,⟨14,"pay_status",.string,false⟩,
      ⟨15,"pay_ready",.bool,false⟩,⟨16,"difficulty_double",.double,false⟩,⟨17,"shares_double",.double,false⟩]

def workFields : MessageType → List String
  | .Share => ["shares","shares2","blockDiff"]
  | .Block | .AltBlock => ["difficulty","shares"]

def workTags : MessageType → List (ℕ × ℕ)
  | .Share => [(1,17),(14,18),(8,19)]
  | .Block => [(2,10),(3,11)]
  | .AltBlock => [(2,16),(3,17)]

def adaptWorkCodecs (protobuf : List Field → Raw) (type : MessageType) : Codec :=
  wrapCodec (protobuf (schema type)) (workFields type) (workTags type)

end NodejsPool.Common.WorkCodec
