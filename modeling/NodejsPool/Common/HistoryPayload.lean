import NodejsPool.Common.Base64
import NodejsPool.Common.WorkerHistory
import NodejsPool.Payments.Json

/-! Worker histories as they are stored: what is read from a payload, which may be any JSON value, and
the tiers as buffers of twelve bytes a point, with hashrates as single-precision words. Numbers are
those a double holds; zero has no sign. -/
namespace NodejsPool.HistoryPayload
open Payments Wire
open WorkerHistory (Layout normalizePositiveInteger normalizeTimestampMs defaultBaseIntervalSec defaultTierRatio)

def historyVersion : ℚ := 2
def historyKind : String := "worker-history-tiered"
def historyEncoding : String := "base64-u32-f32-f32-le"
def pointBytes : ℕ := 12

inductive Failure where
  | typeError
  | rangeError
  deriving DecidableEq

section Numbers

/-- `Number(text)` where it is finite. -/
def textNumber (text : String) : Option ℚ := (readNumber text).bind Format.double.round

mutual

/-- `Number(String(value))` of an element of an array. -/
def elementNumber : Json → Option ℚ
  | .null => some 0
  | .bool _ => none
  | .num value => some value
  | .str text => textNumber text
  | .arr values => joinedNumber values
  | .obj _ => none

def joinedNumber : List Json → Option ℚ
  | [] => some 0
  | [value] => elementNumber value
  | _ => none

end

/-- `Number(value)` where it is finite. -/
def finiteNumber : Option Json → Option ℚ
  | none => none
  | some .null => some 0
  | some (.bool value) => some (if value then 1 else 0)
  | some value => elementNumber value

def number (value : Option Json) : Except Failure (Option ℚ) :=
  if value.all convertible then .ok (finiteNumber value) else .error .typeError

def normalizeNonNegativeInteger (value : Option ℚ) (fallback : ℕ) : ℕ :=
  match value with
  | some value => if 0 ≤ ⌊value⌋ then ⌊value⌋.toNat else fallback
  | none => fallback

/-- `Math.fround` of a number too large is not finite. -/
def normalizeHashrate (value : Option ℚ) : Option ℚ := Format.single.round (value.getD 0)

/-- `+` of doubles. -/
def plus (first second : Option ℚ) : Option ℚ :=
  first.bind fun first => second.bind fun second => Format.double.round (first + second)

def dividedBy (total : Option ℚ) (count : ℕ) : Option ℚ := total.bind fun total => Format.double.round (total / count)

end Numbers

section Slots

structure Slot where
  seconds : UInt32
  hs : UInt32
  hs2 : UInt32

def blank : Slot := ⟨0,0,0⟩

/-- `buffer.writeUInt32LE(word)`. -/
def wordBytes (word : UInt32) : List UInt8 :=
  [UInt8.ofNat word.toNat,UInt8.ofNat (word.toNat / 2^8),UInt8.ofNat (word.toNat / 2^16),
    UInt8.ofNat (word.toNat / 2^24)]

def readUInt32LE (buffer : List UInt8) (offset : ℕ) : UInt32 :=
  UInt32.ofNat ((buffer.getD offset 0).toNat + 2^8 * (buffer.getD (offset + 1) 0).toNat +
    2^16 * (buffer.getD (offset + 2) 0).toNat + 2^24 * (buffer.getD (offset + 3) 0).toNat)

def Slot.bytes (slot : Slot) : List UInt8 := wordBytes slot.seconds ++ wordBytes slot.hs ++ wordBytes slot.hs2

def slotAt (buffer : List UInt8) : Slot := ⟨readUInt32LE buffer 0,readUInt32LE buffer 4,readUInt32LE buffer 8⟩

def slotsOf : ℕ → List UInt8 → List Slot
  | 0,_ => []
  | capacity + 1,buffer => slotAt buffer::slotsOf capacity (buffer.drop pointBytes)

/-- The word of infinity stands for what is not finite. -/
def floatWord (value : Option ℚ) : UInt32 := UInt32.ofNat (value.elim 0x7F800000 Format.single.word)

def readFloat (word : UInt32) : Option ℚ := Format.single.readFinite word.toNat

end Slots

/-- `ts` is in milliseconds; a hashrate is `none` where it is not finite. -/
structure Point where
  ts : ℕ
  hs : Option ℚ
  hs2 : Option ℚ

abbrev Tier := Ring Slot

structure History where
  baseIntervalSec : ℕ
  tierRatio : ℕ
  capacities : List ℕ
  tiers : List Tier

def createEmptyTier (capacity : ℕ) : Tier := ⟨0,0,List.replicate capacity blank⟩

def createEmptyHistory (layout : Layout) : History :=
  ⟨layout.baseIntervalSec,layout.tierRatio,layout.capacities,layout.capacities.map createEmptyTier⟩

section Appending

def readSlot (slot : Slot) : Point := ⟨slot.seconds.toNat * 1000,readFloat slot.hs,readFloat slot.hs2⟩

def writeSlot (point : Point) : Slot where
  seconds := UInt32.ofNat (WorkerHistory.round ((normalizeTimestampMs (some point.ts) : ℚ) / 1000)).toNat
  hs := floatWord (normalizeHashrate point.hs)
  hs2 := floatWord (normalizeHashrate point.hs2)

def getPoint (tier : Tier) (capacity logicalIndex : ℕ) : Except Failure Point :=
  match tier.buffer[tier.slot capacity logicalIndex]? with
  | some slot => .ok (readSlot slot)
  | none => .error .rangeError

def setPoint (tier : Tier) (capacity logicalIndex : ℕ) (point : Point) : Except Failure Tier :=
  if tier.slot capacity logicalIndex < tier.buffer.length then .ok (tier.set capacity logicalIndex (writeSlot point))
  else .error .rangeError

/-- The end of `appendToTier`. -/
def addPoint (tier : Tier) (capacity : ℕ) (point : Point) : Except Failure Tier :=
  (setPoint tier capacity tier.size point).map fun tier => { tier with size := tier.size + 1 }

def average (bucketSize : ℕ) (points : List Point) : Point :=
  let totals := points.foldl (fun (_,totalHs,totalHs2) point =>
    (point.ts,plus totalHs point.hs,plus totalHs2 point.hs2)) (0,some 0,some 0)
  ⟨totals.1,normalizeHashrate (dividedBy totals.2.1 bucketSize),normalizeHashrate (dividedBy totals.2.2 bucketSize)⟩

def compactOldestBucket (tier : Tier) (capacity bucketSize : ℕ) : Except Failure (Point × Tier) := do
  let points ← (List.range bucketSize).mapM (getPoint tier capacity)
  return (average bucketSize points,tier.dropOldest capacity bucketSize)

def appendToTier (tierRatio : ℕ) : List ℕ → List Tier → Point → Except Failure (List Tier)
  | capacity::capacities,tier::tiers,point =>
    if tiers = [] then do
      let appended ← addPoint (if tier.size = capacity then tier.dropOldest capacity 1 else tier) capacity point
      return [appended]
    else if tier.size = capacity then do
      let (bucket,compacted) ← compactOldestBucket tier capacity tierRatio
      let coarser ← appendToTier tierRatio capacities tiers bucket
      let appended ← addPoint compacted capacity point
      return appended::coarser
    else do
      let appended ← addPoint tier capacity point
      return appended::tiers
  | _,tiers,_ => .ok tiers

def History.append (history : History) (point : Point) : Except Failure History := do
  let tiers ← appendToTier history.tierRatio history.capacities history.tiers point
  return { history with tiers }

end Appending

section Payloads

/-- `isRecord(tier) ? tier[key] : null`. -/
def metadataField (tier : Json) (key : String) : Option Json := if tier.isRecord then tier.field key else some .null

def normalizeHead (tier : Json) (capacity size : ℕ) : Except Failure ℕ :=
  if size = 0 then .ok 0
  else (number (metadataField tier "head")).map fun head => normalizeNonNegativeInteger head 0 % capacity

def normalizeTierMetadata (tier : Json) (capacity : ℕ) : Except Failure (ℕ × ℕ) := do
  let given ← number (metadataField tier "size")
  let size := min (normalizeNonNegativeInteger given 0) capacity
  let head ← normalizeHead tier capacity size
  return (head,size)

def normalizeBinaryTier (tier : Json) (capacity : ℕ) : Except Failure (Option Tier) :=
  match tier.field "data" with
  | some (.str data) => do
    let (head,size) ← normalizeTierMetadata tier capacity
    let decoded := Base64.decode data
    return if decoded.length = capacity * pointBytes then some ⟨head,size,slotsOf capacity decoded⟩ else none
  | _ => .ok none

def normalizeTiers : List ℕ → List Json → Except Failure (Option (List Tier))
  | capacity::capacities,tier::tiers => do
    match ← normalizeBinaryTier tier capacity with
    | some tier => return (← normalizeTiers capacities tiers).map fun tiers => tier::tiers
    | none => return none
  | _,_ => .ok (some [])

def payloadParts (payload : Json) : Option (List Json × List Json) :=
  match payload.field "v",payload.field "kind",payload.field "encoding",payload.field "capacities",
    payload.field "tiers" with
  | some (.num v),some (.str kind),some (.str encoding),some (.arr capacities),some (.arr tiers) =>
    if v = historyVersion ∧ kind = historyKind ∧ encoding = historyEncoding then some (capacities,tiers) else none
  | _,_,_,_,_ => none

def normalizeTieredHistoryPayload (payload : Json) : Except Failure (Option History) :=
  match payloadParts payload with
  | none => .ok none
  | some (given,rawTiers) => do
    let normalized ← given.mapM fun capacity => (number (some capacity)).map fun capacity =>
      normalizePositiveInteger capacity 0
    let capacities := normalized.filter fun capacity => 0 < capacity
    if capacities = [] ∨ capacities.length ≠ rawTiers.length then return none
    else do
      let baseIntervalSec ← number (payload.field "baseIntervalSec")
      let tierRatio ← number (payload.field "tierRatio")
      let tiers ← normalizeTiers capacities rawTiers
      return tiers.map fun tiers =>
        ⟨normalizePositiveInteger baseIntervalSec defaultBaseIntervalSec,
          normalizePositiveInteger tierRatio defaultTierRatio,capacities,tiers⟩

def layoutsMatch (history : History) (layout : Layout) : Bool :=
  history.baseIntervalSec = layout.baseIntervalSec && history.tierRatio = layout.tierRatio &&
    history.capacities = layout.capacities

def tierPoints (capacity : ℕ) (tier : Tier) : List (Except Failure Point) :=
  ((List.range tier.size).map (getPoint tier capacity)).reverse

def historyPoints (history : History) (maxPoints : Option ℕ) : Except Failure (List Point) :=
  let reads := (List.zipWith tierPoints history.capacities history.tiers).flatten
  match maxPoints with
  | some maxPoints => (reads.take (max 1 maxPoints)).mapM id
  | none => reads.mapM id

inductive Given where
  | json (value : Json)
  | point (point : Point)

def normalizeFields (ts hs hs2 : Except Failure (Option ℚ)) : Except Failure (Option Point) := do
  let ts ← ts
  let hs ← hs
  match hs with
  | none => return none
  | some hs =>
    let hs2 ← hs2
    return some ⟨normalizeTimestampMs ts,normalizeHashrate (some hs),normalizeHashrate hs2⟩

def normalizePoint : Given → Except Failure (Option Point)
  | .json point =>
    if point.isRecord then
      normalizeFields (number (point.field "ts")) (number (point.field "hs")) (number (point.field "hs2"))
    else .ok none
  | .point point => normalizeFields (.ok (some point.ts)) (.ok point.hs) (.ok point.hs2)

def replay (history : History) (point : Given) : Except Failure History := do
  match ← normalizePoint point with
  | some point => history.append point
  | none => return history

def importHistoryPoints (points : List Given) (layout : Layout) : Except Failure History :=
  points.reverse.foldlM replay (createEmptyHistory layout)

def getWorkerHistoryState (payload : Json) (layout : Layout) : Except Failure History := do
  match ← normalizeTieredHistoryPayload payload with
  | some normalized =>
    if layoutsMatch normalized layout then return normalized
    else do
      let points ← historyPoints normalized none
      importHistoryPoints (points.map .point) layout
  | none => return createEmptyHistory layout

def natural (value : ℕ) : Json := .num value

def serializeTier (tier : Tier) : Json :=
  .obj [("head",natural tier.head),("size",natural tier.size),
    ("data",.str (Base64.encode (tier.buffer.flatMap Slot.bytes)))]

def serializeHistory (history : History) : Json :=
  .obj [("v",.num historyVersion),("kind",.str historyKind),("encoding",.str historyEncoding),
    ("baseIntervalSec",natural history.baseIntervalSec),("tierRatio",natural history.tierRatio),
    ("capacities",.arr (history.capacities.map natural)),("tiers",.arr (history.tiers.map serializeTier))]

end Payloads
end NodejsPool.HistoryPayload
