import Mathlib.Data.Multiset.AddSub
import NodejsPool.Async.Transaction
import NodejsPool.BlockManager.Precalc

/-! Storing a batch of shares: its totals are gathered per cache key, merged into the cached
rows and written with the share records in one transaction. -/
namespace NodejsPool.RemoteShare.ShareStore
open Async Arithmetic
open BlockManager (PoolType)

inductive Number where
  | finite (value : ℚ)
  | nonfinite

inductive Value where
  | undefined
  | null
  | boolean (value : Bool)
  | number (value : Number)
  | string (value : String)
  | record (fields : List (String × Value))

namespace Value

def field (value : Value) (name : String) : Value :=
  match value with
  | .record fields => ((fields.find? fun entry => entry.1 = name).map Prod.snd).getD .undefined
  | _ => .undefined

def readString : Value → Option String
  | .string text => some text
  | _ => none

def readBoolean : Value → Option Bool
  | .boolean value => some value
  | _ => none

def readFinite : Value → Option ℚ
  | .number (.finite value) => some value
  | _ => none

def readInteger (value : Value) : Option ℤ := (value.readFinite.filter fun number => number.den = 1).map Rat.num

def isOptionalInteger (value : Value) : Option (Option ℤ) :=
  match value with
  | .undefined => some none
  | value => value.readInteger.map some

end Value

/-- A storable share. A payment id that is `null` is the same as an absent one. -/
structure Share where
  paymentAddress : String
  identifier : String
  poolType : PoolType
  raw_shares : ℚ
  blockHeight : ℕ
  foundBlock : Bool
  trustedShare : Bool
  poolID : ℤ
  blockDiff : ℤ
  timestamp : ℤ
  paymentID : Option String
  port : Option ℤ
  shares : Option ℤ
  shares2 : Option ℤ
  share_num : Option ℤ
  deriving DecidableEq

def readPoolType : ℤ → Option PoolType
  | 0 => some .PPLNS
  | 1 => some .PPS
  | 2 => some .PROP
  | 3 => some .SOLO
  | _ => none

def isInt32 (value : ℤ) : Bool := -0x80000000 ≤ value && value ≤ 0x7fffffff

def readPaymentID : Value → Option (Option String)
  | .undefined | .null => some none
  | .string paymentID => some (some paymentID)
  | _ => none

def isStorableShare (value : Value) : Option Share := do
  let paymentAddress ← (value.field "paymentAddress").readString
  let identifier ← (value.field "identifier").readString
  let poolType ← (value.field "poolType").readInteger.bind readPoolType
  let raw_shares ← (value.field "raw_shares").readFinite.filter fun work => 0 ≤ work
  let blockHeight ← (value.field "blockHeight").readInteger.filter fun height => 0 ≤ height && height ≤ 0xffffffff
  let foundBlock ← (value.field "foundBlock").readBoolean
  let trustedShare ← (value.field "trustedShare").readBoolean
  let poolID ← (value.field "poolID").readInteger.filter isInt32
  let blockDiff ← (value.field "blockDiff").readInteger
  let timestamp ← (value.field "timestamp").readInteger
  let paymentID ← readPaymentID (value.field "paymentID")
  let port ← (value.field "port").isOptionalInteger.filter fun port => port.all isInt32
  let shares ← (value.field "shares").isOptionalInteger
  let shares2 ← (value.field "shares2").isOptionalInteger
  let share_num ← (value.field "share_num").isOptionalInteger
  some ⟨paymentAddress,identifier,poolType,raw_shares,blockHeight.toNat,foundBlock,trustedShare,poolID,blockDiff,
    timestamp,paymentID,port,shares,shares2,share_num⟩

def utf16Length (text : String) : ℕ := (text.toList.map fun char => if char.toNat < 0x10000 then 1 else 2).sum

def getMinerId (share : Share) : String :=
  match share.paymentID with
  | some paymentID =>
    if 10 < utf16Length paymentID then share.paymentAddress ++ "." ++ paymentID else share.paymentAddress
  | none => share.paymentAddress

/-- `false` stands for a counter that starts again. -/
inductive RoundHashes where
  | count (value : ℚ)
  | reset
  deriving DecidableEq

def RoundHashes.value : RoundHashes → ℚ
  | .count value => value
  | .reset => 0

structure CacheEntry where
  totalHashes : Option ℚ := none
  goodShares : Option ℚ := none
  roundHashes : Option RoundHashes := none
  deriving DecidableEq

abbrev CacheUpdates := List (String × CacheEntry)

def ensureCacheEntry (updates : CacheUpdates) (key : String) (factory : CacheEntry) : CacheUpdates :=
  if key ∈ updates.map Prod.fst then updates else updates ++ [(key,factory)]

def changeCacheEntry (updates : CacheUpdates) (key : String) (change : CacheEntry → CacheEntry) : CacheUpdates :=
  updates.map fun entry => if entry.1 = key then (entry.1,change entry.2) else entry

section Totals

variable [Arithmetic]

def addTotalHashes (value : ℚ) (entry : CacheEntry) : CacheEntry :=
  {entry with totalHashes := some (nearest (entry.totalHashes.getD 0 + value))}

def addRoundHashes (value : ℚ) (entry : CacheEntry) : CacheEntry :=
  {entry with roundHashes := some (.count (nearest ((entry.roundHashes.map RoundHashes.value).getD 0 + value)))}

def addGoodShares (value : ℚ) (entry : CacheEntry) : CacheEntry :=
  {entry with goodShares := some (nearest (entry.goodShares.getD 0 + value))}

def statsEntry : CacheEntry where
  totalHashes := some 0
  roundHashes := some (.count 0)

def minerEntry : CacheEntry where
  totalHashes := some 0
  goodShares := some 0

structure Settings where
  daemonPort : ℤ
  /-- The coin of the main profile's dual submissions, when it names one. -/
  dualSubmitDisplayCoin : Option String
  COIN2PORT : String → Option ℤ

def defaultStatsPort (settings : Settings) : ℤ :=
  match settings.dualSubmitDisplayCoin with
  | some defaultStatsCoin =>
    if defaultStatsCoin = "" then settings.daemonPort else (settings.COIN2PORT defaultStatsCoin).getD
      settings.daemonPort
  | none => settings.daemonPort

def poolTypeStr (poolType : PoolType) : String := if poolType = .PPLNS then "pplns" else "legacy"

def globalStatsKey : String := "global_stats2"

def shareNumber (share : Share) : ℚ :=
  match share.share_num with
  | some share_num => if share_num = 0 then 1 else share_num
  | none => 1

def sharePortSuffix (settings : Settings) (share : Share) : String :=
  match share.port with
  | some port => if port = settings.daemonPort then "" else "_" ++ toString port
  | none => ""

def statsTypeKey (share : Share) : String := poolTypeStr share.poolType ++ "_stats2"

def minerWorkerID (share : Share) : String := getMinerId share ++ "_" ++ share.identifier

def addHashes (updates : CacheUpdates) (key : String) (value : ℚ) : CacheUpdates :=
  changeCacheEntry (changeCacheEntry updates key (addTotalHashes value)) key (addRoundHashes value)

def addShares (updates : CacheUpdates) (key : String) (share : Share) : CacheUpdates :=
  changeCacheEntry (changeCacheEntry updates key (addTotalHashes share.raw_shares)) key
    (addGoodShares (shareNumber share))

def ensureShareEntries (updates : CacheUpdates) (share : Share) : CacheUpdates :=
  let updates := ensureCacheEntry updates globalStatsKey statsEntry
  let updates := ensureCacheEntry updates (getMinerId share) minerEntry
  let updates := ensureCacheEntry updates (minerWorkerID share) minerEntry
  ensureCacheEntry updates (statsTypeKey share) statsEntry

def addPortHashes (updates : CacheUpdates) (share : Share) (portSuffix : String) : CacheUpdates :=
  let updates := ensureCacheEntry updates (globalStatsKey ++ portSuffix) statsEntry
  let updates := ensureCacheEntry updates (statsTypeKey share ++ portSuffix) statsEntry
  let updates := changeCacheEntry updates globalStatsKey (addTotalHashes share.raw_shares)
  let updates := addHashes updates (globalStatsKey ++ portSuffix) share.raw_shares
  let updates := changeCacheEntry updates (statsTypeKey share) (addTotalHashes share.raw_shares)
  addHashes updates (statsTypeKey share ++ portSuffix) share.raw_shares

def applyShareCacheUpdates (settings : Settings) (updates : CacheUpdates) (share : Share) : CacheUpdates :=
  let updates := ensureShareEntries updates share
  let portSuffix := sharePortSuffix settings share
  -- a share of the daemon's port counts for the totals and, once more, for the default port
  let updates :=
    if portSuffix = "" then
      let updates := addHashes (addHashes updates globalStatsKey share.raw_shares) (statsTypeKey share) share.raw_shares
      addPortHashes updates share ("_" ++ toString (defaultStatsPort settings))
    else addPortHashes updates share portSuffix
  addShares (addShares updates (getMinerId share) share) (minerWorkerID share) share

/-- A cached row: a JSON text that is no cache entry, or an entry with the further
properties of its object. -/
inductive CacheRow where
  | malformed
  | entry (fields : CacheEntry) (others : List (String × String))
  deriving DecidableEq

inductive Failure where
  | lost
  | badValueSize
  | invalidCacheEntry (key : String)
  | encoding

def mergedRow (key : String) (cacheStore : Option CacheRow) (nextValue : CacheEntry) : Except Failure CacheRow :=
  match cacheStore with
  | none => .ok (.entry nextValue [])
  | some .malformed => .error (.invalidCacheEntry key)
  | some (.entry cached others) =>
    let cached := match nextValue.totalHashes with
      | some value => addTotalHashes value cached
      | none => cached
    let cached := match nextValue.goodShares with
      | some value => addGoodShares value cached
      | none => cached
    let cached := match nextValue.roundHashes with
      | some .reset => {cached with roundHashes := some (.count 0)}
      | some (.count value) => addRoundHashes value cached
      | none => cached
    .ok (.entry cached others)

end Totals

/-- Values of many lengths are no integers to compare: the share database keeps every put, equal ones too. -/
structure Db (Record : Type) where
  shareDB : Multiset (ℕ × Record)
  cacheDB : String → Option CacheRow

/-- The encoder of share messages, which may throw, and the sizes the database admits. -/
structure Backend (Record : Type) where
  encode : Share → Option Record
  keyFits : String → Bool
  valueFits : Record → Bool

variable {Record : Type}

def Db.setRow (db : Db Record) (key : String) (row : CacheRow) : Db Record :=
  {db with cacheDB := Function.update db.cacheDB key (some row)}

abbrev StoreWork (Record A : Type) := Work (Db Record) Failure A

def statement {A : Type} (run : Db Record → Except Failure (A × Db Record)) : StoreWork Record A :=
  Work.statement .lost run

def getString (backend : Backend Record) (key : String) (db : Db Record) :
    Except Failure (Option CacheRow × Db Record) :=
  if backend.keyFits key then .ok (db.cacheDB key,db) else .error .badValueSize

def putString (key : String) (row : CacheRow) (db : Db Record) : Except Failure (Unit × Db Record) :=
  .ok ((),db.setRow key row)

section Runs

variable {db : Db Record}

theorem run_bind {A B : Type} {work : StoreWork Record A} {next : A → StoreWork Record B} {value : A}
    {middle : Db Record} (ran : work (db,none) = .ok (value,middle,none)) :
    (work >>= next) (db,none) = next value (middle,none) := by
  change (work (db,none) >>= fun pair => next pair.1 pair.2) = _
  rw [ran]
  rfl

theorem run_fails {A B : Type} {work : StoreWork Record A} {next : A → StoreWork Record B} {failure : Failure}
    (ran : work (db,none) = .error failure) : (work >>= next) (db,none) = .error failure := by
  change (work (db,none) >>= fun pair => next pair.1 pair.2) = _
  rw [ran]
  rfl

theorem setRow_self (db : Db Record) (key : String) (row : CacheRow) : (db.setRow key row).cacheDB key = some row :=
  Function.update_self ..

theorem setRow_other (db : Db Record) {key other : String} (distinct : other ≠ key) (row : CacheRow) :
    (db.setRow key row).cacheDB other = db.cacheDB other := Function.update_of_ne distinct ..

end Runs

def putBinary (backend : Backend Record) (height : ℕ) (record : Record) (db : Db Record) :
    Except Failure (Unit × Db Record) :=
  if backend.valueFits record then .ok ((),{db with shareDB := (height,record) ::ₘ db.shareDB})
  else .error .badValueSize

variable [Arithmetic]

def mergeCacheEntry (backend : Backend Record) (key : String) (nextValue : CacheEntry) : StoreWork Record Unit := do
  let cacheStore ← statement (getString backend key)
  match mergedRow key cacheStore nextValue with
  | .error failure => throw failure
  | .ok row => statement (putString key row)

def putShare (backend : Backend Record) (share : Share) : StoreWork Record Unit :=
  match backend.encode share with
  | none => throw .encoding
  | some record => statement (putBinary backend share.blockHeight record)

def mergeCacheEntries (backend : Backend Record) : CacheUpdates → StoreWork Record Unit
  | [] => pure ()
  | (key,cacheEntry)::updates => do
    mergeCacheEntry backend key cacheEntry
    mergeCacheEntries backend updates

def putShares (backend : Backend Record) : List Share → StoreWork Record Unit
  | [] => pure ()
  | share::shares => do
    putShare backend share
    putShares backend shares

def batchUpdates (settings : Settings) (shares : List Share) : CacheUpdates :=
  shares.foldl (applyShareCacheUpdates settings) [(globalStatsKey,statsEntry)]

/-- What goes wrong around a transaction of the local database: it does not begin, a
statement of it throws, or its commit does. -/
structure Faults where
  begun : Bool := true
  fault : Option ℕ := none
  committed : Bool := true

def Faults.fate (faults : Faults) : Fate :=
  ⟨faults.begun,faults.fault,if faults.committed then .done else .refused⟩

def storeWork (backend : Backend Record) (settings : Settings) (shares : List Share) : StoreWork Record Bool := do
  mergeCacheEntries backend (batchUpdates settings shares)
  putShares backend shares
  return true

def storeShares (backend : Backend Record) (settings : Settings) (shares : List Value) (faults : Faults)
    (db : Db Record) :
    Except Failure Bool × Db Record :=
  if shares.isEmpty then (.ok false,db)
  else transact .lost faults.fate (storeWork backend settings (shares.filterMap isStorableShare)) db

end NodejsPool.RemoteShare.ShareStore
