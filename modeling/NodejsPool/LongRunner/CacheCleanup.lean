import NodejsPool.Common.Scans
import NodejsPool.Common.WriteBatches
import NodejsPool.Payments.Json

/-! The long runner's cleanup of cached statistics: worker families (data, history, stats) that are incomplete or a week
old, account histories a month old, and the hash rates of accounts that stopped a day ago. -/
namespace NodejsPool.LongRunner.CacheCleanup
open Scans WriteBatches Payments

abbrev Text := List UInt16

/-- A key of the database. Their order is whatever the database's is. -/
structure CacheKey where
  units : Text

/-- A cached value as `JSON.parse` reads it, none where that throws. -/
abbrev Cached := Option Json

def HOUR_MS : ℚ := 60 * 60 * 1000
def DAY_MS : ℚ := 24 * HOUR_MS
def WEEK_MS : ℚ := 7 * DAY_MS
def MONTH_MS : ℚ := 30 * DAY_MS

def utf16 (value : String) : Text :=
  value.toList.flatMap fun char =>
    if char.toNat < 0x10000 then [UInt16.ofNat char.toNat]
    else [UInt16.ofNat (0xd800 + (char.toNat - 0x10000) / 0x400),UInt16.ofNat (0xdc00 + (char.toNat - 0x10000) % 0x400)]

/-- `identifiers:`. -/
def identifiersPrefix : Text := [105,100,101,110,116,105,102,105,101,114,115,58]

/-- `history:`. -/
def historyPrefix : Text := [104,105,115,116,111,114,121,58]

/-- `stats:`. -/
def statsPrefix : Text := [115,116,97,116,115,58]

def underscore : UInt16 := 95

def identifiersKey (base : Text) : CacheKey := ⟨identifiersPrefix ++ base⟩
def historyKey (base : Text) : CacheKey := ⟨historyPrefix ++ base⟩
def statsKey (base : Text) : CacheKey := ⟨statsPrefix ++ base⟩

/-- `Number(stats.lastHash)` where it is a positive number, of a value that is no object. -/
def getLastHashMs (stats : Option Json) : ℚ :=
  match stats with
  | some (.obj fields) =>
    match toNumber ((Json.obj fields).field "lastHash") with
    | some lastHash => if 0 < lastHash then lastHash else 0
    | none => 0
  | _ => 0

variable [LinearOrder CacheKey]

abbrev CacheDb := SortedStore CacheKey Cached

/-- None stands for `false`. -/
def getCache (db : CacheDb) (key : CacheKey) : Option Json := (db.get key).join

def truthy (value : Option Json) : Bool := value.any Json.truthy

structure World where
  db : CacheDb
  deletes : List CacheKey
  updates : List (CacheKey × Cached)
  scheduledDeletes : List CacheKey
  deletedWorkerFamilies : List Text
  deletedAccountHistories : List Text

structure Settings where
  now : ℚ
  minKeyLength : ℕ

section Queues

def World.batch (world : World) : Batch CacheKey Cached := ⟨world.db,world.deletes,world.updates⟩

def flush (world : World) : World := ⟨world.batch.flush.db,[],[],[],[],[]⟩

def flushFull (batchSize : ℕ) (world : World) : World :=
  if batchSize ≤ world.deletes.length + world.updates.length then flush world else world

def queueDelete (batchSize : ℕ) (key : CacheKey) (world : World) : World :=
  if key ∈ world.scheduledDeletes then world
  else
    flushFull batchSize { world with
      scheduledDeletes := key::world.scheduledDeletes
      deletes := world.deletes ++ [key] }

def queueUpdate (batchSize : ℕ) (key : CacheKey) (value : Cached) (world : World) : World :=
  flushFull batchSize { world with updates := world.updates ++ [(key,value)] }

def queueWorkerFamilyDelete (batchSize : ℕ) (baseKey : Text) (world : World) : World :=
  if baseKey = [] ∨ baseKey ∈ world.deletedWorkerFamilies then world
  else
    let world := { world with deletedWorkerFamilies := baseKey::world.deletedWorkerFamilies }
    queueDelete batchSize (statsKey baseKey) (queueDelete batchSize (historyKey baseKey)
      (queueDelete batchSize ⟨baseKey⟩ world))

def queueAccountHistoryDelete (batchSize : ℕ) (baseKey : Text) (world : World) : World :=
  if baseKey = [] ∨ baseKey ∈ world.deletedAccountHistories then world
  else
    let world := { world with deletedAccountHistories := baseKey::world.deletedAccountHistories }
    queueDelete batchSize (historyKey baseKey) world

end Queues

section Visits

def isLive (settings : Settings) (db : CacheDb) (baseKey : Text) (identifier : String) : Bool :=
  let stats := getCache db (statsKey (baseKey ++ [underscore] ++ utf16 identifier))
  truthy stats && decide (settings.now - getLastHashMs stats ≤ DAY_MS)

def identifierText : Json → Option String
  | .str identifier => if identifier = "" then none else some identifier
  | _ => none

def liveIdentifiers (settings : Settings) (db : CacheDb) (baseKey : Text) (identifiers : List Json) : List String :=
  (identifiers.filterMap identifierText).filter (isLive settings db baseKey)

/-- `identifiers.sort()`. -/
def sortIdentifiers (identifiers : List String) : List String :=
  identifiers.mergeSort fun left right => decide (utf16 left ≤ utf16 right)

def sameIdentifiers (live : List String) (identifiers : List Json) : Bool :=
  live.length == identifiers.length &&
    (live.zip identifiers).all fun pair =>
      match pair.2 with
      | .str identifier => pair.1 == identifier
      | _ => false

def processIdentifierKey (settings : Settings) (batchSize : ℕ) (key : CacheKey) (data : Cached) (world : World) :
    World :=
  let baseKey := key.units.drop identifiersPrefix.length
  match data with
  | some (.arr identifiers) =>
    let live := sortIdentifiers (liveIdentifiers settings world.db baseKey identifiers)
    if sameIdentifiers live identifiers then world
    else if live.length = 0 then queueDelete batchSize key world
    else queueUpdate batchSize key (some (.arr (live.map Json.str))) world
  | _ => world

def processHistoryKey (settings : Settings) (batchSize : ℕ) (key : CacheKey) (world : World) : World :=
  let baseKey := key.units.drop historyPrefix.length
  if baseKey = [] ∨ baseKey.length < settings.minKeyLength then world
  else
    let stats := getCache world.db (statsKey baseKey)
    let lastHashMs := getLastHashMs stats
    if underscore ∉ baseKey then
      if !truthy stats ∨ MONTH_MS < settings.now - lastHashMs then queueAccountHistoryDelete batchSize baseKey world
      else world
    else if !truthy (getCache world.db ⟨baseKey⟩) ∨ !truthy stats ∨ WEEK_MS < settings.now - lastHashMs then
      queueWorkerFamilyDelete batchSize baseKey world
    else world

/-- `statsData[name]`, in a condition. -/
def hasTruthy (fields : List (String × Json)) (name : String) : Bool := truthy ((Json.obj fields).field name)

/-- `Object.assign(fields, {[name]: 0})`. -/
def assignZero (name : String) (fields : List (String × Json)) : List (String × Json) :=
  if (Json.obj fields).field name = none then fields ++ [(name,.num 0)]
  else fields.map fun entry => if entry.1 = name then (name,.num 0) else entry

def accountReset (settings : Settings) (data : Cached) : Option Cached :=
  match data with
  | some (.obj fields) =>
    if (hasTruthy fields "hash" || hasTruthy fields "hash2") &&
        decide (DAY_MS < settings.now - getLastHashMs (some (.obj fields))) then
      some (some (.obj (assignZero "hash2" (assignZero "hash" fields))))
    else none
  | _ => none

def processStatsKey (settings : Settings) (batchSize : ℕ) (key : CacheKey) (data : Cached) (world : World) : World :=
  let baseKey := key.units.drop statsPrefix.length
  if underscore ∉ baseKey then
    match accountReset settings data with
    | some value => queueUpdate batchSize key value world
    | none => world
  else if baseKey = [] ∨ baseKey.length < settings.minKeyLength then world
  else
    let stats := getCache world.db key
    let lastHashMs := getLastHashMs stats
    if !truthy (getCache world.db ⟨baseKey⟩) ∨ !truthy (getCache world.db (historyKey baseKey)) ∨ !truthy stats ∨
        WEEK_MS < settings.now - lastHashMs then
      queueWorkerFamilyDelete batchSize baseKey world
    else world

def processWorkerKey (settings : Settings) (batchSize : ℕ) (key : CacheKey) (world : World) : World :=
  let stats := getCache world.db (statsKey key.units)
  if !truthy stats ∨ !truthy (getCache world.db (historyKey key.units)) ∨
      WEEK_MS < settings.now - getLastHashMs stats then
    queueWorkerFamilyDelete batchSize key.units world
  else world

def visitKey (settings : Settings) (batchSize : ℕ) (key : CacheKey) (data : Cached) (world : World) : World :=
  if key.units = [] ∨ key.units.length < settings.minKeyLength then world
  else if identifiersPrefix <+: key.units then processIdentifierKey settings batchSize key data world
  else if historyPrefix <+: key.units then processHistoryKey settings batchSize key world
  else if statsPrefix <+: key.units then processStatsKey settings batchSize key data world
  else if underscore ∉ key.units then world
  else processWorkerKey settings batchSize key world

def cleanCacheDB (settings : Settings) (chunkSize batchSize fuel : ℕ) (db : CacheDb) : Option CacheDb :=
  (scanDb (visitKey settings batchSize) World.db false chunkSize fuel none ⟨db,[],[],[],[],[]⟩).map fun world =>
    (flush world).db

end Visits

section Meaning

def family (base : Text) : List CacheKey := [⟨base⟩,historyKey base,statsKey base]

def IsIdentifiers (key : CacheKey) : Prop := identifiersPrefix <+: key.units

def Prefixed (base : Text) : Prop := identifiersPrefix <+: base ∨ historyPrefix <+: base ∨ statsPrefix <+: base

structure WorkerBase (settings : Settings) (base : Text) : Prop where
  named : underscore ∈ base
  long : settings.minKeyLength ≤ base.length
  plain : ¬ Prefixed base

structure Complete (settings : Settings) (db : CacheDb) (base : Text) : Prop where
  data : truthy (getCache db ⟨base⟩) = true
  history : truthy (getCache db (historyKey base)) = true
  stats : truthy (getCache db (statsKey base)) = true
  recent : settings.now - getLastHashMs (getCache db (statsKey base)) ≤ WEEK_MS

structure StaleAccount (settings : Settings) (db : CacheDb) (base : Text) : Prop where
  unnamed : underscore ∉ base
  some : base ≠ []
  long : settings.minKeyLength ≤ base.length
  stale : truthy (getCache db (statsKey base)) = false ∨
    MONTH_MS < settings.now - getLastHashMs (getCache db (statsKey base))

def Plain (db : CacheDb) : Prop :=
  ∀ base, underscore ∈ base → (db.get (historyKey base)).isSome ∨ (db.get (statsKey base)).isSome → ¬ Prefixed base

def Doomed (settings : Settings) (db : CacheDb) (key : CacheKey) : Prop :=
  (∃ base, WorkerBase settings base ∧ key ∈ family base ∧ ¬ Complete settings db base) ∨
  ∃ base, StaleAccount settings db base ∧ key = historyKey base

def Reset (settings : Settings) (db : CacheDb) (key : CacheKey) (value : Cached) : Prop :=
  ∃ base data, underscore ∉ base ∧ key = statsKey base ∧ settings.minKeyLength ≤ key.units.length ∧
    db.get key = some data ∧ accountReset settings data = some value

end Meaning

section Requests

inductive Request
  | keep
  | family (base : Text)
  | accountHistory (base : Text)
  | delete (key : CacheKey)
  | update (key : CacheKey) (value : Cached)

def perform (batchSize : ℕ) (request : Request) (world : World) : World :=
  match request with
  | .keep => world
  | .family base => queueWorkerFamilyDelete batchSize base world
  | .accountHistory base => queueAccountHistoryDelete batchSize base world
  | .delete key => queueDelete batchSize key world
  | .update key value => queueUpdate batchSize key value world

def familyRequest (settings : Settings) (db : CacheDb) (base : Text) (parts : List CacheKey) : Request :=
  let stats := getCache db (statsKey base)
  if (parts.any fun part => !truthy (getCache db part)) || !truthy stats ||
      decide (WEEK_MS < settings.now - getLastHashMs stats) then .family base
  else .keep

def historyRequest (settings : Settings) (db : CacheDb) (base : Text) : Request :=
  if base = [] ∨ base.length < settings.minKeyLength then .keep
  else if underscore ∉ base then
    let stats := getCache db (statsKey base)
    if !truthy stats || decide (MONTH_MS < settings.now - getLastHashMs stats) then .accountHistory base else .keep
  else familyRequest settings db base [⟨base⟩]

def statsRequest (settings : Settings) (db : CacheDb) (base : Text) (data : Cached) : Request :=
  if underscore ∉ base then
    match accountReset settings data with
    | some value => .update (statsKey base) value
    | none => .keep
  else if base = [] ∨ base.length < settings.minKeyLength then .keep
  else familyRequest settings db base [⟨base⟩,historyKey base]

theorem perform_familyRequest (settings : Settings) (batchSize : ℕ) (db : CacheDb) (base : Text) (parts : List CacheKey)
    (world : World) : perform batchSize (familyRequest settings db base parts) world =
      if (parts.any fun part => !truthy (getCache db part)) ∨ !truthy (getCache db (statsKey base)) ∨
          WEEK_MS < settings.now - getLastHashMs (getCache db (statsKey base)) then
        queueWorkerFamilyDelete batchSize base world
      else world := by
  rw [familyRequest,apply_ite (perform batchSize · world)]
  simp only [Bool.or_eq_true,decide_eq_true_eq,or_assoc]
  rfl

theorem processHistoryKey_eq (settings : Settings) (batchSize : ℕ) (base : Text) (world : World) :
    processHistoryKey settings batchSize (historyKey base) world =
      perform batchSize (historyRequest settings world.db base) world := by
  have same : (historyKey base).units.drop historyPrefix.length = base := List.drop_left
  unfold processHistoryKey historyRequest
  dsimp only
  rw [same]
  split
  · rfl
  · split
    · rw [apply_ite (perform batchSize · world)]
      simp only [Bool.or_eq_true,decide_eq_true_eq]
      rfl
    · simp only [perform_familyRequest,List.any_cons,List.any_nil,Bool.or_false]

theorem processStatsKey_eq (settings : Settings) (batchSize : ℕ) (base : Text) (data : Cached) (world : World) :
    processStatsKey settings batchSize (statsKey base) data world =
      perform batchSize (statsRequest settings world.db base data) world := by
  have same : (statsKey base).units.drop statsPrefix.length = base := List.drop_left
  unfold processStatsKey statsRequest
  dsimp only
  rw [same]
  split
  · cases accountReset settings data <;> rfl
  · split
    · rfl
    · simp only [perform_familyRequest,List.any_cons,List.any_nil,Bool.or_false,Bool.or_eq_true,or_assoc]

theorem processWorkerKey_eq (settings : Settings) (batchSize : ℕ) (base : Text) (world : World) :
    processWorkerKey settings batchSize ⟨base⟩ world =
      perform batchSize (familyRequest settings world.db base [historyKey base]) world := by
  unfold processWorkerKey
  simp only [perform_familyRequest,List.any_cons,List.any_nil,Bool.or_false]
  exact if_congr or_left_comm rfl rfl

def identifierRequest (settings : Settings) (db : CacheDb) (key : CacheKey) (data : Cached) : Request :=
  match data with
  | some (.arr identifiers) =>
    let live := sortIdentifiers (liveIdentifiers settings db (key.units.drop identifiersPrefix.length) identifiers)
    if sameIdentifiers live identifiers then .keep
    else if live.length = 0 then .delete key
    else .update key (some (.arr (live.map Json.str)))
  | _ => .keep

theorem processIdentifierKey_eq (settings : Settings) (batchSize : ℕ) (key : CacheKey) (data : Cached) (world : World) :
    processIdentifierKey settings batchSize key data world =
      perform batchSize (identifierRequest settings world.db key data) world := by
  unfold processIdentifierKey identifierRequest
  dsimp only
  split
  · split
    · rfl
    · split <;> rfl
  · rfl

inductive Kind (settings : Settings) (key : CacheKey) : Prop
  | skipped (short : key.units = [] ∨ key.units.length < settings.minKeyLength)
  | identifiers (long : settings.minKeyLength ≤ key.units.length) (same : IsIdentifiers key)
  | history (base : Text) (long : settings.minKeyLength ≤ key.units.length) (same : key = historyKey base)
  | stats (base : Text) (long : settings.minKeyLength ≤ key.units.length) (same : key = statsKey base)
  | account (unnamed : underscore ∉ key.units) (plain : ¬ Prefixed key.units)
  | worker (base : Text) (worker : WorkerBase settings base) (same : key = ⟨base⟩)

omit [LinearOrder CacheKey] in
theorem kind (settings : Settings) (key : CacheKey) : Kind settings key := by
  obtain ⟨units⟩ := key
  by_cases short : units = [] ∨ units.length < settings.minKeyLength
  · exact .skipped short
  have long : settings.minKeyLength ≤ units.length := not_lt.mp (not_or.mp short).2
  by_cases identifiers : identifiersPrefix <+: units
  · exact .identifiers long identifiers
  by_cases history : historyPrefix <+: units
  · obtain ⟨base,same⟩ := history
    exact .history base long (by rw [historyKey,same])
  by_cases stats : statsPrefix <+: units
  · obtain ⟨base,same⟩ := stats
    exact .stats base long (by rw [statsKey,same])
  have plain : ¬ Prefixed units := fun prefixed => prefixed.elim identifiers fun rest => rest.elim history stats
  by_cases named : underscore ∈ units
  · exact .worker units ⟨named,long,plain⟩ rfl
  · exact .account named plain

end Requests

end NodejsPool.LongRunner.CacheCleanup
