import NodejsPool.Async.Machine
import NodejsPool.Common.Entries
import NodejsPool.RemoteShare.BatchStoring

/-! The processes that write the cache: storing shares, counting bad ones, the worker's statistics
cycle and the long runner's cleanup. -/
namespace NodejsPool.RemoteShare.CacheTotals
open Async ShareStore

def hasPrefix (key start : String) : Bool := start.toList.isPrefixOf key.toList

def isPoolKey (key : String) : Bool :=
  ["stats:","history:","identifiers:","global_stats2","pplns_stats2","legacy_stats2"].any (hasPrefix key) ||
    key ∈ ["minerSet","pplns_stats","global_stats","port_hash","portMinerCount"]

def isCleanedKey (key : String) : Bool :=
  '_' ∈ key.toList || ["stats:","history:","identifiers:"].any (hasPrefix key)

/-- `credited` are the shares stored for an entry since it was not found; `entries` is the batcher
of the worker's cycle, with what it has not flushed. -/
structure World (Record : Type) where
  db : Db Record
  credited : String → List Share
  entries : List (String × CacheRow)

def batchSize : ℕ := 500

variable {Record : Type}

def countsFor (key : String) (share : Share) : Bool := getMinerId share = key || minerWorkerID share = key

def credit (credited : String → List Share) (rows : String → Option CacheRow) (shares : List Share) (key : String) :
    List Share :=
  let own := shares.filter (countsFor key)
  if own = [] then credited key else if rows key = none then own else credited key ++ own

def flushDeletes (db : Db Record) (keys : List String) : Db Record :=
  { db with cacheDB := fun key => if key ∈ keys then none else db.cacheDB key }

def flushStringPuts (db : Db Record) (entries : List (String × CacheRow)) : Db Record :=
  entries.foldl (fun db entry => db.setRow entry.1 entry.2) db

/-- `badShares` of an entry; a new counter starts at zero. -/
def incrementCacheData (db : Db Record) (key : String) (count : ℤ) : Db Record :=
  match db.cacheDB key with
  | some (.entry fields others) =>
    let value :=
      match Entries.get others "badShares" with
      | some current => toString ((current.toInt?.getD 0) + count)
      | none => "0"
    db.setRow key (.entry fields (Entries.put others "badShares" value))
  | _ => db

inductive Queued where
  | own (key : String) (row : CacheRow)
  | stopped (miner : String)

/-- The row that `updateWorkerTransitions` writes back: the snapshot's with a zero `hash`, when that
is not what was read. A text that is no entry is left alone. -/
def stoppedRow (row : Option CacheRow) : Option CacheRow :=
  match row with
  | some (.entry fields others) =>
    let cleared := CacheRow.entry fields (Entries.put others "hash" "0")
    if cleared = .entry fields others then none else some cleared
  | _ => none

def queueCacheWrite (rows : String → Option CacheRow) : Queued → Option (String × CacheRow)
  | .own key row => some (key,row)
  | .stopped miner => (stoppedRow (rows miner)).map fun row => (miner,row)

def Queued.allowed : Queued → Bool
  | .own key _ => isPoolKey key
  | .stopped _ => true

inductive Label where
  | storeShares (shares : List Value)
  | storeInvalidShare (key : String) (count : ℤ)
  | readSnapshot (queue : List Queued)
  | flush
  | abort
  | flushDeletes (keys : List String)
  | flushStringPuts (entries : List (String × CacheRow))

variable (backend : Backend Record) (settings : Settings)

def step (world : World Record) : Label → Option (World Record)
  | .storeShares shares =>
    match storeShares backend settings shares {} world.db with
    | (.ok true,db) =>
      some { world with
        db := db
        credited := credit world.credited world.db.cacheDB (shares.filterMap isStorableShare) }
    | (_,db) => some { world with db := db }
  | .storeInvalidShare key count => some { world with db := incrementCacheData world.db key count }
  | .readSnapshot queue =>
    -- one process runs the cycles, one after the other
    if world.entries = [] ∧ queue.all Queued.allowed then
      some { world with entries := queue.filterMap (queueCacheWrite world.db.cacheDB) }
    else none
  | .flush =>
    some { world with
      db := flushStringPuts world.db (world.entries.take batchSize)
      entries := world.entries.drop batchSize }
  | .abort => some { world with entries := [] }
  | .flushDeletes keys =>
    if keys.all isCleanedKey then some { world with db := flushDeletes world.db keys } else none
  | .flushStringPuts entries =>
    if entries.all fun entry => isPoolKey entry.1 then some { world with db := flushStringPuts world.db entries }
      else none

def emptyWorld : World Record := ⟨⟨∅,fun _ => none⟩,fun _ => [],[]⟩

def machine : Machine (World Record) Label := ⟨fun world => world = emptyWorld,step backend settings⟩

end NodejsPool.RemoteShare.CacheTotals
