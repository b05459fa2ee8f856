import NodejsPool.Async.Machine
import NodejsPool.Worker.MinerKeys
import Mathlib.Data.List.Count

/-! The mails that tell of workers that stopped and started hashing: a stop is looked at again after a delay. -/
namespace NodejsPool.Worker.StopNotices
open Async

def STATS_INTERVAL_MS : ℕ := 20 * 1000
def EMAIL_CACHE_TTL_MS : ℕ := 6 * 60 * 60 * 1000
def STOPPED_HASHING_DELAY_MS : ℕ := 10 * 60 * 1000
def STARTED_HASHING_TTL_MS : ℕ := 2 * STOPPED_HASHING_DELAY_MS
def STOPPED_HASHING_TTL_MS : ℕ := 2 * STOPPED_HASHING_DELAY_MS

section Keys

def notified (miner : String) : Bool :=
  isWorkerKey miner && (getMinerParts miner).2 != "" && !includes (getMinerParts miner).2 "silent"

end Keys

section Mails

inductive Notice
  | stopped (miner : String) (currentTime : ℕ)
  | started (miner : String) (currentTime : ℕ)
  deriving DecidableEq

def Notice.miner : Notice → String
  | .stopped miner _ => miner
  | .started miner _ => miner

/-- A notice is attempted when the address is looked up for it, and sent when that finds one. -/
inductive Event
  | attempt (notice : Notice)
  | sent (notice : Notice) (email : String)
  deriving DecidableEq

/-- A call of `updateWorkerTransitions`. -/
structure Call where
  previous : List String
  active : List String
  time : ℕ

structure State where
  minerEmail : String → Option (Option String)
  minerEmailTime : String → Option ℕ
  workersStartedHashingTime : String → Option ℕ
  workersStoppedHashingTime : String → Option ℕ
  workersStoppedHashingEmailTime : String → Option ℕ

/-- The state with the checks, the queries and the retries that are to come, the calls and the notices so far,
the newest first, the time, and when the next call may come. -/
structure World where
  state : State
  checks : List (String × ℕ)
  lookups : List Notice
  retries : List (Notice × ℕ)
  calls : List Call
  notices : List Event
  now : ℕ
  next : ℕ

/-- The callback that `getAddressEmail` is given for a notice. -/
def deliver (world : World) (now : ℕ) (notice : Notice) (email : String) : World :=
  let sent : World := { world with notices := .sent notice email::world.notices }
  match notice with
  | .stopped miner _ => { sent with
      state := { world.state with
        workersStoppedHashingEmailTime :=
          Function.update world.state.workersStoppedHashingEmailTime miner (some now) } }
  | .started _ _ => sent

def getAddressEmail (world : World) (now : ℕ) (notice : Notice) : World :=
  let address := (getMinerParts notice.miner).1
  let lookup : World := { world with
    state := { world.state with
      minerEmailTime := Function.update world.state.minerEmailTime address (some now)
      minerEmail := Function.update world.state.minerEmail address (some none) }
    lookups := world.lookups ++ [notice] }
  match world.state.minerEmailTime address with
  | none => lookup
  | some lastLookupAt =>
    if now > lastLookupAt + 10 * 60 * 1000 then lookup
    else
      match world.state.minerEmail address with
      | none => world
      | some none =>
        if now < lastLookupAt + 5 * 1000 then { world with retries := world.retries ++ [(notice,now + 10 * 1000)] }
        else world
      | some (some email) => deliver world now notice email

def attempt (world : World) (now : ℕ) (notice : Notice) : World :=
  getAddressEmail { world with notices := .attempt notice::world.notices } now notice

/-- The reply to a query: none is a failure of it, and an address without a mail has no row or an empty one. -/
def onRows (world : World) (now : ℕ) (notice : Notice) (reply : Option (Option String)) : World :=
  let address := (getMinerParts notice.miner).1
  match reply with
  | none => world
  | some row =>
    match row.filter (· ≠ "") with
    | none => { world with
        state := { world.state with minerEmail := Function.update world.state.minerEmail address none } }
    | some email =>
      deliver { world with
        state := { world.state with minerEmail := Function.update world.state.minerEmail address (some (some email)) } }
        now notice email

end Mails

section Transitions

def delayedSendWorkerStoppedHashingEmail (world : World) (now : ℕ) (miner : String) (currentTime : ℕ) : World :=
  let cleared : World := { world with
    state := { world.state with
      workersStartedHashingTime := Function.update world.state.workersStartedHashingTime miner none
      workersStoppedHashingTime := Function.update world.state.workersStoppedHashingTime miner none } }
  if (world.state.workersStartedHashingTime miner).any fun startedAt => now ≤ startedAt + STOPPED_HASHING_DELAY_MS then
    cleared
  else attempt cleared now (.stopped miner currentTime)

/-- One worker of the first loop; `cached` are the miners whose data is a record. -/
def stopWorker (active : List String) (cached : String → Bool) (now : ℕ) (world : World) (miner : String) : World :=
  if active.contains miner || !cached miner || !notified miner ||
    (world.state.workersStoppedHashingTime miner).isSome then
    world
  else { world with
    state := { world.state with
      workersStoppedHashingTime := Function.update world.state.workersStoppedHashingTime miner (some now) }
    checks := world.checks ++ [(miner,now)] }

def startWorker (previous : List String) (now : ℕ) (world : World) (miner : String) : World :=
  if previous.contains miner || !notified miner then world
  else
    let begun : World := { world with
      state := { world.state with
        workersStartedHashingTime := Function.update world.state.workersStartedHashingTime miner (some now) } }
    if (world.state.workersStoppedHashingEmailTime miner).isNone then begun
    else attempt { begun with
      state := { begun.state with
        workersStoppedHashingTime := Function.update begun.state.workersStoppedHashingTime miner none
        workersStoppedHashingEmailTime := Function.update begun.state.workersStoppedHashingEmailTime miner none } }
      now (.started miner now)

def updateWorkerTransitions (world : World) (now : ℕ) (active previous : List String) (cached : String → Bool) :
    World :=
  let stopped := previous.foldl (stopWorker active cached now) world
  let started := active.foldl (startWorker previous now) stopped
  { started with calls := ⟨previous,active,now⟩::started.calls, next := now + STATS_INTERVAL_MS }

def pruneTransientState (state : State) (currentTime : ℕ) : State where
  minerEmail address :=
    if (state.minerEmailTime address).any fun timestamp => currentTime > timestamp + EMAIL_CACHE_TTL_MS then none
    else state.minerEmail address
  minerEmailTime address :=
    (state.minerEmailTime address).filter fun timestamp => currentTime ≤ timestamp + EMAIL_CACHE_TTL_MS
  workersStartedHashingTime miner :=
    (state.workersStartedHashingTime miner).filter fun timestamp => currentTime ≤ timestamp + STARTED_HASHING_TTL_MS
  workersStoppedHashingTime miner :=
    (state.workersStoppedHashingTime miner).filter fun timestamp => currentTime ≤ timestamp + STOPPED_HASHING_TTL_MS
  workersStoppedHashingEmailTime := state.workersStoppedHashingEmailTime

end Transitions

section Runs

inductive Label
  | transitions (active previous : List String) (cached : String → Bool)
  | check (i : ℕ)
  | prune
  | reply (i : ℕ) (rows : Option (Option String))
  | retry (i : ℕ)

def act (world : World) (now : ℕ) : Label → Option World
  | .transitions active previous cached =>
    if world.next ≤ now then some (updateWorkerTransitions world now active previous cached) else none
  | .check i => do
    let check ← world.checks[i]?
    if check.2 + STOPPED_HASHING_DELAY_MS ≤ now then
      some (delayedSendWorkerStoppedHashingEmail { world with checks := world.checks.eraseIdx i } now check.1 check.2)
    else none
  | .prune => some { world with state := pruneTransientState world.state now }
  | .reply i rows => do
    let notice ← world.lookups[i]?
    return onRows { world with lookups := world.lookups.eraseIdx i } now notice rows
  | .retry i => do
    let retry ← world.retries[i]?
    if retry.2 ≤ now then some (getAddressEmail { world with retries := world.retries.eraseIdx i } now retry.1)
      else none

/-- Transitions, checks, prunings, replies and retries in any order, at times that never go back. -/
def notices : Machine World (ℕ × Label) where
  initial world := world.state = ⟨fun _ => none,fun _ => none,fun _ => none,fun _ => none,fun _ => none⟩ ∧
    world.checks = [] ∧ world.lookups = [] ∧ world.retries = [] ∧ world.calls = [] ∧ world.notices = []
  step world label :=
    if world.now ≤ label.1 then act { world with now := label.1 } label.1 label.2 else none

end Runs
end NodejsPool.Worker.StopNotices
