import NodejsPool.Common.Callbacks
import NodejsPool.Common.Entries

/-! The uplink that posts frames to the share host. A frame is posted again, after a delay, until a
reply has status 200; the frame holds a slot of the queue until then. -/
namespace NodejsPool.Pool.Uplink
open Async Callbacks

structure SendTask where
  body : List UInt8

/-- A frame of the queue: `push` is called without a callback. -/
abbrev Task := QueueTask SendTask Empty

section Stats

structure SendStats where
  failed : ℕ
  networkErrors : ℕ
  success : ℕ
  timeouts : ℕ
  errorCounts : List (String × ℕ)
  statusCounts : List (String × ℕ)

def noStats : SendStats := ⟨0,0,0,0,[],[]⟩

structure PostError where
  message : String
  code : Option String

def timedOut : PostError := ⟨"Remote share POST timed out",none⟩

/-- `error.code || error.message || "unknown_error"`, unless the POST timed out. -/
def PostError.key (error : PostError) : String :=
  if error.message = "Remote share POST timed out" then "timeout"
  else (error.code.filter fun code => code ≠ "").getD (if error.message ≠ "" then error.message else "unknown_error")

def countKey (counts : List (String × ℕ)) (key : String) : List (String × ℕ) :=
  Entries.put counts key ((Entries.get counts key).getD 0 + 1)

def updateSendStats (stats : SendStats) (error : Option PostError) (statusCode : Option ℕ) : SendStats :=
  if error.isNone ∧ statusCode = some 200 then { stats with success := stats.success + 1 }
  else
    let stats := { stats with failed := stats.failed + 1 }
    match error with
    | some error =>
      let stats :=
        if error.key = "timeout" then { stats with timeouts := stats.timeouts + 1 }
        else { stats with networkErrors := stats.networkErrors + 1 }
      { stats with errorCounts := countKey stats.errorCounts error.key }
    | none => { stats with statusCounts := countKey stats.statusCounts (toString (statusCode.getD 0)) }

def takeSendStatsSnapshot (stats : SendStats) : SendStats × SendStats := (stats,noStats)

end Stats

/-- How an attempt ends: `onPosted` is called, or the response is closed before its body has ended, to
which nothing listens. -/
inductive Outcome where
  | posted (error : Option PostError) (statusCode : Option ℕ)
  | closed

inductive Phase where
  | sent
  | responded (statusCode : ℕ)
  | ended (outcome : Outcome)

/-- A request of `postOnce`. -/
structure Attempt where
  task : Task
  phase : Phase

/-- A timer of `sendUntilSuccess`, set by an attempt. -/
structure Retry where
  task : Task
  attempt : ℕ
  armed : Bool

/-- A call of the queue's `onDone`, from the end of an attempt. -/
structure Done where
  task : Task
  attempt : ℕ

structure World where
  queue : TaskQueue SendTask Empty
  stats : SendStats
  pushed : List Task
  attempts : List Attempt
  retries : List Retry
  done : List Done
  snapshots : List SendStats

inductive Label where
  | push (body : List UInt8)
  | response (attempt : ℕ) (statusCode : ℕ)
  | end (attempt : ℕ)
  | error (attempt : ℕ) (error : PostError)
  | timeout (attempt : ℕ)
  | close (attempt : ℕ)
  | retry (timer : ℕ)
  | monitor

def Label.closes : Label → Bool
  | .close _ => true
  | _ => false

def World.postOnce (world : World) (task : Task) : World := { world with attempts := world.attempts ++ [⟨task,.sent⟩] }

def World.sendUntilSuccess (world : World) (task : Task) : World := world.postOnce task

def World.processTask (world : World) (task : Task) : World := world.sendUntilSuccess task

/-- The loop of `pump`. A worker returns before its attempt has ended. -/
def World.loop (concurrency : ℕ) : List Task → World → World
  | [],world => { world with queue := { world.queue with pending := [] } }
  | task::pending,world =>
    if world.queue.running < concurrency then
      World.loop concurrency pending (World.processTask
        { world with queue := { world.queue with pending := pending, running := world.queue.running + 1 } } task)
    else { world with queue := { world.queue with pending := task::pending } }

def World.pump (concurrency : ℕ) (world : World) : World :=
  if world.queue.pumping then world
  else
    let world := World.loop concurrency world.queue.pending { world with queue := { world.queue with pumping := true } }
    { world with queue := { world.queue with pumping := false } }

def World.push (concurrency : ℕ) (world : World) (task : SendTask) : World :=
  World.pump concurrency { world with
    queue := world.queue.enqueue .push task none
    pushed := world.pushed ++ [world.queue.task task none] }

def World.onDone (concurrency : ℕ) (world : World) (task : Task) (attempt : ℕ) : World :=
  World.pump concurrency { world with
    queue := { world.queue with running := world.queue.running - 1 }
    done := world.done ++ [⟨task,attempt⟩] }

def World.onPosted (concurrency : ℕ) (world : World) (task : Task) (attempt : ℕ) (error : Option PostError)
    (statusCode : Option ℕ) : World :=
  let world := { world with stats := updateSendStats world.stats error statusCode }
  if error.isNone ∧ statusCode = some 200 then world.onDone concurrency task attempt
  else { world with retries := world.retries ++ [⟨task,attempt,true⟩] }

def World.setPhase (world : World) (attempt : ℕ) (task : Task) (phase : Phase) : World :=
  { world with attempts := world.attempts.set attempt ⟨task,phase⟩ }

def World.posted (concurrency : ℕ) (world : World) (task : Task) (attempt : ℕ) (error : Option PostError)
    (statusCode : Option ℕ) : World :=
  (world.setPhase attempt task (.ended (.posted error statusCode))).onPosted concurrency task attempt error statusCode

def World.step (concurrency : ℕ) (world : World) : Label → Option World
  | .push body => some (world.push concurrency ⟨body⟩)
  | .response attempt statusCode =>
    match world.attempts[attempt]? with
    | some ⟨task,.sent⟩ => some (world.setPhase attempt task (.responded statusCode))
    | _ => none
  | .end attempt =>
    match world.attempts[attempt]? with
    | some ⟨task,.responded statusCode⟩ => some (world.posted concurrency task attempt none (some statusCode))
    | _ => none
  | .error attempt error =>
    match world.attempts[attempt]? with
    | some ⟨task,.sent⟩ => some (world.posted concurrency task attempt (some error) none)
    | _ => none
  | .timeout attempt =>
    match world.attempts[attempt]? with
    | some ⟨_,.ended _⟩ => none
    | some ⟨task,_⟩ => some (world.posted concurrency task attempt (some timedOut) none)
    | none => none
  | .close attempt =>
    match world.attempts[attempt]? with
    | some ⟨task,.responded _⟩ => some (world.setPhase attempt task (.ended .closed))
    | _ => none
  | .retry timer =>
    match world.retries[timer]? with
    | some ⟨task,attempt,true⟩ => some (World.sendUntilSuccess
        { world with retries := world.retries.set timer ⟨task,attempt,false⟩ } task)
    | _ => none
  | .monitor =>
    let (snapshot,stats) := takeSendStatsSnapshot world.stats
    some { world with stats := stats, snapshots := world.snapshots ++ [snapshot] }

def empty : World := ⟨⟨[],0,false,0⟩,noStats,[],[],[],[],[]⟩

/-- `createTaskQueue(os.cpus().length * 32, processTask)`. -/
def uplink (cpus : ℕ) : Machine World Label where
  initial world := world = empty
  step := World.step (cpus * 32)

section Places

def Attempt.flies (attempt : Attempt) : Option Task :=
  match attempt.phase with
  | .ended _ => none
  | _ => some attempt.task

def Attempt.ends (attempt : Attempt) : Option Task :=
  match attempt.phase with
  | .ended _ => some attempt.task
  | _ => none

def Attempt.posts (attempt : Attempt) : Option Task :=
  match attempt.phase with
  | .ended (.posted _ _) => some attempt.task
  | _ => none

def Attempt.loses (attempt : Attempt) : Option Task :=
  match attempt.phase with
  | .ended .closed => some attempt.task
  | _ => none

def Retry.waits (retry : Retry) : Option Task := if retry.armed then some retry.task else none

variable (world : World)

def World.flying : List Task := world.attempts.filterMap Attempt.flies

def World.armed : List Task := world.retries.filterMap Retry.waits

def World.delivered : List Task := world.done.map Done.task

def World.lost : List Task := world.attempts.filterMap Attempt.loses

def World.continuations (attempt : ℕ) : List Task :=
  (world.done.filter fun done => done.attempt = attempt).map Done.task ++
    (world.retries.filter fun retry => retry.attempt = attempt).map Retry.task

end Places

structure Delivers (cpus : ℕ) (world : World) : Prop where
  /-- Each frame has exactly one place. -/
  placed : world.pushed.Perm (world.queue.pending ++ world.flying ++ world.armed ++ world.delivered)
  apart : (world.pushed.map QueueTask.enqueueOrder).Nodup
  /-- An attempt leads its frame on, once, as soon as it has ended. -/
  led : ∀ index attempt, world.attempts[index]? = some attempt → world.continuations index = attempt.ends.toList
  freed : (world.delivered.map QueueTask.enqueueOrder).Nodup
  success : ∀ done ∈ world.done, world.attempts[done.attempt]? = some ⟨done.task,.ended (.posted none (some 200))⟩
  running : world.queue.running = world.flying.length + world.armed.length
  bounded : world.queue.running ≤ cpus * 32
  busy : world.queue.pending ≠ [] → world.queue.running = cpus * 32
  /-- No frame is stuck: the client's replies can deliver it yet. -/
  live : 0 < cpus → ∀ task ∈ world.pushed, ∃ labels next, (∀ label ∈ labels, label.closes = false) ∧
    (uplink cpus).run world labels = some next ∧ task ∈ next.delivered

end NodejsPool.Pool.Uplink
