import Mathlib.Data.List.Nodup
import Mathlib.Data.List.Perm.Basic
import NodejsPool.Async.Machine

/-! The task queue. The worker, the callbacks and the event handlers are outside code, which may
call the queue again; its calls nest on a stack. -/
namespace NodejsPool.Callbacks
open Async

variable {T C : Type}

/-- A callback that is not a function is `none`. -/
structure QueueTask (T C : Type) where
  data : T
  callback : Option C
  enqueueOrder : ℕ

structure TaskQueue (T C : Type) where
  pending : List (QueueTask T C)
  running : ℕ
  pumping : Bool
  enqueueOrder : ℕ

inductive Method where
  | push
  | unshift

/-- The task of an `enqueue`. -/
def TaskQueue.task (queue : TaskQueue T C) (data : T) (callback : Option C) : QueueTask T C :=
  ⟨data,callback,queue.enqueueOrder⟩

/-- `enqueue` up to its call of `pump`. -/
def TaskQueue.enqueue (queue : TaskQueue T C) (method : Method) (data : T) (callback : Option C) : TaskQueue T C :=
  { queue with
    pending := match method with
      | .push => queue.pending ++ [queue.task data callback]
      | .unshift => queue.task data callback::queue.pending
    enqueueOrder := queue.enqueueOrder + 1 }

def oldest (pending : List (QueueTask T C)) : Option (QueueTask T C) :=
  pending.foldl (fun oldestTask task =>
    match oldestTask with
    | none => some task
    | some oldestTask => if task.enqueueOrder < oldestTask.enqueueOrder then some task else some oldestTask) none

def removeFrom (predicate : QueueTask T C → Bool) : ℕ → List (QueueTask T C) → List (QueueTask T C)
  | 0,pending => pending
  | index + 1,pending => removeFrom predicate index
    (if pending[index]?.any predicate then pending.eraseIdx index else pending)

def remove (predicate : QueueTask T C → Bool) (pending : List (QueueTask T C)) : List (QueueTask T C) :=
  removeFrom predicate pending.length pending

inductive Code (T C : Type) where
  | handler
  | worker (task : QueueTask T C)
  | callback (task : QueueTask T C)

/-- A call of outside code, a call of `pump`, and its loop. -/
inductive Frame (T C : Type) where
  | code (code : Code T C)
  | pump
  | loop

def Frame.isCode : Frame T C → Bool
  | .code _ => true
  | _ => false

def Frame.isLoop : Frame T C → Bool
  | .loop => true
  | _ => false

structure World (T C : Type) where
  queue : TaskQueue T C
  stack : List (Frame T C)
  enqueued : List (QueueTask T C)
  started : List (QueueTask T C)
  removed : List (QueueTask T C)
  finished : List ℕ
  thrown : Bool

inductive Label (T C : Type) where
  | event
  | enqueue (method : Method) (data : T) (callback : Option C)
  | remove (predicate : QueueTask T C → Bool)
  | done (enqueueOrder : ℕ)
  | throw (unwound : ℕ)
  | return
  | run

def Label.throws : Label T C → Bool
  | .throw _ => true
  | _ => false

/-- The worker of `task` is started. -/
def World.start (world : World T C) (task : QueueTask T C) (rest : List (QueueTask T C)) : World T C :=
  { world with
    queue := { world.queue with pending := rest,running := world.queue.running + 1 }
    stack := .code (.worker task)::world.stack
    started := world.started ++ [task] }

/-- A call of `onDone`: its callback runs, and then `pump`. -/
def World.done (world : World T C) (task : QueueTask T C) : World T C :=
  { world with
    queue := { world.queue with running := world.queue.running - 1 }
    stack := match task.callback with
      | some _ => .code (.callback task)::.pump::world.stack
      | none => .pump::world.stack
    finished := world.finished ++ [task.enqueueOrder] }

/-- The calls inside `pump`, where outside code has returned. -/
def World.code (concurrency : ℕ) (world : World T C) : Option (World T C) :=
  match world.stack with
  | .pump::stack =>
    if world.queue.pumping then some { world with stack := stack }
    else some { world with queue := { world.queue with pumping := true },stack := .loop::stack }
  | .loop::stack =>
    match world.queue.pending with
    | task::rest =>
      if world.queue.running < concurrency then some (world.start task rest)
      else some { world with queue := { world.queue with pumping := false },stack := stack }
    | [] => some { world with queue := { world.queue with pumping := false },stack := stack }
  | _ => none

/-- A worker that has not called `done` may throw. -/
def World.mayThrow (world : World T C) : Bool :=
  match world.stack with
  | .code (.worker task)::_ => task.enqueueOrder ∉ world.finished
  | _ => false

def World.step (concurrency : ℕ) (world : World T C) : Label T C → Option (World T C)
  | .event => if world.stack.isEmpty then some { world with stack := [.code .handler] } else none
  | .enqueue method data callback =>
    if world.stack.head?.any Frame.isCode then some { world with
      queue := world.queue.enqueue method data callback
      stack := .pump::world.stack
      enqueued := world.enqueued ++ [world.queue.task data callback] } else none
  | .remove predicate =>
    if world.stack.head?.any Frame.isCode then some { world with
      queue := { world.queue with pending := remove predicate world.queue.pending }
      removed := world.removed ++ world.queue.pending.filter predicate } else none
  | .done enqueueOrder =>
    match world.started.find? fun task => task.enqueueOrder = enqueueOrder with
    | some task =>
      if world.stack.head?.any Frame.isCode ∧ enqueueOrder ∉ world.finished then some (world.done task) else none
    | none => none
  | .throw unwound =>
    if world.mayThrow ∧ 0 < unwound ∧ (world.stack.drop unwound).head?.all Frame.isCode then
      some { world with stack := world.stack.drop unwound,thrown := true } else none
  | .return => if world.stack.head?.any Frame.isCode then some { world with stack := world.stack.tail } else none
  | .run => world.code concurrency

def empty : World T C := ⟨⟨[],0,false,0⟩,[],[],[],[],[],false⟩

/-- A queue that is made by `createTaskQueue`. -/
def createTaskQueue (concurrency : ℕ) : Machine (World T C) (Label T C) where
  initial world := world = empty
  step := World.step concurrency

structure Sound (concurrency : ℕ) (world : World T C) : Prop where
  bounded : world.queue.running ≤ concurrency
  counted : world.queue.running = (world.started.filter fun task => task.enqueueOrder ∉ world.finished).length
  once : (world.started.map QueueTask.enqueueOrder).Nodup
  placed : world.enqueued.Perm (world.started ++ world.removed ++ world.queue.pending)
  apart : (world.enqueued.map QueueTask.enqueueOrder).Nodup
  busy : world.stack = [] → world.queue.pending ≠ [] → ¬ world.queue.running < concurrency
  oldest : oldest world.queue.pending = world.enqueued.find? fun task =>
    world.queue.pending.any fun other => other.enqueueOrder = task.enqueueOrder
  /-- After a worker has thrown later tasks can still be started. -/
  serves : world.thrown = true → ∃ labels next, (createTaskQueue concurrency).run world labels = some next ∧
    world.started.length < next.started.length

end NodejsPool.Callbacks
