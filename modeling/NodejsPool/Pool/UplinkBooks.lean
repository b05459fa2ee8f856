import Mathlib.Algebra.Order.Group.Multiset
import NodejsPool.Pool.Uplink

/-! Where the uplink's frames are after each step, and what its pump does. -/
namespace NodejsPool.Pool.Uplink
open Async Callbacks Multiset
open List (append_nil filterMap_append filter_append length_append map_append)
open Callbacks.World (step code start)

variable {concurrency cpus : ℕ} {world next : World} {task : Task}

section Lists

variable {Item View : Type} {items : List Item}

theorem filterMap_set {index : ℕ} {item : Item} (found : items[index]? = some item)
    (view : Item → Option View) : ∃ rest : Multiset View,
      (items.filterMap view : Multiset View) = (view item).toList + rest ∧
      ∀ other, ((items.set index other).filterMap view : Multiset View) = (view other).toList + rest := by
  obtain ⟨inside,same⟩ := List.getElem?_eq_some_iff.mp found
  have cons (first : Item) (others : List Item) :
      (first::others).filterMap view = (view first).toList ++ others.filterMap view := by
    cases shown : view first <;> simp [shown]
  refine ⟨((items.eraseIdx index).filterMap view : List View),?_,fun other => ?_⟩
  · rw [coe_add,← cons,coe_eq_coe,← same]
    exact (List.getElem_cons_eraseIdx_perm inside).symm.filterMap _
  · rw [coe_add,← cons,coe_eq_coe]
    exact (List.set_perm_cons_eraseIdx inside other).filterMap _

theorem filter_map_set {index : ℕ} {item other : Item} (found : items[index]? = some item)
    {keep : Item → Bool} {view : Item → View} (kept : keep other = keep item) (same : view other = view item) :
    ((items.set index other).filter keep).map view = (items.filter keep).map view := by
  obtain ⟨inside,rfl⟩ := List.getElem?_eq_some_iff.mp found
  have split : items = items.take index ++ items[index]::items.drop (index + 1) := by
    rw [List.getElem_cons_drop,List.take_append_drop]
  have replaced : items.set index other = items.take index ++ other::items.drop (index + 1) := by
    rw [List.set_eq_take_append_cons_drop,if_pos inside]
  rw [replaced]
  conv_rhs => rw [split]
  rw [filter_append,filter_append,List.filter_cons,List.filter_cons,kept]
  split <;> simp [same]

end Lists

section Pump

variable {stack : List (Frame SendTask Empty)}

theorem loop_eq (pending : List Task) (world : World) : World.loop concurrency pending world =
    { world with
      queue := { world.queue with
        pending := pending.drop (concurrency - world.queue.running)
        running := world.queue.running + min (concurrency - world.queue.running) pending.length }
      attempts :=
        world.attempts ++ (pending.take (concurrency - world.queue.running)).map fun task => ⟨task,.sent⟩ } := by
  induction pending generalizing world with
  | nil => simp [World.loop]
  | cons task pending ih =>
    unfold World.loop
    split
    next room =>
      obtain ⟨rest,more⟩ : ∃ rest, concurrency - world.queue.running = rest + 1 :=
        ⟨concurrency - world.queue.running - 1,by omega⟩
      have fewer : concurrency - (world.queue.running + 1) = rest := by omega
      rw [ih]
      simp only [World.processTask,World.sendUntilSuccess,World.postOnce,fewer,more,List.drop_succ_cons,
        List.take_succ_cons,
        List.map_cons,List.length_cons,List.append_assoc,List.singleton_append]
      congr 2
      omega
    next full => simp [Nat.sub_eq_zero_of_le (Nat.le_of_not_lt full)]

theorem pump_eq (resting : world.queue.pumping = false) : world.pump concurrency =
    { world with
      queue := { world.queue with
        pending := world.queue.pending.drop (concurrency - world.queue.running)
        running := world.queue.running + min (concurrency - world.queue.running) world.queue.pending.length }
      attempts := world.attempts ++
        (world.queue.pending.take (concurrency - world.queue.running)).map fun task => ⟨task,.sent⟩ } := by
  rw [World.pump,if_neg (Bool.eq_false_iff.mp resting)]
  dsimp only
  rw [loop_eq,← resting]

theorem loop_calls (concurrency : ℕ) (pending : List Task) (calls : Callbacks.World SendTask Empty) (world : World)
    (waiting : calls.queue.pending = pending) (looping : calls.stack = .loop::stack)
      (same : world.queue = calls.queue) :
    ∃ labels, (createTaskQueue concurrency).run calls labels = some { calls with
      queue := { (World.loop concurrency pending world).queue with pumping := false }
      stack := stack
      started := calls.started ++ pending.take (concurrency - calls.queue.running) } := by
  induction pending generalizing calls world with
  | nil =>
    refine ⟨[.run],?_⟩
    simp [Machine.run,createTaskQueue,step,code,looping,waiting,World.loop,same]
  | cons task pending ih =>
    by_cases room : calls.queue.running < concurrency
    · obtain ⟨fewer,more⟩ : ∃ fewer, concurrency - calls.queue.running = fewer + 1 :=
        ⟨concurrency - calls.queue.running - 1,by omega⟩
      have left : concurrency - (calls.queue.running + 1) = fewer := by omega
      let started : Callbacks.World SendTask Empty := { calls.start task pending with stack := calls.stack }
      have moved : (createTaskQueue concurrency).run calls [.run,.return] = some started := by
        simp [Machine.run,createTaskQueue,step,code,looping,waiting,room,started,
          start,Frame.isCode]
      obtain ⟨labels,ran⟩ := ih started (World.processTask { world with queue := started.queue } task) rfl looping rfl
      refine ⟨[.run,.return] ++ labels,(Machine.run_front moved).trans (ran.trans ?_)⟩
      simp [World.loop,World.processTask,World.sendUntilSuccess,World.postOnce,started,start,same,room,
        more,
        left]
    · refine ⟨[.run],?_⟩
      simp [Machine.run,createTaskQueue,step,code,looping,waiting,World.loop,same,room,
        Nat.sub_eq_zero_of_le (Nat.le_of_not_lt room)]

theorem pump_calls (concurrency : ℕ) (calls : Callbacks.World SendTask Empty) (world : World)
    (called : calls.stack = .pump::stack) (resting : world.queue.pumping = false) (same : world.queue = calls.queue) :
    ∃ labels, (createTaskQueue concurrency).run calls labels = some { calls with
      queue := (World.pump concurrency world).queue
      stack := stack
      started := calls.started ++ world.queue.pending.take (concurrency - world.queue.running) } := by
  let entered : Callbacks.World SendTask Empty :=
    { calls with queue := { calls.queue with pumping := true }, stack := .loop::stack }
  have idle : calls.queue.pumping = false := same ▸ resting
  have moved : (createTaskQueue concurrency).run calls [.run] = some entered := by
    simp [Machine.run,createTaskQueue,step,code,called,idle,entered]
  obtain ⟨labels,ran⟩ := loop_calls concurrency calls.queue.pending entered
    { world with queue := entered.queue } rfl rfl rfl
  refine ⟨[.run] ++ labels,(Machine.run_front moved).trans (ran.trans ?_)⟩
  simp [World.pump,same,idle,entered]

theorem pump_calls_waiting : ∃ labels last, (createTaskQueue 1).run
    { Callbacks.empty with queue := empty.queue.enqueue .push ⟨[1]⟩ none, stack := [.pump] } labels = some last ∧
      last.started.length = 1 := by
  obtain ⟨labels,ran⟩ := pump_calls 1
    { Callbacks.empty with queue := empty.queue.enqueue .push ⟨[1]⟩ none, stack := [.pump] }
    { empty with queue := empty.queue.enqueue .push ⟨[1]⟩ none } rfl rfl rfl
  exact ⟨labels,_,ran,rfl⟩

end Pump

section Books

structure Books (concurrency : ℕ) (world : World) : Prop where
  placed : (world.pushed : Multiset Task) =
    world.queue.pending + world.flying + world.armed + world.delivered + world.lost
  orders : world.pushed.map QueueTask.enqueueOrder = List.range world.queue.enqueueOrder
  resting : world.queue.pumping = false
  running : world.queue.running = world.flying.length + world.armed.length + world.lost.length
  bounded : world.queue.running ≤ concurrency
  led : ∀ index, world.continuations index = (world.attempts[index]?.bind Attempt.posts).toList
  success : ∀ done ∈ world.done, world.attempts[done.attempt]? = some ⟨done.task,.ended (.posted none (some 200))⟩

structure Kept (concurrency : ℕ) (world : World) : Prop extends Books concurrency world where
  busy : world.queue.pending ≠ [] → concurrency ≤ world.queue.running

def sent (tasks : List Task) : List Attempt := tasks.map fun task => ⟨task,.sent⟩

@[simp] theorem flies_sent (tasks : List Task) : (sent tasks).filterMap Attempt.flies = tasks := by
  rw [sent,List.filterMap_map]
  exact List.filterMap_some

@[simp] theorem loses_sent (tasks : List Task) : (sent tasks).filterMap Attempt.loses = [] := by
  simp [sent,Attempt.loses]

theorem posts_sent (attempts : List Attempt) (tasks : List Task) (index : ℕ) :
    (attempts ++ sent tasks)[index]?.bind Attempt.posts = attempts[index]?.bind Attempt.posts := by
  by_cases inside : index < attempts.length
  · rw [List.getElem?_append_left inside]
  · rw [List.getElem?_append_right (Nat.le_of_not_lt inside),List.getElem?_eq_none (Nat.le_of_not_lt inside),sent,
      List.getElem?_map]
    cases (tasks[index - attempts.length]?) <;> rfl

theorem Books.pump (books : Books concurrency world) : Kept concurrency (world.pump concurrency) := by
  rw [pump_eq books.resting]
  have bounded := books.bounded
  have running := books.running
  have placed := books.placed
  rw [← List.take_append_drop (concurrency - world.queue.running) world.queue.pending] at placed
  have flying :
      (world.attempts ++ sent (world.queue.pending.take (concurrency - world.queue.running))).filterMap Attempt.flies =
      world.flying ++ world.queue.pending.take (concurrency - world.queue.running) := by
    rw [filterMap_append,flies_sent]
    rfl
  have lost :
      (world.attempts ++ sent (world.queue.pending.take (concurrency - world.queue.running))).filterMap Attempt.loses =
      world.lost := by
    rw [filterMap_append,loses_sent,append_nil]
    rfl
  refine ⟨⟨?_,books.orders,books.resting,?_,?_,fun index => ?_,fun done member => ?_⟩,fun waiting => ?_⟩
  · change (world.pushed : Multiset Task) = (world.queue.pending.drop _ : List Task) +
      ((world.attempts ++ sent _).filterMap Attempt.flies : List Task) + world.armed + world.delivered +
      ((world.attempts ++ sent _).filterMap Attempt.loses : List Task)
    rw [flying,lost,placed,← coe_add,← coe_add]
    abel
  · change world.queue.running + _ = ((world.attempts ++ sent _).filterMap Attempt.flies).length + _ +
      ((world.attempts ++ sent _).filterMap Attempt.loses).length
    rw [flying,lost,length_append,List.length_take,running]
    change _ = _ + _ + world.armed.length + _
    omega
  · change world.queue.running + min _ _ ≤ concurrency
    omega
  · exact (books.led index).trans (congrArg Option.toList (posts_sent world.attempts _ index).symm)
  · have found := books.success done member
    obtain ⟨inside,_⟩ := List.getElem?_eq_some_iff.mp found
    exact (List.getElem?_append_left inside).trans found
  · have more := List.drop_eq_nil_iff.not.mp waiting
    change concurrency ≤ world.queue.running + min _ _
    omega

theorem Books.push (books : Books concurrency world) (body : SendTask) :
    Kept concurrency (world.push concurrency body) := by
  refine Books.pump ⟨?_,?_,books.resting,books.running,books.bounded,books.led,books.success⟩
  · change ((world.pushed ++ [_] : List Task) : Multiset Task) = (world.queue.pending ++ [_] : List Task) +
      world.flying +
      world.armed + world.delivered + world.lost
    rw [← coe_add,← coe_add,books.placed]
    abel
  · rw [map_append,books.orders]
    exact List.range_succ.symm

section Phases

variable {attempt : ℕ} {phase : Phase}

theorem flies_open (flies : (⟨task,phase⟩ : Attempt).flies = some task) :
    (⟨task,phase⟩ : Attempt).posts = none ∧ (⟨task,phase⟩ : Attempt).loses = none := by
  cases phase with
  | sent | responded statusCode => exact ⟨rfl,rfl⟩
  | ended outcome => cases flies

variable (found : world.attempts[attempt]? = some ⟨task,phase⟩) (flies : (⟨task,phase⟩ : Attempt).flies = some task)
  (last : Phase)

include found flies

theorem flying_setPhase : ((world.setPhase attempt task last).flying : Multiset Task) + {task} =
    (⟨task,last⟩ : Attempt).flies.toList + world.flying := by
  obtain ⟨rest,before,after⟩ := filterMap_set found Attempt.flies
  rw [World.flying,World.flying,World.setPhase,before,after,flies,Option.toList_some,coe_singleton]
  abel

theorem lost_setPhase : ((world.setPhase attempt task last).lost : Multiset Task) =
    (⟨task,last⟩ : Attempt).loses.toList + world.lost := by
  obtain ⟨rest,before,after⟩ := filterMap_set found Attempt.loses
  rw [World.lost,World.lost,World.setPhase,before,after,(flies_open flies).2,Option.toList_none,coe_nil,
    zero_add]

omit flies in
theorem posts_setPhase (index : ℕ) : (world.setPhase attempt task last).attempts[index]?.bind Attempt.posts =
    if attempt = index then (⟨task,last⟩ : Attempt).posts else world.attempts[index]?.bind Attempt.posts := by
  obtain ⟨inside,_⟩ := List.getElem?_eq_some_iff.mp found
  rw [World.setPhase,List.getElem?_set,if_pos inside]
  split <;> rfl

theorem Books.success_setPhase (books : Books concurrency world) : ∀ done ∈ world.done,
    (world.setPhase attempt task last).attempts[done.attempt]? = some ⟨done.task,.ended (.posted none (some 200))⟩ := by
  intro done member
  have ended := books.success done member
  have apart : attempt ≠ done.attempt := by
    rintro rfl
    cases found.symm.trans ended
    cases flies
  exact (List.getElem?_set_ne apart).trans ended

theorem Books.continuations_nil (books : Books concurrency world) :
    (world.done.filter fun done => done.attempt = attempt).map Done.task = [] ∧
      (world.retries.filter fun retry => retry.attempt = attempt).map Retry.task = [] := by
  have led := books.led attempt
  rw [found,Option.bind_some,(flies_open flies).1] at led
  exact List.append_eq_nil_iff.mp led

theorem Books.led_setPhase (books : Books concurrency world) (silent : (⟨task,last⟩ : Attempt).posts = none)
    (index : ℕ) :
    world.continuations index = ((world.setPhase attempt task last).attempts[index]?.bind Attempt.posts).toList := by
  rw [posts_setPhase found,books.led index]
  split
  next here =>
    subst here
    rw [found,Option.bind_some,(flies_open flies).1,silent]
  next => rfl

variable (error : Option PostError) (statusCode : Option ℕ)

theorem flying_posted : (world.flying : Multiset Task) =
    (world.setPhase attempt task (.ended (.posted error statusCode))).flying + {task} := by
  rw [flying_setPhase found flies]
  exact (zero_add _).symm

theorem lost_posted :
    ((world.setPhase attempt task (.ended (.posted error statusCode))).lost : Multiset Task) = world.lost := by
  rw [lost_setPhase found flies]
  exact zero_add _

theorem length_flying_posted : (world.setPhase attempt task (.ended (.posted error statusCode))).flying.length + 1 =
    world.flying.length := by
  have cards := congrArg card (flying_posted found flies error statusCode)
  rw [card_add,card_singleton,coe_card,coe_card] at cards
  exact cards.symm

theorem length_lost_posted : (world.setPhase attempt task (.ended (.posted error statusCode))).lost.length =
    world.lost.length :=
  (coe_eq_coe.mp (lost_posted found flies error statusCode)).length_eq

theorem Books.onDone (books : Books concurrency world) (stats : SendStats) : Kept concurrency (World.onDone concurrency
      { world.setPhase attempt task (.ended (.posted none (some 200))) with stats := stats } task attempt) := by
  have fewer := length_flying_posted found flies none (some 200)
  have same := length_lost_posted found flies none (some 200)
  have running := books.running
  have bounded := books.bounded
  refine Books.pump ⟨?_,books.orders,books.resting,?_,?_,fun index => ?_,fun done member => ?_⟩
  · change (world.pushed : Multiset Task) = world.queue.pending + (world.setPhase attempt task _).flying + world.armed +
      ((world.done ++ [_]).map Done.task : List Task) + (world.setPhase attempt task _).lost
    have delivered :
        ((world.done ++ [⟨task,attempt⟩] : List Done).map Done.task : Multiset Task) = world.delivered + {task} := by
      rw [map_append,← coe_add]
      rfl
    rw [lost_posted found flies,books.placed,flying_posted found flies none (some 200),delivered]
    abel
  · change world.queue.running - 1 = (world.setPhase attempt task _).flying.length + world.armed.length +
      (world.setPhase attempt task _).lost.length
    omega
  · change world.queue.running - 1 ≤ concurrency
    omega
  · rw [posts_setPhase found]
    obtain ⟨done,retries⟩ := books.continuations_nil found flies
    change ((world.done ++ [_]).filter _).map _ ++ (world.retries.filter _).map _ = _
    rw [filter_append,map_append]
    split
    next here =>
      subst here
      rw [done,retries]
      simp [Attempt.posts]
    next apart =>
      rw [← books.led index]
      simp [World.continuations,apart]
  · rcases List.mem_append.mp member with old | new
    · exact books.success_setPhase found flies _ done old
    · obtain rfl : done = ⟨task,attempt⟩ := by simpa using new
      obtain ⟨inside,_⟩ := List.getElem?_eq_some_iff.mp found
      exact List.getElem?_set_self inside

private theorem Kept.arm (kept : Kept concurrency world) (stats : SendStats) :
    Kept concurrency { world.setPhase attempt task (.ended (.posted error statusCode)) with
      stats := stats, retries := world.retries ++ [⟨task,attempt,true⟩] } := by
  have fewer := length_flying_posted found flies error statusCode
  have same := length_lost_posted found flies error statusCode
  have running := kept.running
  refine ⟨⟨?_,kept.orders,kept.resting,?_,kept.bounded,fun index => ?_,kept.success_setPhase found flies _⟩,kept.busy⟩
  · change (world.pushed : Multiset Task) = world.queue.pending + (world.setPhase attempt task _).flying +
      ((world.retries ++ [_]).filterMap Retry.waits : List Task) + world.delivered +
        (world.setPhase attempt task _).lost
    have armed : ((world.retries ++ [⟨task,attempt,true⟩] : List Retry).filterMap Retry.waits : Multiset Task) =
        world.armed + {task} := by
      rw [filterMap_append,← coe_add]
      rfl
    rw [lost_posted found flies,kept.placed,flying_posted found flies error statusCode,armed]
    abel
  · change world.queue.running = (world.setPhase attempt task _).flying.length +
      ((world.retries ++ [_]).filterMap Retry.waits).length + (world.setPhase attempt task _).lost.length
    rw [filterMap_append,length_append]
    change _ = _ + (world.armed.length + 1) + _
    omega
  · rw [posts_setPhase found]
    obtain ⟨done,retries⟩ := kept.continuations_nil found flies
    change (world.done.filter _).map _ ++ ((world.retries ++ [_]).filter _).map _ = _
    rw [filter_append,map_append]
    split
    next here =>
      subst here
      rw [done,retries]
      simp [Attempt.posts]
    next apart =>
      rw [← kept.led index]
      simp [World.continuations,apart]

theorem Kept.posted (kept : Kept concurrency world) :
    Kept concurrency (world.posted concurrency task attempt error statusCode) := by
  unfold World.posted World.onPosted
  dsimp only
  split
  next success =>
    obtain ⟨none,rfl⟩ := success
    obtain rfl := Option.isNone_iff_eq_none.mp none
    exact kept.onDone found flies _
  next => exact kept.arm found flies error statusCode _

theorem Kept.respond (kept : Kept concurrency world) (code : ℕ) :
    Kept concurrency (world.setPhase attempt task (.responded code)) := by
  have flying : ((world.setPhase attempt task (.responded code)).flying : Multiset Task) = world.flying := by
    have moved := flying_setPhase found flies (.responded code)
    rw [add_comm] at moved
    exact add_left_cancel moved
  have lost : ((world.setPhase attempt task (.responded code)).lost : Multiset Task) = world.lost :=
    (lost_setPhase found flies (.responded code)).trans (zero_add _)
  refine ⟨⟨?_,kept.orders,kept.resting,?_,kept.bounded,fun index => ?_,kept.success_setPhase found flies _⟩,kept.busy⟩
  · change (world.pushed : Multiset Task) = world.queue.pending + (world.setPhase attempt task _).flying + world.armed +
      world.delivered + (world.setPhase attempt task _).lost
    rw [flying,lost,kept.placed]
  · rw [(coe_eq_coe.mp flying).length_eq,(coe_eq_coe.mp lost).length_eq]
    exact kept.running
  · exact kept.led_setPhase found flies _ rfl index

theorem Kept.close (kept : Kept concurrency world) :
    Kept concurrency (world.setPhase attempt task (.ended .closed)) := by
  have flying : (world.flying : Multiset Task) = (world.setPhase attempt task (.ended .closed)).flying + {task} := by
    rw [flying_setPhase found flies]
    exact (zero_add _).symm
  have lost : ((world.setPhase attempt task (.ended .closed)).lost : Multiset Task) = {task} + world.lost :=
    lost_setPhase found flies (.ended .closed)
  refine ⟨⟨?_,kept.orders,kept.resting,?_,kept.bounded,fun index => ?_,kept.success_setPhase found flies _⟩,kept.busy⟩
  · change (world.pushed : Multiset Task) = world.queue.pending + (world.setPhase attempt task _).flying + world.armed +
      world.delivered + (world.setPhase attempt task _).lost
    rw [lost,kept.placed,flying]
    abel
  · have flyingCard := congrArg card flying
    have lostCard := congrArg card lost
    rw [card_add,card_singleton,coe_card,coe_card] at flyingCard lostCard
    have running := kept.running
    change world.queue.running = (world.setPhase attempt task _).flying.length + world.armed.length +
      (world.setPhase attempt task _).lost.length
    omega
  · exact kept.led_setPhase found flies _ rfl index

end Phases

theorem Kept.retry (kept : Kept concurrency world) {timer attempt : ℕ}
    (found : world.retries[timer]? = some ⟨task,attempt,true⟩) : Kept concurrency
      (World.sendUntilSuccess { world with retries := world.retries.set timer ⟨task,attempt,false⟩ } task) := by
  obtain ⟨rest,before,after⟩ := filterMap_set found Retry.waits
  have armed : (world.armed : Multiset Task) = {task} + rest := before
  have disarmed : ((world.retries.set timer ⟨task,attempt,false⟩).filterMap Retry.waits : Multiset Task) = rest :=
    (after ⟨task,attempt,false⟩).trans (zero_add _)
  have flying : (world.attempts ++ sent [task]).filterMap Attempt.flies = world.flying ++ [task] := by
    rw [filterMap_append,flies_sent]
    rfl
  have lost : (world.attempts ++ sent [task]).filterMap Attempt.loses = world.lost := by
    rw [filterMap_append,loses_sent,append_nil]
    rfl
  refine ⟨⟨?_,kept.orders,kept.resting,?_,kept.bounded,fun index => ?_,fun done member => ?_⟩,kept.busy⟩
  · change (world.pushed : Multiset Task) = world.queue.pending +
      ((world.attempts ++ sent [task]).filterMap Attempt.flies : List Task) +
      ((world.retries.set timer ⟨task,attempt,false⟩).filterMap Retry.waits : List Task) + world.delivered +
      ((world.attempts ++ sent [task]).filterMap Attempt.loses : List Task)
    rw [flying,lost,disarmed,kept.placed,armed,← coe_add,coe_singleton]
    abel
  · have armedCard := congrArg card armed
    have disarmedCard := congrArg card disarmed
    rw [card_add,card_singleton,coe_card] at armedCard
    rw [coe_card] at disarmedCard
    have running := kept.running
    change world.queue.running = ((world.attempts ++ sent [task]).filterMap Attempt.flies).length +
      ((world.retries.set timer ⟨task,attempt,false⟩).filterMap Retry.waits).length +
      ((world.attempts ++ sent [task]).filterMap Attempt.loses).length
    rw [flying,lost,length_append,List.length_singleton]
    omega
  · refine Eq.trans ?_ ((kept.led index).trans (congrArg Option.toList (posts_sent world.attempts [task] index).symm))
    have same :
        ((world.retries.set timer ⟨task,attempt,false⟩).filter fun retry => retry.attempt = index).map Retry.task =
        (world.retries.filter fun retry => retry.attempt = index).map Retry.task := filter_map_set found rfl rfl
    exact congrArg (List.append _) same
  · have ended := kept.success done member
    obtain ⟨inside,_⟩ := List.getElem?_eq_some_iff.mp ended
    exact (List.getElem?_append_left inside).trans ended

end Books

section Steps

inductive Moves (concurrency : ℕ) (world : World) : Bool → World → Prop where
  | push (body : SendTask) : Moves concurrency world false (world.push concurrency body)
  | respond {task : Task} {attempt : ℕ} {phase : Phase} (found : world.attempts[attempt]? = some ⟨task,phase⟩)
      (flies : (⟨task,phase⟩ : Attempt).flies = some task) (code : ℕ) :
      Moves concurrency world false (world.setPhase attempt task (.responded code))
  | posted {task : Task} {attempt : ℕ} {phase : Phase} (found : world.attempts[attempt]? = some ⟨task,phase⟩)
      (flies : (⟨task,phase⟩ : Attempt).flies = some task) (error : Option PostError) (statusCode : Option ℕ) :
      Moves concurrency world false (world.posted concurrency task attempt error statusCode)
  | close {task : Task} {attempt : ℕ} {phase : Phase} (found : world.attempts[attempt]? = some ⟨task,phase⟩)
      (flies : (⟨task,phase⟩ : Attempt).flies = some task) :
      Moves concurrency world true (world.setPhase attempt task (.ended .closed))
  | retry {task : Task} {timer attempt : ℕ} (found : world.retries[timer]? = some ⟨task,attempt,true⟩) :
      Moves concurrency world false (World.sendUntilSuccess
        { world with retries := world.retries.set timer ⟨task,attempt,false⟩ } task)
  | monitor : Moves concurrency world false
      { world with stats := noStats, snapshots := world.snapshots ++ [world.stats] }

theorem step_moves {label : Label} (moved : world.step concurrency label = some next) :
    Moves concurrency world label.closes next := by
  cases label with
  | push body =>
    cases moved
    exact .push ⟨body⟩
  | response attempt statusCode =>
    simp only [World.step] at moved
    split at moved
    next task found =>
      cases moved
      exact .respond found rfl statusCode
    next => cases moved
  | «end» attempt =>
    simp only [World.step] at moved
    split at moved
    next task statusCode found =>
      cases moved
      exact .posted found rfl none (some statusCode)
    next => cases moved
  | error attempt error =>
    simp only [World.step] at moved
    split at moved
    next task found =>
      cases moved
      exact .posted found rfl (some error) none
    next => cases moved
  | timeout attempt =>
    simp only [World.step] at moved
    split at moved
    next => cases moved
    next task phase going found =>
      cases moved
      cases phase with
      | sent | responded statusCode => exact .posted found rfl (some timedOut) none
      | ended outcome => exact absurd rfl (going outcome)
    next => cases moved
  | close attempt =>
    simp only [World.step] at moved
    split at moved
    next task statusCode found =>
      cases moved
      exact .close found rfl
    next => cases moved
  | retry timer =>
    simp only [World.step] at moved
    split at moved
    next task attempt found =>
      cases moved
      exact .retry found
    next => cases moved
  | monitor =>
    cases moved
    exact .monitor

variable {closes : Bool}

theorem Moves.kept (moves : Moves concurrency world closes next) (kept : Kept concurrency world) :
    Kept concurrency next := by
  cases moves with
  | push body => exact kept.push body
  | respond found flies code => exact kept.respond found flies code
  | posted found flies error statusCode => exact kept.posted found flies error statusCode
  | close found flies => exact kept.close found flies
  | retry found => exact kept.retry found
  | monitor =>
    exact ⟨⟨kept.placed,kept.orders,kept.resting,kept.running,kept.bounded,kept.led,kept.success⟩,kept.busy⟩

theorem lost_pump (resting : world.queue.pumping = false) : (world.pump concurrency).lost = world.lost := by
  rw [pump_eq resting]
  change (world.attempts ++ sent _).filterMap Attempt.loses = _
  rw [filterMap_append,loses_sent,append_nil]
  rfl

theorem lost_onPosted (resting : world.queue.pumping = false) (task : Task) (attempt : ℕ) (error : Option PostError)
    (statusCode : Option ℕ) : (world.onPosted concurrency task attempt error statusCode).lost = world.lost := by
  unfold World.onPosted World.onDone
  dsimp only
  split
  · exact lost_pump resting
  · rfl

theorem Moves.lost (moves : Moves concurrency world closes next) (kept : Kept concurrency world) :
    ∃ more : Multiset Task, (next.lost : Multiset Task) = more + world.lost ∧ (more = 0 ↔ closes = false) := by
  cases moves with
  | push body =>
    refine ⟨0,?_,by simp⟩
    rw [zero_add]
    exact congrArg _ (lost_pump kept.resting)
  | respond found flies code => exact ⟨0,lost_setPhase found flies _,by simp⟩
  | posted found flies error statusCode =>
    refine ⟨0,?_,by simp⟩
    rw [zero_add,← lost_posted found flies error statusCode]
    refine congrArg _ (lost_onPosted ?_ _ _ error statusCode)
    exact kept.resting
  | close found flies => exact ⟨_,lost_setPhase found flies (.ended .closed),by simp [Attempt.loses]⟩
  | retry found =>
    refine ⟨0,?_,by simp⟩
    change ((world.attempts ++ sent [_]).filterMap Attempt.loses : Multiset Task) = _
    rw [filterMap_append,loses_sent,append_nil,zero_add]
    rfl
  | monitor => exact ⟨0,(zero_add _).symm,by simp⟩

end Steps

end NodejsPool.Pool.Uplink
