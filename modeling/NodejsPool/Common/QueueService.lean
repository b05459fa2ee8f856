import Mathlib.Data.List.Induction
import Mathlib.Data.List.Perm.Subperm
import NodejsPool.Common.Callbacks

/-! What a task queue keeps whatever its workers and callbacks call, and that it stops for good when
a worker throws. -/
namespace NodejsPool.Callbacks
open Async List

variable {T C : Type}

section Pending

theorem removeFrom_filter (predicate : QueueTask T C → Bool) (front back : List (QueueTask T C)) :
    removeFrom predicate front.length (front ++ back) = front.filter (fun task => !predicate task) ++ back := by
  induction front using reverseRecOn generalizing back with
  | nil => rfl
  | append_singleton front task ih =>
    have split : front ++ [task] ++ back = front ++ task::back := append_cons front task back |>.symm
    have here : (front ++ task::back)[front.length]? = some task := by
      rw [getElem?_append_right (Nat.le_refl _),Nat.sub_self]
      rfl
    rw [length_append,length_singleton,removeFrom,split,here,filter_append]
    cases taken : predicate task with
    | true =>
      have erased : (front ++ task::back).eraseIdx front.length = front ++ back := by
        rw [eraseIdx_append_of_length_le (Nat.le_refl _),Nat.sub_self]
        rfl
      rw [Option.any_some,taken,if_pos rfl,erased,ih]
      simp [taken]
    | false =>
      rw [Option.any_some,taken,if_neg Bool.false_ne_true,ih]
      simp [taken]

theorem remove_filter (predicate : QueueTask T C → Bool) (pending : List (QueueTask T C)) :
    remove predicate pending = pending.filter fun task => !predicate task := by
  have all := removeFrom_filter predicate pending []
  rwa [append_nil,append_nil] at all

theorem remove_perm (predicate : QueueTask T C → Bool) (pending : List (QueueTask T C)) :
    pending.Perm (pending.filter predicate ++ remove predicate pending) := by
  rw [remove_filter]
  exact (filter_append_perm predicate pending).symm

theorem oldest_least (pending : List (QueueTask T C)) :
    (pending = [] ∧ oldest pending = none) ∨ ∃ task ∈ pending, oldest pending = some task ∧
      ∀ other ∈ pending, task.enqueueOrder ≤ other.enqueueOrder := by
  induction pending using reverseRecOn with
  | nil => exact .inl ⟨rfl,rfl⟩
  | append_singleton front task ih =>
    refine .inr ?_
    rcases ih with ⟨rfl,none⟩ | ⟨least,member,found,below⟩
    · refine ⟨task,by simp,rfl,?_⟩
      intro other listed
      obtain rfl : other = task := by simpa using listed
      exact Nat.le_refl _
    · have step : oldest (front ++ [task]) = if task.enqueueOrder < least.enqueueOrder then some task
          else some least := by
        rw [oldest] at found ⊢
        rw [foldl_append,found]
        rfl
      rw [step]
      split
      next less =>
        refine ⟨task,by simp,rfl,?_⟩
        intro other listed
        rcases mem_append.mp listed with earlier | last
        · exact Nat.le_of_lt (Nat.lt_of_lt_of_le less (below other earlier))
        · obtain rfl : other = task := by simpa using last
          exact Nat.le_refl _
      next least_le =>
        refine ⟨least,mem_append_left _ member,rfl,?_⟩
        intro other listed
        rcases mem_append.mp listed with earlier | last
        · exact below other earlier
        · obtain rfl : other = task := by simpa using last
          exact Nat.le_of_not_lt least_le

theorem oldest_first {pending enqueued : List (QueueTask T C)}
    (ordered : (enqueued.map QueueTask.enqueueOrder).Pairwise (· < ·)) (listed : pending ⊆ enqueued) :
    oldest pending = enqueued.find? fun task => pending.any fun other => other.enqueueOrder = task.enqueueOrder := by
  rcases oldest_least pending with ⟨rfl,none⟩ | ⟨task,member,found,below⟩
  · rw [none]
    exact (find?_eq_none.mpr (by simp)).symm
  · rw [found]
    refine (find?_eq_some_iff_append.mpr ⟨?_,?_⟩).symm
    · simpa using ⟨task,member,rfl⟩
    · obtain ⟨front,back,split⟩ := append_of_mem (listed member)
      refine ⟨front,back,split,?_⟩
      intro earlier before
      rw [split,map_append,pairwise_append] at ordered
      have less := ordered.2.2 _ (mem_map_of_mem before) task.enqueueOrder (by simp)
      simp only [Bool.not_eq_true',any_eq_false,decide_eq_true_eq]
      intro other pends same
      have least := below other pends
      omega

end Pending

section Stack

variable {stack : List (Frame T C)}

def Layered : List (Frame T C) → Prop
  | .code (.worker _)::stack => stack.head?.any Frame.isLoop = true ∧ Layered stack
  | _::stack => Layered stack
  | [] => True

theorem Layered.tail {frame : Frame T C} (layered : Layered (frame::stack)) : Layered stack := by
  cases frame with
  | code code =>
    cases code with
    | worker task => exact layered.2
    | _ => exact layered
  | _ => exact layered

theorem Layered.drop (layered : Layered stack) (unwound : ℕ) : Layered (stack.drop unwound) := by
  induction unwound generalizing stack with
  | zero => exact layered
  | succ unwound ih =>
    cases stack with
    | nil => exact layered
    | cons frame stack => exact ih layered.tail

theorem Layered.unwound {task : QueueTask T C} {unwound : ℕ}
    (layered : Layered (.code (.worker task)::stack)) (once : stack.countP Frame.isLoop ≤ 1) (positive : 0 < unwound)
    (caught : ((Frame.code (.worker task)::stack).drop unwound).head?.all Frame.isCode = true) :
    ((Frame.code (.worker task)::stack).drop unwound).countP Frame.isLoop = 0 := by
  obtain ⟨called,_⟩ := layered
  cases stack with
  | nil => cases called
  | cons frame stack =>
    have loop : frame.isLoop = true := called
    rw [countP_cons_of_pos loop] at once
    match unwound,positive with
    | 1,_ =>
      cases frame with
      | loop => cases caught
      | _ => cases loop
    | unwound + 2,_ =>
      have less := (drop_sublist unwound stack).countP_le (p := Frame.isLoop)
      exact Nat.le_zero.mp (Nat.le_trans less (Nat.le_of_succ_le_succ once))

end Stack

structure Kept (concurrency : ℕ) (world : World T C) : Prop where
  bounded : world.queue.running ≤ concurrency
  counted : world.queue.running + world.finished.length = world.started.length
  listed : world.finished ⊆ world.started.map QueueTask.enqueueOrder
  finished : world.finished.Nodup
  orders : world.enqueued.map QueueTask.enqueueOrder = List.range world.queue.enqueueOrder
  placed : world.enqueued.Perm (world.started ++ world.removed ++ world.queue.pending)
  layered : Layered world.stack
  loops : world.stack.countP Frame.isLoop = if world.queue.pumping && !world.thrown then 1 else 0
  pumps : world.thrown = true → world.queue.pumping = true
  busy : world.thrown = false → world.queue.pending ≠ [] → world.queue.running < concurrency →
    world.stack.any fun frame => !frame.isCode

namespace Kept

variable {concurrency : ℕ} {world next : World T C} {stack : List (Frame T C)}

section

variable (kept : Kept concurrency world)
include kept

theorem started_once : (world.started.map QueueTask.enqueueOrder).Nodup := by
  have all : (world.enqueued.map QueueTask.enqueueOrder).Nodup := by
    rw [kept.orders]
    exact nodup_range
  have placed := (kept.placed.map QueueTask.enqueueOrder).nodup_iff.mp all
  rw [map_append,map_append,append_assoc] at placed
  exact placed.of_append_left

theorem unfinished :
    world.queue.running = (world.started.filter fun task => task.enqueueOrder ∉ world.finished).length := by
  have same : world.finished.Perm
      ((world.started.map QueueTask.enqueueOrder).filter fun order => order ∈ world.finished) := by
    refine (perm_ext_iff_of_nodup kept.finished (kept.started_once.filter _)).mpr fun order => ?_
    rw [mem_filter,decide_eq_true_eq]
    exact (and_iff_right_of_imp fun member => kept.listed member).symm
  have split := length_eq_length_filter_add (l := world.started) fun task => task.enqueueOrder ∈ world.finished
  have all := kept.counted
  rw [same.length_eq,filter_map,length_map] at all
  have rest : (world.started.filter fun task => !decide (task.enqueueOrder ∈ world.finished)) =
      world.started.filter fun task => task.enqueueOrder ∉ world.finished := by
    refine filter_congr fun task _ => ?_
    rw [decide_not]
  rw [rest] at split
  have counted : (world.started.filter
      ((fun order => decide (order ∈ world.finished)) ∘ QueueTask.enqueueOrder)).length =
      (world.started.filter fun task => task.enqueueOrder ∈ world.finished).length := rfl
  omega

theorem event (idle : world.stack = []) : Kept concurrency { world with stack := [.code .handler] } := by
  have loops := kept.loops
  rw [idle] at loops
  refine { kept with layered := trivial,loops := loops,busy := ?_ }
  intro calm waiting free
  have called := kept.busy calm waiting free
  rw [idle] at called
  cases called

theorem enqueue (method : Method) (data : T) (callback : Option C) : Kept concurrency { world with
      queue := world.queue.enqueue method data callback
      stack := .pump::world.stack
      enqueued := world.enqueued ++ [world.queue.task data callback] } := by
  refine { kept with orders := ?_,placed := ?_,layered := kept.layered,loops := kept.loops,busy := fun _ _ _ => rfl }
  · rw [map_append,kept.orders]
    exact range_succ.symm
  · have waits : (world.queue.pending ++ [world.queue.task data callback]).Perm
        (world.queue.enqueue method data callback).pending := by
      cases method with
      | push => exact .refl _
      | unshift => exact perm_append_singleton _ _
    have placed := kept.placed.append_right [world.queue.task data callback]
    rw [append_assoc _ world.queue.pending] at placed
    exact placed.trans (waits.append_left _)

theorem remove (predicate : QueueTask T C → Bool) : Kept concurrency { world with
      queue := { world.queue with pending := Callbacks.remove predicate world.queue.pending }
      removed := world.removed ++ world.queue.pending.filter predicate } := by
  refine { kept with placed := ?_,busy := ?_ }
  · have placed := kept.placed.trans ((remove_perm predicate world.queue.pending).append_left _)
    rwa [← append_assoc,append_assoc world.started] at placed
  · intro calm waiting free
    refine kept.busy calm ?_ free
    intro none
    apply waiting
    show Callbacks.remove predicate world.queue.pending = []
    rw [none]
    rfl

theorem done {task : QueueTask T C} (member : task ∈ world.started)
    (fresh : task.enqueueOrder ∉ world.finished) : Kept concurrency (world.done task) := by
  have listed : task.enqueueOrder::world.finished ⊆ world.started.map QueueTask.enqueueOrder :=
    cons_subset.mpr ⟨mem_map_of_mem member,kept.listed⟩
  have once : (task.enqueueOrder::world.finished).Nodup := nodup_cons.mpr ⟨fresh,kept.finished⟩
  have room := (once.subperm listed).length_le
  rw [length_map,length_cons] at room
  have counted := kept.counted
  have bounded := kept.bounded
  have same : (world.finished ++ [task.enqueueOrder]).Perm (task.enqueueOrder::world.finished) :=
    perm_append_singleton _ _
  have fields : (world.done task).queue.running = world.queue.running - 1 ∧
      (world.done task).finished = world.finished ++ [task.enqueueOrder] := ⟨rfl,rfl⟩
  have calls : Layered (world.done task).stack ∧
      (world.done task).stack.countP Frame.isLoop = world.stack.countP Frame.isLoop ∧
      (world.done task).stack.any fun frame => !frame.isCode := by
    unfold World.done
    cases task.callback <;> exact ⟨kept.layered,rfl,rfl⟩
  refine { kept with
    bounded := ?_
    counted := ?_
    listed := fun order member => listed (same.mem_iff.mp member)
    finished := same.nodup_iff.mpr once
    layered := calls.1
    loops := calls.2.1.trans kept.loops
    busy := fun _ _ _ => calls.2.2 }
  · rw [fields.1]
    omega
  · rw [fields.1,fields.2,length_append,length_singleton]
    show _ = world.started.length
    omega

theorem throw {unwound : ℕ} (may : world.mayThrow = true) (positive : 0 < unwound)
    (caught : (world.stack.drop unwound).head?.all Frame.isCode = true) :
    Kept concurrency { world with stack := world.stack.drop unwound,thrown := true } := by
  obtain ⟨task,stack,top⟩ : ∃ task stack, world.stack = .code (.worker task)::stack := by
    unfold World.mayThrow at may
    split at may
    next task stack top => exact ⟨task,stack,top⟩
    · cases may
  have layered := kept.layered
  have loops := kept.loops
  have once : stack.countP Frame.isLoop ≤ 1 := by
    rw [top,countP_cons_of_neg Bool.false_ne_true] at loops
    split at loops <;> omega
  have least : 0 < stack.countP Frame.isLoop := by
    rw [top] at layered
    have called := layered.1
    cases stack with
    | nil => cases called
    | cons frame stack =>
      have loop : frame.isLoop = true := called
      rw [countP_cons_of_pos loop]
      exact Nat.succ_pos _
  have pumping : world.queue.pumping = true := by
    rw [top,countP_cons_of_neg Bool.false_ne_true] at loops
    cases flag : world.queue.pumping with
    | true => rfl
    | false =>
      rw [flag,Bool.false_and,if_neg Bool.false_ne_true] at loops
      omega
  refine { kept with layered := layered.drop unwound,loops := ?_,pumps := fun _ => pumping,busy := nofun }
  rw [top] at layered caught
  dsimp only
  rw [top,layered.unwound once positive caught,Bool.not_true,Bool.and_false]
  rfl

theorem returned (code : world.stack.head?.any Frame.isCode = true) :
    Kept concurrency { world with stack := world.stack.tail } := by
  obtain ⟨frame,stack,top,isCode⟩ : ∃ frame stack, world.stack = frame::stack ∧ frame.isCode = true := by
    cases stack : world.stack with
    | nil =>
      rw [stack] at code
      cases code
    | cons frame rest =>
      rw [stack] at code
      exact ⟨frame,rest,rfl,code⟩
  have layered := kept.layered
  have loops := kept.loops
  have busy := kept.busy
  have plain : frame.isLoop = false := by
    cases frame with
    | code => rfl
    | _ => cases isCode
  rw [top] at layered loops busy
  rw [countP_cons_of_neg (by simp [plain])] at loops
  refine { kept with layered := ?_,loops := ?_,busy := ?_ }
  · show Layered world.stack.tail
    rw [top]
    exact layered.tail
  · show world.stack.tail.countP Frame.isLoop = _
    rw [top]
    exact loops
  · intro calm waiting free
    have called := busy calm waiting free
    rw [any_cons,isCode] at called
    show world.stack.tail.any _ = true
    rw [top]
    exact called

theorem pump (top : world.stack = .pump::stack) :
    (world.queue.pumping = true → Kept concurrency { world with stack := stack }) ∧
    (world.queue.pumping = false → Kept concurrency { world with
      queue := { world.queue with pumping := true },stack := .loop::stack }) := by
  have layered := kept.layered
  have loops := kept.loops
  rw [top] at layered loops
  rw [countP_cons_of_neg Bool.false_ne_true] at loops
  constructor
  · intro pumping
    refine { kept with layered := layered.tail,loops := loops,busy := ?_ }
    intro calm _ _
    have calm : world.thrown = false := calm
    rw [pumping,calm] at loops
    have some : 0 < stack.countP Frame.isLoop := by rw [loops]; exact Nat.one_pos
    obtain ⟨frame,member,loop⟩ := countP_pos_iff.mp some
    refine any_eq_true.mpr ⟨frame,member,?_⟩
    cases frame with
    | loop => rfl
    | _ => cases loop
  · intro still
    have calm : world.thrown = false := by
      cases thrown : world.thrown with
      | false => rfl
      | true =>
        rw [kept.pumps thrown] at still
        cases still
    rw [still] at loops
    refine { kept with layered := layered.tail,loops := ?_,pumps := fun _ => rfl,busy := fun _ _ _ => rfl }
    rw [countP_cons_of_pos rfl,loops,calm]
    rfl

theorem loop (top : world.stack = .loop::stack) :
    (∀ task rest, world.queue.pending = task::rest → world.queue.running < concurrency →
      Kept concurrency (world.start task rest)) ∧
    ((world.queue.pending ≠ [] → ¬ world.queue.running < concurrency) → Kept concurrency { world with
      queue := { world.queue with pumping := false },stack := stack }) := by
  have layered := kept.layered
  have loops := kept.loops
  constructor
  · intro task rest pending free
    have counted := kept.counted
    refine { kept with
      bounded := free
      counted := ?_
      listed := ?_
      placed := ?_
      layered := ⟨?_,layered⟩
      loops := loops
      busy := ?_ }
    · show world.queue.running + 1 + world.finished.length = (world.started ++ [task]).length
      rw [length_append,length_singleton]
      omega
    · intro order member
      show order ∈ (world.started ++ [task]).map _
      rw [map_append]
      exact mem_append_left _ (kept.listed member)
    · have placed := kept.placed
      rw [pending] at placed
      refine placed.trans ?_
      show Perm _ (world.started ++ [task] ++ world.removed ++ rest)
      rw [append_assoc,append_assoc,append_assoc]
      have moved : (world.removed ++ task::rest).Perm (task::(world.removed ++ rest)) := perm_middle
      exact moved.append_left world.started
    · rw [top]
      rfl
    · intro _ _ _
      show (Frame.code _::world.stack).any _ = true
      rw [top]
      rfl
  · intro full
    rw [top] at layered loops
    rw [countP_cons_of_pos rfl] at loops
    have calm : world.thrown = false := by
      cases thrown : world.thrown with
      | false => rfl
      | true =>
        rw [thrown,Bool.not_true,Bool.and_false] at loops
        cases loops
    refine { kept with layered := layered.tail,loops := ?_,pumps := ?_,busy := ?_ }
    · split at loops
      · exact Nat.succ.inj loops
      · cases loops
    · intro thrown
      rw [calm] at thrown
      cases thrown
    · intro _ waiting free
      exact absurd free (full waiting)

end

end Kept

section Runs

variable {concurrency : ℕ} {world next : World T C} {label : Label T C}

theorem code_kept (moved : world.code concurrency = some next) (kept : Kept concurrency world) :
    Kept concurrency next ∧ next.thrown = world.thrown := by
  unfold World.code at moved
  split at moved
  next stack top =>
    split at moved
    next pumping =>
      cases moved
      exact ⟨(kept.pump top).1 pumping,rfl⟩
    next still =>
      cases moved
      exact ⟨(kept.pump top).2 (eq_false_of_ne_true still),rfl⟩
  next stack top =>
    split at moved
    next task rest pending =>
      split at moved
      next free =>
        cases moved
        exact ⟨(kept.loop top).1 task rest pending free,rfl⟩
      next full =>
        cases moved
        exact ⟨(kept.loop top).2 fun _ => full,rfl⟩
    next none =>
      cases moved
      exact ⟨(kept.loop top).2 fun waiting => absurd none waiting,rfl⟩
  · cases moved

theorem step_kept (moved : (createTaskQueue concurrency).step world label = some next) (kept : Kept concurrency world) :
    Kept concurrency next ∧ next.thrown = (world.thrown || label.throws) := by
  have calm : world.thrown = (world.thrown || false) := (Bool.or_false _).symm
  cases label with
  | event =>
    obtain ⟨idle,⟨⟩⟩ := Option.ite_none_right_eq_some.mp moved
    exact ⟨kept.event (isEmpty_iff.mp idle),calm⟩
  | enqueue method data callback =>
    obtain ⟨_,⟨⟩⟩ := Option.ite_none_right_eq_some.mp moved
    exact ⟨kept.enqueue method data callback,calm⟩
  | remove predicate =>
    obtain ⟨_,⟨⟩⟩ := Option.ite_none_right_eq_some.mp moved
    exact ⟨kept.remove predicate,calm⟩
  | done enqueueOrder =>
    simp only [createTaskQueue,World.step] at moved
    split at moved
    next task found =>
      obtain ⟨⟨_,fresh⟩,⟨⟩⟩ := Option.ite_none_right_eq_some.mp moved
      have same : task.enqueueOrder = enqueueOrder := by simpa using find?_some found
      rw [← same] at fresh
      exact ⟨kept.done (mem_of_find?_eq_some found) fresh,calm⟩
    · cases moved
  | throw unwound =>
    obtain ⟨⟨may,positive,caught⟩,⟨⟩⟩ := Option.ite_none_right_eq_some.mp moved
    exact ⟨kept.throw may positive caught,(Bool.or_true _).symm⟩
  | «return» =>
    obtain ⟨code,⟨⟩⟩ := Option.ite_none_right_eq_some.mp moved
    exact ⟨kept.returned code,calm⟩
  | run =>
    obtain ⟨after,same⟩ := code_kept moved kept
    exact ⟨after,same.trans calm⟩

theorem empty_kept (concurrency : ℕ) : Kept concurrency (empty : World T C) where
  bounded := Nat.zero_le _
  counted := rfl
  listed := nil_subset _
  finished := nodup_nil
  orders := rfl
  placed := .nil
  layered := trivial
  loops := rfl
  pumps := nofun
  busy _ waiting := absurd rfl waiting

theorem stopped_step (kept : Kept concurrency world) (thrown : world.thrown = true)
    (moved : (createTaskQueue concurrency).step world label = some next) : next.started = world.started := by
  cases label with
  | run =>
    simp only [createTaskQueue,World.step,World.code] at moved
    have loops := kept.loops
    rw [thrown,Bool.not_true,Bool.and_false] at loops
    split at moved
    · split at moved <;>
      · cases moved
        rfl
    next stack top =>
      rw [top,countP_cons_of_pos rfl] at loops
      cases loops
    · cases moved
  | done enqueueOrder =>
    simp only [createTaskQueue,World.step] at moved
    split at moved
    · obtain ⟨_,⟨⟩⟩ := Option.ite_none_right_eq_some.mp moved
      rfl
    · cases moved
  | _ =>
    obtain ⟨_,⟨⟩⟩ := Option.ite_none_right_eq_some.mp moved
    rfl

theorem stopped_run {labels : List (Label T C)} (kept : Kept concurrency world) (thrown : world.thrown = true)
    (ran : (createTaskQueue concurrency).run world labels = some next) : next.started = world.started := by
  induction labels generalizing world with
  | nil =>
    cases ran
    rfl
  | cons label labels ih =>
    obtain ⟨middle,moved,rest⟩ := Option.bind_eq_some_iff.mp ran
    obtain ⟨after,flag⟩ := step_kept moved kept
    rw [thrown,Bool.true_or] at flag
    exact (ih after flag rest).trans (stopped_step kept thrown moved)

theorem Kept.sound_iff (kept : Kept concurrency world) : Sound concurrency world ↔ world.thrown = false := by
  constructor
  · intro sound
    cases thrown : world.thrown with
    | false => rfl
    | true =>
      obtain ⟨labels,last,ran,more⟩ := sound.serves thrown
      rw [stopped_run kept thrown ran] at more
      exact absurd more (Nat.lt_irrefl _)
  · intro calm
    refine ⟨kept.bounded,kept.unfinished,kept.started_once,kept.placed,?_,?_,?_,?_⟩
    · rw [kept.orders]
      exact nodup_range
    · intro idle waiting free
      have called := kept.busy calm waiting free
      rw [idle] at called
      cases called
    · refine oldest_first ?_ ?_
      · rw [kept.orders]
        exact pairwise_lt_range
      · intro task pends
        exact kept.placed.mem_iff.mpr (mem_append_right _ pends)
    · intro thrown
      rw [calm] at thrown
      cases thrown

/-- A queue keeps its promises all along a run exactly when no worker throws. -/
theorem queue_sound {labels : List (Label T C)} {last : World T C}
    (ran : (createTaskQueue concurrency).run empty labels = some last) :
    (∀ front world, front <+: labels → (createTaskQueue concurrency).run empty front = some world →
      Sound concurrency world) ↔ ∀ label ∈ labels, label.throws = false := by
  have kept (world next : World T C) (label : Label T C) (kept : Kept concurrency world)
      (moved : (createTaskQueue concurrency).step world label = some next) :
      Kept concurrency next ∧ (Sound concurrency world → (Sound concurrency next ↔ label.throws = false)) := by
    obtain ⟨after,flag⟩ := step_kept moved kept
    refine ⟨after,fun sound => ?_⟩
    rw [after.sound_iff,flag,kept.sound_iff.mp sound,Bool.false_or]
  have start : Kept concurrency (empty : World T C) := empty_kept concurrency
  rw [← Machine.along_labels ran]
  exact Machine.always_iff_along kept start (start.sound_iff.mpr rfl) ran

/-- A worker calls `done` at once; its callback unshifts a task that is done later. -/
def nestedRun : List (Label String Unit) :=
  [.event,.enqueue .push "a" (some ()),.run,.run,.done 0,.enqueue .unshift "b" none,.run,.return,.run,.return,.run,
    .return,.run,.return,.event,.done 1,.run,.run,.return]

theorem queue_sound_nested : ∃ last, (createTaskQueue 1).run empty nestedRun = some last ∧ Sound 1 last ∧
    last.started.map QueueTask.data = ["a","b"] ∧ last.queue.running = 0 := by
  have ran : ∃ last, (createTaskQueue 1).run empty nestedRun = some last ∧
      last.started.map QueueTask.data = ["a","b"] ∧ last.queue.running = 0 := ⟨_,rfl,rfl,rfl⟩
  obtain ⟨last,ran,started,idle⟩ := ran
  exact ⟨last,ran,(queue_sound ran).mpr (by decide) nestedRun last List.prefix_rfl ran,started,idle⟩

/-- A task that is pushed after a worker has thrown waits although the queue has room. -/
theorem queue_stopped : ∃ last, (createTaskQueue 2).run (empty : World String Unit)
    [.event,.enqueue .push "a" none,.run,.run,.throw 4,.event,.enqueue .push "b" none,.run,.return] = some last ∧
      last.stack.length = 0 ∧ last.queue.pending.map QueueTask.data = ["b"] ∧ last.queue.running = 1 ∧
      ¬ Sound 2 last := by
  refine ⟨_,rfl,rfl,rfl,rfl,?_⟩
  intro sound
  exact sound.busy rfl (List.cons_ne_nil _ _) (by decide)

end Runs
end NodejsPool.Callbacks
