import NodejsPool.Common.Logs
import NodejsPool.Worker.StopNotices
import Mathlib.Data.List.Nodup
import Mathlib.Data.Nat.Basic

/-! Runs of the workers' notices: one for each stop that lasts, none for one that does not, and a start told of
only after a stop. -/
namespace NodejsPool.Worker.StopNotices
open Async Common.Logs Function Option
open List (mem_append mem_cons_of_mem mem_cons mem_map mem_cons_self mem_singleton map_append mem_append_left
  mem_append_right cons)

section Frames

structure Frame (world after : World) : Prop where
  calls : after.calls = world.calls
  checks : after.checks = world.checks
  started : after.state.workersStartedHashingTime = world.state.workersStartedHashingTime
  stopped : after.state.workersStoppedHashingTime = world.state.workersStoppedHashingTime
  clock : after.now = world.now
  next : after.next = world.next
  notices : ∃ sent, after.notices = sent ++ world.notices ∧ ∀ event ∈ sent, ∀ notice, event ≠ .attempt notice

theorem frame_refl (world : World) : Frame world world := ⟨rfl,rfl,rfl,rfl,rfl,rfl,[],rfl,by simp⟩

theorem deliver_frame (world : World) (now : ℕ) (notice : Notice) (email : String) :
    Frame world (deliver world now notice email) := by
  cases notice with
  | stopped miner time | started miner time => exact ⟨rfl,rfl,rfl,rfl,rfl,rfl,[_],rfl,by simp⟩

theorem getAddressEmail_frame (world : World) (now : ℕ) (notice : Notice) :
    Frame world (getAddressEmail world now notice) := by
  have lookup : ∀ state lookups, state.workersStartedHashingTime = world.state.workersStartedHashingTime →
      state.workersStoppedHashingTime = world.state.workersStoppedHashingTime →
      Frame world { world with state := state, lookups := lookups } := by
    intro state lookups started stopped
    exact ⟨rfl,rfl,started,stopped,rfl,rfl,[],rfl,by simp⟩
  unfold getAddressEmail
  dsimp only
  split
  · exact lookup _ _ rfl rfl
  · split
    · exact lookup _ _ rfl rfl
    · split
      · exact frame_refl world
      · split
        · exact ⟨rfl,rfl,rfl,rfl,rfl,rfl,[],rfl,by simp⟩
        · exact frame_refl world
      · exact deliver_frame ..

theorem Frame.trans {first second third : World} (before : Frame first second) (after : Frame second third) :
    Frame first third := by
  obtain ⟨early,sentEarly,noneEarly⟩ := before.notices
  obtain ⟨late,sentLate,noneLate⟩ := after.notices
  refine ⟨after.calls.trans before.calls,after.checks.trans before.checks,after.started.trans before.started,
    after.stopped.trans before.stopped,after.clock.trans before.clock,after.next.trans before.next,late ++ early,?_,?_⟩
  · rw [sentLate,sentEarly,List.append_assoc]
  · intro event among
    rcases mem_append.mp among with here | there
    · exact noneLate event here
    · exact noneEarly event there

theorem onRows_frame (world : World) (now : ℕ) (notice : Notice) (reply : Option (Option String)) :
    Frame world (onRows world now notice reply) := by
  unfold onRows
  dsimp only
  split
  · exact frame_refl world
  · split
    · exact ⟨rfl,rfl,rfl,rfl,rfl,rfl,[],rfl,by simp⟩
    · refine Frame.trans ?_ (deliver_frame _ now notice _)
      exact ⟨rfl,rfl,rfl,rfl,rfl,rfl,[],rfl,by simp⟩

def attempts (world : World) (miner : String) (time : ℕ) : ℕ := world.notices.count (.attempt (.stopped miner time))

theorem Frame.attempts {world after : World} (frame : Frame world after) (miner : String) (time : ℕ) :
    attempts after miner time = attempts world miner time := by
  obtain ⟨sent,notices,none⟩ := frame.notices
  unfold StopNotices.attempts
  rw [notices,List.count_append,List.count_eq_zero.mpr,Nat.zero_add]
  intro among
  exact none _ among _ rfl

end Frames

section Loops

variable {active previous : List String} {cached : String → Bool} {now : ℕ}

def Stopping (active : List String) (cached : String → Bool) (world : World) (miner : String) : Prop :=
  miner ∉ active ∧ cached miner = true ∧ notified miner = true ∧ world.state.workersStoppedHashingTime miner = none

theorem stopWorker_cases (active : List String) (cached : String → Bool) (now : ℕ) (world : World) (miner : String) :
    (¬Stopping active cached world miner ∧ stopWorker active cached now world miner = world) ∨
    Stopping active cached world miner ∧ stopWorker active cached now world miner = { world with
      state := { world.state with
        workersStoppedHashingTime := update world.state.workersStoppedHashingTime miner (some now) }
      checks := world.checks ++ [(miner,now)] } := by
  have same : Stopping active cached world miner ↔ ¬(active.contains miner || !cached miner || !notified miner ||
      (world.state.workersStoppedHashingTime miner).isSome) = true := by
    simp [Stopping,and_assoc]
  by_cases stopping : Stopping active cached world miner
  · exact .inr ⟨stopping,if_neg (same.mp stopping)⟩
  · exact .inl ⟨stopping,if_pos (not_not.mp fun other => stopping (same.mpr other))⟩

variable (active cached now) in
theorem stopWorkers_spec (miners : List String) (world : World) :
    ∃ checks stopped, miners.foldl (stopWorker active cached now) world = { world with
        state := { world.state with workersStoppedHashingTime := stopped }
        checks := world.checks ++ checks } ∧
      (checks.map Prod.fst).Nodup ∧
      (∀ check ∈ checks, check.2 = now ∧ check.1 ∈ miners ∧ Stopping active cached world check.1) ∧
      (∀ miner ∈ miners, Stopping active cached world miner → (miner,now) ∈ checks) ∧
      ∀ miner, stopped miner = world.state.workersStoppedHashingTime miner ∨ (miner,now) ∈ checks := by
  induction miners generalizing world with
  | nil => exact ⟨[],world.state.workersStoppedHashingTime,by simp,by simp,by simp,by simp,fun _ => .inl rfl⟩
  | cons head miners ih =>
    rw [List.foldl_cons]
    rcases stopWorker_cases active cached now world head with ⟨kept,same⟩ | ⟨stopping,same⟩
    · obtain ⟨checks,stopped,result,distinct,made,all,others⟩ := ih world
      rw [same]
      refine ⟨checks,stopped,result,distinct,?_,?_,others⟩
      · intro check among
        obtain ⟨time,held,stops⟩ := made check among
        exact ⟨time,mem_cons_of_mem _ held,stops⟩
      · intro miner held stops
        rcases mem_cons.mp held with rfl | later
        · exact absurd stops kept
        · exact all miner later stops
    · rw [same]
      obtain ⟨checks,stopped,result,distinct,made,all,others⟩ := ih { world with
        state := { world.state with
          workersStoppedHashingTime := update world.state.workersStoppedHashingTime head (some now) }
        checks := world.checks ++ [(head,now)] }
      -- the worker just stopped is not stopped again, and the others are as before
      have before : ∀ miner, Stopping active cached { world with
          state := { world.state with
            workersStoppedHashingTime := update world.state.workersStoppedHashingTime head (some now) }
          checks := world.checks ++ [(head,now)] } miner ↔ miner ≠ head ∧ Stopping active cached world miner := by
        intro miner
        unfold Stopping
        dsimp only
        rw [update_apply]
        by_cases here : miner = head
        · simp [here]
        · simp [here]
      refine ⟨(head,now)::checks,stopped,?_,?_,?_,?_,?_⟩
      · rw [result]
        simp
      · refine List.nodup_cons.mpr ⟨?_,distinct⟩
        intro again
        obtain ⟨check,among,here⟩ := mem_map.mp again
        exact ((before check.1).mp (made check among).2.2).1 here
      · intro check among
        rcases mem_cons.mp among with rfl | later
        · exact ⟨rfl,mem_cons_self,stopping⟩
        · obtain ⟨time,held,stops⟩ := made check later
          exact ⟨time,mem_cons_of_mem _ held,((before check.1).mp stops).2⟩
      · intro miner held stops
        by_cases here : miner = head
        · rw [here]
          exact mem_cons_self
        · refine mem_cons_of_mem _ (all miner ((mem_cons.mp held).resolve_left here) ?_)
          exact (before miner).mpr ⟨here,stops⟩
      · intro miner
        rcases others miner with same | new
        · rw [same]
          dsimp only
          rw [update_apply]
          by_cases here : miner = head
          · rw [here]
            exact .inr mem_cons_self
          · exact .inl (if_neg here)
        · exact .inr (mem_cons_of_mem _ new)

/-- What the second loop leaves: the starts it noted, and no check or stop that was not there. -/
structure Begun (previous : List String) (now : ℕ) (miners : List String) (world after : World) : Prop where
  calls : after.calls = world.calls
  checks : after.checks = world.checks
  clock : after.now = world.now
  attempts : ∀ miner time, attempts after miner time = attempts world miner time
  stopped : ∀ miner, after.state.workersStoppedHashingTime miner ≠ none →
    after.state.workersStoppedHashingTime miner = world.state.workersStoppedHashingTime miner
  started : ∀ miner, after.state.workersStartedHashingTime miner =
    if miner ∈ miners ∧ miner ∉ previous ∧ notified miner then some now
    else world.state.workersStartedHashingTime miner

theorem attempt_frame (world : World) (now : ℕ) (notice : Notice) :
    Frame { world with notices := .attempt notice::world.notices } (attempt world now notice) :=
  getAddressEmail_frame ..

private theorem startWorker_begun (previous : List String) (now : ℕ) (world : World) (miner : String) :
    Begun previous now [miner] world (startWorker previous now world miner) := by
  unfold startWorker
  split
  next idle =>
    refine ⟨rfl,rfl,rfl,fun _ _ => rfl,fun _ _ => rfl,fun other => ?_⟩
    rw [if_neg]
    intro noted
    obtain ⟨here,fresh,worker⟩ := noted
    obtain rfl := mem_singleton.mp here
    simp [fresh,worker] at idle
  next working =>
    simp only [Bool.or_eq_true,not_or,List.contains_iff_mem,Bool.not_eq_true',Bool.not_eq_false] at working
    have started : ∀ other, update world.state.workersStartedHashingTime miner (some now) other =
        if other ∈ [miner] ∧ other ∉ previous ∧ notified other then some now
        else world.state.workersStartedHashingTime other := by
      intro other
      rw [update_apply]
      by_cases here : other = miner
      · rw [if_pos here,if_pos ⟨mem_singleton.mpr here,here ▸ working⟩]
      · rw [if_neg here,if_neg fun noted => here (mem_singleton.mp noted.1)]
    dsimp only
    split
    · exact ⟨rfl,rfl,rfl,fun _ _ => rfl,fun _ _ => rfl,started⟩
    · have frame := attempt_frame { world with
        state := { world.state with
          workersStartedHashingTime := update world.state.workersStartedHashingTime miner (some now)
          workersStoppedHashingTime := update world.state.workersStoppedHashingTime miner none
          workersStoppedHashingEmailTime := update world.state.workersStoppedHashingEmailTime miner none } }
        now (.started miner now)
      refine ⟨frame.calls,frame.checks,frame.clock,fun other time => ?_,fun other noted => ?_,fun other => ?_⟩
      · rw [frame.attempts]
        unfold attempts
        rw [List.count_cons_of_ne (by simp)]
      · rw [frame.stopped] at noted ⊢
        dsimp only at noted ⊢
        rw [update_apply] at noted ⊢
        by_cases here : other = miner
        · exact absurd (if_pos here) noted
        · exact if_neg here
      · rw [frame.started]
        exact started other

variable (previous now) in
theorem startWorkers_begun (miners : List String) (world : World) :
    Begun previous now miners world (miners.foldl (startWorker previous now) world) := by
  induction miners generalizing world with
  | nil => exact ⟨rfl,rfl,rfl,fun _ _ => rfl,fun _ _ => rfl,fun _ => by simp⟩
  | cons head miners ih =>
    have first := startWorker_begun previous now world head
    have rest := ih (startWorker previous now world head)
    rw [List.foldl_cons]
    refine ⟨rest.calls.trans first.calls,rest.checks.trans first.checks,rest.clock.trans first.clock,fun miner time =>
      ?_,fun miner noted => ?_,fun miner => ?_⟩
    · exact (rest.attempts miner time).trans (first.attempts miner time)
    · have same := rest.stopped miner noted
      rw [same] at noted ⊢
      exact first.stopped miner noted
    · rw [rest.started,first.started]
      by_cases later : miner ∈ miners
      · simp only [later,mem_cons,or_true,true_and]
        split
        · rfl
        next idle => rw [if_neg fun noted => idle noted.2]
      · simp [later]

end Loops

section Invariant

def Stops (miner : String) (call : Call) : Prop := miner ∈ call.previous ∧ miner ∉ call.active

def Starts (miner : String) (call : Call) : Prop := miner ∈ call.active ∧ miner ∉ call.previous

/-- A worker has one check at most, and none for a stop that was told of; a start after the stop is noted until then. -/
structure Watched (world : World) : Prop where
  distinct : ∀ first ∈ world.calls, ∀ second ∈ world.calls, first.time = second.time → first = second
  before : ∀ call ∈ world.calls, call.time ≤ world.now ∧ call.time < world.next
  apart : (world.checks.map Prod.fst).Nodup
  waiting : ∀ miner time, (miner,time) ∈ world.checks → notified miner = true ∧ time ≤ world.now ∧
    world.now ≤ time + 2 * STOPPED_HASHING_DELAY_MS ∧ attempts world miner time = 0
  stopped : ∀ miner, world.state.workersStoppedHashingTime miner ≠ none → ∃ time, (miner,time) ∈ world.checks
  once : ∀ miner time, attempts world miner time ≤ 1
  waited : ∀ miner time, attempts world miner time ≠ 0 → time + STOPPED_HASHING_DELAY_MS ≤ world.now
  started : ∀ miner time, world.state.workersStartedHashingTime miner = some time →
    ∃ call ∈ world.calls, Starts miner call ∧ call.time = time
  noted : ∀ miner time, (miner,time) ∈ world.checks → ∀ call ∈ world.calls, Starts miner call → time < call.time →
    ∃ startedAt, world.state.workersStartedHashingTime miner = some startedAt ∧ call.time ≤ startedAt
  quiet : ∀ miner time, attempts world miner time ≠ 0 → ∀ call ∈ world.calls, Starts miner call → time < call.time →
    time + STOPPED_HASHING_DELAY_MS ≤ call.time

structure Kept (world : World) : Prop extends Watched world where
  settled : ∀ call ∈ world.calls, ∀ miner, notified miner = true → Stops miner call →
    (miner,call.time) ∈ world.checks ∨ attempts world miner call.time = 1 ∨
      ∃ later ∈ world.calls, call.time < later.time ∧ Starts miner later

variable {world after : World} {now : ℕ}

theorem Kept.frame (kept : Kept world) (frame : Frame world after) : Kept after := by
  have counts := frame.attempts
  refine ⟨⟨?_,?_,?_,?_,?_,?_,?_,?_,?_,?_⟩,?_⟩
  · rw [frame.calls]
    exact kept.distinct
  · rw [frame.calls,frame.clock,frame.next]
    exact kept.before
  · rw [frame.checks]
    exact kept.apart
  · simp only [frame.checks,frame.clock,counts]
    exact kept.waiting
  · rw [frame.stopped,frame.checks]
    exact kept.stopped
  · simp only [counts]
    exact kept.once
  · simp only [counts,frame.clock]
    exact kept.waited
  · rw [frame.started,frame.calls]
    exact kept.started
  · rw [frame.started,frame.calls,frame.checks]
    exact kept.noted
  · simp only [counts,frame.calls]
    exact kept.quiet
  · simp only [frame.calls,frame.checks,counts]
    exact kept.settled

theorem Kept.elapse (kept : Kept world) (later : world.now ≤ now)
    (punctual : ∀ check ∈ world.checks, now ≤ check.2 + 2 * STOPPED_HASHING_DELAY_MS) :
    Kept { world with now := now } := by
  refine ⟨⟨kept.distinct,?_,kept.apart,?_,kept.stopped,kept.once,?_,kept.started,kept.noted,kept.quiet⟩,kept.settled⟩
  · intro call held
    obtain ⟨past,next⟩ := kept.before call held
    exact ⟨Nat.le_trans past later,next⟩
  · intro miner time waiting
    obtain ⟨worker,past,_,untold⟩ := kept.waiting miner time waiting
    exact ⟨worker,Nat.le_trans past later,punctual _ waiting,untold⟩
  · intro miner time told
    exact Nat.le_trans (kept.waited miner time told) later

theorem mem_eraseIdx {checks : List (String × ℕ)} (apart : (checks.map Prod.fst).Nodup) {i : ℕ} {check : String × ℕ}
    (found : checks[i]? = some check) : ((checks.eraseIdx i).map Prod.fst).Nodup ∧
      ∀ other, other ∈ checks.eraseIdx i ↔ other ∈ checks ∧ other.1 ≠ check.1 := by
  obtain ⟨inside,rfl⟩ := List.getElem?_eq_some_iff.mp found
  rw [List.eraseIdx_eq_take_drop_succ]
  have split : checks = checks.take i ++ checks[i]::checks.drop (i + 1) := by
    rw [List.getElem_cons_drop,List.take_append_drop]
  generalize checks[i] = check at *
  generalize checks.take i = front at *
  generalize checks.drop (i + 1) = back at *
  subst split
  rw [map_append,List.map_cons,List.nodup_middle,← map_append] at apart
  obtain ⟨absent,distinct⟩ := List.nodup_cons.mp apart
  refine ⟨distinct,fun other => ?_⟩
  constructor
  · intro held
    refine ⟨?_,fun same => absent (mem_map.mpr ⟨other,held,same⟩)⟩
    rcases mem_append.mp held with first | last
    · exact mem_append_left _ first
    · exact mem_append_right _ (mem_cons_of_mem _ last)
  · intro held
    obtain ⟨held,differs⟩ := held
    rcases mem_append.mp held with first | last
    · exact mem_append_left _ first
    · rcases mem_cons.mp last with same | last
      · exact absurd (congrArg Prod.fst same) differs
      · exact mem_append_right _ last

def cleared (world : World) (i : ℕ) (miner : String) : World :=
  { world with
    state := { world.state with
      workersStartedHashingTime := Function.update world.state.workersStartedHashingTime miner none
      workersStoppedHashingTime := Function.update world.state.workersStoppedHashingTime miner none }
    checks := world.checks.eraseIdx i }

variable {i : ℕ} {miner : String} {time : ℕ}

theorem Watched.cleared (watched : Watched world) (found : world.checks[i]? = some (miner,time)) :
    Watched (cleared world i miner) := by
  obtain ⟨apart,left⟩ := mem_eraseIdx watched.apart found
  refine ⟨watched.distinct,watched.before,apart,?_,?_,watched.once,watched.waited,?_,?_,watched.quiet⟩
  · intro other since waiting
    exact watched.waiting other since ((left _).mp waiting).1
  · intro other noted
    change update world.state.workersStoppedHashingTime miner none other ≠ none at noted
    rw [update_apply] at noted
    split at noted
    · exact absurd rfl noted
    next differs =>
      obtain ⟨since,waiting⟩ := watched.stopped other noted
      exact ⟨since,(left _).mpr ⟨waiting,differs⟩⟩
  · intro other since noted
    change update world.state.workersStartedHashingTime miner none other = some since at noted
    rw [update_apply] at noted
    split at noted
    · cases noted
    · exact watched.started other since noted
  · intro other since waiting call held starts later
    obtain ⟨waiting,differs⟩ := (left _).mp waiting
    obtain ⟨startedAt,noted,bound⟩ := watched.noted other since waiting call held starts later
    refine ⟨startedAt,?_,bound⟩
    change update world.state.workersStartedHashingTime miner none other = some startedAt
    rw [update_of_ne differs]
    exact noted

theorem attempts_told (untold : attempts world miner time = 0) (other : String) (since : ℕ) :
    attempts { world with notices := .attempt (.stopped miner time)::world.notices } other since =
      if other = miner ∧ since = time then 1 else attempts world other since := by
  unfold attempts at untold ⊢
  dsimp only
  rw [List.count_cons]
  by_cases here : other = miner ∧ since = time
  · obtain ⟨rfl,rfl⟩ := here
    simp [untold]
  · rw [if_neg here,if_neg,Nat.add_zero]
    intro same
    simp only [beq_iff_eq,Event.attempt.injEq,Notice.stopped.injEq] at same
    exact here ⟨same.1.symm,same.2.symm⟩

theorem Watched.told (watched : Watched world) (untold : attempts world miner time = 0)
    (free : (miner,time) ∉ world.checks) (due : time + STOPPED_HASHING_DELAY_MS ≤ world.now)
    (quiet : ∀ call ∈ world.calls, Starts miner call → ¬time < call.time) :
    Watched { world with notices := .attempt (.stopped miner time)::world.notices } := by
  have counts := attempts_told untold
  refine ⟨watched.distinct,watched.before,watched.apart,?_,watched.stopped,?_,?_,watched.started,watched.noted,?_⟩
  · intro other since waiting
    obtain ⟨worker,past,soon,none⟩ := watched.waiting other since waiting
    refine ⟨worker,past,soon,?_⟩
    rw [counts,if_neg,none]
    intro here
    obtain ⟨rfl,rfl⟩ := here
    exact free waiting
  · intro other since
    rw [counts]
    split
    · exact Nat.le_refl 1
    · exact watched.once other since
  · intro other since told
    rw [counts] at told
    split at told
    next here =>
      obtain ⟨rfl,rfl⟩ := here
      exact due
    · exact watched.waited other since told
  · intro other since told call held starts later
    rw [counts] at told
    split at told
    next here =>
      obtain ⟨rfl,rfl⟩ := here
      exact absurd later (quiet call held starts)
    · exact watched.quiet other since told call held starts later

private theorem Kept.settled_cleared (kept : Kept world) (found : world.checks[i]? = some (miner,time)) {call : Call}
    (held : call ∈ world.calls) {other : String} (worker : notified other = true) (stops : Stops other call) :
    (other = miner ∧ call.time = time) ∨ (other,call.time) ∈ (cleared world i miner).checks ∨
      attempts world other call.time = 1 ∨ ∃ later ∈ world.calls, call.time < later.time ∧ Starts other later := by
  rcases kept.settled call held other worker stops with waiting | told
  · by_cases here : other = miner
    · subst here
      exact .inl ⟨rfl,congrArg Prod.snd (List.inj_on_of_nodup_map kept.apart waiting (List.mem_of_getElem? found) rfl)⟩
    · exact .inr (.inl (((mem_eraseIdx kept.apart found).2 _).mpr ⟨waiting,here⟩))
  · exact .inr (.inr told)

theorem check_kept (kept : Kept world) (found : world.checks[i]? = some (miner,time))
    (due : time + STOPPED_HASHING_DELAY_MS ≤ world.now)
    (prompt : ∀ startedAt, world.state.workersStartedHashingTime miner = some startedAt → time < startedAt →
      world.now ≤ startedAt + STOPPED_HASHING_DELAY_MS) :
    Kept (delayedSendWorkerStoppedHashingEmail { world with checks := world.checks.eraseIdx i } world.now
      miner time) := by
  have waiting := List.mem_of_getElem? found
  obtain ⟨worker,past,_,untold⟩ := kept.waiting miner time waiting
  have watched := kept.toWatched.cleared found
  unfold delayedSendWorkerStoppedHashingEmail
  dsimp only
  split
  next recent =>
    refine ⟨watched,?_⟩
    intro call held other worker stops
    rcases kept.settled_cleared found held worker stops with ⟨rfl,here⟩ | settled
    · refine .inr (.inr ?_)
      obtain ⟨startedAt,noted,within⟩ := (any_eq_true _ _).mp recent
      have within := of_decide_eq_true within
      obtain ⟨start,startHeld,starts,began⟩ := kept.started other startedAt noted
      have after : startedAt ≠ time := by
        intro same
        obtain rfl := kept.distinct call held start startHeld (by omega)
        exact stops.2 starts.1
      exact ⟨start,startHeld,by omega,starts⟩
    · exact settled
  next old =>
    refine Kept.frame ?_ (attempt_frame _ _ _)
    refine ⟨watched.told untold ?_ due ?_,?_⟩
    · intro held
      exact (((mem_eraseIdx kept.apart found).2 _).mp held).2 rfl
    · intro call held starts later
      obtain ⟨startedAt,noted,bound⟩ := kept.noted miner time waiting call held starts later
      have soon := prompt startedAt noted (by omega)
      rw [noted] at old
      simp only [any_some,decide_eq_true_eq] at old
      exact old soon
    · intro call held other worker stops
      have counts := attempts_told untold other call.time
      rcases kept.settled_cleared found held worker stops with here | waiting | told | started
      · exact .inr (.inl (counts.trans (if_pos here)))
      · exact .inl waiting
      · refine .inr (.inl (counts.trans ?_))
        split
        · rfl
        · exact told
      · exact .inr (.inr started)

theorem prune_kept (kept : Kept world) : Kept { world with state := pruneTransientState world.state world.now } := by
  refine ⟨⟨kept.distinct,kept.before,kept.apart,kept.waiting,?_,kept.once,kept.waited,?_,?_,kept.quiet⟩,kept.settled⟩
  · intro miner noted
    refine kept.stopped miner fun absent => noted ?_
    change (world.state.workersStoppedHashingTime miner).filter _ = none
    rw [absent]
    rfl
  · intro miner time noted
    exact kept.started miner time (filter_eq_some_iff.mp noted).1
  · intro miner time waiting call held starts later
    obtain ⟨startedAt,noted,bound⟩ := kept.noted miner time waiting call held starts later
    obtain ⟨_,_,soon,_⟩ := kept.waiting miner time waiting
    refine ⟨startedAt,filter_eq_some_iff.mpr ⟨noted,?_⟩,bound⟩
    rw [decide_eq_true_eq]
    unfold STARTED_HASHING_TTL_MS
    omega

section Transitions

variable {active previous : List String} {cached : String → Bool}

/-- Every worker of a call that has stopped is known, and none has a check waiting. -/
def Unwatched (active previous : List String) (cached : String → Bool) (world : World) : Prop :=
  ∀ miner ∈ previous, miner ∉ active → notified miner = true →
    cached miner = true ∧ ∀ check ∈ world.checks, check.1 ≠ miner

theorem stops_kept (kept : Kept world) (spaced : world.next ≤ world.now)
    (free : Unwatched active previous cached world) :
    Kept (previous.foldl (stopWorker active cached world.now) world) := by
  obtain ⟨checks,stopped,result,fresh,made,_,others⟩ := stopWorkers_spec active cached world.now previous world
  rw [result]
  have waits : ∀ miner time, (miner,time) ∈ world.checks ++ checks → (miner,time) ∈ world.checks ∨
      time = world.now ∧ Stopping active cached world miner := by
    intro miner time waiting
    rcases mem_append.mp waiting with old | new
    · exact .inl old
    · exact .inr ⟨(made _ new).1,(made _ new).2.2⟩
  refine ⟨⟨kept.distinct,kept.before,?_,?_,?_,kept.once,kept.waited,kept.started,?_,kept.quiet⟩,?_⟩
  · change ((world.checks ++ checks).map Prod.fst).Nodup
    rw [map_append]
    refine List.nodup_append.mpr ⟨kept.apart,fresh,?_⟩
    intro miner old other new same
    obtain ⟨first,firstHeld,rfl⟩ := mem_map.mp old
    obtain ⟨second,secondHeld,rfl⟩ := mem_map.mp new
    obtain ⟨_,inside,stopping⟩ := made second secondHeld
    exact (free second.1 inside stopping.1 stopping.2.2.1).2 first firstHeld same
  · intro miner time waiting
    rcases waits miner time waiting with old | ⟨rfl,stopping⟩
    · exact kept.waiting miner time old
    · refine ⟨stopping.2.2.1,Nat.le_refl _,Nat.le_add_right ..,?_⟩
      by_contra told
      have early := kept.waited miner world.now told
      unfold STOPPED_HASHING_DELAY_MS at early
      omega
  · intro miner noted
    change stopped miner ≠ none at noted
    rcases others miner with same | new
    · rw [same] at noted
      obtain ⟨time,waiting⟩ := kept.stopped miner noted
      exact ⟨time,mem_append_left _ waiting⟩
    · exact ⟨_,mem_append_right _ new⟩
  · intro miner time waiting call held starts later
    rcases waits miner time waiting with old | ⟨rfl,_⟩
    · exact kept.noted miner time old call held starts later
    · have before : call.time < world.now := Nat.lt_of_lt_of_le (kept.before call held).2 spaced
      exact absurd later before.asymm
  · intro call held miner worker stops
    rcases kept.settled call held miner worker stops with waiting | told
    · exact .inl (mem_append_left _ waiting)
    · exact .inr told

theorem stops_checked (kept : Kept world) (free : Unwatched active previous cached world) :
    ∀ miner ∈ previous, miner ∉ active → notified miner = true →
      (miner,world.now) ∈ (previous.foldl (stopWorker active cached world.now) world).checks := by
  intro miner inside absent worker
  obtain ⟨checks,stopped,result,_,_,all,_⟩ := stopWorkers_spec active cached world.now previous world
  rw [result]
  obtain ⟨known,alone⟩ := free miner inside absent worker
  refine mem_append_right _ (all miner inside ⟨absent,known,worker,?_⟩)
  by_contra noted
  obtain ⟨time,waiting⟩ := kept.stopped miner noted
  exact alone _ waiting rfl

private theorem starts_kept (kept : Kept world) (spaced : world.next ≤ world.now)
    (stops : ∀ miner ∈ previous, miner ∉ active → notified miner = true → (miner,world.now) ∈ world.checks)
    (begun : Begun previous world.now active world after) :
    Kept { after with
      calls := ⟨previous,active,world.now⟩::after.calls, next := world.now + STATS_INTERVAL_MS } := by
  have older : ∀ call ∈ world.calls, call.time < world.now := by
    intro call old
    exact Nat.lt_of_lt_of_le (kept.before call old).2 spaced
  obtain ⟨calls,checks,clock,counts,stopped,started⟩ := begun
  refine ⟨⟨?_,?_,?_,?_,?_,?_,?_,?_,?_,?_⟩,?_⟩
  · rw [calls]
    intro first firstHeld second secondHeld same
    rcases mem_cons.mp firstHeld with rfl | firstOld
    · rcases mem_cons.mp secondHeld with rfl | secondOld
      · rfl
      · exact absurd same.symm (older second secondOld).ne
    · rcases mem_cons.mp secondHeld with rfl | secondOld
      · exact absurd same (older first firstOld).ne
      · exact kept.distinct first firstOld second secondOld same
  · rw [calls]
    intro call held
    rcases mem_cons.mp held with rfl | old
    · exact ⟨clock.ge,Nat.lt_add_of_pos_right (by decide)⟩
    · have before := older call old
      refine ⟨?_,?_⟩
      · exact clock ▸ before.le
      · exact Nat.lt_of_lt_of_le before (Nat.le_add_right ..)
  · rw [checks]
    exact kept.apart
  · intro miner time waiting
    change _ ∧ _ ≤ after.now ∧ after.now ≤ _ ∧ attempts after miner time = 0
    rw [counts,clock]
    exact kept.waiting miner time (checks ▸ waiting)
  · intro miner noted
    change after.state.workersStoppedHashingTime miner ≠ none at noted
    rw [stopped miner noted] at noted
    rw [checks]
    exact kept.stopped miner noted
  · intro miner time
    exact (counts miner time).le.trans (kept.once miner time)
  · intro miner time told
    change _ ≤ after.now
    rw [clock]
    exact kept.waited miner time (counts miner time ▸ told)
  · intro miner time noted
    change after.state.workersStartedHashingTime miner = some time at noted
    rw [started] at noted
    rw [calls]
    split at noted
    next starts =>
      cases noted
      exact ⟨_,mem_cons_self,⟨starts.1,starts.2.1⟩,rfl⟩
    · obtain ⟨call,old,starts⟩ := kept.started miner time noted
      exact ⟨call,mem_cons_of_mem _ old,starts⟩
  · intro miner time waiting call held starts later
    rw [calls] at held
    have waiting := checks ▸ waiting
    change ∃ startedAt, after.state.workersStartedHashingTime miner = some startedAt ∧ _
    rw [started]
    rcases mem_cons.mp held with rfl | old
    · exact ⟨world.now,if_pos ⟨starts.1,starts.2,(kept.waiting miner time waiting).1⟩,Nat.le_refl _⟩
    · obtain ⟨startedAt,noted,bound⟩ := kept.noted miner time waiting call old starts later
      split
      · exact ⟨world.now,rfl,(older call old).le⟩
      · exact ⟨startedAt,noted,bound⟩
  · intro miner time told call held starts later
    have told := counts miner time ▸ told
    rw [calls] at held
    rcases mem_cons.mp held with rfl | old
    · exact kept.waited miner time told
    · exact kept.quiet miner time told call old starts later
  · intro call held miner worker stop
    rw [calls] at held
    change (miner,call.time) ∈ after.checks ∨ attempts after miner call.time = 1 ∨ ∃ later ∈ _::after.calls, _
    rw [counts,calls,checks]
    rcases mem_cons.mp held with rfl | old
    · exact .inl (stops miner stop.1 stop.2 worker)
    · rcases kept.settled call old miner worker stop with waiting | told | ⟨later,laterHeld,started⟩
      · exact .inl waiting
      · exact .inr (.inl told)
      · exact .inr (.inr ⟨later,mem_cons_of_mem _ laterHeld,started⟩)

theorem transitions_kept (kept : Kept world) (spaced : world.next ≤ world.now)
    (free : Unwatched active previous cached world) :
    Kept (updateWorkerTransitions world world.now active previous cached) := by
  have held := stops_kept kept spaced free
  have checked := stops_checked kept free
  obtain ⟨checks,stopped,result,_⟩ := stopWorkers_spec active cached world.now previous world
  have begun := startWorkers_begun previous world.now active
    (previous.foldl (stopWorker active cached world.now) world)
  unfold updateWorkerTransitions
  rw [result] at held checked begun ⊢
  exact (starts_kept held spaced checked begun :)

end Transitions

end Invariant
section StartNotices

variable {world after : World} {now : ℕ} {miner : String}

def SentStop (miner : String) (event : Event) : Prop := ∃ time email, event = .sent (.stopped miner time) email

def AttemptedStart (miner : String) (event : Event) : Prop := ∃ time, event = .attempt (.started miner time)

/-- Every start that is told of comes after a stop that was, and no start was told of between them. -/
structure Alternates (world : World) : Prop where
  mailed : ∀ miner, world.state.workersStoppedHashingEmailTime miner ≠ none →
    Since (SentStop miner) (AttemptedStart miner) world.notices
  follows : ∀ newer older miner time, world.notices = newer ++ .attempt (.started miner time)::older →
    Since (SentStop miner) (AttemptedStart miner) older

section

variable (alternates : Alternates world)
include alternates

theorem Alternates.keep (notices : after.notices = world.notices)
    (mailed : ∀ miner, after.state.workersStoppedHashingEmailTime miner ≠ none →
      world.state.workersStoppedHashingEmailTime miner ≠ none) : Alternates after := by
  refine ⟨fun miner noted => ?_,?_⟩
  · rw [notices]
    exact alternates.mailed miner (mailed miner noted)
  · rw [notices]
    exact alternates.follows

theorem Alternates.record (event : Event) (notices : after.notices = event::world.notices)
    (mailed : ∀ miner, after.state.workersStoppedHashingEmailTime miner ≠ none →
      SentStop miner event ∨ ¬AttemptedStart miner event ∧ world.state.workersStoppedHashingEmailTime miner ≠ none)
    (follows : ∀ miner, AttemptedStart miner event → world.state.workersStoppedHashingEmailTime miner ≠ none) :
    Alternates after := by
  refine ⟨fun miner noted => ?_,fun newer older miner time split => ?_⟩
  · rw [notices]
    rcases mailed miner noted with sent | ⟨other,before⟩
    · exact since_cons.mpr (.inl sent)
    · exact (alternates.mailed miner before).later other
  · rw [notices] at split
    cases newer with
    | nil =>
      obtain ⟨rfl,rfl⟩ := cons.inj split
      exact alternates.mailed miner (follows miner ⟨time,rfl⟩)
    | cons head newer =>
      exact alternates.follows newer older miner time (cons.inj split).2

theorem deliver_alternates (now : ℕ) (notice : Notice) (email : String) :
    Alternates (deliver world now notice email) := by
  cases notice with
  | stopped miner time =>
    refine alternates.record (.sent (.stopped miner time) email) rfl ?_ ?_
    · intro other noted
      change update world.state.workersStoppedHashingEmailTime miner (some now) other ≠ none at noted
      rw [update_apply] at noted
      split at noted
      next here => exact .inl ⟨time,email,by rw [here]⟩
      · exact .inr ⟨by simp [AttemptedStart],noted⟩
    · intro other attempted
      simp [AttemptedStart] at attempted
  | started miner time =>
    refine alternates.record (.sent (.started miner time) email) rfl ?_ ?_
    · exact fun other noted => .inr ⟨by simp [AttemptedStart],noted⟩
    · intro other attempted
      simp [AttemptedStart] at attempted

theorem getAddressEmail_alternates (now : ℕ) (notice : Notice) : Alternates (getAddressEmail world now notice) := by
  unfold getAddressEmail
  dsimp only
  split
  · exact alternates.keep rfl fun _ noted => noted
  · split
    · exact alternates.keep rfl fun _ noted => noted
    · split
      · exact alternates
      · split
        · exact alternates.keep rfl fun _ noted => noted
        · exact alternates
      · exact deliver_alternates alternates ..

theorem onRows_alternates (now : ℕ) (notice : Notice) (reply : Option (Option String)) :
    Alternates (onRows world now notice reply) := by
  unfold onRows
  dsimp only
  split
  · exact alternates
  · split
    · exact alternates.keep rfl fun _ noted => noted
    · refine deliver_alternates ?_ _ _ _
      exact alternates.keep rfl fun _ noted => noted

end

variable (now) in
theorem stopWorker_alternates (active : List String) (cached : String → Bool) (alternates : Alternates world)
    (miner : String) : Alternates (stopWorker active cached now world miner) := by
  unfold stopWorker
  split
  · exact alternates
  · exact alternates.keep rfl fun _ noted => noted

variable (now) in
private theorem startWorker_alternates (previous : List String) (alternates : Alternates world) (miner : String) :
    Alternates (startWorker previous now world miner) := by
  unfold startWorker
  split
  · exact alternates
  · dsimp only
    split
    · exact alternates.keep rfl fun _ noted => noted
    next mailed =>
      refine getAddressEmail_alternates (alternates.record (.attempt (.started miner now)) rfl ?_ ?_) _ _
      · intro other noted
        change update world.state.workersStoppedHashingEmailTime miner none other ≠ none at noted
        rw [update_apply] at noted
        split at noted
        · exact absurd rfl noted
        next differs =>
          refine .inr ⟨?_,noted⟩
          intro attempted
          obtain ⟨_,same⟩ := attempted
          cases same
          exact differs rfl
      · intro other attempted
        obtain ⟨_,same⟩ := attempted
        cases same
        intro absent
        rw [absent] at mailed
        exact mailed rfl

private theorem foldl_alternates {work : World → String → World}
    (kept : ∀ world miner, Alternates world → Alternates (work world miner)) (alternates : Alternates world)
    (miners : List String) : Alternates (miners.foldl work world) := by
  induction miners generalizing world with
  | nil => exact alternates
  | cons head miners ih => exact ih (kept world head alternates)

theorem act_alternates (alternates : Alternates world) {label : Label} (moved : act world now label = some after) :
    Alternates after := by
  cases label with
  | transitions active previous cached =>
    obtain ⟨_,moved⟩ := ite_none_right_eq_some.mp moved
    cases moved
    have stopped := foldl_alternates (fun _ miner kept => stopWorker_alternates now active cached kept miner)
      alternates previous
    have started := foldl_alternates (fun _ miner kept => startWorker_alternates now previous kept miner)
      stopped active
    exact started.keep rfl fun _ noted => noted
  | check i =>
    obtain ⟨check,_,moved⟩ := bind_eq_some_iff.mp moved
    obtain ⟨_,moved⟩ := ite_none_right_eq_some.mp moved
    cases moved
    unfold delayedSendWorkerStoppedHashingEmail
    dsimp only
    split
    · exact alternates.keep rfl fun _ noted => noted
    · refine getAddressEmail_alternates (alternates.record (.attempt (.stopped check.1 check.2)) rfl ?_ ?_) _ _
      · exact fun other noted => .inr ⟨by simp [AttemptedStart],noted⟩
      · intro other attempted
        simp [AttemptedStart] at attempted
  | prune =>
    cases moved
    exact alternates.keep rfl fun _ noted => noted
  | reply i rows =>
    obtain ⟨notice,_,moved⟩ := bind_eq_some_iff.mp moved
    cases moved
    refine onRows_alternates ?_ _ _ _
    exact alternates.keep rfl fun _ noted => noted
  | retry i =>
    obtain ⟨retry,_,moved⟩ := bind_eq_some_iff.mp moved
    obtain ⟨_,moved⟩ := ite_none_right_eq_some.mp moved
    cases moved
    refine getAddressEmail_alternates ?_ _ _
    exact alternates.keep rfl fun _ noted => noted

theorem alternates_reachable (reachable : notices.Reachable world) : Alternates world := by
  refine reachable.invariant Alternates ?_ ?_
  · intro world start
    obtain ⟨state,_,_,_,_,empty⟩ := start
    refine ⟨fun miner noted => ?_,fun newer older miner time split => ?_⟩
    · rw [state] at noted
      exact absurd rfl noted
    · rw [empty] at split
      simp at split
  · intro world after label alternates _ moved
    obtain ⟨_,moved⟩ := ite_none_right_eq_some.mp moved
    have elapsed : Alternates { world with now := label.1 } := alternates.keep rfl fun _ noted => noted
    exact act_alternates elapsed moved

end StartNotices

section Statement

variable {world after : World} {now : ℕ}

/-- No check comes later than a delay after it is due, or later than a delay after a start that came after its stop; and
no worker stops whose data is unknown, or while an earlier check of it is to come. -/
def Timely (world : World) (label : ℕ × Label) : Prop :=
  (∀ check ∈ world.checks, label.1 ≤ check.2 + 2 * STOPPED_HASHING_DELAY_MS) ∧
  match label.2 with
  | .transitions active previous cached => ∀ miner ∈ previous, miner ∉ active → notified miner = true →
      cached miner = true ∧ ∀ check ∈ world.checks, check.1 ≠ miner
  | .check i => ∀ check ∈ world.checks[i]?, ∀ startedAt ∈ world.state.workersStartedHashingTime check.1,
      check.2 < startedAt → label.1 ≤ startedAt + STOPPED_HASHING_DELAY_MS
  | _ => True

private theorem act_kept (kept : Kept world) {label : Label} (timely : Timely world (world.now,label))
    (moved : act world world.now label = some after) : Kept after := by
  cases label with
  | transitions active previous cached =>
    obtain ⟨spaced,moved⟩ := ite_none_right_eq_some.mp moved
    cases moved
    exact transitions_kept kept spaced timely.2
  | check i =>
    obtain ⟨check,found,moved⟩ := bind_eq_some_iff.mp moved
    obtain ⟨due,moved⟩ := ite_none_right_eq_some.mp moved
    cases moved
    exact check_kept kept found due fun startedAt noted => timely.2 check found startedAt noted
  | prune =>
    cases moved
    exact prune_kept kept
  | reply i rows =>
    obtain ⟨notice,_,moved⟩ := bind_eq_some_iff.mp moved
    cases moved
    refine kept.frame (Frame.trans ?_ (onRows_frame _ _ notice rows))
    exact ⟨rfl,rfl,rfl,rfl,rfl,rfl,[],rfl,by simp⟩
  | retry i =>
    obtain ⟨retry,_,moved⟩ := bind_eq_some_iff.mp moved
    obtain ⟨_,moved⟩ := ite_none_right_eq_some.mp moved
    cases moved
    refine kept.frame (Frame.trans ?_ (getAddressEmail_frame _ _ retry.1))
    exact ⟨rfl,rfl,rfl,rfl,rfl,rfl,[],rfl,by simp⟩

theorem kept_reachable (reachable : notices.ReachableBy Timely world) : Kept world := by
  refine reachable.invariant Kept ?_ ?_
  · intro world start
    obtain ⟨state,checks,_,_,calls,empty⟩ := start
    have none : ∀ miner time, attempts world miner time = 0 := by simp [attempts,empty]
    refine ⟨⟨?_,?_,?_,?_,?_,?_,?_,?_,?_,?_⟩,?_⟩
    · simp [calls]
    · simp [calls]
    · simp [checks]
    · simp [checks]
    · simp [state]
    · simp [none]
    · simp [none]
    · simp [state]
    · simp [checks]
    · simp [none]
    · simp [calls]
  · intro world after label kept timely moved
    obtain ⟨later,moved⟩ := ite_none_right_eq_some.mp moved
    exact act_kept (kept.elapse later timely.1) timely moved

/-- What is told of the stops: one that lasts past its delay and another is told of once, and one that a start follows
within the delay is not. -/
structure Told (world : World) : Prop where
  once : ∀ call ∈ world.calls, ∀ miner, notified miner = true → Stops miner call →
    (∀ later ∈ world.calls, call.time < later.time → miner ∉ later.active) →
    call.time + 2 * STOPPED_HASHING_DELAY_MS < world.now → attempts world miner call.time = 1
  never : ∀ call ∈ world.calls, ∀ miner, Stops miner call → ∀ later ∈ world.calls, Starts miner later →
    call.time < later.time → later.time < call.time + STOPPED_HASHING_DELAY_MS → attempts world miner call.time = 0

/-- In every run whose steps are timely the stops are told of as they should be, and in every run at all a start is told
of only after a stop was, and once. -/
theorem stops_told (world : World) : (notices.Reachable world → Alternates world) ∧
    (notices.ReachableBy Timely world → Told world) := by
  refine ⟨fun reachable => alternates_reachable reachable,fun reachable => ?_⟩
  have kept := kept_reachable reachable
  refine ⟨?_,?_⟩
  · intro call held miner worker stops inactive long
    rcases kept.settled call held miner worker stops with waiting | told | ⟨later,laterHeld,after,starts⟩
    · have soon := (kept.waiting miner call.time waiting).2.2.1
      omega
    · exact told
    · exact absurd starts.1 (inactive later laterHeld after)
  · intro call _ miner _ later laterHeld starts after soon
    by_contra told
    have late := kept.quiet miner call.time told later laterHeld starts after
    omega

instance decidableTimely : ∀ world label, Decidable (Timely world label)
  | _,(_,.transitions ..) => inferInstanceAs (Decidable (_ ∧ _))
  | _,(_,.check _) => inferInstanceAs (Decidable (_ ∧ _))
  | _,(_,.prune) => inferInstanceAs (Decidable (_ ∧ _))
  | _,(_,.reply ..) => inferInstanceAs (Decidable (_ ∧ _))
  | _,(_,.retry _) => inferInstanceAs (Decidable (_ ∧ _))

def idle : World := ⟨⟨fun _ => none,fun _ => none,fun _ => none,fun _ => none,fun _ => none⟩,[],[],[],[],[],0,0⟩

theorem idle_initial : notices.initial idle := ⟨rfl,rfl,rfl,rfl,rfl,rfl⟩

def stops : Label := .transitions ["b_y"] ["a_x","b_y"] fun _ => true

def starts : Label := .transitions ["a_x","b_y"] ["b_y"] fun _ => true

theorem stops_told_worker : ∃ world, notices.ReachableBy Timely world ∧ attempts world "a_x" 20000 = 1 ∧
    .attempt (.started "a_x" 900000) ∈ world.notices ∧ Told world := by
  have ran : ((notices.guarded fun world label => decide (Timely world label)).run idle
      [(20000,stops),(620000,.check 0),(620010,.reply 0 (some (some "owner@example.com"))),(900000,starts)]).any
      (fun world => attempts world "a_x" 20000 == 1 && world.notices.contains (.attempt (.started "a_x" 900000))) =
        true := by
    decide +kernel
  obtain ⟨world,ran,told⟩ := (Option.any_eq_true _ _).mp ran
  obtain ⟨once,started⟩ := Bool.and_eq_true_iff.mp told
  have reached := Machine.ReachableBy.run_guarded (fun _ _ passed => of_decide_eq_true passed)
    (.initial idle_initial) ran
  exact ⟨world,reached,beq_iff_eq.mp once,List.contains_iff_mem.mp started,(stops_told world).2 reached⟩

/-- A stop while the check of an earlier one is to come is never told of, where a start came between them. -/
theorem second_stop_untold : ¬∀ world, notices.Reachable world → Told world := by
  intro told
  have ran : (notices.run idle [(20000,stops),(60000,starts),(100000,stops),(620000,.check 0),(1400000,.prune)]).any
      (fun world => world.calls.any (fun call => call.time == 100000 && call.previous.contains "a_x" &&
          !call.active.contains "a_x" && world.calls.all fun later => later.time ≤ call.time) &&
        world.now == 1400000 && attempts world "a_x" 100000 == 0) = true := by decide +kernel
  obtain ⟨world,ran,facts⟩ := (Option.any_eq_true _ _).mp ran
  obtain ⟨facts,untold⟩ := Bool.and_eq_true_iff.mp facts
  obtain ⟨called,clock⟩ := Bool.and_eq_true_iff.mp facts
  obtain ⟨call,held,facts⟩ := List.any_eq_true.mp called
  obtain ⟨facts,last⟩ := Bool.and_eq_true_iff.mp facts
  obtain ⟨facts,inactive⟩ := Bool.and_eq_true_iff.mp facts
  obtain ⟨time,before⟩ := Bool.and_eq_true_iff.mp facts
  have stopped : Stops "a_x" call := ⟨List.contains_iff_mem.mp before,by simpa using inactive⟩
  have once := (told world (Machine.reachable_run idle_initial ran)).once call held "a_x" (by decide +kernel) stopped
    (fun later laterHeld after => absurd (of_decide_eq_true (List.all_eq_true.mp last later laterHeld)) (by omega))
    (by rw [beq_iff_eq.mp time,beq_iff_eq.mp clock]; decide)
  rw [beq_iff_eq.mp time,beq_iff_eq.mp untold] at once
  cases once

end Statement
end NodejsPool.Worker.StopNotices
