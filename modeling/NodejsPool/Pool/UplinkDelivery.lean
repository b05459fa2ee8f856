import NodejsPool.Pool.UplinkBooks

/-! A response that is closed early is all that can strand a frame of the uplink. -/
namespace NodejsPool.Pool.Uplink
open Async Callbacks Multiset

variable {concurrency cpus : ℕ} {world next : World} {task : Task}

section Runs

variable {labels : List Label}

theorem step_kept (world next : World) (label : Label) (kept : Kept concurrency world)
    (moved : world.step concurrency label = some next) :
    Kept concurrency next ∧ (next.lost = [] ↔ world.lost = [] ∧ label.closes = false) := by
  have moves := step_moves moved
  obtain ⟨more,lost,calm⟩ := moves.lost kept
  refine ⟨moves.kept kept,?_⟩
  rw [← coe_eq_zero,lost,← card_eq_zero,card_add,Nat.add_eq_zero_iff,card_eq_zero,
    card_eq_zero,calm,coe_eq_zero,and_comm]

theorem run_kept (kept : Kept (cpus * 32) world) (ran : (uplink cpus).run world labels = some next) :
    Kept (cpus * 32) next ∧ (next.lost = [] ↔ world.lost = [] ∧ ∀ label ∈ labels, label.closes = false) := by
  rw [← Machine.along_labels ran]
  exact Machine.run_iff_along step_kept kept ran

def Serves (cpus : ℕ) (world : World) (task : Task) : Prop :=
  ∃ labels next, (∀ label ∈ labels, label.closes = false) ∧ (uplink cpus).run world labels = some next ∧
    task ∈ next.delivered ∧ next.pushed = world.pushed ∧ next.queue.pending.length ≤ world.queue.pending.length - 1

private theorem posted_delivers (kept : Kept concurrency world) {attempt : ℕ} {phase : Phase}
    (found : world.attempts[attempt]? = some ⟨task,phase⟩) (flies : (⟨task,phase⟩ : Attempt).flies = some task) :
    task ∈ (world.posted concurrency task attempt none (some 200)).delivered ∧
      (world.posted concurrency task attempt none (some 200)).pushed = world.pushed ∧
      (world.posted concurrency task attempt none (some 200)).queue.pending.length ≤
        world.queue.pending.length - 1 := by
  have running := kept.running
  have bounded := kept.bounded
  have fewer := length_flying_posted found flies none (some 200)
  rw [World.posted,World.onPosted,if_pos ⟨rfl,rfl⟩,World.onDone,pump_eq (by exact kept.resting)]
  refine ⟨List.mem_map_of_mem (List.mem_append_right _ (List.mem_singleton_self _)),rfl,?_⟩
  change (world.queue.pending.drop (concurrency - (world.queue.running - 1))).length ≤ _
  rw [List.length_drop]
  omega

private theorem serves_sent (kept : Kept (cpus * 32) world) {attempt : ℕ}
    (found : world.attempts[attempt]? = some ⟨task,.sent⟩) : Serves cpus world task := by
  obtain ⟨inside,_⟩ := List.getElem?_eq_some_iff.mp found
  have responded : (world.setPhase attempt task (.responded 200)).attempts[attempt]? = some ⟨task,.responded 200⟩ :=
    List.getElem?_set_self inside
  have first :
      (uplink cpus).step world (.response attempt 200) = some (world.setPhase attempt task (.responded 200)) := by
    simp only [uplink,World.step,found]
  have second : (uplink cpus).step (world.setPhase attempt task (.responded 200)) (.end attempt) =
      some ((world.setPhase attempt task (.responded 200)).posted (cpus * 32) task attempt none (some 200)) := by
    simp only [uplink,World.step,responded]
  refine ⟨[.response attempt 200,.end attempt],
    (world.setPhase attempt task (.responded 200)).posted (cpus * 32) task attempt none (some 200),
      by simp [Label.closes],?_,
    posted_delivers (kept.respond found rfl 200) responded rfl⟩
  rw [Machine.run,first,Option.bind_some,Machine.run,second]
  rfl

theorem Serves.after {label : Label} (calm : label.closes = false) (moved : (uplink cpus).step world label = some next)
    (pushed : next.pushed = world.pushed) (pending : next.queue.pending = world.queue.pending)
    (serves : Serves cpus next task) : Serves cpus world task := by
  obtain ⟨labels,last,others,ran,delivered,same,fewer⟩ := serves
  refine ⟨label::labels,last,List.forall_mem_cons.mpr ⟨calm,others⟩,?_,delivered,same.trans pushed,pending ▸ fewer⟩
  rw [Machine.run,moved]
  exact ran

theorem serves_armed (kept : Kept (cpus * 32) world) (waits : task ∈ world.armed) : Serves cpus world task := by
  obtain ⟨⟨other,attempt,armed⟩,member,shown⟩ := List.mem_filterMap.mp waits
  obtain ⟨rfl,same⟩ := Option.ite_none_right_eq_some.mp shown
  obtain rfl : other = task := Option.some.inj same
  obtain ⟨timer,inside,here⟩ := List.getElem_of_mem member
  have found : world.retries[timer]? = some ⟨other,attempt,true⟩ := List.getElem?_eq_some_iff.mpr ⟨inside,here⟩
  have moved : (uplink cpus).step world (.retry timer) = some (World.sendUntilSuccess
      { world with retries := world.retries.set timer ⟨other,attempt,false⟩ } other) := by
    simp only [uplink,World.step,found]
  exact Serves.after rfl moved rfl rfl (serves_sent (kept.retry found) List.getElem?_concat_length)

theorem serves_flying (kept : Kept (cpus * 32) world) (flying : task ∈ world.flying) : Serves cpus world task := by
  obtain ⟨⟨other,phase⟩,member,shown⟩ := List.mem_filterMap.mp flying
  obtain ⟨attempt,inside,here⟩ := List.getElem_of_mem member
  have found : world.attempts[attempt]? = some ⟨other,phase⟩ := List.getElem?_eq_some_iff.mpr ⟨inside,here⟩
  have moved : (uplink cpus).step world (.timeout attempt) =
      some (world.posted (cpus * 32) other attempt (some timedOut) none) := by
    cases phase with
    | sent | responded statusCode => simp only [uplink,World.step,found]
    | ended outcome => cases shown
  obtain rfl : other = task := by
    cases phase with
    | sent | responded statusCode => exact Option.some.inj shown
    | ended outcome => cases shown
  refine Serves.after rfl moved rfl rfl (serves_armed (kept.posted found shown _ _) ?_)
  exact List.mem_filterMap.mpr ⟨⟨other,attempt,true⟩,List.mem_append_right _ (List.mem_singleton_self _),rfl⟩

theorem Kept.live (kept : Kept (cpus * 32) world) (lost : world.lost = []) (positive : 0 < cpus)
    (pushed : task ∈ world.pushed) :
    ∃ labels next, (∀ label ∈ labels, label.closes = false) ∧ (uplink cpus).run world labels = some next ∧
      task ∈ next.delivered := by
  induction length : world.queue.pending.length using Nat.strongRecOn generalizing world with
  | ind count ih =>
    have placed : task ∈ (world.pushed : Multiset Task) := pushed
    rw [kept.placed,lost] at placed
    simp only [mem_add,mem_coe,List.not_mem_nil,or_false] at placed
    rcases placed with ((pends | flying) | armed) | delivered
    · have waiting : world.queue.pending ≠ [] := List.ne_nil_of_mem pends
      have busy := kept.busy waiting
      have running := kept.running
      rw [lost,List.length_nil,Nat.add_zero] at running
      obtain ⟨other,serves⟩ : ∃ other, Serves cpus world other := by
        by_cases idle : world.flying = []
        · have some : world.armed ≠ [] := by
            intro none
            rw [idle,none] at running
            simp only [List.length_nil] at running
            omega
          obtain ⟨other,member⟩ := List.exists_mem_of_ne_nil _ some
          exact ⟨other,serves_armed kept member⟩
        · obtain ⟨other,member⟩ := List.exists_mem_of_ne_nil _ idle
          exact ⟨other,serves_flying kept member⟩
      obtain ⟨front,middle,calm,ran,_,same,fewer⟩ := serves
      obtain ⟨after,none⟩ := run_kept kept ran
      have less : middle.queue.pending.length < count := by
        have some := List.length_pos_of_ne_nil waiting
        omega
      obtain ⟨back,last,others,rest,delivered⟩ := ih _ less after (none.mpr ⟨lost,calm⟩) (same ▸ pushed) rfl
      refine ⟨front ++ back,last,?_,(Machine.run_front ran).trans rest,delivered⟩
      exact List.forall_mem_append.mpr ⟨calm,others⟩
    · obtain ⟨labels,last,calm,ran,delivered,_⟩ := serves_flying kept flying
      exact ⟨labels,last,calm,ran,delivered⟩
    · obtain ⟨labels,last,calm,ran,delivered,_⟩ := serves_armed kept armed
      exact ⟨labels,last,calm,ran,delivered⟩
    · exact ⟨[],world,by simp,rfl,delivered⟩

private theorem posts_ends {attempt : Attempt} (silent : attempt.loses = none) : attempt.posts = attempt.ends := by
  obtain ⟨task,phase⟩ := attempt
  cases phase with
  | ended outcome =>
    cases outcome with
    | posted error statusCode => rfl
    | closed => cases silent
  | _ => rfl

private theorem Kept.delivers_iff (kept : Kept (cpus * 32) world) : Delivers cpus world ↔ world.lost = [] := by
  constructor
  · intro delivers
    have placed := coe_eq_coe.mpr delivers.placed
    rw [← coe_add,← coe_add,← coe_add,kept.placed] at placed
    exact coe_eq_zero _ |>.mp (add_eq_left.mp placed)
  · intro lost
    have placed : world.pushed.Perm (world.queue.pending ++ world.flying ++ world.armed ++ world.delivered) := by
      refine coe_eq_coe.mp ?_
      rw [kept.placed,lost,coe_nil,add_zero,coe_add,coe_add,coe_add]
    have apart : (world.pushed.map QueueTask.enqueueOrder).Nodup := by
      rw [kept.orders]
      exact List.nodup_range
    have running := kept.running
    refine ⟨placed,apart,?_,?_,kept.success,?_,kept.bounded,?_,
      fun positive task pushed => kept.live lost positive pushed⟩
    · intro index attempt found
      have silent : attempt.loses = none := by
        refine Option.eq_none_iff_forall_ne_some.mpr fun task loses => ?_
        have member : task ∈ world.lost := List.mem_filterMap.mpr ⟨attempt,List.mem_of_getElem? found,loses⟩
        rw [lost] at member
        cases member
      rw [kept.led index,found,Option.bind_some]
      exact congrArg Option.toList (posts_ends silent)
    · have both := (placed.map QueueTask.enqueueOrder).nodup_iff.mp apart
      rw [List.map_append] at both
      exact both.of_append_right
    · rw [lost] at running
      exact running
    · intro waiting
      exact Nat.le_antisymm kept.bounded (kept.busy waiting)

theorem empty_kept : Kept concurrency empty := by
  refine ⟨⟨rfl,rfl,rfl,rfl,Nat.zero_le _,fun _ => rfl,?_⟩,fun waiting => absurd rfl waiting⟩
  intro done member
  cases member

/-- The uplink keeps its promises all along a run exactly when no response is closed before its body has
ended. -/
theorem uplink_delivers {last : World} (ran : (uplink cpus).run empty labels = some last) :
    (∀ front world, front <+: labels → (uplink cpus).run empty front = some world → Delivers cpus world) ↔
      ∀ label ∈ labels, label.closes = false := by
  have kept (world next : World) (label : Label) (before : Kept (cpus * 32) world)
      (moved : (uplink cpus).step world label = some next) :
      Kept (cpus * 32) next ∧ (Delivers cpus world → (Delivers cpus next ↔ label.closes = false)) := by
    obtain ⟨after,lost⟩ := step_kept world next label before moved
    refine ⟨after,fun delivers => ?_⟩
    rw [after.delivers_iff,lost]
    exact and_iff_right (before.delivers_iff.mp delivers)
  rw [← Machine.along_labels ran]
  exact Machine.always_iff_along kept empty_kept (empty_kept.delivers_iff.mpr rfl) ran

def retriedRun : List Label :=
  [.push [1],.push [2],.response 0 503,.end 0,.monitor,.retry 0,.response 1 200,.timeout 2,.end 1,.retry 1]

theorem uplink_delivers_retried : ∃ last, (uplink 1).run empty retriedRun = some last ∧ Delivers 1 last ∧
    last.delivered.map (fun task => task.data.body) = [[2]] ∧ last.flying.map (fun task => task.data.body) = [[1]] := by
  have ran : ∃ last, (uplink 1).run empty retriedRun = some last ∧
      last.delivered.map (fun task => task.data.body) = [[2]] ∧
      last.flying.map (fun task => task.data.body) = [[1]] := ⟨_,rfl,rfl,rfl⟩
  obtain ⟨last,ran,delivered,flying⟩ := ran
  exact ⟨last,ran,(uplink_delivers ran).mpr (by decide) retriedRun last List.prefix_rfl ran,delivered,flying⟩

private theorem lost_le (kept : Kept (cpus * 32) world) (ran : (uplink cpus).run world labels = some next) :
    (world.lost : Multiset Task) ≤ next.lost := by
  induction labels generalizing world with
  | nil =>
    cases ran
    exact le_refl _
  | cons label labels ih =>
    obtain ⟨middle,moved,rest⟩ := Option.bind_eq_some_iff.mp ran
    obtain ⟨more,lost,_⟩ := (step_moves moved).lost kept
    calc (world.lost : Multiset Task) ≤ more + world.lost := le_add_left _ _
      _ = middle.lost := lost.symm
      _ ≤ next.lost := ih (step_kept world middle label kept moved).1 rest

theorem lost_stays {front : List Label} (reached : (uplink cpus).run empty front = some world)
    (ran : (uplink cpus).run world labels = some next) (lost : task ∈ world.lost) :
    task ∈ next.lost ∧ task ∉ next.delivered ∧ world.lost.length ≤ next.queue.running := by
  obtain ⟨kept,_⟩ := run_kept empty_kept reached
  obtain ⟨after,_⟩ := run_kept kept ran
  have stays := lost_le kept ran
  have apart : (next.pushed.map QueueTask.enqueueOrder).Nodup := by
    rw [after.orders]
    exact List.nodup_range
  have once : (next.pushed : Multiset Task).Nodup := Multiset.coe_nodup.mpr apart.of_map
  rw [after.placed] at once
  refine ⟨Multiset.mem_of_le stays lost,fun delivered => ?_,?_⟩
  · have both := Multiset.nodup_add.mp once
    exact Multiset.disjoint_left.mp both.2.2 (Multiset.mem_add.mpr (.inr delivered)) (Multiset.mem_of_le stays lost)
  · have more := Multiset.card_le_card stays
    have running := after.running
    rw [Multiset.coe_card,Multiset.coe_card] at more
    omega

theorem lost_stays_pushed : ∃ world next, ∃ task ∈ world.lost,
    (uplink 1).run empty [.push [1],.response 0 200,.close 0] = some world ∧
      (uplink 1).run world [.push [2],.response 1 200,.end 1] = some next ∧ task ∉ next.delivered := by
  have stranded : ∃ world, (uplink 1).run empty [.push [1],.response 0 200,.close 0] = some world ∧
      ∃ next, (uplink 1).run world [.push [2],.response 1 200,.end 1] = some next ∧
        world.lost.length = 1 := ⟨_,rfl,_,rfl,rfl⟩
  obtain ⟨world,reached,next,ran,one⟩ := stranded
  obtain ⟨task,lost⟩ := List.exists_mem_of_length_pos (one ▸ Nat.one_pos)
  exact ⟨world,next,task,lost,reached,ran,(lost_stays reached ran lost).2.1⟩

/-- A reply whose body is cut off: the frame has no place, and its slot is taken. -/
theorem uplink_strands : ∃ last, (uplink 1).run empty [.push [1],.response 0 200,.close 0] = some last ∧
    last.pushed.length = 1 ∧ last.flying = [] ∧ last.armed = [] ∧ last.delivered = [] ∧ last.queue.running = 1 ∧
    ¬ Delivers 1 last := by
  refine ⟨_,rfl,rfl,rfl,rfl,rfl,rfl,?_⟩
  intro delivers
  exact absurd delivers.placed.length_eq (by decide)

end Runs

section Statistics

abbrev counted (counts : List (String × ℕ)) : ℤ := Entries.total Nat.cast counts

theorem counted_countKey (counts : List (String × ℕ)) (key : String) :
    counted (countKey counts key) = counted counts + 1 := by
  unfold counted countKey
  rw [Entries.total_put]
  cases Entries.get counts key with
  | none => simp
  | some count =>
    simp only [Option.map_some,Option.getD_some,Nat.cast_add,Nat.cast_one]
    omega

def Caused (stats : SendStats) : Prop := counted stats.errorCounts = stats.networkErrors + stats.timeouts ∧
  (stats.failed : ℤ) = counted stats.errorCounts + counted stats.statusCounts

def World.reports (world : World) : List SendStats := world.stats::world.snapshots

/-- The key under which an attempt that ended with an error is counted. -/
def Attempt.errorKey (attempt : Attempt) : Option String :=
  match attempt.phase with
  | .ended (.posted (some error) _) => some error.key
  | _ => none

/-- The key under which an attempt that ended with a status other than 200 is counted. -/
def Attempt.statusKey (attempt : Attempt) : Option String :=
  match attempt.phase with
  | .ended (.posted none statusCode) => if statusCode = some 200 then none else some (toString (statusCode.getD 0))
  | _ => none

def World.errors (world : World) (wanted : String → Bool) : ℕ :=
  world.attempts.countP fun attempt => attempt.errorKey.any wanted

def World.statuses (world : World) (wanted : String → Bool) : ℕ :=
  world.attempts.countP fun attempt => attempt.statusKey.any wanted

/-- How often a key was counted in all reports. -/
def World.tally (world : World) (counts : SendStats → List (String × ℕ)) (key : String) : ℕ :=
  (world.reports.map fun stats => (Entries.get (counts stats) key).getD 0).sum

/-- Each end of an attempt is in one report. -/
structure Totals (world : World) : Prop where
  successes : (world.reports.map SendStats.success).sum = world.delivered.length
  failures : (world.reports.map SendStats.failed).sum = world.retries.length
  causes : ∀ stats ∈ world.reports, Caused stats

/-- The reports count each failed end under its kind and its key. -/
structure Tallied (world : World) : Prop extends Totals world where
  timeouts : (world.reports.map SendStats.timeouts).sum = world.errors fun key => key = "timeout"
  networkErrors : (world.reports.map SendStats.networkErrors).sum = world.errors fun key => key ≠ "timeout"
  errorCounts : ∀ key, world.tally SendStats.errorCounts key = world.errors fun other => other = key
  statusCounts : ∀ key, world.tally SendStats.statusCounts key = world.statuses fun other => other = key

theorem Totals.pump (totals : Totals world) : Totals (world.pump concurrency) := by
  unfold World.pump
  split
  · exact totals
  · rw [loop_eq]
    exact ⟨totals.successes,totals.failures,totals.causes⟩

theorem Caused.failure {stats : SendStats} (caused : Caused stats) {error : Option PostError} {statusCode : Option ℕ}
    (failed : ¬(error.isNone ∧ statusCode = some 200)) :
    (updateSendStats stats error statusCode).success = stats.success ∧
      (updateSendStats stats error statusCode).failed = stats.failed + 1 ∧
      Caused (updateSendStats stats error statusCode) := by
  obtain ⟨errors,failures⟩ := caused
  rw [updateSendStats,if_neg failed]
  dsimp only
  cases error with
  | none => exact ⟨rfl,rfl,errors,by simp only [counted_countKey]; omega⟩
  | some error =>
    dsimp only
    split <;> exact ⟨rfl,rfl,by simp only [counted_countKey]; omega,by simp only [counted_countKey]; omega⟩

theorem Moves.totals {closes : Bool} (moves : Moves concurrency world closes next) (totals : Totals world) :
    Totals next := by
  obtain ⟨successes,failures,causes⟩ := totals
  obtain ⟨now,later⟩ := List.forall_mem_cons.mp causes
  cases moves with
  | push body => exact Totals.pump ⟨successes,failures,causes⟩
  | respond | close => exact ⟨successes,failures,causes⟩
  | retry found => exact ⟨successes,failures.trans List.length_set.symm,causes⟩
  | monitor =>
    have same : (noStats::(world.snapshots ++ [world.stats])).Perm (noStats::world.reports) :=
      (List.perm_append_singleton _ _).cons _
    refine ⟨((same.map _).sum_eq.trans (zero_add _)).trans successes,
      ((same.map _).sum_eq.trans (zero_add _)).trans failures,fun stats member => ?_⟩
    rcases List.mem_cons.mp (same.subset member) with rfl | old
    · exact ⟨rfl,rfl⟩
    · exact causes stats old
  | posted found flies error statusCode =>
    simp only [World.reports,World.delivered,List.map_cons,List.sum_cons,List.length_map] at successes failures
    unfold World.posted World.onPosted
    dsimp only
    split
    next done =>
      rw [updateSendStats,if_pos done]
      refine Totals.pump ⟨?_,failures,List.forall_mem_cons.mpr ⟨now,later⟩⟩
      simp only [World.reports,World.delivered,World.setPhase,List.map_cons,List.sum_cons,List.length_map,
        List.length_append,List.length_singleton]
      omega
    next failed =>
      obtain ⟨same,more,caused⟩ := Caused.failure now failed
      refine ⟨?_,?_,List.forall_mem_cons.mpr ⟨caused,later⟩⟩
      all_goals
        simp only [World.reports,World.delivered,World.setPhase,List.map_cons,List.sum_cons,List.length_map,
          List.length_append,List.length_singleton]
        omega

theorem uplink_totals (reached : (uplink cpus).Reachable world) : Totals world :=
  reached.invariant Totals (fun _ start => start ▸ ⟨rfl,rfl,by simp [World.reports,empty,noStats,Caused]⟩)
    fun _ _ _ totals _ moved => (step_moves moved).totals totals

/-- A counter goes up by one for just the ends that are marked. -/
structure Measures (measure : SendStats → ℕ) (marks : Attempt → Bool) : Prop where
  zero : measure noStats = 0
  flies : ∀ attempt task, attempt.flies = some task → marks attempt = false
  closed : ∀ task, marks ⟨task,.ended .closed⟩ = false
  posted : ∀ stats task error statusCode, measure (updateSendStats stats error statusCode) =
    measure stats + if marks ⟨task,.ended (.posted error statusCode)⟩ then 1 else 0

def Measured (measure : SendStats → ℕ) (marks : Attempt → Bool) (world : World) : Prop :=
  (world.reports.map measure).sum = world.attempts.countP marks

section Measures

variable {measure : SendStats → ℕ} {marks : Attempt → Bool}

theorem countP_sent (measures : Measures measure marks) (attempts : List Attempt) (tasks : List Task) :
    (attempts ++ sent tasks).countP marks = attempts.countP marks := by
  have none : (sent tasks).countP marks = 0 := by
    refine List.countP_eq_zero.mpr fun attempt member => ?_
    obtain ⟨task,_,rfl⟩ := List.mem_map.mp member
    exact Bool.eq_false_iff.mp (measures.flies _ task rfl)
  rw [List.countP_append,none,Nat.add_zero]

theorem Measured.pump (measures : Measures measure marks) (measured : Measured measure marks world) :
    Measured measure marks (world.pump concurrency) := by
  unfold World.pump
  split
  · exact measured
  · rw [loop_eq]
    exact measured.trans (countP_sent measures _ _).symm

private theorem countP_phase (measures : Measures measure marks) {attempt : ℕ} {phase : Phase}
    (found : world.attempts[attempt]? = some ⟨task,phase⟩) (flies : (⟨task,phase⟩ : Attempt).flies = some task)
    (other : Phase) : (world.setPhase attempt task other).attempts.countP marks =
      world.attempts.countP marks + if marks ⟨task,other⟩ then 1 else 0 := by
  obtain ⟨inside,same⟩ := List.getElem?_eq_some_iff.mp found
  have unmarked : marks world.attempts[attempt] = false := same ▸ measures.flies _ task flies
  exact (List.countP_set inside).trans (by simp [unmarked])

theorem Moves.measured {closes : Bool} (measures : Measures measure marks) (moves : Moves concurrency world closes next)
    (measured : Measured measure marks world) : Measured measure marks next := by
  cases moves with
  | push body => exact Measured.pump measures measured
  | @respond task attempt phase found flies code =>
    have unmarked := measures.flies ⟨task,.responded code⟩ task rfl
    exact measured.trans ((countP_phase measures found flies _).trans (by simp [unmarked])).symm
  | close found flies =>
    exact measured.trans ((countP_phase measures found flies _).trans (by simp [measures.closed])).symm
  | @retry task timer attempt found => exact measured.trans (countP_sent measures world.attempts [task]).symm
  | monitor =>
    have same : (noStats::(world.snapshots ++ [world.stats])).Perm (noStats::world.reports) :=
      (List.perm_append_singleton _ _).cons _
    refine ((same.map measure).sum_eq.trans ?_).trans measured
    rw [List.map_cons,List.sum_cons,measures.zero,zero_add]
  | @posted task attempt phase found flies error statusCode =>
    have counted : Measured measure marks { world.setPhase attempt task (.ended (.posted error statusCode)) with
        stats := updateSendStats world.stats error statusCode } := by
      have before : measure world.stats + (world.snapshots.map measure).sum = world.attempts.countP marks := measured
      have after := countP_phase measures found flies (.ended (.posted error statusCode))
      have more := measures.posted world.stats task error statusCode
      change measure (updateSendStats world.stats error statusCode) + (world.snapshots.map measure).sum =
        (world.setPhase attempt task _).attempts.countP marks
      omega
    unfold World.posted World.onPosted
    dsimp only
    split
    · exact Measured.pump measures counted
    · exact counted

theorem uplink_measured (measures : Measures measure marks) (reached : (uplink cpus).Reachable world) :
    Measured measure marks world := by
  refine reached.invariant (Measured measure marks) (fun _ start => ?_) fun _ _ _ measured _ moved =>
    (step_moves moved).measured measures measured
  rw [show _ = empty from start]
  change measure noStats + 0 = 0
  rw [measures.zero]

end Measures

theorem get_countKey (counts : List (String × ℕ)) (key other : String) :
    (Entries.get (countKey counts key) other).getD 0 =
    (Entries.get counts other).getD 0 + if key = other then 1 else 0 := by
  unfold countKey
  by_cases same : key = other
  · rw [same,Entries.get_put_self,if_pos rfl,Option.getD_some]
  · rw [Entries.get_put_other (Ne.symm same),if_neg same,Nat.add_zero]

theorem flies_unended {attempt : Attempt} (flies : attempt.flies = some task) :
    attempt.errorKey = none ∧ attempt.statusKey = none := by
  obtain ⟨held,phase⟩ := attempt
  cases phase with
  | sent | responded statusCode => exact ⟨rfl,rfl⟩
  | ended outcome => cases flies

/-- A counter of the attempts whose error key is wanted. -/
theorem errors_measures {measure : SendStats → ℕ} {wanted : String → Bool} (zero : measure noStats = 0)
    (error : ∀ stats error statusCode, measure (updateSendStats stats (some error) statusCode) =
      measure stats + if wanted error.key then 1 else 0)
    (status : ∀ stats statusCode, measure (updateSendStats stats none statusCode) = measure stats) :
    Measures measure fun attempt => attempt.errorKey.any wanted := by
  refine ⟨zero,fun attempt task flies => ?_,fun task => rfl,fun stats task failed statusCode => ?_⟩
  · rw [(flies_unended flies).1]
    rfl
  · cases failed with
    | none => exact status stats statusCode
    | some failed => exact error stats failed statusCode

private theorem statuses_measures {measure : SendStats → ℕ} {wanted : String → Bool} (zero : measure noStats = 0)
    (success : ∀ stats, measure (updateSendStats stats none (some 200)) = measure stats)
    (status : ∀ stats statusCode, statusCode ≠ some 200 → measure (updateSendStats stats none statusCode) =
      measure stats + if wanted (toString (statusCode.getD 0)) then 1 else 0)
    (error : ∀ stats error statusCode, measure (updateSendStats stats (some error) statusCode) = measure stats) :
    Measures measure fun attempt => attempt.statusKey.any wanted := by
  refine ⟨zero,fun attempt task flies => ?_,fun task => rfl,fun stats task failed statusCode => ?_⟩
  · rw [(flies_unended flies).2]
    rfl
  · cases failed with
    | some failed => exact error stats failed statusCode
    | none =>
      by_cases accepted : statusCode = some 200
      · subst accepted
        exact success stats
      · simp only [Attempt.statusKey,if_neg accepted,Option.any_some]
        exact status stats statusCode accepted

theorem uplink_tallied (reached : (uplink cpus).Reachable world) : Tallied world := by
  refine ⟨uplink_totals reached,?_,?_,fun key => ?_,fun key => ?_⟩
  · refine uplink_measured (errors_measures rfl (fun stats error statusCode => ?_) fun stats statusCode => ?_) reached
    · by_cases timeout : error.key = "timeout" <;> simp [updateSendStats,timeout]
    · unfold updateSendStats
      split <;> rfl
  · refine uplink_measured (errors_measures rfl (fun stats error statusCode => ?_) fun stats statusCode => ?_) reached
    · by_cases timeout : error.key = "timeout" <;> simp [updateSendStats,timeout]
    · unfold updateSendStats
      split <;> rfl
  · refine uplink_measured (errors_measures rfl (fun stats error statusCode => ?_) fun stats statusCode => ?_) reached
    · simp only [updateSendStats,Option.isNone_some,Bool.false_eq_true,false_and,if_false]
      split <;> exact (get_countKey stats.errorCounts error.key key).trans (by simp)
    · unfold updateSendStats
      split <;> rfl
  · refine uplink_measured (statuses_measures rfl (fun stats => rfl) (fun stats statusCode failed => ?_)
      fun stats error statusCode => ?_) reached
    · rw [updateSendStats,if_neg fun accepted => failed accepted.2]
      exact (get_countKey stats.statusCounts _ key).trans (by simp)
    · simp only [updateSendStats,Option.isNone_some,Bool.false_eq_true,false_and,if_false]
      split <;> rfl

theorem uplink_tallied_retried : ∃ last, (uplink 1).run empty retriedRun = some last ∧ Tallied last :=
  ⟨_,rfl,uplink_tallied (Machine.reachable_run rfl (show (uplink 1).run empty retriedRun = some _ from rfl))⟩

end Statistics

end NodejsPool.Pool.Uplink
