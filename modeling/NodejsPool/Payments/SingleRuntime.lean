import NodejsPool.Payments.Progress
import NodejsPool.Payments.Refinement

/-! One payment runtime at a time, with crashes and restarts: no more than one batch is ever
open, and none is while a batch is reserved or a cycle is reported as complete. -/
namespace NodejsPool.Payments
open Async Program
open List (mem_map_of_mem mem_of_getElem?)

section Cycle

variable {log : Log}

theorem recoverPendingBatches_progress (config : Config) (log : Log) : (recoverPendingBatches config).Meets progress log
      (Returns fun after recovered => recovered = true → AllClosed after) := by
  apply returns_await trivial
  intro batches told
  apply (progresses (recoverBatches_quiet config batches _ told)).returns
  intro after recovered met yes
  refine ⟨batches.map Batch.id,met.1,?_⟩
  intro id member
  obtain ⟨batch,inside,rfl⟩ := List.mem_map.mp member
  exact met.2 yes batch inside

theorem runtimeRecovery_progress (config : Config) (log : Log) :
    (runtimeRecovery config).Meets progress log (Returns fun after recovered => recovered = true →
      AllClosed after) := by
  have failed (after : Log) : Returns (fun after recovered => recovered = true →
      AllClosed after) after (.ok false) := by
    intro same
    cases same
  apply returns_await trivial
  intro stopped _
  split
  · exact failed _
  · apply (progresses (ensureAdvisoryLock_meets _)).andReturns
    intro after locked _ _
    split
    · exact recoverPendingBatches_progress config after
    · exact failed after

def Finished (log : Log) : PlansResult → Prop
  | .done => AllClosed log
  | _ => True

theorem AllClosed.reserve {plan : BatchPlan} {id : ℕ} {after : Log} (settled : AllClosed log)
    (longer : ⟨.reserve plan,.ok id⟩::log <:+ after) (same : opened after = opened (⟨.reserve plan,.ok id⟩::log))
    (closed : Closed after id) : AllClosed after := by
  obtain ⟨ids,known,others⟩ := settled
  refine ⟨id::ids,?_,?_⟩
  · rw [same]
    exact congrArg (Option.map (id::·)) known
  · intro other member
    rcases List.mem_cons.mp member with rfl | old
    · exact closed
    · exact (others other old).extend ((suffix_log ..).trans longer)

private theorem runPlans_progress (config : Config) (plans : List BatchPlan) (log : Log) (settled : AllClosed log) :
    (runPlans config plans).Meets progress log (Returns Finished) := by
  induction plans generalizing log with
  | nil => exact settled
  | cons plan plans ih =>
    apply (progresses (verifyAdvisoryLock_meets log)).andReturns
    intro first exclusive longer kept
    have before := settled.same longer kept.1
    split
    · exact trivial
    · have reserving : (reserveBatch plan).Meets progress first (Returns fun after result =>
          ∃ id, after = ⟨.reserve plan,.ok id⟩::first ∧ result.1 = reservedBatch id plan) := by
        apply returns_await before
        intro batchId _
        exact ⟨batchId,rfl,rfl⟩
      apply reserving.andReturns
      intro second result _ reserved
      obtain ⟨id,rfl,same⟩ := reserved
      have tracks : Tracks (⟨.reserve plan,.ok id⟩::first) id result.1 := by
        rw [same]
        exact ⟨rfl,fun final => by cases final⟩
      apply (progresses (submitReservedBatch_quiet config tracks result.2)).andReturns
      intro third outcome extended met
      split
      next cleared => exact ih third (before.reserve extended met.1 (met.2 cleared))
      · exact trivial

theorem planBatches_quiet (config : Config) (log : Log) : (planBatches config).Meets quiet log (Returns anything) := by
  unfold planBatches
  split
  · exact trivial
  · exact returns_await trivial fun _ _ => trivial

private theorem advancePaymentCycle_progress (settled : AllClosed log) :
    advancePaymentCycle.Meets progress log (Returns anything) := by
  apply returns_await trivial
  intro stopped _
  split
  · exact trivial
  · apply returns_await trivial
    intro milliseconds _
    have still : AllClosed (⟨.now,.ok milliseconds⟩::⟨.isFailStop,.ok stopped⟩::log) :=
      settled.same ((suffix_log ..).trans (suffix_log ..)) rfl
    exact returns_perform still fun _ _ => trivial

private theorem cycleSteps_progress (config : Config) (log : Log) :
    (cycleSteps config).Meets progress log (Returns anything) := by
  apply returns_await trivial
  intro stopped _
  split
  · exact trivial
  · apply (progresses (ensureAdvisoryLock_meets _)).andReturns
    intro first locked _ _
    split
    · exact trivial
    · apply (runtimeRecovery_progress config first).andReturns
      intro second recovered _ settled
      split
      · exact trivial
      next yes =>
        have clean := settled (by simpa using yes)
        apply (progresses (planBatches_quiet config second)).andReturns
        intro third plans longer kept
        apply (runPlans_progress config plans third (clean.same longer kept.1)).andReturns
        intro fourth result _ finished
        split
        · exact advancePaymentCycle_progress finished
        · exact trivial

theorem runCycles_progress (config : Config) (cycles : ℕ) (log : Log) :
    (runCycles config cycles).Meets progress log (Returns anything) := by
  induction cycles generalizing log with
  | zero => exact (progresses (releaseAdvisoryLock_meets log)).returns fun _ _ _ => trivial
  | succ cycles ih =>
    have cycle : (runCycle config).Meets progress log (Returns anything) := by
      apply (cycleSteps_progress config log).tryCatch
      · intro _ _ _ _
        exact trivial
      · intro _ _ _ _
        exact trivial
    apply cycle.andReturns
    intro after _ _ _
    exact ih after

end Cycle

section Tables

variable {process : ℕ} {shared next : Shared} {db after : Db} {id : ℕ}

def ClosedIn (db : Db) (id : ℕ) : Prop :=
  ∃ batch ∈ db.payment_batches, batch.id = id ∧ batch.status ∉ openStatuses

theorem ClosedIn.not_open (keys : Keys db) (closed : ClosedIn db id) : ¬OpenIn db id := by
  intro isOpen
  obtain ⟨batch,member,same,shut⟩ := closed
  obtain ⟨other,inside,here,status⟩ := isOpen
  have equal : other = batch := batch_eq keys inside member (here.trans same.symm)
  exact shut (equal ▸ status)

theorem Edge.open {before after : Status} (edge : Edge before after) (status : after ∈ openStatuses) :
    before ∈ openStatuses := by
  cases edge with
  | hold => exact status
  | _ => simp [openStatuses] at status ⊢

theorem Edge.closed {before after : Status} (edge : Edge before after) (status : before ∉ openStatuses) :
    after ∉ openStatuses := fun after => status (edge.open after)

theorem follows_closed (follows : Follows Edge db after) (closed : ClosedIn db id) : ClosedIn after id := by
  obtain ⟨batch,member,same,shut⟩ := closed
  obtain ⟨next,inside,here,edge⟩ := follows batch member
  exact ⟨next,inside,here.trans same,edge.closed shut⟩

theorem follows_open (keys : Keys after) (follows : Follows Edge db after)
    (ids : after.payment_batches.map Batch.id = db.payment_batches.map Batch.id) (isOpen : OpenIn after id) :
    OpenIn db id := by
  obtain ⟨batch,member,rfl,status⟩ := isOpen
  have known : batch.id ∈ db.payment_batches.map Batch.id := ids ▸ mem_map_of_mem member
  obtain ⟨old,inside,same⟩ := List.mem_map.mp known
  obtain ⟨next,there,here,edge⟩ := follows old inside
  have equal : next = batch := batch_eq keys there member (here.trans same)
  subst equal
  exact ⟨old,inside,same,edge.open status⟩

theorem closedIn_setBatch {guard : Guard} {fields : Fields} {status : Status}
    (current : (db.payment_batches.countP fun row => row.id = id ∧ guard.admits row) = 1)
    (set : fields.status = some status) (closed : status ∉ openStatuses) :
    ClosedIn (setBatch db id guard fields) id := by
  obtain ⟨hit,member,here,admits⟩ := single_admitted current
  refine ⟨touch id guard fields hit,mem_map_of_mem member,(touch_id ..).trans here,?_⟩
  rw [touch,if_pos ⟨here,admits⟩]
  simpa [Batch.assign,set] using closed

private theorem setBatch_ids (db : Db) (id : ℕ) (guard : Guard) (fields : Fields) :
    (setBatch db id guard fields).payment_batches.map Batch.id = db.payment_batches.map Batch.id := by
  simp [setBatch,Function.comp_def]

theorem release_commits {batch : Batch} {releasedAt : ℕ}
    (yields : (releaseTransaction batch releasedAt).Yields db true after) : ClosedIn after batch.id := by
  obtain ⟨updated,first,updates,rest⟩ := Work.yields_bind yields
  obtain ⟨count,rfl,_⟩ := updateBatches_ok (Work.yields_statement updates)
  split at rest
  · obtain ⟨no,_⟩ := Work.yields_pure rest
    cases no
  next one =>
    obtain ⟨cleared,second,clears,rest⟩ := Work.yields_bind rest
    obtain ⟨rfl,rfl⟩ := Prod.mk.inj (Except.ok.inj (Work.yields_statement clears))
    obtain ⟨_,rfl⟩ := Work.yields_pure rest
    have current := count.symm.trans (not_not.mp one)
    have closed : ClosedIn (setBatch db batch.id (releaseGuard batch.status) (releaseFields releasedAt)) batch.id :=
      closedIn_setBatch current rfl (by decide)
    obtain ⟨row,member,here,shut⟩ := closed
    exact ⟨row,member,here,shut⟩

theorem performed_ids {event : Event signature} (performed : Performed process shared event next) :
    (next.db.payment_batches.map Batch.id = shared.db.payment_batches.map Batch.id ∧
      ∀ plan id, event ≠ ⟨.reserve plan,.ok id⟩) ∨
      ∃ plan outcome, event = ⟨.reserve plan,outcome⟩ ∧ next.db = afterReserve plan shared.db ∧
        ∀ reply, outcome = .ok reply → reply = shared.db.nextBatchId := by
  cases performed with
  | silent memory lastPaymentCycle silent =>
    refine .inl ⟨rfl,?_⟩
    intro plan id same
    subst same
    exact silent.elim
  | update updated =>
    obtain ⟨_,rfl,_⟩ := updateBatches_ok updated
    exact .inl ⟨setBatch_ids ..,fun _ _ same => by cases same⟩
  | @reserve plan outcome batchId db yields acknowledged =>
    obtain ⟨rfl,rfl,_⟩ := reserve_writes yields
    exact .inr ⟨plan,outcome,rfl,rfl,acknowledged⟩
  | finalize yields =>
    obtain ⟨rfl,_⟩ := finalize_writes yields
    exact .inl ⟨setBatch_ids ..,fun _ _ same => by cases same⟩
  | @release batch releasedAt outcome result db yields =>
    refine .inl ⟨?_,fun _ _ same => by cases same⟩
    obtain ⟨updated,first,updates,rest⟩ := Work.yields_bind yields
    obtain ⟨_,rfl,_⟩ := updateBatches_ok (Work.yields_statement updates)
    split at rest
    · obtain ⟨_,rfl⟩ := Work.yields_pure rest
      exact setBatch_ids ..
    · obtain ⟨cleared,second,clears,rest⟩ := Work.yields_bind rest
      obtain ⟨rfl,rfl⟩ := Prod.mk.inj (Except.ok.inj (Work.yields_statement clears))
      obtain ⟨_,rfl⟩ := Work.yields_pure rest
      exact setBatch_ids ..
  | unlock yields =>
    obtain ⟨rfl,_⟩ := unlock_writes yields
    exact .inl ⟨setBatch_ids ..,fun _ _ same => by cases same⟩
  | transfer | getLock | releaseLock => exact .inl ⟨rfl,fun _ _ same => by cases same⟩

private theorem attemptTransaction_cycle {A : Type} {answer : Answer} {work : LedgerWork A} {outcome : Except Failure A}
    (answered : attemptTransaction answer work shared = some (outcome,next)) :
    next.lastPaymentCycle = shared.lastPaymentCycle := by
  rcases attemptTransaction_cases answered with ⟨_,_,_,rfl,_⟩ | ⟨rfl,_⟩ <;> rfl

theorem performed_cycle {call : Call} {answer : Answer} {outcome : signature.Outcome call}
    (answered : perform process shared answer call = some (outcome,next)) :
    next.lastPaymentCycle = shared.lastPaymentCycle ∨ ∃ seconds, call = .setLastPaymentCycle seconds := by
  cases call with
  | setLastPaymentCycle seconds => exact .inr ⟨seconds,rfl⟩
  | wallet rpc =>
    refine .inl ?_
    cases answer with
    | wallet reply =>
      simp only [perform] at answered
      split at answered
      · obtain ⟨_,rfl⟩ := Prod.mk.inj (Option.some.inj answered)
        cases rpc <;> rfl
      · cases answered
    | _ => cases answered
  | updateBatch id fields guard =>
    refine .inl ?_
    simp only [perform,attemptUpdate] at answered
    split at answered
    · obtain ⟨_,rfl⟩ := Prod.mk.inj (Option.some.inj answered)
      rfl
    · rcases attempt_cases answered with ⟨rfl,_⟩ | ⟨rfl,_⟩ <;> rfl
  | reserve plan => exact .inl (attemptTransaction_cycle answered)
  | finalize batch items hash txKey finalizedAt => exact .inl (attemptTransaction_cycle answered)
  | release batch releasedAt => exact .inl (attemptTransaction_cycle answered)
  | unlock batchId confirm releasedAt => exact .inl (attemptTransaction_cycle answered)
  | now =>
    cases answer with
    | time milliseconds =>
      obtain ⟨_,rfl⟩ := Prod.mk.inj (Option.some.inj answered)
      exact .inl rfl
    | _ => cases answered
  | sleep milliseconds | isFailStop | enterFailStop | lockConnection | setLockConnection held =>
    obtain ⟨_,rfl⟩ := Prod.mk.inj (Option.some.inj answered)
    exact .inl rfl
  | _ =>
    refine .inl ?_
    rcases attempt_cases answered with ⟨rfl,_⟩ | ⟨rfl,_⟩ <;> rfl

theorem occurred_cycle {occurrence : Occurrence} (occurred : occur occurrence shared = some next) :
    next.lastPaymentCycle = shared.lastPaymentCycle := by
  cases occurrence with
  | addBalance added =>
    simp only [occur] at occurred
    split at occurred
    · cases occurred
    · cases occurred
      rfl
  | _ =>
    cases occurred
    rfl

end Tables

section Knowledge

variable {process : ℕ} {shared next : Shared} {log : Log}

structure Aware (shared : Shared) (log : Log) : Prop where
  opened : ∀ ids, opened log = some ids → ∀ id, OpenIn shared.db id → id ∈ ids
  closed : ∀ id, Closed log id → ClosedIn shared.db id

theorem aware_nil (shared : Shared) : Aware shared [] := by
  constructor
  · intro ids known
    cases known
  · intro id closed
    obtain ⟨event,member,_⟩ := closed
    cases member

theorem Aware.none_open (aware : Aware shared log) (keys : Keys shared.db) (settled : AllClosed log) (id : ℕ) :
    ¬OpenIn shared.db id := by
  intro isOpen
  obtain ⟨ids,known,closed⟩ := settled
  exact (aware.closed id (closed id (aware.opened ids known id isOpen))).not_open keys isOpen

theorem identifies_truth {call : Call} {outcome : signature.Outcome call}
    (performed : Performed process shared ⟨call,outcome⟩ next) : identifies call outcome := by
  unfold identifies
  split
  next id row =>
    cases performed with
    | silent memory lastPaymentCycle silent =>
      have found : selectBatch shared.db id = some row := silent.symm
      simpa using List.find?_some found
  next rows =>
    cases performed with
    | silent memory lastPaymentCycle silent =>
      intro row member
      have chosen : row ∈ selectOpenBatches shared.db := silent ▸ member
      simpa using (List.mem_filter.mp ((List.mem_insertionSort _).mp chosen)).2
  · exact trivial

theorem closes_truth {call : Call} {answer : Answer} {outcome : signature.Outcome call} {id : ℕ}
    (answered : perform process shared answer call = some (outcome,next)) (closing : closes ⟨call,outcome⟩ = some id) :
    ClosedIn next.db id := by
  unfold closes at closing
  split at closing
  next batch items hash txKey finalizedAt transactionId same =>
    obtain ⟨rfl,reply⟩ := Event.mk.inj same
    obtain rfl := eq_of_heq reply
    cases closing
    rcases attemptTransaction_cases answered with ⟨value,db,yields,rfl,_⟩ | ⟨_,failure,failed⟩
    · obtain ⟨rfl,finalizes⟩ := finalize_writes yields
      exact closedIn_setBatch finalizes.current rfl (by decide)
    · cases failed
  next batch releasedAt same =>
    obtain ⟨rfl,reply⟩ := Event.mk.inj same
    obtain rfl := eq_of_heq reply
    cases closing
    rcases attemptTransaction_cases answered with ⟨value,db,yields,rfl,told⟩ | ⟨_,failure,failed⟩
    · obtain rfl := told true rfl
      exact release_commits yields
    · cases failed
  next other row same =>
    obtain ⟨rfl,reply⟩ := Event.mk.inj same
    obtain rfl := eq_of_heq reply
    split at closing
    next final =>
      obtain rfl := Option.some.inj closing
      rcases attempt_cases answered with ⟨rfl,told⟩ | ⟨_,failure,failed⟩
      · have found : selectBatch next.db other = some row := (told (some row) rfl).symm
        refine ⟨row,List.mem_of_find?_eq_some found,by simpa using List.find?_some found,?_⟩
        rw [final]
        decide
      · cases failed
    · cases closing
  · cases closing

private theorem opened_truth {event : Event signature} (performed : Performed process shared event next)
    (fewer : ∀ id, OpenIn next.db id → OpenIn shared.db id) (unreserved : ∀ plan id, event ≠ ⟨.reserve plan,.ok id⟩)
    (before : ∀ ids, opened log = some ids → ∀ id, OpenIn shared.db id → id ∈ ids) :
    ∀ ids, opened (event::log) = some ids → ∀ id, OpenIn next.db id → id ∈ ids := by
  intro ids known id isOpen
  change openedBy (opened log) event = some ids at known
  unfold openedBy at known
  split at known
  next rows =>
    cases known
    cases performed with
    | silent memory lastPaymentCycle silent =>
      have read : rows = selectOpenBatches shared.db := silent
      obtain ⟨batch,member,rfl,status⟩ := fewer id isOpen
      apply mem_map_of_mem
      rw [read]
      exact (List.mem_insertionSort _).mpr (List.mem_filter.mpr ⟨member,by simpa using status⟩)
  next plan reserved => exact (unreserved plan reserved rfl).elim
  next plan failure => cases known
  · exact before ids known id (fewer id isOpen)

end Knowledge

section Runs

variable {shared next : Shared} {log : Log} {process : Runner} {call : Call} {world after : system.World} {index : ℕ}

def OneOpen (db : Db) : Prop := ∀ left right, OpenIn db left → OpenIn db right → left = right

theorem runtime_step {process : ℕ} {config : Config} {cycles : ℕ} {answer : Answer}
    {outcome : signature.Outcome call} (ledger : Ledger shared) (told : Told shared log) (aware : Aware shared log)
    (one : OneOpen shared.db) (allowed : (contractOf (.payments config cycles)).allowed log call)
    (ordered : inOrder log call) (answered : perform process shared answer call = some (outcome,next)) :
    Aware next (⟨call,outcome⟩::log) ∧ OneOpen next.db := by
  have done := performed answered
  have keys := (performed_ledger ledger told allowed done).keys
  have follows : Follows Edge shared.db next.db := by
    rcases performed_step ledger told allowed done with same | step
    · rw [same]
      exact fun batch member => ⟨batch,member,rfl,.hold _⟩
    · cases step with
      | payments step => exact runtime_follows step
  have closed (id : ℕ) (shut : Closed (⟨call,outcome⟩::log) id) : ClosedIn next.db id := by
    obtain ⟨event,member,closing⟩ := shut
    rcases List.mem_cons.mp member with rfl | old
    · exact closes_truth answered closing
    · exact follows_closed follows (aware.closed id ⟨event,old,closing⟩)
  rcases performed_ids done with ⟨ids,unreserved⟩ | ⟨plan,result,same,reserved,acknowledged⟩
  · have fewer (id : ℕ) (isOpen : OpenIn next.db id) : OpenIn shared.db id := follows_open keys follows ids isOpen
    refine ⟨⟨opened_truth done fewer unreserved aware.opened,closed⟩,?_⟩
    intro left right left_open right_open
    exact one left right (fewer left left_open) (fewer right right_open)
  · have only (id : ℕ) (isOpen : OpenIn next.db id) : id = shared.db.nextBatchId := by
      obtain ⟨rfl,_⟩ := Event.mk.inj same
      rw [reserved,openIn_reserve] at isOpen
      rcases isOpen with new | before
      · exact new
      · exact (aware.none_open ledger.keys ordered id before).elim
    refine ⟨⟨?_,closed⟩,?_⟩
    · intro ids known id isOpen
      rw [same] at known
      change openedBy (opened log) _ = _ at known
      cases result with
      | error failure => cases known
      | ok reply =>
        obtain ⟨before,_,rfl⟩ := Option.map_eq_some_iff.mp known
        rw [only id isOpen,acknowledged reply rfl]
        exact List.mem_cons_self
    · intro left right left_open right_open
      exact (only left left_open).trans (only right right_open).symm

abbrev Runner := Process system.Job signature

def Running (process : Runner) : Prop := ∃ call resume, process.rest = some (.call call resume)

def single (world : system.World) : system.Label → Prop
  | .start job => (∃ config cycles, job = .payments config cycles) ∧ ∀ process ∈ world.processes, ¬Running process
  | _ => True

structure Single (world : system.World) : Prop where
  one : OneOpen world.shared.db
  lone : ∀ (left right : ℕ) (first second : Runner), world.processes[left]? = some first →
    world.processes[right]? = some second →
    Running first → Running second → left = right
  jobs : ∀ process ∈ world.processes, ∃ config cycles, process.past.job = .payments config cycles
  ordered : ∀ process ∈ world.processes, ∀ rest, process.rest = some rest →
    rest.Meets progress process.past.history fun _ _ => True
  aware : ∀ process ∈ world.processes, Running process → Aware world.shared process.past.history

theorem Single.pending (inv : Single world)
    {resume : signature.Outcome call → Task Unit} (member : process ∈ world.processes)
    (rest : process.rest = some (.call call resume)) : inOrder process.past.history call :=
  (inv.ordered process member _ rest).1

theorem single_initial (start : (system.machine Fresh).initial world) : Single world := by
  obtain ⟨fresh,empty⟩ := start
  have none (process : Runner) : process ∉ world.processes := by simp [empty]
  refine ⟨?_,?_,fun process member => (none process member).elim,fun process member => (none process member).elim,
    fun process member => (none process member).elim⟩
  · intro left right isOpen
    obtain ⟨batch,member,_⟩ := isOpen
    rw [fresh.batches] at member
    cases member
  · intro left right first second found
    exact (none first (mem_of_getElem? found)).elim

theorem single_start (inv : Single world) {job : Job} (alone : single world (.start job)) :
    Single {world with processes := world.processes ++ [⟨⟨job,[]⟩,some (runJob job)⟩]} := by
  obtain ⟨⟨config,cycles,rfl⟩,idle⟩ := alone
  have last (index : ℕ) (process : Runner)
      (found : (world.processes ++ [⟨⟨.payments config cycles,[]⟩,some (runJob (.payments config cycles))⟩])[index]? =
        some process) (running : Running process) : index = world.processes.length := by
    rcases lt_or_ge index world.processes.length with before | after
    · rw [List.getElem?_append_left before] at found
      exact (idle process (mem_of_getElem? found) running).elim
    · have bound := (List.getElem?_eq_some_iff.mp found).1
      rw [List.length_append,List.length_singleton] at bound
      omega
  refine ⟨inv.one,?_,?_,?_,?_⟩
  · intro left right first second found other running again
    exact (last left first found running).trans (last right second other again).symm
  · intro process member
    rcases List.mem_append.mp member with old | new
    · exact inv.jobs process old
    · rw [List.mem_singleton.mp new]
      exact ⟨config,cycles,rfl⟩
  · intro process member rest runs
    rcases List.mem_append.mp member with old | new
    · exact inv.ordered process old rest runs
    · obtain rfl := List.mem_singleton.mp new
      cases runs
      exact (runCycles_progress config cycles []).imp fun _ _ _ => trivial
  · intro process member running
    rcases List.mem_append.mp member with old | new
    · exact (idle process old running).elim
    · rw [List.mem_singleton.mp new]
      exact aware_nil _

private theorem running_set {processes : List Runner} {place : ℕ} {old new : Runner}
    (found : processes[index]? = some old) (still : Running new → Running old)
    (there : (processes.set index new)[place]? = some process) (running : Running process) :
    ∃ before, processes[place]? = some before ∧ Running before ∧ (place = index ∨ process = before) := by
  by_cases here : index = place
  · subst here
    obtain ⟨bound,_⟩ := List.getElem?_eq_some_iff.mp found
    rw [List.getElem?_set_self bound] at there
    cases there
    exact ⟨old,found,still running,.inl rfl⟩
  · rw [List.getElem?_set_ne here] at there
    exact ⟨process,there,running,.inr rfl⟩

theorem single_set (inv : Single world) {old new : Runner}
    (found : world.processes[index]? = some old) (still : Running new → Running old)
    (job : new.past.job = old.past.job) (one : OneOpen shared.db)
    (ordered : ∀ rest, new.rest = some rest → rest.Meets progress new.past.history fun _ _ => True)
    (aware : Running new → Aware shared new.past.history)
    (others : ∀ (place : ℕ) (process : Runner), world.processes[place]? = some process → place ≠ index →
      Running process → Aware shared process.past.history) : Single ⟨shared,world.processes.set index new⟩ := by
  refine ⟨one,?_,?_,?_,?_⟩
  · intro left right first second left_found right_found left_runs right_runs
    obtain ⟨former,left_there,left_ran,_⟩ := running_set found still left_found left_runs
    obtain ⟨latter,right_there,right_ran,_⟩ := running_set found still right_found right_runs
    exact inv.lone left right former latter left_there right_there left_ran right_ran
  · intro process member
    rcases List.mem_or_eq_of_mem_set member with before | rfl
    · exact inv.jobs process before
    · rw [job]
      exact inv.jobs old (mem_of_getElem? found)
  · intro process member rest runs
    rcases List.mem_or_eq_of_mem_set member with before | rfl
    · exact inv.ordered process before rest runs
    · exact ordered rest runs
  · intro process member running
    obtain ⟨place,there⟩ := List.mem_iff_getElem?.mp member
    by_cases here : index = place
    · subst here
      obtain ⟨bound,_⟩ := List.getElem?_eq_some_iff.mp found
      have same : (world.processes.set index new)[index]? = some new := List.getElem?_set_self bound
      cases same.symm.trans there
      exact aware running
    · have kept : (world.processes.set index new)[place]? = world.processes[place]? := List.getElem?_set_ne here
      exact others place process (kept.symm.trans there) (Ne.symm here) running

private theorem single_act (lawful : System.Lawful contractOf Inv world) (inv : Single world)
    {answer : Answer} (moved : system.act world index answer = some after) : Single after := by
  obtain ⟨process,call,resume,outcome,shared,found,rest,answered,rfl⟩ := System.act_some moved
  have inside := mem_of_getElem? found
  have running : Running process := ⟨call,resume,rest⟩
  obtain ⟨config,cycles,job⟩ := inv.jobs process inside
  have allowed : (contractOf (.payments config cycles)).allowed process.past.history call :=
    job ▸ (lawful.meets process inside _ rest).1
  have told := lawful.invariant.told process.past (mem_map_of_mem inside)
  obtain ⟨aware,one⟩ := runtime_step lawful.invariant.ledger told (inv.aware process inside running) inv.one allowed
    (inv.pending inside rest) answered
  refine single_set inv found ?_ ?_ one ?_ ?_ ?_
  · intro _
    exact running
  · rfl
  · intro next runs
    cases runs
    exact (inv.ordered process inside _ rest).2 outcome (identifies_truth (performed answered))
  · intro _
    exact aware
  · intro place other there away runs
    exact (away (inv.lone place index other process there found runs running)).elim

private theorem single_step {label : system.Label}
    (lawful : System.Lawful contractOf Inv world) (inv : Single world) (may : single world label)
    (moved : (system.machine Fresh).step world label = some after) : Single after := by
  cases label with
  | start job =>
    cases moved
    exact single_start inv may
  | act index answer => exact single_act lawful inv moved
  | crash index =>
    obtain ⟨process,found,moved⟩ := Option.bind_eq_some_iff.mp moved
    cases moved
    have stopped : ¬Running {process with rest := none} := by
      intro running
      obtain ⟨call,resume,none⟩ := running
      cases none
    apply single_set inv found (fun running => (stopped running).elim) rfl inv.one
    · intro rest runs
      cases runs
    · intro running
      exact (stopped running).elim
    · intro place other there _ running
      exact inv.aware other (mem_of_getElem? there) running
  | occur occurrence =>
    obtain ⟨shared,occurred,rfl⟩ := Option.map_eq_some_iff.mp moved
    have batches := (occurred_tables occurred).1
    have same (id : ℕ) : OpenIn shared.db id ↔ OpenIn world.shared.db id := by rw [OpenIn,batches,OpenIn]
    refine ⟨?_,inv.lone,inv.jobs,inv.ordered,?_⟩
    · intro left right left_open right_open
      exact inv.one left right ((same left).mp left_open) ((same right).mp right_open)
    · intro process member running
      obtain ⟨opened,closed⟩ := inv.aware process member running
      refine ⟨fun ids known id isOpen => opened ids known id ((same id).mp isOpen),?_⟩
      intro id shut
      obtain ⟨batch,inside,here,status⟩ := closed id shut
      exact ⟨batch,batches ▸ inside,here,status⟩

private theorem single_reachable (reachable : (system.machine Fresh).ReachableBy single world) :
    (system.machine Fresh).Reachable world ∧ Single world := by
  apply reachable.invariant fun world => (system.machine Fresh).Reachable world ∧ Single world
  · intro world start
    exact ⟨.initial start,single_initial start⟩
  · intro world after label inv may moved
    exact ⟨.step inv.1 trivial moved,single_step (rule.lawful inv.1) inv.2 may moved⟩

private theorem Single.none_open (inv : Single world) (keys : Keys world.shared.db)
    {resume : signature.Outcome call → Task Unit} (member : process ∈ world.processes)
    (rest : process.rest = some (.call call resume)) (settled : inOrder process.past.history call →
      AllClosed process.past.history)
    (id : ℕ) : ¬OpenIn world.shared.db id :=
  (inv.aware process member ⟨call,resume,rest⟩).none_open keys (settled (inv.pending member rest)) id

/-- At every moment of a run with one runtime at a time, whatever crashes, restarts and wallet
replies it has: one batch at most is open, none is while a reservation or the report of a
complete cycle is awaited, and no step adds a batch or moves the payment cycle while one is. -/
theorem single_runtime {world : system.World} (reachable : (system.machine Fresh).ReachableBy single world) :
    OneOpen world.shared.db ∧
    (∀ process ∈ world.processes, ∀ call resume, process.rest = some (.call call resume) →
      ((∃ plan, call = .reserve plan) ∨ ∃ seconds, call = .setLastPaymentCycle seconds) →
        ∀ id, ¬OpenIn world.shared.db id) ∧
    ∀ label after, (system.machine Fresh).step world label = some after →
      (∃ batch ∈ after.shared.db.payment_batches, batch.id ∉ world.shared.db.payment_batches.map Batch.id) ∨
        after.shared.lastPaymentCycle ≠ world.shared.lastPaymentCycle → ∀ id, ¬OpenIn world.shared.db id := by
  obtain ⟨ran,inv⟩ := single_reachable reachable
  have keys := (rule.lawful ran).invariant.ledger.keys
  have pending : ∀ process ∈ world.processes, ∀ call resume, process.rest = some (.call call resume) →
      ((∃ plan, call = .reserve plan) ∨ ∃ seconds, call = .setLastPaymentCycle seconds) →
        ∀ id, ¬OpenIn world.shared.db id := by
    intro process member call resume rest kind
    apply inv.none_open keys member rest
    intro ordered
    rcases kind with ⟨plan,rfl⟩ | ⟨seconds,rfl⟩ <;> exact ordered
  refine ⟨inv.one,pending,?_⟩
  intro label after moved changed
  cases label with
  | start job =>
    cases moved
    rcases changed with ⟨batch,member,new⟩ | differs
    · exact (new (mem_map_of_mem member)).elim
    · exact (differs rfl).elim
  | crash index =>
    obtain ⟨process,_,moved⟩ := Option.bind_eq_some_iff.mp moved
    cases moved
    rcases changed with ⟨batch,member,new⟩ | differs
    · exact (new (mem_map_of_mem member)).elim
    · exact (differs rfl).elim
  | occur occurrence =>
    obtain ⟨shared,occurred,rfl⟩ := Option.map_eq_some_iff.mp moved
    rcases changed with ⟨batch,member,new⟩ | differs
    · exact (new (mem_map_of_mem ((occurred_tables occurred).1 ▸ member))).elim
    · exact (differs (occurred_cycle occurred)).elim
  | act index answer =>
    obtain ⟨process,call,resume,outcome,shared,found,rest,answered,rfl⟩ := System.act_some moved
    have inside := mem_of_getElem? found
    rcases changed with ⟨batch,member,new⟩ | differs
    · rcases performed_ids (performed answered) with ⟨ids,_⟩ | ⟨plan,result,same,_⟩
      · exact (new (ids ▸ mem_map_of_mem member)).elim
      · exact pending process inside call resume rest (.inl ⟨plan,(Event.mk.inj same).1⟩)
    · rcases performed_cycle answered with same | report
      · exact (differs same).elim
      · exact pending process inside call resume rest (.inr report)

def starts : system.Label → Bool
  | .start _ => true
  | _ => false

private theorem single_acts (reachable : (system.machine Fresh).ReachableBy single world)
    {labels : List system.Label} (actions : labels.any starts = false)
    (ran : (system.machine Fresh).run world labels = some after) : (system.machine Fresh).ReachableBy single after := by
  refine reachable.run ?_ ran
  intro label member world
  have action := List.any_eq_false.mp actions label member
  cases label with
  | start job => exact (action rfl).elim
  | _ => exact trivial

def crashedLabels : List system.Label := acts 0 (planAnswers ++ claimAnswers) ++ [.crash 0,.occur .dropLock]

theorem single_runtime_restarted : ∃ world, (system.machine Fresh).ReachableBy single world ∧
    world.processes.length = 2 ∧ OpenIn world.shared.db 1 ∧ ∀ id, OpenIn world.shared.db id → id = 1 := by
  let job : Job := .payments sampleConfig 1
  let fresh : system.World := ⟨sampleStart,[]⟩
  let started : system.World := ⟨sampleStart,[⟨⟨job,[]⟩,some (runJob job)⟩]⟩
  have begun : (system.machine Fresh).step fresh (.start job) = some started := rfl
  have ended : ((system.machine Fresh).run started crashedLabels).any (fun world =>
      decide (OpenIn world.shared.db 1) && decide (world.processes.length = 1) &&
        world.processes.all fun process => process.rest.isNone) = true := by
    decide +kernel
  obtain ⟨crashed,ran,facts⟩ := (Option.any_eq_true _ _).mp ended
  simp only [Bool.and_eq_true,decide_eq_true_eq] at facts
  obtain ⟨⟨isOpen,lone⟩,gone⟩ := facts
  have idle (process : Runner) (member : process ∈ crashed.processes) : ¬Running process := by
    intro running
    obtain ⟨call,resume,rest⟩ := running
    have none := List.all_eq_true.mp gone process member
    rw [rest] at none
    cases none
  have alone : single fresh (.start job) := ⟨⟨_,_,rfl⟩,fun process member => by cases member⟩
  have again : single crashed (.start job) := ⟨⟨_,_,rfl⟩,idle⟩
  have reached : (system.machine Fresh).ReachableBy single fresh := .initial ⟨sampleStart_fresh,rfl⟩
  have crashing := single_acts (reached.step alone begun) (by decide +kernel) ran
  have restarted := crashing.step again (rfl : (system.machine Fresh).step crashed (.start job) = some
    {crashed with processes := crashed.processes ++ [⟨⟨job,[]⟩,some (runJob job)⟩]})
  refine ⟨_,restarted,by simp [lone],isOpen,?_⟩
  intro id other
  exact (single_runtime restarted).1 id 1 other isOpen

end Runs
end NodejsPool.Payments
