import NodejsPool.Pool.WorkerIds

/-! Whether running workers can produce the same extranonce, over whole runs of registrations. -/
namespace NodejsPool.Pool.WorkerIds
open Async Entries Hex Option

variable {maxPoolWorkerNum : ℤ} {world next : World} {label : Label} {key other : ℕ × ℕ} {phase : Phase}
    {worker : Worker}

theorem running_advance_self : (world.advance key phase).running key = phase.worker? := by
  rw [World.running,World.advance,get_put_self]
  rfl

theorem running_advance_other (apart : other ≠ key) :
    (world.advance key phase).running other = world.running other := by
  rw [World.running,World.advance,get_put_other apart]
  rfl

private theorem running_exit_other (apart : other ≠ key) : (world.exit key).running other = world.running other := by
  rw [World.running,World.exit,get_erase_other apart]
  rfl

theorem running_advance (idle : phase.worker? = none)
    (running : (world.advance key phase).running other = some worker) :
    world.running other = some worker := by
  by_cases same : other = key
  · rw [same,running_advance_self,idle] at running
    cases running
  · rwa [running_advance_other same] at running

theorem running_inserted {rows : List ((ℕ × ℕ) × ℕ)}
    (running : ({ world with poolWorkers := rows }.advance key .looking).running other = some worker) :
    world.running other = some worker :=
  running_advance rfl running

theorem running_exit (running : (world.exit key).running other = some worker) : world.running other = some worker := by
  by_cases same : other = key
  · rw [same,World.running,World.exit,get_erase_self] at running
    cases running
  · rwa [running_exit_other same] at running

inductive Moved (maxPoolWorkerNum : ℤ) (world : World) : Label → World → Prop
  | waits (label : Label) (key : ℕ × ℕ) (phase : Phase) (early : ∀ key, label ≠ .selectMaxId key)
    (idle : phase.worker? = none) (row : ∀ id, phase = .found id → get world.poolWorkers key = some id) :
      Moved maxPoolWorkerNum world label (world.advance key phase)
  | inserts (key : ℕ × ℕ) (id : ℕ) (positive : 0 < id) (fresh : id ∉ world.poolWorkers.map Prod.snd)
      (absent : get world.poolWorkers key = none) :
      Moved maxPoolWorkerNum world (.insert key id)
      ({ world with poolWorkers := put world.poolWorkers key id }.advance key .looking)
  | exits (label : Label) (key : ℕ × ℕ) (idle : ∀ key, label = .selectMaxId key →
    starting maxPoolWorkerNum world key = none) :
      Moved maxPoolWorkerNum world label (world.exit key)
  | starts (key : ℕ × ℕ) (id : ℕ) (worker : Worker) (row : get world.processes key = some (.found id))
      (valid : getUniqueWorkerID maxPoolWorkerNum id world.maxId = some worker) :
      Moved maxPoolWorkerNum world (.selectMaxId key) (world.advance key (.running worker))

theorem step_moved (moved : step maxPoolWorkerNum world label = some next) :
    Moved maxPoolWorkerNum world label next := by
  cases label with
  | fork key =>
    simp only [step,ite_none_right_eq_some] at moved
    cases moved.2
    exact .waits _ key .looking (by simp) rfl (by simp)
  | exit key =>
    cases moved
    exact .exits _ key (by simp)
  | selectId key =>
    simp only [step,ite_none_right_eq_some] at moved
    cases moved.2
    cases row : get world.poolWorkers key with
    | none => exact .waits _ key .inserting (by simp) rfl (by simp)
    | some id =>
      refine .waits _ key (.found id) (by simp) rfl ?_
      rintro _ ⟨⟩
      exact row
  | insert key id =>
    simp only [step,ite_none_right_eq_some] at moved
    obtain ⟨_,moved⟩ := moved
    split at moved
    · cases moved
      exact .waits _ key .looking (by simp) rfl (by simp)
    next absent =>
      obtain ⟨⟨positive,fresh⟩,moved⟩ := ite_none_right_eq_some.mp moved
      cases moved
      exact .inserts key id positive fresh (by simpa using absent)
  | selectMaxId key =>
    simp only [step] at moved
    split at moved
    next id row =>
      split at moved
      next worker valid =>
        cases moved
        simp only [starting,row] at valid
        exact .starts key id worker row valid
      next invalid =>
        cases moved
        refine .exits _ key ?_
        rintro _ ⟨⟩
        exact invalid
    · cases moved

theorem starting_found {id : ℕ} (row : get world.processes key = some (.found id)) :
    starting maxPoolWorkerNum world key = getUniqueWorkerID maxPoolWorkerNum id world.maxId := by
  simp only [starting,row]

theorem Moved.distinct (moved : Moved maxPoolWorkerNum world label next)
    (distinct : (world.processes.map Prod.fst).Nodup) :
    (next.processes.map Prod.fst).Nodup := by
  cases moved with
  | exits _ key => exact erase_distinct distinct
  | _ => exact put_distinct distinct

private theorem mem_running (distinct : (world.processes.map Prod.fst).Nodup) :
    world.running key = some worker ↔ ∃ phase, (key,phase) ∈ world.processes ∧ phase.worker? = some worker := by
  rw [World.running,bind_eq_some_iff]
  constructor
  · rintro ⟨phase,found,runs⟩
    exact ⟨phase,mem_of_get found,runs⟩
  · rintro ⟨phase,member,runs⟩
    exact ⟨phase,get_of_mem distinct member,runs⟩

theorem RangesDisjoint.kept (disjoint : RangesDisjoint world)
    (kept : ∀ other worker, next.running other = some worker → world.running other = some worker) :
    RangesDisjoint next :=
  fun key other worker neighbor different running beside =>
    disjoint key other worker neighbor different (kept _ _ running) (kept _ _ beside)

private theorem rangesDisjoint_start (distinct : (world.processes.map Prod.fst).Nodup) (disjoint : RangesDisjoint world)
    (starts : starting maxPoolWorkerNum world key = some worker) :
    RangesDisjoint (world.advance key (.running worker)) ↔ StartsApart maxPoolWorkerNum world (.selectMaxId key) := by
  constructor
  · intro still started starting process member different neighbor runs
    cases starts.symm.trans starting
    have beside : world.running process.1 = some neighbor := (mem_running distinct).mpr ⟨process.2,member,runs⟩
    have runs_still : (world.advance key (.running worker)).running process.1 = some neighbor :=
      (running_advance_other different).trans beside
    exact Worker.disjoint_iff.mp (still key process.1 worker neighbor different.symm running_advance_self runs_still)
  · intro apart
    have fresh : ∀ other neighbor, other ≠ key → (world.advance key (.running worker)).running other = some neighbor →
        worker.Disjoint neighbor := by
      intro other neighbor different runs
      rw [running_advance_other different] at runs
      obtain ⟨phase,member,runs⟩ := (mem_running distinct).mp runs
      exact Worker.disjoint_iff.mpr (apart worker starts (other,phase) member different neighbor runs)
    intro first second one two different running beside
    by_cases here : first = key
    · subst here
      cases running.symm.trans running_advance_self
      exact fresh second two different.symm beside
    · by_cases there : second = key
      · subst there
        cases beside.symm.trans running_advance_self
        exact (fresh first one here running).symm
      · rw [running_advance_other here] at running
        rw [running_advance_other there] at beside
        exact disjoint first second one two different running beside

theorem step_disjoint (distinct : (world.processes.map Prod.fst).Nodup) (disjoint : RangesDisjoint world)
    (moved : step maxPoolWorkerNum world label = some next) :
    RangesDisjoint next ↔ StartsApart maxPoolWorkerNum world label := by
  cases step_moved moved with
  | waits _ key phase early idle _ =>
    refine iff_of_true (disjoint.kept fun other worker => running_advance idle) ?_
    cases label with
    | selectMaxId other => exact absurd rfl (early other)
    | _ => trivial
  | inserts key id _ _ _ =>
    exact iff_of_true (disjoint.kept fun other worker running => running_inserted running) trivial
  | exits _ key idle =>
    refine iff_of_true (disjoint.kept fun other worker => running_exit) ?_
    cases label with
    | selectMaxId other =>
      intro worker starts
      rw [idle other rfl] at starts
      cases starts
    | _ => trivial
  | starts key id worker row valid => exact rangesDisjoint_start distinct disjoint ((starting_found row).trans valid)

theorem ranges_kept (reachable : (registration maxPoolWorkerNum).ReachableBy (StartsApart maxPoolWorkerNum) world) :
    (world.processes.map Prod.fst).Nodup ∧ RangesDisjoint world := by
  refine reachable.invariant (fun world => (world.processes.map Prod.fst).Nodup ∧ RangesDisjoint world) ?_ ?_
  · rintro _ rfl
    refine ⟨List.nodup_nil,?_⟩
    intro key other worker neighbor different running
    cases running
  · intro world next label ⟨distinct,disjoint⟩ apart moved
    exact ⟨(step_moved moved).distinct distinct,(step_disjoint distinct disjoint moved).mpr apart⟩

/-- While every worker starts apart from those that run, no two running workers can produce the same
extranonce, a start that does not breaks this, and every extranonce is a number of 16 bits in four digits. -/
theorem ranges_disjoint (maxPoolWorkerNum : ℤ) {world : World}
    (reachable : (registration maxPoolWorkerNum).ReachableBy (StartsApart maxPoolWorkerNum) world) :
    RangesDisjoint world ∧
    (∀ label next, step maxPoolWorkerNum world label = some next →
      (RangesDisjoint next ↔ StartsApart maxPoolWorkerNum world label)) ∧
    ∀ key worker, world.running key = some worker → ∀ id ∈ worker.freeEthExtranonces,
      worker.extranonceNumber id < 2 ^ 16 ∧ (worker.ethExtranonce id).toList.length = 4 ∧
        hexValue (worker.ethExtranonce id).toList = worker.extranonceNumber id := by
  obtain ⟨distinct,disjoint⟩ := ranges_kept reachable
  refine ⟨disjoint,fun label next moved => step_disjoint distinct disjoint moved,?_⟩
  intro key worker _ id free
  exact ⟨Worker.extranonceNumber_lt free,Worker.ethExtranonce_length id,Worker.ethExtranonce_number free⟩

/-- Both workers insert their rows before either reads `MAX(id)`. -/
def together : List Label :=
  [.fork (1,1),.fork (1,2),.selectId (1,1),.selectId (1,2),.insert (1,1) 1,.insert (1,2) 2,.selectId (1,1),
    .selectId (1,2)]

def registeredWorld : World := ⟨[((1,1),1),((1,2),2)],[((1,1),.found 1),((1,2),.found 2)]⟩

def lowWorker : Worker := ⟨0,1,by decide,by decide⟩

def startedWorld : World := ⟨[((1,1),1),((1,2),2)],[((1,1),.running lowWorker),((1,2),.found 2)]⟩

def togetherWorld : World := ⟨[((1,1),1),((1,2),2)],
      [((1,1),.running lowWorker),((1,2),.running ⟨1,1,by decide,by decide⟩)]⟩

theorem together_disjoint : RangesDisjoint togetherWorld ∧ lowWorker.ethExtranonce 3 = "0006" := by
  have ran : (registration 0).run ⟨[],[]⟩ together = some registeredWorld := by decide +kernel
  have early : ∀ label ∈ together, ∀ world, StartsApart 0 world label := by
    intro label member world
    simp only [together,List.mem_cons,List.not_mem_nil,or_false] at member
    rcases member with rfl | rfl | rfl | rfl | rfl | rfl | rfl | rfl <;> trivial
  have registered := Machine.ReachableBy.run (.initial rfl) early ran
  have apart : StartsApart 0 registeredWorld (.selectMaxId (1,1)) := by decide +kernel
  have moved : step 0 registeredWorld (.selectMaxId (1,1)) = some startedWorld := by decide +kernel
  have apart_second : StartsApart 0 startedWorld (.selectMaxId (1,2)) := by decide +kernel
  have moved_second : step 0 startedWorld (.selectMaxId (1,2)) = some togetherWorld := by decide +kernel
  exact ⟨(ranges_disjoint 0 ((registered.step apart moved).step apart_second moved_second)).1,by decide +kernel⟩

def staggered : List Label :=
  [.fork (1,1),.selectId (1,1),.insert (1,1) 1,.selectId (1,1),.selectMaxId (1,1),
    .fork (1,2),.selectId (1,2),.insert (1,2) 2,.selectId (1,2),.selectMaxId (1,2)]

def firstWorker : Worker := ⟨0,0,by decide,by decide⟩
def secondWorker : Worker := ⟨1,1,by decide,by decide⟩

def staggeredWorld : World := ⟨[((1,1),1),((1,2),2)],[((1,1),.running firstWorker),((1,2),.running secondWorker)]⟩

/-- The first worker read 1 as `MAX(id)` and keeps no bits for ids: it reaches every extranonce of the second. -/
theorem staggered_starts_meet : ¬ ∀ world, (registration 0).Reachable world → RangesDisjoint world := by
  intro disjoint
  have ran : (registration 0).run ⟨[],[]⟩ staggered = some staggeredWorld := by decide +kernel
  have reachable : (registration 0).Reachable staggeredWorld := Machine.reachable_run rfl ran
  have apart := disjoint _ reachable (1,1) (1,2) firstWorker secondWorker (by decide) rfl rfl
  exact apart 1 (Worker.mem_free.mpr (by decide)) 0 Worker.zero_free (by decide +kernel)

section Limited

/-- With `max_pool_worker_num` set every worker keeps the same bits, and its id is that of its row. -/
def Phase.Knows (maxPoolWorkerNum : ℤ) (row : Option ℕ) : Phase → Prop
  | .found id => row = some id
  | .running worker => row = some (worker.uniqueWorkerId + 1) ∧
    worker.uniqueWorkerIdBits = Nat.size (maxPoolWorkerNum.toNat - 1)
  | _ => True

structure Registered (maxPoolWorkerNum : ℤ) (world : World) : Prop where
  ids : (world.poolWorkers.map Prod.snd).Nodup
  knows : ∀ key phase, get world.processes key = some phase → phase.Knows maxPoolWorkerNum (get world.poolWorkers key)

theorem Registered.advance (registered : Registered maxPoolWorkerNum world)
    (knows : phase.Knows maxPoolWorkerNum (get world.poolWorkers key)) :
    Registered maxPoolWorkerNum (world.advance key phase) := by
  refine ⟨registered.ids,fun other found there => ?_⟩
  by_cases same : other = key
  · subst same
    rw [World.advance,get_put_self] at there
    exact some.inj there ▸ knows
  · rw [World.advance,get_put_other same] at there
    exact registered.knows other found there

private theorem getUniqueWorkerID_limited (limited : maxPoolWorkerNum ≠ 0) {id maxId : ℕ}
    (valid : getUniqueWorkerID maxPoolWorkerNum id maxId = some worker) :
    (Phase.running worker).Knows maxPoolWorkerNum (some id) := by
  unfold getUniqueWorkerID at valid
  split at valid
  next checked =>
    cases valid
    refine ⟨congrArg some (Nat.sub_add_cancel checked.1).symm,?_⟩
    show Nat.size ((workerCapacity maxPoolWorkerNum maxId).toNat - 1) = _
    rw [workerCapacity,if_neg limited]
  · cases valid

theorem Moved.registered (limited : maxPoolWorkerNum ≠ 0) (registered : Registered maxPoolWorkerNum world)
    (moved : Moved maxPoolWorkerNum world label next) : Registered maxPoolWorkerNum next := by
  cases moved with
  | waits _ key phase _ idle row =>
    refine registered.advance ?_
    cases phase with
    | found id => exact row id rfl
    | running => cases idle
    | _ => trivial
  | inserts key id _ fresh absent =>
    refine Registered.advance ⟨?_,fun other phase there => ?_⟩ trivial
    · rw [put_absent absent,List.map_append]
      exact List.concat_eq_append ▸ registered.ids.concat fresh
    · have knows := registered.knows other phase there
      by_cases same : other = key
      · rw [same,absent] at knows
        cases phase with
        | found => cases knows
        | running => cases knows.1
        | _ => trivial
      · rwa [get_put_other same]
  | exits _ key _ =>
    refine ⟨registered.ids,fun other phase there => ?_⟩
    by_cases same : other = key
    · rw [same,World.exit,get_erase_self] at there
      cases there
    · rw [World.exit,get_erase_other same] at there
      exact registered.knows other phase there
  | starts key id worker row valid =>
    refine registered.advance ?_
    rw [show get world.poolWorkers key = some id from registered.knows key _ row]
    exact getUniqueWorkerID_limited limited valid

/-- With `max_pool_worker_num` set the ranges are disjoint in every run. -/
theorem ranges_disjoint_limited (limited : maxPoolWorkerNum ≠ 0)
    (reachable : (registration maxPoolWorkerNum).Reachable world) :
    RangesDisjoint world := by
  have registered : Registered maxPoolWorkerNum world := by
    refine reachable.invariant _ ?_ fun _ _ _ registered _ moved => (step_moved moved).registered limited registered
    rintro _ rfl
    exact ⟨List.nodup_nil,nofun⟩
  intro key other worker neighbor different running beside
  have knows {key : ℕ × ℕ} {worker : Worker} (running : world.running key = some worker) :
      (Phase.running worker).Knows maxPoolWorkerNum (get world.poolWorkers key) := by
    obtain ⟨phase,found,runs⟩ := Option.bind_eq_some_iff.mp running
    cases phase <;> cases runs
    exact registered.knows key _ found
  obtain ⟨row,bits⟩ := knows running
  obtain ⟨row_beside,bits_beside⟩ := knows beside
  refine Worker.disjoint_iff.mpr fun same => ?_
  rw [bits,bits_beside,min_self,← bits,Nat.mod_eq_of_lt worker.id_lt,bits,← bits_beside,Nat.mod_eq_of_lt neighbor.id_lt]
    at same
  rw [same] at row
  exact different (congrArg Prod.fst (List.inj_on_of_nodup_map registered.ids (mem_of_get row)
    (mem_of_get row_beside) rfl))

theorem ranges_disjoint_limited_two : RangesDisjoint togetherWorld :=
  @ranges_disjoint_limited 2 _ (by decide) (Machine.reachable_run rfl
    (show (registration 2).run ⟨[],[]⟩ (together ++ [.selectMaxId (1,1),.selectMaxId (1,2)]) = some togetherWorld by
    decide +kernel))

end Limited
end NodejsPool.Pool.WorkerIds
