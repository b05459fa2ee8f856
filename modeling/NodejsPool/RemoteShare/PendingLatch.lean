import NodejsPool.RemoteShare.PendingDue

/-! The sweeps of the pending jobs when operations throw: what a turn did before a throw stays done,
a sweep's own turn clears the latch on a throw, and a header's callback does not. -/
namespace NodejsPool.RemoteShare.PendingLatch
open Async PendingJobs

/-- A turn under way: the operations on the databases and the requests that it is going to make,
in their order, throw or not, and a request is answered at once or later. -/
structure Turn where
  world : World
  faults : List Bool
  replies : List (Option (Reply × Time))

def update (change : World → World) (turn : Turn) : Turn := {turn with world := change turn.world}

def operation (turn : Turn) : Except Turn Turn :=
  match turn.faults with
  | [] => .ok turn
  | true::faults => .error {turn with faults := faults}
  | false::faults => .ok {turn with faults := faults}

def store (change : World → World) (turn : Turn) : Except Turn Turn := do
  let turn ← operation turn
  return update change turn

def resetCounters : List String → Turn → Except Turn Turn
  | [],turn => .ok turn
  | key::keys,turn => do
    let turn ← store (fun world => {world with databases := resetRoundHashes [key] world.databases}) turn
    resetCounters keys turn

/-- A transaction that throws is aborted; the counters start again one by one after it. -/
def saveResolved (current : Current) (block : Decoded) (turn : Turn) : Except Turn Turn := do
  let turn ← operation turn
  match PendingJobs.saveResolved current.job.blockId block turn.world.databases with
  | none => return turn
  | some databases =>
    resetCounters (roundCounters block) (update (fun world => {world with databases := databases}) turn)

def settle (settings : Settings) (current : Current) (outcome : Outcome) (turn : Turn) : Except Turn Turn :=
  match outcome with
  | .retry job => store (saveJob settings current.key job) turn
  | .drop => store (saveDrop current.key) turn
  | .resolve block => do
    let turn ← saveResolved current block turn
    store (saveDrop current.key) turn

/-- The profile of an alt block's port is looked up unless its header is an orphan's. -/
def needsProfile (current : Current) (reply : Reply) : Bool :=
  match current.decoded with
  | .block _ => false
  | .altblock _ => !(reply.err && isOrphanHeader reply.header)

def getPoolProfile (current : Current) (reply : Reply) (turn : Turn) : Except Turn Turn :=
  if needsProfile current reply then operation turn else .ok turn

def onHeader (settings : Settings) (current : Current) (reply : Reply) (timeNow : Time) (turn : Turn) :
    Except Turn Turn := do
  let turn ← getPoolProfile current reply turn
  let (outcome,memory) := PendingJobs.onHeader settings turn.world.memory current reply timeNow
  settle settings current outcome (update (fun world => {world with memory := memory}) turn)

def release (world : World) : World :=
  {world with memory := finishCloseIfIdle {world.memory with processing := false}}

def wait (jobs : List PendingJob) (current : Current) (world : World) : World :=
  {world with memory := {world.memory with jobsToProcess := jobs, current := some current}}

def note (job : PendingJob) (world : World) : World := {world with processed := world.processed ++ [job]}

def next (settings : Settings) : List PendingJob → Turn → Except Turn Turn
  | [],turn => return update release turn
  | (key,none)::jobs,turn => do
    let turn ← store (saveDrop key) (update (note (key,none)) turn)
    next settings jobs turn
  | (key,some job)::jobs,turn =>
    match decodePayload settings job with
    | none => do
      let turn ← store (saveDrop key) (update (note (key,some job)) turn)
      next settings jobs turn
    | some decoded => do
      let turn ← operation (update (note (key,some job)) turn)
      let rest := {turn with replies := turn.replies.tail}
      match turn.replies.head?.join with
      | none => return update (wait jobs ⟨key,job,decoded⟩) rest
      | some (reply,timeNow) => do
        let turn ← onHeader settings ⟨key,job,decoded⟩ reply timeNow rest
        next settings jobs turn

def selectJobsForProcessing (settings : Settings) (timeNow : Time) :
    List PendingJob → ℕ → List PendingJob → Turn → Except Turn (List PendingJob × Turn)
  | [],_,selected,turn => return (selected,turn)
  | (key,none)::jobs,staleSelected,selected,turn =>
    selectJobsForProcessing settings timeNow jobs staleSelected (selected ++ [(key,none)]) turn
  | (key,some job)::jobs,staleSelected,selected,turn =>
    if isStalePendingBlock settings job timeNow then
      if max 0 settings.stalePendingBlockProcessLimit ≤ staleSelected then do
        let turn ← store (saveJob settings key (staleThrottle settings job timeNow)) turn
        selectJobsForProcessing settings timeNow jobs staleSelected selected turn
      else selectJobsForProcessing settings timeNow jobs (staleSelected + 1) (selected ++ [(key,some job)]) turn
    else selectJobsForProcessing settings timeNow jobs staleSelected (selected ++ [(key,some job)]) turn

def startSweep (timeNow : Time) (world : World) : World :=
  {world with memory := {pruneState world.memory timeNow with processing := true}}

def dueAt (due : DueJobs) (world : World) : World :=
  let nextDueJobCheckAt := if due.jobs.isEmpty then due.nextDueAt.getD 0 else 0
  {world with memory := {world.memory with nextDueJobCheckAt := nextDueJobCheckAt}}

def sweep (settings : Settings) (timeNow : Time) (turn : Turn) : Except Turn Turn := do
  let turn ← operation (update (startSweep timeNow) turn)
  let due := loadDueJobs turn.world.databases.pendingDB timeNow 100
  let (jobs,turn) ← selectJobsForProcessing settings timeNow due.jobs 0 [] (update (dueAt due) turn)
  next settings jobs turn

def processDueJobs (settings : Settings) (timeNow : Time) (turn : Turn) : Except Turn Turn :=
  let memory := turn.world.memory
  if memory.processing || memory.closed then .ok turn
  else if memory.nextDueJobCheckAt ≠ 0 && timeNow < memory.nextDueJobCheckAt then .ok turn
  else
    match sweep settings timeNow turn with
    | .ok turn => .ok turn
    | .error turn => .error (update release turn)

def callback (settings : Settings) (current : Current) (reply : Reply) (timeNow : Time) (turn : Turn) :
    Except Turn Turn := do
  let jobs := turn.world.memory.jobsToProcess
  let turn ← onHeader settings current reply timeNow
    (update (fun world => {world with memory := {world.memory with current := none}}) turn)
  next settings jobs turn

def ended (result : Except Turn Turn) : Option World :=
  match result with
  | .ok turn | .error turn => if turn.faults.isEmpty && turn.replies.isEmpty then some turn.world else none

/-- A job is enqueued or its storing throws, the pool sweeps, the header comes, and the process closes. -/
inductive Event where
  | enqueue (worker : Bool) (key : JobKey) (job : Job)
  | enqueueThrows
  | processDueJobs (timeNow : Time) (faults : List Bool) (replies : List (Option (Reply × Time)))
  | onHeader (reply : Reply) (timeNow : Time) (faults : List Bool) (replies : List (Option (Reply × Time)))
  | close

def step (settings : Settings) (world : World) : Event → Option World
  | .enqueue worker key job => some (PendingJobs.enqueue settings worker key job world)
  | .enqueueThrows => some {world with memory := {world.memory with nextDueJobCheckAt := 0}}
  | .processDueJobs timeNow faults replies => ended (processDueJobs settings timeNow ⟨world,faults,replies⟩)
  | .onHeader reply timeNow faults replies => do
    let current ← world.memory.current
    ended (callback settings current reply timeNow ⟨world,faults,replies⟩)
  | .close => some {world with memory := finishCloseIfIdle {world.memory with closed := true}}

def pendingLatch (settings : Settings) (databases : Databases) : Machine World Event where
  initial world := world = {databases := databases}
  step := step settings

section Turns

/-- The faults taken between two points of a turn; the last of them is a throw when the turn ends so. -/
def Used (before after : Turn) (thrown : Bool) : Prop :=
  ∃ used, before.faults = used ++ after.faults ∧ (true ∈ used ↔ thrown = true)

/-- How a computation ends, by what it returns or leaves behind at a throw. -/
def Ends {Value : Type} (returned : Value → Prop) (thrown : Turn → Prop) : Except Turn Value → Prop
  | .ok value => returned value
  | .error turn => thrown turn

def SameLatch (before after : Turn) : Prop :=
  after.world.memory.processing = before.world.memory.processing ∧
    after.world.memory.current = before.world.memory.current

def Quiet (before : Turn) (result : Except Turn Turn) : Prop :=
  Ends (fun after => SameLatch before after ∧ Used before after false)
    (fun after => SameLatch before after ∧ Used before after true) result

variable {before middle after turn : Turn} {thrown : Bool} {rest : Turn → Except Turn Turn} {change : World → World}

theorem Used.refl (turn : Turn) : Used turn turn false := ⟨[],rfl,by simp⟩

theorem Used.trans (first : Used before middle false) (second : Used middle after thrown) :
    Used before after thrown := by
  obtain ⟨used,split,none_⟩ := first
  obtain ⟨more,split',some_⟩ := second
  refine ⟨used ++ more,by rw [split,split',List.append_assoc],?_⟩
  rw [List.mem_append,some_]
  have quiet : true ∉ used := by simpa using none_
  simp [quiet]

theorem Ends.bind {Value Next : Type} {returned : Value → Prop} {returned' : Next → Prop} {thrown : Turn → Prop}
    {result : Except Turn Value} {rest : Value → Except Turn Next} (first : Ends returned thrown result)
    (second : ∀ value, returned value → Ends returned' thrown (rest value)) :
    Ends returned' thrown (result >>= rest) := by
  cases result with
  | ok value => exact second value first
  | error turn => exact first

theorem Ends.weaken {Value : Type} {returned returned' : Value → Prop} {thrown thrown' : Turn → Prop}
    {result : Except Turn Value} (ends : Ends returned thrown result) (ok : ∀ value, returned value → returned' value)
    (error : ∀ turn, thrown turn → thrown' turn) : Ends returned' thrown' result := by
  cases result with
  | ok value => exact ok value ends
  | error turn => exact error turn ends

theorem quiet_ok (turn : Turn) : Quiet turn (.ok turn) := ⟨⟨rfl,rfl⟩,Used.refl turn⟩

theorem quiet_operation (turn : Turn) : Quiet turn (operation turn) := by
  unfold operation
  split
  · exact quiet_ok turn
  next faults here => exact ⟨⟨rfl,rfl⟩,[true],here,by simp⟩
  next faults here => exact ⟨⟨rfl,rfl⟩,[false],here,by simp⟩

theorem Quiet.bind {result : Except Turn Turn} (first : Quiet turn result)
    (second : ∀ middle, Quiet middle (rest middle)) : Quiet turn (result >>= rest) := by
  refine Ends.bind first ?_
  rintro middle ⟨⟨processing,current⟩,used⟩
  refine (second middle).weaken ?_ ?_
  · rintro after ⟨⟨processing',current'⟩,used'⟩
    exact ⟨⟨processing'.trans processing,current'.trans current⟩,used.trans used'⟩
  · rintro after ⟨⟨processing',current'⟩,used'⟩
    exact ⟨⟨processing'.trans processing,current'.trans current⟩,used.trans used'⟩

theorem Quiet.update (turn : Turn) (processing : (change turn.world).memory.processing = turn.world.memory.processing)
    (current : (change turn.world).memory.current = turn.world.memory.current)
    (quiet : Quiet (update change turn) (rest (update change turn))) : Quiet turn (rest (update change turn)) := by
  refine quiet.weaken ?_ ?_
  · rintro after ⟨⟨processing',current'⟩,used⟩
    exact ⟨⟨processing'.trans processing,current'.trans current⟩,used⟩
  · rintro after ⟨⟨processing',current'⟩,used⟩
    exact ⟨⟨processing'.trans processing,current'.trans current⟩,used⟩

theorem quiet_store (turn : Turn) (frame : ∀ world, (change world).memory.processing = world.memory.processing ∧
      (change world).memory.current = world.memory.current) : Quiet turn (store change turn) := by
  refine (quiet_operation turn).bind fun middle => ?_
  obtain ⟨processing,current⟩ := frame middle.world
  exact ⟨⟨processing,current⟩,Used.refl middle⟩

private theorem quiet_resetCounters (keys : List String) (turn : Turn) : Quiet turn (resetCounters keys turn) := by
  induction keys generalizing turn with
  | nil => exact quiet_ok turn
  | cons key keys ih =>
    unfold resetCounters
    refine Quiet.bind (quiet_store turn ?_) ih
    exact fun _ => ⟨rfl,rfl⟩

private theorem quiet_saveResolved (current : Current) (block : Decoded) (turn : Turn) :
    Quiet turn (saveResolved current block turn) := by
  refine (quiet_operation turn).bind fun middle => ?_
  cases PendingJobs.saveResolved current.job.blockId block middle.world.databases with
  | none => exact quiet_ok middle
  | some databases =>
    exact Quiet.update middle rfl rfl (quiet_resetCounters (roundCounters block) _)

private theorem quiet_settle (settings : Settings) (current : Current) (outcome : Outcome) (turn : Turn) :
    Quiet turn (settle settings current outcome turn) := by
  cases outcome with
  | retry job | drop => exact quiet_store turn fun _ => ⟨rfl,rfl⟩
  | resolve block =>
    exact (quiet_saveResolved current block turn).bind fun middle => quiet_store middle fun _ => ⟨rfl,rfl⟩

theorem handleOrphanHeader_current (settings : Settings) (memory : Memory) (current : Current) (retryState : String)
    (timeNow : Time) : (handleOrphanHeader settings memory current retryState timeNow).2.current = memory.current := by
  unfold handleOrphanHeader
  dsimp only
  split <;> rfl

theorem onHeader_current (settings : Settings) (memory : Memory) (current : Current) (reply : Reply) (timeNow : Time) :
    (PendingJobs.onHeader settings memory current reply timeNow).2.current = memory.current := by
  unfold PendingJobs.onHeader onBlockHeader onAltBlockHeader markBadAltBlocks
  split <;> repeat' split
  all_goals first | exact handleOrphanHeader_current settings memory current _ timeNow | rfl

theorem quiet_onHeader (settings : Settings) (current : Current) (reply : Reply) (timeNow : Time) (turn : Turn) :
    Quiet turn (onHeader settings current reply timeNow turn) := by
  have looked : Quiet turn (getPoolProfile current reply turn) := by
    unfold getPoolProfile
    split
    · exact quiet_operation turn
    · exact quiet_ok turn
  refine looked.bind fun middle => ?_
  obtain ⟨⟨_,processing,_⟩,_⟩ := onHeader_spec settings middle.world.memory current reply timeNow
  have same := onHeader_current settings middle.world.memory current reply timeNow
  exact Quiet.update middle processing same (quiet_settle settings current _ _)

def Busy (turn : Turn) : Prop := turn.world.memory.processing = true ∧ turn.world.memory.current = none

def Rests (jobs : List PendingJob) (turn : Turn) : Prop :=
  turn.world.memory.processing = false ∧ turn.world.memory.current = none ∨
    turn.world.memory.processing = true ∧ turn.world.memory.current.isSome = true ∧
      turn.world.memory.jobsToProcess.length < jobs.length

theorem next_ends (settings : Settings) {jobs : List PendingJob} (busy : Busy turn) :
    Ends (fun after => Rests jobs after ∧ Used turn after false) (fun after => Busy after ∧ Used turn after true)
      (next settings jobs turn) := by
  induction jobs generalizing turn with
  | nil =>
    obtain ⟨_,_,_,idle⟩ := finishCloseIfIdle_frame {turn.world.memory with processing := false}
    obtain ⟨cleared,_⟩ := finishCloseIfIdle_frame {turn.world.memory with processing := false}
    exact ⟨.inl ⟨cleared,idle.trans busy.2⟩,Used.refl turn⟩
  | cons row jobs ih =>
    have further {start : Turn} {result : Except Turn Turn} (same : SameLatch turn start) (used : Used turn start false)
        (quiet : Quiet start result) :
        Ends (fun after => Rests (row::jobs) after ∧ Used turn after false)
          (fun after => Busy after ∧ Used turn after true) (result >>= next settings jobs) := by
      have busy' {after : Turn} (same' : SameLatch start after) : Busy after :=
        ⟨same'.1.trans (same.1.trans busy.1),same'.2.trans (same.2.trans busy.2)⟩
      have first : Ends (fun middle => Busy middle ∧ Used turn middle false)
          (fun after => Busy after ∧ Used turn after true) result :=
        quiet.weaken (fun middle quiet => ⟨busy' quiet.1,used.trans quiet.2⟩)
          fun after quiet => ⟨busy' quiet.1,used.trans quiet.2⟩
      refine first.bind fun middle ⟨busy,used⟩ => (ih busy).weaken ?_ ?_
      · rintro after ⟨rests,used'⟩
        refine ⟨rests.imp id fun ⟨processing,waiting,fewer⟩ => ⟨processing,waiting,?_⟩,used.trans used'⟩
        exact Nat.lt_succ_of_lt fewer
      · exact fun after ⟨busy,used'⟩ => ⟨busy,used.trans used'⟩
    obtain ⟨key,job⟩ := row
    cases job with
    | none => exact further ⟨rfl,rfl⟩ (Used.refl _) (quiet_store _ fun _ => ⟨rfl,rfl⟩)
    | some job =>
      unfold next
      cases decodePayload settings job with
      | none => exact further ⟨rfl,rfl⟩ (Used.refl _) (quiet_store _ fun _ => ⟨rfl,rfl⟩)
      | some decoded =>
        dsimp only
        have asked : Ends (fun middle => SameLatch turn middle ∧ Used turn middle false)
            (fun after => Busy after ∧ Used turn after true) (operation (update (note (key,some job)) turn)) := by
          refine (quiet_operation _).weaken (fun middle quiet => quiet) ?_
          exact fun after ⟨⟨processing,current⟩,used⟩ => ⟨⟨processing.trans busy.1,current.trans busy.2⟩,used⟩
        refine asked.bind fun middle ⟨same,used⟩ => ?_
        split
        · exact ⟨.inr ⟨same.1.trans busy.1,rfl,Nat.lt_succ_self _⟩,used⟩
        next reply timeNow _ =>
          exact further same used (quiet_onHeader settings _ reply timeNow _)

private theorem selectJobs_ends (settings : Settings) (timeNow : Time) (jobs : List PendingJob) (staleSelected : ℕ)
    (selected : List PendingJob) (turn : Turn) :
    Ends (fun after => SameLatch turn after.2 ∧ Used turn after.2 false)
    (fun after => SameLatch turn after ∧ Used turn after true)
      (selectJobsForProcessing settings timeNow jobs staleSelected selected turn) := by
  induction jobs generalizing staleSelected selected turn with
  | nil => exact ⟨⟨rfl,rfl⟩,Used.refl turn⟩
  | cons row jobs ih =>
    obtain ⟨key,job⟩ := row
    cases job with
    | none => exact ih _ _ turn
    | some job =>
      unfold selectJobsForProcessing
      split
      · split
        · have quiet : Quiet turn (store (saveJob settings key (staleThrottle settings job timeNow)) turn) :=
            quiet_store turn fun _ => ⟨rfl,rfl⟩
          refine Ends.bind quiet fun middle ⟨⟨processing,current⟩,used⟩ => (ih _ _ middle).weaken ?_ ?_
          · exact fun after ⟨same,used'⟩ => ⟨⟨same.1.trans processing,same.2.trans current⟩,used.trans used'⟩
          · exact fun after ⟨same,used'⟩ => ⟨⟨same.1.trans processing,same.2.trans current⟩,used.trans used'⟩
        · exact ih _ _ turn
      · exact ih _ _ turn

theorem sweep_ends (settings : Settings) (timeNow : Time) (idle : turn.world.memory.current = none) :
    Ends (fun after => after.world.memory.processing = after.world.memory.current.isSome) Busy
    (sweep settings timeNow turn) := by
  have asked : Ends (fun middle => Busy middle) Busy (operation (update (startSweep timeNow) turn)) :=
    (quiet_operation _).weaken (fun middle quiet => ⟨quiet.1.1,quiet.1.2.trans idle⟩)
      fun after quiet => ⟨quiet.1.1,quiet.1.2.trans idle⟩
  refine asked.bind fun middle busy => ?_
  have selected := selectJobs_ends settings timeNow (loadDueJobs middle.world.databases.pendingDB timeNow 100).jobs 0 []
    (update (dueAt (loadDueJobs middle.world.databases.pendingDB timeNow 100)) middle)
  have kept : Ends (fun pair : List PendingJob × Turn => Busy pair.2) Busy _ := selected.weaken
    (fun pair quiet => ⟨quiet.1.1.trans busy.1,quiet.1.2.trans busy.2⟩)
    fun after quiet => ⟨quiet.1.1.trans busy.1,quiet.1.2.trans busy.2⟩
  refine kept.bind fun pair busy => (next_ends settings busy).weaken ?_ fun after thrown => thrown.1
  rintro after ⟨⟨processing,current⟩ | ⟨processing,waiting,_⟩,_⟩
  · rw [processing,current]
    rfl
  · rw [processing,waiting]

end Turns

def Latched (world : World) : Prop := world.memory.processing = world.memory.current.isSome

def Contained : Event → Prop
  | .onHeader _ _ faults _ => true ∉ faults
  | _ => True

section Runs

variable {settings : Settings} {world after : World}
  {timeNow : Time} {faults : List Bool} {replies : List (Option (Reply × Time))}

theorem Ends.ended {returned thrown : Turn → Prop} {result : Except Turn Turn} (ends : Ends returned thrown result)
    (done : ended result = some after) : ∃ turn, turn.world = after ∧ turn.faults = [] ∧
    (returned turn ∨ thrown turn) := by
  unfold PendingLatch.ended at done
  cases result with
  | ok turn =>
    obtain ⟨empty,same⟩ := Option.ite_none_right_eq_some.mp done
    rw [Bool.and_eq_true,List.isEmpty_iff] at empty
    exact ⟨turn,Option.some.inj same,empty.1,.inl ends⟩
  | error turn =>
    obtain ⟨empty,same⟩ := Option.ite_none_right_eq_some.mp done
    rw [Bool.and_eq_true,List.isEmpty_iff] at empty
    exact ⟨turn,Option.some.inj same,empty.1,.inr ends⟩

theorem processDueJobs_ends (timeNow : Time) {turn : Turn} (latched : Latched turn.world) :
    Ends (fun after => Latched after.world) (fun after => Latched after.world)
    (processDueJobs settings timeNow turn) := by
  unfold processDueJobs
  dsimp only
  split
  · exact latched
  next free =>
    split
    · exact latched
    · have released : turn.world.memory.processing = false := by
        cases processing : turn.world.memory.processing with
        | false => rfl
        | true => simp [processing] at free
      have idle : turn.world.memory.current = none := by
        unfold Latched at latched
        rw [released] at latched
        exact Option.not_isSome_iff_eq_none.mp (by simp [← latched])
      have swept := sweep_ends settings timeNow idle
      cases result : sweep settings timeNow turn with
      | ok other =>
        rw [result] at swept
        exact swept
      | error other =>
        rw [result] at swept
        obtain ⟨processing,_,_,current⟩ := finishCloseIfIdle_frame {other.world.memory with processing := false}
        unfold Ends Latched
        show (finishCloseIfIdle {other.world.memory with processing := false}).processing =
          (finishCloseIfIdle {other.world.memory with processing := false}).current.isSome
        rw [processing,current,swept.2]
        rfl

theorem processDueJobs_busy {turn : Turn} (busy : turn.world.memory.processing = true) :
    processDueJobs settings timeNow turn = .ok turn := by
  unfold processDueJobs
  simp [busy]

private theorem callback_ends {current : Current} {reply : Reply} {timeNow : Time} {turn : Turn}
    (processing : turn.world.memory.processing = true) :
    Ends (fun after => Rests turn.world.memory.jobsToProcess after ∧ Used turn after false)
      (fun after => Busy after ∧ Used turn after true) (callback settings current reply timeNow turn) := by
  have settled := quiet_onHeader settings current reply timeNow
    (update (fun world => {world with memory := {world.memory with current := none}}) turn)
  have first : Ends (fun middle => Busy middle ∧ Used turn middle false)
      (fun after => Busy after ∧ Used turn after true) _ :=
    settled.weaken (fun middle quiet => ⟨⟨quiet.1.1.trans processing,quiet.1.2⟩,quiet.2⟩)
      fun after quiet => ⟨⟨quiet.1.1.trans processing,quiet.1.2⟩,quiet.2⟩
  refine first.bind fun middle ⟨busy,used⟩ => (next_ends settings busy).weaken ?_ ?_
  · exact fun after ⟨rests,used'⟩ => ⟨rests,used.trans used'⟩
  · exact fun after ⟨busy,used'⟩ => ⟨busy,used.trans used'⟩

theorem onHeader_outcomes {reply : Reply} (processing : world.memory.processing = true)
    (moved : step settings world (.onHeader reply timeNow faults replies) = some after) :
    true ∉ faults ∧ (after.memory.processing = false ∧ after.memory.current = none ∨
        after.memory.processing = true ∧ after.memory.current.isSome = true ∧
          after.memory.jobsToProcess.length < world.memory.jobsToProcess.length) ∨
      true ∈ faults ∧ after.memory.processing = true ∧ after.memory.current = none := by
  obtain ⟨current,_,done⟩ := Option.bind_eq_some_iff.mp moved
  have ends := @callback_ends settings current reply timeNow ⟨world,faults,replies⟩ processing
  obtain ⟨turn,rfl,empty,⟨rests,used,split,quiet⟩ | ⟨busy,used,split,quiet⟩⟩ := ends.ended done
  · rw [empty,List.append_nil] at split
    refine .inl ⟨?_,rests⟩
    obtain rfl : faults = used := split
    simpa using quiet
  · rw [empty,List.append_nil] at split
    obtain rfl : faults = used := split
    exact .inr ⟨quiet.mpr rfl,busy⟩

def Sweeping (world : World) : Prop := world.memory.current.isSome = true → world.memory.processing = true

theorem processDueJobs_stuck (sweeping : Sweeping world) (stuck : ¬Latched world)
    (moved : step settings world (.processDueJobs timeNow faults replies) = some after) : after = world := by
  have busy : world.memory.processing = true := by
    unfold Latched at stuck
    cases current : world.memory.current with
    | some current => exact sweeping (by simp [current])
    | none => simpa [current] using stuck
  have same : step settings world (.processDueJobs timeNow faults replies) = ended (.ok ⟨world,faults,replies⟩) :=
    congrArg PendingLatch.ended (processDueJobs_busy busy)
  rw [same] at moved
  obtain ⟨_,kept⟩ := Option.ite_none_right_eq_some.mp moved
  exact (Option.some.inj kept).symm

theorem latched_step {event : Event} (sweeping : Sweeping world) (moved : step settings world event = some after) :
    Sweeping after ∧ (Latched after ↔ Latched world ∧ Contained event) := by
  have quiet (processing : after.memory.processing = world.memory.processing)
      (current : after.memory.current = world.memory.current) :
      Sweeping after ∧ (Latched after ↔ Latched world ∧ True) := by
    unfold Sweeping Latched
    rw [processing,current]
    exact ⟨sweeping,Iff.symm (and_iff_left trivial)⟩
  cases event with
  | enqueue worker key job =>
    cases moved
    refine quiet ?_ ?_
    all_goals
      unfold PendingJobs.enqueue
      dsimp only
      split <;> rfl
  | enqueueThrows =>
    cases moved
    exact quiet rfl rfl
  | close =>
    cases moved
    obtain ⟨processing,_,_,current⟩ := finishCloseIfIdle_frame {world.memory with closed := true}
    exact quiet processing current
  | processDueJobs timeNow faults replies =>
    by_cases latched : Latched world
    · have ends := @processDueJobs_ends settings timeNow ⟨world,faults,replies⟩ latched
      obtain ⟨turn,rfl,_,latched' | latched'⟩ := ends.ended moved
      all_goals exact ⟨fun waiting => latched'.trans waiting,iff_of_true latched' ⟨latched,trivial⟩⟩
    · obtain rfl := processDueJobs_stuck sweeping latched moved
      exact quiet rfl rfl
  | onHeader reply timeNow faults replies =>
    obtain ⟨current,waiting,_⟩ := Option.bind_eq_some_iff.mp moved
    have processing : world.memory.processing = true := sweeping (by simp [waiting])
    have latched : Latched world := by
      unfold Latched
      rw [processing,waiting]
      rfl
    rcases onHeader_outcomes processing moved with ⟨safe,⟨released,idle⟩ | ⟨held,waiting',_⟩⟩ | ⟨thrown,held,idle⟩
    · refine ⟨?_,iff_of_true ?_ ⟨latched,safe⟩⟩
      · simp [Sweeping,idle]
      · simp [Latched,released,idle]
    · refine ⟨fun _ => held,iff_of_true ?_ ⟨latched,safe⟩⟩
      rw [Latched,held,waiting']
    · refine ⟨fun _ => held,iff_of_false ?_ fun both => both.2 thrown⟩
      simp [Latched,held,idle]

/-- In every run of a process the latch is set exactly while a header is outstanding if and only if no
operation throws in a header's callback. A callback without a throw ends the sweep or leaves it fewer
jobs; a latch left without a header stops every sweep. -/
theorem latch_released {databases : Databases} {events : List Event} {last : World}
    (ran : (pendingLatch settings databases).run {databases := databases} events = some last) :
    (Latched last ↔ ∀ event ∈ events, Contained event) ∧
    (∀ reply timeNow faults replies after, step settings last (.onHeader reply timeNow faults replies) = some after →
      true ∉ faults → after.memory.processing = false ∧ after.memory.current = none ∨
        after.memory.processing = true ∧ after.memory.current.isSome = true ∧
          after.memory.jobsToProcess.length < last.memory.jobsToProcess.length) ∧
    (¬Latched last → ∀ later final, (pendingLatch settings databases).run last later = some final →
      ¬Latched final ∧ ∀ timeNow faults replies after,
        step settings final (.processDueJobs timeNow faults replies) = some after → after = final) := by
  have kept : ∀ world after event, Sweeping world → (pendingLatch settings databases).step world event = some after →
      Sweeping after ∧ (Latched after ↔ Latched world ∧ Contained event) :=
    fun _ _ _ sweeping moved => latched_step sweeping moved
  have fresh : Sweeping {databases := databases} := nofun
  obtain ⟨sweeping,along⟩ := Machine.run_iff_along (M := pendingLatch settings databases) kept fresh ran
  refine ⟨?_,?_,?_⟩
  · rw [along,Machine.along_labels ran]
    exact and_iff_right rfl
  · intro reply timeNow faults replies after moved safe
    obtain ⟨current,waiting,_⟩ := Option.bind_eq_some_iff.mp moved
    have processing : last.memory.processing = true := sweeping (by simp [waiting])
    exact (onHeader_outcomes processing moved).elim (fun safe => safe.2) fun thrown => absurd thrown.1 safe
  · intro stuck later final more
    obtain ⟨sweeping',along'⟩ := Machine.run_iff_along (M := pendingLatch settings databases) kept sweeping more
    have stuck' : ¬Latched final := fun latched => stuck (along'.mp latched).1
    refine ⟨stuck',?_⟩
    exact fun _ _ _ _ moved => processDueJobs_stuck sweeping' stuck' moved

def sampleEvents (faults : List Bool) : List Event :=
  [.enqueue false (.block 1 "aa") (newJob .block 1 "aa" 1000),.processDueJobs 1000 [false,false] [],
    .onHeader ⟨false,some {reward := some 5}⟩ 2000 faults [],.enqueue false (.block 2 "bb") (newJob .block 2 "bb" 3000)]

theorem latch_released_sample : ∃ last,
    (pendingLatch sampleSettings {}).run {databases := {}} (sampleEvents [false,false,false,false]) = some last ∧
    Latched last := by
  have ran : ((pendingLatch sampleSettings {}).run {databases := {}} (sampleEvents [false,false,false,false])).isSome =
      true := by
    decide +kernel
  obtain ⟨last,ran⟩ := Option.isSome_iff_exists.mp ran
  refine ⟨last,ran,(latch_released ran).1.mpr ?_⟩
  simp [sampleEvents,Contained]

/-- The block is stored, the removal of its job throws, and no later sweep takes up a job. -/
theorem removal_throws : ∃ last,
    (pendingLatch sampleSettings {}).run {databases := {}} (sampleEvents [false,false,false,true]) = some last ∧
      last.memory.processing = true ∧ last.memory.current = none ∧ last.databases.pendingDB.length = 2 ∧
      step sampleSettings last (.processDueJobs 100000000 [] []) = some last := by
  have observed : ((pendingLatch sampleSettings {}).run {databases := {}} (sampleEvents [false,false,false,true])).map
      (fun world => (world.memory.processing,world.memory.current.isNone,world.databases.pendingDB.length)) =
        some (true,true,2) := by
    decide +kernel
  obtain ⟨last,ran,same⟩ := Option.map_eq_some_iff.mp observed
  simp only [Prod.mk.injEq,Option.isNone_iff_eq_none] at same
  obtain ⟨processing,idle,rows⟩ := same
  refine ⟨last,ran,processing,idle,rows,?_⟩
  have same : processDueJobs sampleSettings 100000000 ⟨last,[],[]⟩ = .ok ⟨last,[],[]⟩ := processDueJobs_busy processing
  exact congrArg PendingLatch.ended same

end Runs

end NodejsPool.RemoteShare.PendingLatch
