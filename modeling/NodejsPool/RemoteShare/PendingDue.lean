import NodejsPool.RemoteShare.PendingJobs

/-! A due job is processed by the next sweep, as long as no worker enqueues behind the back of
the cached check. -/
namespace NodejsPool.RemoteShare.PendingJobs
open Async List Option

def malformed (rows : List PendingJob) : List PendingJob := rows.filter fun row => row.2.isNone

section Rows

variable {settings : Settings} {rows : List PendingJob} {key : JobKey} {job : Job}

theorem mem_save {row : PendingJob} (member : row ∈ save settings rows key job) : row ∈ rows ∨
    row = (key,some job) := by
  unfold save at member
  have inside (part : row ∈ erase rows key) : row ∈ rows := mem_of_mem_filter part
  rcases mem_append.mp member with early | late
  · exact .inl (inside (takeWhile_subset _ early))
  · rcases mem_cons.mp late with new | later
    · exact .inr new
    · exact .inl (inside (dropWhile_subset _ later))

theorem save_malformed : (malformed (save settings rows key job)).Sublist (malformed rows) := by
  unfold malformed save
  have parts : ((erase rows key).takeWhile (fun row => settings.before row.1 key) ++
      (erase rows key).dropWhile fun row => settings.before row.1 key) = erase rows key := takeWhile_append_dropWhile
  rw [filter_append,filter_cons_of_neg (by simp),← filter_append,parts]
  exact filter_sublist.filter _

theorem erase_sublist (rows : List PendingJob) (key : JobKey) : (erase rows key).Sublist rows := filter_sublist

end Rows

section Loading

variable {timeNow : Time} {limit : ℕ}

theorem earlier_le {nextDueAt : Option Time} {row : PendingJob} {other : Time} (known : nextDueAt = some other) :
    ∃ time, earlier nextDueAt row = some time ∧ time ≤ other := by
  subst known
  unfold earlier
  cases row.2 with
  | none => exact ⟨other,rfl,le_refl other⟩
  | some job =>
    by_cases sooner : job.nextAttemptAt < other
    · exact ⟨job.nextAttemptAt,by simp [sooner],sooner.le⟩
    · exact ⟨other,by simp [sooner],le_refl other⟩

theorem earlier_row {nextDueAt : Option Time} {row : PendingJob} {job : Job} (here : row.2 = some job) :
    ∃ time, earlier nextDueAt row = some time ∧ time ≤ job.nextAttemptAt := by
  unfold earlier
  rw [here]
  cases nextDueAt with
  | none => exact ⟨job.nextAttemptAt,rfl,le_refl _⟩
  | some other =>
    by_cases sooner : job.nextAttemptAt < other
    · exact ⟨job.nextAttemptAt,by simp [sooner],le_refl _⟩
    · exact ⟨other,by simp [sooner],not_lt.mp sooner⟩

theorem collect_sublist (rows : List PendingJob) (due : DueJobs) : ∃ more, more.Sublist rows ∧
    (∀ row ∈ more, isDue timeNow row = true) ∧ (collectJobs timeNow limit rows due).jobs = due.jobs ++ more := by
  induction rows generalizing due with
  | nil => exact ⟨[],Sublist.refl _,nofun,(append_nil _).symm⟩
  | cons row rows ih =>
    unfold collectJobs
    by_cases full : limit ≤ due.jobs.length
    · rw [if_pos full]
      exact ⟨[],nil_sublist _,nofun,(append_nil _).symm⟩
    · rw [if_neg full]
      by_cases isDue : isDue timeNow row = true
      · rw [if_pos isDue]
        obtain ⟨more,sub,all,same⟩ := ih {due with jobs := due.jobs ++ [row]}
        refine ⟨row::more,sub.cons_cons row,?_,?_⟩
        · rintro other (_ | ⟨_,later⟩)
          · exact isDue
          · exact all other later
        · rw [same,append_assoc]
          rfl
      · rw [if_neg isDue]
        obtain ⟨more,sub,all,same⟩ := ih {due with nextDueAt := earlier due.nextDueAt row}
        exact ⟨more,sub.cons row,all,same⟩

theorem collect_earlier (rows : List PendingJob) (due : DueJobs) {other : Time} (known : due.nextDueAt = some other) :
    ∃ time, (collectJobs timeNow limit rows due).nextDueAt = some time ∧ time ≤ other := by
  induction rows generalizing due other with
  | nil => exact ⟨other,known,le_refl other⟩
  | cons row rows ih =>
    unfold collectJobs
    split
    · exact ⟨other,known,le_refl other⟩
    · split
      · exact ih {due with jobs := due.jobs ++ [row]} known
      · obtain ⟨sooner,next,less⟩ := @earlier_le due.nextDueAt row other known
        obtain ⟨time,last,less'⟩ := ih {due with nextDueAt := earlier due.nextDueAt row} next
        exact ⟨time,last,less'.trans less⟩

theorem collect_complete (rows : List PendingJob) (due : DueJobs)
    (short : (collectJobs timeNow limit rows due).jobs.length < limit) {row : PendingJob} (member : row ∈ rows) :
    (isDue timeNow row = true → row ∈ (collectJobs timeNow limit rows due).jobs) ∧
      (isDue timeNow row = false → ∀ job, row.2 = some job →
        ∃ time, (collectJobs timeNow limit rows due).nextDueAt = some time ∧ time ≤ job.nextAttemptAt) := by
  induction rows generalizing due with
  | nil => cases member
  | cons first rows ih =>
    unfold collectJobs at short ⊢
    by_cases full : limit ≤ due.jobs.length
    · rw [if_pos full] at short
      omega
    · rw [if_neg full] at short ⊢
      by_cases firstDue : isDue timeNow first = true
      · rw [if_pos firstDue] at short ⊢
        rcases mem_cons.mp member with rfl | later
        · refine ⟨fun _ => ?_,fun notDue => absurd firstDue (by simp [notDue])⟩
          obtain ⟨more,_,_,same⟩ := @collect_sublist timeNow limit rows {due with jobs := due.jobs ++ [row]}
          rw [same]
          simp
        · exact ih _ short later
      · rw [if_neg firstDue] at short ⊢
        rcases mem_cons.mp member with rfl | later
        · refine ⟨fun isDue => absurd isDue firstDue,fun _ job here => ?_⟩
          obtain ⟨sooner,next,less⟩ := @earlier_row due.nextDueAt row job here
          obtain ⟨time,last,less'⟩ :=
            @collect_earlier timeNow limit rows {due with nextDueAt := earlier due.nextDueAt row} sooner next
          exact ⟨time,last,less'.trans less⟩
        · exact ih _ short later

theorem isDue_iff {row : PendingJob} : isDue timeNow row = true ↔ ∀ job, row.2 = some job →
    job.nextAttemptAt ≤ timeNow := by
  unfold isDue
  cases row.2 <;> simp

theorem load_due {rows : List PendingJob} (few : (malformed rows).length < limit) {key : JobKey} {job : Job}
    (member : (key,some job) ∈ rows) (due : job.nextAttemptAt ≤ timeNow) :
    ∃ row ∈ (loadDueJobs rows timeNow limit).jobs, ∃ job, row.2 = some job ∧ job.nextAttemptAt ≤ timeNow := by
  obtain ⟨more,sub,all,same⟩ := @collect_sublist timeNow limit rows ⟨[],none⟩
  have loaded (row : PendingJob) : row ∈ (loadDueJobs rows timeNow limit).jobs ↔ row ∈ more := by
    unfold loadDueJobs
    rw [mem_mergeSort,same,nil_append]
  by_cases valid : ∃ row ∈ more, row.2.isSome
  · obtain ⟨row,inside,some_⟩ := valid
    obtain ⟨other,here⟩ := isSome_iff_exists.mp some_
    exact ⟨row,(loaded row).mpr inside,other,here,isDue_iff.mp (all row inside) other here⟩
  · have none_ : ∀ row ∈ more, row.2.isNone = true := by
      intro row inside
      by_contra some_
      exact valid ⟨row,inside,by simpa [isSome_iff_ne_none] using some_⟩
    have short : (collectJobs timeNow limit rows ⟨[],none⟩).jobs.length < limit := by
      rw [same,nil_append]
      calc
        more.length = (malformed more).length := by rw [malformed,filter_eq_self.mpr none_]
        _ ≤ (malformed rows).length := (sub.filter _).length_le
        _ < limit := few
    have isDue : isDue timeNow (key,some job) = true := isDue_iff.mpr fun other here => by
      cases here
      exact due
    have inside := (collect_complete rows ⟨[],none⟩ short member).1 isDue
    rw [same,nil_append] at inside
    exact absurd (none_ _ inside) (by simp)

theorem load_next {rows : List PendingJob} (positive : 0 < limit) (empty : (loadDueJobs rows timeNow limit).jobs = [])
    {key : JobKey} {job : Job} (member : (key,some job) ∈ rows) :
    ∃ time, (loadDueJobs rows timeNow limit).nextDueAt = some time ∧ time ≤ job.nextAttemptAt := by
  have none_ : (collectJobs timeNow limit rows ⟨[],none⟩).jobs = [] := by
    have sorted : (collectJobs timeNow limit rows ⟨[],none⟩).jobs.mergeSort compareJobSchedule = [] := empty
    have length := congrArg length sorted
    rw [length_mergeSort] at length
    exact length_eq_zero_iff.mp length
  have seen := collect_complete rows ⟨[],none⟩ (by rw [none_]; exact positive) member
  rw [none_] at seen
  have notDue : isDue timeNow (key,some job) = false := by
    by_contra due
    exact absurd (seen.1 (by simpa using due)) (not_mem_nil)
  exact seen.2 notDue job rfl

end Loading

section Sweeping

variable {settings : Settings} {timeNow : Time} {world : World} {limit : ℕ}

theorem select_first (positive : 0 < settings.stalePendingBlockProcessLimit) {jobs : List PendingJob}
    (rows : List PendingJob) (valid : ∃ row ∈ jobs, row.2.isSome = true) :
    ∃ early key job late, (selectJobsForProcessing settings timeNow jobs 0 rows).1 = early ++ (key,some job)::late ∧
      (∀ row ∈ early, row.2 = none) ∧ (key,some job) ∈ jobs := by
  induction jobs with
  | nil =>
    obtain ⟨row,inside,_⟩ := valid
    cases inside
  | cons first jobs ih =>
    obtain ⟨key,job⟩ := first
    cases job with
    | none =>
      have later : ∃ row ∈ jobs, row.2.isSome = true := by
        obtain ⟨row,inside,some_⟩ := valid
        rcases mem_cons.mp inside with rfl | later
        · cases some_
        · exact ⟨row,later,some_⟩
      obtain ⟨early,key',job',late,selected,none_,member⟩ := ih later
      refine ⟨(key,none)::early,key',job',late,?_,?_,mem_cons_of_mem _ member⟩
      · simp only [selectJobsForProcessing,selected,cons_append]
      · rintro row (_ | ⟨_,inside⟩)
        · rfl
        · exact none_ row inside
    | some job =>
      have below : ¬max 0 settings.stalePendingBlockProcessLimit ≤ ((0 : ℕ) : ℚ) := by
        rw [Nat.cast_zero,not_le]
        exact lt_max_of_lt_right positive
      by_cases stale : isStalePendingBlock settings job timeNow = true
      · refine ⟨[],key,job,(selectJobsForProcessing settings timeNow jobs (0 + 1) rows).1,?_,nofun,mem_cons_self⟩
        simp only [selectJobsForProcessing,stale,if_true,below,if_false,nil_append]
      · refine ⟨[],key,job,(selectJobsForProcessing settings timeNow jobs 0 rows).1,?_,nofun,mem_cons_self⟩
        simp only [selectJobsForProcessing,stale,Bool.false_eq_true,if_false,nil_append]

theorem select_rows {jobs : List PendingJob} {staleSelected : ℕ} (rows : List PendingJob) :
    (malformed (selectJobsForProcessing settings timeNow jobs staleSelected rows).2).Sublist (malformed rows) := by
  induction jobs generalizing staleSelected rows with
  | nil => exact Sublist.refl _
  | cons first jobs ih =>
    obtain ⟨key,job⟩ := first
    cases job with
    | none => exact ih rows
    | some job =>
      unfold selectJobsForProcessing
      split
      · split
        · exact (ih _).trans save_malformed
        · exact ih rows
      · exact ih rows

private theorem processJobs_grows (jobs : List PendingJob) (world : World) :
    ∃ news, (processJobs settings jobs world).processed = world.processed ++ news := by
  induction jobs generalizing world with
  | nil => exact ⟨[],(append_nil _).symm⟩
  | cons first jobs ih =>
    obtain ⟨key,job⟩ := first
    have dropped : ∃ news, (processJobs settings jobs (saveDrop key {world with
        processed := world.processed ++ [(key,job)]})).processed = world.processed ++ news := by
      obtain ⟨news,grown⟩ := ih (saveDrop key {world with processed := world.processed ++ [(key,job)]})
      exact ⟨(key,job)::news,by rw [grown]; simp [saveDrop]⟩
    unfold processJobs
    cases job with
    | none => exact dropped
    | some job =>
      dsimp only
      split
      · exact dropped
      · exact ⟨[(key,some job)],rfl⟩

theorem processJobs_first {early late : List PendingJob} {key : JobKey} {job : Job}
    (none_ : ∀ row ∈ early, row.2 = none)
    (world : World) : ∃ news, (processJobs settings (early ++ (key,some job)::late) world).processed =
      world.processed ++ news ∧ (key,some job) ∈ news := by
  induction early generalizing world with
  | nil =>
    rw [nil_append,processJobs]
    dsimp only
    split
    · obtain ⟨news,grown⟩ := @processJobs_grows settings late
        (saveDrop key {world with processed := world.processed ++ [(key,some job)]})
      exact ⟨(key,some job)::news,by rw [grown]; simp [saveDrop],mem_cons_self⟩
    · exact ⟨[(key,some job)],rfl,mem_cons_self⟩
  | cons first early ih =>
    obtain ⟨other,row⟩ := first
    obtain rfl : row = none := none_ _ mem_cons_self
    obtain ⟨news,grown,member⟩ := ih (fun row inside => none_ row (mem_cons_of_mem _ inside))
      (saveDrop other {world with processed := world.processed ++ [(other,none)]})
    refine ⟨(other,none)::news,?_,mem_cons_of_mem _ member⟩
    rw [cons_append,processJobs,grown]
    simp [saveDrop]

theorem processJobs_frame (jobs : List PendingJob) (world : World) :
    (processJobs settings jobs world).databases.pendingDB.Sublist world.databases.pendingDB ∧
      (processJobs settings jobs world).memory.nextDueJobCheckAt = world.memory.nextDueJobCheckAt ∧
      ((processJobs settings jobs world).memory.processing = false ∧
          (processJobs settings jobs world).memory.current = none ∨
        jobs ≠ [] ∧ (processJobs settings jobs world).memory.processing = world.memory.processing) := by
  induction jobs generalizing world with
  | nil =>
    obtain ⟨processing,next,_,current⟩ := finishCloseIfIdle_frame
      {world.memory with processing := false, jobsToProcess := [], current := none}
    exact ⟨Sublist.refl _,next,.inl ⟨processing,current⟩⟩
  | cons first jobs ih =>
    obtain ⟨key,job⟩ := first
    have dropped (world : World) : (processJobs settings jobs (saveDrop key world)).databases.pendingDB.Sublist
          world.databases.pendingDB ∧
        (processJobs settings jobs (saveDrop key world)).memory.nextDueJobCheckAt = world.memory.nextDueJobCheckAt ∧
        ((processJobs settings jobs (saveDrop key world)).memory.processing = false ∧
            (processJobs settings jobs (saveDrop key world)).memory.current = none ∨
          (key,job)::jobs ≠ [] ∧
            (processJobs settings jobs (saveDrop key world)).memory.processing = world.memory.processing) := by
      obtain ⟨sub,next,idle⟩ := ih (saveDrop key world)
      exact ⟨sub.trans (erase_sublist _ _),next,idle.imp id fun waits => ⟨cons_ne_nil _ _,waits.2⟩⟩
    unfold processJobs
    cases job with
    | none => exact dropped {world with processed := world.processed ++ [(key,none)]}
    | some job =>
      dsimp only
      split
      · exact dropped {world with processed := world.processed ++ [(key,some job)]}
      · exact ⟨Sublist.refl _,rfl,.inr ⟨cons_ne_nil _ _,rfl⟩⟩

/-- The cached check is not later than any job, and there is none while a sweep is under way. -/
structure Checked (world : World) : Prop where
  idle : world.memory.processing = true ∨ world.memory.current.isSome = true → world.memory.nextDueJobCheckAt = 0
  bound : world.memory.nextDueJobCheckAt = 0 ∨
    ∀ row ∈ world.databases.pendingDB, ∀ job, row.2 = some job → world.memory.nextDueJobCheckAt ≤ job.nextAttemptAt

def ProcessesDue (settings : Settings) (world : World) (timeNow : Time) : Prop :=
  ∃ news, (processDueJobs settings timeNow world).processed = world.processed ++ news ∧
    ∃ row ∈ news, ∃ job, row.2 = some job ∧ job.nextAttemptAt ≤ timeNow

theorem sweep_processes (positive : 0 < settings.stalePendingBlockProcessLimit) (checked : Checked world)
    (few : (malformed world.databases.pendingDB).length < 100) (free : world.memory.processing = false)
    (opened : world.memory.closed = false) {key : JobKey} {job : Job}
    (member : (key,some job) ∈ world.databases.pendingDB)
    (due : job.nextAttemptAt ≤ timeNow) : ProcessesDue settings world timeNow := by
  have looks : ¬(decide (world.memory.nextDueJobCheckAt ≠ 0) &&
      decide (timeNow < world.memory.nextDueJobCheckAt)) = true := by
    rcases checked.bound with none_ | bound
    · simp [none_]
    · have early := (bound _ member job rfl).trans due
      simp [not_lt.mpr early]
  obtain ⟨row,loaded,other,here,isDue⟩ := load_due few member due
  obtain ⟨early,key',job',late,selected,none_,inside⟩ :=
    @select_first settings timeNow positive _ world.databases.pendingDB ⟨row,loaded,by rw [here]; rfl⟩
  have later : job'.nextAttemptAt ≤ timeNow := by
    obtain ⟨more,_,all,same⟩ := @collect_sublist timeNow 100 world.databases.pendingDB ⟨[],none⟩
    unfold loadDueJobs at inside
    rw [mem_mergeSort,same,nil_append] at inside
    exact isDue_iff.mp (all _ inside) job' rfl
  unfold ProcessesDue processDueJobs
  rw [if_neg (by simp [free,opened]),if_neg looks]
  dsimp only
  rw [selected]
  obtain ⟨news,grown,first⟩ := @processJobs_first settings early late key' job' none_ _
  exact ⟨news,grown,_,first,job',rfl,later⟩

def Noticed (world : World) : Event → Prop
  | .enqueueBlock worker _ _ timeNow | .enqueueAltBlock worker _ _ timeNow =>
    worker = true → world.memory.nextDueJobCheckAt = 0 ∨ world.memory.nextDueJobCheckAt ≤ timeNow
  | _ => True

structure DueInv (limit : ℕ) (world : World) : Prop extends Checked world where
  few : (malformed world.databases.pendingDB).length < limit

theorem enqueue_inv {worker : Bool} {key : JobKey} {job : Job} (inv : DueInv limit world) (noticed : worker = true →
      world.memory.nextDueJobCheckAt = 0 ∨ world.memory.nextDueJobCheckAt ≤ job.nextAttemptAt) :
    DueInv limit (enqueue settings worker key job world) := by
  have few : (malformed (save settings world.databases.pendingDB key job)).length < limit :=
    lt_of_le_of_lt save_malformed.length_le inv.few
  cases worker with
  | false => exact ⟨⟨fun _ => rfl,.inl rfl⟩,few⟩
  | true =>
    refine ⟨⟨inv.idle,?_⟩,few⟩
    rcases inv.bound with none_ | bound
    · exact .inl none_
    · rcases noticed rfl with none_ | early
      · exact .inl none_
      · refine .inr fun row member other here => ?_
        rcases mem_save member with old | rfl
        · exact bound row old other here
        · cases here
          exact early

theorem processJobs_inv (jobs : List PendingJob)
    (few : (malformed world.databases.pendingDB).length < limit) (none_ : world.memory.nextDueJobCheckAt = 0) :
    DueInv limit (processJobs settings jobs world) := by
  obtain ⟨sub,next,_⟩ := @processJobs_frame settings jobs world
  have same := next.trans none_
  exact ⟨⟨fun _ => same,.inl same⟩,lt_of_le_of_lt (sub.filter _).length_le few⟩

theorem processDueJobs_inv (inv : DueInv limit world) : DueInv limit (processDueJobs settings timeNow world) := by
  unfold processDueJobs
  split
  · exact inv
  · split
    · exact inv
    · dsimp only
      by_cases empty : (loadDueJobs world.databases.pendingDB timeNow 100).jobs = []
      · rw [empty]
        simp only [selectJobsForProcessing,isEmpty_nil,if_true]
        obtain ⟨sub,next,idle⟩ := @processJobs_frame settings []
          {world with memory := {pruneState world.memory timeNow with
            processing := true
            nextDueJobCheckAt := (loadDueJobs world.databases.pendingDB timeNow 100).nextDueAt.getD 0}}
        rcases idle with ⟨free,none_⟩ | ⟨some_,_⟩
        · refine ⟨⟨?_,.inr ?_⟩,lt_of_le_of_lt (sub.filter _).length_le inv.few⟩
          · rintro (busy | waits)
            · rw [free] at busy
              cases busy
            · rw [none_] at waits
              cases waits
          · intro row member job here
            obtain ⟨key,_⟩ := row
            obtain rfl : _ = some job := here
            obtain ⟨time,last,less⟩ := @load_next timeNow 100 _ (by decide) empty key job (sub.subset member)
            rw [next,last]
            exact less
        · exact absurd rfl some_
      · have some_ : (loadDueJobs world.databases.pendingDB timeNow 100).jobs.isEmpty = false := by simpa using empty
        rw [some_]
        exact processJobs_inv _ (lt_of_le_of_lt (select_rows _).length_le inv.few) rfl

private theorem reply_inv {header : Reply} {reach : Reach} {after : World} (inv : DueInv limit world)
    (moved : reply settings header timeNow reach world = some after) : DueInv limit after := by
  obtain ⟨current,waits,moved⟩ := bind_eq_some_iff.mp moved
  have none_ : world.memory.nextDueJobCheckAt = 0 := inv.idle (.inr (by rw [waits]; rfl))
  have kept : (onHeader settings world.memory current header timeNow).2.nextDueJobCheckAt = 0 :=
    (onHeader_spec settings world.memory current header timeNow).1.2.2.1.trans none_
  have erased (rows : List PendingJob) (few : (malformed rows).length < limit) :
      (malformed (erase rows current.key)).length < limit :=
    lt_of_le_of_lt ((erase_sublist rows current.key).filter _).length_le few
  dsimp only at moved
  cases outcome : (onHeader settings world.memory current header timeNow).1 with
  | retry job =>
    rw [outcome] at moved
    obtain ⟨_,_,moved⟩ := bind_eq_some_iff.mp moved
    cases moved
    exact processJobs_inv _ (lt_of_le_of_lt save_malformed.length_le inv.few) kept
  | drop =>
    rw [outcome] at moved
    obtain ⟨_,_,moved⟩ := bind_eq_some_iff.mp moved
    cases moved
    exact processJobs_inv _ (erased _ inv.few) kept
  | resolve block =>
    rw [outcome] at moved
    simp only [resolve] at moved
    cases saved : saveResolved current.job.blockId block world.databases with
    | none =>
      rw [saved] at moved
      dsimp only at moved
      split at moved
      · cases moved
        exact processJobs_inv _ (erased _ inv.few) kept
      · cases moved
    | some databases =>
      have rows := saveResolved_rows saved
      rw [saved] at moved
      dsimp only at moved
      cases reach with
      | commit | caches =>
        cases moved
        refine ⟨⟨fun _ => rfl,.inl rfl⟩,?_⟩
        change (malformed databases.pendingDB).length < limit
        rw [rows]
        exact inv.few
      | removal =>
        cases moved
        refine processJobs_inv _ (erased databases.pendingDB ?_) kept
        rw [rows]
        exact inv.few

theorem step_inv {event : Event} {after : World} (inv : DueInv limit world) (noticed : Noticed world event)
    (moved : step settings world event = some after) : DueInv limit after := by
  cases event with
  | enqueueBlock worker blockId payload timeNow | enqueueAltBlock worker blockId payload timeNow =>
    obtain ⟨block,_,moved⟩ := bind_eq_some_iff.mp moved
    cases moved
    exact enqueue_inv inv noticed
  | processDueJobs timeNow =>
    cases moved
    exact processDueJobs_inv inv
  | onHeader header timeNow reach => exact reply_inv inv moved
  | close =>
    cases moved
    obtain ⟨processing,next,_,current⟩ := finishCloseIfIdle_frame {world.memory with closed := true}
    refine ⟨⟨?_,?_⟩,inv.few⟩
    · rintro (busy | waits)
      · exact next.trans (inv.idle (.inl (processing.symm.trans busy)))
      · exact next.trans (inv.idle (.inr (by rw [← waits]; exact congrArg isSome current.symm)))
    · exact inv.bound.imp next.trans fun bound row member job here => next.le.trans (bound row member job here)
  | crash =>
    cases moved
    exact ⟨⟨fun _ => rfl,.inl rfl⟩,inv.few⟩
  | invalidateBlock blockId | invalidateAltBlock blockId =>
    obtain ⟨block,_,moved⟩ := bind_eq_some_iff.mp moved
    cases moved
    exact ⟨⟨inv.idle,inv.bound⟩,inv.few⟩

/-- Whenever a sweep runs with a due job in the database, it processes one, in every run in
which the primary notices what workers enqueue. -/
theorem due_job_processed (settings : Settings) (positive : 0 < settings.stalePendingBlockProcessLimit)
    (rows : List PendingJob) (few : (malformed rows).length < 100)
    {world : World} (reachable : (pendingJobs settings rows).ReachableBy Noticed world) (timeNow : Time)
    (free : world.memory.processing = false) (opened : world.memory.closed = false) (key : JobKey) (job : Job)
    (member : (key,some job) ∈ world.databases.pendingDB) (due : job.nextAttemptAt ≤ timeNow) :
    ProcessesDue settings world timeNow := by
  have inv : DueInv 100 world := by
    refine reachable.invariant (DueInv 100) ?_ fun _ _ _ inv noticed moved => step_inv inv noticed moved
    rintro world rfl
    exact ⟨⟨fun _ => rfl,.inl rfl⟩,few⟩
  exact sweep_processes positive inv.toChecked inv.few free opened member due

def sampleBlock (hash : String) : BlockMessage := ⟨hash,9,0,0,.PPLNS,false,true,0,false⟩

def sampleSettings : Settings where
  decodeBlock payload := some (sampleBlock payload)
  decodeAltBlock payload := some ⟨sampleBlock payload,8545,7,5,0,"",""⟩
  before _ _ := false
  retryDelayMs := 30000
  maxRetryDelayMs := 1800000
  orphanGraceMs := 600000
  stalePendingBlockAgeMs := 2592000000
  stalePendingBlockProcessLimit := 5
  stalePendingBlockRetryDelayMs := 21600000
  unlockConfirmationDepth _ := 0

/-- The first block waits for its reward; the next check is cached, and a worker enqueues a
second block before that. -/
def unnoticedEvents : List Event :=
  [.enqueueBlock false 1 "aa" 1000,.processDueJobs 1000,.onHeader ⟨true,none⟩ 1000 .removal,.processDueJobs 2000,
    .enqueueBlock true 2 "bb" 3000]

/-- The sweep that the worker asks for passes its block over. -/
theorem worker_job_skipped : ¬∀ (rows : List PendingJob) (world : World) (timeNow : Time) (key : JobKey) (job : Job),
    (pendingJobs sampleSettings rows).Reachable world → world.memory.processing = false → world.memory.closed = false →
      (key,some job) ∈ world.databases.pendingDB → job.nextAttemptAt ≤ timeNow →
        ProcessesDue sampleSettings world timeNow := by
  intro processes
  have ran : ((pendingJobs sampleSettings []).run {} unnoticedEvents).isSome = true := by decide +kernel
  obtain ⟨world,ran⟩ := Option.isSome_iff_exists.mp ran
  have ends : ((pendingJobs sampleSettings []).run {} unnoticedEvents).map (fun world =>
      (world.memory.processing,world.memory.closed,
        world.databases.pendingDB.any (fun row => row.2.any fun job => job.nextAttemptAt ≤ 4000),
        (processDueJobs sampleSettings 4000 world).processed.length,world.processed.length)) =
      some (false,false,true,1,1) := by decide +kernel
  rw [ran] at ends
  simp only [Option.map_some,Option.some.injEq,Prod.mk.injEq] at ends
  obtain ⟨free,opened,due,after,before⟩ := ends
  obtain ⟨row,member,due⟩ := List.any_eq_true.mp due
  obtain ⟨job,here,due⟩ := (Option.any_eq_true _ _).mp due
  obtain ⟨key,_⟩ := row
  obtain rfl : _ = some job := here
  obtain ⟨news,grown,row,inside,_⟩ :=
    processes [] world 4000 key job (Machine.reachable_run rfl ran) free opened member (of_decide_eq_true due)
  rw [grown,List.length_append,before] at after
  have none_ : news = [] := List.length_eq_zero_iff.mp (by omega)
  rw [none_] at inside
  cases inside

theorem primary_job_processed : ∃ world : World, (∃ job, (JobKey.block 1 "aa",some job) ∈ world.databases.pendingDB) ∧
    ProcessesDue sampleSettings world 1000 := by
  let world := enqueue sampleSettings false (.block 1 "aa") (newJob .block 1 "aa" 1000) {}
  have member : (JobKey.block 1 "aa",some (newJob .block 1 "aa" 1000)) ∈ world.databases.pendingDB := List.mem_cons_self
  have reachable : (pendingJobs sampleSettings []).ReachableBy Noticed world :=
    @Machine.ReachableBy.step _ _ _ Noticed {} world (.enqueueBlock false 1 "aa" 1000) (.initial rfl) nofun rfl
  refine ⟨world,⟨_,member⟩,?_⟩
  exact due_job_processed sampleSettings (by decide) [] (by decide) reachable 1000 rfl rfl _ _ member (le_refl 1000)

end Sweeping
end NodejsPool.RemoteShare.PendingJobs
