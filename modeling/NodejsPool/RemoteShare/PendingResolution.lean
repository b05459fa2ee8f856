import Mathlib.Data.Finset.Card
import NodejsPool.RemoteShare.PendingDue

/-! Found blocks are stored once: by height for the main chain, and under a free identifier for
the other chains, whatever is orphaned or replayed after a crash. -/
namespace NodejsPool.RemoteShare.PendingJobs
open Async Option

section Stores

variable {Value : Type} {store : Store Value} {slot : ℤ} {value : Value}

@[simp] theorem get_put_self : get (put store slot value) slot = some value := by simp [get,put]

theorem get_put_other {other : ℤ} (apart : other ≠ slot) : get (put store slot value) other = get store other := by
  unfold get put
  rw [List.find?_cons_of_neg (by simpa using apart.symm),List.find?_filter]
  congr 2
  funext entry
  by_cases here : entry.1 = other <;> simp [here,apart]

end Stores

section Probing

variable {altblockDB : Store AltBlockMessage} {hash : String} {fuel : ℕ} {slot : ℤ}

theorem probe_some {found : ℤ} (probed : probe altblockDB hash fuel slot = some (.free found)) :
    slot ≤ found ∧ get altblockDB found = none ∧
      ∀ other, slot ≤ other → other < found → ∃ block, get altblockDB other = some block ∧ block.hash ≠ hash := by
  induction fuel generalizing slot with
  | zero => cases probed
  | succ fuel ih =>
    unfold probe at probed
    cases held : get altblockDB slot with
    | none =>
      rw [held] at probed
      obtain rfl := Slot.free.inj (some.inj probed)
      exact ⟨le_refl _,held,fun other low high => absurd low (not_le.mpr high)⟩
    | some existing =>
      rw [held] at probed
      dsimp only at probed
      split at probed
      · cases probed
      next distinct =>
        obtain ⟨low,free,between⟩ := ih probed
        refine ⟨by omega,free,fun other above below => ?_⟩
        rcases eq_or_lt_of_le above with rfl | above
        · exact ⟨existing,held,distinct⟩
        · exact between other above below

def Reached (altblockDB : Store AltBlockMessage) (hash : String) (slot : ℤ) : Prop :=
  ∀ other record, get altblockDB other = some record → record.hash = hash →
    slot ≤ other ∧ ∀ between, slot ≤ between → between < other → (get altblockDB between).isSome = true

theorem reached_fresh {found : ℤ} (reached : Reached altblockDB hash slot)
    (probed : probe altblockDB hash fuel slot = some (.free found)) {other : ℤ} {record : AltBlockMessage}
    (held : get altblockDB other = some record) : record.hash ≠ hash := by
  intro same
  obtain ⟨low,free,others⟩ := probe_some probed
  obtain ⟨above,full⟩ := reached other record held same
  rcases lt_or_ge other found with below | beyond
  · obtain ⟨block,here,distinct⟩ := others other above below
    cases held.symm.trans here
    exact distinct same
  · rcases eq_or_lt_of_le beyond with rfl | beyond
    · rw [free] at held
      cases held
    · have some_ := full found low beyond
      rw [free] at some_
      cases some_

end Probing

section Naming

variable {settings : Settings}

def keyOf (blockId : ℤ) : Decoded → JobKey
  | .block block => blockKey blockId block
  | .altblock block => altBlockKey block

def Named (settings : Settings) (key : JobKey) (job : Job) : Prop :=
  ∃ decoded, decodePayload settings job = some decoded ∧ key = keyOf job.blockId decoded

def Ready (settings : Settings) (row : PendingJob) : Prop := ∃ job, row.2 = some job ∧ Named settings row.1 job

theorem Named.same {key : JobKey} {job other : Job} (named : Named settings key job) (type : other.type = job.type)
    (blockId : other.blockId = job.blockId) (payload : other.payload = job.payload) : Named settings key other := by
  obtain ⟨decoded,decodes,rfl⟩ := named
  refine ⟨decoded,?_,by rw [blockId]⟩
  unfold decodePayload at decodes ⊢
  rw [type,payload]
  exact decodes

theorem save_keys {rows : List PendingJob} {key : JobKey} {job : Job} {row : PendingJob} (member : row ∈ rows) :
    ∃ other ∈ save settings rows key job, other.1 = row.1 := by
  by_cases here : row.1 = key
  · refine ⟨(key,some job),?_,here.symm⟩
    unfold save
    exact List.mem_append_right _ List.mem_cons_self
  · refine ⟨row,?_,rfl⟩
    have inside : row ∈ erase rows key := List.mem_filter.mpr ⟨member,by simpa using here⟩
    unfold save
    rw [← List.takeWhile_append_dropWhile
      (p := fun row : PendingJob => settings.before row.1 key) (l := erase rows key)] at inside
    rcases List.mem_append.mp inside with early | late
    · exact List.mem_append_left _ early
    · exact List.mem_append_right _ (List.mem_cons_of_mem _ late)

theorem save_ready {rows : List PendingJob} {key : JobKey} {job : Job} (ready : ∀ row ∈ rows, Ready settings row)
    (named : Named settings key job) : ∀ row ∈ save settings rows key job, Ready settings row := by
  intro row member
  rcases mem_save member with old | rfl
  · exact ready row old
  · exact ⟨job,rfl,named⟩

theorem select_ready {timeNow : Time} {jobs : List PendingJob} {staleSelected : ℕ} {rows : List PendingJob}
    (jobsReady : ∀ row ∈ jobs, Ready settings row) (rowsReady : ∀ row ∈ rows, Ready settings row) :
    (∀ row ∈ (selectJobsForProcessing settings timeNow jobs staleSelected rows).1, Ready settings row) ∧
      (∀ row ∈ (selectJobsForProcessing settings timeNow jobs staleSelected rows).2, Ready settings row) ∧
      ∀ row ∈ rows, ∃ other ∈ (selectJobsForProcessing settings timeNow jobs staleSelected rows).2, other.1 =
        row.1 := by
  induction jobs generalizing staleSelected rows with
  | nil => exact ⟨nofun,rowsReady,fun row member => ⟨row,member,rfl⟩⟩
  | cons first jobs ih =>
    obtain ⟨key,job⟩ := first
    have later : ∀ row ∈ jobs, Ready settings row := fun row member => jobsReady row (List.mem_cons_of_mem _ member)
    obtain ⟨job,here,named⟩ := jobsReady _ List.mem_cons_self
    obtain rfl : _ = some job := here
    have keeps (staleSelected : ℕ) (rest : List PendingJob × List PendingJob)
        (parts : (∀ row ∈ rest.1, Ready settings row) ∧ (∀ row ∈ rest.2, Ready settings row) ∧
          ∀ row ∈ rows, ∃ other ∈ rest.2, other.1 = row.1) :
        (∀ row ∈ (key,some job)::rest.1, Ready settings row) ∧ (∀ row ∈ rest.2, Ready settings row) ∧
          ∀ row ∈ rows, ∃ other ∈ rest.2, other.1 = row.1 := by
      refine ⟨?_,parts.2⟩
      rintro row (_ | ⟨_,inside⟩)
      · exact ⟨job,rfl,named⟩
      · exact parts.1 row inside
    unfold selectJobsForProcessing
    split
    · split
      · have throttled : Named settings key (staleThrottle settings job timeNow) := named.same rfl rfl rfl
        obtain ⟨one,two,three⟩ := @ih staleSelected _ later (save_ready rowsReady throttled)
        refine ⟨one,two,fun row member => ?_⟩
        obtain ⟨middle,inside,same⟩ := @save_keys settings rows key (staleThrottle settings job timeNow) row member
        obtain ⟨other,last,same'⟩ := three middle inside
        exact ⟨other,last,same'.trans same⟩
      · exact keeps (staleSelected + 1) _ (ih later rowsReady)
    · exact keeps staleSelected _ (ih later rowsReady)

theorem processJobs_ready {jobs : List PendingJob} (ready : ∀ row ∈ jobs, Ready settings row) (world : World) :
    (processJobs settings jobs world).databases = world.databases ∧
      (∀ row ∈ (processJobs settings jobs world).memory.jobsToProcess, Ready settings row) ∧
      ∀ current, (processJobs settings jobs world).memory.current = some current →
        decodePayload settings current.job = some current.decoded ∧
          current.key = keyOf current.job.blockId current.decoded := by
  cases jobs with
  | nil =>
    obtain ⟨_,_,waiting,current⟩ := finishCloseIfIdle_frame
      {world.memory with processing := false, jobsToProcess := [], current := none}
    refine ⟨rfl,?_,?_⟩
    · intro row member
      rw [processJobs] at member
      rw [waiting] at member
      cases member
    · intro other here
      rw [processJobs] at here
      rw [current] at here
      cases here
  | cons first jobs =>
    obtain ⟨key,job⟩ := first
    obtain ⟨job,here,decoded,decodes,named⟩ := ready _ List.mem_cons_self
    obtain rfl : _ = some job := here
    have same : processJobs settings ((key,some job)::jobs) world =
        {world with
          processed := world.processed ++ [(key,some job)]
          memory := {world.memory with jobsToProcess := jobs, current := some ⟨key,job,decoded⟩}} := by
      simp only [processJobs,decodes]
    rw [same]
    refine ⟨rfl,fun row member => ready row (List.mem_cons_of_mem _ member),?_⟩
    rintro current waits
    cases waits
    exact ⟨decodes,named⟩

end Naming

section Runs

variable {settings : Settings} {world after : World} {event : Event}
  {key : JobKey} {job : Job} {block : BlockMessage} {slot : ℤ} {current : Current} {databases : Databases}
    {next : World} {jobs : List PendingJob} {change : BlockMessage → BlockMessage}

def OneRecord (altblockDB : Store AltBlockMessage) : Prop :=
  ∀ slot other record record', get altblockDB slot = some record → get altblockDB other = some record' →
    record.hash = record'.hash → slot = other

structure ResolutionInv (settings : Settings) (world : World) : Prop where
  rows : ∀ row ∈ world.databases.pendingDB, Ready settings row
  waiting : ∀ row ∈ world.memory.jobsToProcess, Ready settings row
  current : ∀ current, world.memory.current = some current →
    decodePayload settings current.job = some current.decoded ∧ current.key = keyOf current.job.blockId current.decoded
  unique : OneRecord world.databases.altblockDB

/-- A block of another chain is resolved only when every record of its hash is one that probing
from the identifier of its job comes to. -/
def Probed (settings : Settings) (world : World) : Event → Prop
  | .onHeader reply timeNow _ => ∀ current block resolved, world.memory.current = some current →
      current.decoded = .altblock block →
      (onHeader settings world.memory current reply timeNow).1 = .resolve resolved →
      Reached world.databases.altblockDB block.hash current.job.blockId
  | _ => True

structure SafeStep (settings : Settings) (world : World) (event : Event) (after : World) : Prop where
  /-- A valid block keeps its height. -/
  blocks_kept : ∀ blockId record, get world.databases.blockDB blockId = some record → record.valid = true →
    ∃ record', get after.databases.blockDB blockId = some record' ∧ record'.hash = record.hash
  altblocks_kept : ∀ blockId record, get world.databases.altblockDB blockId = some record →
    ∃ record', get after.databases.altblockDB blockId = some record' ∧ record'.hash = record.hash
  /-- A job records its block at its own height, and not again while it is there. -/
  blocks_once : ∀ reply timeNow reach, event = .onHeader reply timeNow reach → ∀ current block,
    world.memory.current = some current → current.decoded = .block block →
      (∀ blockId, blockId ≠ current.job.blockId →
        get after.databases.blockDB blockId = get world.databases.blockDB blockId) ∧
      ((∃ record, get world.databases.blockDB current.job.blockId = some record ∧ record.hash = block.hash) →
        after.databases.blockDB = world.databases.blockDB)
  altblocks_once : ∀ reply timeNow reach, event = .onHeader reply timeNow reach → ∀ current block,
    world.memory.current = some current → current.decoded = .altblock block →
      (∃ blockId record, get world.databases.altblockDB blockId = some record ∧ record.hash = block.hash) →
        after.databases.altblockDB = world.databases.altblockDB
  /-- The height of a job that goes is held by its own block or by a valid one. -/
  removed : ∀ key job block, (key,some job) ∈ world.databases.pendingDB → job.type = .block →
    settings.decodeBlock job.payload = some block → (∀ row ∈ after.databases.pendingDB, row.1 ≠ key) →
      ∃ record, get after.databases.blockDB job.blockId = some record ∧ (record.hash = block.hash ∨ record.valid = true)

theorem main_named (inv : ResolutionInv settings world)
    (member : (key,some job) ∈ world.databases.pendingDB) (type : job.type = .block)
    (decodes : settings.decodeBlock job.payload = some block) : key = keyOf job.blockId (.block block) := by
  obtain ⟨_,here,decoded,decodes',named⟩ := inv.rows _ member
  cases here
  unfold decodePayload at decodes'
  rw [type] at decodes'
  obtain rfl : Decoded.block block = decoded := by simpa [decodes] using decodes'
  exact named

theorem safe_rows (blocks : after.databases.blockDB = world.databases.blockDB)
    (altblocks : after.databases.altblockDB = world.databases.altblockDB)
    (keys : ∀ row ∈ world.databases.pendingDB, (∃ blockId block, row.1 = keyOf blockId (.block block)) →
      ∃ other ∈ after.databases.pendingDB, other.1 = row.1) (inv : ResolutionInv settings world) :
    SafeStep settings world event after := by
  constructor
  · intro blockId record held _
    exact ⟨record,blocks ▸ held,rfl⟩
  · intro blockId record held
    exact ⟨record,altblocks ▸ held,rfl⟩
  · intro _ _ _ _ _ _ _ _
    exact ⟨fun _ _ => by rw [blocks],fun _ => blocks⟩
  · intro _ _ _ _ _ _ _ _ _
    exact altblocks
  · intro key job block member type decodes gone
    obtain ⟨other,inside,same⟩ := keys _ member ⟨job.blockId,block,main_named inv member type decodes⟩
    exact absurd same (gone other inside)

theorem enqueue_safe {worker : Bool} (inv : ResolutionInv settings world)
    (named : Named settings key job) : SafeStep settings world event (enqueue settings worker key job world) ∧
      ResolutionInv settings (enqueue settings worker key job world) := by
  have rows : (enqueue settings worker key job world).databases.pendingDB =
      save settings world.databases.pendingDB key job := by
    cases worker <;> rfl
  have blocks : (enqueue settings worker key job world).databases.blockDB = world.databases.blockDB := by
    cases worker <;> rfl
  have altblocks : (enqueue settings worker key job world).databases.altblockDB = world.databases.altblockDB := by
    cases worker <;> rfl
  have waiting : (enqueue settings worker key job world).memory.jobsToProcess = world.memory.jobsToProcess := by
    cases worker <;> rfl
  have current : (enqueue settings worker key job world).memory.current = world.memory.current := by
    cases worker <;> rfl
  constructor
  · refine safe_rows blocks altblocks (fun row member _ => ?_) inv
    rw [rows]
    exact save_keys member
  · constructor
    · rw [rows]
      exact save_ready inv.rows named
    · rw [waiting]
      exact inv.waiting
    · rw [current]
      exact inv.current
    · rw [altblocks]
      exact inv.unique

theorem processDueJobs_safe {timeNow : Time} (inv : ResolutionInv settings world) :
    SafeStep settings world event (processDueJobs settings timeNow world) ∧
      ResolutionInv settings (processDueJobs settings timeNow world) := by
  unfold processDueJobs
  split
  · exact ⟨safe_rows rfl rfl (fun row member _ => ⟨row,member,rfl⟩) inv,inv⟩
  · split
    · exact ⟨safe_rows rfl rfl (fun row member _ => ⟨row,member,rfl⟩) inv,inv⟩
    · dsimp only
      have loaded : ∀ row ∈ (loadDueJobs world.databases.pendingDB timeNow 100).jobs, Ready settings row := by
        intro row member
        obtain ⟨more,sub,_,same⟩ := @collect_sublist timeNow 100 world.databases.pendingDB ⟨[],none⟩
        unfold loadDueJobs at member
        rw [List.mem_mergeSort,same,List.nil_append] at member
        exact inv.rows row (sub.subset member)
      obtain ⟨selected,rows,keys⟩ := @select_ready settings timeNow _ 0 _ loaded inv.rows
      obtain ⟨databases,waiting,current⟩ := processJobs_ready selected
        {world with
          memory := {pruneState world.memory timeNow with
            processing := true
            nextDueJobCheckAt := if (loadDueJobs world.databases.pendingDB timeNow 100).jobs.isEmpty then
              (loadDueJobs world.databases.pendingDB timeNow 100).nextDueAt.getD 0 else 0}
          databases := {world.databases with pendingDB :=
            (selectJobsForProcessing settings timeNow (loadDueJobs world.databases.pendingDB timeNow 100).jobs 0
              world.databases.pendingDB).2}}
      constructor
      · refine safe_rows (by rw [databases]) (by rw [databases]) ?_ inv
        intro row member _
        rw [databases]
        exact keys row member
      · refine ⟨?_,waiting,current,?_⟩
        · rw [databases]
          exact rows
        · rw [databases]
          exact inv.unique

theorem kept_invalidated {Value : Type} {store : Store Value} {value : Value} (hash : Value → String)
    (other : Value) (found : get store slot = some value) (same : hash other = hash value) {blockId : ℤ}
    {record : Value}
    (held : get store blockId = some record) : ∃ record', get (put store slot other) blockId = some record' ∧
    hash record' = hash record := by
  by_cases here : blockId = slot
  · subst here
    cases found.symm.trans held
    exact ⟨other,get_put_self,same⟩
  · exact ⟨record,(get_put_other here).trans held,rfl⟩

theorem oneRecord_put {altblockDB : Store AltBlockMessage} (unique : OneRecord altblockDB) {value : AltBlockMessage}
    (own : ∀ other record, get altblockDB other = some record → record.hash = value.hash → other = slot) :
    OneRecord (put altblockDB slot value) := by
  intro one two record record' held held' same
  by_cases here : one = slot <;> by_cases there : two = slot
  · rw [here,there]
  · subst here
    rw [get_put_self] at held
    rw [get_put_other there] at held'
    cases held
    exact (own two record' held' same.symm).symm
  · subst there
    rw [get_put_self] at held'
    rw [get_put_other here] at held
    cases held'
    exact own one record held same
  · rw [get_put_other here] at held
    rw [get_put_other there] at held'
    exact unique one two record record' held held' same

private theorem keyOf_block {blockId other : ℤ} {decoded : Decoded}
    (same : keyOf other decoded = keyOf blockId (.block block)) :
    other = blockId ∧ ∃ block', decoded = .block block' ∧ block'.hash = block.hash := by
  cases decoded with
  | block block' =>
    obtain ⟨id,hash⟩ := JobKey.block.inj same
    exact ⟨id,block',rfl,hash⟩
  | altblock _ => cases same

section

variable (inv : ResolutionInv settings world) (waits : world.memory.current = some current)
  (rows : after.databases.pendingDB = world.databases.pendingDB ∨
    after.databases.pendingDB = erase world.databases.pendingDB current.key)
include inv waits rows

theorem removed_current (member : (key,some job) ∈ world.databases.pendingDB)
    (type : job.type = .block) (decodes : settings.decodeBlock job.payload = some block)
    (gone : ∀ row ∈ after.databases.pendingDB, row.1 ≠ key) :
    current.job.blockId = job.blockId ∧ ∃ block', current.decoded = .block block' ∧ block'.hash = block.hash := by
  have same : key = current.key := by
    by_contra apart
    rcases rows with rows | rows
    · exact gone _ (rows ▸ member) rfl
    · refine gone (key,some job) ?_ rfl
      rw [rows]
      exact List.mem_filter.mpr ⟨member,by simpa using apart⟩
  have named := main_named inv member type decodes
  exact keyOf_block ((inv.current current waits).2.symm.trans (same.symm.trans named))

theorem duplicate_safe (blocks : after.databases.blockDB = world.databases.blockDB)
    (altblocks : after.databases.altblockDB = world.databases.altblockDB)
    (held : ∀ block, current.decoded = .block block →
      ∃ record, get world.databases.blockDB current.job.blockId = some record ∧
      (record.hash = block.hash ∨ record.valid = true)) : SafeStep settings world event after := by
  constructor
  · intro blockId record here _
    exact ⟨record,blocks ▸ here,rfl⟩
  · intro blockId record here
    exact ⟨record,altblocks ▸ here,rfl⟩
  · intro _ _ _ _ _ _ _ _
    exact ⟨fun _ _ => by rw [blocks],fun _ => blocks⟩
  · intro _ _ _ _ _ _ _ _ _
    exact altblocks
  · intro key job block member type decodes gone
    obtain ⟨id,block',main,hash⟩ := removed_current inv waits rows member type decodes gone
    obtain ⟨record,here,right⟩ := held block' main
    rw [blocks,← id,← hash]
    exact ⟨record,here,right⟩

theorem stored_block_safe {record : BlockMessage} (main : current.decoded = .block block)
    (hash : record.hash = block.hash)
    (free : ∀ existing, get world.databases.blockDB current.job.blockId = some existing →
      existing.hash ≠ block.hash ∧ existing.valid = false)
    (blocks : after.databases.blockDB = put world.databases.blockDB current.job.blockId record)
    (altblocks : after.databases.altblockDB = world.databases.altblockDB) : SafeStep settings world event after := by
  constructor
  · intro blockId existing here valid
    by_cases own : blockId = current.job.blockId
    · subst own
      rw [(free existing here).2] at valid
      cases valid
    · exact ⟨existing,by rw [blocks,get_put_other own,here],rfl⟩
  · intro blockId record here
    exact ⟨record,altblocks ▸ here,rfl⟩
  · intro _ _ _ _ other block' waits' main'
    cases waits.symm.trans waits'
    obtain rfl := Decoded.block.inj (main.symm.trans main')
    refine ⟨fun blockId apart => by rw [blocks,get_put_other apart],?_⟩
    rintro ⟨existing,here,same⟩
    exact absurd same (free existing here).1
  · intro _ _ _ _ _ _ _ _ _
    exact altblocks
  · intro key job block' member type decodes gone
    obtain ⟨id,block'',main',hash'⟩ := removed_current inv waits rows member type decodes gone
    obtain rfl := Decoded.block.inj (main.symm.trans main')
    rw [blocks,← id]
    exact ⟨record,get_put_self,.inl (hash.trans hash')⟩

private theorem stored_altblock_safe {block record : AltBlockMessage} (alt : current.decoded = .altblock block)
    (free : get world.databases.altblockDB slot = none)
    (fresh : ∀ other existing, get world.databases.altblockDB other = some existing → existing.hash ≠ block.hash)
    (blocks : after.databases.blockDB = world.databases.blockDB)
    (altblocks : after.databases.altblockDB = put world.databases.altblockDB slot record) :
    SafeStep settings world event after := by
  constructor
  · intro blockId existing here _
    exact ⟨existing,blocks ▸ here,rfl⟩
  · intro blockId existing here
    have apart : blockId ≠ slot := by
      rintro rfl
      rw [free] at here
      cases here
    exact ⟨existing,by rw [altblocks,get_put_other apart,here],rfl⟩
  · intro _ _ _ _ _ _ _ _
    exact ⟨fun _ _ => by rw [blocks],fun _ => blocks⟩
  · intro _ _ _ _ other block' waits' alt' held
    cases waits.symm.trans waits'
    obtain rfl := Decoded.altblock.inj (alt.symm.trans alt')
    obtain ⟨blockId,existing,here,same⟩ := held
    exact absurd same (fresh blockId existing here)
  · intro key job block' member type decodes gone
    obtain ⟨_,_,main,_⟩ := removed_current inv waits rows member type decodes gone
    rw [alt] at main
    cases main

end

theorem resolved_safe (inv : ResolutionInv settings world) {current : Current}
    (waits : world.memory.current = some current)
    {change : BlockMessage → BlockMessage} (hash : ∀ message, (change message).hash = message.hash)
    (probed : ∀ block, current.decoded = .altblock block →
      Reached world.databases.altblockDB block.hash current.job.blockId) {databases : Databases}
    (saved : saveResolved current.job.blockId (current.decoded.change change) world.databases = some databases)
    (blocks : after.databases.blockDB = databases.blockDB)
    (altblocks : after.databases.altblockDB = databases.altblockDB)
    (rows : after.databases.pendingDB = world.databases.pendingDB ∨
      after.databases.pendingDB = erase world.databases.pendingDB current.key) :
    SafeStep settings world event after ∧ OneRecord after.databases.altblockDB := by
  cases decoded : current.decoded with
  | block block =>
    rw [decoded] at saved
    obtain ⟨⟨shares,same⟩,free⟩ := saveResolvedBlock_some saved
    rw [hash] at free
    have altblocks : after.databases.altblockDB = world.databases.altblockDB := by rw [altblocks,same]
    have put_ := blocks.trans (congrArg Databases.blockDB same)
    refine ⟨stored_block_safe inv waits rows decoded ?_ free put_ altblocks,?_⟩
    · exact hash block
    · rw [altblocks]
      exact inv.unique
  | altblock block =>
    rw [decoded] at saved
    obtain ⟨slot,record,same,hash',free⟩ := saveResolvedAltBlock_some saved
    have own : record.hash = block.hash := hash'.trans (hash block.toBlockMessage)
    have reached := probed block decoded
    have fresh (other : ℤ) (existing : AltBlockMessage) (here : get world.databases.altblockDB other = some existing) :
        existing.hash ≠ block.hash := by
      have probed : probe world.databases.altblockDB block.hash (world.databases.altblockDB.length + 1)
        current.job.blockId =
          some (.free slot) := by
        rw [← hash block.toBlockMessage]
        exact free
      exact reached_fresh reached probed here
    refine ⟨stored_altblock_safe inv waits rows decoded (probe_some free).2.1 fresh (by rw [blocks,same])
      (by rw [altblocks,same]),?_⟩
    rw [altblocks,same]
    exact oneRecord_put inv.unique fun other existing here equal => absurd (equal.trans own) (fresh other existing here)

theorem processed_inv (inv : ResolutionInv settings world) {next : World} {jobs : List PendingJob}
    (waiting : jobs = world.memory.jobsToProcess) (rows : ∀ row ∈ next.databases.pendingDB, Ready settings row)
    (unique : OneRecord next.databases.altblockDB) : ResolutionInv settings (processJobs settings jobs next) ∧
      (processJobs settings jobs next).databases = next.databases := by
  have ready : ∀ row ∈ jobs, Ready settings row := by
    rw [waiting]
    exact inv.waiting
  obtain ⟨databases,waits,current⟩ := processJobs_ready ready next
  refine ⟨⟨?_,waits,current,?_⟩,databases⟩
  · rw [databases]
    exact rows
  · rw [databases]
    exact unique

theorem erase_ready (inv : ResolutionInv settings world) (key : JobKey) :
    ∀ row ∈ erase world.databases.pendingDB key, Ready settings row :=
  fun row member => inv.rows row (List.mem_of_mem_filter member)

theorem restart_inv {processed : List PendingJob}
    (rows : ∀ row ∈ databases.pendingDB, Ready settings row) (unique : OneRecord databases.altblockDB) :
    ResolutionInv settings {memory := {}, databases := databases, processed := processed} := by
  constructor
  · exact rows
  · intro row member
    cases member
  · intro current waits
    cases waits
  · exact unique

section

variable (inv : ResolutionInv settings world)
include inv

theorem retried_safe (named : Named settings key job) (waiting : jobs = world.memory.jobsToProcess)
    (databases : next.databases = {world.databases with pendingDB := save settings world.databases.pendingDB key job}) :
    SafeStep settings world event (processJobs settings jobs next) ∧
      ResolutionInv settings (processJobs settings jobs next) := by
  obtain ⟨kept,same⟩ := @processed_inv settings world inv next jobs waiting
    (by rw [databases]; exact save_ready inv.rows named) (by rw [databases]; exact inv.unique)
  rw [databases] at same
  refine ⟨safe_rows (by rw [same]) (by rw [same]) (fun row member _ => ?_) inv,kept⟩
  rw [same]
  exact save_keys member

theorem dropped_safe (waits : world.memory.current = some current) (waiting : jobs = world.memory.jobsToProcess)
    (databases : next.databases = {world.databases with pendingDB := erase world.databases.pendingDB current.key})
    (held : ∀ block, current.decoded = .block block →
      ∃ record, get world.databases.blockDB current.job.blockId = some record ∧
      (record.hash = block.hash ∨ record.valid = true)) :
    SafeStep settings world event (processJobs settings jobs next) ∧
      ResolutionInv settings (processJobs settings jobs next) := by
  obtain ⟨kept,same⟩ := @processed_inv settings world inv next jobs waiting
    (by rw [databases]; exact erase_ready inv current.key) (by rw [databases]; exact inv.unique)
  rw [databases] at same
  exact ⟨duplicate_safe inv waits (.inr (by rw [same])) (by rw [same]) (by rw [same]) held,kept⟩

private theorem stored_safe (waits : world.memory.current = some current)
    (hash : ∀ message, (change message).hash = message.hash) (probed : ∀ block, current.decoded = .altblock block →
      Reached world.databases.altblockDB block.hash current.job.blockId)
    (saved : saveResolved current.job.blockId (current.decoded.change change) world.databases = some databases)
    (waiting : jobs = world.memory.jobsToProcess)
    (blocks : next.databases.blockDB = databases.blockDB) (altblocks : next.databases.altblockDB = databases.altblockDB)
    (rows : next.databases.pendingDB = erase world.databases.pendingDB current.key) :
    SafeStep settings world event (processJobs settings jobs next) ∧
    ResolutionInv settings (processJobs settings jobs next) := by
  obtain ⟨_,unique⟩ := @resolved_safe settings world next event inv current waits change hash probed
    databases saved blocks altblocks (.inr rows)
  obtain ⟨kept,same⟩ := @processed_inv settings world inv next jobs waiting
    (by rw [rows]; exact erase_ready inv current.key) unique
  refine ⟨?_,kept⟩
  exact (resolved_safe inv waits hash probed saved (by rw [same,blocks]) (by rw [same,altblocks])
    (.inr (by rw [same,rows]))).1

private theorem resolve_safe (waits : world.memory.current = some current)
    (hash : ∀ message, (change message).hash = message.hash) (probed : ∀ block, current.decoded = .altblock block →
      Reached world.databases.altblockDB block.hash current.job.blockId) {reach : Reach} {memory : Memory}
    (waiting : memory.jobsToProcess = world.memory.jobsToProcess)
    (moved : resolve settings current (current.decoded.change change) reach {world with memory := memory} =
      some after) :
    SafeStep settings world event after ∧ ResolutionInv settings after := by
  unfold resolve at moved
  dsimp only at moved
  cases saved : saveResolved current.job.blockId (current.decoded.change change) world.databases with
  | none =>
    rw [saved] at moved
    dsimp only at moved
    split at moved
    · cases moved
      refine dropped_safe inv waits waiting rfl fun block main => ?_
      rw [main] at saved
      obtain ⟨existing,here,right⟩ := saveResolvedBlock_none saved
      exact ⟨existing,here,by rwa [hash] at right⟩
    · cases moved
  | some databases =>
    have rows := saveResolved_rows saved
    have ready : ∀ row ∈ databases.pendingDB, Ready settings row := by
      rw [rows]
      exact inv.rows
    rw [saved] at moved
    dsimp only at moved
    cases reach with
    | commit | caches =>
      cases moved
      refine ⟨(resolved_safe inv waits hash probed saved rfl rfl (.inl rows)).1,restart_inv ready ?_⟩
      exact (@resolved_safe settings world {databases := databases} event inv current waits change hash probed databases
        saved rfl rfl (.inl rows)).2
    | removal =>
      cases moved
      refine stored_safe inv waits hash probed saved waiting rfl rfl ?_
      exact congrArg (fun rows => erase rows current.key) rows

end

private theorem reply_safe {header : Reply} {timeNow : Time} {reach : Reach} (inv : ResolutionInv settings world)
    (probed : Probed settings world (.onHeader header timeNow reach))
    (moved : reply settings header timeNow reach world = some after) :
    SafeStep settings world event after ∧ ResolutionInv settings after := by
  obtain ⟨current,waits,moved⟩ := bind_eq_some_iff.mp moved
  obtain ⟨⟨_,_,_,sweep⟩,of⟩ := onHeader_spec settings world.memory current header timeNow
  obtain ⟨decodes,named⟩ := inv.current current waits
  dsimp only at moved
  cases outcome : (onHeader settings world.memory current header timeNow).1 with
  | retry job =>
    rw [outcome] at moved of
    obtain ⟨_,_,moved⟩ := bind_eq_some_iff.mp moved
    cases moved
    obtain ⟨type,blockId,payload⟩ := of
    have own : Named settings current.key current.job := ⟨current.decoded,decodes,named⟩
    exact retried_safe inv (own.same type blockId payload) sweep rfl
  | drop =>
    rw [outcome] at moved of
    obtain ⟨_,_,moved⟩ := bind_eq_some_iff.mp moved
    cases moved
    obtain ⟨block,alt⟩ := of
    refine dropped_safe inv waits sweep rfl fun block' main => ?_
    rw [alt] at main
    cases main
  | resolve block =>
    rw [outcome] at moved of
    obtain ⟨change,hash,rfl⟩ := of
    exact resolve_safe inv waits hash (fun block alt => probed current block _ waits alt outcome) sweep moved

private theorem step_safe (inv : ResolutionInv settings world) (probed : Probed settings world event)
    (moved : step settings world event = some after) : SafeStep settings world event after ∧
    ResolutionInv settings after := by
  have still {memory : Memory} {databases : Databases} (same : databases.pendingDB = world.databases.pendingDB)
      (blocks : databases.blockDB = world.databases.blockDB)
      (altblocks : databases.altblockDB = world.databases.altblockDB) :
      SafeStep settings world event {memory := memory, databases := databases, processed := world.processed} :=
    safe_rows blocks altblocks (fun row member _ => ⟨row,same ▸ member,rfl⟩) inv
  cases event with
  | enqueueBlock worker blockId payload timeNow =>
    obtain ⟨block,decodes,moved⟩ := bind_eq_some_iff.mp moved
    cases moved
    exact enqueue_safe inv ⟨.block block,by simp [decodePayload,newJob,decodes],rfl⟩
  | enqueueAltBlock worker blockId payload timeNow =>
    obtain ⟨block,decodes,moved⟩ := bind_eq_some_iff.mp moved
    cases moved
    exact enqueue_safe inv ⟨.altblock block,by simp [decodePayload,newJob,decodes],rfl⟩
  | processDueJobs timeNow =>
    cases moved
    exact processDueJobs_safe inv
  | onHeader header timeNow reach => exact reply_safe inv probed moved
  | close =>
    cases moved
    obtain ⟨_,_,waiting,current⟩ := finishCloseIfIdle_frame {world.memory with closed := true}
    refine ⟨still rfl rfl rfl,inv.rows,?_,?_,inv.unique⟩
    · rw [waiting]
      exact inv.waiting
    · rw [current]
      exact inv.current
  | crash =>
    cases moved
    exact ⟨still rfl rfl rfl,restart_inv inv.rows inv.unique⟩
  | invalidateBlock blockId =>
    obtain ⟨block,held,moved⟩ := bind_eq_some_iff.mp moved
    cases moved
    refine ⟨?_,inv.rows,inv.waiting,inv.current,inv.unique⟩
    constructor
    · intro other record here _
      exact kept_invalidated BlockMessage.hash (invalidated block) held rfl here
    · intro other record here
      exact ⟨record,here,rfl⟩
    · intro _ _ _ other
      cases other
    · intro _ _ _ other
      cases other
    · intro key job block' member _ _ gone
      exact absurd rfl (gone _ member)
  | invalidateAltBlock blockId =>
    obtain ⟨block,held,moved⟩ := bind_eq_some_iff.mp moved
    cases moved
    refine ⟨?_,inv.rows,inv.waiting,inv.current,?_⟩
    · constructor
      · intro other record here _
        exact ⟨record,here,rfl⟩
      · intro other record here
        exact kept_invalidated (fun block : AltBlockMessage => block.hash)
          {block with toBlockMessage := invalidated block.toBlockMessage} held rfl here
      · intro _ _ _ other
        cases other
      · intro _ _ _ other
        cases other
      · intro key job block' member _ _ gone
        exact absurd rfl (gone _ member)
    · exact oneRecord_put inv.unique fun other record here same => inv.unique other blockId record block here held same

/-- In every run whose blocks of other chains are resolved within reach of their records, no hash
of those chains is recorded twice, and every further step keeps valid blocks, records a block
once and drops a main-block job only with its height held. -/
theorem resolution_safe (settings : Settings) {world : World}
    (reachable : (pendingJobs settings []).ReachableBy (Probed settings) world) :
    OneRecord world.databases.altblockDB ∧ ∀ event after, Probed settings world event →
      step settings world event = some after → SafeStep settings world event after := by
  have inv : ResolutionInv settings world := by
    refine reachable.invariant (ResolutionInv settings) ?_ fun _ _ _ inv probed moved => (step_safe inv probed moved).2
    rintro world rfl
    refine restart_inv ?_ ?_
    · intro row member
      cases member
    · intro slot other record record' held
      cases held
  exact ⟨inv.unique,fun event after probed moved => (step_safe inv probed moved).1⟩

def rewardReply : Reply := ⟨false,some {reward := some 600}⟩

def repeatedHash : List Event :=
  [.enqueueAltBlock false 100 "aa" 1000,.processDueJobs 1000,.onHeader rewardReply 1000 .removal,
    .enqueueAltBlock false 50 "aa" 2000,.processDueJobs 2000,.onHeader rewardReply 2000 .removal]

theorem repeated_hash_recorded_twice : ¬∀ world, (pendingJobs sampleSettings []).Reachable world →
    OneRecord world.databases.altblockDB := by
  intro unique
  have ran : ((pendingJobs sampleSettings []).run {} repeatedHash).isSome = true := by decide +kernel
  obtain ⟨world,ran⟩ := Option.isSome_iff_exists.mp ran
  have ends : ((pendingJobs sampleSettings []).run {} repeatedHash).map (fun world =>
      ((get world.databases.altblockDB 100).map fun record => record.hash,
        (get world.databases.altblockDB 50).map fun record => record.hash)) =
        some (some "aa",some "aa") := by decide +kernel
  rw [ran] at ends
  simp only [Option.map_some,Option.some.injEq,Prod.mk.injEq] at ends
  obtain ⟨first,second⟩ := ends
  obtain ⟨record,held,hash⟩ := Option.map_eq_some_iff.mp first
  obtain ⟨record',held',hash'⟩ := Option.map_eq_some_iff.mp second
  have same := unique world (Machine.reachable_run rfl ran) 100 50 record record' held held' (hash.trans hash'.symm)
  cases same

def isMain (current : Current) : Bool :=
  match current.decoded with
  | .block _ => true
  | .altblock _ => false

theorem crashed_block_safe : ∃ world after, step sampleSettings world (.onHeader rewardReply 2000 .commit) =
    some after ∧
    SafeStep sampleSettings world (.onHeader rewardReply 2000 .commit) after := by
  have ran : (((pendingJobs sampleSettings []).run {} [.enqueueBlock false 1 "aa" 1000,.processDueJobs 1000]).bind
      fun world => step sampleSettings world (.onHeader rewardReply 2000 .commit)).isSome = true := by decide +kernel
  have main : ((pendingJobs sampleSettings []).run {} [.enqueueBlock false 1 "aa" 1000,.processDueJobs 1000]).map
      (fun world => world.memory.current.all isMain) = some true := by decide +kernel
  obtain ⟨after,ran⟩ := Option.isSome_iff_exists.mp ran
  obtain ⟨world,ran,moved⟩ := Option.bind_eq_some_iff.mp ran
  rw [ran] at main
  have reachable : (pendingJobs sampleSettings []).ReachableBy (Probed sampleSettings) world := by
    refine Machine.ReachableBy.run (.initial rfl) ?_ ran
    rintro _ (_ | ⟨_,_ | ⟨_,inside⟩⟩) _
    · trivial
    · trivial
    · cases inside
  have probed : Probed sampleSettings world (.onHeader rewardReply 2000 .commit) := by
    intro current block _ waits alt
    rw [Option.map_some,waits] at main
    simp [isMain,alt] at main
  exact ⟨world,after,moved,(resolution_safe sampleSettings reachable).2 _ after probed moved⟩

end Runs
end NodejsPool.RemoteShare.PendingJobs
