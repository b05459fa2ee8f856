import NodejsPool.Async.Machine
import NodejsPool.RemoteShare.ShareStore

/-! Pending block jobs: found blocks wait in a database until their daemon knows a reward for
them, and are then stored with the block records. -/
namespace NodejsPool.RemoteShare.PendingJobs
open Async
open BlockManager (PoolType)
open ShareStore (poolTypeStr)

abbrev Time := ℚ

structure BlockMessage where
  hash : String
  difficulty : ℚ
  shares : ℚ
  timestamp : ℤ
  poolType : PoolType
  unlocked : Bool
  valid : Bool
  value : ℚ := 0
  pay_ready : Bool := false

structure AltBlockMessage extends BlockMessage where
  port : ℤ
  height : ℤ
  anchor_height : ℤ
  pay_value : ℚ := 0
  pay_stage : String := ""
  pay_status : String := ""

/-- The texts `block:id:hash` and `alt:port:height:hash`, and whatever else a row may be under. -/
inductive JobKey where
  | block (blockId : ℤ) (hash : String)
  | alt (port height : ℤ) (hash : String)
  | other (text : String)
  deriving DecidableEq

inductive JobType where
  | block
  | altblock

structure Job where
  type : JobType
  blockId : ℤ
  payload : String
  createdAt : Time
  nextAttemptAt : Time
  attempts : ℕ
  lastError : Option String

abbrev PendingJob := JobKey × Option Job

inductive Decoded where
  | block (block : BlockMessage)
  | altblock (block : AltBlockMessage)

/-- What a daemon's header says, as far as it is read. An error is a text, or an object that
may have a message. -/
inductive HeaderError where
  | text (text : String)
  | object (message : Option String)

structure Header where
  orphan_status : Bool := false
  topoheight : Option ℚ := none
  errorSource : Option String := none
  error : Option HeaderError := none
  reward : Option ℚ := none
  depth : Option ℚ := none

structure Reply where
  err : Bool
  header : Option Header

structure Settings where
  decodeBlock : String → Option BlockMessage
  decodeAltBlock : String → Option AltBlockMessage
  /-- The order of the cursor of the pending database. -/
  before : JobKey → JobKey → Bool
  retryDelayMs : ℚ
  maxRetryDelayMs : ℚ
  orphanGraceMs : ℚ
  stalePendingBlockAgeMs : ℚ
  stalePendingBlockProcessLimit : ℚ
  stalePendingBlockRetryDelayMs : ℚ
  /-- The depth that a port's profile asks for, zero when it asks for none. -/
  unlockConfirmationDepth : ℤ → ℚ

structure Current where
  key : JobKey
  job : Job
  decoded : Decoded

structure Memory where
  closed : Bool := false
  closeComplete : Bool := false
  processing : Bool := false
  nextDueJobCheckAt : Time := 0
  /-- The jobs of a sweep that are still to be processed, after the one that waits for its header. -/
  jobsToProcess : List PendingJob := []
  current : Option Current := none
  badAltBlocks : List (String × Time) := []
  potentiallyBadAltBlocks : List ((ℤ × String) × Time) := []
  orphanSince : List (JobKey × Time) := []

abbrev Store (Value : Type) := List (ℤ × Value)

structure Databases where
  pendingDB : List PendingJob := []
  blockDB : Store BlockMessage := []
  altblockDB : Store AltBlockMessage := []
  roundHashes : String → ℚ := fun _ => 0

/-- `processed` lists the jobs that were handed to `processJob`, oldest first. -/
structure World where
  memory : Memory := {}
  databases : Databases := {}
  processed : List PendingJob := []

section Maps

variable {Key Value : Type} [DecidableEq Key]

def get (entries : List (Key × Value)) (key : Key) : Option Value :=
  (entries.find? fun entry => entry.1 = key).map Prod.snd

def put (entries : List (Key × Value)) (key : Key) (value : Value) : List (Key × Value) :=
  (key,value)::entries.filter fun entry => entry.1 ≠ key

def erase (entries : List (Key × Value)) (key : Key) : List (Key × Value) := entries.filter fun entry => entry.1 ≠ key

end Maps

section Pending

def contains (text pattern : String) : Bool := decide (pattern.toList <:+: text.toList)

def orphanTexts : List String :=
  ["can't get block by hash","hash wasn't found","Transaction not found",
    "Requested hash wasn't found in main blockchain"]

def isOrphanHeader : Option Header → Bool
  | none => false
  | some header =>
    header.orphan_status || header.topoheight = some (-1) ||
      (header.errorSource ≠ some "wallet_reward_lookup" &&
        match header.error with
        | some (.object (some message)) => orphanTexts.any (contains message)
        | _ => false)

def getHeaderReward (header : Option Header) : Option ℚ :=
  (header.bind Header.reward).filter fun reward => reward ≠ 0

def round (time : Time) : Time := ⌊time + 1 / 2⌋

def save (settings : Settings) (rows : List PendingJob) (key : JobKey) (job : Job) : List PendingJob :=
  let rows := erase rows key
  rows.takeWhile (fun row => settings.before row.1 key) ++
    (key,some job)::rows.dropWhile fun row => settings.before row.1 key

structure DueJobs where
  jobs : List PendingJob
  nextDueAt : Option Time

def isDue (timeNow : Time) (row : PendingJob) : Bool := row.2.all fun job => job.nextAttemptAt ≤ timeNow

def earlier (nextDueAt : Option Time) (row : PendingJob) : Option Time :=
  match row.2 with
  | none => nextDueAt
  | some job =>
    match nextDueAt with
    | none => some job.nextAttemptAt
    | some other => if job.nextAttemptAt < other then some job.nextAttemptAt else some other

def collectJobs (timeNow : Time) (limit : ℕ) : List PendingJob → DueJobs → DueJobs
  | [],due => due
  | row::rows,due =>
    if limit ≤ due.jobs.length then due
    else if isDue timeNow row then collectJobs timeNow limit rows {due with jobs := due.jobs ++ [row]}
    else collectJobs timeNow limit rows {due with nextDueAt := earlier due.nextDueAt row}

def maxSafeInteger : ℚ := 9007199254740991

def attemptOf (row : PendingJob) : Time := (row.2.map Job.nextAttemptAt).getD maxSafeInteger

def createdOf (row : PendingJob) : Time := (row.2.map Job.createdAt).getD maxSafeInteger

def compareJobSchedule (left right : PendingJob) : Bool :=
  attemptOf left < attemptOf right || attemptOf left = attemptOf right && createdOf left ≤ createdOf right

def loadDueJobs (rows : List PendingJob) (timeNow : Time) (limit : ℕ) : DueJobs :=
  let due := collectJobs timeNow limit rows ⟨[],none⟩
  {due with jobs := due.jobs.mergeSort compareJobSchedule}

def isStalePendingBlock (settings : Settings) (job : Job) (timeNow : Time) : Bool :=
  settings.stalePendingBlockAgeMs ≤ timeNow - job.createdAt

def staleThrottle (settings : Settings) (job : Job) (timeNow : Time) : Job :=
  {job with
    nextAttemptAt := round (timeNow + settings.stalePendingBlockRetryDelayMs)
    lastError := some "stale_pending_throttled"}

def selectJobsForProcessing (settings : Settings) (timeNow : Time) :
    List PendingJob → ℕ → List PendingJob → List PendingJob × List PendingJob
  | [],_,rows => ([],rows)
  | (key,none)::jobs,staleSelected,rows =>
    let (selected,rows) := selectJobsForProcessing settings timeNow jobs staleSelected rows
    ((key,none)::selected,rows)
  | (key,some job)::jobs,staleSelected,rows =>
    if isStalePendingBlock settings job timeNow then
      if max 0 settings.stalePendingBlockProcessLimit ≤ staleSelected then
        selectJobsForProcessing settings timeNow jobs staleSelected
          (save settings rows key (staleThrottle settings job timeNow))
      else
        let (selected,rows) := selectJobsForProcessing settings timeNow jobs (staleSelected + 1) rows
        ((key,some job)::selected,rows)
    else
      let (selected,rows) := selectJobsForProcessing settings timeNow jobs staleSelected rows
      ((key,some job)::selected,rows)

structure RetryOptions where
  backoff : Bool := false
  stale : Bool := false

def retryJob (settings : Settings) (job : Job) (stateName : String) (options : RetryOptions) (timeNow : Time) : Job :=
  let attempts := job.attempts + 1
  let nextRetryDelayMs :=
    if options.backoff then min (settings.retryDelayMs * 2 ^ (attempts - 1)) settings.maxRetryDelayMs
    else settings.retryDelayMs
  let nextRetryDelayMs :=
    if options.stale then max nextRetryDelayMs settings.stalePendingBlockRetryDelayMs else nextRetryDelayMs
  {job with
    attempts := attempts
    nextAttemptAt := round (timeNow + nextRetryDelayMs)
    lastError := some stateName}

end Pending

section Resolving

variable {blockId : ℤ} {block : BlockMessage} {databases after : Databases}

def resetRoundHashes (keys : List String) (databases : Databases) : Databases :=
  {databases with roundHashes := fun key => if key ∈ keys then 0 else databases.roundHashes key}

/-- `none` is a duplicate: the height is held by this block or by a valid one. -/
def saveResolvedBlock (blockId : ℤ) (block : BlockMessage) (databases : Databases) : Option Databases :=
  let block := {block with shares := databases.roundHashes (poolTypeStr block.poolType ++ "_stats2")}
  let stored := {databases with blockDB := put databases.blockDB blockId block}
  match get databases.blockDB blockId with
  | none => some stored
  | some existing => if existing.hash = block.hash || existing.valid then none else some stored

inductive Slot where
  | duplicate
  | free (blockId : ℤ)

def probe (altblockDB : Store AltBlockMessage) (hash : String) : ℕ → ℤ → Option Slot
  | 0,_ => none
  | fuel + 1,currentBlockId =>
    match get altblockDB currentBlockId with
    | none => some (.free currentBlockId)
    | some existingBlock =>
      if existingBlock.hash = hash then some .duplicate else probe altblockDB hash fuel (currentBlockId + 1)

def saveResolvedAltBlock (blockId : ℤ) (block : AltBlockMessage) (databases : Databases) : Option Databases :=
  let shares := databases.roundHashes (poolTypeStr block.poolType ++ "_stats2_" ++ toString block.port)
  let block := {block with shares := shares, pay_value := 0}
  match probe databases.altblockDB block.hash (databases.altblockDB.length + 1) blockId with
  | some (.free currentBlockId) => some {databases with altblockDB := put databases.altblockDB currentBlockId block}
  | _ => none

theorem saveResolvedBlock_some (saved : saveResolvedBlock blockId block databases = some after) :
    (∃ shares, after = {databases with blockDB := put databases.blockDB blockId {block with shares := shares}}) ∧
      ∀ existing, get databases.blockDB blockId = some existing → existing.hash ≠ block.hash ∧
      existing.valid = false := by
  unfold saveResolvedBlock at saved
  dsimp only at saved
  cases held : get databases.blockDB blockId with
  | none =>
    rw [held] at saved
    exact ⟨⟨_,(Option.some.inj saved).symm⟩,nofun⟩
  | some existing =>
    rw [held] at saved
    dsimp only at saved
    split at saved
    · cases saved
    next free =>
      refine ⟨⟨_,(Option.some.inj saved).symm⟩,?_⟩
      rintro other same
      cases same
      simpa using free

theorem saveResolvedBlock_none (duplicate : saveResolvedBlock blockId block databases = none) :
    ∃ existing, get databases.blockDB blockId = some existing ∧
    (existing.hash = block.hash ∨ existing.valid = true) := by
  unfold saveResolvedBlock at duplicate
  dsimp only at duplicate
  cases held : get databases.blockDB blockId with
  | none =>
    rw [held] at duplicate
    cases duplicate
  | some existing =>
    rw [held] at duplicate
    dsimp only at duplicate
    split at duplicate
    next here => exact ⟨existing,rfl,by simpa using here⟩
    · cases duplicate

theorem saveResolvedAltBlock_some {block : AltBlockMessage}
    (saved : saveResolvedAltBlock blockId block databases = some after) :
    ∃ slot record, after = {databases with altblockDB := put databases.altblockDB slot record} ∧
    record.hash = block.hash ∧
      probe databases.altblockDB block.hash (databases.altblockDB.length + 1) blockId = some (.free slot) := by
  unfold saveResolvedAltBlock at saved
  dsimp only at saved
  split at saved
  next slot found => exact ⟨slot,_,(Option.some.inj saved).symm,rfl,found⟩
  · cases saved

def saveResolved (blockId : ℤ) (block : Decoded) (databases : Databases) : Option Databases :=
  match block with
  | .block block => saveResolvedBlock blockId block databases
  | .altblock block => saveResolvedAltBlock blockId block databases

theorem saveResolved_rows {block : Decoded}
    (saved : saveResolved blockId block databases = some after) : after.pendingDB = databases.pendingDB := by
  cases block with
  | block block =>
    obtain ⟨⟨_,same⟩,_⟩ := saveResolvedBlock_some saved
    rw [same]
  | altblock block =>
    obtain ⟨_,_,same,_⟩ := saveResolvedAltBlock_some saved
    rw [same]

def Decoded.message : Decoded → BlockMessage
  | .block message => message
  | .altblock message => message.toBlockMessage

def Decoded.change (change : BlockMessage → BlockMessage) : Decoded → Decoded
  | .block message => .block (change message)
  | .altblock message => .altblock {message with toBlockMessage := change message.toBlockMessage}

def roundCounters : Decoded → List String
  | .block block => ["global_stats2",poolTypeStr block.poolType ++ "_stats2"]
  | .altblock block =>
    ["global_stats2_" ++ toString block.port,poolTypeStr block.poolType ++ "_stats2_" ++ toString block.port]

inductive Outcome where
  | retry (job : Job)
  | drop
  | resolve (block : Decoded)

def orphanFirstSeen (memory : Memory) (key : JobKey) (timeNow : Time) : Time :=
  match get memory.orphanSince key with
  | some seenAt => if seenAt = 0 then timeNow else seenAt
  | none => timeNow

def orphaned (block : BlockMessage) : BlockMessage := {block with value := 0, valid := false, unlocked := true}

def handleOrphanHeader (settings : Settings) (memory : Memory) (current : Current) (retryState : String)
    (timeNow : Time) :
    Outcome × Memory :=
  let firstSeen := orphanFirstSeen memory current.key timeNow
  let memory := {memory with orphanSince := put memory.orphanSince current.key firstSeen}
  if settings.orphanGraceMs ≤ timeNow - firstSeen then (.resolve (current.decoded.change orphaned),memory)
  else (.retry (retryJob settings current.job retryState {} timeNow),memory)

def rewarded (reward : ℚ) (block : BlockMessage) : BlockMessage := {block with value := reward}

def onBlockHeader (settings : Settings) (memory : Memory) (current : Current) (reply : Reply) (timeNow : Time) :
    Outcome × Memory :=
  if reply.err && isOrphanHeader reply.header then
    handleOrphanHeader settings memory current "waiting_orphan" timeNow
  else
    match getHeaderReward reply.header, reply.err with
    | some reward,false => (.resolve (current.decoded.change (rewarded reward)),memory)
    | _,_ =>
      let options := {backoff := true, stale := isStalePendingBlock settings current.job timeNow}
      (.retry (retryJob settings current.job "waiting_block_header" options timeNow),memory)

def isWaitingForAltDepth (settings : Settings) (port : ℤ) (header : Option Header) : Bool :=
  0 < settings.unlockConfirmationDepth port &&
    (header.bind Header.depth).any fun depth => depth < settings.unlockConfirmationDepth port

def markBadAltBlocks (memory : Memory) (port : ℤ) (timeNow : Time) : Memory :=
  let marked := memory.potentiallyBadAltBlocks.filter fun entry => entry.1.1 = port
  {memory with
    badAltBlocks := marked.foldl (fun bad entry => put bad entry.1.2 timeNow) memory.badAltBlocks
    potentiallyBadAltBlocks := memory.potentiallyBadAltBlocks.filter fun entry => entry.1.1 ≠ port}

def onAltBlockHeader (settings : Settings) (memory : Memory) (current : Current)
    (block : AltBlockMessage) (reply : Reply) (timeNow : Time) : Outcome × Memory :=
  if reply.err && isOrphanHeader reply.header then
    handleOrphanHeader settings memory current "waiting_alt_orphan" timeNow
  else if isWaitingForAltDepth settings block.port reply.header then
    let options := {stale := isStalePendingBlock settings current.job timeNow}
    (.retry (retryJob settings current.job "waiting_for_depth" options timeNow),memory)
  else
    match getHeaderReward reply.header, reply.err with
    | some reward,false =>
      (.resolve (current.decoded.change (rewarded reward)),markBadAltBlocks memory block.port timeNow)
    | _,_ =>
      if (get memory.badAltBlocks block.hash).isSome then (.drop,memory)
      else
        let bad := put memory.potentiallyBadAltBlocks (block.port,block.hash) timeNow
        let options := {backoff := true, stale := isStalePendingBlock settings current.job timeNow}
        (.retry (retryJob settings current.job "waiting_altblock_header" options timeNow),
          {memory with potentiallyBadAltBlocks := bad})

def onHeader (settings : Settings) (memory : Memory) (current : Current) (reply : Reply) (timeNow : Time) :
    Outcome × Memory :=
  match current.decoded with
  | .block _ => onBlockHeader settings memory current reply timeNow
  | .altblock block => onAltBlockHeader settings memory current block reply timeNow

def SameSweep (memory after : Memory) : Prop :=
  after.closed = memory.closed ∧ after.processing = memory.processing ∧
    after.nextDueJobCheckAt = memory.nextDueJobCheckAt ∧ after.jobsToProcess = memory.jobsToProcess

def Outcome.Of (current : Current) : Outcome → Prop
  | .retry job => job.type = current.job.type ∧ job.blockId = current.job.blockId ∧ job.payload = current.job.payload
  | .drop => ∃ block, current.decoded = .altblock block
  | .resolve block => ∃ change : BlockMessage → BlockMessage, (∀ message, (change message).hash = message.hash) ∧
      block = current.decoded.change change

section

variable (settings : Settings) (memory : Memory)
include settings memory

theorem handleOrphanHeader_spec (current : Current) (retryState : String) (timeNow : Time) :
    SameSweep memory (handleOrphanHeader settings memory current retryState timeNow).2 ∧
      (handleOrphanHeader settings memory current retryState timeNow).1.Of current := by
  unfold handleOrphanHeader
  dsimp only
  split
  · exact ⟨⟨rfl,rfl,rfl,rfl⟩,orphaned,fun _ => rfl,rfl⟩
  · exact ⟨⟨rfl,rfl,rfl,rfl⟩,rfl,rfl,rfl⟩

private theorem onBlockHeader_spec (current : Current) (reply : Reply) (timeNow : Time) :
    SameSweep memory (onBlockHeader settings memory current reply timeNow).2 ∧
      (onBlockHeader settings memory current reply timeNow).1.Of current := by
  have same : SameSweep memory memory := ⟨rfl,rfl,rfl,rfl⟩
  unfold onBlockHeader
  split
  · exact handleOrphanHeader_spec settings memory current _ timeNow
  · split
    next reward _ _ => exact ⟨same,rewarded reward,fun _ => rfl,rfl⟩
    · exact ⟨same,rfl,rfl,rfl⟩

private theorem onAltBlockHeader_spec {current : Current} {block : AltBlockMessage}
    (decoded : current.decoded = .altblock block) (reply : Reply) (timeNow : Time) :
    SameSweep memory (onAltBlockHeader settings memory current block reply timeNow).2 ∧
      (onAltBlockHeader settings memory current block reply timeNow).1.Of current := by
  have same : SameSweep memory memory := ⟨rfl,rfl,rfl,rfl⟩
  unfold onAltBlockHeader
  split
  · exact handleOrphanHeader_spec settings memory current _ timeNow
  · split
    · exact ⟨same,rfl,rfl,rfl⟩
    · split
      next reward _ _ => exact ⟨⟨rfl,rfl,rfl,rfl⟩,rewarded reward,fun _ => rfl,rfl⟩
      · split
        · exact ⟨same,block,decoded⟩
        · exact ⟨⟨rfl,rfl,rfl,rfl⟩,rfl,rfl,rfl⟩

theorem onHeader_spec (current : Current) (reply : Reply) (timeNow : Time) :
    SameSweep memory (onHeader settings memory current reply timeNow).2 ∧
      (onHeader settings memory current reply timeNow).1.Of current := by
  unfold onHeader
  split
  · exact onBlockHeader_spec settings memory current reply timeNow
  next block decoded => exact onAltBlockHeader_spec settings memory decoded reply timeNow

end

end Resolving

section Running

def clearTransientState (memory : Memory) : Memory :=
  {memory with badAltBlocks := [], potentiallyBadAltBlocks := [], orphanSince := []}

def finishCloseIfIdle (memory : Memory) : Memory :=
  if !memory.closed || memory.processing || memory.closeComplete then memory
  else clearTransientState {memory with closeComplete := true}

theorem finishCloseIfIdle_frame (memory : Memory) : (finishCloseIfIdle memory).processing = memory.processing ∧
    (finishCloseIfIdle memory).nextDueJobCheckAt = memory.nextDueJobCheckAt ∧
    (finishCloseIfIdle memory).jobsToProcess = memory.jobsToProcess ∧
    (finishCloseIfIdle memory).current = memory.current := by
  unfold finishCloseIfIdle
  split <;> exact ⟨rfl,rfl,rfl,rfl⟩

def pruneState (memory : Memory) (timeNow : Time) : Memory :=
  let hour := 60 * 60 * 1000
  {memory with
    badAltBlocks := memory.badAltBlocks.filter fun entry => timeNow - entry.2 ≤ 6 * hour
    potentiallyBadAltBlocks := memory.potentiallyBadAltBlocks.filter fun entry => timeNow - entry.2 ≤ hour
    orphanSince := memory.orphanSince.filter fun entry => timeNow - entry.2 ≤ 12 * hour}

def decodePayload (settings : Settings) (job : Job) : Option Decoded :=
  match job.type with
  | .block => (settings.decodeBlock job.payload).map .block
  | .altblock => (settings.decodeAltBlock job.payload).map .altblock

def saveJob (settings : Settings) (key : JobKey) (job : Job) (world : World) : World :=
  {world with databases := {world.databases with pendingDB := save settings world.databases.pendingDB key job}}

def saveDrop (key : JobKey) (world : World) : World :=
  {world with
    databases := {world.databases with pendingDB := erase world.databases.pendingDB key}
    memory := {world.memory with orphanSince := erase world.memory.orphanSince key}}

def processJobs (settings : Settings) : List PendingJob → World → World
  | [],world =>
    let memory := {world.memory with processing := false, jobsToProcess := [], current := none}
    {world with memory := finishCloseIfIdle memory}
  | (key,job)::jobs,world =>
    let world := {world with processed := world.processed ++ [(key,job)]}
    match job with
    | none => processJobs settings jobs (saveDrop key world)
    | some job =>
      match decodePayload settings job with
      | none => processJobs settings jobs (saveDrop key world)
      | some decoded => {world with
        memory := {world.memory with jobsToProcess := jobs, current := some ⟨key,job,decoded⟩}}

def processDueJobs (settings : Settings) (timeNow : Time) (world : World) : World :=
  if world.memory.processing || world.memory.closed then world
  else if world.memory.nextDueJobCheckAt ≠ 0 && timeNow < world.memory.nextDueJobCheckAt then world
  else
    let due := loadDueJobs world.databases.pendingDB timeNow 100
    let nextDueJobCheckAt := if due.jobs.isEmpty then due.nextDueAt.getD 0 else 0
    let memory := {pruneState world.memory timeNow with processing := true, nextDueJobCheckAt := nextDueJobCheckAt}
    let (jobs,rows) := selectJobsForProcessing settings timeNow due.jobs 0 world.databases.pendingDB
    processJobs settings jobs {world with memory := memory, databases := {world.databases with pendingDB := rows}}

def newJob (type : JobType) (blockId : ℤ) (payload : String) (timeNow : Time) : Job :=
  ⟨type,blockId,payload,timeNow,timeNow,0,none⟩

def blockKey (blockId : ℤ) (block : BlockMessage) : JobKey := .block blockId block.hash

def altBlockKey (block : AltBlockMessage) : JobKey := .alt block.port block.height block.hash

def enqueue (settings : Settings) (worker : Bool) (key : JobKey) (job : Job) (world : World) : World :=
  let world := saveJob settings key job world
  if worker then world else {world with memory := {world.memory with nextDueJobCheckAt := 0}}

inductive Reach where
  | commit
  | caches
  | removal
  deriving DecidableEq

def restart (world : World) : World := {world with memory := {}}

/-- A resolved block is stored, its counters start again, and its job goes; a process may die
after each of these. -/
def resolve (settings : Settings) (current : Current) (block : Decoded) (reach : Reach) (world : World) :
    Option World :=
  match saveResolved current.job.blockId block world.databases with
  | none =>
    if reach = .removal then some (processJobs settings world.memory.jobsToProcess (saveDrop current.key world))
      else none
  | some databases =>
    let counted := resetRoundHashes (roundCounters block) databases
    match reach with
    | .commit => some (restart {world with databases := databases})
    | .caches => some (restart {world with databases := counted})
    | .removal =>
      some (processJobs settings world.memory.jobsToProcess (saveDrop current.key {world with databases := counted}))

def reply (settings : Settings) (reply : Reply) (timeNow : Time) (reach : Reach) (world : World) : Option World := do
  let current ← world.memory.current
  let (outcome,memory) := onHeader settings world.memory current reply timeNow
  let world := {world with memory := memory}
  match outcome with
  | .resolve block => resolve settings current block reach world
  | .retry job =>
    guard (reach = .removal)
    some (processJobs settings world.memory.jobsToProcess (saveJob settings current.key job world))
  | .drop =>
    guard (reach = .removal)
    some (processJobs settings world.memory.jobsToProcess (saveDrop current.key world))

def invalidated (block : BlockMessage) : BlockMessage := {block with valid := false, unlocked := true}

/-- A frame with a block reaches a worker or the primary; the primary sweeps, gets the header
it waits for, closes or dies; and the block manager finds a stored block to be orphaned. -/
inductive Event where
  | enqueueBlock (worker : Bool) (blockId : ℤ) (payload : String) (timeNow : Time)
  | enqueueAltBlock (worker : Bool) (blockId : ℤ) (payload : String) (timeNow : Time)
  | processDueJobs (timeNow : Time)
  | onHeader (reply : Reply) (timeNow : Time) (reach : Reach)
  | close
  | crash
  | invalidateBlock (blockId : ℤ)
  | invalidateAltBlock (blockId : ℤ)

def step (settings : Settings) (world : World) : Event → Option World
  | .enqueueBlock worker blockId payload timeNow => do
    let block ← settings.decodeBlock payload
    some (enqueue settings worker (blockKey blockId block) (newJob .block blockId payload timeNow) world)
  | .enqueueAltBlock worker blockId payload timeNow => do
    let block ← settings.decodeAltBlock payload
    some (enqueue settings worker (altBlockKey block) (newJob .altblock blockId payload timeNow) world)
  | .processDueJobs timeNow => some (processDueJobs settings timeNow world)
  | .onHeader header timeNow reach => reply settings header timeNow reach world
  | .close => some {world with memory := finishCloseIfIdle {world.memory with closed := true}}
  | .crash => some (restart world)
  | .invalidateBlock blockId => do
    let block ← get world.databases.blockDB blockId
    some {world with databases :=
      {world.databases with blockDB := put world.databases.blockDB blockId (invalidated block)}}
  | .invalidateAltBlock blockId => do
    let block ← get world.databases.altblockDB blockId
    let block := {block with toBlockMessage := invalidated block.toBlockMessage}
    some {world with databases := {world.databases with altblockDB := put world.databases.altblockDB blockId block}}

def pendingJobs (settings : Settings) (rows : List PendingJob) : Machine World Event where
  initial world := world = {databases := {pendingDB := rows}}
  step := step settings

end Running
end NodejsPool.RemoteShare.PendingJobs
