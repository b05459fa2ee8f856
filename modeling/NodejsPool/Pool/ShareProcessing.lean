import Mathlib.Data.Rat.Floor
import NodejsPool.Async.Machine
import NodejsPool.Common.Entries

/-! The processing of submitted shares: the trust shortcut, the queue of trusted shares beside a
verification of their wallet, the slow hash with its retries, block candidates and the daemon's
answer. A step is one callback; what it reads of clocks and tables is its moment. -/
namespace NodejsPool.Pool.ShareProcessing
open Async Entries

/-- The 32 bytes of a result that `hashCheck32` lets through. -/
structure ResultHash where
  bytes : List (Fin 256)
  size : bytes.length = 32
  deriving DecidableEq

def ResultHash.toHex (hash : ResultHash) : String :=
  String.ofList (hash.bytes.flatMap fun byte => [Nat.digitChar (byte.val / 16),Nat.digitChar (byte.val % 16)])

def bigIntFromBuffer (hash : ResultHash) : ℕ := hash.bytes.foldr (fun byte rest => byte.val + 256 * rest) 0

def hashBuffDiff (baseDiff : ℕ) (hash : ResultHash) : ℕ :=
  if bigIntFromBuffer hash = 0 then 0 else baseDiff / bigIntFromBuffer hash

inductive Diff where
  | bigint (value : ℤ)
  | number (value : ℚ)
  deriving DecidableEq

def trunc (value : ℚ) : ℤ := if 0 ≤ value then ⌊value⌋ else ⌈value⌉

def ge : Diff → ℚ → Bool
  | .bigint left,right => trunc right ≤ left
  | .number left,right => right ≤ left

structure ChildTemplate where
  difficulty : ℚ
  /-- Whether the child's block can be built. -/
  builds : Bool
  deriving DecidableEq

structure BlockTemplate where
  coin : String
  difficulty : ℚ
  child_template : Option ChildTemplate
  deriving DecidableEq

/-- What `processShare` is given, with what it derives from that: whether the block can be built, the
blob that is hashed, the bytes a waiting share retains. A result that is no string is `none`. -/
structure Share where
  payout : String
  trustKey : String
  isLoopback : Bool
  special : Bool
  height : ℕ
  difficulty : ℚ
  rewarded_difficulty2 : ℚ
  blockTemplate : BlockTemplate
  result : Option ResultHash
  syntheticResult : Option ResultHash
  shareBuffer : Bool
  convertedBlob : Option String
  retainedBytes : ℕ
  deriving DecidableEq

inductive BlockData where
  | buffer
  | other
  deriving DecidableEq

/-- The arguments of `verifyShareCB`. -/
structure Verified where
  hashDiff : Diff
  blockData : Option BlockData
  isTrustedShare : Bool
  isNeedCheckBlockDiff : Bool
  forceBlockCandidate : Bool
  deriving DecidableEq

/-- What the verifier of a special coin reports; whether the share is trusted is not its choice. -/
structure SpecialResult where
  hashDiff : Diff
  blockData : Option BlockData
  isNeedCheckBlockDiff : Bool
  forceBlockCandidate : Bool

def SpecialResult.verified (result : SpecialResult) (isTrustedShare : Bool) : Verified :=
  ⟨result.hashDiff,result.blockData,isTrustedShare,result.isNeedCheckBlockDiff,result.forceBlockCandidate⟩

/-- What the verifier of a special coin does with a share: it declines it, ends it, accepts it, or
has it verified after the trust shortcut, which it offers unless the share claims a block. -/
inductive SpecialPlan where
  | declined
  | finish (outcome : Option Bool)
  | accept (result : SpecialResult)
  | verify (trusted : Option SpecialResult) (retries : Bool)

inductive SpecialVerdict where
  | finish (outcome : Option Bool)
  | accept (result : SpecialResult)

structure MinerTrust where
  trust : ℚ
  check_height : ℕ

/-- What a step finds outside: configured numbers that are not finite are `none`, as is the wallet
of an unknown payout. -/
structure Moment where
  trustedMiners : Bool
  trustThreshold : Option ℚ
  trustMin : Option ℚ
  trustChange : Option ℚ
  randomByte : ℕ
  minerTrust : Option MinerTrust
  walletTrust : Option ℚ
  validShares : ℕ
  lastSlowHashAsyncDelay : ℕ
  testMode : Bool
  isWalletBanned : String → Bool
  minerThrottle : Option ℚ
  last_ver_shares : Option ℕ
  whiteList : Bool
  submissionBudget : Bool
  maxRetries : Option ℚ
  special : SpecialPlan
  verdict : SpecialVerdict

inductive Check where
  | slow (hash : ResultHash)
  | candidate (hash : ResultHash)
  | failedCandidate (hash : ResultHash)
  | special
  deriving DecidableEq

inductive HashAnswer where
  | hash
  | null
  | failed (errorKind : Option String)
  deriving DecidableEq

inductive SubmitReply where
  | failure
  | accepted
  | unknown
  deriving DecidableEq

inductive Stage where
  | running
  | waiting
  | delayed (verified : Verified)
  | hashing (check : Check) (retriesLeft : ℕ)
  | retrying (check : Check) (retriesLeft : ℕ)
  | submitting (hash : ResultHash) (trusted : Bool) (resubmitted : Bool)
  | testSubmitting (resubmitted : Bool)
  | done
  deriving DecidableEq

structure Completion where
  gate : ℕ
  retainedBytes : ℕ

/-- One call of `processShare`. No step reads `replies` (to its callback), `submits` (the daemon's),
`tested` (the test bypass was on) or `queuedAt` (the failed verifications when it was queued). -/
structure Flight where
  share : Share
  forceVerifyTrusted : Bool
  isQueuedTrustedShare : Bool
  queuedShareCompletion : Option Completion
  shareProcessingCompleted : Bool
  walletVerificationStarted : Bool
  stage : Stage
  replies : List (Option Bool)
  submits : List SubmitReply
  tested : Bool
  queuedAt : Option ℕ

structure Entry where
  share : ℕ
  retainedBytes : ℕ
  deriving DecidableEq

structure Gate where
  id : ℕ
  payout : String
  inFlight : ℕ
  queue : List Entry
  draining : Bool
  forceVerify : Bool
  queuedBytes : ℕ
  deriving DecidableEq

structure Drain where
  trustKey : String
  gate : ℕ
  entry : Entry
  forceVerify : Bool
  deriving DecidableEq

structure Credit where
  share : ℕ
  hashDiff : Diff
  isTrustedShare : Bool
  child : Bool
  deriving DecidableEq

structure Submission where
  share : ℕ
  isParentBlock : Bool

/-- `failed` remembers the wallets of failed verifications; no step reads it. -/
structure World where
  flights : List Flight
  gates : List (String × Gate)
  nextGate : ℕ
  drains : List Drain
  trustedQueuedBytes : ℕ
  credits : List Credit
  blocks : List Submission
  failed : List String

def TRUSTED_QUEUE_KEY_MAX_RETAINED_BYTES : ℕ := 16 * 1024 * 1024

def TRUSTED_QUEUE_MAX_RETAINED_BYTES : ℕ := 32 * 1024 * 1024

/-! Decisions. -/

def isSafeToTrust (moment : Moment) (rewardDiff : ℚ) (minerTrust : ℚ) : Bool :=
  if ¬(rewardDiff < 400000 ∧ minerTrust ≠ 0) then false
  else match moment.trustThreshold.filter fun threshold => 0 < threshold with
    | none => false
    | some trustThreshold =>
      let trustMin := (moment.trustMin.filter fun least => 0 ≤ least ∧ least ≤ 256).getD 256
      let trustChange := (moment.trustChange.filter fun change => 0 < change).getD 1
      let rewardDiff2 := rewardDiff * trustThreshold
      let walletOk := moment.walletTrust.any fun trust => rewardDiff2 * trustThreshold < trust
      let sessionOk := decide (rewardDiff2 < minerTrust)
      if ¬(walletOk ∨ sessionOk) then false
      else
        let gate := if walletOk ∨ rewardDiff = 0 then trustMin
          else max (256 - minerTrust / rewardDiff / (2 * trustChange)) trustMin
        gate < moment.randomByte

def isBlockSubmitTestBypassEnabled (moment : Moment) (share : Share) : Bool := moment.testMode && share.isLoopback

def hasBlockSubmitTrust (moment : Moment) : Bool := moment.validShares ≠ 0 || moment.walletTrust.any
    fun trust => 0 < trust

def getVerifyRetryLimit (moment : Moment) : ℕ :=
  match moment.maxRetries with
  | none => 3
  | some maxRetries => ⌊maxRetries⌋.toNat

def isRetryableVerifyFailure (answer : HashAnswer) : Bool := answer = .failed (some "verify-host-error")

def getTrustedQueueLimit (moment : Moment) : ℕ :=
  let baseLimit := match moment.minerThrottle with
    | none => 25
    | some configuredLimit => ⌊configuredLimit⌋.toNat
  baseLimit * if moment.submissionBudget then 10 else 1

def isThrottled (moment : Moment) : Bool :=
  match moment.last_ver_shares,moment.minerThrottle with
  | some last_ver_shares,some threshold => !moment.whiteList && threshold < last_ver_shares + 1
  | _,_ => false

def isBlockCandidateDiff (share : Share) (hashDiff : Diff) : Bool :=
  ge hashDiff share.blockTemplate.difficulty ||
    share.blockTemplate.child_template.any fun childTemplate => ge hashDiff childTemplate.difficulty

def mayTrust (moment : Moment) (share : Share) : Bool :=
  moment.trustedMiners && match moment.minerTrust with
    | none => false
    | some minerTrust => isSafeToTrust moment share.rewarded_difficulty2 minerTrust.trust &&
        minerTrust.check_height ≠ share.height

inductive Plan where
  | finish (outcome : Option Bool)
  | accept (verified : Verified)
  | enqueue
  | trust (verified : Verified)
  | hash (check : Check) (retries : ℕ)
  | submit (hash : ResultHash) (trusted : Bool)

/-- A trusted share waits behind a gate that is busy, unless it comes from its queue. -/
def tryTrustedShare (moment : Moment) (flight : Flight) (busy : Bool) (onTrustedShare otherwise : Plan) : Plan :=
  if flight.forceVerifyTrusted || !mayTrust moment flight.share then otherwise
  else if !flight.isQueuedTrustedShare && busy then .enqueue
  else onTrustedShare

def resultBuff (moment : Moment) (share : Share) : Option ResultHash :=
  (if isBlockSubmitTestBypassEnabled moment share then share.syntheticResult else none).or share.result

section Verifying

variable (baseDiff : ℕ) (slowHash : String → String)

def hashDiffOf (hash : ResultHash) : Diff := .bigint (hashBuffDiff baseDiff hash)

def verifyCandidateOrHash (moment : Moment) (share : Share) (hash : ResultHash) : Plan :=
  if !share.shareBuffer || share.convertedBlob.isNone then .finish (some false)
  else if ge (hashDiffOf baseDiff hash) share.blockTemplate.difficulty then
    if hasBlockSubmitTrust moment then .submit hash true else .hash (.candidate hash) (getVerifyRetryLimit moment)
  else .hash (.slow hash) (getVerifyRetryLimit moment)

def verifyStandardShare (moment : Moment) (flight : Flight) (busy : Bool) : Plan :=
  match resultBuff moment flight.share with
  | none => .finish (some false)
  | some hash =>
    let hashDiff := hashDiffOf baseDiff hash
    if isBlockSubmitTestBypassEnabled moment flight.share && !hasBlockSubmitTrust moment &&
        ge hashDiff flight.share.blockTemplate.difficulty then
      if flight.share.shareBuffer then .accept ⟨hashDiff,some .buffer,true,true,false⟩ else .finish (some false)
    else if isBlockCandidateDiff flight.share hashDiff then verifyCandidateOrHash baseDiff moment flight.share hash
    else tryTrustedShare moment flight busy (.trust ⟨hashDiff,none,true,true,false⟩)
      (verifyCandidateOrHash baseDiff moment flight.share hash)

def verifyShare (moment : Moment) (flight : Flight) (busy : Bool) : Plan :=
  if flight.share.special then
    match moment.special with
    | .declined => verifyStandardShare baseDiff moment flight busy
    | .finish outcome => .finish outcome
    | .accept result => .accept (result.verified false)
    | .verify trusted retries =>
      let verify := Plan.hash .special (if retries then getVerifyRetryLimit moment else 0)
      match trusted with
      | none => verify
      | some result => tryTrustedShare moment flight busy (.accept (result.verified true)) verify
  else verifyStandardShare baseDiff moment flight busy

def onHash (moment : Moment) (share : Share) (answer : HashAnswer) : Check → Plan
  | .slow hash => match answer with
    | .hash =>
      if share.convertedBlob.map slowHash = some hash.toHex then .accept ⟨hashDiffOf baseDiff hash,some .buffer,
        false,false,false⟩
      else .finish (some false)
    | .null => .finish none
    | .failed _ => .finish (some false)
  | .candidate hash => match answer with
    | .hash =>
      if share.convertedBlob.map slowHash = some hash.toHex then .accept ⟨hashDiffOf baseDiff hash,some .buffer,
        false,true,false⟩
      else .finish (some false)
    | .null => .submit hash false
    | .failed _ => .finish (some false)
  | .failedCandidate hash => match answer with
    | .hash =>
      if share.convertedBlob.map slowHash = some hash.toHex then .accept ⟨hashDiffOf baseDiff hash,some .buffer,
        false,false,false⟩
      else .finish (some false)
    | .null => .finish none
    | .failed _ => .finish (some false)
  | .special => match moment.verdict with
    | .finish outcome => .finish outcome
    | .accept result => .accept (result.verified false)

def onSubmitted (moment : Moment) (hash : ResultHash) (trusted : Bool) (blockSubmitResult : Bool) : Plan :=
  if blockSubmitResult then .accept ⟨hashDiffOf baseDiff hash,some .buffer,false,false,false⟩
  else if trusted then .hash (.failedCandidate hash) (getVerifyRetryLimit moment)
  else .finish none

end Verifying

inductive Judgement where
  | reject
  | testSubmit
  | record
  deriving DecidableEq

def getVerifiedBlockData (share : Share) (blockData : Option BlockData) : Option BlockData :=
  blockData.or (if share.shareBuffer then some .buffer else none)

/-- `none` lets the share go on. -/
def submitMainBlockIfNeeded (moment : Moment) (share : Share) (verified : Verified) : Option Judgement × List Bool :=
  if !verified.isNeedCheckBlockDiff ||
      (!verified.forceBlockCandidate && !ge verified.hashDiff share.blockTemplate.difficulty) then (none,[])
  else match getVerifiedBlockData share verified.blockData with
    | none => (some .reject,[])
    | some _ =>
      if verified.forceBlockCandidate then (none,[true])
      else if isBlockSubmitTestBypassEnabled moment share && !hasBlockSubmitTrust moment then (some .testSubmit,[true])
      else (none,[true])

def submitChildBlockIfNeeded (share : Share) (verified : Verified) : Bool × List Bool :=
  match share.blockTemplate.child_template with
  | none => (true,[])
  | some childTemplate =>
    if !ge verified.hashDiff childTemplate.difficulty then (true,[])
    else if getVerifiedBlockData share verified.blockData = some .buffer && childTemplate.builds then (true,[false])
    else (false,[])

/-- The body of `verifyShareCB`: what it decides and which blocks (parent or child) it submits. -/
def judge (moment : Moment) (share : Share) (verified : Verified) : Judgement × List Bool :=
  match submitMainBlockIfNeeded moment share verified with
  | (some judgement,blocks) => (judgement,blocks)
  | (none,blocks) =>
    let (goesOn,children) := submitChildBlockIfNeeded share verified
    if !goesOn || !ge verified.hashDiff share.difficulty then (.reject,blocks ++ children)
    else (.record,blocks ++ children)

/-! The gate. -/

namespace World

def update (share : ℕ) (change : Flight → Flight) (world : World) : World :=
  { world with flights := world.flights.modify share change }

def setStage (share : ℕ) (stage : Stage) : World → World := update share fun flight => { flight with stage }

end World

/-- What stands for the gate of a key that has none. -/
def noGate : Gate := ⟨0,"",0,[],false,false,0⟩

def getTrustVerificationGate (trustKey payout : String) (world : World) : World :=
  match get world.gates trustKey with
  | some _ => world
  | none => { world with
      gates := put world.gates trustKey { noGate with id := world.nextGate, payout }
      nextGate := world.nextGate + 1 }

def updateGate (trustKey : String) (change : Gate → Gate) (world : World) : World :=
  match get world.gates trustKey with
  | none => world
  | some gate => { world with gates := put world.gates trustKey (change gate) }

def Flight.cancelled (flight : Flight) : Flight :=
  if flight.shareProcessingCompleted then flight
  else { flight with shareProcessingCompleted := true, stage := .done, replies := flight.replies ++ [none] }

/-- A waiting share holds no verification and no completion, and its gate is gone: nothing but its
own reply is left of `processShareCB(null)`. -/
def cancel (share : ℕ) : World → World := World.update share Flight.cancelled

def dropTrustedQueue (trustKey : String) (gate : Gate) (world : World) : World :=
  gate.queue.foldl (fun world entry =>
      cancel entry.share { world with trustedQueuedBytes := world.trustedQueuedBytes - entry.retainedBytes })
    { world with gates := erase world.gates trustKey }

def drainTrustedQueue (moment : Moment) (trustKey : String) (world : World) : World :=
  match get world.gates trustKey with
  | none => world
  | some gate =>
    if gate.inFlight ≠ 0 ∨ gate.draining then world
    else if moment.isWalletBanned gate.payout then dropTrustedQueue trustKey gate world
    else match gate.queue with
      | [] => { world with gates := erase world.gates trustKey }
      | entry::queue => { world with
          gates := put world.gates trustKey { gate with queue, draining := true }
          drains := world.drains ++ [⟨trustKey,gate.id,entry,gate.forceVerify⟩] }

def finishTrustVerification (moment : Moment) (trustKey : String) (world : World) : World :=
  drainTrustedQueue moment trustKey (updateGate trustKey (fun gate =>
    { gate with inFlight := gate.inFlight - 1 }) world)

def markTrustVerificationFailed (trustKey : String) : World → World :=
  updateGate trustKey fun gate => if gate.queue ≠ [] ∨ gate.draining then { gate with forceVerify := true } else gate

def hasQueuedGeneration (trustKey : String) (world : World) : Bool :=
  (get world.gates trustKey).any fun gate => gate.queue ≠ [] || gate.draining

/-- `setImmediate`'s second argument: the drained entry is released and the next one scheduled. -/
def onQueuedShareProcessed (moment : Moment) (trustKey : String) (completion : Completion) (world : World) : World :=
  let released := { world with trustedQueuedBytes := world.trustedQueuedBytes - completion.retainedBytes }
  match get world.gates trustKey with
  | none => released
  | some gate =>
    if gate.id ≠ completion.gate then released
    else drainTrustedQueue moment trustKey { released with
      gates := put world.gates trustKey { gate with
        queuedBytes := gate.queuedBytes - completion.retainedBytes
        draining := false
        forceVerify := if gate.queue = [] then false else gate.forceVerify } }

def complete (share : ℕ) (shareAccepted : Option Bool) : World → World :=
  World.update share fun flight =>
    { flight with shareProcessingCompleted := true, stage := .done, replies := flight.replies ++ [shareAccepted] }

/-- A failed verification is logged here; what the gate hears of is the source's own condition. -/
def noteFailure (flight : Flight) (shareAccepted : Option Bool) (world : World) : World :=
  let trustKey := flight.share.trustKey
  let world :=
    if (flight.walletVerificationStarted && shareAccepted.isNone) ||
        (shareAccepted = some false && hasQueuedGeneration trustKey world) then
      markTrustVerificationFailed trustKey world
    else world
  if flight.walletVerificationStarted && shareAccepted ≠ some true then
    { world with failed := world.failed ++ [trustKey] }
  else world

def releaseVerification (moment : Moment) (flight : Flight) (world : World) : World :=
  if flight.walletVerificationStarted then finishTrustVerification moment flight.share.trustKey world else world

def releaseEntry (moment : Moment) (flight : Flight) (world : World) : World :=
  match flight.queuedShareCompletion with
  | none => world
  | some completion => onQueuedShareProcessed moment flight.share.trustKey completion world

/-- `processShareCB`. -/
def finishShareProcessing (moment : Moment) (share : ℕ) (shareAccepted : Option Bool) (world : World) : World :=
  match world.flights[share]? with
  | none => world
  | some flight =>
    if flight.shareProcessingCompleted then world
    else releaseEntry moment flight (releaseVerification moment flight
      (noteFailure flight shareAccepted (complete share shareAccepted world)))

def startAsyncVerification (share : ℕ) (world : World) : World :=
  match world.flights[share]? with
  | none => world
  | some flight =>
    if flight.walletVerificationStarted then world
    else updateGate flight.share.trustKey (fun gate => { gate with inFlight := gate.inFlight + 1 })
      (getTrustVerificationGate flight.share.trustKey flight.share.payout
        (world.update share fun flight => { flight with walletVerificationStarted := true }))

def isQueueFull (moment : Moment) (share : Share) (world : World) : Bool :=
  let gate := (get world.gates share.trustKey).getD noGate
  getTrustedQueueLimit moment ≤ gate.queue.length ||
    TRUSTED_QUEUE_KEY_MAX_RETAINED_BYTES < gate.queuedBytes + share.retainedBytes ||
    TRUSTED_QUEUE_MAX_RETAINED_BYTES < world.trustedQueuedBytes + share.retainedBytes

def pushEntry (share : ℕ) (trustKey : String) (retainedBytes : ℕ) (world : World) : World :=
  let pushed := updateGate trustKey (fun gate =>
    { gate with queuedBytes := gate.queuedBytes + retainedBytes, queue := gate.queue ++ [⟨share,retainedBytes⟩] }) world
  { pushed with trustedQueuedBytes := pushed.trustedQueuedBytes + retainedBytes }.update share fun flight =>
    { flight with stage := .waiting, queuedAt := some (world.failed.count trustKey) }

def enqueueTrustedShare (moment : Moment) (share : ℕ) (world : World) : World :=
  match world.flights[share]? with
  | none => world
  | some flight =>
    let world := getTrustVerificationGate flight.share.trustKey flight.share.payout world
    if isQueueFull moment flight.share world then finishShareProcessing moment share none world
    else pushEntry share flight.share.trustKey flight.share.retainedBytes world

/-- `verifyShareCB`: merged mining credits the child's chain as well. -/
def verifyShareCB (moment : Moment) (share : ℕ) (verified : Verified) (world : World) : World :=
  match world.flights[share]? with
  | none => world
  | some flight =>
    let (judgement,blocks) := judge moment flight.share verified
    let world := { world with blocks := world.blocks ++ blocks.map (Submission.mk share) }
    match judgement with
    | .reject => finishShareProcessing moment share (some false) world
    | .testSubmit => world.setStage share (.testSubmitting false)
    | .record =>
      let children := if flight.share.blockTemplate.child_template.isSome then [true] else []
      finishShareProcessing moment share (some true) { world with
        credits := world.credits ++ (false::children).map (Credit.mk share verified.hashDiff verified.isTrustedShare) }

def carryOut (moment : Moment) (share : ℕ) (plan : Plan) (world : World) : World :=
  match plan with
  | .finish outcome => finishShareProcessing moment share outcome world
  | .accept verified => verifyShareCB moment share verified world
  | .enqueue => enqueueTrustedShare moment share world
  | .trust verified =>
    if moment.lastSlowHashAsyncDelay ≠ 0 then world.setStage share (.delayed verified)
    else verifyShareCB moment share verified world
  | .hash check retries => (startAsyncVerification share world).setStage share (.hashing check retries)
  | .submit hash trusted => (startAsyncVerification share world).setStage share (.submitting hash trusted false)

def isBusy (trustKey : String) (world : World) : Bool :=
  (get world.gates trustKey).any fun gate => gate.inFlight ≠ 0 || gate.draining || gate.queue ≠ []

section Stepping

variable (baseDiff : ℕ) (slowHash : String → String)

/-- Runs `verifyShare` for a share that is running. -/
def resumeShareProcessing (moment : Moment) (share : ℕ) (world : World) : World :=
  match world.flights[share]? with
  | none => world
  | some flight =>
    carryOut moment share (verifyShare baseDiff moment flight (isBusy flight.share.trustKey world))
      (world.update share fun flight =>
        { flight with tested := flight.tested || isBlockSubmitTestBypassEnabled moment flight.share })

def newFlight (share : Share) : Flight := ⟨share,false,false,none,false,false,.running,[],[],false,none⟩

def processShare (moment : Moment) (share : Share) (world : World) : World :=
  let world := { world with flights := world.flights ++ [newFlight share] }
  if isThrottled moment then finishShareProcessing moment (world.flights.length - 1) none world
  else resumeShareProcessing baseDiff moment (world.flights.length - 1) world

inductive Label where
  | submit (moment : Moment) (share : Share)
  | answer (moment : Moment) (share : ℕ) (answer : HashAnswer)
  | retry (share : ℕ)
  | daemon (moment : Moment) (share : ℕ) (reply : SubmitReply)
  | delay (moment : Moment) (share : ℕ)
  | drain (moment : Moment) (callback : ℕ)

def onAnswer (moment : Moment) (share : ℕ) (answer : HashAnswer) (world : World) : Option World := do
  let flight ← world.flights[share]?
  match flight.stage with
  | .hashing check retriesLeft =>
    if isRetryableVerifyFailure answer then
      if 0 < retriesLeft then some (world.setStage share (.retrying check (retriesLeft - 1)))
      else some (carryOut moment share (onHash baseDiff slowHash moment flight.share .null check) world)
    else some (carryOut moment share (onHash baseDiff slowHash moment flight.share answer check) world)
  | _ => none

/-- The main chain's daemon is asked once more after a failure, any daemon after a reply that
says nothing. -/
def asksAgain (share : Share) (reply : SubmitReply) (resubmitted : Bool) : Bool :=
  !resubmitted && (reply = .unknown || (reply = .failure && share.blockTemplate.coin = ""))

def onReply (moment : Moment) (share : ℕ) (reply : SubmitReply) (world : World) : Option World := do
  let flight ← world.flights[share]?
  let heard := world.update share fun flight => { flight with submits := flight.submits ++ [reply] }
  match flight.stage with
  | .submitting hash trusted resubmitted =>
    if asksAgain flight.share reply resubmitted then some (heard.setStage share (.submitting hash trusted true))
    else some (carryOut moment share (onSubmitted baseDiff moment hash trusted (reply = .accepted)) heard)
  | .testSubmitting resubmitted =>
    if asksAgain flight.share reply resubmitted then some (heard.setStage share (.testSubmitting true))
    else some (finishShareProcessing moment share (some true) heard)
  | _ => none

def onDrain (moment : Moment) (callback : ℕ) (world : World) : Option World := do
  let drain ← world.drains[callback]?
  some (resumeShareProcessing baseDiff moment drain.entry.share
    ({ world with drains := world.drains.eraseIdx callback }.update drain.entry.share fun flight =>
      { flight with
        forceVerifyTrusted := drain.forceVerify
        isQueuedTrustedShare := true
        queuedShareCompletion := some ⟨drain.gate,drain.entry.retainedBytes⟩
        stage := .running }))

def step (world : World) : Label → Option World
  | .submit moment share => some (processShare baseDiff moment share world)
  | .answer moment share answer => onAnswer baseDiff slowHash moment share answer world
  | .retry share => do
    let flight ← world.flights[share]?
    match flight.stage with
    | .retrying check retriesLeft => some (world.setStage share (.hashing check retriesLeft))
    | _ => none
  | .daemon moment share reply => onReply baseDiff moment share reply world
  | .delay moment share => do
    let flight ← world.flights[share]?
    match flight.stage with
    | .delayed verified => some (verifyShareCB moment share verified world)
    | _ => none
  | .drain moment callback => onDrain baseDiff moment callback world

def fresh : World := ⟨[],[],0,[],0,[],[],[]⟩

def shareProcessing : Machine World Label where
  initial world := world = fresh
  step := step baseDiff slowHash

end Stepping
end NodejsPool.Pool.ShareProcessing
