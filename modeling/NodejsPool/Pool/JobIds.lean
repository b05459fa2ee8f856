import NodejsPool.Async.Machine
import NodejsPool.Common.Hex
import NodejsPool.Common.Ring
import Mathlib.Data.Rat.Floor

/-! Jobs of one pool worker: the counters their ids are drawn from, the ring of the jobs a miner may
still submit to, and the lookup of a submit. Numbers are exact. -/
namespace NodejsPool.Pool.JobIds
open Async

structure Counters where
  decId : ℕ
  ethJobId : ℕ

/-- `number.toString(10)`. -/
def toDecimal (number : ℕ) : List Char := Nat.toDigits 10 number

def getNewId (state : Counters) : String × Counters :=
  let decId := if 999999999999999 < state.decId + 1 then 0 else state.decId + 1
  (String.ofList (toDecimal decId),{state with decId := decId})

def getNewEthJobId (state : Counters) : String × Counters :=
  let ethJobId := if 0xffff < state.ethJobId + 1 then 0 else state.ethJobId + 1
  (String.ofList (Hex.padHex (Hex.toHex ethJobId) 2),{state with ethJobId := ethJobId})

structure BlockTemplate where
  idHash : String
  height : ℕ
  difficulty : ℚ
  seedHash : Option String
  extraNonce : Option ℕ
  clientPoolLocation : Option ℕ
  clientNonceLocation : Option ℕ
  disableProxyNonce : Bool
  /-- What `nextBlobHex` gives, and `nextBlobWithChildNonceHex` where the template has it;
  the extra nonce is the one of that blob. -/
  nextBlobHex : Option String
  nextBlobWithChildNonceHex : Option String

structure PoolSettings where
  integerDifficulty : Bool
  sharedTemplateNonces : Bool
  requiresExtranonce : Bool
  disableProxyNonce : Bool
  useEthJobId : Bool

/-- What a job is asked for with. Settings and blob type are none where looking them up throws;
`ensured` is the extranonce a native miner is given, `payloadThrows` that the coin's handler finds the
template invalid. -/
structure Offer where
  coin : String
  bt : BlockTemplate
  coinHashFactor : ℚ
  hashesPerDifficulty : Option ℚ
  poolSettings : Option PoolSettings
  blobTypeNum : Option ℕ
  ensured : Option String
  payloadThrows : Bool

inductive ExtraNonce
  | template (value : ℕ)
  | miner (text : String)

structure MinerJob where
  id : String
  coin : String
  blobTypeNum : ℕ
  blockHash : String
  height : ℕ
  difficulty : ℚ
  normDiff : ℚ
  coinHashFactor : ℚ
  hashesPerDifficulty : ℚ
  coinDifficultyFactor : ℚ
  usesProxyNonce : Bool
  extraNonce : Option ExtraNonce
  clientPoolLocation : Option ℕ
  clientNonceLocation : Option ℕ
  seedHash : Option String

structure JobPayload where
  jobId : String
  blobHex : String
  coinDiff : ℚ

structure Miner where
  proxy : Bool
  moNative : Bool
  difficulty : ℚ
  newDiffToSet : Option ℚ
  newDiffRecommendation : Option ℚ
  currCoinMinDiff : ℚ
  ethExtranonce : Option String
  jobLastBlockHash : Option String
  cachedJob : Option JobPayload
  validJobs : Ring (Option MinerJob)
  hasSubmittedValidShare : Bool
  invalidJobIdCount : ℕ

def validJobsSize : ℕ := 10

def circularBuffer : Ring (Option MinerJob) := ⟨0,0,List.replicate validJobsSize none⟩

/-- `validJobs.toarray()`. -/
def Miner.jobs (miner : Miner) : List MinerJob := (miner.validJobs.contents validJobsSize none).filterMap id

inductive Draw
  | decimal (count : ℕ)
  | hex (count : ℕ)

structure Built where
  job : MinerJob
  payload : Option JobPayload
  draw : Draw

/-- `decimals` and `hexes` count the draws so far, `built` lists the jobs of the connected miners. -/
structure World where
  state : Counters
  miners : ℕ → Option Miner
  decimals : ℕ
  hexes : ℕ
  built : ℕ → List Built

def World.setMiner (world : World) (conn : ℕ) (miner : Miner) : World :=
  {world with miners := Function.update world.miners conn (some miner)}

def knowsJob (miner : Miner) (bt : BlockTemplate) : Bool :=
  miner.jobLastBlockHash = some bt.idHash && miner.newDiffToSet.isNone && miner.cachedJob.isSome

def takeDifficulty (miner : Miner) : Miner :=
  match miner.newDiffToSet,miner.newDiffRecommendation with
  | some difficulty,_ => {miner with difficulty := difficulty, newDiffToSet := none, newDiffRecommendation := none}
  | none,some difficulty => {miner with difficulty := difficulty, newDiffRecommendation := none}
  | none,none => miner

def coinDiff (miner : Miner) (offer : Offer) (settings : PoolSettings) : ℚ :=
  let factor := offer.coinHashFactor * offer.hashesPerDifficulty.getD 1
  let difficulty :=
    if factor = 0 then offer.bt.difficulty
    else min (max (miner.difficulty / factor) miner.currCoinMinDiff) offer.bt.difficulty
  if settings.integerDifficulty then ⌊difficulty⌋ else difficulty

def needsNativeExtranonce (miner : Miner) (settings : PoolSettings) : Bool :=
  miner.moNative && (settings.sharedTemplateNonces || settings.requiresExtranonce)

def ensureEthExtranonce (miner : Miner) (offer : Offer) (settings : PoolSettings) : Miner :=
  if needsNativeExtranonce miner settings && miner.ethExtranonce.isNone then {miner with ethExtranonce := offer.ensured}
  else miner

def usesProxyNonce (miner : Miner) (offer : Offer) (settings : PoolSettings) : Bool :=
  miner.proxy && !settings.sharedTemplateNonces && !settings.disableProxyNonce && !offer.bt.disableProxyNonce &&
    offer.bt.clientPoolLocation.isSome && offer.bt.clientNonceLocation.isSome

structure Draft where
  blobHex : String
  ethJobId : Bool
  blobTypeNum : ℕ
  coinDiff : ℚ
  usesProxyNonce : Bool
  extraNonce : Option ExtraNonce
  clientPoolLocation : Option ℕ
  clientNonceLocation : Option ℕ

def jobExtraNonce (miner : Miner) (offer : Offer) (settings : PoolSettings) : Option ExtraNonce :=
  if settings.sharedTemplateNonces then miner.ethExtranonce.map .miner else offer.bt.extraNonce.map .template

/-- The job that a miner gets, unless there is no blob or no extranonce for it. -/
def draft (miner : Miner) (offer : Offer) (settings : PoolSettings) (blobTypeNum : ℕ) (coinDiff : ℚ) : Option Draft :=
  if needsNativeExtranonce miner settings && miner.ethExtranonce.isNone then none
  else
    match (if usesProxyNonce miner offer settings then offer.bt.nextBlobWithChildNonceHex else none) with
    | none => do
      let blobHex ← offer.bt.nextBlobHex
      if blobHex = "" then none
      else some ⟨blobHex,settings.useEthJobId,blobTypeNum,coinDiff,false,jobExtraNonce miner offer settings,none,none⟩
    | some blobHex => some ⟨blobHex,false,blobTypeNum,coinDiff,true,offer.bt.extraNonce.map .template,
        offer.bt.clientPoolLocation,offer.bt.clientNonceLocation⟩

def prepare (miner : Miner) (offer : Offer) : Miner × Option Draft :=
  let miner := takeDifficulty {miner with jobLastBlockHash := some offer.bt.idHash}
  match offer.poolSettings,offer.blobTypeNum with
  | some settings,some blobTypeNum =>
    let coinDiff := coinDiff miner offer settings
    let miner := ensureEthExtranonce miner offer settings
    (miner,draft miner offer settings blobTypeNum coinDiff)
  | _,_ => (miner,none)

def jobOf (id : String) (offer : Offer) (draft : Draft) : MinerJob :=
  let hashesPerDifficulty := offer.hashesPerDifficulty.getD 1
  let coinDifficultyFactor := offer.coinHashFactor * hashesPerDifficulty
  { id := id
    coin := offer.coin
    blobTypeNum := draft.blobTypeNum
    blockHash := offer.bt.idHash
    height := offer.bt.height
    difficulty := draft.coinDiff
    normDiff := draft.coinDiff * coinDifficultyFactor
    coinHashFactor := offer.coinHashFactor
    hashesPerDifficulty := hashesPerDifficulty
    coinDifficultyFactor := coinDifficultyFactor
    usesProxyNonce := draft.usesProxyNonce
    extraNonce := draft.extraNonce
    clientPoolLocation := draft.clientPoolLocation
    clientNonceLocation := draft.clientNonceLocation
    seedHash := offer.bt.seedHash }

def World.next (world : World) (ethJobId : Bool) : Draw :=
  if ethJobId then .hex (world.hexes + 1) else .decimal (world.decimals + 1)

def World.issueId (world : World) : String × World :=
  let (id,state) := getNewId world.state
  (id,{world with state := state, decimals := world.decimals + 1})

def World.issueEthJobId (world : World) : String × World :=
  let (id,state) := getNewEthJobId world.state
  (id,{world with state := state, hexes := world.hexes + 1})

def World.issueJobId (world : World) (ethJobId : Bool) : String × World :=
  if ethJobId then world.issueEthJobId else world.issueId

def buildJob (world : World) (conn : ℕ) (miner : Miner) (offer : Offer) (draft : Draft) : World :=
  let draw := world.next draft.ethJobId
  let (id,world) := world.issueJobId draft.ethJobId
  let newJob := jobOf id offer draft
  let payload : Option JobPayload := if offer.payloadThrows then none else some ⟨newJob.id,draft.blobHex,draft.coinDiff⟩
  let world := world.setMiner conn
    {miner with
      validJobs := miner.validJobs.enq validJobsSize (some newJob)
      cachedJob := payload.or miner.cachedJob}
  {world with built := Function.update world.built conn (world.built conn ++ [⟨newJob,payload,draw⟩])}

def getCoinJob (world : World) (conn : ℕ) (miner : Miner) (offer : Offer) : World :=
  if knowsJob miner offer.bt then world
  else
    match prepare miner offer with
    | (miner,none) => world.setMiner conn miner
    | (miner,some draft) => buildJob world conn miner offer draft

inductive JobIdParam
  | text (value : String)
  | number (value : ℕ)

def JobIdParam.jobId : JobIdParam → String
  | .text value => value
  | .number value => String.ofList (toDecimal value)

def findJob (miner : Miner) (jobId : String) : Option MinerJob :=
  (miner.jobs.filter fun candidate => candidate.id = jobId).head?

def rejectInvalidSubmitJob (limit : ℕ) (miner : Miner) : String × Option Miner :=
  if miner.hasSubmittedValidShare then ("Invalid job id",some miner)
  else
    let miner := {miner with invalidJobIdCount := miner.invalidJobIdCount + 1}
    ("Invalid job id",if limit ≤ miner.invalidJobIdCount then none else some miner)

def getSubmitJob (limit : ℕ) (miner : Miner) (param : JobIdParam) : Except String MinerJob × Option Miner :=
  match findJob miner param.jobId with
  | some job => (.ok job,some (if miner.hasSubmittedValidShare then miner else {miner with invalidJobIdCount := 0}))
  | none =>
    let (reply,miner) := rejectInvalidSubmitJob limit miner
    (.error reply,miner)

inductive Change
  | retarget (newDiffToSet newDiffRecommendation : Option ℚ)
  | selectCoin (currCoinMinDiff : ℚ) (moved : Bool)
  | dropCachedJob
  | dropLastBlockHash
  | validShare
  | extranonce (text : Option String)

def Miner.change (miner : Miner) : Change → Miner
  | .retarget toSet recommendation => {miner with newDiffToSet := toSet, newDiffRecommendation := recommendation}
  | .selectCoin minDiff true => {miner with currCoinMinDiff := minDiff, cachedJob := none, jobLastBlockHash := none}
  | .selectCoin minDiff false => {miner with currCoinMinDiff := minDiff}
  | .dropCachedJob => {miner with cachedJob := none}
  | .dropLastBlockHash => {miner with jobLastBlockHash := none}
  | .validShare => {miner with hasSubmittedValidShare := true}
  | .extranonce text => {miner with ethExtranonce := text}

def createMiner (proxy moNative : Bool) (difficulty : ℚ) : Miner where
  proxy := proxy
  moNative := moNative
  difficulty := difficulty
  newDiffToSet := none
  newDiffRecommendation := none
  currCoinMinDiff := 0
  ethExtranonce := none
  jobLastBlockHash := none
  cachedJob := none
  validJobs := circularBuffer
  hasSubmittedValidShare := false
  invalidJobIdCount := 0

inductive Event
  | login (conn : ℕ) (proxy moNative : Bool) (difficulty : ℚ)
  | issueId
  | change (conn : ℕ) (change : Change)
  | job (conn : ℕ) (offer : Offer)
  | submit (conn : ℕ) (param : JobIdParam)
  | leave (conn : ℕ)

def login (world : World) (conn : ℕ) (miner : Miner) : World :=
  let world := (world.issueId.2).setMiner conn miner
  {world with built := Function.update world.built conn []}

def leave (world : World) (conn : ℕ) : World := {world with miners := Function.update world.miners conn none}

variable (limit : ℕ)

def step (world : World) : Event → Option World
  | .login conn proxy moNative difficulty => some (login world conn (createMiner proxy moNative difficulty))
  | .issueId => some world.issueId.2
  | .change conn change => (world.miners conn).map fun miner => world.setMiner conn (miner.change change)
  | .job conn offer => (world.miners conn).map fun miner => getCoinJob world conn miner offer
  | .submit conn param => (world.miners conn).map fun miner =>
      match getSubmitJob limit miner param with
      | (_,some miner) => world.setMiner conn miner
      | (_,none) => leave world conn
  | .leave conn => some (leave world conn)

def start : World where
  state := ⟨0,0⟩
  miners _ := none
  decimals := 0
  hexes := 0
  built _ := []

def worker : Machine World Event where
  initial world := world = start
  step := step limit

end NodejsPool.Pool.JobIds
