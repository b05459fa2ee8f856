import Mathlib.Algebra.Group.Prod
import NodejsPool.Async.Machine
import NodejsPool.BlockManager.Precalc
import NodejsPool.Common.Entries

/-! The share accumulator of a pool worker: accepted shares gather per wallet and worker, and
leave as share records when an accumulator is old or large, or when its wallet's finalizer runs. -/
namespace NodejsPool.Pool.ShareAccumulator
open Async Entries Arithmetic Arithmetic.Rounded
open BlockManager (PoolType)

structure Miner where
  id : ℕ
  payout : String
  trust_key : Option String
  wallet_key : String
  identifier : String
  address : String
  paymentID : Option String
  poolTypeEnum : PoolType
  /-- A percentage that is not a number is `none`. -/
  payout_div : Option (List (String × Option ℚ))

/-- A late share is worth a part of its job's difficulty, never nothing: a positive double. -/
structure ShareJob where
  coin : String
  norm_diff : ℚ
  hashesPerDifficulty : Option ℚ
  rewarded_difficulty : ℚ
  rewarded_difficulty2 : ℚ
  rewarded : least ≤ rewarded_difficulty
  deriving DecidableEq

structure BlockTemplate where
  port : ℕ
  height : Option ℕ
  difficulty : ℚ
  idHash : String

/-- The configuration, the clock and the chain as a step finds them. A `shareAccTime` that is
no finite number is `none`. -/
structure Settings where
  timeNow : ℤ
  shareAccTime : Option ℚ
  daemonPort : ℕ
  anchor : Option ℕ
  pool_id : ℤ
  activeBlockTemplates : List (String × BlockTemplate)

/-- The job of an accepted share, and whether the share was trusted. -/
abbrev AcceptedShare := ShareJob × Bool

/-- `shares` remembers the accepted shares in the accumulator, here and in its record; no step reads it. -/
structure ShareWorker where
  height : Option ℕ
  difficulty : ℚ
  time : ℤ
  acc : ℚ
  raw_acc : ℚ
  acc2 : ℚ
  share_num : ℕ
  trustedShare : Bool
  shares : List AcceptedShare

/-- What `Share.encode` is given. -/
structure ShareRecord where
  blockHeight : ℕ
  paymentAddress : String
  paymentID : Option String
  raw_shares : ℚ
  shares2 : ℚ
  share_num : ℕ
  identifier : String
  port : ℕ
  blockDiff : ℚ
  poolType : PoolType
  foundBlock : Bool
  trustedShare : Bool
  poolID : ℤ
  timestamp : ℤ
  shares : List AcceptedShare

structure Timer where
  delay : ℚ
  walletKey : String
  miner : Miner
  btPort : ℕ

inductive Message where
  | trustedShare
  | normalShare
  | outdatedShare

structure ProxyMiner where
  hashes : ℚ
  submissionBudget : Bool

structure Activity where
  hashes : List (ℕ × ℚ)
  proxyMiners : List (String × ProxyMiner)
  walletTrust : List (String × ℚ)
  walletLastSeeTime : List (String × ℤ)

abbrev Wallet := List (String × ShareWorker)

/-- `credited` remembers the jobs of the accepted shares; no step reads it. -/
structure State where
  walletAcc : List (String × Wallet)
  walletWorkerCount : List (String × ℕ)
  isWalletAccFinalizer : List (String × Bool)
  timers : List Timer
  records : List ShareRecord
  messages : List Message
  activity : Activity
  credited : List ShareJob

def all_other_workers : String := "all_other_workers"

def workerLimit : ℕ := 50

def maxAcc : ℚ := 100000000

def getMinerTrustKey (miner : Miner) : String := (miner.trust_key.filter fun key => key ≠ "").getD miner.payout

def getRawShareReward (job : ShareJob) : ℚ :=
  nearest (job.rewarded_difficulty * (job.hashesPerDifficulty.filter fun hashes => 0 < hashes).getD 1)

def getShareAccTimeMs (settings : Settings) : ℚ :=
  match settings.shareAccTime with
  | none => 60 * 1000
  | some configured => if configured < 0 then 60 * 1000 else configured * 1000

def shareRecord (settings : Settings) (miner : Miner) (worker : ShareWorker) (workerName : String) (btPort : ℕ)
    (isTrustedShare : Bool) : ShareRecord :=
  { blockHeight := worker.height.getD 0, paymentAddress := miner.address, paymentID := miner.paymentID,
    raw_shares := worker.raw_acc, shares2 := worker.acc2, share_num := worker.share_num,
    identifier := workerName, port := btPort, blockDiff := worker.difficulty, poolType := miner.poolTypeEnum,
    foundBlock := false, trustedShare := isTrustedShare, poolID := settings.pool_id, timestamp := settings.timeNow,
    shares := worker.shares }

/-- Every caller stores a worker's accumulator, and never as a found block. -/
def storeShareDiv (settings : Settings) (miner : Miner) (worker : ShareWorker) (workerName : String) (btPort : ℕ)
    (isTrustedShare : Bool) : List ShareRecord :=
  let whole := shareRecord settings miner worker workerName btPort isTrustedShare
  match miner.payout_div with
  | none => [whole]
  | some payout_div => payout_div.filterMap fun (payout,payoutPercent) =>
    payoutPercent.map fun percent =>
      let payoutSplit := payout.splitOn "."
      { whole with
        paymentAddress := payoutSplit.headD ""
        paymentID := if payoutSplit.length = 2 then payoutSplit[1]?.filter fun id => id ≠ "" else none
        raw_shares := worker.raw_acc * percent / 100
        shares2 := (⌊worker.acc2 * percent / 100⌋ : ℤ) }

structure Scan where
  wallet : Wallet
  count : ℕ
  records : List ShareRecord
  isSomethingLeft : Bool

def removeWorker (settings : Settings) (miner : Miner) (btPort : ℕ) (scan : Scan) (workerName : String)
    (worker : ShareWorker) : Scan :=
  { scan with
    wallet := erase scan.wallet workerName
    count := if workerName ≠ all_other_workers then scan.count - 1 else scan.count
    records := scan.records ++
      if worker.acc ≠ 0 then storeShareDiv settings miner worker workerName btPort worker.trustedShare else [] }

def scanWorkers (settings : Settings) (miner : Miner) (btPort : ℕ) : Wallet → Scan → Scan
  | [],scan => scan
  | (workerName,worker)::workers,scan =>
    scanWorkers settings miner btPort workers
      (if getShareAccTimeMs settings < settings.timeNow - worker.time then
        removeWorker settings miner btPort scan workerName worker
      else { scan with isSomethingLeft := true })

def workerCount (state : State) (walletKey : String) : ℕ := (get state.walletWorkerCount walletKey).getD 0

def walletAccFinalizer (settings : Settings) (walletKey : String) (miner : Miner) (btPort : ℕ) (state : State) :
    State :=
  match get state.walletAcc walletKey with
  | none => { state with isWalletAccFinalizer := put state.isWalletAccFinalizer walletKey false }
  | some wallet =>
    let scan := scanWorkers settings miner btPort wallet ⟨wallet,workerCount state walletKey,[],false⟩
    let scanned := { state with
      walletAcc := put state.walletAcc walletKey scan.wallet
      walletWorkerCount := put state.walletWorkerCount walletKey scan.count
      records := state.records ++ scan.records }
    if scan.isSomethingLeft then
      { scanned with timers := scanned.timers ++ [⟨getShareAccTimeMs settings,walletKey,miner,btPort⟩] }
    else { scanned with isWalletAccFinalizer := put scanned.isWalletAccFinalizer walletKey false }

def touchMiner (settings : Settings) (miner : Miner) (job : ShareJob) (activity : Activity) : Activity :=
  let hashes := put activity.hashes miner.id ((get activity.hashes miner.id).getD 0 + job.norm_diff)
  let proxyMiners := match get activity.proxyMiners miner.payout with
    | none => activity.proxyMiners
    | some proxyMiner => put activity.proxyMiners miner.payout ⟨proxyMiner.hashes + job.norm_diff,true⟩
  let trustKey := getMinerTrustKey miner
  let walletLastSeeTime := match get activity.walletTrust trustKey with
    | none => activity.walletLastSeeTime
    | some _ => put activity.walletLastSeeTime trustKey settings.timeNow
  { activity with hashes, proxyMiners, walletLastSeeTime }

def openWallet (walletKey : String) (state : State) : State :=
  match get state.walletAcc walletKey with
  | some _ => state
  | none => { state with
      walletAcc := put state.walletAcc walletKey []
      walletWorkerCount := put state.walletWorkerCount walletKey 0
      isWalletAccFinalizer := put state.isWalletAccFinalizer walletKey false }

/-- A new worker holds nothing yet; the wallet counts it unless it is the shared one. -/
def addShareWorker (workerName : String) (dbJobHeight : Option ℕ) (blockTemplate : BlockTemplate) (timeNow : ℤ)
    (isTrustedShare : Bool) (wallet : Wallet) (count : ℕ) : Wallet × ℕ :=
  (put wallet workerName ⟨dbJobHeight,blockTemplate.difficulty,timeNow,0,0,0,0,isTrustedShare,[]⟩,
    if workerName ≠ all_other_workers then count + 1 else count)

def updateShareWorker (settings : Settings) (miner : Miner) (job : ShareJob) (worker : ShareWorker)
    (workerName : String)
    (blockTemplate : BlockTemplate) (dbJobHeight : Option ℕ) (isTrustedShare : Bool) : ShareWorker × List ShareRecord :=
  if settings.timeNow - worker.time ≤ getShareAccTimeMs settings ∧ worker.acc < maxAcc then
    ({ worker with
      acc := nearest (worker.acc + job.rewarded_difficulty)
      raw_acc := nearest (worker.raw_acc + getRawShareReward job)
      acc2 := nearest (worker.acc2 + job.rewarded_difficulty2)
      share_num := worker.share_num + 1
      trustedShare := worker.trustedShare && isTrustedShare
      shares := worker.shares ++ [(job,isTrustedShare)] },[])
  else
    (⟨dbJobHeight,blockTemplate.difficulty,settings.timeNow,job.rewarded_difficulty,getRawShareReward job,
        job.rewarded_difficulty2,1,isTrustedShare,[(job,isTrustedShare)]⟩,
      if worker.acc ≠ 0 then storeShareDiv settings miner worker workerName blockTemplate.port isTrustedShare else [])

def armFinalizer (settings : Settings) (walletKey : String) (miner : Miner) (btPort : ℕ) (state : State) : State :=
  if get state.isWalletAccFinalizer walletKey = some false then
    { state with
      isWalletAccFinalizer := put state.isWalletAccFinalizer walletKey true
      timers := state.timers ++ [⟨getShareAccTimeMs settings,walletKey,miner,btPort⟩] }
  else state

def sendAccepted (settings : Settings) (job : ShareJob) (isTrustedShare : Bool) (blockTemplate : BlockTemplate) :
    List Message :=
  [if isTrustedShare then .trustedShare else .normalShare] ++
    match get settings.activeBlockTemplates job.coin with
    | none => []
    | some activeTemplate => if activeTemplate.idHash ≠ blockTemplate.idHash then [.outdatedShare] else []

def getWalletKey (miner : Miner) (blockTemplate : BlockTemplate) : String :=
    miner.wallet_key ++ toString blockTemplate.port

def chooseWorker (miner : Miner) (wallet : Wallet) (count : ℕ) : String :=
  if (get wallet miner.identifier).isSome ∨ count < workerLimit then miner.identifier else all_other_workers

def getDbJobHeight (settings : Settings) (blockTemplate : BlockTemplate) : Option ℕ :=
  if settings.daemonPort = blockTemplate.port then blockTemplate.height else settings.anchor

def creditWorker (settings : Settings) (miner : Miner) (job : ShareJob) (isTrustedShare : Bool)
    (blockTemplate : BlockTemplate) (walletKey : String) (wallet : Wallet) (state : State) : State :=
  let dbJobHeight := getDbJobHeight settings blockTemplate
  let count := workerCount state walletKey
  let workerName := chooseWorker miner wallet count
  let (wallet,count) :=
    if (get wallet workerName).isSome then (wallet,count)
    else addShareWorker workerName dbJobHeight blockTemplate settings.timeNow isTrustedShare wallet count
  match get wallet workerName with
  | none => state
  | some worker =>
    let (updated,stored) :=
      updateShareWorker settings miner job worker workerName blockTemplate dbJobHeight isTrustedShare
    armFinalizer settings walletKey miner blockTemplate.port { state with
      walletAcc := put state.walletAcc walletKey (put wallet workerName updated)
      walletWorkerCount := put state.walletWorkerCount walletKey count
      records := state.records ++ stored
      messages := state.messages ++ sendAccepted settings job isTrustedShare blockTemplate }

def recordShareData (settings : Settings) (miner : Miner) (job : ShareJob) (isTrustedShare : Bool)
    (blockTemplate : BlockTemplate) (state : State) : State :=
  let walletKey := getWalletKey miner blockTemplate
  let opened := openWallet walletKey { state with activity := touchMiner settings miner job state.activity }
  match get opened.walletAcc walletKey with
  | none => opened
  | some wallet => creditWorker settings miner job isTrustedShare blockTemplate walletKey wallet opened

inductive Label where
  | accept (settings : Settings) (miner : Miner) (job : ShareJob) (isTrustedShare : Bool)
    (blockTemplate : BlockTemplate)
  | fire (settings : Settings) (timer : ℕ)

def step (state : State) : Label → Option State
  | .accept settings miner job isTrustedShare blockTemplate =>
    let recorded := recordShareData settings miner job isTrustedShare blockTemplate state
    some { recorded with credited := recorded.credited ++ [job] }
  | .fire settings index => do
    let timer ← state.timers[index]?
    some (walletAccFinalizer settings timer.walletKey timer.miner timer.btPort
      { state with timers := state.timers.eraseIdx index })

def shareAccumulator : Machine State Label where
  initial state := state.walletAcc = [] ∧ state.walletWorkerCount = [] ∧ state.isWalletAccFinalizer = [] ∧
    state.timers = [] ∧ state.records = [] ∧ state.credited = []
  step := step

end NodejsPool.Pool.ShareAccumulator
