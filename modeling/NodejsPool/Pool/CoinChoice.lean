import NodejsPool.Common.Entries
import NodejsPool.Pool.JobIds

/-! The coin that a miner mines: how it is chosen among the active templates, when it is kept, and
the senders that choose it or take the one there is. -/
namespace NodejsPool.Pool.CoinChoice
open Async
open JobIds (Miner MinerJob Offer PoolSettings)

/-- What the coins' profiles and the settings of the pool say. A scale that is not positive is read as 1. -/
structure Profiles where
  coins : List String
  mainAlgos : List String
  allAlgos : List String
  algoShortTypeStr : ℕ → String
  minerAlgoAliases : String → List String
  getPoolHashesPerDifficulty : ℕ → ℚ
  hashesPerDifficulty_pos : ∀ port, 0 < getPoolHashesPerDifficulty port
  minDifficulty : ℚ
  getCoinMinDifficulty : String → ℚ
  getNiceHashMinimumDifficulty : String → ℚ
  poolSettings : ℕ → Option PoolSettings
  blobTypeNum : ℕ → Option ℕ

structure ActiveTemplate where
  port : ℕ
  bt : JobIds.BlockTemplate

abbrev HashFactor := {factor : ℚ // 0 ≤ factor}

/-- `miner.curr_coin`: not set yet, false, or a coin. -/
inductive CurrCoin
  | unset
  | no
  | coin (name : String)
  deriving DecidableEq

def CurrCoin.isCoin : CurrCoin → Bool
  | .coin _ => true
  | _ => false

structure Session where
  miner : Miner
  algos : List String
  coinPerf : List (String × ℚ)
  algoMinTime : ℚ
  currCoin : CurrCoin
  currCoinTime : ℕ

/-- `sent` is the job that the last step sent. -/
structure World where
  activeBlockTemplates : String → Option ActiveTemplate
  lastCoinHashFactorMM : String → Option HashFactor
  now : ℕ
  session : Option Session
  sent : Option MinerJob

def World.factorOf (world : World) (coin : String) : ℚ :=
  match world.lastCoinHashFactorMM coin with
  | none => 0
  | some factor => factor.val

variable (profiles : Profiles)

def isMinerSupportAlgo (algo : String) (algos : List String) : Bool :=
  algo ∈ algos || (profiles.minerAlgoAliases algo).any fun name => name ∈ algos

def algoMainCheck (algos : List String) : Bool := profiles.mainAlgos.any fun algo => algo ∈ algos

def algoCheck (algos : List String) : Bool :=
  algoMainCheck profiles algos || profiles.allAlgos.any fun algo => algo ∈ algos

section Choice

variable (world : World) (session : Session)

def checked (coin : String) : Bool :=
  match world.activeBlockTemplates coin with
  | none => false
  | some active => world.factorOf coin ≠ 0 && isMinerSupportAlgo profiles (profiles.algoShortTypeStr active.port)
    session.algos

def currentCoinSupported (coin : String) : Bool :=
  (Entries.get session.coinPerf coin).isSome && checked profiles world session coin

def keptCoin : Option String :=
  match session.currCoin with
  | .coin coin =>
    if currentCoinSupported profiles world session coin && session.currCoinTime ≠ 0 &&
      (world.now : ℚ) - session.currCoinTime < session.algoMinTime * 1000 then some coin else none
  | _ => none

def reaches (coin : String) : Bool :=
  match world.activeBlockTemplates coin with
  | none => false
  | some active =>
    session.miner.difficulty / (world.factorOf coin * profiles.getPoolHashesPerDifficulty active.port) ≤
      active.bt.difficulty * 3

def qualifies (coin : String) : Bool := checked profiles world session coin && reaches profiles world session coin

def candidatePerf (coin : String) : Option ℚ :=
  match Entries.get session.coinPerf coin with
  | none => none
  | some perf =>
    if qualifies profiles world session coin then
      some (perf * world.factorOf coin * if session.currCoin = .coin coin then 1.05 else 1)
    else none

def considerCoin (best : String × ℚ) (coin : String) : String × ℚ :=
  match candidatePerf profiles world session coin with
  | none => best
  | some coinPerf => if best.2 < coinPerf then (coin,coinPerf) else best

def basePerf : ℚ := (Entries.get session.coinPerf "").getD 0 * 1.1

def bestCoin : Option String :=
  let (coin,perf) := profiles.coins.foldl (considerCoin profiles world session) ("",basePerf session)
  if perf < 0 then (""::profiles.coins).find? (qualifies profiles world session) else some coin

def moveTo (coin : String) : Session :=
  if session.currCoin = .coin coin then session
  else
    { session with
      miner := session.miner.change (.selectCoin (profiles.getCoinMinDifficulty coin) session.currCoin.isCoin)
      currCoin := .coin coin
      currCoinTime := world.now }

def selectBestCoin : Option String × Session :=
  match keptCoin profiles world session with
  | some coin => (some coin,session)
  | none =>
    match bestCoin profiles world session with
    | none => (none,session)
    | some coin => (some coin,moveTo profiles world session coin)

end Choice

/-- What building a job asks for besides: the template's blobs, the miner's extranonce, whether the
coin's handler finds the template invalid, and the id that is next. -/
structure Delivery where
  nextBlobHex : Option String
  nextBlobWithChildNonceHex : Option String
  extraNonce : Option ℕ
  ensured : Option String
  payloadThrows : Bool
  id : String

/-- Nothing is offered without a template: the source throws. -/
def getCoinJobParams (world : World) (coin : String) (delivery : Delivery) : Option Offer :=
  (world.activeBlockTemplates coin).map fun active =>
    let hashesPerDifficulty := profiles.getPoolHashesPerDifficulty active.port
    { coin := coin
      bt := { active.bt with
        extraNonce := delivery.extraNonce
        nextBlobHex := delivery.nextBlobHex
        nextBlobWithChildNonceHex := delivery.nextBlobWithChildNonceHex }
      coinHashFactor := world.factorOf coin
      hashesPerDifficulty := if hashesPerDifficulty = 1 then none else some hashesPerDifficulty
      poolSettings := profiles.poolSettings active.port
      blobTypeNum := profiles.blobTypeNum active.port
      ensured := delivery.ensured
      payloadThrows := delivery.payloadThrows }

def getCoinJob (miner : Miner) (offer : Offer) (id : String) : Miner × Option MinerJob :=
  if JobIds.knowsJob miner offer.bt then (miner,none)
  else
    match JobIds.prepare miner offer with
    | (miner,none) => (miner,none)
    | (miner,some draft) =>
      let newJob := JobIds.jobOf id offer draft
      let miner := { miner with validJobs := miner.validJobs.enq JobIds.validJobsSize (some newJob) }
      if offer.payloadThrows then (miner,none)
      else ({ miner with cachedJob := some ⟨newJob.id,draft.blobHex,draft.coinDiff⟩ },some newJob)

def sendCoinJob (world : World) (session : Session) (coin : String) (delivery : Delivery) : World :=
  match getCoinJobParams profiles world coin delivery with
  | none => { world with session := some session }
  | some offer =>
    let (miner,job) := getCoinJob session.miner offer delivery.id
    { world with session := some { session with miner := miner }, sent := job }

/-- Also `getBestCoinJob`, which returns the job. -/
def sendBestCoinJob (world : World) (session : Session) (delivery : Delivery) : World :=
  match selectBestCoin profiles world session with
  | (none,session) => { world with session := some session }
  | (some coin,session) => sendCoinJob profiles world session coin delivery

def sendSameCoinJob (world : World) (session : Session) (delivery : Delivery) : World :=
  match session.currCoin with
  | .unset => sendBestCoinJob profiles world session delivery
  | .no => world
  | .coin coin => sendCoinJob profiles world session coin delivery

def notifyBestCoinMiners (world : World) (session : Session) (coin : String) (delivery : Delivery) : World :=
  match world.activeBlockTemplates coin with
  | none => world
  | some active =>
    if isMinerSupportAlgo profiles (profiles.algoShortTypeStr active.port) session.algos then
      sendBestCoinJob profiles world session delivery
    else world

def notifySameCoinMiners (world : World) (session : Session) (coin : String) (delivery : Delivery) : World :=
  if session.currCoin = .coin coin then sendCoinJob profiles world session coin delivery else world

/-- What a miner says of itself: the algorithms it knows, its hashrates by coin and for how long it
stays with one. The last two are none where they cannot be read. -/
structure Advertised where
  algos : List String
  coinPerf : Option (List (String × ℚ))
  algoMinTime : Option ℚ

def differ {Value : Type} [DecidableEq Value] (previous next : List (String × Value)) : Bool :=
  previous.length ≠ next.length || next.any fun entry => Entries.get previous entry.1 ≠ some entry.2

def algoEntries (algos : List String) : List (String × ℕ) := algos.map fun algo => (algo,1)

def setAlgos (session : Session) (advertised : Advertised) : Bool × Session :=
  let algos := advertised.algos
  if !algoCheck profiles algos then (false,{ session with algos := algos })
  else
    match advertised.coinPerf,advertised.algoMinTime with
    | some coinPerf,some algoMinTime =>
      let coinPerf :=
        if (Entries.get coinPerf "").isSome && algoMainCheck profiles algos then coinPerf
          else Entries.put coinPerf "" (-1)
      let next := { session with algos := algos, coinPerf := coinPerf, algoMinTime := algoMinTime }
      if session.algoMinTime ≠ algoMinTime || differ (algoEntries session.algos) (algoEntries algos) ||
        differ session.coinPerf coinPerf then
        (true,{ next with
          miner := { session.miner with cachedJob := none, jobLastBlockHash := none }
          currCoinTime := 0 })
      else (true,next)
    | _,_ => (false,{ session with algos := algos })

def createMiner (proxy moNative : Bool) (difficulty : ℚ) : Session where
  miner := JobIds.createMiner proxy moNative difficulty
  algos := []
  coinPerf := []
  algoMinTime := 0
  currCoin := .unset
  currCoinTime := 0

def applyNiceHashDiff (session : Session) (niceHash : Bool) : Session :=
  match session.currCoin with
  | .coin coin =>
    if niceHash && session.miner.difficulty < profiles.getNiceHashMinimumDifficulty coin then
      { session with miner := { session.miner with difficulty := profiles.getNiceHashMinimumDifficulty coin } }
    else session
  | _ => session

structure Login where
  proxy : Bool
  moNative : Bool
  difficulty : ℚ
  niceHash : Bool
  advertised : Advertised

def login (world : World) (request : Login) : World :=
  if (world.activeBlockTemplates "").isNone then world
  else
    match setAlgos profiles (createMiner request.proxy request.moNative request.difficulty) request.advertised with
    | (false,_) => world
    | (true,session) =>
      let session := { session with miner := session.miner.change (.selectCoin profiles.minDifficulty false) }
      let session :=
        match selectBestCoin profiles world session with
        | (none,session) => { session with currCoin := .no }
        | (some _,session) => session
      { world with session := some (applyNiceHashDiff profiles session request.niceHash) }

inductive Label
  | template (coin : String) (active : ActiveTemplate)
  | hashFactor (coin : String) (factor : HashFactor)
  | clock (now : ℕ)
  | login (request : Login)
  | setAlgos (advertised : Advertised)
  | setNewDiff (newDiffToSet newDiffRecommendation : Option ℚ)
  | dropLastBlockHash
  | extranonce (text : Option String)
  | sendBestCoinJob (delivery : Delivery)
  | sendSameCoinJob (delivery : Delivery)
  | notifyBestCoinMiners (coin : String) (delivery : Delivery)
  | notifySameCoinMiners (coin : String) (delivery : Delivery)

def Session.change (session : Session) (change : JobIds.Change) : Session :=
  { session with miner := session.miner.change change }

def step (world : World) (label : Label) : Option World :=
  let world := { world with sent := none }
  match label with
  | .template coin active =>
    some { world with activeBlockTemplates := Function.update world.activeBlockTemplates coin (some active) }
  | .hashFactor coin factor =>
    some { world with lastCoinHashFactorMM := Function.update world.lastCoinHashFactorMM coin (some factor) }
  | .clock now => some { world with now := now }
  | .login request => some (login profiles world request)
  | .setAlgos advertised => world.session.map fun session =>
      { world with session := some (setAlgos profiles session advertised).2 }
  | .setNewDiff toSet recommendation => world.session.map fun session =>
      { world with session := some (session.change (.retarget toSet recommendation)) }
  | .dropLastBlockHash => world.session.map fun session =>
      { world with session := some (session.change .dropLastBlockHash) }
  | .extranonce text => world.session.map fun session =>
      { world with session := some (session.change (.extranonce text)) }
  | .sendBestCoinJob delivery => world.session.map fun session => sendBestCoinJob profiles world session delivery
  | .sendSameCoinJob delivery => world.session.map fun session => sendSameCoinJob profiles world session delivery
  | .notifyBestCoinMiners coin delivery => world.session.map fun session =>
      notifyBestCoinMiners profiles world session coin delivery
  | .notifySameCoinMiners coin delivery => world.session.map fun session =>
      notifySameCoinMiners profiles world session coin delivery

def start : World where
  activeBlockTemplates _ := none
  lastCoinHashFactorMM coin := if coin = "" then some ⟨1,by decide +kernel⟩ else none
  now := 0
  session := none
  sent := none

def pool : Machine World Label where
  initial world := world = start
  step := step profiles

end NodejsPool.Pool.CoinChoice
