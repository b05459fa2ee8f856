import NodejsPool.Pool.WorkerIds

/-! The extranonces of one worker: previews on subscribe, claims on authorize, on login and when a
job needs one, and their return when a socket closes. -/
namespace NodejsPool.Pool.Extranonces
open Async WorkerIds

inductive LoginResult
  | standard
  | extraNonce
  | xtmC
  | pearl

structure PoolSettings where
  requiresExtranonce : Bool
  sharedTemplateNonces : Bool
  sendLoginResult : LoginResult

inductive Status
  | unopened
  | opened
  | closed
  deriving DecidableEq

structure Socket where
  status : Status
  extranonceId : Option ℕ
  previewId : Option ℕ
  minerId : Option ℕ

/-- `checking` counts the shares of the miner that are being verified. -/
structure Miner where
  socket : ℕ
  native : Bool
  valid : Bool
  active : Bool
  extranonce : Option String
  currCoin : Option String
  jobLastBlockHash : Option ℕ
  cachedJob : Bool
  checking : ℕ

/-- `told` is what each socket has been sent. -/
structure World where
  free : List ℕ
  sockets : ℕ → Socket
  miners : ℕ → Miner
  nextMiner : ℕ
  told : List (ℕ × String)

namespace World

def setSocket (world : World) (socket : ℕ) (value : Socket) : World :=
  { world with sockets := Function.update world.sockets socket value }

def setMiner (world : World) (id : ℕ) (value : Miner) : World :=
  { world with miners := Function.update world.miners id value }

def isOpen (world : World) (socket : ℕ) : Prop := (world.sockets socket).status = .opened

instance (world : World) (socket : ℕ) : Decidable (world.isOpen socket) := inferInstanceAs (Decidable (_ = _))

def tell (world : World) (socket : ℕ) (text : String) : World :=
  if world.isOpen socket then { world with told := world.told ++ [(socket,text)] } else world

end World

/-- `freeEthExtranonces.pop()` for a field of the socket. -/
def getNewEthExtranonceId (world : World) (socket : ℕ) (keep : ℕ → Socket) : Option ℕ × World :=
  match world.free.getLast? with
  | none => (none,world)
  | some id => (some id,{ world with free := world.free.dropLast }.setSocket socket (keep id))

def claimEthExtranonceId (world : World) (socket : ℕ) : Option ℕ × World :=
  let fields := world.sockets socket
  match fields.extranonceId with
  | some id => (some id,world)
  | none =>
    match fields.previewId with
    | some id => (some id,world.setSocket socket { fields with extranonceId := some id, previewId := none })
    | none => getNewEthExtranonceId world socket fun id => { fields with extranonceId := some id }

def getEthExtranoncePreviewId (world : World) (socket : ℕ) : Option ℕ × World :=
  let fields := world.sockets socket
  match fields.extranonceId with
  | some id => (some id,world)
  | none =>
    match fields.previewId with
    | some id => (some id,world)
    | none => getNewEthExtranonceId world socket fun id => { fields with previewId := some id }

section Jobs

variable (worker : Worker) (settings : String → PoolSettings)

def attachMinerExtranonce (world : World) (id : ℕ) : World :=
  let miner := world.miners id
  if miner.extranonce.isSome then world
  else
    match claimEthExtranonceId world miner.socket with
    | (some newId,claimed) => claimed.setMiner id { miner with extranonce := some (worker.ethExtranonce newId) }
    | (none,same) => same.setMiner id { miner with valid := false }

/-- `best` is the coin that `selectBestCoin` finds, `idHash` the template it has. -/
structure Offer where
  best : Option String
  idHash : ℕ
  newDiff : Bool
  blob : Bool

def selectBestCoin (world : World) (id : ℕ) (offer : Offer) : World :=
  let miner := world.miners id
  match offer.best with
  | none => world
  | some coin =>
    if miner.currCoin = some coin then world
    else if miner.currCoin.isSome then
      world.setMiner id { miner with currCoin := some coin, cachedJob := false, jobLastBlockHash := none }
    else world.setMiner id { miner with currCoin := some coin }

def needsNativeExtranonce (miner : Miner) (coin : String) : Bool :=
  miner.native && ((settings coin).sharedTemplateNonces || (settings coin).requiresExtranonce)

def knowsJob (miner : Miner) (offer : Offer) : Bool :=
  miner.jobLastBlockHash == some offer.idHash && !offer.newDiff && miner.cachedJob

def noteTemplate (world : World) (id : ℕ) (offer : Offer) : World :=
  world.setMiner id { world.miners id with jobLastBlockHash := some offer.idHash }

/-- `ensureEthExtranonce`, where the coin needs it of a native miner. -/
def ensureEthExtranonce (world : World) (id : ℕ) (coin : String) : World :=
  if needsNativeExtranonce settings (world.miners id) coin then attachMinerExtranonce worker world id else world

def buildJob (world : World) (id : ℕ) (coin : String) (offer : Offer) : Bool × World :=
  if needsNativeExtranonce settings (world.miners id) coin && (world.miners id).extranonce.isNone then (false,world)
  else if offer.blob then (true,world.setMiner id { world.miners id with cachedJob := true })
  else (false,world)

def getCoinJob (world : World) (id : ℕ) (coin : String) (offer : Offer) : Bool × World :=
  if knowsJob (world.miners id) offer then (false,world)
  else buildJob settings (ensureEthExtranonce worker settings (noteTemplate world id offer) id coin) id coin offer

def tellExtranonce (world : World) (id : ℕ) : World :=
  match (world.miners id).extranonce with
  | some text => world.tell (world.miners id).socket text
  | none => world

def tellJob (world : World) (id : ℕ) (coin : String) : World :=
  if (settings coin).requiresExtranonce then tellExtranonce world id else world

def sendCoinJob (world : World) (id : ℕ) (coin : String) (offer : Offer) : World :=
  match getCoinJob worker settings world id coin offer with
  | (true,built) => tellJob settings built id coin
  | (false,built) => built

def sendSameCoinJob (world : World) (id : ℕ) (offer : Offer) : World :=
  match (world.miners id).currCoin with
  | none => world
  | some coin => sendCoinJob worker settings world id coin offer

def sendBestCoinJob (world : World) (id : ℕ) (offer : Offer) : World :=
  match offer.best with
  | none => world
  | some coin => sendCoinJob worker settings (selectBestCoin world id offer) id coin offer

def attachLoginExtraNonce (world : World) (id : ℕ) : Bool × World :=
  let miner := world.miners id
  match claimEthExtranonceId world miner.socket with
  | (some newId,claimed) => (true,claimed.setMiner id { miner with extranonce := some (worker.ethExtranonce newId) })
  | (none,same) => (false,same)

def sendLoginResult (world : World) (id : ℕ) (coin : String) (offer : Offer) : World :=
  match (settings coin).sendLoginResult with
  | .standard => (getCoinJob worker settings world id coin offer).2
  | .pearl => sendBestCoinJob worker settings world id offer
  | .extraNonce =>
    match attachLoginExtraNonce worker world id with
    | (false,same) => same
    | (true,attached) => sendCoinJob worker settings (tellExtranonce attached id) id coin offer
  | .xtmC =>
    match attachLoginExtraNonce worker world id with
    | (false,same) => same
    | (true,attached) => tellExtranonce (getCoinJob worker settings attached id coin offer).2 id

inductive Method
  | authorize
  | login
  | stratum
  deriving DecidableEq

/-- `valid` is what `createMiner` finds, `accepted` that neither a notification nor the wallet's limit refuses. -/
structure Login where
  method : Method
  native : Bool
  valid : Bool
  accepted : Bool
  created : Option String

def createMiner (world : World) (socket : ℕ) (login : Login) : World :=
  { world with
    nextMiner := world.nextMiner + 1 }.setMiner world.nextMiner
    { socket := socket, native := login.native, valid := login.valid, active := false, extranonce := none,
      currCoin := login.created, jobLastBlockHash := none, cachedJob := false, checking := 0 }

def finishLogin (world : World) (socket id : ℕ) : World :=
  (world.setSocket socket { world.sockets socket with minerId := some id }).setMiner id
    { world.miners id with active := true }

def sendLoginJob (world : World) (id : ℕ) (method : Method) (offer : Offer) : World :=
  match method with
  | .stratum => world
  | .authorize => sendBestCoinJob worker settings world id offer
  | .login =>
    match offer.best with
    | none => world
    | some coin => sendLoginResult worker settings (selectBestCoin world id offer) id coin offer

/-- `delete socket.miner_id`. -/
def forgetMiner (world : World) (socket : ℕ) : World :=
    world.setSocket socket { world.sockets socket with minerId := none }

def applyAuthorizeExtranonce (world : World) (id : ℕ) (method : Method) : World :=
  if method = .authorize then attachMinerExtranonce worker world id else world

def acceptMiner (world : World) (socket id : ℕ) (login : Login) (offer : Offer) : World :=
  if (world.miners id).valid && login.accepted then
    sendLoginJob worker settings (finishLogin world socket id) id login.method offer
  else world

def handleLoginRequest (world : World) (socket : ℕ) (login : Login) (offer : Offer) : World :=
  if (world.sockets socket).minerId.any fun id => (world.miners id).active then world
  else
    let created := createMiner (forgetMiner world socket) socket login
    acceptMiner worker settings (applyAuthorizeExtranonce worker created world.nextMiner login.method) socket
      world.nextMiner login offer

def handleSubscribeRequest (world : World) (socket : ℕ) : World :=
  match getEthExtranoncePreviewId world socket with
  | (some previewId,previewed) => previewed.tell socket (worker.ethExtranonce previewId)
  | (none,same) => same

def removeMiner (world : World) (id : ℕ) : World := world.setMiner id { world.miners id with active := false }

def onClose (world : World) (socket : ℕ) : World :=
  let fields := world.sockets socket
  let removed := (fields.minerId.elim world fun id => removeMiner world id)
  let closed := removed.setSocket socket { fields with status := .closed }
  match fields.extranonceId with
  | some id => { closed with free := closed.free ++ [id] }
  | none =>
    match fields.previewId with
    | some id => { closed with free := closed.free ++ [id] }
    | none => closed

/-- Jobs go to active miners, and to the miner of a share that turns out invalid, whose socket may be gone. -/
inductive Label where
  | connect (socket : ℕ)
  | subscribe (socket : ℕ)
  | login (socket : ℕ) (login : Login) (offer : Offer)
  | sendSameCoinJob (id : ℕ) (offer : Offer)
  | sendBestCoinJob (id : ℕ) (offer : Offer)
  | submit (id : ℕ)
  | verified (id : ℕ)
  | invalidShare (id : ℕ) (offer : Offer)
  | remove (id : ℕ)
  | close (socket : ℕ)

def World.checked (world : World) (id : ℕ) : World :=
  world.setMiner id { world.miners id with checking := (world.miners id).checking - 1 }

def step (world : World) : Label → Option World
  | .connect socket =>
    if (world.sockets socket).status = .unopened then
      some (world.setSocket socket { world.sockets socket with status := .opened })
    else none
  | .subscribe socket => if world.isOpen socket then some (handleSubscribeRequest worker world socket) else none
  | .login socket login offer =>
    if world.isOpen socket then some (handleLoginRequest worker settings world socket login offer) else none
  | .sendSameCoinJob id offer =>
    if (world.miners id).active then some (sendSameCoinJob worker settings world id offer) else none
  | .sendBestCoinJob id offer =>
    if (world.miners id).active then some (sendBestCoinJob worker settings world id offer) else none
  | .submit id =>
    if (world.miners id).active then
      some (world.setMiner id { world.miners id with checking := (world.miners id).checking + 1 })
    else none
  | .verified id => if 0 < (world.miners id).checking then some (world.checked id) else none
  | .invalidShare id offer =>
    if 0 < (world.miners id).checking then some (sendSameCoinJob worker settings (world.checked id) id offer) else none
  | .remove id => some (removeMiner world id)
  | .close socket => if world.isOpen socket then some (onClose world socket) else none

def start : World where
  free := worker.freeEthExtranonces
  sockets _ := ⟨.unopened,none,none,none⟩
  miners _ := ⟨0,false,false,false,none,none,none,false,0⟩
  nextMiner := 0
  told := []

def extranonces : Machine World Label where
  initial world := world = start worker
  step := step worker settings

end Jobs
end NodejsPool.Pool.Extranonces
