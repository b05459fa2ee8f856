import NodejsPool.Async.Machine
import NodejsPool.Coins.EthReplies

/-! What `getAnyBlockHeaderByHash` asks and answers: a block of an ETH-family daemon by its hash, then
the block at its height, then the heights whose blocks may list it as an uncle. Every lookup races a
timer of its own. -/
namespace NodejsPool.Coins.Eth
open Async Payments
open Pool.Templates (Number)

def Daemon : Signature where
  Call := Request
  Reply _ := Json
  Error := Empty

inductive Call where
  | rpc (request : Request)
  | header (height : ℤ)

def Lookups : Signature where
  Call := Call
  Reply
    | .rpc _ => Json
    | .header _ => Result
  Error := Empty

def ask (request : Request) : Program Lookups Json := .perform (S := Lookups) (.rpc request)

def getPortBlockHeaderByID (height : ℤ) : Program Lookups Result := .perform (S := Lookups) (.header height)

structure Context where
  config : RpcSettings
  port : ℕ
  blockHash : String
  isOurBlock : Bool

variable (ctx : Context)

/-- What `createEthRpc` sets by itself. -/
def createEthRpc : RpcSettings := ⟨some (10^18),.number (some 2),some 2,false⟩

def Context.uncleText : String := "0x" ++ ctx.blockHash

def isText (text : String) : Json → Bool
  | .str value => value = text
  | _ => false

/-- `uncles.indexOf`. -/
def uncleIndex (uncles : List Json) : Option ℕ := uncles.findIdx? (isText ctx.uncleText)

def getBlockHeaderById (blockId : ℤ) : Program Daemon Result :=
  if blockId < 0 ∨ 2^53 ≤ blockId then .done ⟨true,.error "invalid ETH block height"⟩
  else do
    let body ← Program.perform (S := Daemon) (.blockByNumber blockId.toNat)
    match normalizeEthRewardBlock (rpcResultRecord body) (some blockId.toNat) with
    | none => pure ⟨true,.reply body⟩
    | some block => loadEthBlockReward (Program.perform (S := Daemon)) ctx.config block

def nearbyHeights (blockHeight : ℕ) : List ℤ := (List.range 16).map fun index : ℕ => (blockHeight : ℤ) + index - 7

def EthRewardBlock.orphan (block : EthRewardBlock) : EthRewardBlock :=
  { block with reward := none,confirmations := some (-1) }

def onUncle (canonical : EthRewardBlock) (bodyUncle : Json) : Option Number := do
  let uncle ← rpcResultRecord bodyUncle
  let uncleNumber ← text uncle "number"
  createEthUncleReward ctx.config canonical.number uncleNumber

def scanNearbyHeight (block canonical : EthRewardBlock) (body : Json) : List ℤ → Program Lookups Result
  | [] => .done ⟨false,.block block.orphan⟩
  | nearbyHeight::rest => do
    let found ← getPortBlockHeaderByID nearbyHeight
    match found with
    | ⟨true,_⟩ =>
      if ctx.isOurBlock then .done ⟨true,.reply body⟩ else scanNearbyHeight block canonical body rest
    | ⟨false,.block blockHeader⟩ =>
      match uncleIndex ctx blockHeader.uncles with
      | none => scanNearbyHeight block canonical body rest
      | some index => do
        let bodyUncle ← ask (.uncle nearbyHeight.toNat index)
        match onUncle ctx canonical bodyUncle with
        | none => scanNearbyHeight block canonical body rest
        | some uncleReward => .done ⟨false,.block { block with reward := some (.uncle uncleReward) }⟩
    | ⟨false,_⟩ => scanNearbyHeight block canonical body rest

def onCanonical (block : EthRewardBlock) (blockHeight : ℕ) (body : Json) : Result → Program Lookups Result
  | ⟨false,.block canonical⟩ =>
    if block.hash = canonical.hash then loadEthBlockReward ask ctx.config block
    else scanNearbyHeight ctx block canonical body (nearbyHeights blockHeight)
  | _ => .done ⟨true,.reply body⟩

def getAnyBlockHeaderByHash : Program Lookups Result := do
  let body ← ask (.blockByHash ctx.uncleText)
  match normalizeEthRewardBlock (rpcResultRecord body) none with
  | none => .done ⟨true,.reply body⟩
  | some block =>
    match safeHeight (parseEthBlockNumber block.number) with
    | none => .done ⟨true,.reply body⟩
    | some blockHeight => do
      let canonical ← getPortBlockHeaderByID blockHeight
      onCanonical ctx { block with height := some blockHeight } blockHeight body canonical

/-- The state of `createEthRpcFinalizer`; `timer` is whether its timer is set. -/
structure Finalizer where
  finished : Bool
  timer : Bool

def createEthRpcFinalizer : Finalizer := ⟨false,true⟩

/-- After `finish`, or after the timer. -/
def ended : Finalizer := ⟨true,false⟩

structure Lookup where
  height : ℤ
  program : Program Daemon Result
  finalizer : Finalizer

structure World where
  program : Program Lookups Result
  finalizer : Finalizer
  lookups : List Lookup
  callbacks : List Result
  history : History Lookups

inductive Label where
  | reply (body : Json)
  | lookupReply (index : ℕ) (body : Json)
  | lookupTimeout (index : ℕ)
  | timeout

def World.finish (world : World) (result : Result) : World :=
  if world.finalizer.finished then world
  else { world with finalizer := ended,callbacks := world.callbacks ++ [result] }

def advance : Program Lookups Result → World → World
  | .done result,world => { world with program := .done result }.finish result
  | .throw error,_ => nomatch error
  | .call (.rpc request) next,world => { world with program := .call (.rpc request) next }
  | .call (.header height) next,world =>
    match getBlockHeaderById ctx height with
    | .done result => advance (next (.ok result)) { world with history := ⟨.header height,.ok result⟩::world.history }
    | program => { world with
        program := .call (.header height) next
        lookups := world.lookups ++ [⟨height,program,createEthRpcFinalizer⟩] }

def resume (world : World) (result : Result) : World :=
  match world.program with
  | .call (.header height) next =>
    advance ctx (next (.ok result)) { world with history := ⟨.header height,.ok result⟩::world.history }
  | _ => world

def timeoutMessage (what : String) (subject : String) : String :=
  "ETH block header by " ++ what ++ " timed out for " ++ toString ctx.port ++ "/" ++ subject

/-- The lookup at `index` is left with its program, and calls back where it is the first to finish. -/
def finishLookup (world : World) (index : ℕ) (lookup : Lookup) (result : Result) : World :=
  if lookup.finalizer.finished then { world with lookups := world.lookups.set index lookup }
  else resume ctx { world with lookups := world.lookups.set index { lookup with finalizer := ended } } result

def World.step (world : World) : Label → Option World
  | .reply body =>
    match world.program with
    | .call (.rpc request) next =>
      some (advance ctx (next (.ok body)) { world with history := ⟨.rpc request,.ok body⟩::world.history })
    | _ => none
  | .lookupReply index body =>
    match world.lookups[index]? with
    | some lookup =>
      match lookup.program with
      | .call _ next =>
        match next (.ok body) with
        | .done result => some (finishLookup ctx world index { lookup with program := .done result } result)
        | program => some { world with lookups := world.lookups.set index { lookup with program := program } }
      | _ => none
    | none => none
  | .lookupTimeout index =>
    match world.lookups[index]? with
    | some lookup =>
      if lookup.finalizer.timer then some (finishLookup ctx world index
        { lookup with finalizer := { lookup.finalizer with timer := false } }
        ⟨true,.error (timeoutMessage ctx "height" (toString lookup.height))⟩) else none
    | none => none
  | .timeout =>
    if world.finalizer.timer then some ({ world with finalizer := { world.finalizer with timer := false } }.finish
      ⟨true,.error (timeoutMessage ctx "hash" ctx.blockHash)⟩) else none

def started : World := advance ctx (getAnyBlockHeaderByHash ctx) ⟨.done ⟨true,.reply .null⟩,
      createEthRpcFinalizer,[],[],[]⟩

/-- One call of `getAnyBlockHeaderByHash`. -/
def blockHeaderByHash : Machine World Label where
  initial world := world = started ctx
  step := World.step ctx

end NodejsPool.Coins.Eth
