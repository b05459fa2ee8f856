import NodejsPool.Async.Machine
import NodejsPool.Payments.Json
import NodejsPool.Pool.BlockTemplates

/-! Submission of one block candidate: the requests to the daemons of its chains, their replies, the
retries, the lookups of a block's hash, the stored blocks and the callback. -/
namespace NodejsPool.Pool.BlockSubmission
open Async Payments Templates

/-- A failed request gives an object without the fields read here, a body that is no JSON its text. -/
structure Reply where
  rpcResult : Json
  rpcStatus : Option ℕ

def isText (value : Option Json) (text : String) : Bool :=
  match value with
  | some (.str value) => value = text
  | _ => false

def errorObject (message : String) : Json :=
  .obj [("error",.obj [("code",.num (-1)),("message",.str message)])]

def blockSubmitFailureResults : List String := ["high-hash","bad-txnmrklroot","bad-cbtx-mnmerkleroot"]

def isSubmitFailure (rpcResult : Json) : Bool :=
  if !rpcResult.isRecord then false
  else if ((rpcResult.field "error").map Json.truthy).getD false then true
  else
    match rpcResult.field "result" with
    | some (.bool result) => !result
    | some (.str result) => blockSubmitFailureResults.contains result
    | _ => false

section Acceptance

inductive Acceptance
  | definedResult
  | booleanTrue
  | statusOkObject
  | xtmBlockHashResult
  | nonRejectedResponse
  | accepted202String
  | pearl

/-- The profiles' own: an array is a record too. -/
def isRecord : Json → Bool
  | .obj _ | .arr _ => true
  | _ => false

def acceptDefinedResult (reply : Reply) : Bool :=
  match reply.rpcResult.field "result" with
  | none => false
  | some result => !(isRecord result && (result.field "block_id").isNone && !isText (result.field "status") "OK")

def acceptBooleanTrue (reply : Reply) : Bool :=
  match reply.rpcResult.field "result" with
  | some (.bool result) => result
  | _ => false

def acceptStatusOkObject (reply : Reply) : Bool :=
  match reply.rpcResult.record "result" with
  | some result => isText (result.field "status") "OK"
  | none => false

def acceptXtmBlockHashResult (reply : Reply) : Bool :=
  match (reply.rpcResult.record "result").bind fun result => result.field "block_hash" with
  | some (.arr blockHash) => !blockHash.isEmpty
  | some (.str blockHash) => blockHash ≠ ""
  | _ => false

def acceptNonRejectedResponse (reply : Reply) : Bool :=
  reply.rpcResult.truthy && !isText (reply.rpcResult.field "response") "rejected"

def acceptAccepted202String (reply : Reply) : Bool :=
  match reply.rpcResult with
  | .str _ => reply.rpcStatus = some 202
  | _ => false

def acceptedPearlResult (rpcResult : Json) : Option String :=
  match rpcResult.record "result" with
  | none => none
  | some result =>
    match isText (result.field "status") "accepted",result.field "block_hash" with
    | true,some (.str blockHash) => if isHash blockHash then some blockHash else none
    | _,_ => none

def acceptPearlBlock (reply : Reply) : Bool := (acceptedPearlResult reply.rpcResult).isSome

def Acceptance.acceptSubmittedBlock : Acceptance → Reply → Bool
  | .definedResult => acceptDefinedResult
  | .booleanTrue => acceptBooleanTrue
  | .statusOkObject => acceptStatusOkObject
  | .xtmBlockHashResult => acceptXtmBlockHashResult
  | .nonRejectedResponse => acceptNonRejectedResponse
  | .accepted202String => acceptAccepted202String
  | .pearl => acceptPearlBlock

end Acceptance

section Candidate

inductive BlockData
  | buffer (bytes : Bytes)
  | values (values : List Json)
  | text (value : String)

def BlockData.isBuffer : BlockData → Bool
  | .buffer _ => true
  | _ => false

structure Digest where
  bytes : Bytes
  size : bytes.length = 32

inductive Resolution
  | block
  | deroBlid
  | resultHash
  | ergHeader
  | ethBlock
  | xtmRpcHash
  | pearl
  deriving DecidableEq

inductive Submitter
  | cryptonote
  | httpBlockBody
  | btc
  | eth
  | erg
  | dero
  | xtmRx
  | xtmC
  | pearl
  | dualMain
  deriving DecidableEq

structure PoolSettings where
  acceptSubmittedBlock : Acceptance
  resolveSubmittedBlockHash : Resolution
  submitBlockRpc : Submitter
  dualSubmitDisplayCoin : Option String
  dualSubmitReportPort : Option ℕ
  mainSubmitPort : Option ℕ
  dualSubmitPort : Option ℕ

structure DaemonConfig where
  port : ℕ
  portIsText : Bool
  mainBlockSubmitPort : Option ℕ
  dualBlockSubmitPort : Option ℕ

/-- A candidate with its template and the settings of its coin. `throws` is the message of what building the request
throws, `converts` that the block converts for a local check, `proofValid` that a proof to submit decodes. -/
structure Candidate where
  daemon : DaemonConfig
  poolSettings : Option PoolSettings
  coin : String
  port : ℕ
  port_pos : 0 < port
  height : ℕ
  difficulty : ℚ
  xmrDifficulty : Option ℚ
  xtmDifficulty : Option ℚ
  xtmHeight : Option ℕ
  xtmBlock : Bool
  hash2 : Option String
  hashDiff : ℚ
  blockData : BlockData
  blockId : Digest
  resultBuff : Option Digest
  proofValid : Bool
  throws : Option String
  isTrustedShare : Bool
  isParentBlock : Bool
  suppressFailureEmail : Bool
  converts : Bool
  poolType : ℕ
  anchorHeight : ℕ
  coin2port : String → Option ℕ
  getPoolWorkDifficulty : ℕ → ℚ → ℚ

end Candidate

variable (c : Candidate)

section Ports

/-- `configured || setting || port`. -/
def firstPort (configured setting : Option ℕ) : ℕ :=
  match configured.filter (· ≠ 0) with
  | some port => port
  | none => (setting.filter (· ≠ 0)).getD c.port

def mainSubmitPort : ℕ := firstPort c c.daemon.mainBlockSubmitPort (c.poolSettings.bind PoolSettings.mainSubmitPort)

def auxSubmitPort : ℕ := firstPort c c.daemon.dualBlockSubmitPort (c.poolSettings.bind PoolSettings.dualSubmitPort)

def isMainPort : Bool := c.daemon.port = c.port

def dualDisplayCoin : Option String := (c.poolSettings.bind PoolSettings.dualSubmitDisplayCoin).filter (· ≠ "")

def dualDisplayPort : ℕ :=
  match c.poolSettings.bind PoolSettings.dualSubmitReportPort with
  | some port => port
  | none => ((dualDisplayCoin c).bind c.coin2port).getD c.port

/-- Where a reply is dispatched: the port it came from, whether the callback goes with it, and the chain
where the submitter says which. -/
structure Dispatch where
  port : ℕ
  callback : Bool
  isDisplaySubmitPort : Option Bool

def isDisplaySubmitPort (dispatch : Dispatch) : Bool :=
  dispatch.isDisplaySubmitPort.getD (dispatch.port = c.daemon.port && !c.daemon.portIsText &&
    (dualDisplayCoin c).isSome)

inductive Chain
  | main
  | aux
  deriving DecidableEq

def chainOf (dispatch : Dispatch) : Chain := if isDisplaySubmitPort c dispatch then .aux else .main

end Ports

/-- One call of `submitBlock`. -/
structure Call where
  portUsedToSubmit : Option ℕ
  callback : Bool
  submitRetryCount : ℕ

section Submitters

structure Request where
  port : ℕ
  method : String
  dispatch : Dispatch

def stdDispatch (call : Call) : Dispatch := ⟨c.port,call.callback,none⟩

def getSubmitBuffer : Except Json Bytes :=
  match c.blockData with
  | .buffer bytes => .ok bytes
  | _ => .error (errorObject "Block submit data must be a buffer")

/-- One request whose reply goes to `replyFn`. -/
def request (method : String) (call : Call) : List Request := [⟨c.port,method,stdDispatch c call⟩]

def bufferRequest (method : String) (call : Call) : Except Json (List Request) := do
  let _ ← getSubmitBuffer c
  return request c method call

def submitCryptonoteBlock (call : Call) : Except Json (List Request) := bufferRequest c "submitblock" call
def submitHttpBlockBody (call : Call) : Except Json (List Request) := bufferRequest c "block" call
def submitBtcBlock (call : Call) : Except Json (List Request) := bufferRequest c "submitblock" call
def submitDeroBlock (call : Call) : Except Json (List Request) := bufferRequest c "submitblock" call
def submitEthBlock (call : Call) : Except Json (List Request) := .ok (request c "eth_submitWork" call)
def submitErgBlock (call : Call) : Except Json (List Request) := .ok (request c "mining/solution" call)

def xtmTPowAlgoOffset : ℕ := 43
def xtmTRandomxtPowAlgo : UInt8 := 2

def submitXtmRxBlock (call : Call) : Except Json (List Request) := do
  let actual :=
    match c.blockData with
    | .buffer bytes => bytes[xtmTPowAlgoOffset]?
    | _ => none
  if actual ≠ some xtmTRandomxtPowAlgo then
    .error (errorObject ("Invalid XTM-T pow_algo byte " ++ (actual.map fun byte =>
    toString byte.toNat).getD "missing" ++ "; expected 2"))
  else if !c.xtmBlock then .error (errorObject "Missing XTM template")
  else return request c "SubmitBlock" call

def submitXtmCBlock (call : Call) : Except Json (List Request) := do
  let _ ← getSubmitBuffer c
  if !c.xtmBlock then .error (errorObject "Missing XTM template") else return request c "SubmitBlock" call

def submitPearlBlock (call : Call) : Except Json (List Request) :=
  if c.proofValid then .ok (request c "submitPlainProof" call)
    else .error (errorObject "Invalid Pearl proof submission")

def meets (target : Option ℚ) : Bool :=
  match target with
  | some target => target ≤ c.hashDiff
  | none => false

def isXmr : Bool := meets c c.xmrDifficulty
def isXtm : Bool := meets c c.xtmDifficulty

def usesPort (call : Call) (port : ℕ) : Bool :=
    (call.portUsedToSubmit.filter (· ≠ 0)).isNone || call.portUsedToSubmit = some port

def submitTo (port : ℕ) (callback isDisplaySubmitPort : Bool) : Request :=
  ⟨port,"submitblock",⟨port,callback,some isDisplaySubmitPort⟩⟩

def submitDualMainBlock (call : Call) : Except Json (List Request) := do
  let _ ← getSubmitBuffer c
  if !isXmr c && !isXtm c then
    return [submitTo (mainSubmitPort c) call.callback false,submitTo (auxSubmitPort c) false true]
  else
    let main := if isXmr c && usesPort call (mainSubmitPort c) then [submitTo (mainSubmitPort c) call.callback false]
    else []
    let aux := if isXtm c && usesPort call (auxSubmitPort c) then [submitTo (auxSubmitPort c)
      (!isXmr c && call.callback) true] else []
    return main ++ aux

def Submitter.submitBlockRpc : Submitter → Call → Except Json (List Request)
  | .cryptonote => submitCryptonoteBlock c
  | .httpBlockBody => submitHttpBlockBody c
  | .btc => submitBtcBlock c
  | .eth => submitEthBlock c
  | .erg => submitErgBlock c
  | .dero => submitDeroBlock c
  | .xtmRx => submitXtmRxBlock c
  | .xtmC => submitXtmCBlock c
  | .pearl => submitPearlBlock c
  | .dualMain => submitDualMainBlock c

def requests (call : Call) : Except Json (List Request) :=
  match c.poolSettings with
  | none => .error (errorObject "submitBlockRpc is unavailable")
  | some settings =>
    match c.throws with
    | some message => .error (errorObject ("SubmitBlock exception: " ++ message))
    | none => settings.submitBlockRpc.submitBlockRpc c call

end Submitters

section Hashes

def zeroHash : String := String.ofList (List.replicate 64 '0')

def truncate (value : ℚ) : ℤ := if value < 0 then -⌊-value⌋ else ⌊value⌋

/-- An element of an array as a byte of `Buffer.from`. -/
def byteOf (value : Json) : Option UInt8 :=
  if convertible value then some (UInt8.ofNat (truncate ((toNumber value).getD 0) % 256).toNat) else none

def resolveDefaultSubmittedBlockHash (isDisplaySubmitPort : Bool) (rpcResult : Json) : String :=
  let blockHash := do
    let result ← rpcResult.record "result"
    let aux ← result.record "_aux"
    match aux.field "chains" with
    | some (.arr (first::_)) => first.field "block_hash"
    | _ => none
  match isDisplaySubmitPort,blockHash with
  | true,some (.str blockHash) => blockHash
  | _,_ => if c.blockData.isBuffer then bytesHex c.blockId.bytes else zeroHash

def resolveDeroSubmittedBlockHash (rpcResult : Json) : String :=
  match (rpcResult.record "result").bind fun result => result.field "blid" with
  | some (.str blockId) => blockId
  | _ => zeroHash

def resolveResultHashSubmittedBlockHash : String := (c.resultBuff.map fun digest => bytesHex digest.bytes).getD zeroHash

def resolveXtmSubmittedBlockHash (rpcResult : Json) : Option String :=
  match (rpcResult.record "result").bind fun result => result.field "block_hash" with
  | some (.arr blockHash) => (blockHash.mapM byteOf).map bytesHex
  | some (.str blockHash) => some blockHash
  | _ => some zeroHash

def resolvePearlBlockHash (rpcResult : Json) : String :=
  match acceptedPearlResult rpcResult with
  | some blockHash => blockHash.toLower
  | none => zeroHash

def samePk (pk : Option Json) : Bool :=
  match pk,c.hash2 with
  | none,none => true
  | some (.str pk),some hash2 => pk = hash2
  | _,_ => false

/-- `onHeader` of the lookup by height. -/
def resolveErgSubmittedBlockHash (err : Bool) (body : Json) : String :=
  let pk := if err then none else (body.record "powSolutions").bind fun powSolutions => powSolutions.field "pk"
  match samePk c pk,body.field "id" with
  | true,some (.str blockId) => blockId
  | _,_ => zeroHash

def ethBlockResolveAttempts : ℕ := 10

/-- `onBlockHash` of the lookup by nonce: a hash, or another attempt where one is left. -/
def resolveEthSubmittedBlockHash (attempt : ℕ) (blockHash : Option String) : String ⊕ ℕ :=
  match blockHash.filter (· ≠ "") with
  | some blockHash => .inl (String.ofList (blockHash.toList.drop 2))
  | none => if ethBlockResolveAttempts ≤ attempt + 1 then .inl zeroHash else .inr (attempt + 1)

end Hashes

section Records

inductive StoredBlock
  | block (height : ℕ) (hash : String) (difficulty : ℚ) (timestamp : ℕ) (poolType : ℕ)
  | altBlock (timestamp : ℕ) (hash : String) (difficulty : ℚ) (poolType port height anchorHeight : ℕ)

def StoredBlock.hash : StoredBlock → String
  | .block _ hash .. => hash
  | .altBlock _ hash .. => hash

def reportDiff (isDisplaySubmitPort : Bool) : ℚ :=
  if isDisplaySubmitPort then c.xtmDifficulty.getD c.difficulty else c.difficulty

def reportPort (isDisplaySubmitPort : Bool) : ℕ := if isDisplaySubmitPort then dualDisplayPort c else c.port

def reportHeight (isDisplaySubmitPort : Bool) : ℕ := if isDisplaySubmitPort then c.xtmHeight.getD c.height else c.height

def storeResolvedBlock (isDisplaySubmitPort : Bool) (newBlockHash : String) (timeNow : ℕ) : StoredBlock :=
  if isMainPort c && !isDisplaySubmitPort then
    .block c.height newBlockHash (c.xmrDifficulty.getD c.difficulty) timeNow c.poolType
  else
    .altBlock (timeNow / 1000) newBlockHash
      (c.getPoolWorkDifficulty (reportPort c isDisplaySubmitPort) (reportDiff c isDisplaySubmitPort)) c.poolType
      (reportPort c isDisplaySubmitPort) (reportHeight c isDisplaySubmitPort) c.anchorHeight

end Records

/-- What a submission waits for: a daemon's reply, the delay before a retry, a local check before a failure is
reported, the text of a report, and the lookups of an accepted block. -/
inductive Task
  | rpc (call : Call) (dispatch : Dispatch)
  | retry (call : Call)
  | notify (callback : Bool)
  | report (callback : Bool)
  | erg (reply : Reply) (dispatch : Dispatch)
  | eth (reply : Reply) (dispatch : Dispatch) (attempt : ℕ)

structure Stored where
  chain : Chain
  block : StoredBlock
  reply : Reply

structure World where
  tasks : List Task
  attempts : List Chain
  callbacks : List Bool
  stored : List Stored

namespace World

variable (world : World)

def add (task : Task) : World := {world with tasks := world.tasks ++ [task]}

/-- `if (nextSubmitBlockCB) nextSubmitBlockCB(success)`. -/
def finish (callback success : Bool) : World :=
  if callback then {world with callbacks := world.callbacks ++ [success]} else world

end World

def shouldRetryXmrSubmitFailure (call : Call) (dispatch : Dispatch) : Bool :=
  !isDisplaySubmitPort c dispatch && c.coin = "" && call.submitRetryCount = 0

def retrySubmit (call : Call) (dispatch : Dispatch) : Task :=
  .retry ⟨some dispatch.port,dispatch.callback,call.submitRetryCount + 1⟩

def checksHash : Bool := c.isParentBlock && c.isTrustedShare && !c.suppressFailureEmail &&
    c.blockData.isBuffer && c.converts

def onBlockHash (world : World) (reply : Reply) (dispatch : Dispatch) (newBlockHash : String) (timeNow : ℕ) : World :=
  if newBlockHash = zeroHash then world.finish dispatch.callback true
  else
    let entry : Stored := ⟨chainOf c dispatch,storeResolvedBlock c (isDisplaySubmitPort c dispatch)
    newBlockHash timeNow,reply⟩
    {world with stored := world.stored ++ [entry]}.finish dispatch.callback true

/-- The hash that a reply names by itself; none where the hash is looked up, and none within where resolving it
throws. -/
def namedHash (settings : PoolSettings) (dispatch : Dispatch) (reply : Reply) : Option (Option String) :=
  match settings.resolveSubmittedBlockHash with
  | .block => some (some (resolveDefaultSubmittedBlockHash c (isDisplaySubmitPort c dispatch) reply.rpcResult))
  | .deroBlid => some (some (resolveDeroSubmittedBlockHash reply.rpcResult))
  | .resultHash => some (some (resolveResultHashSubmittedBlockHash c))
  | .xtmRpcHash => some (resolveXtmSubmittedBlockHash reply.rpcResult)
  | .pearl => some (some (resolvePearlBlockHash reply.rpcResult))
  | .ergHeader | .ethBlock => none

def resolveSubmittedBlockHash (settings : PoolSettings) (world : World) (reply : Reply) (dispatch : Dispatch)
    (timeNow : ℕ) : World :=
  match namedHash c settings dispatch reply with
  | some (some newBlockHash) => onBlockHash c world reply dispatch newBlockHash timeNow
  | some none => world
  | none =>
    world.add (if settings.resolveSubmittedBlockHash = .ethBlock then .eth reply dispatch 0 else .erg reply dispatch)

def isAccepted (reply : Reply) : Bool :=
  match c.poolSettings with
  | some settings => settings.acceptSubmittedBlock.acceptSubmittedBlock reply
  | none => false

def replyFn (world : World) (call : Call) (reply : Reply) (dispatch : Dispatch) (timeNow : ℕ) : World :=
  if isSubmitFailure reply.rpcResult then
    if shouldRetryXmrSubmitFailure c call dispatch then world.add (retrySubmit call dispatch)
    else if checksHash c then world.add (.notify dispatch.callback)
    else world.finish dispatch.callback false
  else
    match c.poolSettings,isAccepted c reply with
    | some settings,true => resolveSubmittedBlockHash c settings world reply dispatch timeNow
    | _,_ =>
      if (call.portUsedToSubmit.filter (· ≠ 0)).isNone then world.add (retrySubmit call dispatch)
      else if c.suppressFailureEmail then world.finish dispatch.callback false
      else if c.blockData.isBuffer && c.converts then world.add (.report dispatch.callback)
      else world.finish dispatch.callback false

def send (call : Call) (world : World) (requests : List Request) : World :=
  {world with
    tasks := world.tasks ++ requests.map fun request => .rpc call request.dispatch
    attempts := world.attempts ++ requests.map fun request => chainOf c request.dispatch}

def submitBlock (world : World) (call : Call) (timeNow : ℕ) : World :=
  match requests c call with
  | .error error => replyFn c world call ⟨error,some 0⟩ (stdDispatch c call) timeNow
  | .ok requests => send c call world requests

/-- What comes from outside: a reply, the end of a delay, a check of the hash or a report that is ready,
and the lookups' answers. The index is the task's. -/
inductive Event where
  | reply (index : ℕ) (reply : Reply) (timeNow : ℕ)
  | retry (index : ℕ) (timeNow : ℕ)
  | checked (index : ℕ) (isNotifyAdmin : Bool)
  | reported (index : ℕ)
  | header (index : ℕ) (err : Bool) (body : Json) (timeNow : ℕ)
  | found (index : ℕ) (blockHash : Option String) (timeNow : ℕ)

def Event.index : Event → ℕ
  | .reply index .. | .retry index .. | .checked index .. | .reported index | .header index .. | .found index .. =>
    index

def resume (world : World) : Task → Event → Option World
  | .rpc call dispatch,.reply _ reply timeNow => some (replyFn c world call reply dispatch timeNow)
  | .retry call,.retry _ timeNow => some (submitBlock c world call timeNow)
  | .notify callback,.checked .. => some (world.finish callback false)
  | .report callback,.reported _ => some (world.finish callback false)
  | .erg reply dispatch,.header _ err body timeNow =>
    some (onBlockHash c world reply dispatch (resolveErgSubmittedBlockHash c err body) timeNow)
  | .eth reply dispatch attempt,.found _ blockHash timeNow =>
    match resolveEthSubmittedBlockHash attempt blockHash with
    | .inl newBlockHash => some (onBlockHash c world reply dispatch newBlockHash timeNow)
    | .inr attempt => some (world.add (.eth reply dispatch attempt))
  | _,_ => none

def step (world : World) (event : Event) : Option World := do
  let task ← world.tasks[event.index]?
  resume c {world with tasks := world.tasks.eraseIdx event.index} task event

def nothing : World := ⟨[],[],[],[]⟩

def begin (callback : Bool) (timeNow : ℕ) : World := submitBlock c nothing ⟨none,callback,0⟩ timeNow

def submission (callback : Bool) : Machine World Event where
  initial world := ∃ timeNow, world = begin c callback timeNow
  step := step c

end NodejsPool.Pool.BlockSubmission
