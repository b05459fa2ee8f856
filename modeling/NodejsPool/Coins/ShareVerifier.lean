import NodejsPool.Common.Callbacks
import NodejsPool.Common.Counters
import NodejsPool.Payments.Json

/-! Verification of shares on remote hosts. A verifier's callback is outside code, which may ask for
further verifications or throw; an exception that nothing catches ends the process. -/
namespace NodejsPool.Coins.ShareVerifier
open Async Callbacks Counters
open Payments (Json)

variable {n : ℕ}

section Values

def isHexString : Json → Bool
  | .str text => text.length % 2 = 0 && text.toList.all fun char => char.isDigit || ('a' ≤ char ∧ char ≤ 'f') ||
      ('A' ≤ char ∧ char ≤ 'F')
  | _ => false

def verifierResultToHex : Json → Json
  | .null => .null
  | .bool false => .bool false
  | .str text => if isHexString (.str text) then .str text else .bool false
  | .arr values => if values.all isHexString then .arr values else .bool false
  | _ => .bool false

/-- `net.isIP(host) === 4`. -/
def isIPv4 (host : List Char) : Bool :=
  let parts := host.splitOn '.'
  parts.length = 4 && parts.all fun part =>
    (1 ≤ part.length ∧ part.length ≤ 3) && part.all Char.isDigit && (part.length = 1 || part.head? ≠ some '0') &&
      part.foldl (fun value char => 10 * value + (char.toNat - 48)) 0 ≤ 255

def shouldCompressVerifierProof (host : String) : Bool :=
  let normalized := host.toList.map Char.toLower
  normalized ∉ ["localhost","localhost.","::1","[::1]"].map String.toList &&
    !(isIPv4 normalized && "127.".toList.isPrefixOf normalized)

end Values

structure VerifyTask where
  id : ℕ
  miner_address : String
  time : ℤ
  pearl : Bool
  verifyBytes : ℕ

structure Health where
  lastErrorAt : ℤ
  errorCount : ℕ

/-- A host's entry of `shareVerifyQueues`. -/
structure Verifier where
  queue : TaskQueue VerifyTask Empty
  health : Health

inductive Socket where
  | connecting
  | connected
  | ended
  | destroyed
  deriving DecidableEq

/-- A call of `verifyShareRemote`, with how often it has called `queueCB`. -/
structure Verification (n : ℕ) where
  host : Fin n
  task : VerifyTask
  expired : Bool
  is_cb : Bool
  compressing : Bool
  timer : Bool
  socket : Socket
  buff : List UInt16
  freed : ℕ

structure Call where
  task : ℕ
  result : Json
  errorKind : Option String

/-- Calls on the stack: outside code, the `try` around a local hash, `pump` with its loop, and a
worker that has called the callback of an expired task. -/
inductive Frame (n : ℕ) where
  | code
  | attempt
  | pump (host : Fin n)
  | loop (host : Fin n)
  | queueCB (verification : ℕ)
  deriving DecidableEq

/-- What the handler of the event does once the calls above it have returned. A reply's handler runs
in a `try`. -/
inductive Handler (n : ℕ) where
  | idle
  | leaving (tried : Option ℕ)
  | answer (verification : ℕ) (tried : Bool)
  | sweep (host : Fin n) (index : ℕ)
  | report (host : Fin n) (index : ℕ)
  deriving DecidableEq

structure World (n : ℕ) where
  queues : Fin n → Verifier
  miner_address_verify : String → Option ℕ
  pearlPendingVerifyBytes : ℕ
  pearlPendingVerifyTasks : ℕ
  verifications : List (Verification n)
  handler : Handler n
  stack : List (Frame n)
  accepted : List VerifyTask
  calls : List Call
  reported : List ℕ
  removed : List ℕ

/-- `verify_shares_host`, and `JSON.parse`. -/
structure Config (n : ℕ) where
  host : Fin n → String
  parse : List UInt16 → Option Json

structure HashTemplate where
  randomx : Bool
  seed_hash : Option String

def PEARL_MAX_PROOF_BYTES : ℕ := 8 * 1024 * 1024
def PEARL_PENDING_VERIFY_MAX_BYTES : ℕ := 32 * 1024 * 1024
def PEARL_PENDING_VERIFY_MAX_TASKS : ℕ := 256

/-- `profile.pow.verifyInput`: the seed hash of the input, or an exception. -/
def verifyInput (template : HashTemplate) : Option (Option String) :=
  if template.randomx then template.seed_hash.map some else some none

def Verifier.size (candidate : Verifier) : ℕ := candidate.queue.pending.length + candidate.queue.running

section Selection

def Verifier.failing (candidate : Verifier) (host : String) (timeNow : ℤ) : Bool :=
  timeNow - candidate.health.lastErrorAt < 60 * 1000 && 0 < candidate.health.errorCount && host ≠ "127.0.0.1"

def World.shortest (config : Config n) (world : World n) (timeNow : ℤ) (best : Option (Fin n × ℕ)) (candidate : Fin n) :
    Option (Fin n × ℕ) :=
  if (world.queues candidate).failing (config.host candidate) timeNow then best
  else if best.all fun best => (world.queues candidate).size < best.2 then
    some (candidate,(world.queues candidate).size)
  else best

def World.calmest (world : World n) (best : Option (Fin n)) (candidate : Fin n) : Option (Fin n) :=
  if best.all fun best => (world.queues candidate).health.lastErrorAt < (world.queues best).health.lastErrorAt then
    some candidate
  else best

def World.selectShareVerifyQueue (config : Config n) (world : World n) (timeNow : ℤ) : Option (Fin n) :=
  match (List.finRange n).foldl (world.shortest config timeNow) none with
  | some best => some best.1
  | none => (List.finRange n).foldl world.calmest none

end Selection

section Tasks

def VerifyTask.charged (task : VerifyTask) : Bool := task.pearl && task.verifyBytes ≠ 0

def VerifyTask.released (task : VerifyTask) : VerifyTask :=
    if task.charged then { task with verifyBytes := 0 } else task

def World.releasePearlVerifyBudget (world : World n) (task : VerifyTask) : World n :=
  { world with
    pearlPendingVerifyBytes := if task.charged then world.pearlPendingVerifyBytes - task.verifyBytes
      else world.pearlPendingVerifyBytes
    pearlPendingVerifyTasks := if task.charged then world.pearlPendingVerifyTasks - 1
      else world.pearlPendingVerifyTasks }

def World.decrementMinerAddressVerify (world : World n) (miner_address : String) : World n :=
  { world with miner_address_verify := decrement world.miner_address_verify miner_address }

/-- `task.cb`. -/
def World.cb (world : World n) (task : VerifyTask) (result : Json) (errorKind : Option String) : World n :=
  { world with
    stack := .code::world.stack
    calls := world.calls ++ [⟨task.id,if task.pearl then result else verifierResultToHex result,errorKind⟩] }

def VerifyTask.expiredKind (task : VerifyTask) : Option String := if task.pearl then some "verify-host-error" else none

def World.setQueue (world : World n) (host : Fin n) (queue : TaskQueue VerifyTask Empty) : World n :=
  { world with queues := Function.update world.queues host { world.queues host with queue := queue } }

def World.setHealth (world : World n) (host : Fin n) (health : Health) : World n :=
  { world with queues := Function.update world.queues host { world.queues host with health := health } }

def World.setVerification (world : World n) (index : ℕ) (verification : Verification n) : World n :=
  { world with verifications := world.verifications.set index verification }

end Tasks

section Worker

def opened (host : Fin n) (task : VerifyTask) : Verification n := ⟨host,task,false,false,false,true,.connecting,[],0⟩

def lapsed (host : Fin n) (task : VerifyTask) : Verification n :=
    ⟨host,task.released,true,true,false,false,.destroyed,[],0⟩

def World.verifyShareRemote (world : World n) (host : Fin n) (task : VerifyTask) (now : ℤ) : World n :=
  if now - task.time > 60 * 1000 then
    World.cb { (world.decrementMinerAddressVerify task.miner_address).releasePearlVerifyBudget task with
      verifications := world.verifications ++ [lapsed host task]
      stack := .queueCB world.verifications.length::world.stack } task .null task.expiredKind
  else { world.decrementMinerAddressVerify task.miner_address with
    verifications := world.verifications ++ [opened host task] }

variable (world : World n) (index : ℕ) (verification : Verification n)

/-- `onDone`, up to its call of `pump`. -/
def World.queueCB : World n :=
  let queue := (world.queues verification.host).queue
  { (world.setQueue verification.host { queue with running := queue.running - 1 }).setVerification index
      { verification with freed := verification.freed + 1 } with
    stack := .pump verification.host::world.stack }

def World.finishTask : World n :=
  (world.releasePearlVerifyBudget verification.task).queueCB index
    { verification with task := verification.task.released }

/-- `tried` when the call stands in the `try` of a reply. -/
def World.return_cb (tried : Bool) (result : Json) (errorKind : Option String) : World n :=
  if verification.is_cb then world
  else World.cb { world.setVerification index { verification with is_cb := true,timer := false } with
    handler := .answer index tried } verification.task result errorKind

def World.fail (world : World n) (host : Fin n) (now : ℤ) : World n :=
  world.setHealth host ⟨now,(world.queues host).health.errorCount + 1⟩

def World.onTimeout (now : ℤ) : World n :=
  let fired := { verification with timer := false,socket := .destroyed }
  ((world.setVerification index fired).fail verification.host now).return_cb index fired false .null none

def World.onConnect (config : Config n) (world : World n) (index : ℕ) (verification : Verification n)
    (original : Option ℕ) :
    World n :=
  world.setVerification index { verification with
    socket := .connected
    compressing := verification.task.pearl && shouldCompressVerifierProof (config.host verification.host) &&
      original.isNone }

def World.onCompressed : World n :=
  if verification.is_cb then
    { world with handler := .leaving none }.finishTask index { verification with compressing := false }
  else world.setVerification index { verification with compressing := false }

def World.onData (buff1 : List UInt16) : World n :=
  let read := { verification with buff := verification.buff ++ buff1 }
  if read.buff.length > 16 * 1024 * 1024 then
    (world.setVerification index { read with socket := .destroyed }).return_cb index { read with socket := .destroyed }
      false .null (some "verify-host-error")
  else world.setVerification index read

/-- The result of a reply, unless the reply is refused. -/
def result (config : Config n) (verification : Verification n) : Option Json :=
  match config.parse verification.buff with
  | some (.obj fields) =>
    match (Json.obj fields).field "result" with
    | none => none
    | some rawResult =>
      if verification.task.pearl then some rawResult
      else match verifierResultToHex rawResult,rawResult with
        | .bool false,.bool false => some (.bool false)
        | .bool false,_ => none
        | result,_ => some result
  | _ => none

/-- The `catch` of `onEnd`. -/
def World.refuse (now : ℤ) : World n :=
  (world.fail verification.host now).return_cb index verification false (.bool false) (some "verify-host-error")

def World.onEnd (config : Config n) (world : World n) (index : ℕ) (verification : Verification n) (now : ℤ) : World n :=
  let ended := { verification with socket := .ended }
  match result config verification with
  | some result =>
    ((world.setVerification index ended).setHealth verification.host
      { (world.queues verification.host).health with errorCount := 0 }).return_cb index ended true result none
  | none => (world.setVerification index ended).refuse index ended now

def World.onError (now : ℤ) : World n :=
  let destroyed := { verification with socket := .destroyed }
  ((world.setVerification index destroyed).fail verification.host now).return_cb index destroyed false (.bool false)
    (some "verify-host-error")

end Worker

section Requests

/-- What becomes of a request: `verifyInput` throws, and `unqueued` finds no queue, when the count of the
miner is already taken. -/
inductive Admission (n : ℕ) where
  | rejected
  | locally
  | thrown
  | unqueued
  | queued (host : Fin n) (verifyBytes : ℕ)

/-- A proof is given by its length, and by the length of its packed form where one is known. -/
structure PearlRequest where
  header : String
  proof : Option ℕ
  target : String
  originalGzip : Option ℕ

def PearlRequest.verifyBytes (request : PearlRequest) (proof : ℕ) (compress : Bool) : ℕ :=
  let compressionBytes := if compress && request.originalGzip.isNone then 2 * proof else 0
  proof + request.originalGzip.getD 0 + compressionBytes + request.header.utf8ByteSize + request.target.utf8ByteSize +
    256

def World.pearlAdmission (config : Config n) (world : World n) (request : PearlRequest)
    (miner_address : String) (now : ℤ) :
    Admission n :=
  match request.proof with
  | none => .rejected
  | some proof =>
    if proof = 0 ∨ proof > PEARL_MAX_PROOF_BYTES then .rejected
    else if n = 0 then .rejected
    else if (world.miner_address_verify miner_address).getD 0 > 100 then .rejected
    else match world.selectShareVerifyQueue config now with
      | none => .rejected
      | some bestQueue =>
        let verifyBytes := request.verifyBytes proof (shouldCompressVerifierProof (config.host bestQueue))
        if world.pearlPendingVerifyTasks ≥ PEARL_PENDING_VERIFY_MAX_TASKS ∨
            verifyBytes > PEARL_PENDING_VERIFY_MAX_BYTES - world.pearlPendingVerifyBytes then .rejected
        else .queued bestQueue verifyBytes

def World.hashAdmission (config : Config n) (world : World n) (template : HashTemplate)
    (miner_address : String) (now : ℤ) :
    Admission n :=
  if n = 0 then .locally
  else if (world.miner_address_verify miner_address).getD 0 > 100 then .rejected
  else if (verifyInput template).isNone then .thrown
  else match world.selectShareVerifyQueue config now with
    | none => .unqueued
    | some bestQueue => .queued bestQueue 0

def World.reserve (world : World n) (task : VerifyTask) : World n :=
  { world with
    miner_address_verify := (increment world.miner_address_verify task.miner_address).2
    pearlPendingVerifyBytes := world.pearlPendingVerifyBytes + task.verifyBytes
    pearlPendingVerifyTasks := world.pearlPendingVerifyTasks + if task.pearl then 1 else 0 }

/-- `unshift`, up to its call of `pump`. -/
def World.unshift (world : World n) (host : Fin n) (task : VerifyTask) : World n :=
  { world.setQueue host ((world.queues host).queue.enqueue .unshift task none) with
    stack := .pump host::world.stack
    accepted := world.accepted ++ [task] }

def World.task (world : World n) (miner_address : String) (time : ℤ) (pearl : Bool) (verifyBytes : ℕ) : VerifyTask :=
  ⟨world.accepted.length,miner_address,time,pearl,verifyBytes⟩

def World.push (world : World n) (frames : List (Frame n)) : World n := { world with stack := frames ++ world.stack }

/-- An exception of `verifyInput` comes to the outside code that asks. -/
def World.request (world : World n) (admission : Admission n) (miner_address : String) (now : ℤ)
    (pearl : Bool) : World n :=
  match admission with
  | .rejected => world.push [.code]
  | .locally => world.push [.code,.attempt]
  | .thrown => world.reserve (world.task miner_address now pearl 0)
  | .unqueued => (world.reserve (world.task miner_address now pearl 0)).push [.code]
  | .queued host verifyBytes =>
    (world.reserve (world.task miner_address now pearl verifyBytes)).unshift host
      (world.task miner_address now pearl verifyBytes)

end Requests

section Sweep

/-- `checkQueue`, up to the loop of `remove`. -/
def World.checkQueue (world : World n) (host : Fin n) (now : ℤ) : World n :=
  let pending := (world.queues host).queue.pending
  match oldest pending with
  | none => world
  | some oldestTask =>
    if now - oldestTask.data.time ≤ 60 * 1000 then world
    else { world with handler := .sweep host pending.length }

/-- `removeExpired`, up to the return of the callback. -/
def World.removeExpired (world : World n) (host : Fin n) (index : ℕ) (task : QueueTask VerifyTask Empty)
    (now : ℤ) : World n :=
  if now - task.data.time ≤ 60 * 1000 then { world with handler := .sweep host index }
  else
    let queue := (world.queues host).queue
    World.cb { ((world.decrementMinerAddressVerify task.data.miner_address).releasePearlVerifyBudget task.data).setQueue
      host { queue with pending := queue.pending.set index { task with data := task.data.released } } with
      handler := .report host index
      reported := world.reported ++ [task.data.id] } task.data .null task.data.expiredKind

/-- The `splice` of `remove`. -/
def World.splice (world : World n) (host : Fin n) (index : ℕ) : World n :=
  let queue := (world.queues host).queue
  { world.setQueue host { queue with pending := queue.pending.eraseIdx index } with
    handler := .sweep host index
    removed := world.removed ++ (queue.pending[index]?.map fun task => task.data.id).toList }

end Sweep

section Steps

inductive Label (n : ℕ) where
  | event
  | verifyPearlAsync (request : PearlRequest) (miner_address : String) (now : ℤ)
  | slowHashAsync (template : HashTemplate) (miner_address : String) (now : ℤ)
  | return
  | throw (unwound : ℕ) (now : ℤ)
  | connect (verification : ℕ) (original : Option ℕ)
  | compressed (verification : ℕ)
  | data (verification : ℕ) (buff1 : List UInt16)
  | end (verification : ℕ) (now : ℤ)
  | error (verification : ℕ) (now : ℤ)
  | timeout (verification : ℕ) (now : ℤ)
  | checkQueue (host : Fin n) (now : ℤ)
  | run (now : ℤ)

/-- The callback of a request that is answered without a task may be called again by the `catch` of its call. -/
def World.throw (world : World n) (unwound : ℕ) (now : ℤ) : Option (World n) :=
  if world.stack.head? ≠ some .code ∨ unwound = 0 ∨ .attempt ∈ world.stack.take unwound then none
  else match world.stack.drop unwound with
    | .code::stack => some { world with stack := .code::stack }
    | .attempt::stack => some { world with stack := .code::stack }
    | [] =>
      match world.handler with
      | .answer index true | .leaving (some index) => world.verifications[index]?.map fun verification =>
        { world with handler := .idle,stack := [] }.refuse index verification now
      | _ => none
    | _ => none

def World.atRest (world : World n) : Prop := world.stack = [] ∧ world.handler = .idle

instance (world : World n) : Decidable world.atRest := inferInstanceAs (Decidable (_ ∧ _))

def World.taken (world : World n) (host : Fin n) (others : List (QueueTask VerifyTask Empty)) : World n :=
  let queue := (world.queues host).queue
  world.setQueue host { queue with pending := others,running := queue.running + 1 }

def World.endLoop (world : World n) (host : Fin n) (stack : List (Frame n)) : World n :=
  { world.setQueue host { (world.queues host).queue with pumping := false } with stack := stack }

/-- The loop of `pump` takes one task, or ends. -/
def World.loop (world : World n) (host : Fin n) (stack : List (Frame n)) (now : ℤ) : World n :=
  match (world.queues host).queue.pending with
  | task::others =>
    if (world.queues host).queue.running < 16 then (world.taken host others).verifyShareRemote host task.data now
    else world.endLoop host stack
  | [] => world.endLoop host stack

def World.pump (world : World n) (host : Fin n) (stack : List (Frame n)) : World n :=
  let queue := (world.queues host).queue
  if queue.pumping then { world with stack := stack }
  else { world.setQueue host { queue with pumping := true } with stack := .loop host::stack }

def World.handle (world : World n) (now : ℤ) : Option (World n) :=
  match world.handler with
  | .idle => none
  | .leaving _ => some { world with handler := .idle }
  | .answer index tried => world.verifications[index]?.map fun verification =>
    if verification.compressing then { world with handler := .idle }
    else { world with handler := .leaving (if tried then some index else none) }.finishTask index verification
  | .sweep _ 0 => some { world with handler := .idle }
  | .sweep host (index + 1) =>
    match (world.queues host).queue.pending[index]? with
    | none => some { world with handler := .sweep host index }
    | some task => some (world.removeExpired host index task now)
  | .report host index => some (world.splice host index)

def World.run (world : World n) (now : ℤ) : Option (World n) :=
  match world.stack with
  | .code::_ => none
  | .attempt::stack => some { world with stack := stack }
  | .pump host::stack => some (world.pump host stack)
  | .loop host::stack => some (world.loop host stack now)
  | .queueCB index::stack => world.verifications[index]?.map (World.queueCB { world with stack := stack } index)
  | [] => world.handle now

def World.on (world : World n) (index : ℕ) (may : Verification n → Bool) (handle : Verification n → World n) :
    Option (World n) :=
  if world.atRest then (world.verifications[index]?.filter may).map handle else none

def World.outside (world : World n) (next : World n) : Option (World n) :=
  if world.stack.head? = some .code then some next else none

def World.step (config : Config n) (world : World n) : Label n → Option (World n)
  | .event => if world.atRest then some { world with handler := .leaving none,stack := [.code] } else none
  | .verifyPearlAsync request miner_address now =>
    world.outside (world.request (world.pearlAdmission config request miner_address now) miner_address now true)
  | .slowHashAsync template miner_address now =>
    world.outside (world.request (world.hashAdmission config template miner_address now) miner_address now false)
  | .return => world.outside { world with stack := world.stack.tail }
  | .throw unwound now => world.throw unwound now
  | .connect index original =>
    world.on index (fun verification => verification.socket = .connecting) fun verification =>
      world.onConnect config index verification original
  | .compressed index => world.on index Verification.compressing (world.onCompressed index)
  | .data index buff1 =>
    world.on index (fun verification => verification.socket = .connected) fun verification =>
      world.onData index verification buff1
  | .end index now =>
    world.on index (fun verification => verification.socket = .connected) fun verification =>
      world.onEnd config index verification now
  | .error index now =>
    world.on index (fun verification => verification.socket ≠ .destroyed) fun verification =>
      world.onError index verification now
  | .timeout index now => world.on index Verification.timer fun verification => world.onTimeout index verification now
  | .checkQueue host now => if world.atRest then some (world.checkQueue host now) else none
  | .run now => world.run now

def World.empty : World n where
  queues _ := ⟨⟨[],0,false,0⟩,⟨0,0⟩⟩
  miner_address_verify _ := none
  pearlPendingVerifyBytes := 0
  pearlPendingVerifyTasks := 0
  verifications := []
  handler := .idle
  stack := []
  accepted := []
  calls := []
  reported := []
  removed := []

def machine (config : Config n) : Machine (World n) (Label n) where
  initial world := world = World.empty
  step := World.step config

end Steps
end NodejsPool.Coins.ShareVerifier
