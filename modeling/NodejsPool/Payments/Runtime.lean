import NodejsPool.Async.System
import NodejsPool.Payments.Processor

/-! The payment runtime's cycle, the operator's unlock tool, and the world both run in:
a database, a wallet with its history, the advisory lock and the state of each process. -/
namespace NodejsPool.Payments
open Async

section Cycle

def releaseAdvisoryLock : Task Unit := do
  let connected ← ask .lockConnection
  if !connected then return ()
  else
    (ask .releaseLock).tryCatch fun _ => return ()
    ask (.setLockConnection false)

def acquireAdvisoryLock : Task Bool := do
  ask .getConnection
  ask (.setLockConnection true)
  let locked ← ask .getLock
  if locked then return true
  else
    releaseAdvisoryLock
    enterFailStop

def ensureAdvisoryLock : Task Bool := do
  let connected ← ask .lockConnection
  if connected then verifyAdvisoryLock
  else
    acquireAdvisoryLock.tryCatch fun _ => do
      ask (.setLockConnection false)
      enterFailStop

def runtimeRecovery (config : Config) : Task Bool := do
  let stopped ← ask .isFailStop
  if stopped then return false
  else
    let locked ← ensureAdvisoryLock
    if locked then recoverPendingBatches config else return false

def reserveBatch (plan : BatchPlan) : Task (Batch × List Item) := do
  let batchId ← ask (.reserve plan)
  return (reservedBatch batchId plan,buildItemRecords batchId plan.items)

inductive PlansResult where
  | lockLost
  | unresolvedBatch
  | done

def runPlans (config : Config) : List BatchPlan → Task PlansResult
  | [] => return .done
  | plan::plans => do
    let exclusive ← verifyAdvisoryLock
    if !exclusive then return .lockLost
    else
      let (batch,items) ← reserveBatch plan
      let outcome ← submitReservedBatch config batch items
      if outcome = .cleared then runPlans config plans else return .unresolvedBatch

def advancePaymentCycle : Task Unit := do
  let stopped ← ask .isFailStop
  if stopped then return ()
  else
    let milliseconds ← ask .now
    ask (.setLastPaymentCycle (milliseconds / 1000))

def cycleSteps (config : Config) : Task Unit := do
  let stopped ← ask .isFailStop
  if stopped then return ()
  else
    let locked ← ensureAdvisoryLock
    if !locked then return ()
    else
      let recovered ← runtimeRecovery config
      if !recovered then return ()
      else
        let plans ← planBatches config
        let result ← runPlans config plans
        match result with
        | .done => advancePaymentCycle
        | _ => return ()

def runCycle (config : Config) : Task Unit := (cycleSteps config).tryCatch fun _ => return ()

/-- Timer ticks never overlap inside one runtime; a stopped runtime gives the lock back. -/
def runCycles (config : Config) : ℕ → Task Unit
  | 0 => releaseAdvisoryLock
  | cycles + 1 => do
    runCycle config
    runCycles config cycles

end Cycle

section Unlock

def isPresentText (text : Option String) : Bool := text.any fun text => text ≠ ""

def unsafeUnlock (batch : Batch) (confirmWalletHistoryChecked : Bool) : Bool :=
  (!confirmWalletHistoryChecked && batch.submit_started_at.isSome) || batch.submitted_at.isSome ||
    isPresentText batch.tx_hash || isPresentText batch.tx_key || batch.transaction_id.isSome ||
    batch.finalized_at.isSome

def riskyUnlock (batch : Batch) (items : List Item) (reservedBalances : List BalanceRow) : Bool :=
  batch.status ∉ [.reserved,.retrying] || batch.released_at.isSome || reservedBalances.length ≠ items.length

/-- The lists the tool scans, unless one of them is malformed. -/
def historyTransfers (result : Json) : List String → Option (List Json)
  | [] => some []
  | key::keys =>
    match result.field key with
    | none => historyTransfers result keys
    | some (.arr entries) =>
      if entries.all Json.isRecord then (historyTransfers result keys).map fun transfers => entries ++ transfers
      else none
    | some _ => none

inductive WalletCheck where
  | no_match
  | match_found
  | wallet_unavailable
  deriving DecidableEq

def checkHistory (batch : Batch) (items : List Item) (result : Json) : Task WalletCheck := do
  match historyTransfers result ["out","pending","pool"] with
  | none => return .wallet_unavailable
  | some transfers => do
    let found ← liftExcept (firstMatch batch items transfers)
    match found with
    | none => return .no_match
    | some transfer =>
      match transfer.field "txid" with
      | some (.str _) => return .match_found
      | _ => return .wallet_unavailable
where
  /-- `transfers.find(…)`. -/
  firstMatch (batch : Batch) (items : List Item) : List Json → Except Failure (Option Json)
    | [] => .ok none
    | transfer::transfers => do
      let matching ← transferMatchesBatch batch items transfer
      if matching then return some transfer else firstMatch batch items transfers

def defaultWalletMatchChecker (batch : Batch) (items : List Item) : Task WalletCheck := do
  let heightReply ← callWallet .get_height
  match heightReply.result.bind fun result => toNumber (result.field "height") with
  | none => return .wallet_unavailable
  | some walletHeight => do
    let reply ← callWallet (.get_transfers
      (some (max 0 (walletHeight - recentTransferLookbackBlocks),walletHeight)))
    match reply.result with
    | none => return .wallet_unavailable
    | some result => checkHistory batch items result

def assertWalletHistoryClear (batch : Batch) (items : List Item) : Task Unit := do
  let check ← defaultWalletMatchChecker batch items
  if check = .no_match then return ()
  else fail (.thrown s!"Refusing to unlock payment batch {batch.id}")

structure UnlockOptions where
  batchId : ℕ
  force : Bool
  confirmWalletHistoryChecked : Bool

def runUnlock (options : UnlockOptions) : Task Unit := do
  let loaded ← ask (.selectBatch options.batchId)
  match loaded with
  | none => fail (.thrown s!"Payment batch {options.batchId} was not found")
  | some batch => do
    let items ← ask (.selectItems options.batchId)
    let reservedBalances ← ask (.selectReservedBalances options.batchId)
    if unsafeUnlock batch options.confirmWalletHistoryChecked then
      fail (.thrown s!"Refusing to unlock payment batch {options.batchId}")
    else if riskyUnlock batch items reservedBalances && !options.force then
      fail (.thrown s!"Refusing to unlock payment batch {options.batchId} without --force.")
    else
      if options.confirmWalletHistoryChecked && batch.submit_started_at.isSome then
        assertWalletHistoryClear batch items
      else pure ()
      let releasedAt ← currentTime
      let _ ← ask (.unlock options.batchId options.confirmWalletHistoryChecked releasedAt)

def tryReleaseLock : Task Unit := (ask .releaseLock).tryCatch fun _ => return ()

def unlockBatch (options : UnlockOptions) : Task Unit := do
  ask .getConnection
  let locked ← ask .getLock
  if !locked then fail (.thrown "Payment advisory lock is busy")
  else
    (runUnlock options).tryCatch fun failure => do
      tryReleaseLock
      fail failure
    tryReleaseLock

end Unlock

inductive Job where
  | payments (config : Config) (cycles : ℕ)
  | unlock (options : UnlockOptions)

def runJob : Job → Task Unit
  | .payments config cycles => runCycles config cycles
  | .unlock options => unlockBatch options

structure Memory where
  isFailStop : Bool := false
  lockConnection : Bool := false

/-- The lock belongs to a process through its one lock connection. Beside the database stand the
records the wallet may report and, for the specification, the transfers issued, what each balance
was funded with, and the claims that moved a batch to `submitting`, with their processes. -/
structure Shared where
  db : Db
  history : List Json
  lockOwner : Option ℕ
  memory : ℕ → Memory
  lastPaymentCycle : ℕ
  issued : List ℕ
  funded : ℕ → ℤ
  claims : List (ℕ × ℕ)

inductive Answer where
  | reply
  | refused (failure : Failure)
  | lost
  | fate (fate : Fate)
  | wallet (reply : RpcResponse)
  | time (milliseconds : ℕ)

inductive Occurrence where
  | credit (id : ℕ) (amount : ℕ)
  | addBalance (row : BalanceRow)
  | setUser (user : UserRow)
  | walletRecord (transfer : Json)
  | dropLock
  | connectionClose (process : ℕ)

namespace Shared

def remember (shared : Shared) (process : ℕ) (change : Memory → Memory) : Shared :=
  {shared with memory := Function.update shared.memory process (change (shared.memory process))}

def reports (shared : Shared) (reply : RpcResponse) : Bool :=
  (reply.result.toList.flatMap fun result => transfersOf result ++ transfersByTxid result).all fun transfer =>
    shared.history.any transfer.same

def claimed (shared : Shared) (process : ℕ) (id : ℕ) (fields : Fields) (affectedRows : ℕ) : List (ℕ × ℕ) :=
  if fields.status = some .submitting ∧ affectedRows = 1 then shared.claims ++ [(id,process)] else shared.claims

end Shared

/-- A call that either takes effect, or is refused without one, or takes effect
without its reply coming back. -/
def attempt {A : Type} (answer : Answer) (value : A) (after shared : Shared) : Option (Except Failure A × Shared) :=
  match answer with
  | .reply => some (.ok value,after)
  | .refused failure => some (.error failure,shared)
  | .lost => some (.error .lost,after)
  | _ => none

def attemptTransaction {A : Type} (answer : Answer) (work : LedgerWork A) (shared : Shared) :
    Option (Except Failure A × Shared) :=
  match answer with
  | .fate fate =>
    let (outcome,db) := transact .lost fate work shared.db
    some (outcome,{shared with db := db})
  | _ => none

def attemptUpdate (process : ℕ) (answer : Answer) (id : ℕ) (fields : Fields) (guard : Guard) (shared : Shared) :
    Option (Except Failure Bool × Shared) :=
  match updateBatches id fields guard shared.db with
  | .error failure => some (.error failure,shared)
  | .ok (affectedRows,db) => attempt answer (affectedRows = 1 : Bool)
    {shared with db := db, claims := shared.claimed process id fields affectedRows} shared

def perform (process : ℕ) (shared : Shared) (answer : Answer) :
    (call : Call) → Option (signature.Outcome call × Shared)
  | .wallet rpc => match answer with
    | .wallet reply =>
      if shared.reports reply then
        some (.ok reply,match rpc with
          | .transfer batch _ => {shared with issued := shared.issued ++ [batch]}
          | _ => shared)
      else none
    | _ => none
  | .selectBatch id => attempt answer (selectBatch shared.db id) shared shared
  | .selectOpenBatches => attempt answer (selectOpenBatches shared.db) shared shared
  | .selectItems id => attempt answer (selectItems shared.db id) shared shared
  | .selectReservedBalances id => attempt answer (selectReservedBalances shared.db id) shared shared
  | .selectPayoutRows walletMin => attempt answer (selectPayoutRows shared.db walletMin) shared shared
  | .updateBatch id fields guard => attemptUpdate process answer id fields guard shared
  | .reserve plan => attemptTransaction answer (reserveTransaction plan) shared
  | .finalize batch items hash txKey finalizedAt =>
    attemptTransaction answer (finalizeTransaction batch items hash txKey finalizedAt) shared
  | .release batch releasedAt => attemptTransaction answer (releaseTransaction batch releasedAt) shared
  | .unlock batchId confirm releasedAt =>
    attemptTransaction answer (unlockTransaction batchId confirm releasedAt) shared
  | .getConnection => attempt answer () shared shared
  | .getLock =>
    attempt answer (shared.lockOwner.all fun owner => owner = process)
      {shared with lockOwner := shared.lockOwner.or (some process)} shared
  | .isUsedLock => attempt answer (shared.lockOwner = some process : Bool) shared shared
  | .releaseLock =>
    attempt answer () {shared with
      lockOwner := shared.lockOwner.filter fun owner => owner ≠ process} shared
  | .now => match answer with
    | .time milliseconds => some (.ok milliseconds,shared)
    | _ => none
  | .sleep _ => some (.ok (),shared)
  | .isFailStop => some (.ok (shared.memory process).isFailStop,shared)
  | .enterFailStop => some (.ok (),shared.remember process fun memory => {memory with isFailStop := true})
  | .lockConnection => some (.ok (shared.memory process).lockConnection,shared)
  | .setLockConnection held =>
    some (.ok (),shared.remember process fun memory => {memory with lockConnection := held})
  | .setLastPaymentCycle seconds => some (.ok (),{shared with lastPaymentCycle := seconds})

def occur : Occurrence → Shared → Option Shared
  | .credit id amount,shared => some {shared with
      db := {shared.db with balance := shared.db.balance.map fun row =>
        if row.id = id then {row with amount := row.amount + amount} else row}
      funded := Function.update shared.funded id (shared.funded id + amount)}
  | .addBalance row,shared =>
    if row.id ∈ shared.db.balance.map BalanceRow.id ∨ row.pending_batch_id ≠ none ∨ row.amount < 0 then none
    else some {shared with
      db := {shared.db with balance := shared.db.balance ++ [row]}
      funded := Function.update shared.funded row.id row.amount}
  | .setUser user,shared => some {shared with
      db := {shared.db with users := user :: shared.db.users}}
  | .walletRecord transfer,shared => some {shared with history := shared.history ++ [transfer]}
  | .dropLock,shared => some {shared with lockOwner := none}
  | .connectionClose process,shared => some (shared.remember process fun _ => ⟨true,false⟩)

def system : System signature where
  Shared := Shared
  Job := Job
  Answer := Answer
  Occurrence := Occurrence
  program := runJob
  perform process call answer shared := perform process shared answer call
  occur := occur

end NodejsPool.Payments
