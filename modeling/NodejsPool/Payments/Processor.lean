import NodejsPool.Payments.Planner

/-! The payment processor: submission, reconciliation and finalization of reserved
batches. Functions that mutate the batch object of the source return it. -/
namespace NodejsPool.Payments
open Async

inductive Outcome where
  | cleared
  | unresolved
  | manual_review
  deriving DecidableEq

section Lock

def enterFailStop : Task Bool := do
  ask .enterFailStop
  return false

def verifyAdvisoryLock : Task Bool := do
  let connected ← ask .lockConnection
  if !connected then return false
  else
    let owns ← ((fun owns => some owns) <$> ask .isUsedLock).tryCatch fun _ => return none
    match owns with
    | some true => return true
    | some false => enterFailStop
    | none =>
      ask (.setLockConnection false)
      enterFailStop

def checkExclusiveAccess : Task Bool := do
  let stopped ← ask .isFailStop
  if stopped then return false
  else
    let connected ← ask .lockConnection
    if !connected then return false else verifyAdvisoryLock

end Lock

section Updates

def updateBatchStatusIfCurrent (batch : Batch) (fields : Fields) (guard : Guard) : Task (Bool × Batch) := do
  let updated ← ask (.updateBatch batch.id fields guard)
  if updated then return (true,batch.assign fields)
  else
    let row ← ask (.selectBatch batch.id)
    return (false,row.getD batch)

def updateGuardedBatch (batch : Batch) (fields : Fields) : Task (Bool × Batch) :=
  updateBatchStatusIfCurrent batch fields (settledGuard batch.status)

def guardedTransitionOutcome (batch : Batch) : Outcome :=
  match batch.status with
  | .finalized => .cleared
  | .manual_review => .manual_review
  | _ => .unresolved

def reconcilePollIntervalMs : ℕ := 10 * 60 * 1000

def nextReconcileDelayMs (batch : Batch) (now : ℕ) : ℕ :=
  let lastReconciledAt := sqlTimestampToUnix batch.last_reconciled_at
  if lastReconciledAt = 0 then 0
  else reconcilePollIntervalMs - (now - lastReconciledAt * 1000)

def holdWith (batch : Batch) (fields : Fields) : Task Outcome := do
  let (updated,batch) ← updateGuardedBatch batch fields
  if updated then return .unresolved else return guardedTransitionOutcome batch

def holdBatch (batch : Batch) : Task Outcome := do
  let time ← currentTime
  holdWith batch {last_reconciled_at := some (some time)}

def truthyText (text : Option String) : Bool := text.any fun text => text ≠ ""

def holdBatchForRetry (batch : Batch) : Task Outcome := do
  if batch.submit_started_at.isSome || batch.submitted_at.isSome || truthyText batch.tx_hash ||
      truthyText batch.tx_key then holdBatch batch
  else
    let time ← currentTime
    holdWith batch {
      status := some .retrying
      submit_started_at := some none
      submitted_at := some none
      last_reconciled_at := some (some time)
      tx_hash := some none
      tx_key := some none}

def recordBatchReconcileState (batch : Batch) (incrementHealthyPass : Bool) : Task (Bool × Batch) := do
  let time ← currentTime
  updateGuardedBatch batch {
    reconcile_attempts := some (batch.reconcile_attempts + 1)
    reconcile_clean_passes := some (batch.reconcile_clean_passes + if incrementHealthyPass then 1 else 0)
    last_reconciled_at := some (some time)}

def holdAfterReconcile (batch : Batch) (incrementHealthyPass : Bool) : Task Outcome := do
  let (updated,batch) ← recordBatchReconcileState batch incrementHealthyPass
  if updated then return .unresolved else return guardedTransitionOutcome batch

structure MatchDetails where
  txHash : Option String := none
  txKey : Option String := none
  totalFee : Option ℚ := none

def markBatchManualReview (batch : Batch) (details : MatchDetails) : Task Outcome := do
  let (updated,batch) ← updateGuardedBatch batch {
    status := some .manual_review
    tx_hash := (details.txHash.filter fun hash => hash ≠ "").map some
    tx_key := details.txKey.map some
    total_fee := details.totalFee}
  if updated || batch.status = .manual_review then
    let _ ← enterFailStop
    return .manual_review
  else return guardedTransitionOutcome batch

def persistSubmittedBatch (batch : Batch) (txHash : String) (txKey : Option String) (totalFee : ℚ) :
    Task (Bool × Batch) := do
  let submittedAt ← currentTime
  updateGuardedBatch batch {
    status := some .submitted
    submitted_at := some (some submittedAt)
    tx_hash := some (some txHash)
    tx_key := some (txKey.filter fun key => key ≠ "")
    total_fee := some totalFee}

/-- `submit_started_at` is durable before the transfer is sent. -/
def claimBatchForSubmit (batch : Batch) (expectedStatus : Status) : Task (Bool × Batch) := do
  let submitStartedAt ← currentTime
  updateBatchStatusIfCurrent batch {
    status := some .submitting, submit_started_at := some (some submitStartedAt)} ⟨[expectedStatus],[]⟩

def handleLostSubmitClaim (batch : Batch) : Task Outcome :=
  match batch.status with
  | .finalized => return .cleared
  | .manual_review => do
    let _ ← enterFailStop
    return .manual_review
  | _ => return .unresolved

end Updates

section Wallet

inductive TxKeyResult where
  | retry
  | missing
  | ok (txKey : String)

def resolveTxKey (txHash : String) : Task TxKeyResult := do
  let reply ← callWallet (.get_tx_key txHash)
  if reply.unreachable then return .retry
  else if reply.hasRpcError then return .missing
  else
    match reply.result.bind fun result => result.field "tx_key" with
    | some (.str txKey) => if txKey = "" then return .missing else return .ok txKey
    | _ => return .missing

inductive WalletLoad where
  | wallet_unavailable
  | tx_not_found
  | tx_lookup_unavailable
  | ok (transfers : List Json)

def recordsAt (result : Json) (key : String) : List Json :=
  match result.field key with
  | some (.arr values) => values.filter Json.isRecord
  | _ => []

/-- The transfers of a `get_transfers` result, at every stage of visibility. -/
def transfersOf (result : Json) : List Json := ["out","pending","pool"].flatMap (recordsAt result)

def recentTransferLookbackBlocks : ℚ := 31 * 24 * 30

def loadTransfersBetween (heights : Option (ℚ × ℚ)) : Task WalletLoad := do
  let reply ← callWallet (.get_transfers heights)
  match reply.result with
  | none => return .wallet_unavailable
  | some result => return .ok (transfersOf result)

def loadWalletTransfers (filterByHeight : Bool) : Task WalletLoad := do
  if filterByHeight then
    let heightReply ← callWallet .get_height
    match heightReply.result.bind fun result => normalizeInteger (result.field "height") with
    | none => return .wallet_unavailable
    | some walletHeight =>
      loadTransfersBetween (some (max 0 (walletHeight - recentTransferLookbackBlocks),walletHeight))
  else loadTransfersBetween none

/-- `/not found/i.test(message)`. -/
def mentionsNotFound (message : String) : Bool :=
  message.toLower.toList.tails.any fun text => "not found".toList.isPrefixOf text

/-- The transfers of a `get_transfer_by_txid` result. -/
def transfersByTxid (result : Json) : List Json :=
  match result.field "transfers" with
  | some (.arr values) => values.filter Json.isRecord
  | _ => (result.record "transfer").toList

def isEmptyLookupError (reply : RpcResponse) : Bool :=
  match reply with
  | .error _ => false
  | .json value =>
    (value.record "error").any fun error =>
      normalizeInteger (error.field "code") = some 0 &&
        match error.field "message" with
        | some (.str message) => message = ""
        | _ => false

def loadWalletTransferByTxHash (txHash : String) : Task WalletLoad := do
  let reply ← callWallet (.get_transfer_by_txid txHash)
  if reply.unreachable then return .wallet_unavailable
  else if reply.hasRpcError then
    if mentionsNotFound reply.describeWalletReply then return .tx_not_found
    else if isEmptyLookupError reply then return .tx_lookup_unavailable
    else return .wallet_unavailable
  else
    match reply.result with
    | none => return .wallet_unavailable
    | some result =>
      let transfers := transfersByTxid result
      if transfers.isEmpty then return .tx_not_found else return .ok transfers

def hasTxHash (txHash : String) (transfer : Json) : Bool := normalizeHash (transfer.field "txid") = some txHash

def loadSubmittedTransfersByTxHash (txHash : String) : Task WalletLoad := do
  let byTxHash ← loadWalletTransferByTxHash txHash
  match byTxHash with
  | .tx_lookup_unavailable => do
    let fallback ← loadWalletTransfers false
    match fallback with
    | .ok transfers =>
      let found := transfers.filter (hasTxHash txHash)
      if found.isEmpty then return .tx_not_found else return .ok found
    | other => return other
  | other => return other

def minSuccessFeeAtomic : ℚ := 10

def plausibleWalletFee (totalFee : Option ℚ) : Option ℚ := totalFee.filter fun fee => minSuccessFeeAtomic < fee

inductive WalletMatch where
  | wallet_unavailable
  | multiple_matches
  | no_match
  | incomplete_match
  | matched_waiting_tx_key (txHash : String) (totalFee : ℚ)
  | matched_missing_tx_key (txHash : String) (totalFee : ℚ)
  | matched (txHash : String) (totalFee : ℚ) (txKey : String)

def matchResultDetails : WalletMatch → MatchDetails
  | .matched_waiting_tx_key txHash totalFee => ⟨some txHash,none,some totalFee⟩
  | .matched_missing_tx_key txHash totalFee => ⟨some txHash,none,some totalFee⟩
  | .matched txHash totalFee txKey => ⟨some txHash,some txKey,some totalFee⟩
  | _ => {}

def findWalletTransferMatch (batch : Batch) (items : List Item) : Task WalletMatch := do
  let loadedTransfers ← loadWalletTransfers true
  match loadedTransfers with
  | .ok transfers => do
    let found ← liftExcept (filterMatches batch items transfers)
    match found with
    | [] => return .no_match
    | [transfer] =>
      match normalizeHash (transfer.field "txid"), plausibleWalletFee (normalizeInteger (transfer.field "fee")) with
      | some txHash, some totalFee => do
        let txKeyResult ← resolveTxKey txHash
        match txKeyResult with
        | .retry => return .matched_waiting_tx_key txHash totalFee
        | .missing => return .matched_missing_tx_key txHash totalFee
        | .ok txKey => return .matched txHash totalFee txKey
      | _, _ => return .incomplete_match
    | _ => return .multiple_matches
  | _ => return .wallet_unavailable

def isReconcilableSubmittedTransfer (transfer : Json) : Bool :=
  let transferType := match transfer.field "type" with
    | some (.str type) => type.toLower
    | _ => ""
  let doubleSpent := match transfer.field "double_spend_seen" with
    | some (.bool true) => true
    | _ => false
  transferType ∈ ["out","pending","pool"] && !doubleSpent

inductive Visibility where
  | visible
  | wallet_unavailable
  | tx_not_found
  deriving DecidableEq

/-- `transfers.some(…)`: a transfer with this hash and exactly these destinations. -/
def someExactSubmittedTransfer (batch : Batch) (items : List Item) (txHash : String) :
    List Json → Except Failure Bool
  | [] => .ok false
  | transfer::transfers => do
    if isReconcilableSubmittedTransfer transfer && hasTxHash txHash transfer then
      let matching ← transferMatchesBatch batch items transfer
      if matching then return true else someExactSubmittedTransfer batch items txHash transfers
    else someExactSubmittedTransfer batch items txHash transfers

def findSubmittedTransferVisibility (batch : Batch) (items : List Item) : Task Visibility := do
  match normalizeHash (batch.tx_hash.map Json.str) with
  | none => return .tx_not_found
  | some txHash => do
    let loadedTransfers ← loadSubmittedTransfersByTxHash txHash
    match loadedTransfers with
    | .ok transfers => do
      let visible ← liftExcept (someExactSubmittedTransfer batch items txHash transfers)
      if visible then return .visible else return .tx_not_found
    | .tx_not_found => return .tx_not_found
    | _ => return .wallet_unavailable

def submitSearchDelaysMs : List ℕ := [1000,5000,10000,30000,60000]

def retrySearch {A : Type} (search : Task A) (shouldRetry : A → Bool) (delay : ℕ) : List ℕ → Task A
  | [] => do
    ask (.sleep delay)
    search
  | next::delays => do
    ask (.sleep delay)
    let result ← search
    if shouldRetry result then retrySearch search shouldRetry next delays else return result

def retryPostSubmitSearch {A : Type} (search : Task A) (shouldRetry : A → Bool) : Task A :=
  match submitSearchDelaysMs with
  | [] => fail (.thrown "submit search retry schedule is empty")
  | delay::delays => retrySearch search shouldRetry delay delays

def findWalletTransferMatchAfterSubmit (batch : Batch) (items : List Item) : Task WalletMatch :=
  retryPostSubmitSearch (findWalletTransferMatch batch items) fun
    | .wallet_unavailable => true
    | .no_match => true
    | _ => false

def findSubmittedTransferVisibilityAfterSubmit (batch : Batch) (items : List Item) : Task Visibility :=
  retryPostSubmitSearch (findSubmittedTransferVisibility batch items) fun visibility => visibility ≠ .visible

end Wallet

section Settlement

/-- The key to finalize with, unless the batch is held or escalated for want of it. -/
def finalizeTxKey (batch : Batch) (submittedHash : String) : Task (Option String) := do
  match batch.tx_key.filter fun key => key ≠ "" with
  | some txKey => return some txKey
  | none => do
    let txKeyResult ← resolveTxKey submittedHash
    match txKeyResult with
    | .ok txKey => return some txKey
    | .retry => do
      let _ ← holdBatch batch
      return none
    | .missing => do
      let _ ← markBatchManualReview batch ⟨some submittedHash,none,some batch.total_fee⟩
      return none

def finalizeBatch (batch : Batch) (items : List Item) : Task Bool := do
  match batch.tx_hash.filter fun hash => hash ≠ "" with
  | none => do
    let _ ← markBatchManualReview batch {}
    return false
  | some submittedHash => do
    let keyed ← finalizeTxKey batch submittedHash
    match keyed with
    | none => return false
    | some txKey => do
      let finalizedAt ← currentTime
      let finalized ← ((fun _ => true) <$> ask (.finalize {batch with tx_key := some txKey} items submittedHash
        txKey finalizedAt)).tryCatch fun _ => return false
      if finalized then return true
      else
        let time ← currentTime
        let _ ← updateGuardedBatch {batch with tx_key := some txKey} {last_reconciled_at := some (some time)}
        return false

def finalizedOutcome (finalized : Bool) : Outcome := if finalized then .cleared else .unresolved

def finalizeMatchedTransfer (batch : Batch) (items : List Item) (txHash : String) (totalFee : ℚ) (txKey : String) :
    Task Outcome := do
  let (updated,batch) ← persistSubmittedBatch batch txHash (some txKey) totalFee
  if !updated then return guardedTransitionOutcome batch
  else
    let finalized ← finalizeBatch batch items
    return finalizedOutcome finalized

def reconcileHistoryCheckedSubmitError (batch : Batch) (items : List Item) : Task Outcome := do
  let matchResult ← findWalletTransferMatchAfterSubmit batch items
  match matchResult with
  | .wallet_unavailable => holdBatch batch
  | .no_match => holdBatch batch
  | other => markBatchManualReview batch (matchResultDetails other)

def releaseBatchReservation (batch : Batch) : Task Bool := do
  let releasedAt ← currentTime
  ask (.release batch releasedAt)

def settleVisibility (batch : Batch) (items : List Item) : Visibility → Task Outcome
  | .wallet_unavailable => holdAfterReconcile batch false
  | .tx_not_found => holdAfterReconcile batch true
  | .visible => do
    let finalized ← finalizeBatch batch items
    return finalizedOutcome finalized

def reconcileSubmittedBatch (batch : Batch) (items : List Item) (isPostSubmit : Bool) : Task Outcome := do
  if (plausibleWalletFee (some batch.total_fee)).isNone then
    markBatchManualReview batch ⟨batch.tx_hash,none,some batch.total_fee⟩
  else
    let submittedVisibility ← if isPostSubmit then findSubmittedTransferVisibilityAfterSubmit batch items
      else findSubmittedTransferVisibility batch items
    settleVisibility batch items submittedVisibility

/-- An ambiguous batch is never submitted again: it is settled against the wallet
history, held, or escalated. -/
def settleMatch (batch : Batch) (items : List Item) : WalletMatch → Task Outcome
  | .wallet_unavailable => holdAfterReconcile batch false
  | .multiple_matches => markBatchManualReview batch {}
  | .no_match => holdAfterReconcile batch true
  | .incomplete_match => holdAfterReconcile batch false
  | .matched_waiting_tx_key txHash totalFee => do
    let (updated,batch) ← persistSubmittedBatch batch txHash none totalFee
    if updated then holdBatch batch else return guardedTransitionOutcome batch
  | .matched_missing_tx_key txHash totalFee => markBatchManualReview batch ⟨some txHash,none,some totalFee⟩
  | .matched txHash totalFee txKey => finalizeMatchedTransfer batch items txHash totalFee txKey

def reconcileWithHistory (batch : Batch) (items : List Item) (isPostSubmit : Bool) : Task Outcome := do
  let matchResult ← if isPostSubmit then findWalletTransferMatchAfterSubmit batch items
    else findWalletTransferMatch batch items
  settleMatch batch items matchResult

def reconcileBatch (batch : Batch) (items : List Item) (isPostSubmit : Bool) : Task Outcome := do
  let now ← ask .now
  if 0 < nextReconcileDelayMs batch now then return .unresolved
  else if batch.status = .submitted && truthyText batch.tx_hash then
    reconcileSubmittedBatch batch items isPostSubmit
  else reconcileWithHistory batch items isPostSubmit

def reconcileAmbiguousSubmit (batch : Batch) (items : List Item) : Task Outcome := do
  let (updated,batch) ← updateGuardedBatch batch {}
  if !updated then return guardedTransitionOutcome batch
  else
    let outcome ← reconcileBatch batch items true
    if outcome = .cleared then return .cleared else return .unresolved

end Settlement

section Submit

inductive SubmittedTxKey where
  | ok (txKey : Option String)
  | ended (outcome : Outcome)

def resolveSubmittedTxKey (batch : Batch) (txHash : String) (totalFee : ℚ) (transferResult : Json) :
    Task SubmittedTxKey := do
  let replied := match transferResult.field "tx_key" with
    | some (.str txKey) => txKey
    | _ => ""
  if replied ≠ "" then return .ok (some replied)
  else
    let txKeyResult ← resolveTxKey txHash
    match txKeyResult with
    | .ok txKey => return .ok (some txKey)
    | .retry => return .ok none
    | .missing => do
      let (updated,batch) ← persistSubmittedBatch batch txHash none totalFee
      if !updated then return .ended (guardedTransitionOutcome batch)
      else
        let outcome ← markBatchManualReview batch ⟨some txHash,none,some totalFee⟩
        return .ended outcome

def waitForSubmittedVisibility (batch : Batch) (items : List Item) : Task (Option Outcome) := do
  let submittedVisibility ← findSubmittedTransferVisibilityAfterSubmit batch items
  match submittedVisibility with
  | .visible => return none
  | _ => do
    let outcome ← holdBatch batch
    return some outcome

def historyCheckedSubmitErrors : List String :=
  ["not enough money","not enough unlocked money","transaction was rejected by daemon"]

def handleTransferReplyError (batch : Batch) (items : List Item) (transferReply : RpcResponse) :
    Task (Option Outcome) := do
  if transferReply.hasRpcError then
    if transferReply.describeWalletReply ∈ historyCheckedSubmitErrors then
      let outcome ← reconcileHistoryCheckedSubmitError batch items
      return some outcome
    else
      let outcome ← reconcileAmbiguousSubmit batch items
      return some outcome
  else if transferReply.result.isNone then
    let outcome ← reconcileAmbiguousSubmit batch items
    return some outcome
  else return none

def settleTransfer (batch : Batch) (items : List Item) (txHash : String) (totalFee : ℚ) (txKey : Option String) :
    Task Outcome := do
  let (updated,batch) ← persistSubmittedBatch batch txHash txKey totalFee
  if !updated then return guardedTransitionOutcome batch
  else
    let visibilityOutcome ← waitForSubmittedVisibility batch items
    match visibilityOutcome with
    | some outcome => return outcome
    | none => do
      let finalized ← finalizeBatch batch items
      return finalizedOutcome finalized

def handleTransferResult (batch : Batch) (items : List Item) (transferResult : Json) : Task Outcome := do
  match normalizeHash (transferResult.field "tx_hash"),
      plausibleWalletFee (normalizeInteger (transferResult.field "fee")) with
  | some txHash, some totalFee => do
    let txKeyResult ← resolveSubmittedTxKey batch txHash totalFee transferResult
    match txKeyResult with
    | .ended outcome => return outcome
    | .ok txKey => settleTransfer batch items txHash totalFee txKey
  | _, _ => reconcileAmbiguousSubmit batch items

def buildWalletDestinations (items : List Item) : List (ℤ × String) :=
  items.map fun item => (item.net_amount,item.payment_address)

def transferBatch (batch : Batch) (items : List Item) : Task Outcome := do
  let transferReply ← callWallet (.transfer batch.id (buildWalletDestinations items))
  let transferErrorOutcome ← handleTransferReplyError batch items transferReply
  match transferErrorOutcome with
  | some outcome => return outcome
  | none =>
    match transferReply.result with
    | none => reconcileAmbiguousSubmit batch items
    | some transferResult => handleTransferResult batch items transferResult

def submitReservedBatch (config : Config) (batch : Batch) (items : List Item) : Task Outcome := do
  let exclusive ← checkExclusiveAccess
  if !exclusive then return .unresolved
  else
    let preflight ← preflightWalletBalance config batch.total_net
    match preflight with
    | .failed _ => holdBatchForRetry batch
    | .ok => do
      let stillExclusive ← checkExclusiveAccess
      if !stillExclusive then return .unresolved
      else
        let (claimed,batch) ← claimBatchForSubmit batch batch.status
        if !claimed then handleLostSubmitClaim batch else transferBatch batch items

end Submit

section Recovery

def recoverBatch (config : Config) (batch : Batch) (items : List Item) : Task Bool := do
  match batch.status with
  | .manual_review => enterFailStop
  | .retrying => do
    let retryOutcome ← submitReservedBatch config batch items
    return retryOutcome = .cleared
  | .finalized => return true
  | .retryable => return true
  | status =>
    if status = .reserved ∧ batch.submit_started_at = none then releaseBatchReservation batch
    else
      let outcome ← reconcileBatch batch items false
      return outcome = .cleared

def recoverBatches (config : Config) : List Batch → Task Bool
  | [] => return true
  | batch::batches => do
    let exclusive ← checkExclusiveAccess
    if !exclusive then return false
    else
      let items ← ask (.selectItems batch.id)
      let settled ← recoverBatch config batch items
      if settled then recoverBatches config batches else return false

def recoverPendingBatches (config : Config) : Task Bool := do
  let batches ← ask .selectOpenBatches
  recoverBatches config batches

end Recovery
end NodejsPool.Payments
