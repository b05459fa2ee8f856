import Mathlib.Data.List.Sort
import Mathlib.Data.Rat.Lemmas
import NodejsPool.Async.Transaction
import NodejsPool.Sql.Keyed

/-! The payment tables, and the statements and transactions that the payment runtime
and the operator's unlock tool run on them. SQL timestamps are seconds of UTC. -/
namespace NodejsPool.Payments
open Async

inductive Failure where
  | duplicateEntry
  | lost
  | thrown (message : String)
  deriving DecidableEq

inductive Status where
  | reserved
  | retrying
  | submitting
  | submitted
  | finalized
  | retryable
  | manual_review
  deriving DecidableEq

inductive BatchType where
  | bulk
  | integrated
  deriving DecidableEq

/-- A `payment_batches` row, and the batch object a process carries forward. -/
structure Batch where
  id : ℕ
  status : Status
  batch_type : BatchType
  total_gross : ℤ
  total_net : ℤ
  total_fee : ℚ
  submit_started_at : Option ℕ := none
  submitted_at : Option ℕ := none
  finalized_at : Option ℕ := none
  released_at : Option ℕ := none
  last_reconciled_at : Option ℕ := none
  reconcile_attempts : ℕ := 0
  reconcile_clean_passes : ℕ := 0
  tx_hash : Option String := none
  tx_key : Option String := none
  transaction_id : Option ℕ := none
  deriving DecidableEq

structure Item where
  batch_id : ℕ
  balance_id : ℕ
  destination_order : ℕ
  pool_type : String
  payment_address : String
  gross_amount : ℤ
  net_amount : ℤ
  fee_amount : ℤ

structure BalanceRow where
  id : ℕ
  payment_address : String
  payment_id : Option String
  pool_type : String
  amount : ℤ
  pending_batch_id : Option ℕ
  deriving DecidableEq

structure UserRow where
  username : String
  payout_threshold : Option ℤ

structure TransactionRow where
  id : ℕ
  address : Option String
  xmr_amt : ℤ
  transaction_hash : String
  fees : ℚ
  payees : ℕ

structure PaymentRow where
  pool_type : String
  payment_address : String
  transaction_id : ℕ
  amount : ℤ
  transfer_fee : ℤ

structure Db where
  balance : List BalanceRow
  users : List UserRow
  payment_batches : List Batch
  payment_batch_items : List Item
  transactions : List TransactionRow
  payments : List PaymentRow
  nextBatchId : ℕ
  nextTransactionId : ℕ

namespace Db

def setBalance (db : Db) (balance : List BalanceRow) : Db := {db with balance := balance}

def addBatch (db : Db) (batch : Batch) : Db :=
  {db with payment_batches := db.payment_batches ++ [batch], nextBatchId := db.nextBatchId + 1}

def addItems (db : Db) (records : List Item) : Db :=
  {db with payment_batch_items := db.payment_batch_items ++ records}

def addTransaction (db : Db) (record : TransactionRow) : Db :=
  {db with transactions := db.transactions ++ [record], nextTransactionId := db.nextTransactionId + 1}

def addPayments (db : Db) (rows : List PaymentRow) : Db := {db with payments := db.payments ++ rows}

end Db

structure Fields where
  status : Option Status := none
  submit_started_at : Option (Option ℕ) := none
  submitted_at : Option (Option ℕ) := none
  finalized_at : Option (Option ℕ) := none
  released_at : Option (Option ℕ) := none
  last_reconciled_at : Option (Option ℕ) := none
  reconcile_attempts : Option ℕ := none
  reconcile_clean_passes : Option ℕ := none
  tx_hash : Option (Option String) := none
  tx_key : Option (Option String) := none
  total_fee : Option ℚ := none
  transaction_id : Option (Option ℕ) := none

/-- `Object.assign(batch, fields)`, and `SET` on a row. -/
def Batch.assign (batch : Batch) (fields : Fields) : Batch where
  id := batch.id
  status := fields.status.getD batch.status
  batch_type := batch.batch_type
  total_gross := batch.total_gross
  total_net := batch.total_net
  total_fee := fields.total_fee.getD batch.total_fee
  submit_started_at := fields.submit_started_at.getD batch.submit_started_at
  submitted_at := fields.submitted_at.getD batch.submitted_at
  finalized_at := fields.finalized_at.getD batch.finalized_at
  released_at := fields.released_at.getD batch.released_at
  last_reconciled_at := fields.last_reconciled_at.getD batch.last_reconciled_at
  reconcile_attempts := fields.reconcile_attempts.getD batch.reconcile_attempts
  reconcile_clean_passes := fields.reconcile_clean_passes.getD batch.reconcile_clean_passes
  tx_hash := fields.tx_hash.getD batch.tx_hash
  tx_key := fields.tx_key.getD batch.tx_key
  transaction_id := fields.transaction_id.getD batch.transaction_id

inductive Column where
  | submit_started_at
  | submitted_at
  | finalized_at
  | transaction_id
  | tx_hash
  | tx_key

def Batch.isNull (batch : Batch) : Column → Bool
  | .submit_started_at => batch.submit_started_at.isNone
  | .submitted_at => batch.submitted_at.isNone
  | .finalized_at => batch.finalized_at.isNone
  | .transaction_id => batch.transaction_id.isNone
  | .tx_hash => batch.tx_hash.isNone
  | .tx_key => batch.tx_key.isNone

/-- `expectedStatuses` and `requireNullFields`. -/
structure Guard where
  statuses : List Status
  nulls : List Column

def Guard.admits (guard : Guard) (batch : Batch) : Bool :=
  batch.status ∈ guard.statuses && guard.nulls.all batch.isNull

section Statements

def openStatuses : List Status := [.manual_review,.reserved,.retrying,.submitting,.submitted]

def itemsOf (db : Db) (id : ℕ) : List Item := db.payment_batch_items.filter fun item => item.batch_id = id

def selectItems (db : Db) (id : ℕ) : List Item :=
  (itemsOf db id).insertionSort fun left right => left.destination_order ≤ right.destination_order

def selectBatch (db : Db) (id : ℕ) : Option Batch := db.payment_batches.find? fun batch => batch.id = id

def selectOpenBatches (db : Db) : List Batch :=
  (db.payment_batches.filter fun batch => batch.status ∈ openStatuses).insertionSort fun left right =>
    left.id ≤ right.id

def selectReservedBalances (db : Db) (id : ℕ) : List BalanceRow :=
  (db.balance.filter fun row => row.pending_batch_id = some id).insertionSort fun left right => left.id ≤ right.id

structure PayoutRow where
  id : ℕ
  payment_address : String
  payment_id : Option String
  pool_type : String
  amount : ℤ
  payout_threshold : Option ℤ

def payoutRow (users : List UserRow) (row : BalanceRow) : PayoutRow where
  id := row.id
  payment_address := row.payment_address
  payment_id := row.payment_id
  pool_type := row.pool_type
  amount := row.amount
  payout_threshold := (users.find? fun user => user.username = row.payment_address).bind UserRow.payout_threshold

def selectPayoutRows (db : Db) (walletMin : ℕ) : List PayoutRow :=
  ((db.balance.filter fun row => (walletMin : ℤ) ≤ row.amount && row.pending_batch_id.isNone).insertionSort
    fun left right => left.id ≤ right.id).map (payoutRow db.users)

def touch (id : ℕ) (guard : Guard) (fields : Fields) (batch : Batch) : Batch :=
  if batch.id = id ∧ guard.admits batch then batch.assign fields else batch

def setBatch (db : Db) (id : ℕ) (guard : Guard) (fields : Fields) : Db :=
  {db with payment_batches := db.payment_batches.map (touch id guard fields)}

/-- The row hits a `tx_hash` that another row already has. -/
def hashTaken (db : Db) (id : ℕ) (fields : Fields) : Bool :=
  match fields.tx_hash with
  | some (some hash) => db.payment_batches.any fun batch => batch.id ≠ id && batch.tx_hash = some hash
  | _ => false

/-- `UPDATE payment_batches SET … WHERE id = ? AND …`, with its affected rows. -/
def updateBatches (id : ℕ) (fields : Fields) (guard : Guard) (db : Db) : Except Failure (ℕ × Db) :=
  let affectedRows := db.payment_batches.countP fun batch => batch.id = id ∧ guard.admits batch
  if affectedRows ≠ 0 ∧ hashTaken db id fields then .error .duplicateEntry
  else .ok (affectedRows,setBatch db id guard fields)

/-- `UPDATE balance SET pending_batch_id = NULL WHERE pending_batch_id = ?`. -/
def clearPending (id : ℕ) (db : Db) : ℕ × Db :=
  (db.balance.countP fun row => row.pending_batch_id = some id,
    db.setBalance (db.balance.map fun row =>
      if row.pending_batch_id = some id then {row with pending_batch_id := none} else row))

end Statements

structure PayoutItem where
  balanceId : ℕ
  poolType : String
  paymentAddress : String
  grossAmount : ℤ
  netAmount : ℤ
  feeAmount : ℤ

structure BatchPlan where
  batchType : BatchType
  items : List PayoutItem
  totalGross : ℤ
  totalNet : ℤ
  totalFee : ℤ

abbrev LedgerWork := Work Db Failure

def statement {A : Type} (run : Db → Except Failure (A × Db)) : LedgerWork A := Work.statement .lost run

section Reserve

def buildItemRecords (batchId : ℕ) (items : List PayoutItem) : List Item :=
  items.mapIdx fun index item =>
    ⟨batchId,item.balanceId,index,item.poolType,item.paymentAddress,item.grossAmount,item.netAmount,item.feeAmount⟩

/-- The batch object `reserveBatch` returns, and the row it inserts. -/
def reservedBatch (batchId : ℕ) (plan : BatchPlan) : Batch where
  id := batchId
  status := .reserved
  batch_type := plan.batchType
  total_gross := plan.totalGross
  total_net := plan.totalNet
  total_fee := plan.totalFee

def insertBatch (plan : BatchPlan) (db : Db) : Except Failure (ℕ × Db) :=
  .ok (db.nextBatchId,db.addBatch (reservedBatch db.nextBatchId plan))

/-- An empty `VALUES` list is a syntax error, and a balance may stand once in a batch. -/
def insertItems (records : List Item) (db : Db) : Except Failure (Unit × Db) :=
  if records.isEmpty then .error (.thrown "syntax error")
  else if (records.map Item.balance_id).Nodup then .ok ((),db.addItems records)
  else .error .duplicateEntry

def pinBalances (batchId : ℕ) (ids : List ℕ) (db : Db) : ℕ × Db :=
  (db.balance.countP fun row => row.pending_batch_id.isNone && row.id ∈ ids,
    db.setBalance (db.balance.map fun row =>
      if row.pending_batch_id.isNone && row.id ∈ ids then {row with pending_batch_id := some batchId} else row))

def reserveTransaction (plan : BatchPlan) : LedgerWork ℕ := do
  let batchId ← statement (insertBatch plan)
  if batchId = 0 then throw (.thrown "Batch reservation returned an invalid id")
  else
    statement (insertItems (buildItemRecords batchId plan.items))
    let affectedRows ← statement fun db => .ok (pinBalances batchId (plan.items.map PayoutItem.balanceId) db)
    if affectedRows ≠ plan.items.length then throw (.thrown s!"balance reservation mismatch for batch {batchId}")
    else return batchId

end Reserve

section Finalize

def transactionRecord (batch : Batch) (items : List Item) (hash : String) (id : ℕ) : TransactionRow where
  id := id
  address := if batch.batch_type = .bulk then none else items.head?.map Item.payment_address
  xmr_amt := batch.total_gross
  transaction_hash := hash
  fees := batch.total_fee
  payees := items.length

def insertTransaction (batch : Batch) (items : List Item) (hash : String) (db : Db) : Except Failure (ℕ × Db) :=
  if hash ∈ db.transactions.map TransactionRow.transaction_hash then .error .duplicateEntry
  else .ok (db.nextTransactionId,db.addTransaction (transactionRecord batch items hash db.nextTransactionId))

def paymentRow (transactionId : ℕ) (item : Item) : PaymentRow :=
  ⟨item.pool_type,item.payment_address,transactionId,item.net_amount,item.fee_amount⟩

def insertPayments (rows : List PaymentRow) (db : Db) : Except Failure (Unit × Db) :=
  if rows.isEmpty then .error (.thrown "syntax error")
  else .ok ((),db.addPayments rows)

def caseGross (items : List Item) (id : ℕ) : ℤ := Sql.caseAt Item.balance_id Item.gross_amount items id

def debitBalances (batchId : ℕ) (items : List Item) (db : Db) : ℕ × Db :=
  (db.balance.countP fun row => row.pending_batch_id = some batchId ∧ row.id ∈ items.map Item.balance_id,
    db.setBalance (db.balance.map fun row =>
      if row.pending_batch_id = some batchId ∧ row.id ∈ items.map Item.balance_id then
        {row with amount := row.amount - caseGross items row.id, pending_batch_id := none}
      else row))

def settledGuard (status : Status) : Guard := ⟨[status],[.finalized_at,.transaction_id]⟩

def finalizeFields (batch : Batch) (hash txKey : String) (finalizedAt transactionId : ℕ) : Fields where
  status := some .finalized
  finalized_at := some (some finalizedAt)
  transaction_id := some (some transactionId)
  tx_hash := some (some hash)
  tx_key := some (some txKey)
  total_fee := some batch.total_fee

def finalizeTransaction (batch : Batch) (items : List Item) (hash : String) (txKey : String) (finalizedAt : ℕ) :
    LedgerWork ℕ := do
  let transactionId ← statement (insertTransaction batch items hash)
  statement (insertPayments (items.map (paymentRow transactionId)))
  let affectedRows ← statement fun db => .ok (debitBalances batch.id items db)
  if affectedRows ≠ items.length then throw (.thrown s!"balance finalize mismatch for batch {batch.id}")
  else
    let updated ← statement (updateBatches batch.id (finalizeFields batch hash txKey finalizedAt transactionId)
      (settledGuard batch.status))
    if updated ≠ 1 then throw (.thrown s!"batch finalize update failed for batch {batch.id}")
    else return transactionId

end Finalize

section Release

def releaseFields (releasedAt : ℕ) : Fields where
  status := some .retryable
  released_at := some (some releasedAt)

def releaseGuard (status : Status) : Guard :=
  ⟨[status],[.submit_started_at,.submitted_at,.finalized_at,.transaction_id,.tx_hash,.tx_key]⟩

def releaseTransaction (batch : Batch) (releasedAt : ℕ) : LedgerWork Bool := do
  let updated ← statement (updateBatches batch.id (releaseFields releasedAt) (releaseGuard batch.status))
  if updated ≠ 1 then return false
  else
    let _ ← statement fun db => .ok (clearPending batch.id db)
    return true

/-- Past the submit boundary the operator's confirmation that the wallet history was
checked also forgets the submit attempt. -/
def unlockFields (confirmWalletHistoryChecked : Bool) (releasedAt : ℕ) : Fields where
  status := some .retryable
  released_at := some (some releasedAt)
  submit_started_at := if confirmWalletHistoryChecked then some none else none

def unlockGuard (confirmWalletHistoryChecked : Bool) : Guard :=
  if confirmWalletHistoryChecked then ⟨[.reserved,.retrying,.submitting],[]⟩
  else ⟨[.reserved,.retrying],[.submit_started_at]⟩

def unlockTransaction (batchId : ℕ) (confirmWalletHistoryChecked : Bool) (releasedAt : ℕ) : LedgerWork ℕ := do
  let cleared ← statement fun db => .ok (clearPending batchId db)
  let updated ← statement (updateBatches batchId (unlockFields confirmWalletHistoryChecked releasedAt)
    (unlockGuard confirmWalletHistoryChecked))
  if updated ≠ 1 then throw (.thrown s!"Payment batch {batchId} changed while unlocking; re-read it before retrying")
  else return cleared

end Release
end NodejsPool.Payments
