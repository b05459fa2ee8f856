import NodejsPool.Payments.Ledger

/-! What the statements and transactions of the payment tables write, when they commit. -/
namespace NodejsPool.Payments
open Async

section Writes

variable {id : ℕ} {fields : Fields} {guard : Guard} {db after : Db}

theorem updateBatches_ok {affectedRows : ℕ} (updated : updateBatches id fields guard db = .ok (affectedRows,after)) :
    affectedRows = (db.payment_batches.countP fun batch => batch.id = id ∧ guard.admits batch) ∧
      after = setBatch db id guard fields ∧ (affectedRows ≠ 0 → hashTaken db id fields = false) := by
  simp only [updateBatches] at updated
  split at updated
  · cases updated
  next free =>
    cases updated
    refine ⟨rfl,rfl,fun some => ?_⟩
    by_contra taken
    exact free ⟨some,by simpa using taken⟩

theorem setBatch_miss (miss : (db.payment_batches.countP fun batch => batch.id = id ∧ guard.admits batch) = 0) :
    setBatch db id guard fields = db := by
  have unchanged : db.payment_batches.map (touch id guard fields) = db.payment_batches := by
    conv_rhs => rw [← List.map_id db.payment_batches]
    apply List.map_congr_left
    intro batch member
    have absent := List.countP_eq_zero.mp miss batch member
    rw [touch,if_neg (by simpa using absent)]
    rfl
  unfold setBatch
  rw [unchanged]

theorem setBatch_hit {affectedRows : ℕ}
    (count : affectedRows = (db.payment_batches.countP fun batch => batch.id = id ∧ guard.admits batch))
    (some : affectedRows ≠ 0) : ∃ batch ∈ db.payment_batches, batch.id = id ∧ guard.admits batch = true := by
  have positive : 0 < db.payment_batches.countP fun batch => batch.id = id ∧ guard.admits batch := by omega
  obtain ⟨batch,member,hit⟩ := List.countP_pos_iff.mp positive
  exact ⟨batch,member,by simpa using hit⟩

def pinned (batchId : ℕ) (ids : List ℕ) (balance : List BalanceRow) : List BalanceRow :=
  balance.map fun row =>
    if row.pending_batch_id.isNone && row.id ∈ ids then {row with pending_batch_id := some batchId} else row

def afterReserve (plan : BatchPlan) (db : Db) : Db :=
  ((db.addBatch (reservedBatch db.nextBatchId plan)).addItems
    (buildItemRecords db.nextBatchId plan.items)).setBalance
      (pinned db.nextBatchId (plan.items.map PayoutItem.balanceId) db.balance)

theorem buildItemRecords_ids (batchId : ℕ) (items : List PayoutItem) :
    (buildItemRecords batchId items).map Item.balance_id = items.map PayoutItem.balanceId := by
  apply List.ext_getElem
  · simp [buildItemRecords]
  · intro index left right
    simp [buildItemRecords]

/-- A reservation that commits inserts a fresh batch with its items and pins all of
their balance rows, which were free. -/
structure Reserves (plan : BatchPlan) (db : Db) : Prop where
  filled : plan.items ≠ []
  distinct : (plan.items.map PayoutItem.balanceId).Nodup
  free : (db.balance.countP fun row =>
    row.pending_batch_id.isNone && row.id ∈ plan.items.map PayoutItem.balanceId) =
      (plan.items.map PayoutItem.balanceId).length

theorem reserve_writes {plan : BatchPlan} {batchId : ℕ} (yields : (reserveTransaction plan).Yields db batchId after) :
    batchId = db.nextBatchId ∧ after = afterReserve plan db ∧ Reserves plan db := by
  obtain ⟨id,first,inserted,rest⟩ := Work.yields_bind yields
  obtain ⟨rfl,rfl⟩ := Prod.mk.inj (Except.ok.inj (Work.yields_statement inserted))
  split at rest
  · exact (Work.yields_throw rest).elim
  · obtain ⟨_,second,items,rest⟩ := Work.yields_bind rest
    have written := Work.yields_statement items
    unfold insertItems at written
    split at written
    · cases written
    next filled =>
      split at written
      next distinct =>
        obtain ⟨_,rfl⟩ := Prod.mk.inj (Except.ok.inj written)
        obtain ⟨affectedRows,third,pins,rest⟩ := Work.yields_bind rest
        obtain ⟨rfl,rfl⟩ := Prod.mk.inj (Except.ok.inj (Work.yields_statement pins))
        split at rest
        · exact (Work.yields_throw rest).elim
        next all =>
          obtain ⟨rfl,rfl⟩ := Work.yields_pure rest
          refine ⟨rfl,rfl,?_,?_,?_⟩
          · intro empty
            simp [empty,buildItemRecords] at filled
          · rwa [buildItemRecords_ids] at distinct
          · rw [List.length_map]
            exact not_not.mp all
      · cases written

def debited (batchId : ℕ) (items : List Item) (balance : List BalanceRow) : List BalanceRow :=
  balance.map fun row =>
    if row.pending_batch_id = some batchId ∧ row.id ∈ items.map Item.balance_id then
      {row with amount := row.amount - caseGross items row.id, pending_batch_id := none}
    else row

def afterLedger (batch : Batch) (items : List Item) (hash : String) (db : Db) : Db :=
  ((db.addTransaction (transactionRecord batch items hash db.nextTransactionId)).addPayments
    (items.map (paymentRow db.nextTransactionId))).setBalance (debited batch.id items db.balance)

def afterFinalize (batch : Batch) (items : List Item) (hash txKey : String) (finalizedAt : ℕ) (db : Db) : Db :=
  setBatch (afterLedger batch items hash db) batch.id (settledGuard batch.status)
    (finalizeFields batch hash txKey finalizedAt db.nextTransactionId)

structure Finalizes (batch : Batch) (items : List Item) (hash : String) (db : Db) : Prop where
  fresh : hash ∉ db.transactions.map TransactionRow.transaction_hash
  filled : items ≠ []
  debited : (db.balance.countP fun row =>
    row.pending_batch_id = some batch.id ∧ row.id ∈ items.map Item.balance_id) = items.length
  current : (db.payment_batches.countP fun row => row.id = batch.id ∧ (settledGuard batch.status).admits row) = 1
  free : ∀ other ∈ db.payment_batches, other.id ≠ batch.id → other.tx_hash ≠ some hash

theorem finalize_writes {batch : Batch} {items : List Item} {hash txKey : String} {finalizedAt transactionId : ℕ}
    (yields : (finalizeTransaction batch items hash txKey finalizedAt).Yields db transactionId after) :
    after = afterFinalize batch items hash txKey finalizedAt db ∧ Finalizes batch items hash db := by
  obtain ⟨id,first,inserted,rest⟩ := Work.yields_bind yields
  have written := Work.yields_statement inserted
  unfold insertTransaction at written
  split at written
  · cases written
  next fresh =>
    obtain ⟨rfl,rfl⟩ := Prod.mk.inj (Except.ok.inj written)
    obtain ⟨_,second,paid,rest⟩ := Work.yields_bind rest
    have written := Work.yields_statement paid
    unfold insertPayments at written
    split at written
    · cases written
    next filled =>
      obtain ⟨_,rfl⟩ := Prod.mk.inj (Except.ok.inj written)
      obtain ⟨affectedRows,third,debits,rest⟩ := Work.yields_bind rest
      obtain ⟨rfl,rfl⟩ := Prod.mk.inj (Except.ok.inj (Work.yields_statement debits))
      split at rest
      · exact (Work.yields_throw rest).elim
      next all =>
        obtain ⟨updated,fourth,updates,rest⟩ := Work.yields_bind rest
        obtain ⟨count,rfl,free⟩ := updateBatches_ok (Work.yields_statement updates)
        split at rest
        · exact (Work.yields_throw rest).elim
        next one =>
          obtain ⟨_,rfl⟩ := Work.yields_pure rest
          have single : updated = 1 := not_not.mp one
          refine ⟨rfl,fresh,?_,not_not.mp all,count.symm.trans single,?_⟩
          · intro empty
            simp [empty] at filled
          · intro other member different same
            have clear := free (by omega)
            simp only [hashTaken,finalizeFields,List.any_eq_false] at clear
            exact clear other member (by simp [different,same])

def released (id : ℕ) (db : Db) : Db := (clearPending id db).2

def afterRelease (batch : Batch) (releasedAt : ℕ) (db : Db) : Db :=
  released batch.id (setBatch db batch.id (releaseGuard batch.status) (releaseFields releasedAt))

private theorem setBatch_unless_one (distinct : (db.payment_batches.map Batch.id).Nodup)
    (lost : (db.payment_batches.countP fun batch => batch.id = id ∧ guard.admits batch) ≠ 1) :
    setBatch db id guard fields = db := by
  apply setBatch_miss
  have once : (db.payment_batches.map Batch.id).count id ≤ 1 := List.nodup_iff_count.mp distinct id
  rw [List.count_eq_countP,List.countP_map] at once
  have fewer : (db.payment_batches.countP fun batch => batch.id = id ∧ guard.admits batch) ≤
      db.payment_batches.countP ((fun other => other == id) ∘ Batch.id) := by
    apply List.countP_mono_left
    intro batch _ hit
    simp only [decide_eq_true_eq] at hit
    simp [hit.1]
  omega

theorem release_writes {batch : Batch} {releasedAt : ℕ} {result : Bool}
    (distinct : (db.payment_batches.map Batch.id).Nodup)
    (yields : (releaseTransaction batch releasedAt).Yields db result after) :
    after = db ∨ (after = afterRelease batch releasedAt db ∧
      (db.payment_batches.countP fun row => row.id = batch.id ∧ (releaseGuard batch.status).admits row) = 1) := by
  obtain ⟨updated,first,updates,rest⟩ := Work.yields_bind yields
  obtain ⟨count,rfl,_⟩ := updateBatches_ok (Work.yields_statement updates)
  split at rest
  next lost =>
    obtain ⟨_,rfl⟩ := Work.yields_pure rest
    exact .inl (setBatch_unless_one distinct (count ▸ lost))
  next one =>
    obtain ⟨cleared,second,clears,rest⟩ := Work.yields_bind rest
    obtain ⟨rfl,rfl⟩ := Prod.mk.inj (Except.ok.inj (Work.yields_statement clears))
    obtain ⟨_,rfl⟩ := Work.yields_pure rest
    exact .inr ⟨rfl,count.symm.trans (not_not.mp one)⟩

def afterUnlock (batchId : ℕ) (confirm : Bool) (releasedAt : ℕ) (db : Db) : Db :=
  setBatch (released batchId db) batchId (unlockGuard confirm) (unlockFields confirm releasedAt)

theorem unlock_writes {batchId releasedAt cleared : ℕ} {confirm : Bool}
    (yields : (unlockTransaction batchId confirm releasedAt).Yields db cleared after) :
    after = afterUnlock batchId confirm releasedAt db ∧
      (db.payment_batches.countP fun row => row.id = batchId ∧ (unlockGuard confirm).admits row) = 1 := by
  obtain ⟨_,first,clears,rest⟩ := Work.yields_bind yields
  obtain ⟨rfl,rfl⟩ := Prod.mk.inj (Except.ok.inj (Work.yields_statement clears))
  obtain ⟨updated,second,updates,rest⟩ := Work.yields_bind rest
  obtain ⟨count,rfl,_⟩ := updateBatches_ok (Work.yields_statement updates)
  split at rest
  · exact (Work.yields_throw rest).elim
  next one =>
    obtain ⟨_,rfl⟩ := Work.yields_pure rest
    exact ⟨rfl,count.symm.trans (not_not.mp one)⟩

end Writes
end NodejsPool.Payments
