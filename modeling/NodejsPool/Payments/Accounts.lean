import NodejsPool.Payments.Lifecycle

/-! The books: what every balance row was funded with, what its finalized batches took,
and the transactions and payments rows that record it. -/
namespace NodejsPool.Payments
open List

def isSettled (db : Db) (id : ℕ) : Bool :=
  db.payment_batches.any fun batch => batch.id = id && batch.status = .finalized

def settledItems (db : Db) : List Item := db.payment_batch_items.filter fun item => isSettled db item.batch_id

def settledGross (db : Db) (row : ℕ) : ℤ := Sql.sumAt Item.balance_id Item.gross_amount (settledItems db) row

def grossOf (db : Db) (id : ℕ) : ℤ := ((itemsOf db id).map Item.gross_amount).sum

def Settled (db : Db) (batch : Batch) : Prop :=
  ∃ record ∈ db.transactions, batch.transaction_id = some record.id ∧
    batch.tx_hash = some record.transaction_hash ∧ record.xmr_amt = batch.total_gross ∧
    (db.payments.filter fun payment => payment.transaction_id = record.id).Perm
      ((itemsOf db batch.id).map (paymentRow record.id))

structure Books (funded : ℕ → ℤ) (db : Db) : Prop where
  amounts : ∀ row ∈ db.balance, row.amount = funded row.id - settledGross db row.id
  totals : ∀ batch ∈ db.payment_batches, batch.total_gross = grossOf db batch.id
  nets : ∀ item ∈ db.payment_batch_items, item.net_amount + item.fee_amount = item.gross_amount
  transactions : (db.transactions.map TransactionRow.id).Nodup
  hashes : (db.transactions.map TransactionRow.transaction_hash).Nodup
  freshTransaction : ∀ record ∈ db.transactions, record.id < db.nextTransactionId
  freshPayment : ∀ payment ∈ db.payments, payment.transaction_id < db.nextTransactionId
  settled : ∀ batch ∈ db.payment_batches, batch.status = .finalized → Settled db batch

section Updates

variable {db : Db} {id : ℕ} {guard : Guard} {fields : Fields} {funded : ℕ → ℤ}

theorem isSettled_iff :
    isSettled db id = true ↔ ∃ batch ∈ db.payment_batches, batch.id = id ∧ batch.status = .finalized := by
  simp [isSettled]

private theorem isSettled_setBatch (kept : ∀ batch ∈ db.payment_batches, guard.admits batch = true →
      ((batch.assign fields).status = .finalized ↔ batch.status = .finalized)) (other : ℕ) :
    isSettled (setBatch db id guard fields) other = isSettled db other := by
  apply Bool.eq_iff_iff.mpr
  rw [isSettled_iff,isSettled_iff]
  exact exists_setBatch (P := (· = .finalized)) fun batch member _ => kept batch member

theorem books_setBatch (books : Books funded db) (kept : ∀ batch ∈ db.payment_batches, guard.admits batch = true →
      ((batch.assign fields).status = .finalized ↔ batch.status = .finalized))
    (untouched : ∀ batch ∈ db.payment_batches, guard.admits batch = true → batch.status = .finalized →
      (batch.assign fields).tx_hash = batch.tx_hash ∧
        (batch.assign fields).transaction_id = batch.transaction_id) :
    Books funded (setBatch db id guard fields) := by
  have same (other : ℕ) : isSettled (setBatch db id guard fields) other = isSettled db other :=
    isSettled_setBatch kept other
  refine ⟨?_,?_,books.nets,books.transactions,books.hashes,books.freshTransaction,books.freshPayment,?_⟩
  · intro row member
    have items : settledItems (setBatch db id guard fields) = settledItems db := by
      unfold settledItems
      simp only [same]
      rfl
    rw [settledGross,items]
    exact books.amounts row member
  · intro batch member
    obtain ⟨old,inside,rfl⟩ := mem_map.mp member
    rw [touch_gross,touch_id]
    exact books.totals old inside
  · intro batch member final
    obtain ⟨old,inside,rfl⟩ := mem_map.mp member
    rcases touch_cases id guard fields old with unchanged | ⟨_,admits,assigned⟩
    · rw [unchanged] at final ⊢
      exact books.settled old inside final
    · rw [assigned] at final ⊢
      have before := (kept old inside admits).mp final
      obtain ⟨hash,transaction⟩ := untouched old inside admits before
      obtain ⟨record,there,paid⟩ := books.settled old inside before
      refine ⟨record,there,?_⟩
      rw [hash,transaction]
      exact paid

theorem permitted_final {batch : Batch} (permitted : Permitted fields batch.status) :
    (batch.assign fields).status = .finalized ↔ batch.status = .finalized := by
  cases permitted with
  | keep keeps => simp [Batch.assign,keeps.status]
  | retry before status | claim before status => rcases before with same | same <;> simp [Batch.assign,status,same]
  | submit after status | review after status => rcases after with same | same <;> simp [Batch.assign,status,same]

theorem permitted_settled {batch : Batch} (permitted : Permitted fields batch.status)
    (final : batch.status = .finalized) : (batch.assign fields).tx_hash = batch.tx_hash ∧
      (batch.assign fields).transaction_id = batch.transaction_id := by
  rw [final] at permitted
  cases permitted with
  | keep keeps => simp [Batch.assign,keeps.tx_hash,keeps.transaction_id]
  | retry before | claim before => rcases before with same | same <;> cases same
  | submit after | review after => rcases after with same | same <;> cases same

theorem books_update (books : Books funded db)
    {expected : Status} (one : guard.statuses = [expected]) (permitted : Permitted fields expected) :
    Books funded (setBatch db id guard fields) := by
  apply books_setBatch books
  · intro batch _ admits
    exact permitted_final (admits_single one admits ▸ permitted)
  · intro batch _ admits final
    exact permitted_settled (admits_single one admits ▸ permitted) final

theorem books_close (books : Books funded db)
    (closes : fields.status = some .retryable) (unsettled : Status.finalized ∉ guard.statuses) :
    Books funded (setBatch db id guard fields) := by
  have before {batch : Batch} (admits : guard.admits batch = true) : batch.status ≠ .finalized := by
    intro final
    exact unsettled (final ▸ admits_status admits)
  apply books_setBatch books
  · intro batch _ admits
    simp [Batch.assign,closes,before admits]
  · intro batch _ admits final
    exact (before admits final).elim

end Updates

section Moves

variable {funded : ℕ → ℤ} {db : Db}

private theorem books_setBalance (books : Books funded db) {balance : List BalanceRow}
    (same : ∀ row ∈ balance, ∃ old ∈ db.balance, row.id = old.id ∧ row.amount = old.amount) :
    Books funded (db.setBalance balance) := by
  refine ⟨?_,books.totals,books.nets,books.transactions,books.hashes,books.freshTransaction,books.freshPayment,
    books.settled⟩
  intro row member
  obtain ⟨old,inside,id,amount⟩ := same row member
  rw [id,amount]
  exact books.amounts old inside

theorem books_released (books : Books funded db) (id : ℕ) : Books funded (released id db) := by
  apply books_setBalance books
  intro row member
  obtain ⟨old,inside,rfl⟩ := mem_map.mp member
  refine ⟨old,inside,?_⟩
  split <;> exact ⟨rfl,rfl⟩

theorem record_net {batchId : ℕ} {items : List PayoutItem} {item : Item}
    (sound : ∀ item ∈ items, item.netAmount + item.feeAmount = item.grossAmount)
    (member : item ∈ buildItemRecords batchId items) : item.net_amount + item.fee_amount = item.gross_amount := by
  obtain ⟨index,bound,rfl⟩ := mem_iff_getElem.mp member
  rw [buildItemRecords,length_mapIdx] at bound
  simpa [buildItemRecords] using sound _ (getElem_mem bound)

theorem buildItemRecords_gross (batchId : ℕ) (items : List PayoutItem) :
    (buildItemRecords batchId items).map Item.gross_amount = items.map PayoutItem.grossAmount := by
  apply ext_getElem
  · simp [buildItemRecords]
  · intro index left right
    simp [buildItemRecords]

private theorem isSettled_reserve (db : Db) (plan : BatchPlan) (id : ℕ) :
    isSettled (afterReserve plan db) id = isSettled db id := by
  change (db.payment_batches ++ [reservedBatch db.nextBatchId plan]).any _ = _
  simp [isSettled,reservedBatch]

private theorem unsettled_fresh (keys : Keys db) : isSettled db db.nextBatchId = false := by
  by_contra settled
  obtain ⟨batch,member,same,_⟩ := isSettled_iff.mp (by simpa using settled)
  have bound := keys.fresh batch member
  omega

private theorem settledItems_reserve (keys : Keys db) (plan : BatchPlan) :
    settledItems (afterReserve plan db) = settledItems db := by
  have new : (buildItemRecords db.nextBatchId plan.items).filter (fun item => isSettled db item.batch_id) = [] := by
    apply filter_eq_nil_iff.mpr
    intro item member
    rw [record_batch member,unsettled_fresh keys]
    exact Bool.false_ne_true
  unfold settledItems
  simp only [isSettled_reserve]
  change (db.payment_batch_items ++ buildItemRecords db.nextBatchId plan.items).filter _ = _
  rw [filter_append,new,append_nil]

theorem itemsOf_old (keys : Keys db) (plan : BatchPlan) {batch : Batch} (member : batch ∈ db.payment_batches) :
    itemsOf (afterReserve plan db) batch.id = itemsOf db batch.id := by
  have bound := keys.fresh batch member
  rw [itemsOf_reserve keys,if_neg (by omega)]

theorem books_reserve (keys : Keys db) (books : Books funded db) {plan : BatchPlan}
    (sound : PlanSound plan) : Books funded (afterReserve plan db) := by
  refine ⟨?_,?_,?_,books.transactions,books.hashes,books.freshTransaction,books.freshPayment,?_⟩
  · intro row member
    obtain ⟨old,inside,rfl⟩ := mem_map.mp member
    rw [settledGross,settledItems_reserve keys]
    split <;> exact books.amounts old inside
  · intro batch member
    unfold grossOf
    rcases mem_append.mp member with old | new
    · rw [itemsOf_old keys plan old]
      exact books.totals batch old
    · obtain rfl := mem_singleton.mp new
      rw [itemsOf_reserve keys,reservedBatch,if_pos rfl,buildItemRecords_gross]
      exact sound.gross
  · intro item member
    rcases mem_append.mp member with old | new
    · exact books.nets item old
    · exact record_net sound.net new
  · intro batch member final
    rcases mem_append.mp member with old | new
    · obtain ⟨record,there,transaction,hash,amount,paid⟩ := books.settled batch old final
      refine ⟨record,there,transaction,hash,amount,?_⟩
      rw [itemsOf_old keys plan old]
      exact paid
    · obtain rfl := mem_singleton.mp new
      cases final

end Moves

section Finalize

variable {db : Db} {batch : Batch} {items : List Item} {hash txKey : String} {finalizedAt : ℕ} {funded : ℕ → ℤ}

theorem finalize_hit (submitted : batch.status = .submitted) (finalizes : Finalizes batch items hash db) :
    ∃ hit ∈ db.payment_batches, hit.id = batch.id ∧ hit.status = .submitted ∧
      (settledGuard batch.status).admits hit = true := by
  obtain ⟨hit,member,same,admits⟩ := single_admitted finalizes.current
  exact ⟨hit,member,same,(admits_single rfl admits).trans submitted,admits⟩

private theorem isSettled_finalize (submitted : batch.status = .submitted)
    (finalizes : Finalizes batch items hash db) (id : ℕ) :
    isSettled (afterFinalize batch items hash txKey finalizedAt db) id = (isSettled db id || id = batch.id) := by
  obtain ⟨hit,hit_mem,hit_id,_,admits⟩ := finalize_hit submitted finalizes
  apply Bool.eq_iff_iff.mpr
  simp only [Bool.or_eq_true,decide_eq_true_eq]
  rw [isSettled_iff,isSettled_iff]
  constructor
  · intro settled
    obtain ⟨after,member,here,final⟩ := settled
    obtain ⟨old,inside,rfl⟩ := mem_map.mp member
    rw [touch_id] at here
    by_cases same : old.id = batch.id
    · exact .inr (here.symm.trans same)
    · rw [touch_other same] at final
      exact .inl ⟨old,inside,here,final⟩
  · intro either
    rcases either with settled | rfl
    · obtain ⟨old,inside,here,final⟩ := settled
      refine ⟨_,mem_map_of_mem inside,(touch_id ..).trans here,?_⟩
      rcases touch_cases batch.id (settledGuard batch.status)
        (finalizeFields batch hash txKey finalizedAt db.nextTransactionId) old with same | ⟨_,_,assigned⟩
      · rw [same]
        exact final
      · rw [assigned]
        rfl
    · refine ⟨_,mem_map_of_mem hit_mem,(touch_id ..).trans hit_id,?_⟩
      rw [touch,if_pos ⟨hit_id,admits⟩]
      rfl

private theorem unsettled_hit (keys : Keys db) (submitted : batch.status = .submitted)
    (finalizes : Finalizes batch items hash db) : isSettled db batch.id = false := by
  obtain ⟨hit,hit_mem,hit_id,status,_⟩ := finalize_hit submitted finalizes
  by_contra settled
  obtain ⟨other,member,same,final⟩ := isSettled_iff.mp (by simpa using settled)
  have equal := batch_eq keys member hit_mem (same.trans hit_id.symm)
  rw [equal,status] at final
  cases final

theorem settledGross_finalize (keys : Keys db) (submitted : batch.status = .submitted)
    (finalizes : Finalizes batch items hash db) (row : ℕ) :
    settledGross (afterFinalize batch items hash txKey finalizedAt db) row =
      settledGross db row + Sql.sumAt Item.balance_id Item.gross_amount (itemsOf db batch.id) row := by
  have now : settledItems (afterFinalize batch items hash txKey finalizedAt db) =
      db.payment_batch_items.filter fun item => isSettled db item.batch_id || item.batch_id = batch.id := by
    unfold settledItems
    simp only [isSettled_finalize submitted finalizes]
    rfl
  rw [settledGross,now]
  apply Sql.sumAt_either
  intro item _ settled
  apply decide_eq_false
  intro same
  rw [same,unsettled_hit keys submitted finalizes] at settled
  cases settled

theorem debited_row (keys : Keys db) (pointers : Pointers db) (submitted : batch.status = .submitted)
    (own : items.Perm (itemsOf db batch.id)) (finalizes : Finalizes batch items hash db) {row : BalanceRow}
    (member : row ∈ debited batch.id items db.balance) : ∃ old ∈ db.balance, row.id = old.id ∧
      row.amount = old.amount - Sql.sumAt Item.balance_id Item.gross_amount (itemsOf db batch.id) old.id := by
  obtain ⟨old,inside,rfl⟩ := mem_map.mp member
  refine ⟨old,inside,?_⟩
  split
  · refine ⟨rfl,?_⟩
    have distinct : (items.map Item.balance_id).Nodup := (own.map Item.balance_id).nodup_iff.mpr (keys.itemOnce _)
    change old.amount - Sql.caseAt _ _ _ _ = _
    rw [Sql.caseAt_eq distinct,Sql.sumAt_perm Item.balance_id Item.gross_amount own]
  next miss =>
    refine ⟨rfl,?_⟩
    rw [Sql.sumAt_absent,sub_zero]
    -- a row of the batch would point to it, and so would have been debited
    intro held
    have item : HasItem db batch.id old.id := (own_balance (Perm.refl _)).mp held
    obtain ⟨hit,hit_mem,hit_id,status,_⟩ := finalize_hit submitted finalizes
    have isOpen : OpenIn db batch.id := ⟨hit,hit_mem,hit_id,by simp [status,openStatuses]⟩
    exact miss ⟨(pointers old inside _).mpr ⟨item,isOpen⟩,(own_balance own).mpr item⟩

private theorem unpaid_fresh (books : Books funded db) :
    (db.payments.filter fun payment => payment.transaction_id = db.nextTransactionId) = [] := by
  apply filter_eq_nil_iff.mpr
  intro payment member same
  have bound := books.freshPayment payment member
  have here := of_decide_eq_true same
  omega

private theorem settled_finalize (books : Books funded db)
    (gross : batch.total_gross = (items.map Item.gross_amount).sum) (own : items.Perm (itemsOf db batch.id))
    {old : Batch} (inside : old ∈ db.payment_batches) (same : old.id = batch.id) :
    Settled (afterFinalize batch items hash txKey finalizedAt db)
      (old.assign (finalizeFields batch hash txKey finalizedAt db.nextTransactionId)) := by
  refine ⟨transactionRecord batch items hash db.nextTransactionId,
    mem_append_right _ (mem_singleton_self _),rfl,rfl,?_,?_⟩
  · change batch.total_gross = old.total_gross
    rw [books.totals old inside,gross,same]
    exact (own.map _).sum_eq
  · have new : ((items.map (paymentRow db.nextTransactionId)).filter fun payment =>
        payment.transaction_id = db.nextTransactionId) = items.map (paymentRow db.nextTransactionId) := by
      apply filter_eq_self.mpr
      intro payment member
      obtain ⟨item,_,rfl⟩ := mem_map.mp member
      exact decide_eq_true rfl
    change ((db.payments ++ items.map (paymentRow db.nextTransactionId)).filter fun payment =>
      payment.transaction_id = db.nextTransactionId).Perm ((itemsOf db old.id).map _)
    rw [filter_append,unpaid_fresh books,new,nil_append,same]
    exact own.map _

private theorem settled_older (books : Books funded db) {old : Batch} (settled : Settled db old) :
    Settled (afterFinalize batch items hash txKey finalizedAt db) old := by
  obtain ⟨record,there,transaction,same,amount,paid⟩ := settled
  refine ⟨record,mem_append_left _ there,transaction,same,amount,?_⟩
  have bound := books.freshTransaction record there
  have none : ((items.map (paymentRow db.nextTransactionId)).filter fun payment =>
      payment.transaction_id = record.id) = [] := by
    apply filter_eq_nil_iff.mpr
    intro payment member here
    obtain ⟨item,_,rfl⟩ := mem_map.mp member
    have equal : db.nextTransactionId = record.id := of_decide_eq_true here
    omega
  change ((db.payments ++ items.map (paymentRow db.nextTransactionId)).filter _).Perm _
  rw [filter_append,none,append_nil]
  exact paid

private theorem books_finalize (keys : Keys db) (pointers : Pointers db) (books : Books funded db)
    (submitted : batch.status = .submitted) (gross : batch.total_gross = (items.map Item.gross_amount).sum)
    (own : items.Perm (itemsOf db batch.id)) (finalizes : Finalizes batch items hash db) :
    Books funded (afterFinalize batch items hash txKey finalizedAt db) := by
  refine ⟨?_,?_,books.nets,?_,?_,?_,?_,?_⟩
  · intro row member
    obtain ⟨old,inside,same,amount⟩ := debited_row keys pointers submitted own finalizes member
    rw [amount,same,settledGross_finalize keys submitted finalizes,books.amounts old inside]
    omega
  · intro after member
    obtain ⟨old,inside,rfl⟩ := mem_map.mp member
    rw [touch_gross,touch_id]
    exact books.totals old inside
  · change ((db.transactions ++ [_]).map TransactionRow.id).Nodup
    rw [map_append,nodup_append]
    refine ⟨books.transactions,by simp,?_⟩
    intro id member other last same
    obtain ⟨record,inside,rfl⟩ := mem_map.mp member
    have bound := books.freshTransaction record inside
    simp only [map_cons,map_nil,mem_singleton,transactionRecord] at last
    omega
  · change ((db.transactions ++ [_]).map TransactionRow.transaction_hash).Nodup
    rw [map_append,nodup_append]
    refine ⟨books.hashes,by simp,?_⟩
    intro taken member other last same
    simp only [map_cons,map_nil,mem_singleton,transactionRecord] at last
    exact finalizes.fresh (last ▸ same ▸ member)
  · intro record member
    change record.id < db.nextTransactionId + 1
    rcases mem_append.mp member with old | new
    · exact Nat.lt_succ_of_lt (books.freshTransaction record old)
    · rw [mem_singleton.mp new]
      exact Nat.lt_succ_self _
  · intro payment member
    change payment.transaction_id < db.nextTransactionId + 1
    rcases mem_append.mp member with old | new
    · exact Nat.lt_succ_of_lt (books.freshPayment payment old)
    · obtain ⟨item,_,rfl⟩ := mem_map.mp new
      exact Nat.lt_succ_self _
  · intro after member final
    obtain ⟨old,inside,rfl⟩ := mem_map.mp member
    rcases touch_cases batch.id (settledGuard batch.status)
      (finalizeFields batch hash txKey finalizedAt db.nextTransactionId) old with same | ⟨here,_,assigned⟩
    · rw [same] at final ⊢
      exact settled_older books (books.settled old inside final)
    · rw [assigned]
      exact settled_finalize books gross own inside here

end Finalize

theorem step_books {funded : ℕ → ℤ} {db after : Db} (keys : Keys db) (pointers : Pointers db)
    (books : Books funded db) (step : LedgerStep db after) : Books funded after := by
  cases step with
  | runtime step =>
    cases step with
    | update one permitted => exact books_update books one permitted
    | reserve sound => exact books_reserve keys books sound
    | finalize submitted _ gross own finalizes => exact books_finalize keys pointers books submitted gross own finalizes
    | @release batch _ reserved =>
      apply books_released
      apply books_close books rfl
      rw [reserved]
      decide
  | unlock =>
    apply books_close (books_released books _) rfl
    unfold unlockGuard
    split <;> decide

end NodejsPool.Payments
