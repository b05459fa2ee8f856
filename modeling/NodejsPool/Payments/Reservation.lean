import NodejsPool.Payments.Json
import NodejsPool.Payments.Statements

/-! The abstract ledger machine: the guarded moves of batches between the documented
states, and the reservation pointers that every move keeps. -/
namespace NodejsPool.Payments
open List

section Moves

def Canonical (hash : String) : Prop := normalizeHash (some (.str hash)) = some hash

structure Fields.Keeps (fields : Fields) : Prop where
  status : fields.status = none
  submit_started_at : fields.submit_started_at = none
  tx_hash : fields.tx_hash = none
  finalized_at : fields.finalized_at = none
  transaction_id : fields.transaction_id = none

/-- The updates outside transactions, by the status they expect: a note keeps the state,
a retry or claim comes from before the submit boundary, the others from after it. -/
inductive Permitted : Fields → Status → Prop
  | keep {fields : Fields} {expected : Status} (keeps : fields.Keeps) : Permitted fields expected
  | retry {fields : Fields} {expected : Status} (before : expected = .reserved ∨ expected = .retrying)
    (status : fields.status = some .retrying) (started : fields.submit_started_at = some none)
    (hash : fields.tx_hash = some none) (final : fields.transaction_id = none) : Permitted fields expected
  | claim {fields : Fields} {expected : Status} {time : ℕ} (before : expected = .reserved ∨ expected = .retrying)
    (status : fields.status = some .submitting) (started : fields.submit_started_at = some (some time))
    (hash : fields.tx_hash = none) (final : fields.transaction_id = none) : Permitted fields expected
  | submit {fields : Fields} {expected : Status} {hash : String}
    (after : expected = .submitting ∨ expected = .submitted) (status : fields.status = some .submitted)
    (started : fields.submit_started_at = none) (hashed : fields.tx_hash = some (some hash))
    (canonical : Canonical hash) (final : fields.transaction_id = none) : Permitted fields expected
  | review {fields : Fields} {expected : Status} (after : expected = .submitting ∨ expected = .submitted)
    (status : fields.status = some .manual_review) (started : fields.submit_started_at = none)
    (hashed : ∀ hash, fields.tx_hash = some hash → ∃ text, hash = some text ∧ Canonical text)
    (final : fields.transaction_id = none) : Permitted fields expected

def HashFree (db : Db) (id : ℕ) (hash : String) : Prop :=
  ∀ other ∈ db.payment_batches, other.id ≠ id → other.tx_hash ≠ some hash

/-- The totals of a plan are those of its items, and every item's fee is what its gross
amount exceeds its net amount by. -/
structure PlanSound (plan : BatchPlan) : Prop where
  gross : plan.totalGross = (plan.items.map PayoutItem.grossAmount).sum
  net : ∀ item ∈ plan.items, item.netAmount + item.feeAmount = item.grossAmount

inductive RuntimeStep (db : Db) : Db → Prop
  | update {id : ℕ} {fields : Fields} {guard : Guard} {expected : Status} (one : guard.statuses = [expected])
    (permitted : Permitted fields expected) (free : ∀ hash, fields.tx_hash = some (some hash) → HashFree db id hash) :
    RuntimeStep db (setBatch db id guard fields)
  | reserve {plan : BatchPlan} (sound : PlanSound plan) (reserves : Reserves plan db) :
    RuntimeStep db (afterReserve plan db)
  | finalize {batch : Batch} {items : List Item} {hash txKey : String} {finalizedAt : ℕ}
    (submitted : batch.status = .submitted) (canonical : Canonical hash)
    (gross : batch.total_gross = (items.map Item.gross_amount).sum) (own : items.Perm (itemsOf db batch.id))
    (finalizes : Finalizes batch items hash db) : RuntimeStep db (afterFinalize batch items hash txKey finalizedAt db)
  | release {batch : Batch} {releasedAt : ℕ} (reserved : batch.status = .reserved)
    (current : (db.payment_batches.countP fun row =>
      row.id = batch.id ∧ (releaseGuard batch.status).admits row) = 1) :
    RuntimeStep db (afterRelease batch releasedAt db)

inductive LedgerStep (db : Db) : Db → Prop
  | runtime {after : Db} (step : RuntimeStep db after) : LedgerStep db after
  | unlock {batchId releasedAt : ℕ} {confirm : Bool}
    (current : (db.payment_batches.countP fun row => row.id = batchId ∧ (unlockGuard confirm).admits row) = 1) :
    LedgerStep db (afterUnlock batchId confirm releasedAt db)

end Moves

section Rows

variable {guard : Guard} {batch : Batch}

@[simp] theorem touch_id (id : ℕ) (guard : Guard) (fields : Fields) (batch : Batch) :
    (touch id guard fields batch).id = batch.id := by
  unfold touch
  split <;> rfl

@[simp] theorem touch_gross (id : ℕ) (guard : Guard) (fields : Fields) (batch : Batch) :
    (touch id guard fields batch).total_gross = batch.total_gross := by
  unfold touch
  split <;> rfl

theorem touch_cases (id : ℕ) (guard : Guard) (fields : Fields) (batch : Batch) : touch id guard fields batch = batch ∨
      (batch.id = id ∧ guard.admits batch = true ∧ touch id guard fields batch = batch.assign fields) := by
  unfold touch
  split
  next hit => exact .inr ⟨hit.1,hit.2,rfl⟩
  · exact .inl rfl

theorem touch_other {id : ℕ} {fields : Fields} (other : batch.id ≠ id) : touch id guard fields batch = batch := by
  rw [touch,if_neg fun hit => other hit.1]

theorem admits_status (admits : guard.admits batch = true) : batch.status ∈ guard.statuses := by
  simp only [Guard.admits,Bool.and_eq_true,decide_eq_true_eq] at admits
  exact admits.1

theorem admits_single {expected : Status} (one : guard.statuses = [expected])
    (admits : guard.admits batch = true) : batch.status = expected := by
  have member := admits_status admits
  rw [one] at member
  exact mem_singleton.mp member

end Rows

section Pointers

variable {db after : Db}
  {id : ℕ}
  {guard : Guard}
  {fields : Fields}
  {batch : Batch}
  {items : List Item}
  {plan : BatchPlan}

def OpenIn (db : Db) (id : ℕ) : Prop :=
  ∃ batch ∈ db.payment_batches, batch.id = id ∧ batch.status ∈ openStatuses

def HasItem (db : Db) (id row : ℕ) : Prop :=
  ∃ item ∈ db.payment_batch_items, item.batch_id = id ∧ item.balance_id = row

instance (db : Db) (id : ℕ) : Decidable (OpenIn db id) :=
  inferInstanceAs (Decidable (∃ batch ∈ db.payment_batches, batch.id = id ∧ batch.status ∈ openStatuses))

instance (db : Db) (id row : ℕ) : Decidable (HasItem db id row) :=
  inferInstanceAs (Decidable (∃ item ∈ db.payment_batch_items, item.batch_id = id ∧ item.balance_id = row))

structure Keys (db : Db) : Prop where
  batches : (db.payment_batches.map Batch.id).Nodup
  fresh : ∀ batch ∈ db.payment_batches, batch.id < db.nextBatchId
  balances : (db.balance.map BalanceRow.id).Nodup
  itemBatch : ∀ item ∈ db.payment_batch_items, ∃ batch ∈ db.payment_batches, batch.id = item.batch_id
  itemBalance : ∀ item ∈ db.payment_batch_items, ∃ row ∈ db.balance, row.id = item.balance_id
  itemOnce : ∀ id, ((itemsOf db id).map Item.balance_id).Nodup

def Pointers (db : Db) : Prop :=
  ∀ row ∈ db.balance, ∀ id, row.pending_batch_id = some id ↔ HasItem db id row.id ∧ OpenIn db id

theorem batch_eq (keys : Keys db) {left right : Batch} (left_mem : left ∈ db.payment_batches)
    (right_mem : right ∈ db.payment_batches) (same : left.id = right.id) : left = right :=
  inj_on_of_nodup_map keys.batches left_mem right_mem same

theorem row_eq (keys : Keys db) {left right : BalanceRow} (left_mem : left ∈ db.balance)
    (right_mem : right ∈ db.balance) (same : left.id = right.id) : left = right :=
  inj_on_of_nodup_map keys.balances left_mem right_mem same

theorem single_admitted (current : (db.payment_batches.countP fun row => row.id = id ∧ guard.admits row) = 1) :
    ∃ batch ∈ db.payment_batches, batch.id = id ∧ guard.admits batch = true :=
  setBatch_hit rfl (by omega)

theorem Pointers.disjoint (pointers : Pointers db) {row : BalanceRow} (member : row ∈ db.balance)
    {left right : ℕ} (left_item : HasItem db left row.id) (left_open : OpenIn db left)
    (right_item : HasItem db right row.id) (right_open : OpenIn db right) : left = right := by
  have first := (pointers row member left).mpr ⟨left_item,left_open⟩
  have second := (pointers row member right).mpr ⟨right_item,right_open⟩
  exact Option.some.inj (first.symm.trans second)

theorem keys_setBatch (keys : Keys db) (id : ℕ) (guard : Guard) (fields : Fields) :
    Keys (setBatch db id guard fields) := by
  have ids : (setBatch db id guard fields).payment_batches.map Batch.id = db.payment_batches.map Batch.id := by
    simp [setBatch,Function.comp_def]
  refine ⟨ids ▸ keys.batches,?_,keys.balances,?_,keys.itemBalance,keys.itemOnce⟩
  · intro batch member
    obtain ⟨old,inside,rfl⟩ := mem_map.mp member
    rw [touch_id]
    exact keys.fresh old inside
  · intro item member
    obtain ⟨batch,inside,same⟩ := keys.itemBatch item member
    exact ⟨_,mem_map_of_mem inside,(touch_id ..).trans same⟩

theorem exists_setBatch {P : Status → Prop} {other : ℕ}
    (kept : ∀ batch ∈ db.payment_batches, batch.id = id → guard.admits batch = true →
      (P (batch.assign fields).status ↔ P batch.status)) :
    (∃ batch ∈ (setBatch db id guard fields).payment_batches, batch.id = other ∧ P batch.status) ↔
      ∃ batch ∈ db.payment_batches, batch.id = other ∧ P batch.status := by
  have same (batch : Batch) (member : batch ∈ db.payment_batches) :
      P (touch id guard fields batch).status ↔ P batch.status := by
    rcases touch_cases id guard fields batch with unchanged | ⟨here,admits,assigned⟩
    · rw [unchanged]
    · rw [assigned]
      exact kept batch member here admits
  constructor
  · intro found
    obtain ⟨batch,member,here,status⟩ := found
    obtain ⟨old,inside,rfl⟩ := mem_map.mp member
    exact ⟨old,inside,(touch_id ..).symm.trans here,(same old inside).mp status⟩
  · intro found
    obtain ⟨batch,member,here,status⟩ := found
    exact ⟨_,mem_map_of_mem member,(touch_id ..).trans here,(same batch member).mpr status⟩

theorem pointers_setBatch (pointers : Pointers db)
    (kept : ∀ batch ∈ db.payment_batches, batch.id = id → guard.admits batch = true →
      ((batch.assign fields).status ∈ openStatuses ↔ batch.status ∈ openStatuses)) :
    Pointers (setBatch db id guard fields) := by
  intro row member other
  exact (pointers row member other).trans (and_congr_right fun _ => (exists_setBatch kept).symm)

theorem permitted_open (permitted : Permitted fields batch.status) :
    (batch.assign fields).status ∈ openStatuses ↔ batch.status ∈ openStatuses := by
  cases permitted with
  | keep keeps => simp [Batch.assign,keeps.status]
  | retry before status | claim before status =>
    rcases before with same | same <;> simp [Batch.assign,status,same,openStatuses]
  | submit after status | review after status =>
    rcases after with same | same <;> simp [Batch.assign,status,same,openStatuses]

theorem pointers_close (pointers : Pointers db) (id : ℕ)
    (items : after.payment_batch_items = db.payment_batch_items) (closed : ¬OpenIn after id)
    (others : ∀ other, other ≠ id → (OpenIn after other ↔ OpenIn db other))
    (rows : ∀ row ∈ after.balance, ∃ old ∈ db.balance, row.id = old.id ∧
      row.pending_batch_id = if old.pending_batch_id = some id then none else old.pending_batch_id) :
    Pointers after := by
  intro row member other
  obtain ⟨old,inside,same,pending⟩ := rows row member
  have itemsSame : HasItem after other row.id ↔ HasItem db other old.id := by
    unfold HasItem
    rw [items,same]
  rw [itemsSame]
  by_cases here : other = id
  · subst here
    constructor
    · intro points
      rw [pending] at points
      split at points
      · cases points
      next elsewhere => exact (elsewhere points).elim
    · intro held
      exact (closed held.2).elim
  · rw [others other here,← pointers old inside other,pending]
    split
    next away =>
      rw [away]
      constructor
      · intro none
        cases none
      · intro same
        exact (here (Option.some.inj same).symm).elim
    · exact Iff.rfl

theorem closed_setBatch (keys : Keys db) {status : Status}
    (current : (db.payment_batches.countP fun row => row.id = id ∧ guard.admits row) = 1)
    (set : fields.status = some status) (closed : status ∉ openStatuses) :
    ¬OpenIn (setBatch db id guard fields) id := by
  intro isOpen
  obtain ⟨batch,member,here,open_⟩ := isOpen
  obtain ⟨old,inside,rfl⟩ := mem_map.mp member
  obtain ⟨hit,hit_mem,hit_id,admits⟩ := single_admitted current
  rw [touch_id] at here
  have same : old = hit := batch_eq keys inside hit_mem (here.trans hit_id.symm)
  subst same
  rw [touch,if_pos ⟨hit_id,admits⟩] at open_
  simp only [Batch.assign,set,Option.getD_some] at open_
  exact closed open_

theorem openIn_other {other : ℕ} (different : other ≠ id) :
    OpenIn (setBatch db id guard fields) other ↔ OpenIn db other := by
  constructor
  · intro isOpen
    obtain ⟨batch,member,here,open_⟩ := isOpen
    obtain ⟨old,inside,rfl⟩ := mem_map.mp member
    rw [touch_id] at here
    have away : old.id ≠ id := fun same => different (here.symm.trans same)
    rw [touch_other away] at open_
    exact ⟨old,inside,here,open_⟩
  · intro isOpen
    obtain ⟨batch,member,here,open_⟩ := isOpen
    have away : batch.id ≠ id := fun same => different (here.symm.trans same)
    exact ⟨_,mem_map_of_mem member,by rw [touch_other away]; exact ⟨here,open_⟩⟩

theorem released_row {row : BalanceRow} (member : row ∈ (released id db).balance) :
    ∃ old ∈ db.balance, row.id = old.id ∧
      row.pending_batch_id = if old.pending_batch_id = some id then none else old.pending_batch_id := by
  obtain ⟨old,inside,rfl⟩ := mem_map.mp member
  refine ⟨old,inside,?_⟩
  split
  · exact ⟨rfl,rfl⟩
  · exact ⟨rfl,rfl⟩

private theorem released_ids (id : ℕ) (db : Db) :
    (released id db).balance.map BalanceRow.id = db.balance.map BalanceRow.id := by
  simp only [released,clearPending,Db.setBalance,map_map]
  apply map_congr_left
  intro row _
  simp only [Function.comp_apply]
  split <;> rfl

theorem keys_setBalance (keys : Keys db) {balance : List BalanceRow}
    (ids : balance.map BalanceRow.id = db.balance.map BalanceRow.id) : Keys (db.setBalance balance) := by
  refine ⟨keys.batches,keys.fresh,?_,keys.itemBatch,?_,keys.itemOnce⟩
  · exact ids ▸ keys.balances
  · intro item member
    obtain ⟨row,inside,same⟩ := keys.itemBalance item member
    have known : item.balance_id ∈ balance.map BalanceRow.id := ids ▸ same ▸ mem_map_of_mem inside
    obtain ⟨other,there,equal⟩ := mem_map.mp known
    exact ⟨other,there,equal⟩

theorem keys_released (keys : Keys db) (id : ℕ) : Keys (released id db) :=
  keys_setBalance keys (released_ids id db)

theorem release_pointers (keys : Keys db) (pointers : Pointers db) {releasedAt : ℕ}
    (current : (db.payment_batches.countP fun row =>
      row.id = batch.id ∧ (releaseGuard batch.status).admits row) = 1) :
    Pointers (afterRelease batch releasedAt db) := by
  refine pointers_close pointers batch.id rfl ?_ ?_ ?_
  · exact closed_setBatch keys current rfl (by decide)
  · intro other different
    exact openIn_other different
  · intro row member
    exact released_row member

theorem unlock_pointers (keys : Keys db) (pointers : Pointers db) {batchId releasedAt : ℕ} {confirm : Bool}
    (current : (db.payment_batches.countP fun row => row.id = batchId ∧ (unlockGuard confirm).admits row) = 1) :
    Pointers (afterUnlock batchId confirm releasedAt db) := by
  refine pointers_close pointers batchId rfl ?_ ?_ ?_
  · exact closed_setBatch (keys_released keys batchId) current rfl (by decide)
  · intro other different
    exact openIn_other different
  · intro row member
    exact released_row member

private theorem debited_ids (batchId : ℕ) (items : List Item) (balance : List BalanceRow) :
    (debited batchId items balance).map BalanceRow.id = balance.map BalanceRow.id := by
  simp only [debited,map_map]
  apply map_congr_left
  intro row _
  simp only [Function.comp_apply]
  split <;> rfl

theorem keys_ledger (keys : Keys db) (batch : Batch) (items : List Item) (hash : String) :
    Keys (afterLedger batch items hash db) := by
  have balances := keys_setBalance keys (debited_ids batch.id items db.balance)
  exact ⟨keys.batches,keys.fresh,balances.balances,keys.itemBatch,balances.itemBalance,keys.itemOnce⟩

theorem keys_finalize (keys : Keys db) (batch : Batch) (items : List Item) (hash txKey : String)
    (finalizedAt : ℕ) : Keys (afterFinalize batch items hash txKey finalizedAt db) := by
  apply keys_setBatch
  exact keys_ledger keys batch items hash

theorem own_balance {row : ℕ} (own : items.Perm (itemsOf db id)) :
    row ∈ items.map Item.balance_id ↔ HasItem db id row := by
  constructor
  · intro member
    obtain ⟨item,inside,rfl⟩ := mem_map.mp member
    obtain ⟨there,same⟩ := mem_filter.mp (own.subset inside)
    exact ⟨item,there,of_decide_eq_true same,rfl⟩
  · intro held
    obtain ⟨item,there,same,rfl⟩ := held
    exact mem_map_of_mem (own.symm.subset (mem_filter.mpr ⟨there,decide_eq_true same⟩))

theorem finalize_pointers (keys : Keys db) (pointers : Pointers db)
    {hash txKey : String} {finalizedAt : ℕ} (own : items.Perm (itemsOf db batch.id))
    (finalizes : Finalizes batch items hash db) : Pointers (afterFinalize batch items hash txKey finalizedAt db) := by
  have ledgerKeys : Keys (afterLedger batch items hash db) := keys_ledger keys batch items hash
  refine pointers_close pointers batch.id rfl ?_ ?_ ?_
  · exact closed_setBatch ledgerKeys finalizes.current rfl (by decide)
  · intro other different
    exact openIn_other different
  · intro row member
    obtain ⟨old,inside,rfl⟩ := mem_map.mp member
    refine ⟨old,inside,?_⟩
    split
    next hit =>
      rw [if_pos hit.1]
      exact ⟨rfl,rfl⟩
    next miss =>
      refine ⟨rfl,?_⟩
      split
      next points =>
        have held := ((pointers old inside batch.id).mp points).1
        exact (miss ⟨points,(own_balance own).mpr held⟩).elim
      · rfl

theorem pinned_ids (batchId : ℕ) (ids : List ℕ) (balance : List BalanceRow) :
    (pinned batchId ids balance).map BalanceRow.id = balance.map BalanceRow.id := by
  simp only [pinned,map_map]
  apply map_congr_left
  intro row _
  simp only [Function.comp_apply]
  split <;> rfl

theorem fresh_items (keys : Keys db) {item : Item} (member : item ∈ db.payment_batch_items) :
    item.batch_id ≠ db.nextBatchId := by
  obtain ⟨batch,inside,same⟩ := keys.itemBatch item member
  have bound := keys.fresh batch inside
  omega

theorem record_batch {batchId : ℕ} {items : List PayoutItem} {item : Item}
    (member : item ∈ buildItemRecords batchId items) : item.batch_id = batchId := by
  obtain ⟨index,bound,rfl⟩ := mem_iff_getElem.mp member
  simp [buildItemRecords]

theorem itemsOf_reserve (keys : Keys db) (plan : BatchPlan) (id : ℕ) : itemsOf (afterReserve plan db) id =
      if id = db.nextBatchId then buildItemRecords db.nextBatchId plan.items else itemsOf db id := by
  have split_ : itemsOf (afterReserve plan db) id = itemsOf db id ++
      (buildItemRecords db.nextBatchId plan.items).filter fun item => item.batch_id = id :=
    filter_append ..
  rw [split_]
  by_cases here : id = db.nextBatchId
  · subst here
    have none : itemsOf db db.nextBatchId = [] := by
      apply filter_eq_nil_iff.mpr
      intro item member same
      exact fresh_items keys member (of_decide_eq_true same)
    have all : ((buildItemRecords db.nextBatchId plan.items).filter fun item => item.batch_id = db.nextBatchId) =
        buildItemRecords db.nextBatchId plan.items := by
      apply filter_eq_self.mpr
      intro item member
      exact decide_eq_true (record_batch member)
    rw [none,all,if_pos rfl,nil_append]
  · have none : ((buildItemRecords db.nextBatchId plan.items).filter fun item => item.batch_id = id) = [] := by
      apply filter_eq_nil_iff.mpr
      intro item member same
      exact here ((of_decide_eq_true same).symm.trans (record_batch member))
    rw [none,if_neg here,append_nil]

theorem Reserves.rows (reserves : Reserves plan db) (keys : Keys db)
    (member : id ∈ plan.items.map PayoutItem.balanceId) :
    ∃ row ∈ db.balance, row.pending_batch_id = none ∧ row.id = id := by
  have inside : ∀ row ∈ db.balance, (row.pending_batch_id.isNone &&
      decide (row.id ∈ plan.items.map PayoutItem.balanceId)) = true →
      row.id ∈ plan.items.map PayoutItem.balanceId := by
    intro row _ passes
    simp only [Bool.and_eq_true,decide_eq_true_eq] at passes
    exact passes.2
  obtain ⟨row,there,passes,same⟩ := Sql.all_counted keys.balances inside reserves.free id member
  simp only [Bool.and_eq_true,Option.isNone_iff_eq_none] at passes
  exact ⟨row,there,passes.1,same⟩

theorem keys_reserve (keys : Keys db) (reserves : Reserves plan db) : Keys (afterReserve plan db) := by
  have batchList : (afterReserve plan db).payment_batches =
      db.payment_batches ++ [reservedBatch db.nextBatchId plan] := rfl
  have itemList : (afterReserve plan db).payment_batch_items =
      db.payment_batch_items ++ buildItemRecords db.nextBatchId plan.items := rfl
  have ids := pinned_ids db.nextBatchId (plan.items.map PayoutItem.balanceId) db.balance
  have known (id : ℕ) (row : ∃ row ∈ db.balance, row.id = id) :
      ∃ row ∈ (afterReserve plan db).balance, row.id = id := by
    obtain ⟨row,inside,rfl⟩ := row
    have member : row.id ∈ (pinned db.nextBatchId (plan.items.map PayoutItem.balanceId) db.balance).map
        BalanceRow.id := ids ▸ mem_map_of_mem inside
    obtain ⟨other,there,same⟩ := mem_map.mp member
    exact ⟨other,there,same⟩
  refine ⟨?_,?_,?_,?_,?_,?_⟩
  · rw [batchList,map_append,nodup_append]
    refine ⟨keys.batches,by simp,?_⟩
    intro id member other last same
    obtain ⟨batch,inside,rfl⟩ := mem_map.mp member
    have bound := keys.fresh batch inside
    simp only [map_cons,map_nil,mem_singleton,reservedBatch] at last
    omega
  · intro batch member
    rw [batchList] at member
    change batch.id < db.nextBatchId + 1
    rcases mem_append.mp member with old | new
    · exact Nat.lt_succ_of_lt (keys.fresh batch old)
    · obtain rfl := mem_singleton.mp new
      exact Nat.lt_succ_self _
  · change ((pinned ..).map BalanceRow.id).Nodup
    rw [ids]
    exact keys.balances
  · intro item member
    rw [itemList] at member
    rw [batchList]
    rcases mem_append.mp member with old | new
    · obtain ⟨batch,inside,same⟩ := keys.itemBatch item old
      exact ⟨batch,mem_append_left _ inside,same⟩
    · exact ⟨_,mem_append_right _ (mem_singleton_self _),(record_batch new).symm⟩
  · intro item member
    rw [itemList] at member
    apply known
    rcases mem_append.mp member with old | new
    · exact keys.itemBalance item old
    · have inside : item.balance_id ∈ plan.items.map PayoutItem.balanceId :=
        buildItemRecords_ids db.nextBatchId plan.items ▸ mem_map_of_mem new
      obtain ⟨row,there,_,same⟩ := reserves.rows keys inside
      exact ⟨row,there,same⟩
  · intro id
    rw [itemsOf_reserve keys]
    split
    · rw [buildItemRecords_ids]
      exact reserves.distinct
    · exact keys.itemOnce id

theorem hasItem_reserve (keys : Keys db) (plan : BatchPlan) (id row : ℕ) : HasItem (afterReserve plan db) id row ↔
      if id = db.nextBatchId then row ∈ plan.items.map PayoutItem.balanceId else HasItem db id row := by
  rw [← own_balance (Perm.refl _),itemsOf_reserve keys]
  split
  · rw [buildItemRecords_ids]
  · exact own_balance (Perm.refl _)

theorem openIn_reserve (db : Db) (plan : BatchPlan) (id : ℕ) :
    OpenIn (afterReserve plan db) id ↔ id = db.nextBatchId ∨ OpenIn db id := by
  constructor
  · intro isOpen
    obtain ⟨batch,member,here,open_⟩ := isOpen
    rcases mem_append.mp member with old | new
    · exact .inr ⟨batch,old,here,open_⟩
    · obtain rfl := mem_singleton.mp new
      exact .inl here.symm
  · intro either
    rcases either with rfl | isOpen
    · exact ⟨_,mem_append_right _ (mem_singleton_self _),rfl,
        show Status.reserved ∈ openStatuses by decide⟩
    · obtain ⟨batch,inside,here,open_⟩ := isOpen
      exact ⟨batch,mem_append_left _ inside,here,open_⟩

private theorem reserve_pointers (keys : Keys db) (pointers : Pointers db)
    (reserves : Reserves plan db) : Pointers (afterReserve plan db) := by
  have fresh (row : ℕ) : ¬HasItem db db.nextBatchId row := by
    intro held
    obtain ⟨item,inside,same,_⟩ := held
    exact fresh_items keys inside same
  intro row member id
  obtain ⟨old,inside,rfl⟩ := mem_map.mp member
  rw [hasItem_reserve keys,openIn_reserve]
  split
  next pins =>
    simp only [Bool.and_eq_true,Option.isNone_iff_eq_none,decide_eq_true_eq] at pins
    dsimp only
    by_cases here : id = db.nextBatchId
    · simp [here,pins.2]
    · have unpinned : ¬(HasItem db id old.id ∧ OpenIn db id) := by
        rw [← pointers old inside id,pins.1]
        simp
      rw [if_neg here]
      simp only [here,false_or,Option.some.injEq,unpinned,iff_false]
      intro same
      exact here same.symm
  next stays =>
    by_cases here : id = db.nextBatchId
    · subst here
      simp only [if_true,true_or,and_true]
      constructor
      · intro points
        exact (fresh old.id ((pointers old inside _).mp points).1).elim
      · intro planned
        obtain ⟨free,there,none,same⟩ := reserves.rows keys planned
        have equal : free = old := row_eq keys there inside same
        subst equal
        exact (stays (by simp [none,planned])).elim
    · rw [if_neg here]
      simp only [here,false_or]
      exact pointers old inside id

theorem step_keys (keys : Keys db) (step : LedgerStep db after) : Keys after := by
  cases step with
  | runtime step =>
    cases step with
    | update => exact keys_setBatch keys _ _ _
    | reserve _ reserves => exact keys_reserve keys reserves
    | finalize => exact keys_finalize keys _ _ _ _ _
    | release => exact keys_released (keys_setBatch keys _ _ _) _
  | unlock => exact keys_setBatch (keys_released keys _) _ _ _

theorem step_pointers (keys : Keys db) (pointers : Pointers db) (step : LedgerStep db after) : Pointers after := by
  cases step with
  | runtime step =>
    cases step with
    | update one permitted =>
      apply pointers_setBatch pointers
      intro batch _ _ admits
      exact permitted_open (admits_single one admits ▸ permitted)
    | reserve _ reserves => exact reserve_pointers keys pointers reserves
    | finalize _ _ _ own finalizes => exact finalize_pointers keys pointers own finalizes
    | release _ current => exact release_pointers keys pointers current
  | unlock current => exact unlock_pointers keys pointers current

end Pointers
end NodejsPool.Payments
