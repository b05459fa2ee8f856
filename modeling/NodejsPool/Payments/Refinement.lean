import NodejsPool.Payments.Accounts
import NodejsPool.Payments.Execution
import NodejsPool.Payments.Jobs

/-! The payment processes refine the ledger machine: every call leaves the tables alone or makes a
ledger step, because what a process was told about a batch stays true. -/
namespace NodejsPool.Payments
open Async Function List

structure Fresh (shared : Shared) : Prop where
  batches : shared.db.payment_batches = []
  items : shared.db.payment_batch_items = []
  balances : (shared.db.balance.map BalanceRow.id).Nodup
  free : ∀ row ∈ shared.db.balance, row.pending_batch_id = none
  solvent : ∀ row ∈ shared.db.balance, 0 ≤ row.amount
  funded : ∀ row ∈ shared.db.balance, shared.funded row.id = row.amount
  transactions : (shared.db.transactions.map TransactionRow.id).Nodup
  hashes : (shared.db.transactions.map TransactionRow.transaction_hash).Nodup
  freshTransaction : ∀ record ∈ shared.db.transactions, record.id < shared.db.nextTransactionId
  freshPayment : ∀ payment ∈ shared.db.payments, payment.transaction_id < shared.db.nextTransactionId
  issued : shared.issued = []
  claims : shared.claims = []
  unlocked : shared.lockOwner = none

structure Extends (db after : Db) : Prop where
  rows : ∀ row ∈ db.payment_batches, ∃ next ∈ after.payment_batches, next.id = row.id ∧
    next.total_gross = row.total_gross
  items : ∀ row ∈ db.payment_batches, itemsOf after row.id = itemsOf db row.id

structure Told (shared : Shared) (log : Log) : Prop where
  rows : ∀ id gross, Known log id gross → ∃ row ∈ shared.db.payment_batches, row.id = id ∧ row.total_gross = gross
  items : ∀ id items, ItemsKnown log id items → items ≠ [] → items.Perm (itemsOf shared.db id)
  transfers : ∀ transfer, Reported log transfer → transfer ∈ shared.history

structure Ledger (shared : Shared) : Prop where
  keys : Keys shared.db
  pointers : Pointers shared.db
  rows : Rows shared.db
  hashes : Hashes shared.db
  books : Books shared.funded shared.db

/-- A finalized batch carries the hash of a transfer that the wallet reported and that
matches its items. -/
def Vouched (shared : Shared) (batch : Batch) : Prop :=
  ∃ hash transfer, batch.tx_hash = some hash ∧ transfer ∈ shared.history ∧ hasTxHash hash transfer = true ∧
    ∃ origin items, items.Perm (itemsOf shared.db batch.id) ∧ transferMatchesBatch origin items transfer = .ok true

structure Inv (shared : Shared) (pasts : List (Past Job signature)) : Prop where
  ledger : Ledger shared
  told : ∀ past ∈ pasts, Told shared past.history
  vouched : ∀ batch ∈ shared.db.payment_batches, batch.status = .finalized → Vouched shared batch

section Steps

variable {db : Db}

theorem extends_rfl (db : Db) : Extends db db :=
  ⟨fun row member => ⟨row,member,rfl,rfl⟩,fun _ _ => rfl⟩

private theorem extends_setBatch (db : Db) (id : ℕ) (guard : Guard) (fields : Fields) :
    Extends db (setBatch db id guard fields) :=
  ⟨fun _ member => ⟨_,mem_map_of_mem member,touch_id ..,touch_gross ..⟩,fun _ _ => rfl⟩

theorem step_extends {after : Db} (keys : Keys db) (step : LedgerStep db after) : Extends db after := by
  cases step with
  | runtime step =>
    cases step with
    | update => exact extends_setBatch db _ _ _
    | @reserve plan =>
      refine ⟨fun row member => ⟨row,mem_append_left _ member,rfl,rfl⟩,fun row member => ?_⟩
      exact itemsOf_old keys plan member
    | @finalize batch items hash =>
      have kept := extends_setBatch (afterLedger batch items hash db) batch.id
      exact ⟨(kept _ _).rows,(kept (settledGuard batch.status) {}).items⟩
    | @release batch releasedAt =>
      have kept := extends_setBatch db batch.id (releaseGuard batch.status) (releaseFields releasedAt)
      exact ⟨kept.rows,kept.items⟩
  | @unlock batchId releasedAt confirm =>
    have kept := extends_setBatch (released batchId db) batchId (unlockGuard confirm) (unlockFields confirm releasedAt)
    exact ⟨kept.rows,kept.items⟩

theorem known_batch (keys : Keys db) {id : ℕ} {items : List Item} (own : items.Perm (itemsOf db id))
    (filled : items ≠ []) : ∃ batch ∈ db.payment_batches, batch.id = id := by
  obtain ⟨item,inside⟩ := exists_mem_of_ne_nil items filled
  obtain ⟨there,same⟩ := mem_filter.mp (own.subset inside)
  obtain ⟨batch,member,here⟩ := keys.itemBatch item there
  exact ⟨batch,member,here.trans (of_decide_eq_true same)⟩

theorem Told.extend {shared next : Shared} {log : Log} (told : Told shared log) (keys : Keys shared.db)
    (tables : Extends shared.db next.db) (wallet : shared.history ⊆ next.history) : Told next log := by
  refine ⟨?_,?_,fun transfer reported => wallet (told.transfers transfer reported)⟩
  · intro id gross known
    obtain ⟨row,member,rfl,rfl⟩ := told.rows id gross known
    exact tables.rows row member
  · intro id items known filled
    have own := told.items id items known filled
    obtain ⟨batch,member,rfl⟩ := known_batch keys own filled
    rw [tables.items batch member]
    exact own

theorem step_ledger {shared : Shared} (ledger : Ledger shared) (step : LedgerStep shared.db db)
    {next : Shared} (here : next.db = db) (same : next.funded = shared.funded) : Ledger next := by
  refine ⟨?_,?_,?_,?_,?_⟩
  · exact here ▸ step_keys ledger.keys step
  · exact here ▸ step_pointers ledger.keys ledger.pointers step
  · exact here ▸ step_rows ledger.rows step
  · exact here ▸ step_hashes ledger.hashes step
  · rw [here,same]
    exact step_books ledger.keys ledger.pointers ledger.books step

end Steps

section Events

variable {process : ℕ} {shared next : Shared} {event : Event signature}

structure EventTold (shared : Shared) (event : Event signature) : Prop where
  rows : ∀ row ∈ rowsTold event, ∃ other ∈ shared.db.payment_batches, other.id = row.id ∧
    other.total_gross = row.total_gross
  items : ∀ id items, itemsTold event = some (id,items) → items.Perm (itemsOf shared.db id)
  transfers : ∀ transfer ∈ transfersTold event, transfer ∈ shared.history

theorem Told.add {log : Log} (told : Told shared log) (now : EventTold shared event) : Told shared (event::log) := by
  refine ⟨?_,?_,?_⟩
  · intro id gross known
    obtain ⟨other,member,row,inside,rfl,rfl⟩ := known
    rcases mem_cons.mp member with rfl | old
    · exact now.rows row inside
    · exact told.rows _ _ ⟨other,old,row,inside,rfl,rfl⟩
  · intro id items known filled
    obtain ⟨other,member,same⟩ := known
    rcases mem_cons.mp member with rfl | old
    · exact now.items id items same
    · exact told.items id items ⟨other,old,same⟩ filled
  · intro transfer reported
    obtain ⟨other,member,inside⟩ := reported
    rcases mem_cons.mp member with rfl | old
    · exact now.transfers transfer inside
    · exact told.transfers transfer ⟨other,old,inside⟩

theorem nothing_told (rows : rowsTold event = []) (items : itemsTold event = none)
    (transfers : transfersTold event = []) :
    EventTold shared event := by
  refine ⟨?_,?_,?_⟩
  · intro row member
    rw [rows] at member
    cases member
  · intro id items' same
    rw [items] at same
    cases same
  · intro transfer member
    rw [transfers] at member
    cases member

private theorem selectItems_perm (db : Db) (id : ℕ) : (selectItems db id).Perm (itemsOf db id) := perm_insertionSort _ _

theorem reports_history {reply : RpcResponse} (reports : shared.reports reply = true) {rpc : Rpc} {transfer : Json}
    (member : transfer ∈ transfersTold ⟨.wallet rpc,.ok reply⟩) : transfer ∈ shared.history := by
  obtain ⟨record,inside,same⟩ := any_eq_true.mp (all_eq_true.mp reports transfer member)
  rw [Json.same_eq same]
  exact inside

theorem silent_told (silent : Silent process shared event) : EventTold shared event := by
  obtain ⟨call,outcome⟩ := event
  cases outcome with
  | error failure => cases call <;> exact nothing_told rfl rfl rfl
  | ok reply =>
    cases call with
    | wallet rpc =>
      cases rpc with
      | transfer => exact silent.elim
      | _ =>
        refine ⟨?_,?_,fun transfer member => reports_history silent member⟩
        · intro row member
          cases member
        · intro id items same
          cases same
    | selectBatch id =>
      refine ⟨?_,?_,?_⟩
      · intro row member
        have found : selectBatch shared.db id = some row := silent ▸ Option.mem_toList.mp member
        exact ⟨row,mem_of_find?_eq_some found,rfl,rfl⟩
      · intro id items same
        cases same
      · intro transfer member
        cases member
    | selectOpenBatches =>
      refine ⟨?_,?_,?_⟩
      · intro row member
        have chosen : row ∈ selectOpenBatches shared.db := silent ▸ member
        have inside := (mem_insertionSort _).mp chosen
        exact ⟨row,(mem_filter.mp inside).1,rfl,rfl⟩
      · intro id items same
        cases same
      · intro transfer member
        cases member
    | selectItems id =>
      refine ⟨?_,?_,?_⟩
      · intro row member
        cases member
      · intro other items same
        cases same
        have read : reply = selectItems shared.db id := silent
        rw [read]
        exact selectItems_perm shared.db id
      · intro transfer member
        cases member
    | reserve plan => exact silent.elim
    | _ => exact nothing_told rfl rfl rfl

end Events

section Calls

variable {process : ℕ} {shared next : Shared} {after : Db} {job : Job} {log : Log}

inductive JobStep (db : Db) : Job → Db → Prop
  | payments {config : Config} {cycles : ℕ} {after : Db} (step : RuntimeStep db after) :
    JobStep db (.payments config cycles) after
  | unlock {options : UnlockOptions} {batchId releasedAt : ℕ} {confirm : Bool}
    (current : (db.payment_batches.countP fun row => row.id = batchId ∧ (unlockGuard confirm).admits row) = 1) :
    JobStep db (.unlock options) (afterUnlock batchId confirm releasedAt db)

theorem JobStep.ledger {db : Db} (step : JobStep db job after) : LedgerStep db after := by
  cases step with
  | payments step => exact .runtime step
  | unlock current => exact .unlock current

private theorem update_step {id : ℕ} {fields : Fields} {guard : Guard} {affectedRows : ℕ} {db : Db}
    (updated : updateBatches id fields guard db = .ok (affectedRows,after))
    (allowed : settling log (.updateBatch id fields guard)) : after = db ∨ RuntimeStep db after := by
  obtain ⟨count,rfl,free⟩ := updateBatches_ok updated
  obtain ⟨expected,one,updates⟩ := allowed
  by_cases none : affectedRows = 0
  · exact .inl (setBatch_miss (count.symm.trans none))
  · refine .inr (.update one updates.permitted ?_)
    intro hash assigned other member different same
    have clear := free none
    simp only [hashTaken,assigned,any_eq_false] at clear
    exact clear other member (by simp [different,same])

theorem finalize_step {batch : Batch} {items : List Item} {hash txKey : String} {finalizedAt transactionId : ℕ}
    (ledger : Ledger shared) (told : Told shared log) (finalizable : Finalizable log batch items hash)
    (yields : (finalizeTransaction batch items hash txKey finalizedAt).Yields shared.db transactionId after) :
    RuntimeStep shared.db after ∧ items.Perm (itemsOf shared.db batch.id) := by
  obtain ⟨rfl,finalizes⟩ := finalize_writes yields
  have own := told.items batch.id items finalizable.told finalizes.filled
  obtain ⟨row,member,id,gross⟩ := told.rows _ _ finalizable.known
  have total : batch.total_gross = (items.map Item.gross_amount).sum := by
    rw [← gross,ledger.books.totals row member,grossOf,id]
    exact ((own.map Item.gross_amount).sum_eq).symm
  exact ⟨.finalize finalizable.status finalizable.canonical total own finalizes,own⟩

theorem performed_step {call : Call} {outcome : signature.Outcome call}
    (ledger : Ledger shared) (told : Told shared log) (allowed : (contractOf job).allowed log call)
    (performed : Performed process shared ⟨call,outcome⟩ next) :
    next.db = shared.db ∨ JobStep shared.db job next.db := by
  cases performed with
  | silent | transfer | getLock | releaseLock => exact .inl rfl
  | update updated =>
    cases job with
    | unlock => exact allowed.elim
    | payments => exact (update_step updated allowed).imp id .payments
  | reserve yields =>
    cases job with
    | unlock => exact allowed.elim
    | payments =>
      obtain ⟨_,rfl,reserves⟩ := reserve_writes yields
      exact .inr (.payments (.reserve allowed.1 reserves))
  | finalize yields =>
    cases job with
    | unlock => exact allowed.elim
    | payments => exact .inr (.payments (finalize_step ledger told allowed yields).1)
  | release yields =>
    cases job with
    | unlock => exact allowed.elim
    | payments =>
      rcases release_writes ledger.keys.batches yields with same | ⟨rfl,current⟩
      · exact .inl same
      · exact .inr (.payments (.release allowed current))
  | unlock yields =>
    cases job with
    | payments => exact allowed.elim
    | unlock =>
      obtain ⟨rfl,current⟩ := unlock_writes yields
      exact .inr (.unlock current)

theorem performed_history {event : Event signature} (performed : Performed process shared event next) :
    next.history = shared.history ∧ next.funded = shared.funded := by
  cases performed <;> exact ⟨rfl,rfl⟩

theorem performed_told {call : Call} {outcome : signature.Outcome call}
    (keys : Keys shared.db) (allowed : (contractOf job).allowed log call)
    (performed : Performed process shared ⟨call,outcome⟩ next) : EventTold next ⟨call,outcome⟩ := by
  cases performed with
  | silent memory lastPaymentCycle silent =>
    have before := silent_told silent
    exact ⟨before.rows,before.items,before.transfers⟩
  | transfer reports =>
    refine ⟨?_,?_,?_⟩
    · intro row member
      cases member
    · intro id items same
      cases same
    · intro transfer member
      exact reports_history reports member
  | @reserve plan outcome batchId db yields acknowledged =>
    obtain ⟨rfl,rfl,reserves⟩ := reserve_writes yields
    cases outcome with
    | error failure => exact nothing_told rfl rfl rfl
    | ok reply =>
      obtain rfl := acknowledged reply rfl
      refine ⟨?_,?_,?_⟩
      · intro row member
        obtain rfl := mem_singleton.mp member
        exact ⟨_,mem_append_right _ (mem_singleton_self _),rfl,rfl⟩
      · intro id items same
        cases same
        have own := itemsOf_reserve keys plan shared.db.nextBatchId
        rw [if_pos rfl] at own
        change Perm _ (itemsOf (afterReserve plan shared.db) _)
        rw [own]
      · intro transfer member
        cases member
  | update | finalize | release | unlock | getLock | releaseLock => exact nothing_told rfl rfl rfl

end Calls

section Vouchers

variable {db : Db}

def Older (db : Db) (batch : Batch) : Prop :=
  ∃ old ∈ db.payment_batches, old.id = batch.id ∧ old.status = .finalized ∧ old.tx_hash = batch.tx_hash

theorem older_rfl (member : batch ∈ db.payment_batches) (final : batch.status = .finalized) :
    Older db batch := ⟨batch,member,rfl,final,rfl⟩

theorem older_setBatch {id : ℕ} {guard : Guard} {fields : Fields}
    (kept : ∀ old ∈ db.payment_batches, guard.admits old = true → (old.assign fields).status = .finalized →
      old.status = .finalized ∧ (old.assign fields).tx_hash = old.tx_hash)
    (member : batch ∈ (setBatch db id guard fields).payment_batches) (final : batch.status = .finalized) :
    Older db batch := by
  obtain ⟨old,inside,same,rfl | ⟨_,admits,rfl⟩⟩ := mem_setBatch member
  · exact older_rfl inside final
  · obtain ⟨before,hash⟩ := kept old inside admits final
    exact ⟨old,inside,rfl,before,hash.symm⟩

private theorem older_close {id : ℕ} {guard : Guard} {fields : Fields}
    (closes : fields.status = some .retryable) (member : batch ∈ (setBatch db id guard fields).payment_batches)
    (final : batch.status = .finalized) : Older db batch := by
  refine older_setBatch ?_ member final
  intro old _ _ now
  simp [Batch.assign,closes] at now

variable {process : ℕ} {shared next : Shared} {job : Job} {log : Log} {call : Call}
  {outcome : signature.Outcome call} {batch : Batch}

theorem performed_older (ledger : Ledger shared) (told : Told shared log) (allowed : (contractOf job).allowed log call)
    (performed : Performed process shared ⟨call,outcome⟩ next) (member : batch ∈ next.db.payment_batches)
    (final : batch.status = .finalized) : Older shared.db batch ∨
      ∃ items hash, batch.tx_hash = some hash ∧ items ≠ [] ∧ items.Perm (itemsOf shared.db batch.id) ∧
        Matched log items hash := by
  cases performed with
  | silent | transfer | getLock | releaseLock => exact .inl (older_rfl member final)
  | update updated =>
    cases job with
    | unlock => exact allowed.elim
    | payments =>
      obtain ⟨_,rfl,_⟩ := updateBatches_ok updated
      obtain ⟨expected,one,updates⟩ := allowed
      refine .inl (older_setBatch ?_ member final)
      intro old _ admits now
      have permitted : Permitted _ old.status := admits_single one admits ▸ updates.permitted
      have before := (permitted_final permitted).mp now
      exact ⟨before,(permitted_settled permitted before).1⟩
  | reserve yields =>
    obtain ⟨_,rfl,_⟩ := reserve_writes yields
    rcases mem_append.mp member with old | new
    · exact .inl (older_rfl old final)
    · rw [mem_singleton.mp new] at final
      cases final
  | @finalize origin items hash txKey finalizedAt outcome transactionId db yields =>
    cases job with
    | unlock => exact allowed.elim
    | payments =>
      have finalizable : Finalizable log origin items hash := allowed
      obtain ⟨_,own⟩ := finalize_step ledger told finalizable yields
      obtain ⟨rfl,finalizes⟩ := finalize_writes yields
      obtain ⟨old,inside,same,rfl | ⟨here,_,rfl⟩⟩ := mem_setBatch member
      · exact .inl (older_rfl inside final)
      · refine .inr ⟨items,hash,rfl,finalizes.filled,?_,finalizable.matched⟩
        rw [same,here]
        exact own
  | release yields =>
    rcases release_writes ledger.keys.batches yields with rfl | ⟨rfl,_⟩
    · exact .inl (older_rfl member final)
    · exact .inl (older_close rfl member final)
  | unlock yields =>
    obtain ⟨rfl,_⟩ := unlock_writes yields
    exact .inl (older_close rfl member final)

theorem Vouched.extend {other : Batch} (vouched : Vouched shared other) (id : other.id = batch.id)
    (hash : other.tx_hash = batch.tx_hash) (wallet : shared.history ⊆ next.history)
    (items : itemsOf next.db batch.id = itemsOf shared.db batch.id) : Vouched next batch := by
  obtain ⟨text,transfer,same,inside,found,origin,told,own,matching⟩ := vouched
  refine ⟨text,transfer,hash ▸ same,wallet inside,found,origin,told,?_,matching⟩
  rw [items,← id]
  exact own

end Vouchers

section Rule

variable {shared next : Shared}
  {process : ℕ} {call : Call} {pasts : List (Past Job signature)} {occurrence : Occurrence}

theorem tells_truth {outcome : signature.Outcome call} (ledger : Ledger shared)
    (performed : Performed process shared ⟨call,outcome⟩ next) : tells call outcome := by
  unfold tells
  split
  next rows =>
    cases performed with
    | silent memory lastPaymentCycle silent =>
      intro row member
      have chosen : row ∈ selectOpenBatches shared.db := silent ▸ member
      have inside := (mem_insertionSort _).mp chosen
      exact ledger.rows row (mem_filter.mp inside).1
  next walletMin rows =>
    cases performed with
    | silent memory lastPaymentCycle silent =>
      have read : rows = selectPayoutRows shared.db walletMin := silent
      have order := perm_insertionSort (fun left right : BalanceRow => left.id ≤ right.id)
        (shared.db.balance.filter fun row => (walletMin : ℤ) ≤ row.amount && row.pending_batch_id.isNone)
      rw [read,selectPayoutRows,map_map]
      change (map BalanceRow.id _).Nodup
      rw [(order.map BalanceRow.id).nodup_iff]
      exact ledger.keys.balances.sublist (filter_sublist.map _)
  · exact trivial

theorem fresh_inv (fresh : Fresh shared) : Inv shared [] := by
  have none (batch : Batch) (member : batch ∈ shared.db.payment_batches) : False := by
    rw [fresh.batches] at member
    cases member
  have noItem (item : Item) (member : item ∈ shared.db.payment_batch_items) : False := by
    rw [fresh.items] at member
    cases member
  have nothingSettled : settledItems shared.db = [] := by
    unfold settledItems
    rw [fresh.items]
    rfl
  refine ⟨⟨?_,?_,?_,?_,?_⟩,?_,?_⟩
  · refine ⟨?_,fun batch member => (none batch member).elim,fresh.balances,
      fun item member => (noItem item member).elim,fun item member => (noItem item member).elim,fun id => ?_⟩
    · rw [fresh.batches]
      exact nodup_nil
    · rw [itemsOf,fresh.items]
      exact nodup_nil
  · intro row member id
    rw [fresh.free row member]
    constructor
    · intro same
      cases same
    · intro held
      obtain ⟨batch,inside,_⟩ := held.2
      exact (none batch inside).elim
  · exact fun batch member => (none batch member).elim
  · exact fun batch member => (none batch member).elim
  · refine ⟨?_,fun batch member => (none batch member).elim,fun item member => (noItem item member).elim,
      fresh.transactions,fresh.hashes,fresh.freshTransaction,fresh.freshPayment,
      fun batch member => (none batch member).elim⟩
    intro row member
    rw [settledGross,nothingSettled,Sql.sumAt_nil,fresh.funded row member,sub_zero]
  · intro past member
    cases member
  · exact fun batch member => (none batch member).elim

theorem told_nil (shared : Shared) : Told shared [] := by
  refine ⟨?_,?_,?_⟩
  · intro id gross known
    obtain ⟨event,member,_⟩ := known
    cases member
  · intro id items known
    obtain ⟨event,member,_⟩ := known
    cases member
  · intro transfer reported
    obtain ⟨event,member,_⟩ := reported
    cases member

section

variable {job : Job}
  {log : Log}
  {outcome : signature.Outcome call}
  (ledger : Ledger shared)
  (told : Told shared log)
  (allowed : (contractOf job).allowed log call)
  (performed : Performed process shared ⟨call,outcome⟩ next)
include ledger told allowed performed

private theorem performed_extends : Extends shared.db next.db := by
  rcases performed_step ledger told allowed performed with same | step
  · rw [same]
    exact extends_rfl _
  · exact step_extends ledger.keys step.ledger

theorem performed_ledger : Ledger next := by
  have funded := (performed_history performed).2
  rcases performed_step ledger told allowed performed with same | step
  · refine ⟨same ▸ ledger.keys,same ▸ ledger.pointers,same ▸ ledger.rows,same ▸ ledger.hashes,?_⟩
    rw [same,funded]
    exact ledger.books
  · exact step_ledger ledger step.ledger rfl funded

end

theorem performed_inv {index : ℕ} {past : Past Job signature}
    {outcome : signature.Outcome call} (inv : Inv shared pasts) (found : pasts[index]? = some past)
    (allowed : (contractOf past.job).allowed past.history call)
    (performed : Performed index shared ⟨call,outcome⟩ next) :
    Inv next (pasts.set index (System.Past.add past call outcome)) := by
  have told := inv.told past (mem_of_getElem? found)
  have tables := performed_extends inv.ledger told allowed performed
  have wallet : shared.history ⊆ next.history := by
    rw [(performed_history performed).1]
    exact Subset.refl _
  refine ⟨performed_ledger inv.ledger told allowed performed,?_,?_⟩
  · intro other member
    rcases mem_or_eq_of_mem_set member with old | rfl
    · exact (inv.told other old).extend inv.ledger.keys tables wallet
    · exact (told.extend inv.ledger.keys tables wallet).add (performed_told inv.ledger.keys allowed performed)
  · intro batch member final
    rcases performed_older inv.ledger told allowed performed member final with
      ⟨old,inside,id,before,hash⟩ | ⟨items,hash,same,filled,own,transfer,reported,found,origin,matching⟩
    · exact (inv.vouched old inside before).extend id hash wallet (id ▸ tables.items old inside)
    · obtain ⟨row,inside,id⟩ := known_batch inv.ledger.keys own filled
      refine ⟨hash,transfer,same,wallet (told.transfers transfer reported),found,origin,items,?_,matching⟩
      rw [← id,tables.items row inside,id]
      exact own

def credited (id : ℕ) (amount : ℕ) (balance : List BalanceRow) : List BalanceRow :=
  balance.map fun row => if row.id = id then {row with amount := row.amount + amount} else row

private theorem credited_ids (id amount : ℕ) (balance : List BalanceRow) :
    (credited id amount balance).map BalanceRow.id = balance.map BalanceRow.id := by
  rw [credited,map_map]
  apply map_congr_left
  intro row _
  simp only [comp_apply]
  split <;> rfl

theorem credit_ledger (ledger : Ledger shared) {id amount : ℕ}
    (occurred : occur (.credit id amount) shared = some next) : Ledger next := by
  cases occurred
  have pendings (row : BalanceRow) (member : row ∈ credited id amount shared.db.balance) :
      ∃ old ∈ shared.db.balance, row.id = old.id ∧ row.pending_batch_id = old.pending_batch_id ∧
        row.amount = if old.id = id then old.amount + amount else old.amount := by
    obtain ⟨old,inside,rfl⟩ := mem_map.mp member
    refine ⟨old,inside,?_⟩
    split <;> exact ⟨rfl,rfl,rfl⟩
  refine ⟨keys_setBalance ledger.keys (credited_ids id amount _),?_,ledger.rows,ledger.hashes,?_,ledger.books.totals,
    ledger.books.nets,ledger.books.transactions,ledger.books.hashes,ledger.books.freshTransaction,
    ledger.books.freshPayment,ledger.books.settled⟩
  · intro row member other
    obtain ⟨old,inside,same,pending,_⟩ := pendings row member
    rw [same,pending]
    exact ledger.pointers old inside other
  · intro row member
    obtain ⟨old,inside,same,_,paid⟩ := pendings row member
    have before := ledger.books.amounts old inside
    change row.amount = update shared.funded id (shared.funded id + amount) row.id - settledGross shared.db row.id
    rw [paid,same]
    split
    next here =>
      rw [← here,update_self]
      omega
    next away =>
      rw [update_of_ne away]
      exact before

private theorem addBalance_ledger (ledger : Ledger shared) {added : BalanceRow}
    (occurred : occur (.addBalance added) shared = some next) : Ledger next := by
  simp only [occur] at occurred
  split at occurred
  · cases occurred
  next fits =>
    cases occurred
    simp only [not_or,not_not] at fits
    obtain ⟨new,free,_⟩ := fits
    have unheld (item : Item) (member : item ∈ shared.db.payment_batch_items) : item.balance_id ≠ added.id := by
      intro same
      obtain ⟨row,inside,here⟩ := ledger.keys.itemBalance item member
      exact new (same ▸ here ▸ mem_map_of_mem inside)
    refine ⟨⟨ledger.keys.batches,ledger.keys.fresh,?_,ledger.keys.itemBatch,?_,ledger.keys.itemOnce⟩,?_,ledger.rows,
      ledger.hashes,?_,ledger.books.totals,ledger.books.nets,ledger.books.transactions,ledger.books.hashes,
      ledger.books.freshTransaction,ledger.books.freshPayment,ledger.books.settled⟩
    · change ((shared.db.balance ++ [added]).map BalanceRow.id).Nodup
      rw [map_append,nodup_append]
      refine ⟨ledger.keys.balances,by simp,?_⟩
      intro id member other last same
      exact new (mem_singleton.mp last ▸ same ▸ member)
    · intro item member
      obtain ⟨row,inside,same⟩ := ledger.keys.itemBalance item member
      exact ⟨row,mem_append_left _ inside,same⟩
    · intro row member id
      rcases mem_append.mp member with old | last
      · exact ledger.pointers row old id
      · rw [mem_singleton.mp last,free]
        constructor
        · intro same
          cases same
        · intro held
          obtain ⟨item,inside,_,same⟩ := held.1
          exact (unheld item inside same).elim
    · intro row member
      change row.amount = update shared.funded added.id added.amount row.id - settledGross shared.db row.id
      rcases mem_append.mp member with old | last
      · have away : row.id ≠ added.id := fun same => new (same ▸ mem_map_of_mem old)
        rw [update_of_ne away]
        exact ledger.books.amounts row old
      · rw [mem_singleton.mp last,update_self,settledGross,Sql.sumAt_absent,sub_zero]
        intro held
        obtain ⟨item,inside,same⟩ := mem_map.mp held
        exact unheld item (mem_filter.mp inside).1 same

theorem occurred_tables (occurred : occur occurrence shared = some next) :
    next.db.payment_batches = shared.db.payment_batches ∧ next.db.payment_batch_items = shared.db.payment_batch_items ∧
      shared.history ⊆ next.history := by
  cases occurrence with
  | addBalance added =>
    simp only [occur] at occurred
    split at occurred
    · cases occurred
    · cases occurred
      exact ⟨rfl,rfl,Subset.refl _⟩
  | walletRecord transfer =>
    cases occurred
    exact ⟨rfl,rfl,subset_append_left _ _⟩
  | _ =>
    cases occurred
    exact ⟨rfl,rfl,Subset.refl _⟩

theorem occurred_ledger (ledger : Ledger shared) (occurred : occur occurrence shared = some next) : Ledger next := by
  cases occurrence with
  | credit id amount => exact credit_ledger ledger occurred
  | addBalance added => exact addBalance_ledger ledger occurred
  | _ =>
    cases occurred
    obtain ⟨keys,pointers,rows,hashes,books⟩ := ledger
    exact ⟨⟨keys.batches,keys.fresh,keys.balances,keys.itemBatch,keys.itemBalance,keys.itemOnce⟩,pointers,rows,hashes,
      books.amounts,books.totals,books.nets,books.transactions,books.hashes,books.freshTransaction,books.freshPayment,
      books.settled⟩

theorem occurred_inv (inv : Inv shared pasts) (occurred : occur occurrence shared = some next) : Inv next pasts := by
  obtain ⟨batches,items,wallet⟩ := occurred_tables occurred
  have own (id : ℕ) : itemsOf next.db id = itemsOf shared.db id := by rw [itemsOf,items,itemsOf]
  have tables : Extends shared.db next.db := by
    refine ⟨?_,fun row _ => own row.id⟩
    intro row member
    exact ⟨row,batches ▸ member,rfl,rfl⟩
  refine ⟨occurred_ledger inv.ledger occurred,?_,?_⟩
  · intro past member
    exact (inv.told past member).extend inv.ledger.keys tables wallet
  · intro batch member final
    rw [batches] at member
    exact (inv.vouched batch member final).extend rfl rfl wallet (own batch.id)

theorem rule : System.Rule system Fresh contractOf Inv := by
  constructor
  · exact runJob_meets
  · intro shared fresh
    exact fresh_inv fresh
  · intro shared pasts job inv
    refine ⟨inv.ledger,?_,inv.vouched⟩
    intro past member
    rcases mem_append.mp member with old | new
    · exact inv.told past old
    · rw [mem_singleton.mp new]
      exact told_nil shared
  · intro shared pasts index past call answer outcome next inv found allowed answered
    have done := performed answered
    refine ⟨?_,performed_inv inv found allowed done⟩
    have truth := tells_truth inv.ledger done
    cases past.job <;> exact truth
  · intro shared pasts occurrence next inv occurred
    exact occurred_inv inv occurred

end Rule

section Runs

/-- In every state of every run a balance row points to a batch exactly when it is an item
of it and the batch is open, so it is in at most one open batch, and no closed one holds it. -/
theorem reservation_pointers {world : system.World} (reachable : (system.machine Fresh).Reachable world)
    {row : BalanceRow} (member : row ∈ world.shared.db.balance) :
    (∀ id, row.pending_batch_id = some id ↔ HasItem world.shared.db id row.id ∧ OpenIn world.shared.db id) ∧
    (∀ left right, HasItem world.shared.db left row.id → OpenIn world.shared.db left →
      HasItem world.shared.db right row.id → OpenIn world.shared.db right → left = right) ∧
    ∀ id, ¬OpenIn world.shared.db id → row.pending_batch_id ≠ some id := by
  have ledger := (rule.lawful reachable).invariant.ledger
  refine ⟨ledger.pointers row member,?_,?_⟩
  · intro left right left_item left_open right_item right_open
    exact ledger.pointers.disjoint member left_item left_open right_item right_open
  · intro id closed points
    exact closed ((ledger.pointers row member id).mp points).2

def sampleConfig : Config where
  walletMin := 1
  feeSlewAmount := 0
  feeSlewEnd := 0
  defaultPay := 1
  exchangeMin := 1
  feesForTXN := 0
  denom := 0
  safeWalletFee := 0
  maxPaymentTxns := 10
  feeAddress := "F"

def sampleStart : Shared where
  db := ⟨[⟨1,"A",none,"pplns",10,none⟩],[],[],[],[],[],1,1⟩
  history := []
  lockOwner := none
  memory _ := {}
  lastPaymentCycle := 0
  issued := []
  funded _ := 10
  claims := []

def acts (process : ℕ) (answers : List Answer) : List system.Label := answers.map fun answer => .act process answer

def replies (count : ℕ) : List Answer := List.replicate count .reply

def resultReply (fields : List (String × Json)) : RpcResponse := .json (.obj [("result",.obj fields)])

def planAnswers : List Answer := replies 13 ++ [.fate {}]

def claimAnswers : List Answer :=
  replies 4 ++ [.wallet (resultReply [("unlocked_balance",.num 1000)])] ++ replies 4 ++ [.time 0,.reply]

def claimedLabels : List system.Label :=
  .start (.payments sampleConfig 1) :: acts 0 (planAnswers ++ claimAnswers)

theorem sampleStart_fresh : Fresh sampleStart := by
  constructor
  · rfl
  · rfl
  · exact nodup_singleton 1
  · intro row member
    rw [mem_singleton.mp member]
  · intro row member
    rw [mem_singleton.mp member]
    decide
  · intro row member
    rw [mem_singleton.mp member]
    rfl
  · exact nodup_nil
  · exact nodup_nil
  · intro record member
    cases member
  · intro payment member
    cases member
  · rfl
  · rfl
  · rfl

theorem sample_reachable {labels : List system.Label} {world : system.World}
    (ran : (system.machine Fresh).run ⟨sampleStart,[]⟩ labels = some world) :
    (system.machine Fresh).Reachable world := by
  have fresh : (system.machine Fresh).initial ⟨sampleStart,[]⟩ := ⟨sampleStart_fresh,rfl⟩
  exact Machine.reachable_run fresh ran

theorem reservation_pointers_claimed : ∃ world, (system.machine Fresh).run ⟨sampleStart,[]⟩ claimedLabels = some world ∧
    HasItem world.shared.db 1 1 ∧ OpenIn world.shared.db 1 := by
  have ended : ((system.machine Fresh).run ⟨sampleStart,[]⟩ claimedLabels).any (fun world =>
      world.shared.db.balance = [⟨1,"A",none,"pplns",10,some 1⟩]) = true := by
    decide +kernel
  obtain ⟨world,ran,facts⟩ := (Option.any_eq_true _ _).mp ended
  have pinned := of_decide_eq_true facts
  have member : (⟨1,"A",none,"pplns",10,some 1⟩ : BalanceRow) ∈ world.shared.db.balance := by
    rw [pinned]
    exact List.mem_singleton_self _
  exact ⟨world,ran,((reservation_pointers (sample_reachable ran) member).1 1).mp rfl⟩

end Runs
end NodejsPool.Payments
