import NodejsPool.Payments.Finalization
import NodejsPool.Payments.Solvency

/-! Conservation of the payment ledger over whole runs: what was paid in, what finalized
batches took, and the rows that record it. -/
namespace NodejsPool.Payments
open Async

section Rule

variable {index : ℕ} {shared next : Shared} {pasts : List (Past Job signature)} {past : Past Job signature}
  {call : Call} {outcome : signature.Outcome call}

def standings (pasts : List (Past Job signature)) : List Standing := pasts.map fun past => standing past.history

def Backed (shared : Shared) (pasts : List (Past Job signature)) : Prop :=
  Solvency shared.db shared.lockOwner (standings pasts)

theorem standings_add (pasts : List (Past Job signature)) (index : ℕ) (past : Past Job signature) (call : Call)
    (outcome : signature.Outcome call) : standings (pasts.set index (System.Past.add past call outcome)) =
      (standings pasts).set index ((standing past.history).see ⟨call,outcome⟩) := List.map_set

theorem standings_getElem? (found : pasts[index]? = some past) :
    (standings pasts)[index]? = some (standing past.history) := by
  rw [standings,List.getElem?_map,found]
  rfl

theorem set_self {A : Type} {values : List A} {index : ℕ} {value : A} (found : values[index]? = some value) :
    values.set index value = values := by
  apply List.ext_getElem?
  intro other
  rw [List.getElem?_set]
  split
  next here =>
    obtain ⟨bound,same⟩ := List.getElem?_eq_some_iff.mp found
    subst here
    rw [if_pos bound,found]
  · rfl

theorem standings_same (found : pasts[index]? = some past)
    (same : (standing past.history).see ⟨call,outcome⟩ = standing past.history) :
    standings (pasts.set index (System.Past.add past call outcome)) = standings pasts := by
  rw [standings_add,same,set_self (standings_getElem? found)]

theorem silent_backed (backed : Backed shared pasts) (found : pasts[index]? = some past)
    (silent : Silent index shared ⟨call,outcome⟩) :
    Solvency shared.db shared.lockOwner ((standings pasts).set index ((standing past.history).see ⟨call,outcome⟩)) := by
  have here := standings_getElem? found
  unfold Standing.see
  split
  · exact Solvency.ask backed here
  next walletMin rows same =>
    rw [same] at silent
    obtain rfl : rows = selectPayoutRows shared.db walletMin := silent
    exact Solvency.read backed here walletMin
  next plan id same =>
    rw [same] at silent
    exact silent.elim
  next same =>
    rw [same] at silent
    exact Solvency.clear backed here (silent rfl)
  · rw [set_self here]
    exact backed

theorem drawn_solvent (ledger : Ledger shared) (backed : Backed shared pasts) (found : pasts[index]? = some past)
    {plan : BatchPlan} (drawn : Drawn past.history plan) (owns : shared.lockOwner = some index) :
    Solvent (afterReserve plan shared.db) shared.db.nextBatchId := by
  intro item member row inside same
  rw [itemsOf_reserve ledger.keys,if_pos rfl] at member
  obtain ⟨position,bound,rfl⟩ := List.mem_iff_getElem.mp member
  rw [buildItemRecords,List.length_mapIdx] at bound
  simp only [buildItemRecords,List.getElem_mapIdx] at same ⊢
  obtain ⟨free,planned,listed,id,enough⟩ := drawn _ (List.getElem_mem bound)
  obtain ⟨old,there,here,holds,_⟩ := Solvency.plan backed index _ owns (standings_getElem? found) planned listed
    (id ▸ free)
  obtain ⟨before,before_mem,before_id,amount⟩ := pinned_row inside
  have equal : before = old := row_eq ledger.keys before_mem there
    (before_id.trans (same.trans (id.symm.trans here.symm)))
  calc
    _ ≤ planned.amount := enough
    _ ≤ old.amount := holds
    _ = row.amount := equal ▸ amount

private theorem reserve_took (ledger : Ledger shared) (plan : BatchPlan) :
    ∀ row ∈ (afterReserve plan shared.db).balance, row.pending_batch_id = some shared.db.nextBatchId →
      row.id ∈ plan.items.map PayoutItem.balanceId := by
  intro row member points
  obtain ⟨old,inside,rfl⟩ := List.mem_map.mp member
  split at points
  next pins =>
    rw [if_pos pins]
    simp only [Bool.and_eq_true,decide_eq_true_eq] at pins
    exact pins.2
  · obtain ⟨batch,there,same,_⟩ := ((ledger.pointers old inside _).mp points).2
    exact (Nat.ne_of_lt (ledger.keys.fresh batch there) same).elim

theorem performed_backed (inv : Inv shared pasts) (backed : Backed shared pasts) (found : pasts[index]? = some past)
    (allowed : (contractOf past.job).allowed past.history call)
    (performed : Performed index shared ⟨call,outcome⟩ next) :
    Backed next (pasts.set index (System.Past.add past call outcome)) := by
  have inside := List.mem_of_getElem? found
  have here := standings_getElem? found
  have ledger := inv.ledger
  unfold Backed
  cases performed with
  | silent memory lastPaymentCycle silent =>
    rw [standings_add]
    exact silent_backed backed found silent
  | transfer =>
    rw [standings_same found rfl]
    exact backed
  | update updated =>
    cases job : past.job with
    | unlock =>
      rw [job] at allowed
      exact allowed.elim
    | payments =>
      rw [job] at allowed
      obtain ⟨expected,one,updates⟩ := allowed
      obtain ⟨_,rfl,_⟩ := updateBatches_ok updated
      rw [standings_same found rfl]
      exact Solvency.update backed one updates.permitted (List.mem_of_getElem? here) updates.cleared
  | @reserve plan outcome batchId db yields acknowledged =>
    cases job : past.job with
    | unlock =>
      rw [job] at allowed
      exact allowed.elim
    | payments =>
      rw [job] at allowed
      obtain ⟨rfl,rfl,_⟩ := reserve_writes yields
      have reserved := Solvency.reserve backed ledger.keys plan
      cases outcome with
      | error failure =>
        rw [standings_same found rfl]
        exact reserved
      | ok reply =>
        obtain rfl := acknowledged reply rfl
        rw [standings_add]
        exact reserved.draw here (Nat.lt_succ_self _) (drawn_solvent ledger backed found allowed.2)
          (reserve_took ledger plan)
  | finalize yields =>
    cases job : past.job with
    | unlock =>
      rw [job] at allowed
      exact allowed.elim
    | payments =>
      rw [job] at allowed
      have own := (finalize_step ledger (inv.told past inside) allowed yields).2
      obtain ⟨rfl,finalizes⟩ := finalize_writes yields
      rw [standings_same found rfl]
      exact Solvency.finalize backed ledger.keys ledger.pointers (Finalizable.status allowed) own finalizes
  | release yields =>
    rw [standings_same found rfl]
    rcases release_writes ledger.keys.batches yields with rfl | ⟨rfl,_⟩
    · exact backed
    · exact Solvency.close backed rfl
  | unlock yields =>
    obtain ⟨rfl,_⟩ := unlock_writes yields
    rw [standings_same found rfl]
    exact Solvency.close backed rfl
  | getLock =>
    rw [standings_add]
    apply (Solvency.ask backed here).pass
    intro other owns
    cases owner : shared.lockOwner with
    | some holder =>
      rw [owner] at owns
      exact .inl owns
    | none =>
      rw [owner] at owns
      obtain rfl : index = other := Option.some.inj owns
      refine .inr ?_
      intro standing there
      rw [List.getElem?_set_self (List.getElem?_eq_some_iff.mp here).1] at there
      cases there
      exact ⟨rfl,rfl⟩
  | releaseLock =>
    rw [standings_same found rfl]
    apply Solvency.pass backed
    intro other owns
    exact .inl (Option.filter_eq_some_iff.mp owns).1

theorem fresh_backed (fresh : Fresh shared) : Backed shared [] := by
  refine ⟨fresh.solvent,?_,?_,?_,?_,?_⟩
  · intro batch member
    rw [fresh.batches] at member
    cases member
  · intro standing member
    cases member
  · intro standing member
    cases member
  · intro index owner _ found
    cases found
  · intro index owner _ found
    cases found

theorem started_backed (backed : Backed shared pasts) (job : Job) : Backed shared (pasts ++ [⟨job,[]⟩]) := by
  unfold Backed standings
  rw [List.map_append]
  exact Solvency.start backed

private theorem occurred_backed {occurrence : Occurrence} (inv : Inv shared pasts) (backed : Backed shared pasts)
    (occurred : occur occurrence shared = some next) : Backed next pasts := by
  have kept := (occurred_inv inv occurred).ledger.keys.balances
  obtain ⟨batches,items,_⟩ := occurred_tables occurred
  cases occurrence with
  | credit id amount =>
    cases occurred
    refine Solvency.credit backed batches items rfl inv.ledger.keys ?_ ?_ kept
    · intro row member
      obtain ⟨old,inside,rfl⟩ := List.mem_map.mp member
      have positive := Solvency.positive backed old inside
      split
      · change 0 ≤ old.amount + amount
        omega
      · exact positive
    · intro row member
      refine ⟨_,List.mem_map_of_mem member,?_⟩
      split
      · refine ⟨rfl,?_,rfl⟩
        change row.amount ≤ row.amount + amount
        omega
      · exact ⟨rfl,le_refl _,rfl⟩
  | addBalance added =>
    simp only [occur] at occurred
    split at occurred
    · cases occurred
    next fits =>
      cases occurred
      simp only [not_or,not_lt] at fits
      refine Solvency.credit backed rfl rfl rfl inv.ledger.keys ?_ ?_ kept
      · intro row member
        rcases List.mem_append.mp member with old | new
        · exact Solvency.positive backed row old
        · rw [List.mem_singleton.mp new]
          exact fits.2.2
      · intro row member
        exact ⟨row,List.mem_append_left _ member,rfl,le_refl _,rfl⟩
  | dropLock =>
    cases occurred
    apply Solvency.pass backed
    intro other owns
    cases owns
  | setUser user =>
    cases occurred
    have before : Solvency shared.db shared.lockOwner (standings pasts) := backed
    refine Solvency.credit before rfl rfl rfl inv.ledger.keys before.positive ?_ kept
    intro row member
    exact ⟨row,member,rfl,le_refl _,rfl⟩
  | walletRecord transfer | connectionClose process =>
    cases occurred
    exact backed

theorem solvencyRule : System.Extension system Fresh contractOf Inv Backed := by
  constructor
  · intro shared fresh
    exact fresh_backed fresh
  · intro shared pasts job backed
    exact started_backed backed job
  · intro shared pasts index past call answer outcome next inv backed found allowed answered
    exact performed_backed inv backed found allowed (performed answered)
  · intro shared pasts occurrence next inv backed occurred
    exact occurred_backed inv backed occurred

end Rule

section Runs

/-- The one transaction of a settled batch, and its payments: together they are the gross
amounts of its items. -/
def Recorded (db : Db) (batch : Batch) : Prop :=
  ∃ record ∈ db.transactions, batch.transaction_id = some record.id ∧ record.xmr_amt = grossOf db batch.id ∧
    (∀ other ∈ db.transactions, batch.transaction_id = some other.id ∨ batch.tx_hash = some other.transaction_hash →
      other = record) ∧
    let payments := db.payments.filter fun payment => payment.transaction_id = record.id
    payments.Perm ((itemsOf db batch.id).map (paymentRow record.id)) ∧
    (payments.map PaymentRow.amount).sum + (payments.map PaymentRow.transfer_fee).sum = grossOf db batch.id

theorem sum_parts {items : List Item} (id : ℕ)
    (nets : ∀ item ∈ items, item.net_amount + item.fee_amount = item.gross_amount) :
    ((items.map (paymentRow id)).map PaymentRow.amount).sum +
      ((items.map (paymentRow id)).map PaymentRow.transfer_fee).sum =
      (items.map Item.gross_amount).sum := by
  induction items with
  | nil => rfl
  | cons item items ih =>
    have here : item.net_amount + item.fee_amount = item.gross_amount := nets item List.mem_cons_self
    have rest := ih fun other member => nets other (List.mem_cons_of_mem _ member)
    simp only [List.map_cons,List.sum_cons]
    rw [← here,← rest]
    change item.net_amount + _ + (item.fee_amount + _) = _
    ring

theorem Books.recorded {funded : ℕ → ℤ} {db : Db} (books : Books funded db) {batch : Batch}
    (member : batch ∈ db.payment_batches) (final : batch.status = .finalized) : Recorded db batch := by
  obtain ⟨record,inside,transaction,hash,amount,payments⟩ := books.settled batch member final
  refine ⟨record,inside,transaction,amount.trans (books.totals batch member),?_,payments,?_⟩
  · intro other there same
    rcases same with id | hashed
    · apply List.inj_on_of_nodup_map books.transactions there inside
      exact Option.some.inj (id.symm.trans transaction)
    · apply List.inj_on_of_nodup_map books.hashes there inside
      exact Option.some.inj (hashed.symm.trans hash)
  · rw [(payments.map _).sum_eq,(payments.map _).sum_eq]
    apply sum_parts
    intro item there
    exact books.nets item (List.mem_filter.mp there).1

/-- A finalization that reports an error has changed nothing, unless every statement of it
went through and only the acknowledgement of its commit was lost. -/
theorem finalize_atomic {batch : Batch} {items : List Item} {hash txKey : String} {finalizedAt : ℕ} {fate : Fate}
    {db after : Db} {failure : Failure}
    (ran : transact .lost fate (finalizeTransaction batch items hash txKey finalizedAt) db = (.error failure,after)) :
    after = db ∨ fate.commit = .lost ∧ ∃ id left,
      finalizeTransaction batch items hash txKey finalizedAt (db,fate.fault) = .ok (id,after,left) := by
  unfold transact at ran
  split at ran
  · split at ran
    · exact .inl (Prod.mk.inj ran).2.symm
    next id result left worked =>
      split at ran
      · cases ran
      · exact .inl (Prod.mk.inj ran).2.symm
      next lost =>
        obtain rfl := (Prod.mk.inj ran).2
        exact .inr ⟨lost,id,left,worked⟩
  · exact .inl (Prod.mk.inj ran).2.symm

theorem ledger_conserved {world : system.World} (reachable : (system.machine Fresh).Reachable world) :
    (∀ row ∈ world.shared.db.balance, world.shared.funded row.id - row.amount = settledGross world.shared.db row.id) ∧
    (∀ batch ∈ world.shared.db.payment_batches, batch.status = .finalized → Recorded world.shared.db batch) ∧
    (∀ left ∈ world.shared.db.payment_batches, ∀ right ∈ world.shared.db.payment_batches, left.status = .finalized →
      right.status = .finalized → left.transaction_id = right.transaction_id → left = right) ∧
    (∀ row ∈ world.shared.db.balance, 0 ≤ row.amount) ∧
    ∀ (batch : Batch) (items : List Item) (hash txKey : String) (finalizedAt : ℕ) (fate : Fate) (failure : Failure)
      (after : Db), transact .lost fate (finalizeTransaction batch items hash txKey finalizedAt) world.shared.db =
        (.error failure,after) → after = world.shared.db ∨ fate.commit = .lost ∧ ∃ id left,
          finalizeTransaction batch items hash txKey finalizedAt (world.shared.db,fate.fault) =
            .ok (id,after,left) := by
  obtain ⟨inv,backed⟩ := ((rule.extend solvencyRule).lawful reachable).invariant
  have books := inv.ledger.books
  have positive := Solvency.positive backed
  refine ⟨?_,fun batch => books.recorded,?_,positive,fun batch items hash txKey finalizedAt fate failure after =>
    finalize_atomic⟩
  · intro row member
    rw [books.amounts row member]
    ring
  · intro left left_mem right right_mem left_final right_final same
    obtain ⟨record,inside,transaction,hash,_⟩ := books.settled left left_mem left_final
    obtain ⟨other,there,transaction',hash',_⟩ := books.settled right right_mem right_final
    obtain rfl : record = other := List.inj_on_of_nodup_map books.transactions inside there
      (Option.some.inj (transaction.symm.trans (same.trans transaction')))
    exact batch_eq inv.ledger.keys left_mem right_mem
      (inv.ledger.hashes left left_mem right right_mem _ hash hash')

theorem ledger_conserved_recovered : ∃ world,
    (system.machine Fresh).run ⟨sampleStart,[]⟩ (recoveredLabels (sampleTransfer [sampleDestination])) = some world ∧
      (∃ batch ∈ world.shared.db.payment_batches, batch.status = .finalized ∧ Recorded world.shared.db batch) ∧
      ∀ row ∈ world.shared.db.balance, world.shared.funded row.id - row.amount =
        settledGross world.shared.db row.id := by
  have ended : ((system.machine Fresh).run ⟨sampleStart,[]⟩ (recoveredLabels (sampleTransfer [sampleDestination]))).any
      (fun world => world.shared.db.payment_batches.any fun batch => batch.status = .finalized) = true := by
    decide +kernel
  obtain ⟨world,ran,facts⟩ := (Option.any_eq_true _ _).mp ended
  obtain ⟨batch,member,final⟩ := List.any_eq_true.mp facts
  have conserved := ledger_conserved (sample_reachable ran)
  exact ⟨world,ran,⟨batch,member,of_decide_eq_true final,conserved.2.1 batch member (of_decide_eq_true final)⟩,
    conserved.1⟩

/-- The database commits the finalization and its acknowledgement is lost. -/
theorem lost_commit_finalizes : ¬∀ world : system.World, (system.machine Fresh).Reachable world →
    ∀ (batch : Batch) (items : List Item) (hash txKey : String) (finalizedAt : ℕ) (fate : Fate)
    (failure : Failure) (after : Db),
      transact .lost fate (finalizeTransaction batch items hash txKey finalizedAt) world.shared.db =
        (.error failure,after) →
        after.balance = world.shared.db.balance ∧ after.transactions = world.shared.db.transactions := by
  intro unchanged
  let labels := (recoveredLabels (sampleTransfer [sampleDestination])).dropLast
  let attempt (batch : Batch) (db : Db) := transact .lost { commit := .lost }
    (finalizeTransaction batch (itemsOf db batch.id) sampleHash "k" 9) db
  have ended : ((system.machine Fresh).run ⟨sampleStart,[]⟩ labels).any (fun world =>
      world.shared.db.payment_batches.any fun batch => !(attempt batch world.shared.db).1.isOk &&
        (attempt batch world.shared.db).2.transactions.length ≠ world.shared.db.transactions.length) = true := by
    decide +kernel
  obtain ⟨world,ran,facts⟩ := (Option.any_eq_true _ _).mp ended
  obtain ⟨batch,_,facts⟩ := List.any_eq_true.mp facts
  obtain ⟨threw,longer⟩ := Bool.and_eq_true_iff.mp facts
  cases ends : attempt batch world.shared.db with
  | mk outcome after =>
    rw [ends] at threw longer
    cases outcome with
    | ok value => cases threw
    | error failure =>
      have same := (unchanged world (sample_reachable ran) _ _ _ _ _ _ failure after ends).2
      exact of_decide_eq_true longer (congrArg List.length same)

end Runs
end NodejsPool.Payments
