import NodejsPool.Payments.Transfers

/-! Which wallet transfer finalizes a batch: its hash settles no other batch, and its
destinations are those of the batch as far as they can be read. -/
namespace NodejsPool.Payments
open Async

section Destinations

/-- The amount a wallet states; a text may have more digits than a double holds. -/
def statedAmount : Option Json → Option ℚ
  | some (.num value) => some value
  | some (.str value) => exactNumber value
  | _ => none

def readDestination (destination : Json) : Option Destination :=
  match normalizeDestination destination with
  | .ok normalized => isValidDestination normalized
  | .error _ => none

/-- A destination as the wallet states it, unless it is malformed: no address, or no amount that is read
as it stands. -/
def destinationOf (destination : Json) : Option Destination :=
  (readDestination destination).filter fun read => statedAmount (destination.field "amount") = some read.2

def allDestinations (transfer : Json) : List (Option Destination) :=
  match transfer.field "destinations" with
  | some (.arr (destination::destinations)) => (destination::destinations).map destinationOf
  | _ =>
    match (transfer.field "address").filter Json.truthy, normalizeInteger (transfer.field "amount") with
    | some address, some amount =>
      [if statedAmount (transfer.field "amount") = some amount then some (address.toText,amount) else none]
    | _, _ => []

def WellFormed (transfer : Json) : Prop := none ∉ allDestinations transfer

instance (transfer : Json) : Decidable (WellFormed transfer) :=
  inferInstanceAs (Decidable (none ∉ allDestinations transfer))

private theorem mapM_forall₂ {A B : Type} {f : A → Except Failure B} {values : List A} {results : List B}
    (mapped : values.mapM f = .ok results) :
    List.Forall₂ (fun value result => f value = .ok result) values results := by
  induction values generalizing results with
  | nil =>
    obtain rfl := Except.ok.inj mapped
    exact .nil
  | cons value values ih =>
    rw [List.mapM_cons] at mapped
    cases first : f value with
    | error failure =>
      rw [first] at mapped
      cases mapped
    | ok result =>
      cases rest : values.mapM f with
      | error failure =>
        rw [first,rest] at mapped
        cases mapped
      | ok others =>
        rw [first,rest] at mapped
        obtain rfl := Except.ok.inj mapped
        exact .cons first (ih rest)

private theorem destinations_map {values : List Json} {normalized : List (String × Option ℚ)}
    (read : List.Forall₂ (fun value result => normalizeDestination value = .ok result) values normalized) :
    values.map readDestination = normalized.map isValidDestination := by
  induction read with
  | nil => rfl
  | cons first _ ih => rw [List.map_cons,List.map_cons,ih,readDestination,first]

theorem destinationOf_read {values : List Json} (complete : none ∉ values.map destinationOf) :
    values.map destinationOf = values.map readDestination := by
  refine List.map_congr_left fun value member => ?_
  cases stated : destinationOf value with
  | none => exact absurd (stated ▸ List.mem_map_of_mem member) complete
  | some destination => exact (Option.filter_eq_some_iff.mp stated).1.symm

private theorem normalized_filter {transfer : Json} {destinations : List Destination}
    (normalized : normalizeTransferDestinations transfer = .ok destinations)
    (complete : none ∉ allDestinations transfer) :
    (allDestinations transfer).filterMap id = destinations := by
  by_cases listed : ∃ destination others, transfer.field "destinations" = some (.arr (destination::others))
  · obtain ⟨destination,others,found⟩ := listed
    simp only [normalizeTransferDestinations,allDestinations,found] at normalized complete ⊢
    cases mapped : (destination::others).mapM normalizeDestination with
    | error failure =>
      rw [mapped] at normalized
      cases normalized
    | ok read =>
      rw [mapped] at normalized
      obtain rfl := Except.ok.inj normalized
      rw [destinationOf_read complete,destinations_map (mapM_forall₂ mapped),List.filterMap_map]
      rfl
  · have shape (destination : Json) (others : List Json) :
        transfer.field "destinations" ≠ some (.arr (destination::others)) := by
      intro found
      exact listed ⟨destination,others,found⟩
    simp only [normalizeTransferDestinations,allDestinations] at normalized complete ⊢
    cases found : (transfer.field "address").filter Json.truthy <;> cases read :
      normalizeInteger (transfer.field "amount") <;>
      simp only [found,read] at normalized complete ⊢ <;> obtain rfl := Except.ok.inj normalized
    case some.some =>
      split at complete
      next stated => rw [if_pos stated]; rfl
      · exact absurd (List.mem_singleton_self none) complete
    all_goals rfl

theorem wellFormed_all {A : Type} {values : List (Option A)} (complete : none ∉ values) :
    (values.filterMap id).map some = values := by
  induction values with
  | nil => rfl
  | cons value values ih =>
    obtain ⟨here,rest⟩ := not_or.mp (fun either => complete (List.mem_cons.mpr either))
    cases value with
    | none => exact (here rfl).elim
    | some value =>
      change some value :: (values.filterMap id).map some = _
      rw [ih rest]

private theorem matched_exact {batch : Batch} {items : List Item} {transfer : Json}
    (matched : transferMatchesBatch batch items transfer = .ok true) :
    (allDestinations transfer).Perm ((destinationMultiset items).map some) ↔ WellFormed transfer := by
  obtain ⟨destinations,normalized,same⟩ := transferMatchesBatch_perm matched
  constructor
  · intro exact_ malformed
    obtain ⟨destination,_,none⟩ := List.mem_map.mp (exact_.subset malformed)
    cases none
  · intro complete
    rw [← wellFormed_all complete,normalized_filter normalized complete]
    exact same.map some

end Destinations

section Runs

def Settles (db : Db) (batch : Batch) (transfer : Json) : Prop :=
  batch.tx_hash = normalizeHash (transfer.field "txid") ∧
    (allDestinations transfer).Perm ((destinationMultiset (itemsOf db batch.id)).map some)

def FinalizedExactly (shared : Shared) : Prop :=
  ∀ batch ∈ shared.db.payment_batches, batch.status = .finalized →
    ∃ transfer ∈ shared.history, Settles shared.db batch transfer

theorem Vouched.transfer {shared : Shared} {batch : Batch} (vouched : Vouched shared batch) :
    ∃ transfer ∈ shared.history, batch.tx_hash = normalizeHash (transfer.field "txid") ∧
      (Settles shared.db batch transfer ↔ WellFormed transfer) := by
  obtain ⟨hash,transfer,same,inside,found,origin,items,own,matching⟩ := vouched
  have hashed : batch.tx_hash = normalizeHash (transfer.field "txid") := by
    rw [same,of_decide_eq_true found]
  refine ⟨transfer,inside,hashed,?_⟩
  rw [← matched_exact matching]
  have multiset : ((destinationMultiset items).map some).Perm
      ((destinationMultiset (itemsOf shared.db batch.id)).map some) :=
    (own.map _).map some
  constructor
  · intro settles
    exact settles.2.trans multiset.symm
  · intro exact_
    exact ⟨hashed,exact_.trans multiset⟩

def sampleHash : String := "abcdefabcdefabcdefabcdefabcdefabcdefabcdefabcdefabcdefabcdefabcd"

def sampleTransfer (destinations : List Json) : Json := .obj [("txid",.str sampleHash),("timestamp",.num 5),
  ("type",.str "out"),("fee",.num 20),("destinations",.arr destinations)]

def sampleDestination : Json := .obj [("address",.str "A"),("amount",.num 10)]

def recoverAnswers (transfer : Json) : List Answer :=
  replies 15 ++ [.time 9000,.wallet (resultReply [("height",.num 100)]),.wallet (resultReply [("out",.arr [transfer])]),
    .wallet (resultReply [("tx_key",.str "k")]),.time 9000,.reply,.time 9000,.fate {}]

def recoveredLabels (transfer : Json) : List system.Label :=
  claimedLabels ++ [.act 0 (.wallet (.error "timeout")),.crash 0,.occur .dropLock,.occur (.walletRecord transfer),
    .start (.payments sampleConfig 1)] ++ acts 1 (recoverAnswers transfer)

def malformedTransfer : Json := sampleTransfer [sampleDestination,.obj [("address",.str "B")]]

end Runs
end NodejsPool.Payments
