import NodejsPool.Payments.Json
import NodejsPool.Payments.Ledger

/-! Matching a transfer of the wallet history against a payment batch. -/
namespace NodejsPool.Payments

def isIntegratedAddress (address : String) : Bool := address.length = 106

def sqlTimestampToUnix (timestamp : Option ℕ) : ℕ := timestamp.getD 0

abbrev Destination := String × ℚ

/-- A destination that is `null` has no properties to read. -/
def normalizeDestination (destination : Json) : Except Failure (String × Option ℚ) :=
  match destination with
  | .null => .error (.thrown "Cannot read properties of null (reading 'address')")
  | destination =>
    let address := match destination.field "address" with
      | some (.str address) => address
      | _ => ""
    .ok (address,normalizeInteger (destination.field "amount"))

def isValidDestination (destination : String × Option ℚ) : Option Destination :=
  if destination.1 = "" then none else destination.2.map fun amount => (destination.1,amount)

def normalizeTransferDestinations (transfer : Json) : Except Failure (List Destination) :=
  match transfer.field "destinations" with
  | some (.arr (destination::destinations)) => do
    let normalized ← (destination::destinations).mapM normalizeDestination
    return normalized.filterMap isValidDestination
  | _ =>
    match (transfer.field "address").filter Json.truthy, normalizeInteger (transfer.field "amount") with
    | some address, some amount => .ok [(address.toText,amount)]
    | _, _ => .ok []

/-- The `Map` of keys to counts, as the list of the keys still to be consumed. -/
def destinationMultiset (items : List Item) : List Destination :=
  items.map fun item => (item.payment_address,(item.net_amount : ℚ))

def consumeDestinations : List Destination → List Destination → Option (List Destination)
  | expected,[] => some expected
  | expected,destination::destinations =>
    if destination ∈ expected then consumeDestinations (expected.erase destination) destinations else none

def isSingleIntegratedBatch (batch : Batch) (items : List Item) : Bool :=
  batch.batch_type ≠ .bulk && items.length = 1 &&
    (items.head?.map Item.payment_address).any isIntegratedAddress

def transferMatchesBatch (batch : Batch) (items : List Item) (transfer : Json) : Except Failure Bool :=
  match normalizeInteger (transfer.field "timestamp") with
  | none => .ok false
  | some timestamp =>
    if timestamp < sqlTimestampToUnix batch.submit_started_at then .ok false
    else if (normalizePaymentId (transfer.field "payment_id")).isSome && !isSingleIntegratedBatch batch items then
      .ok false
    else do
      let destinations ← normalizeTransferDestinations transfer
      if destinations.length ≠ items.length then return false
      else if batch.batch_type ≠ .bulk ∧ destinations.length ≠ 1 then return false
      else
        match consumeDestinations (destinationMultiset items) destinations with
        | none => return false
        | some expected => return expected.isEmpty

def filterMatches (batch : Batch) (items : List Item) : List Json → Except Failure (List Json)
  | [] => .ok []
  | transfer::transfers => do
    let matching ← transferMatchesBatch batch items transfer
    let others ← filterMatches batch items transfers
    return if matching then transfer::others else others

section Matching

theorem consume_perm {expected destinations rest : List Destination}
    (consumed : consumeDestinations expected destinations = some rest) : List.Perm expected (destinations ++ rest) := by
  induction destinations generalizing expected with
  | nil =>
    cases consumed
    exact List.Perm.refl _
  | cons destination destinations ih =>
    unfold consumeDestinations at consumed
    split at consumed
    next member =>
      calc
        List.Perm expected (destination :: expected.erase destination) := List.perm_cons_erase member
        List.Perm _ (destination :: (destinations ++ rest)) := (ih consumed).cons destination
    · cases consumed

theorem transferMatchesBatch_perm {batch : Batch} {items : List Item} {transfer : Json}
    (matched : transferMatchesBatch batch items transfer = .ok true) :
    ∃ destinations, normalizeTransferDestinations transfer = .ok destinations ∧
      destinations.Perm (destinationMultiset items) := by
  unfold transferMatchesBatch at matched
  split at matched
  · cases matched
  · split at matched
    · cases matched
    · split at matched
      · cases matched
      · cases normalized : normalizeTransferDestinations transfer with
        | error failure =>
          rw [normalized] at matched
          cases matched
        | ok destinations =>
          refine ⟨destinations,rfl,?_⟩
          rw [normalized] at matched
          change (ite _ _ _) = _ at matched
          split at matched
          · cases matched
          · split at matched
            · cases matched
            · split at matched
              · cases matched
              next rest consumed =>
                have empty : rest = [] := by simpa [pure,Except.pure] using matched
                subst empty
                simpa using (consume_perm consumed).symm

theorem mem_filterMatches {batch : Batch} {items : List Item} {transfers matching : List Json} {transfer : Json}
    (filtered : filterMatches batch items transfers = .ok matching) (member : transfer ∈ matching) :
    transfer ∈ transfers ∧ transferMatchesBatch batch items transfer = .ok true := by
  induction transfers generalizing matching with
  | nil =>
    cases filtered
    cases member
  | cons head tail ih =>
    unfold filterMatches at filtered
    cases first : transferMatchesBatch batch items head with
    | error failure =>
      rw [first] at filtered
      cases filtered
    | ok found =>
      cases rest : filterMatches batch items tail with
      | error failure =>
        rw [first,rest] at filtered
        cases filtered
      | ok others =>
        rw [first,rest] at filtered
        obtain rfl := Except.ok.inj filtered
        cases found with
        | false =>
          obtain ⟨inside,matches_⟩ := ih rest member
          exact ⟨List.mem_cons_of_mem _ inside,matches_⟩
        | true =>
          rcases List.mem_cons.mp member with rfl | member
          · exact ⟨List.mem_cons_self,first⟩
          · obtain ⟨inside,matches_⟩ := ih rest member
            exact ⟨List.mem_cons_of_mem _ inside,matches_⟩

end Matching
end NodejsPool.Payments
