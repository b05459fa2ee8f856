import NodejsPool.Payments.Finalization

/-! When a transfer of the wallet history matches a batch: the comparison of multisets it stands
for, and the destinations it drops before it counts. -/
namespace NodejsPool.Payments
open List

section Multisets

theorem consume_all_iff {expected destinations : List Destination} :
    consumeDestinations expected destinations = some [] ↔ destinations.Perm expected := by
  constructor
  · intro consumed
    simpa using (consume_perm consumed).symm
  · intro same
    induction destinations generalizing expected with
    | nil =>
      rw [nil_perm.mp same]
      rfl
    | cons destination destinations ih =>
      have member : destination ∈ expected := same.subset mem_cons_self
      rw [consumeDestinations,if_pos member]
      exact ih (cons_perm_iff_perm_erase.mp same).2

end Multisets

section Destinations

variable {transfer : Json}

def listedDestinations (transfer : Json) : Option (List Json) :=
  match transfer.field "destinations" with
  | some (.arr (destination::destinations)) => some (destination::destinations)
  | _ => none

def ownDestination (transfer : Json) : List (Option Destination) :=
  match (transfer.field "address").filter Json.truthy, normalizeInteger (transfer.field "amount") with
  | some (.str address), some amount =>
    [if statedAmount (transfer.field "amount") = some amount then some (address,amount) else none]
  | some _, some _ => [none]
  | _, _ => []

def statedDestinations (transfer : Json) : List (Option Destination) :=
  match listedDestinations transfer with
  | some values => values.map destinationOf
  | none => ownDestination transfer

theorem normalize_listed {values : List Json} (listed : listedDestinations transfer = some values) :
    normalizeTransferDestinations transfer =
      (values.mapM normalizeDestination).map (filterMap isValidDestination) := by
  have listing : ∃ destination destinations, transfer.field "destinations" = some (.arr (destination::destinations)) ∧
      destination::destinations = values := by
    unfold listedDestinations at listed
    split at listed
    next destination destinations found => exact ⟨destination,destinations,found,Option.some.inj listed⟩
    · cases listed
  obtain ⟨destination,destinations,found,rfl⟩ := listing
  unfold normalizeTransferDestinations
  rw [found]
  dsimp only
  cases mapM normalizeDestination (destination::destinations) <;> rfl

theorem normalize_unlisted (unlisted : listedDestinations transfer = none) : normalizeTransferDestinations transfer =
      match (transfer.field "address").filter Json.truthy, normalizeInteger (transfer.field "amount") with
      | some address, some amount => .ok [(address.toText,amount)]
      | _, _ => .ok [] := by
  have other (destination : Json) (destinations : List Json) :
      transfer.field "destinations" ≠ some (.arr (destination::destinations)) := by
    intro found
    unfold listedDestinations at unlisted
    rw [found] at unlisted
    cases unlisted
  unfold normalizeTransferDestinations
  split
  next destination destinations found => exact (other destination destinations found).elim
  · rfl

theorem normalize_own (unlisted : listedDestinations transfer = none) :
    ∃ destinations, normalizeTransferDestinations transfer = .ok destinations ∧
      (none ∉ ownDestination transfer → destinations.map some = ownDestination transfer) := by
  rw [normalize_unlisted unlisted]
  unfold ownDestination
  generalize (transfer.field "address").filter Json.truthy = address
  generalize normalizeInteger (transfer.field "amount") = amount
  generalize statedAmount (transfer.field "amount") = stated
  cases address with
  | none => exact ⟨[],rfl,fun _ => rfl⟩
  | some address =>
    cases amount with
    | none =>
      refine ⟨[],rfl,fun _ => ?_⟩
      cases address <;> rfl
    | some amount =>
      refine ⟨[(address.toText,amount)],rfl,?_⟩
      intro complete
      cases address with
      | str address =>
        dsimp only at complete ⊢
        split at complete
        next same => rw [if_pos same]; rfl
        · exact absurd (mem_singleton_self none) complete
      | _ => exact absurd (mem_singleton_self none) complete

theorem read_destinations (values : List Json) :
    (Json.null ∉ values ∧ ∃ read, values.mapM normalizeDestination = .ok read ∧
      values.map readDestination = read.map isValidDestination) ∨
    (Json.null ∈ values ∧ values.mapM normalizeDestination =
      .error (.thrown "Cannot read properties of null (reading 'address')")) := by
  induction values with
  | nil => exact .inl ⟨not_mem_nil,[],rfl,rfl⟩
  | cons value values ih =>
    cases first : normalizeDestination value with
    | error failure =>
      refine .inr ?_
      cases value <;> simp only [normalizeDestination] at first <;> cases first
      refine ⟨mem_cons_self,?_⟩
      rw [mapM_cons]
      rfl
    | ok normalized =>
      have present : Json.null ≠ value := by
        rintro rfl
        cases first
      rcases ih with ⟨absent,read,mapped,same⟩ | ⟨here,thrown⟩
      · refine .inl ⟨?_,normalized::read,?_,?_⟩
        · exact not_mem_cons_of_ne_of_not_mem present absent
        · rw [mapM_cons,first,mapped]
          rfl
        · rw [map_cons,map_cons,same,readDestination,first]
      · refine .inr ⟨mem_cons_of_mem _ here,?_⟩
        rw [mapM_cons,first,thrown]
        rfl

private theorem destinationOf_null : destinationOf .null = none := rfl

theorem stated_normalized (complete : none ∉ statedDestinations transfer) :
    ∃ destinations, normalizeTransferDestinations transfer = .ok destinations ∧
      destinations.map some = statedDestinations transfer := by
  unfold statedDestinations at complete ⊢
  cases listed : listedDestinations transfer with
  | none =>
    rw [listed] at complete
    obtain ⟨destinations,normalized,own⟩ := normalize_own listed
    exact ⟨destinations,normalized,own complete⟩
  | some values =>
    rw [listed] at complete
    rcases read_destinations values with ⟨_,read,mapped,same⟩ | ⟨null,_⟩
    · refine ⟨read.filterMap isValidDestination,by rw [normalize_listed listed,mapped]; rfl,?_⟩
      dsimp only at complete ⊢
      have all := (destinationOf_read complete).trans same
      rw [all] at complete ⊢
      have whole := wellFormed_all complete
      rwa [filterMap_map] at whole
    · exact absurd (mem_map.mpr ⟨_,null,destinationOf_null⟩) complete

end Destinations

section Matching

structure Candidate (batch : Batch) (items : List Item) (transfer : Json) : Prop where
  timely : ∃ timestamp, normalizeInteger (transfer.field "timestamp") = some timestamp ∧
    sqlTimestampToUnix batch.submit_started_at ≤ timestamp
  paymentId : normalizePaymentId (transfer.field "payment_id") = none ∨ isSingleIntegratedBatch batch items = true

structure PaysBatch (batch : Batch) (items : List Item) (transfer : Json) : Prop where
  candidate : Candidate batch items transfer
  destinations : (statedDestinations transfer).Perm ((destinationMultiset items).map some)

def Shaped (batch : Batch) (items : List Item) : Prop := batch.batch_type = .bulk ∨ items.length = 1

instance (batch : Batch) (items : List Item) : Decidable (Shaped batch items) := inferInstanceAs (Decidable (_ ∨ _))

/-- Where the counted destinations are not the stated ones, or the batch is none the planner makes. -/
inductive Miscounted (batch : Batch) (items : List Item) (transfer : Json) : Prop
  | dropped (candidate : Candidate batch items transfer) (shaped : Shaped batch items)
      (malformed : none ∈ statedDestinations transfer)
      (others : ∃ destinations, normalizeTransferDestinations transfer = .ok destinations ∧
        destinations.Perm (destinationMultiset items))
  | misshapen (pays : PaysBatch batch items transfer) (unshaped : ¬Shaped batch items)

variable {batch : Batch} {items : List Item} {transfer : Json}

private theorem length_destinationMultiset (items : List Item) : (destinationMultiset items).length = items.length :=
  length_map ..

private theorem compared_iff (destinations : List Destination) :
    (if destinations.length ≠ items.length then (return false : Except Failure Bool)
      else if batch.batch_type ≠ .bulk ∧ destinations.length ≠ 1 then return false
      else
        match consumeDestinations (destinationMultiset items) destinations with
        | none => return false
        | some expected => return expected.isEmpty) =
      .ok (decide (destinations.Perm (destinationMultiset items) ∧ Shaped batch items)) := by
  split
  next different =>
    have apart : ¬destinations.Perm (destinationMultiset items) := by
      intro same
      exact different (same.length_eq.trans (length_destinationMultiset items))
    simp [apart,pure,Except.pure]
  next equal =>
    have sized : destinations.length = items.length := not_not.mp equal
    split
    next unshaped =>
      have apart : ¬Shaped batch items := by
        rintro (bulk | single)
        · exact unshaped.1 bulk
        · exact unshaped.2 (sized.trans single)
      simp [apart,pure,Except.pure]
    next shaped =>
      have shape : Shaped batch items := by
        by_cases bulk : batch.batch_type = .bulk
        · exact .inl bulk
        · refine .inr (sized.symm.trans ?_)
          by_contra several
          exact shaped ⟨bulk,several⟩
      have same := @consume_all_iff (destinationMultiset items) destinations
      cases consumed : consumeDestinations (destinationMultiset items) destinations with
      | none =>
        rw [consumed] at same
        simp [← same,pure,Except.pure]
      | some rest =>
        rw [consumed,Option.some.injEq] at same
        have empty : rest.isEmpty = decide (rest = []) := by cases rest <;> simp
        simp [← same,shape,empty,pure,Except.pure]

theorem other_transfer (other : ¬Candidate batch items transfer) :
    transferMatchesBatch batch items transfer = .ok false := by
  unfold transferMatchesBatch
  split
  · rfl
  next timestamp read =>
    split
    · rfl
    next late =>
      split
      · rfl
      next allowed =>
        refine (other ⟨⟨timestamp,read,not_lt.mp late⟩,?_⟩).elim
        simp only [Bool.and_eq_true,Bool.not_eq_true',not_and_or] at allowed
        rcases allowed with absent | single
        · exact .inl (by simpa using absent)
        · exact .inr (by simpa using single)

theorem candidate_transfer (candidate : Candidate batch items transfer) :
    transferMatchesBatch batch items transfer = (normalizeTransferDestinations transfer).map fun destinations =>
      decide (destinations.Perm (destinationMultiset items) ∧ Shaped batch items) := by
  obtain ⟨⟨timestamp,read,late⟩,allowed⟩ := candidate
  unfold transferMatchesBatch
  rw [read]
  dsimp only
  rw [if_neg (not_lt.mpr late),if_neg]
  · cases normalizeTransferDestinations transfer with
    | error failure => rfl
    | ok destinations => exact compared_iff destinations
  · intro refused
    rcases allowed with absent | single
    · simp [absent] at refused
    · simp [single] at refused

theorem transferMatchesBatch_iff : transferMatchesBatch batch items transfer = .ok true ↔
    Candidate batch items transfer ∧ Shaped batch items ∧
      ∃ destinations, normalizeTransferDestinations transfer = .ok destinations ∧
        destinations.Perm (destinationMultiset items) := by
  by_cases candidate : Candidate batch items transfer
  · rw [candidate_transfer candidate]
    cases normalized : normalizeTransferDestinations transfer with
    | error failure =>
      refine iff_of_false ?_ ?_
      · intro same
        cases same
      · rintro ⟨_,_,_,same,_⟩
        cases same
    | ok destinations =>
      simp only [Except.map,Except.ok.injEq,decide_eq_true_eq]
      constructor
      · rintro ⟨same,shaped⟩
        exact ⟨candidate,shaped,destinations,rfl,same⟩
      · rintro ⟨_,shaped,_,rfl,same⟩
        exact ⟨same,shaped⟩
  · rw [other_transfer candidate]
    refine iff_of_false (by simp) ?_
    rintro ⟨here,_⟩
    exact candidate here

end Matching

section Order

structure Reordered (transfer other : Json) : Prop where
  fields : ∀ key, key ≠ "destinations" → transfer.field key = other.field key
  destinations : transfer.field "destinations" = other.field "destinations" ∨
    ∃ values others, transfer.field "destinations" = some (.arr values) ∧
      other.field "destinations" = some (.arr others) ∧ values.Perm others

variable {batch : Batch} {items others : List Item} {transfer other : Json} {values : List Json}

private theorem isSingleIntegratedBatch_perm (batch : Batch) (same : items.Perm others) :
    isSingleIntegratedBatch batch items = isSingleIntegratedBatch batch others := by
  by_cases single : items.length = 1
  · obtain ⟨item,rfl⟩ := length_eq_one_iff.mp single
    rw [singleton_perm.mp same]
  · have several : others.length ≠ 1 := same.length_eq ▸ single
    simp [isSingleIntegratedBatch,single,several]

theorem Candidate.perm (same : items.Perm others) (reordered : Reordered transfer other)
    (candidate : Candidate batch items transfer) : Candidate batch others other := by
  obtain ⟨timely,allowed⟩ := candidate
  rw [reordered.fields "timestamp" (by decide)] at timely
  rw [reordered.fields "payment_id" (by decide),isSingleIntegratedBatch_perm batch same] at allowed
  exact ⟨timely,allowed⟩

theorem Reordered.symm (reordered : Reordered transfer other) : Reordered other transfer := by
  refine ⟨fun key differs => (reordered.fields key differs).symm,?_⟩
  rcases reordered.destinations with same | ⟨values,others,here,there,perm⟩
  · exact .inl same.symm
  · exact .inr ⟨others,values,there,here,perm.symm⟩

private theorem listed_values (found : transfer.field "destinations" = some (.arr values)) :
    listedDestinations transfer = if values = [] then none else some values := by
  unfold listedDestinations
  rw [found]
  cases values <;> rfl

private theorem normalize_unlisted_eq (reordered : Reordered transfer other) (here : listedDestinations transfer = none)
    (there : listedDestinations other = none) :
    normalizeTransferDestinations transfer = normalizeTransferDestinations other := by
  rw [normalize_unlisted here,normalize_unlisted there,reordered.fields "address" (by decide),
    reordered.fields "amount" (by decide)]

private theorem normalize_values (listed : listedDestinations transfer = some values) :
    (Json.null ∈ values ∧ normalizeTransferDestinations transfer =
      .error (.thrown "Cannot read properties of null (reading 'address')")) ∨
    (Json.null ∉ values ∧ normalizeTransferDestinations transfer = .ok (values.filterMap readDestination)) := by
  rw [normalize_listed listed]
  rcases read_destinations values with ⟨absent,read,mapped,same⟩ | ⟨null,thrown⟩
  · refine .inr ⟨absent,?_⟩
    rw [mapped]
    have dropped := congrArg (filterMap id) same
    rw [filterMap_map,filterMap_map] at dropped
    exact congrArg Except.ok dropped.symm
  · refine .inl ⟨null,?_⟩
    rw [thrown]
    rfl

private theorem normalize_perm (reordered : Reordered transfer other) :
    normalizeTransferDestinations transfer = normalizeTransferDestinations other ∨
      ∃ destinations others, normalizeTransferDestinations transfer = .ok destinations ∧
        normalizeTransferDestinations other = .ok others ∧ destinations.Perm others := by
  rcases reordered.destinations with same | ⟨values,others,here,there,perm⟩
  · refine .inl ?_
    unfold normalizeTransferDestinations
    rw [same,reordered.fields "address" (by decide),reordered.fields "amount" (by decide)]
  · have left := listed_values here
    have right := listed_values there
    by_cases empty : values = []
    · subst empty
      obtain rfl := nil_perm.mp perm
      exact .inl (normalize_unlisted_eq reordered left right)
    · have filled : others ≠ [] := by
        rintro rfl
        exact empty (perm_nil.mp perm)
      rw [if_neg empty] at left
      rw [if_neg filled] at right
      rcases normalize_values left with ⟨null,thrown⟩ | ⟨absent,read⟩
      · rcases normalize_values right with ⟨_,other⟩ | ⟨missing,_⟩
        · exact .inl (thrown.trans other.symm)
        · exact absurd (perm.subset null) missing
      · rcases normalize_values right with ⟨null,_⟩ | ⟨_,other⟩
        · exact absurd (perm.symm.subset null) absent
        · exact .inr ⟨_,_,read,other,perm.filterMap _⟩

theorem transferMatchesBatch_perm_eq (batch : Batch) (same : items.Perm others) (reordered : Reordered transfer other) :
    transferMatchesBatch batch items transfer = transferMatchesBatch batch others other := by
  by_cases candidate : Candidate batch items transfer
  · rw [candidate_transfer candidate,candidate_transfer (candidate.perm same reordered)]
    have shaped : Shaped batch items ↔ Shaped batch others := by rw [Shaped,Shaped,same.length_eq]
    have expected : (destinationMultiset items).Perm (destinationMultiset others) := same.map _
    rcases normalize_perm reordered with equal | ⟨left,right,here,there,perm⟩
    · rw [equal]
      simp only [shaped,expected.congr_right]
    · rw [here,there]
      simp only [Except.map,shaped,expected.congr_right,perm.congr_left]
  · have apart : ¬Candidate batch others other := fun there => candidate (there.perm same.symm reordered.symm)
    rw [other_transfer candidate,other_transfer apart]

end Order

section Statement

variable {batch : Batch} {items : List Item} {transfer : Json}

def sampleBatch : Batch where
  id := 1
  status := .submitting
  batch_type := .bulk
  total_gross := 30
  total_net := 30
  total_fee := 0
  submit_started_at := some 4

def sampleItem (payment_address : String) (net_amount : ℤ) : Item :=
  ⟨1,net_amount.toNat,0,"pplns",payment_address,net_amount,net_amount,0⟩

def sampleOther : Json := .obj [("address",.str "B"),("amount",.num 20)]

end Statement
end NodejsPool.Payments
