import NodejsPool.Payments.Refinement

/-! Why no balance is overdrawn: whoever moves a batch past its reservation has seen the
lock again after it, and so reserved it from rows that nobody has debited since. -/
namespace NodejsPool.Payments
open Async List

def Solvent (db : Db) (id : ℕ) : Prop :=
  ∀ item ∈ itemsOf db id, ∀ row ∈ db.balance, row.id = item.balance_id → item.gross_amount ≤ row.amount

def Still (db : Db) (id : ℕ) : Prop := ∃ batch ∈ db.payment_batches, batch.id = id ∧ batch.status = .reserved

def Committed (status : Status) : Prop := status ∈ openStatuses ∧ status ≠ .reserved

/-- A row of the plan in force still holds its amount; if a batch has taken it since, that
batch is only reserved, by someone who will not see the lock again. -/
def Holds (db : Db) (standings : List Standing) (owner : Standing) (planned : PayoutRow) : Prop :=
  ∃ row ∈ db.balance, row.id = planned.id ∧ planned.amount ≤ row.amount ∧
    ∀ id, row.pending_batch_id = some id →
      Still db id ∧ (∀ standing ∈ standings, id ∉ standing.cleared) ∧ id ∉ owner.reserved

structure Solvency (db : Db) (lockOwner : Option ℕ) (standings : List Standing) : Prop where
  positive : ∀ row ∈ db.balance, 0 ≤ row.amount
  committed : ∀ batch ∈ db.payment_batches, Committed batch.status → Solvent db batch.id
  known : ∀ standing ∈ standings, ∀ id, id ∈ standing.reserved ∨ id ∈ standing.cleared → id < db.nextBatchId
  cleared : ∀ standing ∈ standings, ∀ id ∈ standing.cleared, Still db id → Solvent db id
  reserved : ∀ (index : ℕ) (owner : Standing), lockOwner = some index → standings[index]? = some owner →
    ∀ id ∈ owner.reserved, Still db id → Solvent db id
  plan : ∀ (index : ℕ) (owner : Standing), lockOwner = some index → standings[index]? = some owner →
    ∀ planned ∈ owner.rows, planned.id ∉ owner.drawn → Holds db standings owner planned

section Tables

variable {db after : Db} {lockOwner : Option ℕ} {standings : List Standing} {id : ℕ} {fields : Fields}

theorem Solvency.tables (solvency : Solvency db lockOwner standings) (positive : ∀ row ∈ after.balance, 0 ≤ row.amount)
    (next : db.nextBatchId ≤ after.nextBatchId)
    (committed : ∀ batch ∈ after.payment_batches, Committed batch.status → Solvent after batch.id)
    (still : ∀ id < db.nextBatchId, Still after id → Still db id ∧ (Solvent db id → Solvent after id))
    (holds : ∀ (index : ℕ) (owner : Standing), standings[index]? = some owner → ∀ planned,
      Holds db standings owner planned → Holds after standings owner planned) : Solvency after lockOwner standings := by
  refine ⟨positive,committed,?_,?_,?_,?_⟩
  · intro standing member id told
    exact Nat.lt_of_lt_of_le (solvency.known standing member id told) next
  · intro standing member id clear now
    obtain ⟨before,kept⟩ := still id (solvency.known standing member id (.inr clear)) now
    exact kept (solvency.cleared standing member id clear before)
  · intro index owner owns found id own now
    obtain ⟨before,kept⟩ := still id (solvency.known owner (mem_of_getElem? found) id (.inl own)) now
    exact kept (solvency.reserved index owner owns found id own before)
  · intro index owner owns found planned member undrawn
    exact holds index owner found planned (solvency.plan index owner owns found planned member undrawn)

private theorem hasItem_itemsOf {item : Item} (member : item ∈ itemsOf db id) : HasItem db id item.balance_id := by
  obtain ⟨inside,same⟩ := mem_filter.mp member
  exact ⟨item,inside,of_decide_eq_true same,rfl⟩

theorem solvent_extend (solvent : Solvent db id) (items : itemsOf after id = itemsOf db id)
    (rows : ∀ row ∈ after.balance, HasItem db id row.id → ∃ old ∈ db.balance, old.id = row.id ∧
      old.amount ≤ row.amount) :
    Solvent after id := by
  intro item member row inside same
  rw [items] at member
  obtain ⟨old,there,equal,less⟩ := rows row inside (same ▸ hasItem_itemsOf member)
  exact (solvent item member old there (equal.trans same)).trans less

private theorem permitted_reserved {batch : Batch} (permitted : Permitted fields batch.status)
    (reserved : (batch.assign fields).status = .reserved) : batch.status = .reserved := by
  cases permitted with
  | keep keeps => simpa [Batch.assign,keeps.status] using reserved
  | retry _ status | claim _ status | submit _ status | review _ status => simp [Batch.assign,status] at reserved

theorem Solvency.update (solvency : Solvency db lockOwner standings)
    {guard : Guard} {expected : Status} (one : guard.statuses = [expected]) (permitted : Permitted fields expected)
    {actor : Standing} (acts : actor ∈ standings)
    (clears : expected = .reserved → fields.status ≠ none → id ∈ actor.cleared) :
    Solvency (setBatch db id guard fields) lockOwner standings := by
  have moves {old : Batch} (admits : guard.admits old = true) : Permitted fields old.status :=
    admits_single one admits ▸ permitted
  refine solvency.tables solvency.positive (le_refl _) ?_ ?_ ?_
  · intro batch member committed
    obtain ⟨old,inside,same,rfl | ⟨here,admits,rfl⟩⟩ := mem_setBatch member
    · exact solvency.committed _ inside committed
    · by_cases reserved : old.status = .reserved
      · have moved : fields.status ≠ none := by
          intro keeps
          have stays : (old.assign fields).status = old.status := by simp [Batch.assign,keeps]
          exact committed.2 (stays.trans reserved)
        have clear := clears ((admits_single one admits).symm.trans reserved) moved
        exact here ▸ solvency.cleared actor acts id clear ⟨old,inside,here,reserved⟩
      · exact solvency.committed old inside ⟨(permitted_open (moves admits)).mp committed.1,reserved⟩
  · intro other _ now
    refine ⟨?_,fun solvent => solvent⟩
    obtain ⟨batch,member,rfl,reserved⟩ := now
    obtain ⟨old,inside,same,rfl | ⟨_,admits,rfl⟩⟩ := mem_setBatch member
    · exact ⟨_,inside,rfl,reserved⟩
    · exact ⟨old,inside,rfl,permitted_reserved (moves admits) reserved⟩
  · intro index owner found planned holds
    obtain ⟨row,inside,same,enough,idle⟩ := holds
    refine ⟨row,inside,same,enough,fun other points => ?_⟩
    obtain ⟨⟨batch,member,here,reserved⟩,unclear,unowned⟩ := idle other points
    refine ⟨⟨_,mem_map_of_mem member,(touch_id ..).trans here,?_⟩,unclear,unowned⟩
    rcases touch_cases id guard fields batch with unchanged | ⟨at_,admits,assigned⟩
    · rw [unchanged]
      exact reserved
    · cases status : fields.status with
      | none => simpa [assigned,Batch.assign,status] using reserved
      | some next =>
        have clear := clears ((admits_single one admits).symm.trans reserved) (by simp [status])
        exact (unclear actor acts (here ▸ at_ ▸ clear)).elim

theorem Solvency.close (solvency : Solvency db lockOwner standings) {guard : Guard}
    (closes : fields.status = some .retryable) :
    Solvency ((setBatch db id guard fields).setBalance (released id db).balance) lockOwner standings := by
  have amounts (row : BalanceRow) (member : row ∈ (released id db).balance) :
      ∃ old ∈ db.balance, old.id = row.id ∧ old.amount = row.amount := by
    obtain ⟨old,inside,rfl⟩ := mem_map.mp member
    refine ⟨old,inside,?_⟩
    split <;> exact ⟨rfl,rfl⟩
  have solvent (other : ℕ) (before : Solvent db other) :
      Solvent ((setBatch db id guard fields).setBalance (released id db).balance) other := by
    refine solvent_extend before (by rfl) ?_
    intro row member _
    obtain ⟨old,inside,same,amount⟩ := amounts row member
    exact ⟨old,inside,same,amount.le⟩
  refine solvency.tables ?_ (le_refl _) ?_ ?_ ?_
  · intro row member
    obtain ⟨old,inside,_,amount⟩ := amounts row member
    rw [← amount]
    exact solvency.positive old inside
  · intro batch member committed
    obtain ⟨old,inside,same,rfl | ⟨_,_,rfl⟩⟩ := mem_setBatch member
    · exact solvent _ (solvency.committed _ inside committed)
    · have closed : (old.assign fields).status = .retryable := by simp [Batch.assign,closes]
      rw [closed] at committed
      exact absurd committed.1 (by decide)
  · intro other _ now
    refine ⟨?_,solvent other⟩
    obtain ⟨batch,member,rfl,reserved⟩ := now
    obtain ⟨old,inside,same,rfl | ⟨_,_,rfl⟩⟩ := mem_setBatch member
    · exact ⟨_,inside,rfl,reserved⟩
    · simp [Batch.assign,closes] at reserved
  · intro index owner found planned holds
    obtain ⟨row,inside,same,enough,idle⟩ := holds
    refine ⟨_,mem_map_of_mem inside,?_⟩
    split
    · refine ⟨same,enough,fun other points => ?_⟩
      cases points
    next away =>
      refine ⟨same,enough,fun other points => ?_⟩
      obtain ⟨⟨batch,member,here,reserved⟩,unclear,unowned⟩ := idle other points
      have different : batch.id ≠ id := by
        intro equal
        exact away (points.trans (by rw [← here,equal]))
      exact ⟨⟨_,mem_map_of_mem member,(touch_id ..).trans here,by rw [touch_other different]; exact reserved⟩,
        unclear,unowned⟩

private theorem debit_enough (keys : Keys db) (solvent : Solvent db id) {row : BalanceRow} (member : row ∈ db.balance)
    (held : row.id ∈ (itemsOf db id).map Item.balance_id) :
    Sql.sumAt Item.balance_id Item.gross_amount (itemsOf db id) row.id ≤ row.amount := by
  obtain ⟨item,inside,same⟩ := mem_map.mp held
  rw [← same,Sql.sumAt_mem (keys.itemOnce id) inside]
  exact solvent item inside row member same.symm

theorem Solvency.finalize (solvency : Solvency db lockOwner standings) (keys : Keys db) (pointers : Pointers db)
    {batch : Batch} {items : List Item} {hash txKey : String} {finalizedAt : ℕ} (submitted : batch.status = .submitted)
    (own : items.Perm (itemsOf db batch.id)) (finalizes : Finalizes batch items hash db) :
    Solvency (afterFinalize batch items hash txKey finalizedAt db) lockOwner standings := by
  obtain ⟨hit,hit_mem,hit_id,status,admits⟩ := finalize_hit submitted finalizes
  have rich : Solvent db batch.id := by
    have committed : Committed hit.status := by rw [status]; exact ⟨by decide,by decide⟩
    exact hit_id ▸ solvency.committed hit hit_mem committed
  have only (other : Batch) (member : other ∈ db.payment_batches) (same : other.id = batch.id) : other = hit :=
    batch_eq keys member hit_mem (same.trans hit_id.symm)
  have settles (old : Batch) (inside : old ∈ db.payment_batches) :
      (old.id = batch.id ∧ (touch batch.id (settledGuard batch.status)
        (finalizeFields batch hash txKey finalizedAt db.nextTransactionId) old).status = .finalized) ∨
      (old.id ≠ batch.id ∧ touch batch.id (settledGuard batch.status)
        (finalizeFields batch hash txKey finalizedAt db.nextTransactionId) old = old) := by
    by_cases here : old.id = batch.id
    · refine .inl ⟨here,?_⟩
      rw [only old inside here,touch,if_pos ⟨hit_id,admits⟩]
      rfl
    · exact .inr ⟨here,touch_other here⟩
  have solvent (id : ℕ) (away : id ≠ batch.id) (isOpen : OpenIn db id) (before : Solvent db id) :
      Solvent (afterFinalize batch items hash txKey finalizedAt db) id := by
    refine solvent_extend before (by rfl) ?_
    intro row member held
    obtain ⟨old,inside,rfl⟩ := mem_map.mp member
    refine ⟨old,inside,?_⟩
    split
    next pinned =>
      rw [if_pos pinned] at held
      have points := (pointers old inside id).mpr ⟨held,isOpen⟩
      exact (away (Option.some.inj (points.symm.trans pinned.1))).elim
    · exact ⟨rfl,le_refl _⟩
  refine solvency.tables ?_ (le_refl _) ?_ ?_ ?_
  · intro row member
    obtain ⟨old,inside,_,amount⟩ := debited_row keys pointers submitted own finalizes member
    rw [amount]
    by_cases held : old.id ∈ (itemsOf db batch.id).map Item.balance_id
    · have enough := debit_enough keys rich inside held
      omega
    · rw [Sql.sumAt_absent held,sub_zero]
      exact solvency.positive old inside
  · intro after member committed
    obtain ⟨old,inside,rfl⟩ := mem_map.mp member
    rcases settles old inside with ⟨_,final⟩ | ⟨away,same⟩
    · rw [final] at committed
      exact absurd committed.1 (by decide)
    · rw [same] at committed ⊢
      exact solvent old.id away ⟨old,inside,rfl,committed.1⟩ (solvency.committed old inside committed)
  · intro id _ now
    obtain ⟨after,member,rfl,reserved⟩ := now
    obtain ⟨old,inside,rfl⟩ := mem_map.mp member
    rcases settles old inside with ⟨_,final⟩ | ⟨away,same⟩
    · rw [final] at reserved
      cases reserved
    · rw [same] at reserved ⊢
      exact ⟨⟨old,inside,rfl,reserved⟩,solvent old.id away ⟨old,inside,rfl,by simp [reserved,openStatuses]⟩⟩
  · intro index owner found planned holds
    obtain ⟨row,inside,same,enough,idle⟩ := holds
    refine ⟨_,mem_map_of_mem inside,?_⟩
    split
    next pinned =>
      -- a row of the plan would be pinned by a batch that is only reserved
      obtain ⟨⟨other,member,here,reserved⟩,_⟩ := idle batch.id pinned.1
      rw [only other member here,status] at reserved
      cases reserved
    · refine ⟨same,enough,fun id points => ?_⟩
      obtain ⟨⟨other,member,here,reserved⟩,idle'⟩ := idle id points
      refine ⟨?_,idle'⟩
      rcases settles other member with ⟨equal,_⟩ | ⟨_,unchanged⟩
      · rw [only other member equal,status] at reserved
        cases reserved
      · exact ⟨_,mem_map_of_mem member,(touch_id ..).trans here,by rw [unchanged]; exact reserved⟩

theorem known_fresh (solvency : Solvency db lockOwner standings) {standing : Standing} (member : standing ∈ standings) :
    db.nextBatchId ∉ standing.reserved ∧ db.nextBatchId ∉ standing.cleared := by
  constructor
  · intro told
    exact Nat.lt_irrefl _ (solvency.known standing member _ (.inl told))
  · intro told
    exact Nat.lt_irrefl _ (solvency.known standing member _ (.inr told))

theorem pinned_row {ids : List ℕ} {row : BalanceRow} (member : row ∈ pinned id ids db.balance) :
    ∃ old ∈ db.balance, old.id = row.id ∧ old.amount = row.amount := by
  obtain ⟨old,inside,rfl⟩ := mem_map.mp member
  refine ⟨old,inside,?_⟩
  split <;> exact ⟨rfl,rfl⟩

theorem Solvency.reserve (solvency : Solvency db lockOwner standings) (keys : Keys db) (plan : BatchPlan) :
    Solvency (afterReserve plan db) lockOwner standings := by
  have solvent (id : ℕ) (old : id < db.nextBatchId) (before : Solvent db id) : Solvent (afterReserve plan db) id := by
    refine solvent_extend before ?_ ?_
    · rw [itemsOf_reserve keys,if_neg (by omega)]
    · intro row member _
      obtain ⟨old,inside,same,amount⟩ := pinned_row member
      exact ⟨old,inside,same,amount.le⟩
  refine solvency.tables ?_ (Nat.le_succ _) ?_ ?_ ?_
  · intro row member
    obtain ⟨old,inside,_,amount⟩ := pinned_row member
    rw [← amount]
    exact solvency.positive old inside
  · intro batch member committed
    rcases mem_append.mp member with old | new
    · exact solvent batch.id (keys.fresh batch old) (solvency.committed batch old committed)
    · rw [mem_singleton.mp new] at committed
      exact (committed.2 rfl).elim
  · intro id old now
    refine ⟨?_,solvent id old⟩
    obtain ⟨batch,member,rfl,reserved⟩ := now
    rcases mem_append.mp member with inside | new
    · exact ⟨batch,inside,rfl,reserved⟩
    · rw [mem_singleton.mp new] at old
      exact (Nat.lt_irrefl _ old).elim
  · intro index owner found planned holds
    obtain ⟨row,inside,same,enough,idle⟩ := holds
    refine ⟨_,mem_map_of_mem inside,?_⟩
    split
    · refine ⟨same,enough,fun id points => ?_⟩
      cases points
      refine ⟨⟨_,mem_append_right _ (mem_singleton_self _),rfl,rfl⟩,?_,?_⟩
      · intro standing member
        exact (known_fresh solvency member).2
      · exact (known_fresh solvency (mem_of_getElem? found)).1
    · refine ⟨same,enough,fun id points => ?_⟩
      obtain ⟨⟨batch,member,here,reserved⟩,idle'⟩ := idle id points
      exact ⟨⟨batch,mem_append_left _ member,here,reserved⟩,idle'⟩

theorem Solvency.credit (solvency : Solvency db lockOwner standings)
    (batches : after.payment_batches = db.payment_batches)
    (items : after.payment_batch_items = db.payment_batch_items) (next : after.nextBatchId = db.nextBatchId)
    (keys : Keys db) (positive : ∀ row ∈ after.balance, 0 ≤ row.amount)
    (forward : ∀ row ∈ db.balance, ∃ now ∈ after.balance, now.id = row.id ∧ row.amount ≤ now.amount ∧
      now.pending_batch_id = row.pending_batch_id)
    (distinct : (after.balance.map BalanceRow.id).Nodup) : Solvency after lockOwner standings := by
  have solvent (id : ℕ) (before : Solvent db id) : Solvent after id := by
    have same : itemsOf after id = itemsOf db id := by rw [itemsOf,items,itemsOf]
    refine solvent_extend before same ?_
    intro row member held
    obtain ⟨item,inside,_,here⟩ := held
    obtain ⟨old,there,equal⟩ := keys.itemBalance item inside
    obtain ⟨now,now_mem,now_id,more,_⟩ := forward old there
    have unique : now = row := inj_on_of_nodup_map distinct now_mem member (now_id.trans (equal.trans here))
    exact ⟨old,there,equal.trans here,unique ▸ more⟩
  refine solvency.tables positive next.ge ?_ ?_ ?_
  · intro batch member committed
    exact solvent batch.id (solvency.committed batch (batches ▸ member) committed)
  · intro id _ now
    refine ⟨?_,solvent id⟩
    unfold Still at now ⊢
    rwa [batches] at now
  · intro index owner found planned holds
    obtain ⟨row,inside,same,enough,idle⟩ := holds
    obtain ⟨now,now_mem,now_id,more,pending⟩ := forward row inside
    refine ⟨now,now_mem,now_id.trans same,enough.trans more,fun id points => ?_⟩
    obtain ⟨still,idle'⟩ := idle id (pending ▸ points)
    refine ⟨?_,idle'⟩
    unfold Still at still ⊢
    rwa [batches]

end Tables

section Standings

variable {db : Db} {lockOwner : Option ℕ} {standings : List Standing} {index : ℕ} {actor next : Standing}

theorem mem_standings {standing : Standing} (member : standing ∈ standings.set index next) :
    standing ∈ standings ∨ standing = next := mem_or_eq_of_mem_set member

theorem Holds.mono {others : List Standing} {owner later : Standing} {planned : PayoutRow}
    (holds : Holds db standings owner planned)
    (idle : ∀ id, (∀ standing ∈ standings, id ∉ standing.cleared) → id ∉ owner.reserved →
      (∀ standing ∈ others, id ∉ standing.cleared) ∧ id ∉ later.reserved) : Holds db others later planned := by
  obtain ⟨row,inside,same,enough,before⟩ := holds
  refine ⟨row,inside,same,enough,fun id points => ?_⟩
  obtain ⟨still,unclear,unowned⟩ := before id points
  exact ⟨still,idle id unclear unowned⟩

section

variable (solvency : Solvency db lockOwner standings) (found : standings[index]? = some actor)
include solvency found

theorem Solvency.learn (known : ∀ id, id ∈ next.reserved ∨ id ∈ next.cleared → id < db.nextBatchId)
    (cleared : ∀ id ∈ next.cleared, Still db id → Solvent db id)
    (reserved : lockOwner = some index → ∀ id ∈ next.reserved, Still db id → Solvent db id)
    (quiet : lockOwner ≠ some index → next.cleared ⊆ actor.cleared)
    (plan : lockOwner = some index → ∀ planned ∈ next.rows, planned.id ∉ next.drawn →
      Holds db (standings.set index next) next planned) : Solvency db lockOwner (standings.set index next) := by
  have inside := mem_of_getElem? found
  refine ⟨solvency.positive,solvency.committed,?_,?_,?_,?_⟩
  · intro standing member id told
    rcases mem_standings member with old | rfl
    · exact solvency.known standing old id told
    · exact known id told
  · intro standing member id clear
    rcases mem_standings member with old | rfl
    · exact solvency.cleared standing old id clear
    · exact cleared id clear
  · intro other owner owns there id own
    rw [getElem?_set] at there
    split at there
    next here =>
      split at there
      · cases there
        exact reserved (here ▸ owns) id own
      · cases there
    · exact solvency.reserved other owner owns there id own
  · intro other owner owns there planned member undrawn
    rw [getElem?_set] at there
    split at there
    next here =>
      split at there
      · cases there
        exact plan (here ▸ owns) planned member undrawn
      · cases there
    next elsewhere =>
      have idle := quiet fun own => elsewhere (Option.some.inj (own.symm.trans owns))
      apply (solvency.plan other owner owns there planned member undrawn).mono
      intro id unclear unowned
      refine ⟨?_,unowned⟩
      intro standing inside'
      rcases mem_standings inside' with old | rfl
      · exact unclear standing old
      · exact fun clear => unclear actor inside (idle clear)

theorem Solvency.ask : Solvency db lockOwner (standings.set index {cleared := actor.cleared}) := by
  have inside := mem_of_getElem? found
  refine solvency.learn found ?_ (fun id clear => solvency.cleared actor inside id clear) ?_
    (fun _ => Subset.refl _) ?_
  · intro id told
    rcases told with none | clear
    · cases none
    · exact solvency.known actor inside id (.inr clear)
  · intro _ id none
    cases none
  · intro _ planned none
    cases none

theorem Solvency.read (walletMin : ℕ) :
    Solvency db lockOwner (standings.set index {actor with rows := selectPayoutRows db walletMin, drawn := []}) := by
  have inside := mem_of_getElem? found
  refine solvency.learn found (fun id told => solvency.known actor inside id told)
    (fun id clear => solvency.cleared actor inside id clear) ?_ (fun _ => Subset.refl _) ?_
  · intro owns id own
    exact solvency.reserved index actor owns found id own
  · intro _ planned member _
    obtain ⟨row,chosen,rfl⟩ := mem_map.mp member
    obtain ⟨there,free⟩ := mem_filter.mp ((mem_insertionSort _).mp chosen)
    simp only [Bool.and_eq_true,Option.isNone_iff_eq_none] at free
    refine ⟨row,there,rfl,le_refl _,fun id points => ?_⟩
    rw [free.2] at points
    cases points

theorem Solvency.clear (owns : lockOwner = some index) :
    Solvency db lockOwner (standings.set index {actor with cleared := actor.reserved ++ actor.cleared}) := by
  have inside := mem_of_getElem? found
  refine solvency.learn found ?_ ?_ ?_ (fun other => (other owns).elim) ?_
  · intro id told
    rcases told with own | clear
    · exact solvency.known actor inside id (.inl own)
    · exact solvency.known actor inside id (mem_append.mp clear)
  · intro id clear
    rcases mem_append.mp clear with own | old
    · exact solvency.reserved index actor owns found id own
    · exact solvency.cleared actor inside id old
  · intro _ id own
    exact solvency.reserved index actor owns found id own
  · intro _ planned member undrawn
    apply (solvency.plan index actor owns found planned member undrawn).mono
    intro id unclear unowned
    refine ⟨?_,unowned⟩
    intro standing there
    rcases mem_standings there with old | rfl
    · exact unclear standing old
    · intro clear
      rcases mem_append.mp clear with own | old
      · exact unowned own
      · exact unclear actor inside old

theorem Solvency.draw {id : ℕ}
    {drawn : List ℕ} (known : id < db.nextBatchId) (rich : lockOwner = some index → Solvent db id)
    (took : ∀ row ∈ db.balance, row.pending_batch_id = some id → row.id ∈ drawn) :
    Solvency db lockOwner (standings.set index
      {actor with drawn := drawn ++ actor.drawn, reserved := id :: actor.reserved}) := by
  have inside := mem_of_getElem? found
  refine solvency.learn found ?_ (fun other clear => solvency.cleared actor inside other clear) ?_
    (fun _ => Subset.refl _) ?_
  · intro other told
    rcases told with own | clear
    · rcases mem_cons.mp own with rfl | old
      · exact known
      · exact solvency.known actor inside other (.inl old)
    · exact solvency.known actor inside other (.inr clear)
  · intro owns other own
    rcases mem_cons.mp own with rfl | old
    · exact fun _ => rich owns
    · exact solvency.reserved index actor owns found other old
  · intro owns planned member undrawn
    have free : planned.id ∉ actor.drawn := fun old => undrawn (mem_append_right _ old)
    obtain ⟨row,there,same,enough,idle⟩ := solvency.plan index actor owns found planned member free
    refine ⟨row,there,same,enough,fun other points => ?_⟩
    obtain ⟨still,unclear,unowned⟩ := idle other points
    refine ⟨still,?_,?_⟩
    · intro standing present
      rcases mem_standings present with old | rfl
      · exact unclear standing old
      · exact unclear actor inside
    · intro own
      rcases mem_cons.mp own with rfl | old
      · exact undrawn (mem_append_left _ (same ▸ took row there points))
      · exact unowned old

end

theorem Solvency.pass (solvency : Solvency db lockOwner standings) {owner : Option ℕ}
    (passes : ∀ other, owner = some other → lockOwner = some other ∨
      ∀ standing, standings[other]? = some standing → standing.reserved = [] ∧ standing.rows = []) :
    Solvency db owner standings := by
  refine ⟨solvency.positive,solvency.committed,solvency.known,solvency.cleared,?_,?_⟩
  · intro other standing owns there id own
    rcases passes other owns with before | fresh
    · exact solvency.reserved other standing before there id own
    · rw [(fresh standing there).1] at own
      cases own
  · intro other standing owns there planned member
    rcases passes other owns with before | fresh
    · exact solvency.plan other standing before there planned member
    · rw [(fresh standing there).2] at member
      cases member

theorem Solvency.start (solvency : Solvency db lockOwner standings) :
    Solvency db lockOwner (standings ++ [⟨[],[],[],[]⟩]) := by
  have both {standing : Standing} (member : standing ∈ standings ++ [⟨[],[],[],[]⟩]) : standing ∈ standings ∨
      standing = ⟨[],[],[],[]⟩ :=
    (mem_append.mp member).imp id mem_singleton.mp
  have at_ {other : ℕ} {standing : Standing} (there : (standings ++ [⟨[],[],[],[]⟩])[other]? = some standing) :
      standings[other]? = some standing ∨ standing = ⟨[],[],[],[]⟩ := by
    rw [getElem?_append] at there
    split at there
    · exact .inl there
    · exact .inr (mem_singleton.mp (mem_of_getElem? there))
  refine ⟨solvency.positive,solvency.committed,?_,?_,?_,?_⟩
  · intro standing member id told
    rcases both member with old | rfl
    · exact solvency.known standing old id told
    · rcases told with none | none <;> cases none
  · intro standing member id clear
    rcases both member with old | rfl
    · exact solvency.cleared standing old id clear
    · cases clear
  · intro other standing owns there id own
    rcases at_ there with old | rfl
    · exact solvency.reserved other standing owns old id own
    · cases own
  · intro other standing owns there planned member undrawn
    rcases at_ there with old | rfl
    · apply (solvency.plan other standing owns old planned member undrawn).mono
      intro id unclear unowned
      refine ⟨?_,unowned⟩
      intro any_ present
      rcases both present with before | rfl
      · exact unclear any_ before
      · exact not_mem_nil
    · cases member

end Standings
end NodejsPool.Payments
