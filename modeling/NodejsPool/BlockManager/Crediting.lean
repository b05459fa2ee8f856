import NodejsPool.BlockManager.PayoutContract

/-! Every block is credited exactly once: what one transaction writes, and the
invariant of all interleavings, failures and crashes of payouts. -/
namespace NodejsPool.BlockManager.Payout
open Async Function List

section Transaction

variable {credits : List BalanceCredit} {credit : BalanceCredit} {id : Nat} {payees : List (BalanceKey × ℤ)}

def creditOf (credits : List BalanceCredit) (id : Nat) : ℤ :=
  Sql.sumAt BalanceCredit.id BalanceCredit.amount credits id

def creditBalance (credits : List BalanceCredit) (balance : List BalanceRow) : List BalanceRow :=
  balance.map fun row => {row with amount := row.amount + creditOf credits row.id}

@[simp] theorem creditOf_nil (id : Nat) : creditOf [] id = 0 := rfl

theorem creditOf_append (left right : List BalanceCredit) (id : Nat) :
    creditOf (left ++ right) id = creditOf left id + creditOf right id := Sql.sumAt_append _ _ _ _ _

theorem creditOf_cons (credit : BalanceCredit) (credits : List BalanceCredit) (id : Nat) :
    creditOf (credit::credits) id = (if credit.id = id then credit.amount else 0) + creditOf credits id :=
  Sql.sumAt_cons _ _ _ _ _

private theorem updateBalance_balance {batch : List BalanceCredit} (distinct : (batch.map BalanceCredit.id).Nodup)
    (db : Db) : (updateBalance batch db).2 = {db with balance := creditBalance batch db.balance} := by
  have rows : (updateBalance batch db).2.balance = creditBalance batch db.balance := by
    apply map_congr_left
    intro row _
    by_cases member : row.id ∈ batch.map BalanceCredit.id
    · rw [if_pos member,caseAmount,Sql.caseAt_eq distinct]
      rfl
    · rw [if_neg member,creditOf,Sql.sumAt_absent member]
      simp
  rw [← rows]
  rfl

private theorem creditBalance_append (left right : List BalanceCredit) (balance : List BalanceRow) :
    creditBalance right (creditBalance left balance) = creditBalance (left ++ right) balance := by
  simp [creditBalance,creditOf_append,add_assoc]

theorem applyBatches_writes {batches : List (List BalanceCredit)} {before after : Db}
    (distinct : ∀ batch ∈ batches, (batch.map BalanceCredit.id).Nodup)
    (yields : (applyBatches batches).Yields before () after) :
    after = {before with balance := creditBalance batches.flatten before.balance} := by
  induction batches generalizing before with
  | nil =>
    obtain ⟨_,rfl⟩ := Work.yields_pure yields
    simp [creditBalance]
  | cons batch batches ih =>
    obtain ⟨affectedRows,middle,updated,rest⟩ := Work.yields_bind yields
    obtain ⟨head,tail⟩ := forall_mem_cons.mp distinct
    have written : middle = (updateBalance batch before).2 := by
      have ran := Except.ok.inj (Work.yields_statement updated)
      exact (congrArg Prod.snd ran).symm
    split at rest
    · exact (Work.yields_throw rest).elim
    · rw [ih tail rest,written,updateBalance_balance head]
      simp [creditBalance_append]

private theorem flatten_slices {A : Type} {size steps : Nat} {items : List A} (positive : 0 < size)
    (enough : items.length ≤ steps) : (slices size steps items).flatten = items := by
  induction steps generalizing items with
  | zero =>
    rw [length_eq_zero_iff.mp (Nat.le_zero.mp enough)]
    rfl
  | succ steps ih =>
    cases items with
    | nil => rfl
    | cons item items =>
      have shorter : ((item::items).drop size).length ≤ steps := by
        simp only [length_drop,length_cons] at enough ⊢
        omega
      simp only [slices,isEmpty_cons,Bool.false_eq_true,if_false,flatten_cons,ih shorter]
      exact take_append_drop size _

private theorem mem_slices_sublist {A : Type} {size steps : Nat} {items slice : List A}
    (member : slice ∈ slices size steps items) : slice.Sublist items := by
  induction steps generalizing items with
  | zero => cases member
  | succ steps ih =>
    unfold slices at member
    split at member
    · cases member
    · rcases mem_cons.mp member with rfl | later
      · exact take_sublist _ _
      · exact (ih later).trans (drop_sublist _ _)

theorem payBlock_writes {hex : String} {blockReward : ℕ} {port : ℤ}
    {before after : Db} (distinct : (credits.map BalanceCredit.id).Nodup)
    (yields : (payBlockWork hex blockReward port credits).Yields before () after) :
    hex ∉ before.paid_blocks.map PaidBlock.hex ∧
      after = {before with
        paid_blocks := before.paid_blocks ++ [⟨hex,blockReward,port⟩]
        balance := creditBalance credits before.balance} := by
  obtain ⟨_,middle,inserted,applied⟩ := Work.yields_bind yields
  have ran := Work.yields_statement inserted
  unfold insertPaidBlock at ran
  split at ran
  · cases ran
  next fresh =>
    cases ran
    refine ⟨fresh,?_⟩
    have slicesDistinct : ∀ batch ∈ slices balanceUpdateBatchSize credits.length credits,
        (batch.map BalanceCredit.id).Nodup := by
      intro batch member
      exact distinct.sublist ((mem_slices_sublist member).map _)
    have whole : (slices balanceUpdateBatchSize credits.length credits).flatten = credits :=
      flatten_slices (by decide) le_rfl
    rw [applyBatches_writes slicesDistinct applied,whole]

theorem addCredit_ids (distinct : (credits.map BalanceCredit.id).Nodup)
    (credit : BalanceCredit) : ((addCredit credits credit).map BalanceCredit.id).Nodup := by
  unfold addCredit
  split
  · exact distinct
  · split
    · have same : (credits.map fun other => if other.id = credit.id then
          {other with amount := other.amount + credit.amount} else other).map BalanceCredit.id =
          credits.map BalanceCredit.id := by
        rw [map_map]
        apply map_congr_left
        intro other _
        change (ite _ _ _ : BalanceCredit).id = _
        split <;> rfl
      rw [same]
      exact distinct
    next absent =>
      rw [map_append,nodup_append]
      refine ⟨distinct,by simp,?_⟩
      intro id member other last
      obtain rfl := mem_singleton.mp last
      intro same
      exact absent (same ▸ member)

theorem foldl_addCredit_distinct (resolved credits : List BalanceCredit)
    (distinct : (credits.map BalanceCredit.id).Nodup) :
    ((resolved.foldl addCredit credits).map BalanceCredit.id).Nodup := by
  induction resolved generalizing credits with
  | nil => exact distinct
  | cons credit resolved ih => exact ih _ (addCredit_ids distinct credit)

private theorem creditOf_raise
    (distinct : (credits.map BalanceCredit.id).Nodup) (member : credit.id ∈ credits.map BalanceCredit.id)
    (id : Nat) : creditOf (credits.map fun other => if other.id = credit.id then
      {other with amount := other.amount + credit.amount} else other) id =
      creditOf credits id + if credit.id = id then credit.amount else 0 := by
  induction credits with
  | nil => cases member
  | cons head tail ih =>
    obtain ⟨fresh,distinct⟩ := nodup_cons.mp distinct
    rw [map_cons,creditOf_cons,creditOf_cons]
    by_cases here : head.id = credit.id
    · have rest : (tail.map fun other => if other.id = credit.id then
          {other with amount := other.amount + credit.amount} else other) = tail := by
        conv_rhs => rw [← map_id tail]
        apply map_congr_left
        intro other inside
        rw [if_neg]
        · rfl
        · intro same
          exact fresh (here ▸ same ▸ mem_map_of_mem inside)
      rw [rest,if_pos here,here]
      split <;> ring
    · have inside : credit.id ∈ tail.map BalanceCredit.id := by
        rcases mem_cons.mp member with same | inside
        · exact (here same.symm).elim
        · exact inside
      rw [ih distinct inside,if_neg here]
      ring

theorem creditOf_addCredit (distinct : (credits.map BalanceCredit.id).Nodup) (credit : BalanceCredit) (id : Nat) :
    creditOf (addCredit credits credit) id =
      creditOf credits id + if credit.id = id then credit.amount else 0 := by
  unfold addCredit
  split
  next zero => simp [zero]
  · split
    next member => exact creditOf_raise distinct member id
    · rw [creditOf_append,creditOf_cons]
      simp

theorem creditOf_foldl (resolved credits : List BalanceCredit)
    (distinct : (credits.map BalanceCredit.id).Nodup) (id : Nat) :
    creditOf (resolved.foldl addCredit credits) id = creditOf credits id + creditOf resolved id := by
  induction resolved generalizing credits with
  | nil => simp
  | cons credit resolved ih =>
    rw [foldl_cons,ih _ (addCredit_ids distinct credit),creditOf_addCredit distinct,creditOf_cons]
    ring

private theorem addCredit_mem (member : id ∈ (addCredit credits credit).map BalanceCredit.id) :
    id ∈ credits.map BalanceCredit.id ∨ id = credit.id := by
  unfold addCredit at member
  split at member
  · exact .inl member
  · split at member
    · rw [map_map] at member
      obtain ⟨other,inside,rfl⟩ := mem_map.mp member
      have kept : (if other.id = credit.id then {other with amount := other.amount + credit.amount}
          else other : BalanceCredit).id = other.id := by
        split <;> rfl
      refine .inl ?_
      rw [comp_apply,kept]
      exact mem_map_of_mem inside
    · rw [map_append] at member
      rcases mem_append.mp member with old | new
      · exact .inl old
      · exact .inr (mem_singleton.mp new)

private theorem foldl_addCredit_mem {resolved : List BalanceCredit}
    (member : id ∈ (resolved.foldl addCredit credits).map BalanceCredit.id) :
    id ∈ credits.map BalanceCredit.id ∨ id ∈ resolved.map BalanceCredit.id := by
  induction resolved generalizing credits with
  | nil => exact .inl member
  | cons credit resolved ih =>
    rcases ih member with first | later
    · rcases addCredit_mem first with old | same
      · exact .inl old
      · exact .inr (by simp [same])
    · exact .inr (mem_cons_of_mem _ later)

theorem settles_distinct {known : String → Nat → Prop} (settles : Settles known payees credits) :
    (credits.map BalanceCredit.id).Nodup := by
  obtain ⟨resolved,rfl,_⟩ := settles
  exact foldl_addCredit_distinct _ _ nodup_nil

theorem settles_known {known : String → Nat → Prop} (settles : Settles known payees credits)
    (member : id ∈ credits.map BalanceCredit.id) : ∃ key, known key id := by
  obtain ⟨resolved,rfl,pairs⟩ := settles
  rcases foldl_addCredit_mem member with none | member
  · cases none
  · obtain ⟨credit,inside,rfl⟩ := mem_map.mp member
    obtain ⟨i,bound,rfl⟩ := mem_iff_getElem.mp inside
    obtain ⟨same,get⟩ := forall₂_iff_get.mp pairs
    exact ⟨_,(get i (same ▸ bound) bound).1⟩

theorem Settles.imp {known weaker : String → Nat → Prop} (settles : Settles known payees credits)
    (holds : ∀ key id, known key id → weaker key id) : Settles weaker payees credits := by
  obtain ⟨resolved,same,pairs⟩ := settles
  exact ⟨resolved,same,pairs.imp fun _ _ pair => ⟨holds _ _ pair.1,pair.2⟩⟩

end Transaction

section Runs

variable {shared next : Shared} {event : Event signature} {id : Nat} {credits : List BalanceCredit}

def Known (db : Db) (key : String) (id : Nat) : Prop :=
  ∃ row ∈ db.balance, row.id = id ∧ cacheKey row.key = key

def CreditedInFull (shared : Shared) (entry : Credited) : Prop :=
  ∃ rows ∈ shared.stored entry.hex,
    Settles (Known shared.db) (payoutCredits rows entry.reward) entry.credits

def totalCredited (credited : List Credited) (id : Nat) : ℤ :=
  (credited.map fun entry => creditOf entry.credits id).sum

def paidHexes (shared : Shared) : List String := shared.db.paid_blocks.map PaidBlock.hex

structure Sound (shared : Shared) : Prop where
  hexes : paidHexes shared = shared.credited.map Credited.hex
  distinct : (paidHexes shared).Nodup
  balances : ∀ row ∈ shared.db.balance,
    row.amount = shared.external row.id + totalCredited shared.credited row.id
  credited : ∀ entry ∈ shared.credited, CreditedInFull shared entry
  stored : ∀ hex, shared.db.block_balance hex ∈ shared.stored hex
  cached : ∀ runtime key id, (shared.memory runtime).balanceIdCache key = some id → Known shared.db key id
  unlocked : ∀ block ∈ shared.blocks, block.unlocked = true → block.valid = true → block.moved = false →
    block.hash ∈ paidHexes shared

def Remains (shared : Shared) : Event signature → Prop
  | ⟨.cachedBalanceId _ key,.ok (some id)⟩ => Known shared.db key id
  | ⟨.selectBlockBalance hex,.ok rows⟩ => rows ∈ shared.stored hex
  | ⟨.selectBalanceId key,.ok ids⟩ => ∀ id ∈ ids, Known shared.db (cacheKey key) id
  | ⟨.insertBalance key,.ok id⟩ => Known shared.db (cacheKey key) id
  | ⟨.payBlock hex _ _ _,.ok _⟩ => hex ∈ paidHexes shared
  | _ => True

structure Grows (shared next : Shared) : Prop where
  known : ∀ key id, Known shared.db key id → Known next.db key id
  stored : ∀ hex, shared.stored hex ⊆ next.stored hex
  paid : paidHexes shared ⊆ paidHexes next

def Told (shared : Shared) (pasts : List (Past Job signature)) : Prop :=
  ∀ past ∈ pasts, ∀ event ∈ past.history, Remains shared event

theorem Grows.of_eq (db : next.db = shared.db) (stored : next.stored = shared.stored) : Grows shared next := by
  constructor
  · intro key id known
    rwa [db]
  · intro hex rows member
    rwa [stored]
  · intro hex member
    rwa [paidHexes,db]

theorem Remains.grows (remains : Remains shared event) (grows : Grows shared next) : Remains next event := by
  unfold Remains at remains ⊢
  split
  · exact grows.known _ _ remains
  · exact grows.stored _ remains
  · intro id member
    exact grows.known _ _ (remains id member)
  · exact grows.known _ _ remains
  · exact grows.paid remains
  · trivial

theorem Remains.known {key : String}
    (remains : Remains shared event) (found : Found event key id) : Known shared.db key id := by
  cases found with
  | cached => exact remains
  | selected member => exact remains id member
  | inserted => exact remains

theorem CreditedInFull.grows {entry : Credited}
    (full : CreditedInFull shared entry) (grows : Grows shared next) : CreditedInFull next entry := by
  obtain ⟨rows,member,settles⟩ := full
  exact ⟨rows,grows.stored _ member,settles.imp grows.known⟩

theorem totalCredited_append (credited : List Credited) (entry : Credited) (id : Nat) :
    totalCredited (credited ++ [entry]) id = totalCredited credited id + creditOf entry.credits id := by
  simp [totalCredited]

private theorem totalCredited_fresh (sound : Sound shared)
    (fresh : id ∉ shared.db.balance.map BalanceRow.id) : totalCredited shared.credited id = 0 := by
  apply sum_eq_zero
  intro amount member
  obtain ⟨entry,inside,rfl⟩ := mem_map.mp member
  obtain ⟨rows,_,settles⟩ := sound.credited entry inside
  apply Sql.sumAt_absent
  intro credited
  obtain ⟨key,row,here,rfl,_⟩ := settles_known settles credited
  exact fresh (mem_map_of_mem here)

theorem remember_sound (sound : Sound shared) (runtime : Nat) (change : Memory → Memory)
    (cached : ∀ key id, (change (shared.memory runtime)).balanceIdCache key = some id →
      Known shared.db key id) :
    Sound (shared.remember runtime change) ∧ Grows shared (shared.remember runtime change) := by
  refine ⟨{sound with credited := ?_, cached := ?_},Grows.of_eq rfl rfl⟩
  · intro entry member
    exact (sound.credited entry member).grows (Grows.of_eq rfl rfl)
  · intro other key id some
    by_cases same : other = runtime
    · subst same
      apply cached key id
      simpa [Shared.remember] using some
    · apply sound.cached other key id
      simpa [Shared.remember,update_of_ne same] using some

theorem addBalance_sound (sound : Sound shared) {row : BalanceRow} (added : shared.addBalance row = some next) :
    Sound next ∧ Grows shared next ∧ Known next.db (cacheKey row.key) row.id := by
  unfold Shared.addBalance at added
  split at added
  · cases added
  next fresh =>
    cases added
    have grows : Grows shared {shared with
        db := {shared.db with balance := shared.db.balance ++ [row]}
        external := update shared.external row.id row.amount} := by
      refine ⟨?_,fun _ _ member => member,fun _ member => member⟩
      intro key id known
      obtain ⟨other,member,rest⟩ := known
      exact ⟨other,mem_append_left _ member,rest⟩
    refine ⟨{sound with balances := ?_, credited := ?_, cached := ?_},grows,?_⟩
    · intro other member
      rcases mem_append.mp member with old | new
      · have different : other.id ≠ row.id := by
          intro same
          exact fresh (same ▸ mem_map_of_mem old)
        rw [sound.balances other old]
        simp [update_of_ne different]
      · obtain rfl := mem_singleton.mp new
        simp [totalCredited_fresh sound fresh]
    · intro entry member
      exact (sound.credited entry member).grows grows
    · intro runtime key id some
      exact grows.known key id (sound.cached runtime key id some)
    · exact ⟨row,mem_append_right _ (mem_singleton_self row),rfl,rfl⟩

private theorem known_creditBalance {db : Db} {key : String}
    (known : Known db key id) {after : Db} (same : after.balance = creditBalance credits db.balance) :
    Known after key id := by
  obtain ⟨row,member,rest⟩ := known
  refine ⟨{row with amount := row.amount + creditOf credits row.id},?_,rest⟩
  rw [same]
  exact mem_map_of_mem member

private theorem creditBalance_ne {balance : List BalanceRow} (distinct : (credits.map BalanceCredit.id).Nodup)
    (known : ∀ id ∈ credits.map BalanceCredit.id, ∃ row ∈ balance, row.id = id)
    (changed : totalCredit credits ≠ 0) : creditBalance credits balance ≠ balance := by
  intro same
  apply changed
  apply sum_eq_zero
  intro amount member
  obtain ⟨credit,inside,rfl⟩ := mem_map.mp member
  obtain ⟨row,here,id⟩ := known _ (mem_map_of_mem inside)
  have fixed : ∀ other ∈ balance, creditOf credits other.id = 0 := by
    intro other place
    have unchanged := map_inj_left.mp (same.trans (map_id balance).symm) other place
    have amounts := congrArg BalanceRow.amount unchanged
    simpa using amounts
  have amount : creditOf credits credit.id = credit.amount := Sql.sumAt_mem distinct inside
  rw [← amount,← id]
  exact fixed row here

private theorem payBlock_sound (sound : Sound shared) {fate : Fate} {hex : String} {blockReward : ℕ}
    {port : ℤ} (changed : totalCredit credits ≠ 0) {rows : List BlockBalanceRow} (selected : rows ∈ shared.stored hex)
    (settles : Settles (Known shared.db) (payoutCredits rows blockReward) credits) {outcome : Except Failure Unit}
    (ran : shared.payBlock fate hex blockReward port credits = (outcome,next)) :
    Sound next ∧ Grows shared next ∧ (outcome = .ok () → hex ∈ paidHexes next) := by
  have distinct := settles_distinct settles
  unfold Shared.payBlock at ran
  cases transacted : transact .lost fate (payBlockWork hex blockReward port credits) shared.db with
  | mk result db =>
    rw [transacted] at ran
    cases ran
    rcases transact_cases transacted with ⟨rfl,error,rfl⟩ | ⟨⟨⟩,yields,_⟩
    · rw [if_pos rfl]
      exact ⟨sound,Grows.of_eq rfl rfl,fun same => by cases same⟩
    · obtain ⟨fresh,rfl⟩ := payBlock_writes distinct yields
      have moves : creditBalance credits shared.db.balance ≠ shared.db.balance := by
        apply creditBalance_ne distinct _ changed
        intro id member
        obtain ⟨key,row,here,same,_⟩ := settles_known settles member
        exact ⟨row,here,same⟩
      rw [if_neg moves]
      have grows : Grows shared {shared with
          db := {shared.db with
            paid_blocks := shared.db.paid_blocks ++ [⟨hex,blockReward,port⟩]
            balance := creditBalance credits shared.db.balance}
          credited := shared.credited ++ [⟨hex,blockReward,credits⟩]} := by
        refine ⟨fun _ _ known => known_creditBalance known rfl,fun _ _ member => member,?_⟩
        intro other member
        simp only [paidHexes,map_append] at member ⊢
        exact mem_append_left _ member
      refine ⟨⟨?_,?_,?_,?_,sound.stored,?_,?_⟩,grows,?_⟩
      · have hexes := sound.hexes
        simp only [paidHexes] at hexes
        simp [paidHexes,hexes]
      · simp only [paidHexes,map_append,map_cons,map_nil]
        exact nodup_append.mpr ⟨sound.distinct,by simp,by
          intro other member last here
          obtain rfl := mem_singleton.mp here
          intro same
          exact fresh (same ▸ member)⟩
      · intro row member
        obtain ⟨old,inside,rfl⟩ := mem_map.mp member
        simp only [totalCredited_append,sound.balances old inside]
        ring
      · intro entry member
        rcases mem_append.mp member with old | new
        · exact (sound.credited entry old).grows grows
        · obtain rfl := mem_singleton.mp new
          exact ⟨rows,selected,settles.imp grows.known⟩
      · intro runtime key id some
        exact grows.known key id (sound.cached runtime key id some)
      · intro block member unlocked valid moved
        exact grows.paid (sound.unlocked block member unlocked valid moved)
      · intro _
        simp [paidHexes]

theorem blocks_sound (sound : Sound shared) (blocks : List BlockRecord)
    (unlocked : ∀ block ∈ blocks, block.unlocked = true → block.valid = true → block.moved = false →
      block.hash ∈ paidHexes shared) :
    Sound {shared with blocks := blocks} ∧ Grows shared {shared with blocks := blocks} :=
  ⟨{sound with
    credited := fun entry member => (sound.credited entry member).grows (Grows.of_eq rfl rfl)
    unlocked := unlocked},Grows.of_eq rfl rfl⟩

theorem attempt_cases {A : Type} {answer : Answer} {value : A} {after : Shared}
    {outcome : Except Failure A} (attempted : attempt answer value after shared = some (outcome,next)) :
    (outcome = .ok value ∧ next = after) ∨ ((∃ failure, outcome = .error failure) ∧ next = shared) := by
  cases answer <;> cases attempted
  · exact .inl ⟨rfl,rfl⟩
  · exact .inr ⟨⟨_,rfl⟩,rfl⟩

theorem unlockBlock_sound (sound : Sound shared) (kind : BlockKind) {hash : String} (paid : hash ∈ paidHexes shared) :
    Sound (shared.unlockBlock kind hash) ∧ Grows shared (shared.unlockBlock kind hash) := by
  apply blocks_sound sound
  intro block member
  obtain ⟨old,inside,rfl⟩ := mem_map.mp member
  split
  next here =>
    intro _ _ _
    exact here.2 ▸ paid
  · exact sound.unlocked old inside

theorem perform_sound {history : History signature} {answer : Answer} {call : Call}
    {outcome : signature.Outcome call} (sound : Sound shared)
    (told : ∀ event ∈ history, Remains shared event) (allowed : payoutContract.allowed history call)
    (performed : perform shared answer call = some (outcome,next)) :
    Sound next ∧ Grows shared next ∧ Remains next ⟨call,outcome⟩ := by
  have looked (key : String) (id : Nat) (known : Looked history key id) : Known shared.db key id := by
    obtain ⟨event,member,found⟩ := known
    exact (told event member).known found
  cases call with
  | canRun runtime =>
    cases performed
    exact ⟨sound,Grows.of_eq rfl rfl,trivial⟩
  | startPayment runtime =>
    cases performed
    obtain ⟨kept,grows⟩ := remember_sound sound runtime
      (fun memory => {memory with paymentInProgress := true}) (sound.cached runtime)
    exact ⟨kept,grows,trivial⟩
  | endPayment runtime =>
    cases performed
    obtain ⟨kept,grows⟩ := remember_sound sound runtime
      (fun memory => {memory with paymentInProgress := false}) (sound.cached runtime)
    exact ⟨kept,grows,trivial⟩
  | fullStop runtime =>
    cases performed
    obtain ⟨kept,grows⟩ := remember_sound sound runtime
      (fun memory => {memory with isFullStop := true}) (sound.cached runtime)
    exact ⟨kept,grows,trivial⟩
  | cachedBalanceId runtime key =>
    cases performed
    refine ⟨sound,Grows.of_eq rfl rfl,?_⟩
    cases cached : (shared.memory runtime).balanceIdCache key with
    | none => trivial
    | some id => exact sound.cached runtime key id cached
  | cacheBalanceId runtime key id =>
    cases performed
    obtain ⟨kept,grows⟩ := remember_sound sound runtime
        (fun memory => {memory with balanceIdCache := update memory.balanceIdCache key (some id)}) (by
      intro other cached some
      by_cases same : other = key
      · subst same
        obtain rfl : id = cached := by simpa using some
        exact looked _ _ allowed
      · exact sound.cached runtime other cached (by simpa [update_of_ne same] using some))
    exact ⟨kept,grows,trivial⟩
  | selectBalanceSum =>
    rcases attempt_cases performed with ⟨rfl,rfl⟩ | ⟨⟨failure,rfl⟩,rfl⟩
    · exact ⟨sound,Grows.of_eq rfl rfl,trivial⟩
    · exact ⟨sound,Grows.of_eq rfl rfl,trivial⟩
  | selectBlockBalance hex =>
    rcases attempt_cases performed with ⟨rfl,rfl⟩ | ⟨⟨failure,rfl⟩,rfl⟩
    · exact ⟨sound,Grows.of_eq rfl rfl,sound.stored hex⟩
    · exact ⟨sound,Grows.of_eq rfl rfl,trivial⟩
  | selectBalanceId key =>
    rcases attempt_cases performed with ⟨rfl,rfl⟩ | ⟨⟨failure,rfl⟩,rfl⟩
    · refine ⟨sound,Grows.of_eq rfl rfl,?_⟩
      intro id member
      obtain ⟨row,inside,rfl⟩ := mem_map.mp member
      obtain ⟨here,same⟩ := mem_filter.mp inside
      exact ⟨row,here,rfl,congrArg cacheKey (of_decide_eq_true same)⟩
    · exact ⟨sound,Grows.of_eq rfl rfl,trivial⟩
  | insertBalance key =>
    cases answer with
    | reply | fate fate => cases performed
    | refused failure =>
      cases performed
      exact ⟨sound,Grows.of_eq rfl rfl,trivial⟩
    | inserted id unknown =>
      obtain ⟨after,added,same⟩ := Option.map_eq_some_iff.mp performed
      obtain ⟨kept,grows,known⟩ := addBalance_sound sound added
      cases unknown <;> cases same
      · exact ⟨kept,grows,known⟩
      · exact ⟨kept,grows,trivial⟩
  | payBlock hex blockReward port credits =>
    cases answer with
    | reply | refused failure | inserted id unknown => cases performed
    | fate fate =>
      obtain ⟨changed,rows,selected,settles⟩ := allowed
      have stored : rows ∈ shared.stored hex := told _ selected
      obtain ⟨kept,grows,paid⟩ := payBlock_sound sound changed stored (settles.imp looked) (Option.some.inj performed)
      refine ⟨kept,grows,?_⟩
      cases outcome with
      | ok reply => exact paid rfl
      | error failure => trivial
  | unlockBlock kind hash =>
    obtain ⟨blockReward,port,credits,committed⟩ := allowed
    have paid : hash ∈ paidHexes shared := told _ committed
    obtain ⟨kept,grows⟩ := unlockBlock_sound sound kind paid
    rcases attempt_cases performed with ⟨rfl,rfl⟩ | ⟨⟨failure,rfl⟩,rfl⟩
    · exact ⟨kept,grows,trivial⟩
    · exact ⟨sound,Grows.of_eq rfl rfl,trivial⟩

theorem occur_sound {occurrence : Occurrence} (sound : Sound shared)
    (occurred : occur occurrence shared = some next) : Sound next ∧ Grows shared next := by
  cases occurrence with
  | changeBalance id amount =>
    cases occurred
    have grows : Grows shared {shared with
        db := {shared.db with balance := shared.db.balance.map fun row =>
          if row.id = id then {row with amount := row.amount + amount} else row}
        external := update shared.external id (shared.external id + amount)} := by
      refine ⟨?_,fun _ _ member => member,fun _ member => member⟩
      intro key other known
      obtain ⟨row,member,same,keys⟩ := known
      refine ⟨_,mem_map_of_mem member,?_⟩
      split
      · exact ⟨same,keys⟩
      · exact ⟨same,keys⟩
    refine ⟨{sound with balances := ?_, credited := ?_, cached := ?_},grows⟩
    · intro row member
      obtain ⟨old,inside,rfl⟩ := mem_map.mp member
      have amounts := sound.balances old inside
      split
      next here =>
        subst here
        simp only [update_self,amounts]
        ring
      next other =>
        simp only [update_of_ne other,amounts]
    · intro entry member
      exact (sound.credited entry member).grows grows
    · intro runtime key other some
      exact grows.known key other (sound.cached runtime key other some)
  | addBalance row =>
    obtain ⟨kept,grows,_⟩ := addBalance_sound sound occurred
    exact ⟨kept,grows⟩
  | replaceBlockBalance hex rows =>
    cases occurred
    have grows : Grows shared {shared with
        db := {shared.db with block_balance := update shared.db.block_balance hex rows}
        stored := update shared.stored hex (rows :: shared.stored hex)} := by
      refine ⟨fun _ _ known => known,?_,fun _ member => member⟩
      intro other versions member
      by_cases same : other = hex
      · subst same
        simpa using Or.inr member
      · simpa [update_of_ne same] using member
    refine ⟨{sound with credited := ?_, stored := ?_},grows⟩
    · intro entry member
      exact (sound.credited entry member).grows grows
    · intro other
      by_cases same : other = hex
      · subst same
        simp
      · simpa [update_of_ne same] using sound.stored other
  | storeBlock block =>
    simp only [occur] at occurred
    split at occurred
    · cases occurred
    next locked =>
      cases occurred
      apply blocks_sound sound
      intro other member
      rcases mem_append.mp member with old | new
      · exact sound.unlocked other old
      · obtain rfl := mem_singleton.mp new
        intro unlocked valid
        simp [unlocked,valid] at locked
  | invalidateBlock kind hash =>
    cases occurred
    apply blocks_sound sound
    intro block member
    obtain ⟨old,inside,rfl⟩ := mem_map.mp member
    split
    · intro _ valid
      cases valid
    · exact sound.unlocked old inside
  | moveAltBlockReward hash =>
    cases occurred
    apply blocks_sound sound
    intro block member
    obtain ⟨old,inside,rfl⟩ := mem_map.mp member
    split
    · intro _ _ moved
      cases moved
    · exact sound.unlocked old inside
  | restart runtime =>
    cases occurred
    apply remember_sound sound
    intro key id some
    cases some

structure Fresh (shared : Shared) : Prop where
  paid : shared.db.paid_blocks = []
  credited : shared.credited = []
  balances : ∀ row ∈ shared.db.balance, row.amount = shared.external row.id
  stored : ∀ hex, shared.db.block_balance hex ∈ shared.stored hex
  memory : ∀ runtime, shared.memory runtime = {}
  blocks : shared.blocks = []

private theorem fresh_sound (fresh : Fresh shared) : Sound shared := by
  constructor
  · simp [paidHexes,fresh.paid,fresh.credited]
  · simp [paidHexes,fresh.paid]
  · intro row member
    simp [fresh.balances row member,fresh.credited,totalCredited]
  · intro entry member
    simp [fresh.credited] at member
  · exact fresh.stored
  · intro runtime key id some
    simp [fresh.memory] at some
  · intro block member
    simp [fresh.blocks] at member

theorem rule : System.Rule system Fresh (fun _ => payoutContract)
    fun shared pasts => Sound shared ∧ Told shared pasts where
  meets job := runUnlocker_meets job []
  initial shared fresh := by
    refine ⟨fresh_sound fresh,?_⟩
    intro past member
    cases member
  started shared pasts job inv := by
    refine ⟨inv.1,?_⟩
    intro past member event inside
    rcases mem_append.mp member with old | new
    · exact inv.2 past old event inside
    · obtain rfl := mem_singleton.mp new
      cases inside
  performed shared pasts index past call answer outcome next inv found allowed performed := by
    obtain ⟨sound,told⟩ := inv
    have inside := mem_of_getElem? found
    obtain ⟨kept,grows,remains⟩ := perform_sound sound (told past inside) allowed performed
    refine ⟨trivial,kept,?_⟩
    intro other member event place
    rcases mem_or_eq_of_mem_set member with old | rfl
    · exact (told other old event place).grows grows
    · rcases mem_cons.mp place with rfl | earlier
      · exact remains
      · exact (told past inside event earlier).grows grows
  occurred shared pasts occurrence next inv occurred := by
    obtain ⟨kept,grows⟩ := occur_sound inv.1 occurred
    refine ⟨kept,?_⟩
    intro past member event inside
    exact (inv.2 past member event inside).grows grows

/-- Fractions once stored for the block were credited: the floored share of every payee at
a balance row of its key, and nothing else. -/
def CreditsAll (shared : Shared) (entry : Credited) : Prop :=
  ∃ rows ∈ shared.stored entry.hex, ∃ resolved : List BalanceCredit,
    List.Forall₂ (fun payee credit => Known shared.db (cacheKey payee.1) credit.id ∧ credit.amount = payee.2)
      (payoutCredits rows entry.reward) resolved ∧
    ∀ id, creditOf entry.credits id = creditOf resolved id

theorem CreditedInFull.all {entry : Credited} (full : CreditedInFull shared entry) : CreditsAll shared entry := by
  obtain ⟨rows,member,resolved,same,pairs⟩ := full
  refine ⟨rows,member,resolved,pairs,fun id => ?_⟩
  rw [same,creditOf_foldl resolved [] nodup_nil]
  simp

private theorem Sound.paid_iff (sound : Sound shared) (hex : String) :
    hex ∈ paidHexes shared ↔ ∃ entry ∈ shared.credited, entry.hex = hex ∧ CreditsAll shared entry := by
  rw [sound.hexes]
  constructor
  · intro paid
    obtain ⟨entry,member,same⟩ := mem_map.mp paid
    exact ⟨entry,member,same,(sound.credited entry member).all⟩
  · intro credited
    obtain ⟨entry,member,same,_⟩ := credited
    exact mem_map.mpr ⟨entry,member,same⟩

theorem Sound.once (sound : Sound shared) (hex : String) :
    (shared.credited.filter fun entry => entry.hex = hex).length ≤ 1 := by
  have distinct : (shared.credited.map Credited.hex).Nodup := sound.hexes ▸ sound.distinct
  have once := nodup_iff_count.mp distinct hex
  rw [count_eq_countP,countP_map,countP_eq_length_filter] at once
  have same : (fun entry : Credited => decide (entry.hex = hex)) = (fun other => other == hex) ∘ Credited.hex := by
    ext entry
    exact (Bool.beq_eq_decide_eq _ _).symm
  rwa [same]

/-- Whatever fails, crashes or interleaves: at most one committed transaction credits a block; its
`paid_blocks` row stands exactly when its credits were all applied, on top of what came from
elsewhere; and a block that is left unlocked and valid has been credited. -/
theorem block_credited_once {world : system.World} (reachable : (system.machine Fresh).Reachable world) :
    (∀ hex, (world.shared.credited.filter fun entry => entry.hex = hex).length ≤ 1) ∧
    (∀ hex, hex ∈ paidHexes world.shared ↔
      ∃ entry ∈ world.shared.credited, entry.hex = hex ∧ CreditsAll world.shared entry) ∧
    (∀ row ∈ world.shared.db.balance,
      row.amount = world.shared.external row.id + totalCredited world.shared.credited row.id) ∧
    ∀ block ∈ world.shared.blocks, block.unlocked = true → block.valid = true → block.moved = false →
      ∃ entry ∈ world.shared.credited, entry.hex = block.hash ∧ CreditsAll world.shared entry := by
  obtain ⟨sound,_⟩ := (rule.lawful reachable).invariant
  refine ⟨sound.once,sound.paid_iff,sound.balances,?_⟩
  intro block member unlocked valid moved
  exact (sound.paid_iff block.hash).mp (sound.unlocked block member unlocked valid moved)

def retriedStart : Shared where
  db := ⟨[⟨1,⟨"A",none,"pplns"⟩,5⟩],[],fun _ => []⟩
  blocks := []
  memory _ := {}
  stored _ := [[]]
  external _ := 5
  credited := []

/-- The first payout loses the acknowledgement of its commit and crashes; after the
restart a second one retries. -/
def retriedLabels : List system.Label :=
  [.occur (.storeBlock ⟨.main,"b",false,true,false⟩),.occur (.replaceBlockBalance "b" [⟨"A",none,1⟩]),
    .start ⟨0,[⟨.main,"b",10,0⟩]⟩] ++ List.replicate 7 (.act 0 .reply) ++
  [.act 0 (.fate {commit := .lost}),.crash 0,.occur (.restart 0),.start ⟨0,[⟨.main,"b",10,0⟩]⟩] ++
  List.replicate 7 (.act 1 .reply) ++ [.act 1 (.fate {})]

theorem retriedStart_fresh : Fresh retriedStart := by
  constructor
  · rfl
  · rfl
  · intro row member
    obtain rfl := mem_singleton.mp member
    rfl
  · intro hex
    exact mem_singleton_self _
  · intro runtime
    rfl
  · rfl

theorem block_credited_once_retried : ∃ world,
    (system.machine Fresh).run ⟨retriedStart,[]⟩ retriedLabels = some world ∧
      world.shared.db.balance = [⟨1,⟨"A",none,"pplns"⟩,15⟩] ∧
      ∃ entry ∈ world.shared.credited, entry.hex = "b" ∧ CreditsAll world.shared entry := by
  have ended : ((system.machine Fresh).run ⟨retriedStart,[]⟩ retriedLabels).any (fun world =>
      world.shared.db.balance = [⟨1,⟨"A",none,"pplns"⟩,15⟩] ∧ "b" ∈ paidHexes world.shared) = true := by
    decide +kernel
  obtain ⟨world,ran,facts⟩ := (Option.any_eq_true _ _).mp ended
  obtain ⟨balance,paid⟩ := of_decide_eq_true facts
  have fresh : (system.machine Fresh).initial ⟨retriedStart,[]⟩ := ⟨retriedStart_fresh,rfl⟩
  have reachable := Machine.reachable_run fresh ran
  exact ⟨world,ran,balance,((block_credited_once reachable).2.1 "b").mp paid⟩

end Runs
end NodejsPool.BlockManager.Payout
