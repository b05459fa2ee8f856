import NodejsPool.Payments.Inquiries

/-! The processor keeps the settlement contract: what each of its functions needs of the
batch it works on, and what it has established when it returns. -/
namespace NodejsPool.Payments
open Async Program

structure Held (log : Log) (batch : Batch) (items : List Item) : Prop where
  known : Known log batch.id batch.total_gross
  told : ItemsKnown log batch.id items
  canonical : ∀ hash, batch.tx_hash = some hash → Canonical hash

structure Live (log : Log) (batch : Batch) (items : List Item) : Prop extends Held log batch items where
  status : batch.status = .submitting ∨ batch.status = .submitted

structure Waiting (log : Log) (batch : Batch) (items : List Item) : Prop extends Held log batch items where
  status : batch.status = .reserved ∨ batch.status = .retrying

def Cleared (log : Log) (batch : Batch) : Prop := batch.status = .reserved → batch.id ∈ (standing log).cleared

section Rules

variable {log after : Log} {batch : Batch} {items : List Item}

theorem Held.extend (held : Held log batch items) (longer : log <:+ after) : Held after batch items :=
  ⟨held.known.extend longer,held.told.extend longer,held.canonical⟩

theorem Live.extend (live : Live log batch items)
    (longer : log <:+ after) : Live after batch items := ⟨live.toHeld.extend longer,live.status⟩

theorem Waiting.extend (waiting : Waiting log batch items)
    (longer : log <:+ after) : Waiting after batch items := ⟨waiting.toHeld.extend longer,waiting.status⟩

theorem Cleared.extend (cleared : Cleared log batch) (longer : log <:+ after) :
    Cleared after batch := fun reserved => cleared_extend longer (cleared reserved)

theorem ask_meets {call : Call} (allowed : settling log call) : (ask call).Meets settlement log (Returns anything) :=
  returns_perform allowed fun _ _ => trivial

theorem ends_meets {A B : Type} {p : Task A} {value : A → B} {good : Log → A → Prop}
    (meets : p.Meets settlement log (Returns good)) :
    (p >>= fun result => pure (value result)).Meets settlement log (Returns anything) :=
  meets.andReturns fun _ _ _ _ => trivial

end Rules

section Updates

variable {log : Log} {batch : Batch} {items : List Item} {fields : Fields} {txHash : String}

def Updated (batch : Batch) (fields : Fields) (guard : Guard) (after : Log) (result : Bool × Batch) : Prop :=
  result.1 = true → result.2 = batch.assign fields ∧ ∃ rest, after = ⟨.updateBatch batch.id fields guard,.ok true⟩::rest

theorem updateBatchStatusIfCurrent_meets {expected : Status} {guard : Guard}
    (one : guard.statuses = [expected]) (updates : Updates log batch.id fields expected) :
    (updateBatchStatusIfCurrent batch fields guard).Meets settlement log (Returns (Updated batch fields guard)) := by
  have allowed : settling log (.updateBatch batch.id fields guard) := ⟨expected,one,updates⟩
  apply returns_await allowed
  intro updated _
  split
  next yes =>
    intro _
    rw [yes]
    exact ⟨rfl,log,rfl⟩
  · apply returns_await trivial
    intro row _ no
    cases no

theorem updateGuardedBatch_meets (updates : Updates log batch.id fields batch.status) :
    (updateGuardedBatch batch fields).Meets settlement log
      (Returns (Updated batch fields (settledGuard batch.status))) :=
  updateBatchStatusIfCurrent_meets rfl updates

theorem keeps_updates (keeps : fields.Keeps) (expected : Status) : Updates log batch.id fields expected :=
  ⟨.keep keeps,fun _ moved => (moved keeps.status).elim⟩

theorem holdWith_meets (updates : Updates log batch.id fields batch.status) :
    (holdWith batch fields).Meets settlement log (Returns anything) := by
  apply (updateGuardedBatch_meets updates).andReturns
  intro after result _ _
  dsimp only
  split <;> exact trivial

theorem holdBatch_meets (batch : Batch) (log : Log) : (holdBatch batch).Meets settlement log (Returns anything) := by
  apply (currentTime_meets log).andReturns
  intro after time _ _
  exact holdWith_meets (keeps_updates ⟨rfl,rfl,rfl,rfl,rfl⟩ _)

theorem holdBatchForRetry_meets (waiting : Waiting log batch items) (cleared : Cleared log batch) :
    (holdBatchForRetry batch).Meets settlement log (Returns anything) := by
  unfold holdBatchForRetry
  split
  · exact holdBatch_meets batch log
  · apply (currentTime_meets log).andReturns
    intro after time longer _
    exact holdWith_meets ⟨.retry waiting.status rfl rfl rfl rfl,fun reserved _ => (cleared.extend longer) reserved⟩

private theorem recordBatchReconcileState_meets (batch : Batch) (incrementHealthyPass : Bool) (log : Log) :
    (recordBatchReconcileState batch incrementHealthyPass).Meets settlement log (Returns anything) := by
  apply (currentTime_meets log).andReturns
  intro after time _ _
  exact (updateGuardedBatch_meets (keeps_updates ⟨rfl,rfl,rfl,rfl,rfl⟩ _)).returns fun _ _ _ => trivial

theorem holdAfterReconcile_meets (batch : Batch) (incrementHealthyPass : Bool) (log : Log) :
    (holdAfterReconcile batch incrementHealthyPass).Meets settlement log (Returns anything) := by
  apply (recordBatchReconcileState_meets batch incrementHealthyPass log).andReturns
  intro after result _ _
  dsimp only
  split <;> exact trivial

theorem Live.unreserved (live : Live log batch items) : batch.status ≠ .reserved := by
  intro reserved
  rcases live.status with same | same
  · rw [same] at reserved
    cases reserved
  · rw [same] at reserved
    cases reserved

theorem Live.updates (live : Live log batch items) (permitted : Permitted fields batch.status) :
    Updates log batch.id fields batch.status :=
  ⟨permitted,fun reserved _ => (live.unreserved reserved).elim⟩

theorem markBatchManualReview_meets (live : Live log batch items) {details : MatchDetails}
    (canonical : ∀ hash, details.txHash = some hash → Canonical hash) :
    (markBatchManualReview batch details).Meets settlement log (Returns anything) := by
  have permitted : Permitted {
      status := some .manual_review
      tx_hash := (details.txHash.filter fun hash => hash ≠ "").map some
      tx_key := details.txKey.map some
      total_fee := details.totalFee} batch.status := by
    refine .review live.status rfl rfl ?_ rfl
    intro hash assigned
    obtain ⟨text,filtered,rfl⟩ := Option.map_eq_some_iff.mp assigned
    exact ⟨text,rfl,canonical text (Option.filter_eq_some_iff.mp filtered).1⟩
  apply (updateGuardedBatch_meets (live.updates permitted)).andReturns
  intro after result _ _
  dsimp only
  split
  · exact ends_meets (enterFailStop_meets after)
  · exact trivial

structure Submitted (log : Log) (batch : Batch) (items : List Item) (txHash : String) : Prop
    extends Held log batch items where
  status : batch.status = .submitted
  hashed : batch.tx_hash = some txHash

theorem Submitted.live (submitted : Submitted log batch items txHash) : Live log batch items :=
  ⟨submitted.toHeld,.inr submitted.status⟩

theorem Submitted.extend {after : Log} (submitted : Submitted log batch items txHash)
    (longer : log <:+ after) : Submitted after batch items txHash :=
  ⟨submitted.toHeld.extend longer,submitted.status,submitted.hashed⟩

theorem persistSubmittedBatch_meets (live : Live log batch items) (canonical : Canonical txHash)
    (txKey : Option String) (totalFee : ℚ) : (persistSubmittedBatch batch txHash txKey totalFee).Meets settlement log
      (Returns fun after result => result.1 = true → Submitted after result.2 items txHash) := by
  apply (currentTime_meets log).andReturns
  intro after time longer _
  have now := live.extend longer
  apply (updateGuardedBatch_meets (now.updates (.submit now.status rfl rfl rfl canonical rfl))).extends.imp
  intro later result met
  cases result with
  | error failure => exact trivial
  | ok result =>
    intro yes
    rw [(met.2 yes).1]
    refine ⟨⟨now.known.extend met.1,now.told.extend met.1,?_⟩,rfl,rfl⟩
    intro hash same
    cases same
    exact canonical

theorem claimBatchForSubmit_meets (waiting : Waiting log batch items) (cleared : Cleared log batch) :
    (claimBatchForSubmit batch batch.status).Meets settlement log
      (Returns fun after result => result.1 = true → Live after result.2 items ∧ JustClaimed after result.2.id) := by
  apply (currentTime_meets log).andReturns
  intro after time longer _
  have now := waiting.extend longer
  have updates : Updates after batch.id
      {status := some .submitting, submit_started_at := some (some time)} batch.status :=
    ⟨.claim now.status rfl rfl rfl rfl,fun reserved _ => (cleared.extend longer) reserved⟩
  apply (updateBatchStatusIfCurrent_meets rfl updates).extends.imp
  intro later result met
  cases result with
  | error failure => exact trivial
  | ok result =>
    intro yes
    obtain ⟨same,rest,last⟩ := met.2 yes
    rw [same]
    have held := now.toHeld.extend met.1
    exact ⟨⟨⟨held.known,held.told,held.canonical⟩,.inl rfl⟩,_,_,rest,last,rfl⟩

theorem handleLostSubmitClaim_meets (batch : Batch) (log : Log) :
    (handleLostSubmitClaim batch).Meets settlement log (Returns anything) := by
  unfold handleLostSubmitClaim
  split
  · exact trivial
  · exact ends_meets (enterFailStop_meets log)
  · exact trivial

end Updates

section Finalization

variable {log : Log} {batch : Batch} {items : List Item} {txHash : String} {result : WalletMatch}

private theorem finalizeTxKey_meets (live : Live log batch items) {submittedHash : String}
    (canonical : Canonical submittedHash) :
    (finalizeTxKey batch submittedHash).Meets settlement log (Returns anything) := by
  unfold finalizeTxKey
  split
  · exact trivial
  · apply (resolveTxKey_meets submittedHash log).andReturns
    intro after txKeyResult longer _
    split
    · exact trivial
    · exact ends_meets (holdBatch_meets batch after)
    · refine ends_meets (markBatchManualReview_meets (live.extend longer) ?_)
      intro hash same
      exact Option.some.inj same ▸ canonical

theorem finalizeBatch_meets (submitted : Submitted log batch items txHash)
    (matched : Matched log items txHash) : (finalizeBatch batch items).Meets settlement log (Returns anything) := by
  unfold finalizeBatch
  split
  · refine ends_meets (markBatchManualReview_meets submitted.live ?_)
    intro hash same
    cases same
  next submittedHash present =>
    have same : batch.tx_hash = some submittedHash := (Option.filter_eq_some_iff.mp present).1
    obtain rfl : txHash = submittedHash := Option.some.inj (submitted.hashed.symm.trans same)
    have canonical := submitted.canonical txHash same
    apply (finalizeTxKey_meets submitted.live canonical).andReturns
    intro after keyed longer _
    cases keyed with
    | none => exact trivial
    | some txKey =>
      apply (currentTime_meets after).andReturns
      intro later finalizedAt longer' _
      have now := submitted.extend (longer.trans longer')
      have finalizable : Finalizable later {batch with tx_key := some txKey} items txHash :=
        ⟨now.known,now.told,now.status,canonical,matched.extend (longer.trans longer')⟩
      have asking : (tryCatch ((fun _ => true) <$> ask (.finalize {batch with tx_key := some txKey} items txHash
          txKey finalizedAt)) fun _ => return false).Meets settlement later (Returns anything) := by
        rw [meets_tryCatch,meets_map,ask,meets_perform]
        refine ⟨finalizable,fun outcome _ => ?_⟩
        cases outcome <;> exact trivial
      apply asking.andReturns
      intro last finalized _ _
      split
      · exact trivial
      · apply (currentTime_meets last).andReturns
        intro _ time _ _
        exact ends_meets (updateGuardedBatch_meets (keeps_updates ⟨rfl,rfl,rfl,rfl,rfl⟩ _))

theorem finalizeMatchedTransfer_meets (live : Live log batch items) (canonical : Canonical txHash)
    (matched : Matched log items txHash) (totalFee : ℚ) (txKey : String) :
    (finalizeMatchedTransfer batch items txHash totalFee txKey).Meets settlement log (Returns anything) := by
  apply (persistSubmittedBatch_meets live canonical (some txKey) totalFee).andReturns
  intro after result longer persisted
  dsimp only
  split
  · exact trivial
  next updated =>
    have submitted := persisted (by simpa using updated)
    exact ends_meets (finalizeBatch_meets submitted (matched.extend longer))

private theorem matchResultDetails_canonical {after : Log} (found : FoundMatch items after result)
    (hash : String) (same : (matchResultDetails result).txHash = some hash) : Canonical hash := by
  cases result with
  | matched_waiting_tx_key txHash totalFee => exact Option.some.inj same ▸ found.1
  | matched_missing_tx_key txHash totalFee => exact Option.some.inj same ▸ found.1
  | matched txHash totalFee txKey => exact Option.some.inj same ▸ found.1
  | _ => cases same

theorem reconcileHistoryCheckedSubmitError_meets (live : Live log batch items) :
    (reconcileHistoryCheckedSubmitError batch items).Meets settlement log (Returns anything) := by
  apply (findWalletTransferMatchAfterSubmit_meets batch items log).andReturns
  intro after matchResult longer found
  split
  · exact holdBatch_meets batch after
  · exact holdBatch_meets batch after
  · exact markBatchManualReview_meets (live.extend longer) (matchResultDetails_canonical found)

theorem releaseBatchReservation_meets (reserved : batch.status = .reserved) :
    (releaseBatchReservation batch).Meets settlement log (Returns anything) := by
  apply (currentTime_meets log).andReturns
  intro after releasedAt _ _
  exact ask_meets reserved

private theorem settleVisibility_meets (submitted : Submitted log batch items txHash)
    {visibility : Visibility} (seen : SeesTransfer batch items log visibility) :
    (settleVisibility batch items visibility).Meets settlement log (Returns anything) := by
  cases visibility with
  | wallet_unavailable => exact holdAfterReconcile_meets batch false log
  | tx_not_found => exact holdAfterReconcile_meets batch true log
  | visible =>
    have hashed : normalizeHash (batch.tx_hash.map Json.str) = some txHash := by
      rw [submitted.hashed]
      exact submitted.canonical txHash submitted.hashed
    exact ends_meets (finalizeBatch_meets submitted (seen rfl txHash hashed))

theorem reconcileSubmittedBatch_meets (submitted : Submitted log batch items txHash)
    (isPostSubmit : Bool) : (reconcileSubmittedBatch batch items isPostSubmit).Meets settlement log
    (Returns anything) := by
  unfold reconcileSubmittedBatch
  split
  · exact markBatchManualReview_meets submitted.live submitted.canonical
  · cases isPostSubmit with
    | true =>
      apply (findSubmittedTransferVisibilityAfterSubmit_meets batch items log).andReturns
      intro after visibility longer seen
      exact settleVisibility_meets (submitted.extend longer) seen
    | false =>
      apply (findSubmittedTransferVisibility_meets batch items log).andReturns
      intro after visibility longer seen
      exact settleVisibility_meets (submitted.extend longer) seen

private theorem settleMatch_meets (live : Live log batch items) (found : FoundMatch items log result) :
    (settleMatch batch items result).Meets settlement log (Returns anything) := by
  cases result with
  | wallet_unavailable => exact holdAfterReconcile_meets batch false log
  | multiple_matches => exact markBatchManualReview_meets live fun hash same => by cases same
  | no_match => exact holdAfterReconcile_meets batch true log
  | incomplete_match => exact holdAfterReconcile_meets batch false log
  | matched_waiting_tx_key txHash totalFee =>
    apply (persistSubmittedBatch_meets live found.1 none totalFee).andReturns
    intro later result _ _
    dsimp only
    split
    · exact holdBatch_meets _ later
    · exact trivial
  | matched_missing_tx_key txHash totalFee =>
    exact markBatchManualReview_meets live fun hash same => Option.some.inj same ▸ found.1
  | matched txHash totalFee txKey => exact finalizeMatchedTransfer_meets live found.1 found.2 totalFee txKey

private theorem reconcileWithHistory_meets (live : Live log batch items) (isPostSubmit : Bool) :
    (reconcileWithHistory batch items isPostSubmit).Meets settlement log (Returns anything) := by
  cases isPostSubmit with
  | true =>
    apply (findWalletTransferMatchAfterSubmit_meets batch items log).andReturns
    intro after result longer found
    exact settleMatch_meets (live.extend longer) found
  | false =>
    apply (findWalletTransferMatch_meets batch items log).andReturns
    intro after result longer found
    exact settleMatch_meets (live.extend longer) found

theorem reconcileBatch_meets (live : Live log batch items) (isPostSubmit : Bool) :
    (reconcileBatch batch items isPostSubmit).Meets settlement log (Returns anything) := by
  apply returns_await trivial
  intro now _
  have later := live.extend (suffix_log log ⟨.now,.ok now⟩)
  split
  · exact trivial
  · split
    next known =>
      simp only [Bool.and_eq_true,decide_eq_true_eq] at known
      cases hash : batch.tx_hash with
      | none =>
        rw [hash] at known
        cases known.2
      | some txHash => exact reconcileSubmittedBatch_meets ⟨later.toHeld,known.1,hash⟩ isPostSubmit
    · exact reconcileWithHistory_meets later isPostSubmit

theorem reconcileAmbiguousSubmit_meets (live : Live log batch items) :
    (reconcileAmbiguousSubmit batch items).Meets settlement log (Returns anything) := by
  apply (updateGuardedBatch_meets (keeps_updates ⟨rfl,rfl,rfl,rfl,rfl⟩ _)).andReturns
  intro after result longer updated
  dsimp only
  split
  · exact trivial
  next yes =>
    rw [(updated (by simpa using yes)).1]
    have now := live.extend longer
    have same : Live after (batch.assign {}) items := ⟨⟨now.known,now.told,now.canonical⟩,now.status⟩
    apply (reconcileBatch_meets same true).andReturns
    intro _ outcome _ _
    split <;> exact trivial

end Finalization

section Submit

variable {log : Log} {batch : Batch} {items : List Item}

theorem resolveSubmittedTxKey_meets (live : Live log batch items) {txHash : String} (canonical : Canonical txHash)
    (totalFee : ℚ) (transferResult : Json) :
    (resolveSubmittedTxKey batch txHash totalFee transferResult).Meets settlement log (Returns anything) := by
  unfold resolveSubmittedTxKey
  extract_lets replied
  split
  · exact trivial
  · apply (resolveTxKey_meets txHash log).andReturns
    intro after txKeyResult longer _
    split
    · exact trivial
    · exact trivial
    · apply (persistSubmittedBatch_meets (live.extend longer) canonical none totalFee).andReturns
      intro later result _ persisted
      dsimp only
      split
      · exact trivial
      next updated =>
        refine ends_meets (markBatchManualReview_meets (persisted (by simpa using updated)).live ?_)
        intro hash same
        exact Option.some.inj same ▸ canonical

private theorem waitForSubmittedVisibility_meets (batch : Batch) (items : List Item) (log : Log) :
    (waitForSubmittedVisibility batch items).Meets settlement log
      (Returns fun after outcome => outcome = none → SeesTransfer batch items after .visible) := by
  apply (findSubmittedTransferVisibilityAfterSubmit_meets batch items log).andReturns
  intro after submittedVisibility _ seen
  split
  · intro _
    exact seen
  · apply (holdBatch_meets batch after).andReturns
    intro _ _ _ _ none
    cases none

private theorem settleTransfer_meets (live : Live log batch items) {txHash : String} (canonical : Canonical txHash)
    (totalFee : ℚ) (txKey : Option String) :
    (settleTransfer batch items txHash totalFee txKey).Meets settlement log (Returns anything) := by
  apply (persistSubmittedBatch_meets live canonical txKey totalFee).andReturns
  intro after result longer persisted
  dsimp only
  split
  · exact trivial
  next updated =>
    have submitted := persisted (by simpa using updated)
    apply (waitForSubmittedVisibility_meets result.2 items after).andReturns
    intro later visibilityOutcome longer' seen
    split
    · exact trivial
    · have hashed : normalizeHash (result.2.tx_hash.map Json.str) = some txHash := by
        rw [submitted.hashed]
        exact canonical
      exact ends_meets (finalizeBatch_meets (submitted.extend longer') (seen rfl rfl txHash hashed))

private theorem handleTransferResult_meets (live : Live log batch items) (transferResult : Json) :
    (handleTransferResult batch items transferResult).Meets settlement log (Returns anything) := by
  unfold handleTransferResult
  split
  next txHash totalFee hashed _ =>
    have canonical : Canonical txHash := normalizeHash_idem hashed
    apply (resolveSubmittedTxKey_meets live canonical totalFee transferResult).andReturns
    intro after txKeyResult longer _
    split
    · exact trivial
    · exact settleTransfer_meets (live.extend longer) canonical totalFee _
  · exact reconcileAmbiguousSubmit_meets live

private theorem handleTransferReplyError_meets (live : Live log batch items) (transferReply : RpcResponse) :
    (handleTransferReplyError batch items transferReply).Meets settlement log (Returns anything) := by
  unfold handleTransferReplyError
  split
  · split
    · exact ends_meets (reconcileHistoryCheckedSubmitError_meets live)
    · exact ends_meets (reconcileAmbiguousSubmit_meets live)
  · split
    · exact ends_meets (reconcileAmbiguousSubmit_meets live)
    · exact trivial

private theorem transferBatch_meets (live : Live log batch items) (claimed : JustClaimed log batch.id) :
    (transferBatch batch items).Meets settlement log (Returns anything) := by
  apply returns_await claimed
  intro transferReply _
  have now := live.extend (suffix_log log ⟨_,.ok transferReply⟩)
  apply (handleTransferReplyError_meets now transferReply).andReturns
  intro after transferErrorOutcome longer _
  split
  · exact trivial
  · split
    · exact reconcileAmbiguousSubmit_meets (now.extend longer)
    · exact handleTransferResult_meets (now.extend longer) _

theorem submitReservedBatch_meets (config : Config) (waiting : Waiting log batch items)
    (own : batch.status = .reserved → batch.id ∈ (standing log).reserved) :
    (submitReservedBatch config batch items).Meets settlement log (Returns anything) := by
  apply (checkExclusiveAccess_meets log).andReturns
  intro first exclusive longer sees
  split
  · exact trivial
  next yes =>
    have cleared : Cleared first batch := fun reserved => sees (by simpa using yes) (own reserved)
    apply (preflightWalletBalance_meets config batch.total_net first).andReturns
    intro second preflight longer' _
    have waiting' := waiting.extend (longer.trans longer')
    have cleared' := cleared.extend longer'
    split
    · exact holdBatchForRetry_meets waiting' cleared'
    · apply (checkExclusiveAccess_meets second).andReturns
      intro third stillExclusive longer'' _
      split
      · exact trivial
      · apply (claimBatchForSubmit_meets (waiting'.extend longer'') (cleared'.extend longer'')).andReturns
        intro fourth result _ claimed
        dsimp only
        split
        · exact handleLostSubmitClaim_meets _ _
        next won =>
          obtain ⟨live,just⟩ := claimed (by simpa using won)
          exact transferBatch_meets live just

end Submit

section Recovery

variable {log : Log} {batch : Batch} {items : List Item}

private theorem recoverBatch_meets (config : Config) (held : Held log batch items) (sound : RowSound batch) :
    (recoverBatch config batch items).Meets settlement log (Returns anything) := by
  have reconciled (live : batch.status = .submitting ∨ batch.status = .submitted) :
      (do
        let outcome ← reconcileBatch batch items false
        return decide (outcome = .cleared) : Task Bool).Meets settlement log (Returns anything) := by
    exact ends_meets (reconcileBatch_meets ⟨held,live⟩ false)
  unfold recoverBatch
  cases status : batch.status with
  | reserved =>
    dsimp only
    rw [if_pos ⟨rfl,sound.before (.inl status)⟩]
    exact releaseBatchReservation_meets status
  | retrying =>
    have waiting : Waiting log batch items := ⟨held,.inr status⟩
    exact ends_meets (submitReservedBatch_meets config waiting
      fun reserved => by rw [status] at reserved; cases reserved)
  | submitting => exact reconciled (.inl status)
  | submitted => exact reconciled (.inr status)
  | finalized | retryable => exact trivial
  | manual_review => exact (enterFailStop_meets log).returns fun _ _ _ => trivial

private theorem recoverBatches_meets (config : Config) (batches : List Batch) (log : Log)
    (told : ∀ batch ∈ batches, Known log batch.id batch.total_gross ∧ RowSound batch) :
    (recoverBatches config batches).Meets settlement log (Returns anything) := by
  induction batches generalizing log with
  | nil => exact trivial
  | cons batch batches ih =>
    obtain ⟨known,sound⟩ := told batch List.mem_cons_self
    apply (checkExclusiveAccess_meets log).andReturns
    intro after exclusive longer _
    split
    · exact trivial
    · apply returns_await trivial
      intro items _
      have held : Held (⟨.selectItems batch.id,.ok items⟩::after) batch items :=
        ⟨(known.extend longer).extend (suffix_log _ _),⟨_,List.mem_cons_self,rfl⟩,sound.canonical⟩
      apply (recoverBatch_meets config held sound).andReturns
      intro later settled longer' _
      split
      · apply ih
        intro other inside
        obtain ⟨known',sound'⟩ := told other (List.mem_cons_of_mem _ inside)
        exact ⟨known'.extend (longer.trans ((suffix_log _ _).trans longer')),sound'⟩
      · exact trivial

theorem recoverPendingBatches_meets (config : Config) (log : Log) :
    (recoverPendingBatches config).Meets settlement log (Returns anything) := by
  apply returns_await trivial
  intro batches sound
  apply recoverBatches_meets
  intro batch member
  exact ⟨⟨_,List.mem_cons_self,batch,member,rfl,rfl⟩,sound batch member⟩

end Recovery
end NodejsPool.Payments
