import NodejsPool.Payments.Settlement

/-! What a payment process knows about open batches. The processor opens none, and reports a batch as
settled only when it has seen it closed. -/
namespace NodejsPool.Payments
open Async Program

section Knowledge

/-- The batches that can be open as far as the process knows, once it has looked; a
reservation without an answer leaves it in the dark. -/
def openedBy (before : Option (List ℕ)) : Event signature → Option (List ℕ)
  | ⟨.selectOpenBatches,.ok rows⟩ => some (rows.map Batch.id)
  | ⟨.reserve _,.ok id⟩ => before.map (id::·)
  | ⟨.reserve _,.error _⟩ => none
  | _ => before

def opened : Log → Option (List ℕ)
  | [] => none
  | event::log => openedBy (opened log) event

def closes : Event signature → Option ℕ
  | ⟨.finalize batch _ _ _ _,.ok _⟩ => some batch.id
  | ⟨.release batch _,.ok true⟩ => some batch.id
  | ⟨.selectBatch id,.ok (some row)⟩ => if row.status = .finalized then some id else none
  | _ => none

def Closed (log : Log) (id : ℕ) : Prop := ∃ event ∈ log, closes event = some id

def AllClosed (log : Log) : Prop := ∃ ids, opened log = some ids ∧ ∀ id ∈ ids, Closed log id

theorem Closed.extend {log after : Log} {id : ℕ} (closed : Closed log id) (longer : log <:+ after) :
    Closed after id := by
  obtain ⟨event,member,closing⟩ := closed
  exact ⟨event,longer.subset member,closing⟩

theorem closed_now {event : Event signature} {id : ℕ} (closing : closes event = some id) (log : Log) :
    Closed (event::log) id := ⟨event,List.mem_cons_self,closing⟩

theorem AllClosed.same {log after : Log} (settled : AllClosed log) (longer : log <:+ after)
    (same : opened after = opened log) : AllClosed after := by
  obtain ⟨ids,known,closed⟩ := settled
  exact ⟨ids,same.trans known,fun id member => (closed id member).extend longer⟩

end Knowledge

section Contracts

def opensNothing : Call → Prop
  | .selectOpenBatches => False
  | .reserve _ => False
  | .setLastPaymentCycle _ => False
  | _ => True

def inOrder (log : Log) : Call → Prop
  | .reserve _ => AllClosed log
  | .setLastPaymentCycle _ => AllClosed log
  | _ => True

def identifies : (call : Call) → signature.Outcome call → Prop
  | .selectBatch id,.ok (some row) => row.id = id
  | .selectOpenBatches,.ok rows => ∀ row ∈ rows, row.status ∈ openStatuses
  | _,_ => True

@[reducible] def quiet : Contract signature := ⟨fun _ => opensNothing,fun _ => identifies⟩

@[reducible] def progress : Contract signature := ⟨inOrder,fun _ => identifies⟩

theorem quiet_opened (log : Log) (call : Call) (outcome : signature.Outcome call) (allowed : opensNothing call) :
    opened (⟨call,outcome⟩::log) = opened log := by
  change openedBy (opened log) _ = _
  unfold openedBy
  split
  next same =>
    obtain ⟨rfl,_⟩ := Event.mk.inj same
    exact allowed.elim
  next same =>
    obtain ⟨rfl,_⟩ := Event.mk.inj same
    exact allowed.elim
  next same =>
    obtain ⟨rfl,_⟩ := Event.mk.inj same
    exact allowed.elim
  · rfl

instance : Locking quiet where
  asks log call asks := by
    cases call <;> first | exact trivial | cases asks
  locks _ := trivial

private theorem opensNothing_inOrder (log : Log) (call : Call) (allowed : opensNothing call) : inOrder log call := by
  unfold inOrder
  split
  · exact allowed.elim
  · exact allowed.elim
  · exact trivial

theorem progresses {A : Type} {p : Task A} {log : Log} {good : Log → A → Prop}
    (meets : p.Meets quiet log (Returns good)) :
    p.Meets progress log (Returns fun after value => opened after = opened log ∧ good after value) := by
  have wide : p.Meets progress log fun after result => opened after = opened log ∧ Returns good after result := by
    refine Meets.relax opensNothing_inOrder ?_ (meets.keeps opened quiet_opened)
    intro _ _ _ told
    exact told
  apply wide.imp
  intro after result met
  cases result with
  | ok value => exact met
  | error failure => exact trivial

end Contracts

section Updates

variable {log : Log} {id : ℕ} {batch : Batch} {fields : Fields}

/-- A batch object of this id, which is not finalized unless that was seen. -/
structure Tracks (log : Log) (id : ℕ) (batch : Batch) : Prop where
  same : batch.id = id
  final : batch.status = .finalized → Closed log id

def Clears (id : ℕ) (log : Log) (outcome : Outcome) : Prop := outcome = .cleared → Closed log id

def Carries (id : ℕ) (log : Log) (result : Bool × Batch) : Prop := Tracks log id result.2

theorem Tracks.extend {after : Log} (tracks : Tracks log id batch) (longer : log <:+ after) : Tracks after id batch :=
  ⟨tracks.same,fun final => (tracks.final final).extend longer⟩

theorem unresolved_clears : Clears id log .unresolved := by
  intro same
  cases same

theorem manual_review_clears : Clears id log .manual_review := by
  intro same
  cases same

theorem finalizedOutcome_clears {finalized : Bool} (closed : finalized = true → Closed log id) :
    Clears id log (finalizedOutcome finalized) := by
  intro same
  cases finalized with
  | true => exact closed rfl
  | false => cases same

section

variable (tracks : Tracks log id batch)
include tracks

theorem Tracks.assign (moves : fields.status ≠ some .finalized) : Tracks log id (batch.assign fields) := by
  refine ⟨tracks.same,?_⟩
  intro final
  apply tracks.final
  cases moved : fields.status with
  | none => simpa [Batch.assign,moved] using final
  | some status =>
    have same : status = .finalized := by simpa [Batch.assign,moved] using final
    rw [moved,same] at moves
    exact (moves rfl).elim

theorem updateBatchStatusIfCurrent_quiet (moves : fields.status ≠ some .finalized) (guard : Guard) :
    (updateBatchStatusIfCurrent batch fields guard).Meets quiet log (Returns (Carries id)) := by
  apply returns_await trivial
  intro updated _
  split
  · exact (tracks.extend (suffix_log ..)).assign moves
  · apply returns_await trivial
    intro row told
    cases row with
    | none => exact tracks.extend ((suffix_log ..).trans (suffix_log ..))
    | some row =>
      have same : row.id = batch.id := told
      refine ⟨same.trans tracks.same,fun final => ?_⟩
      have finalized : row.status = .finalized := final
      apply closed_now
      change (if row.status = .finalized then some batch.id else none) = some id
      rw [if_pos finalized,tracks.same]

theorem updateGuardedBatch_quiet (moves : fields.status ≠ some .finalized) :
    (updateGuardedBatch batch fields).Meets quiet log (Returns (Carries id)) :=
  updateBatchStatusIfCurrent_quiet tracks moves _

theorem guardedTransitionOutcome_clears : Clears id log (guardedTransitionOutcome batch) := by
  intro same
  unfold guardedTransitionOutcome at same
  split at same
  next final => exact tracks.final final
  · cases same
  · cases same

theorem holdWith_quiet (moves : fields.status ≠ some .finalized) :
    (holdWith batch fields).Meets quiet log (Returns (Clears id)) := by
  apply (updateGuardedBatch_quiet tracks moves).andReturns
  intro after result _ carried
  dsimp only
  split
  · exact unresolved_clears
  · exact guardedTransitionOutcome_clears carried

theorem holdBatch_quiet : (holdBatch batch).Meets quiet log (Returns (Clears id)) := by
  apply (currentTime_meets log).andReturns
  intro after time longer _
  exact holdWith_quiet (tracks.extend longer) (by simp)

theorem holdBatchForRetry_quiet : (holdBatchForRetry batch).Meets quiet log (Returns (Clears id)) := by
  unfold holdBatchForRetry
  split
  · exact holdBatch_quiet tracks
  · apply (currentTime_meets log).andReturns
    intro after time longer _
    exact holdWith_quiet (tracks.extend longer) (by simp)

theorem holdAfterReconcile_quiet (incrementHealthyPass : Bool) :
    (holdAfterReconcile batch incrementHealthyPass).Meets quiet log (Returns (Clears id)) := by
  have recording : (recordBatchReconcileState batch incrementHealthyPass).Meets quiet log (Returns (Carries id)) := by
    apply (currentTime_meets log).andReturns
    intro after time longer _
    exact updateGuardedBatch_quiet (tracks.extend longer) (by simp)
  apply recording.andReturns
  intro after result _ carried
  dsimp only
  split
  · exact unresolved_clears
  · exact guardedTransitionOutcome_clears carried

theorem markBatchManualReview_quiet (details : MatchDetails) :
    (markBatchManualReview batch details).Meets quiet log (Returns (Clears id)) := by
  apply (updateGuardedBatch_quiet tracks (by simp)).andReturns
  intro after result _ carried
  dsimp only
  split
  · apply (enterFailStop_meets after).andReturns
    intro _ _ _ _
    exact manual_review_clears
  · exact guardedTransitionOutcome_clears carried

theorem persistSubmittedBatch_quiet (txHash : String) (txKey : Option String)
    (totalFee : ℚ) : (persistSubmittedBatch batch txHash txKey totalFee).Meets quiet log (Returns (Carries id)) := by
  apply (currentTime_meets log).andReturns
  intro after time longer _
  exact updateGuardedBatch_quiet (tracks.extend longer) (by simp)

theorem claimBatchForSubmit_quiet (expectedStatus : Status) :
    (claimBatchForSubmit batch expectedStatus).Meets quiet log (Returns (Carries id)) := by
  apply (currentTime_meets log).andReturns
  intro after time longer _
  exact updateBatchStatusIfCurrent_quiet (tracks.extend longer) (by simp) _

theorem handleLostSubmitClaim_quiet : (handleLostSubmitClaim batch).Meets quiet log (Returns (Clears id)) := by
  unfold handleLostSubmitClaim
  split
  next final =>
    intro _
    exact tracks.final final
  · apply (enterFailStop_meets log).andReturns
    intro _ _ _ _
    exact manual_review_clears
  · exact unresolved_clears

end

end Updates

section Finalization

variable {log : Log} {id : ℕ} {batch : Batch}

private theorem finalizeTxKey_quiet (tracks : Tracks log id batch) (submittedHash : String) :
    (finalizeTxKey batch submittedHash).Meets quiet log (Returns anything) := by
  unfold finalizeTxKey
  split
  · exact trivial
  · apply (resolveTxKey_meets submittedHash log).andReturns
    intro after txKeyResult longer _
    split
    · exact trivial
    · exact (holdBatch_quiet (tracks.extend longer)).andReturns fun _ _ _ _ => trivial
    · exact (markBatchManualReview_quiet (tracks.extend longer) _).andReturns fun _ _ _ _ => trivial

def Confirms (id : ℕ) (log : Log) (done : Bool) : Prop := done = true → Closed log id

private theorem unconfirmed : Confirms id log false := by
  intro same
  cases same

section

variable (tracks : Tracks log id batch) (items : List Item)
include tracks items

private theorem finalizeBatch_quiet : (finalizeBatch batch items).Meets quiet log (Returns (Confirms id)) := by
  unfold finalizeBatch
  split
  · exact (markBatchManualReview_quiet tracks _).andReturns fun _ _ _ _ => unconfirmed
  next submittedHash _ =>
    apply (finalizeTxKey_quiet tracks submittedHash).andReturns
    intro after keyed longer _
    cases keyed with
    | none => exact unconfirmed
    | some txKey =>
      apply (currentTime_meets after).andReturns
      intro later finalizedAt longer' _
      have now : Tracks later id {batch with tx_key := some txKey} :=
        ⟨tracks.same,(tracks.extend (longer.trans longer')).final⟩
      have asking : (tryCatch ((fun _ => true) <$> ask (.finalize {batch with tx_key := some txKey} items submittedHash
          txKey finalizedAt)) fun _ => return false).Meets quiet later (Returns (Confirms id)) := by
        rw [meets_tryCatch,meets_map,ask,meets_perform]
        refine ⟨trivial,fun outcome _ => ?_⟩
        cases outcome with
        | error failure => exact unconfirmed
        | ok transactionId =>
          intro _
          apply closed_now
          exact congrArg some now.same
      apply asking.andReturns
      intro last finalized longer'' closed
      split
      next done =>
        intro _
        exact closed done
      · apply (currentTime_meets last).andReturns
        intro timed time longest _
        apply (updateGuardedBatch_quiet ((now.extend longer'').extend longest) (by simp)).andReturns
        intro _ _ _ _
        exact unconfirmed

theorem finalized_quiet : (do
      let finalized ← finalizeBatch batch items
      return finalizedOutcome finalized : Task Outcome).Meets quiet log (Returns (Clears id)) := by
  apply (finalizeBatch_quiet tracks items).andReturns
  intro after finalized _ closed
  exact finalizedOutcome_clears closed

theorem finalizeMatchedTransfer_quiet (txHash : String) (totalFee : ℚ) (txKey : String) :
    (finalizeMatchedTransfer batch items txHash totalFee txKey).Meets quiet log (Returns (Clears id)) := by
  apply (persistSubmittedBatch_quiet tracks txHash (some txKey) totalFee).andReturns
  intro after result _ carried
  dsimp only
  split
  · exact guardedTransitionOutcome_clears carried
  · exact finalized_quiet carried items

theorem reconcileHistoryCheckedSubmitError_quiet :
    (reconcileHistoryCheckedSubmitError batch items).Meets quiet log (Returns (Clears id)) := by
  apply (findWalletTransferMatchAfterSubmit_meets batch items log).andReturns
  intro after matchResult longer _
  have now := tracks.extend longer
  split
  · exact holdBatch_quiet now
  · exact holdBatch_quiet now
  · exact markBatchManualReview_quiet now _

end

theorem releaseBatchReservation_quiet (same : batch.id = id) :
    (releaseBatchReservation batch).Meets quiet log (Returns (Confirms id)) := by
  apply (currentTime_meets log).andReturns
  intro after releasedAt _ _
  apply returns_perform trivial
  intro released _ done
  subst done
  apply closed_now
  exact congrArg some same

section

variable (tracks : Tracks log id batch) (items : List Item)
include tracks items

private theorem settleVisibility_quiet (visibility : Visibility) :
    (settleVisibility batch items visibility).Meets quiet log (Returns (Clears id)) := by
  cases visibility with
  | wallet_unavailable => exact holdAfterReconcile_quiet tracks false
  | tx_not_found => exact holdAfterReconcile_quiet tracks true
  | visible => exact finalized_quiet tracks items

theorem reconcileSubmittedBatch_quiet (isPostSubmit : Bool) :
    (reconcileSubmittedBatch batch items isPostSubmit).Meets quiet log (Returns (Clears id)) := by
  unfold reconcileSubmittedBatch
  split
  · exact markBatchManualReview_quiet tracks _
  · cases isPostSubmit with
    | true =>
      apply (findSubmittedTransferVisibilityAfterSubmit_meets batch items log).andReturns
      intro after visibility longer _
      exact settleVisibility_quiet (tracks.extend longer) items visibility
    | false =>
      apply (findSubmittedTransferVisibility_meets batch items log).andReturns
      intro after visibility longer _
      exact settleVisibility_quiet (tracks.extend longer) items visibility

private theorem settleMatch_quiet (result : WalletMatch) :
    (settleMatch batch items result).Meets quiet log (Returns (Clears id)) := by
  cases result with
  | wallet_unavailable => exact holdAfterReconcile_quiet tracks false
  | multiple_matches => exact markBatchManualReview_quiet tracks _
  | no_match => exact holdAfterReconcile_quiet tracks true
  | incomplete_match => exact holdAfterReconcile_quiet tracks false
  | matched_waiting_tx_key txHash totalFee =>
    apply (persistSubmittedBatch_quiet tracks txHash none totalFee).andReturns
    intro after persisted _ carried
    dsimp only
    split
    · exact holdBatch_quiet carried
    · exact guardedTransitionOutcome_clears carried
  | matched_missing_tx_key txHash totalFee => exact markBatchManualReview_quiet tracks _
  | matched txHash totalFee txKey => exact finalizeMatchedTransfer_quiet tracks items txHash totalFee txKey

private theorem reconcileWithHistory_quiet (isPostSubmit : Bool) :
    (reconcileWithHistory batch items isPostSubmit).Meets quiet log (Returns (Clears id)) := by
  cases isPostSubmit with
  | true =>
    apply (findWalletTransferMatchAfterSubmit_meets batch items log).andReturns
    intro after result longer _
    exact settleMatch_quiet (tracks.extend longer) items result
  | false =>
    apply (findWalletTransferMatch_meets batch items log).andReturns
    intro after result longer _
    exact settleMatch_quiet (tracks.extend longer) items result

theorem reconcileBatch_quiet (isPostSubmit : Bool) :
    (reconcileBatch batch items isPostSubmit).Meets quiet log (Returns (Clears id)) := by
  apply returns_await trivial
  intro now _
  have later := tracks.extend (suffix_log log ⟨.now,.ok now⟩)
  split
  · exact unresolved_clears
  · split
    · exact reconcileSubmittedBatch_quiet later items isPostSubmit
    · exact reconcileWithHistory_quiet later items isPostSubmit

theorem reconcileAmbiguousSubmit_quiet :
    (reconcileAmbiguousSubmit batch items).Meets quiet log (Returns (Clears id)) := by
  apply (updateGuardedBatch_quiet tracks (by simp)).andReturns
  intro after result _ carried
  dsimp only
  split
  · exact guardedTransitionOutcome_clears carried
  · apply (reconcileBatch_quiet carried items true).andReturns
    intro later outcome _ clears
    split
    next cleared =>
      intro _
      exact clears cleared
    · exact unresolved_clears

end

end Finalization

section Submit

variable {log : Log} {id : ℕ} {batch : Batch}

def KeyClears (id : ℕ) (log : Log) : SubmittedTxKey → Prop
  | .ended outcome => Clears id log outcome
  | .ok _ => True

def EndClears (id : ℕ) (log : Log) : Option Outcome → Prop
  | some outcome => Clears id log outcome
  | none => True

theorem ended_quiet {p : Task Outcome} (meets : p.Meets quiet log (Returns (Clears id))) :
    (p >>= fun outcome => pure (some outcome)).Meets quiet log (Returns (EndClears id)) := by
  apply meets.andReturns
  intro after outcome _ clears
  exact clears

section

variable (tracks : Tracks log id batch)
include tracks

private theorem resolveSubmittedTxKey_quiet (txHash : String) (totalFee : ℚ) (transferResult : Json) :
    (resolveSubmittedTxKey batch txHash totalFee transferResult).Meets quiet log (Returns (KeyClears id)) := by
  unfold resolveSubmittedTxKey
  extract_lets replied
  split
  · exact trivial
  · apply (resolveTxKey_meets txHash log).andReturns
    intro after txKeyResult longer _
    split
    · exact trivial
    · exact trivial
    · apply (persistSubmittedBatch_quiet (tracks.extend longer) txHash none totalFee).andReturns
      intro later result _ carried
      dsimp only
      split
      · exact guardedTransitionOutcome_clears carried
      · apply (markBatchManualReview_quiet carried _).andReturns
        intro last outcome _ clears
        exact clears

private theorem waitForSubmittedVisibility_quiet (items : List Item) :
    (waitForSubmittedVisibility batch items).Meets quiet log (Returns (EndClears id)) := by
  apply (findSubmittedTransferVisibilityAfterSubmit_meets batch items log).andReturns
  intro after submittedVisibility longer _
  split
  · exact trivial
  · exact ended_quiet (holdBatch_quiet (tracks.extend longer))

private theorem settleTransfer_quiet (items : List Item) (txHash : String) (totalFee : ℚ) (txKey : Option String) :
    (settleTransfer batch items txHash totalFee txKey).Meets quiet log (Returns (Clears id)) := by
  apply (persistSubmittedBatch_quiet tracks txHash txKey totalFee).andReturns
  intro after result _ carried
  dsimp only
  split
  · exact guardedTransitionOutcome_clears carried
  · apply (waitForSubmittedVisibility_quiet carried items).andReturns
    intro later visibilityOutcome longer clears
    split
    · exact clears
    · exact finalized_quiet (carried.extend longer) items

private theorem handleTransferResult_quiet (items : List Item) (transferResult : Json) :
    (handleTransferResult batch items transferResult).Meets quiet log (Returns (Clears id)) := by
  unfold handleTransferResult
  split
  next txHash totalFee _ _ =>
    apply (resolveSubmittedTxKey_quiet tracks txHash totalFee transferResult).andReturns
    intro after txKeyResult longer clears
    split
    · exact clears
    · exact settleTransfer_quiet (tracks.extend longer) items txHash totalFee _
  · exact reconcileAmbiguousSubmit_quiet tracks items

private theorem handleTransferReplyError_quiet (items : List Item) (transferReply : RpcResponse) :
    (handleTransferReplyError batch items transferReply).Meets quiet log (Returns (EndClears id)) := by
  unfold handleTransferReplyError
  split
  · split
    · exact ended_quiet (reconcileHistoryCheckedSubmitError_quiet tracks items)
    · exact ended_quiet (reconcileAmbiguousSubmit_quiet tracks items)
  · split
    · exact ended_quiet (reconcileAmbiguousSubmit_quiet tracks items)
    · exact trivial

private theorem transferBatch_quiet (items : List Item) :
    (transferBatch batch items).Meets quiet log (Returns (Clears id)) := by
  apply returns_await trivial
  intro transferReply _
  have now := tracks.extend (suffix_log log ⟨_,.ok transferReply⟩)
  apply (handleTransferReplyError_quiet now items transferReply).andReturns
  intro after transferErrorOutcome longer clears
  split
  · exact clears
  · split
    · exact reconcileAmbiguousSubmit_quiet (now.extend longer) items
    · exact handleTransferResult_quiet (now.extend longer) items _

end

theorem submitReservedBatch_quiet (config : Config) (tracks : Tracks log id batch) (items : List Item) :
    (submitReservedBatch config batch items).Meets quiet log (Returns (Clears id)) := by
  apply (checkExclusiveAccess_meets log).andReturns
  intro first exclusive longer _
  split
  · exact unresolved_clears
  · apply (preflightWalletBalance_meets config batch.total_net first).andReturns
    intro second preflight longer' _
    have now := tracks.extend (longer.trans longer')
    split
    · exact holdBatchForRetry_quiet now
    · apply (checkExclusiveAccess_meets second).andReturns
      intro third stillExclusive longer'' _
      split
      · exact unresolved_clears
      · apply (claimBatchForSubmit_quiet (now.extend longer'') batch.status).andReturns
        intro fourth result _ carried
        dsimp only
        split
        · exact handleLostSubmitClaim_quiet carried
        · exact transferBatch_quiet carried items

end Submit

section Recovery

variable {log : Log} {batch : Batch}

private theorem confirms_quiet {p : Task Outcome} {id : ℕ} (meets : p.Meets quiet log (Returns (Clears id))) : (do
      let outcome ← p
      return decide (outcome = .cleared) : Task Bool).Meets quiet log (Returns (Confirms id)) := by
  apply meets.andReturns
  intro after outcome _ clears settled
  exact clears (of_decide_eq_true settled)

private theorem recoverBatch_quiet (config : Config) (unsettled : batch.status ∈ openStatuses) (items : List Item) :
    (recoverBatch config batch items).Meets quiet log (Returns (Confirms batch.id)) := by
  have tracks : Tracks log batch.id batch := by
    refine ⟨rfl,fun final => ?_⟩
    rw [final] at unsettled
    simp [openStatuses] at unsettled
  have reconciled := confirms_quiet (reconcileBatch_quiet tracks items false)
  unfold recoverBatch
  cases status : batch.status with
  | reserved =>
    dsimp only
    split
    · exact releaseBatchReservation_quiet rfl
    · exact reconciled
  | retrying => exact confirms_quiet (submitReservedBatch_quiet config tracks items)
  | submitting | submitted => exact reconciled
  | finalized | retryable => simp [status,openStatuses] at unsettled
  | manual_review =>
    apply (enterFailStop_meets log).returns
    intro after settled no yes
    rw [no] at yes
    cases yes

theorem recoverBatches_quiet (config : Config) (batches : List Batch) (log : Log)
    (told : ∀ batch ∈ batches, batch.status ∈ openStatuses) : (recoverBatches config batches).Meets quiet log
      (Returns fun after settled => settled = true → ∀ batch ∈ batches, Closed after batch.id) := by
  induction batches generalizing log with
  | nil =>
    intro _ batch member
    cases member
  | cons batch batches ih =>
    apply (checkExclusiveAccess_meets log).andReturns
    intro first exclusive _ _
    split
    · intro same
      cases same
    · apply returns_await trivial
      intro items _
      apply (recoverBatch_quiet config (told batch List.mem_cons_self) items).andReturns
      intro second settled longer closed
      split
      next done =>
        apply (ih second fun other inside => told other (List.mem_cons_of_mem _ inside)).extends.imp
        intro third result met
        cases result with
        | error failure => exact trivial
        | ok whole =>
          intro yes other inside
          rcases List.mem_cons.mp inside with rfl | later
          · exact (closed done).extend met.1
          · exact met.2 yes other later
      · intro same
        cases same

end Recovery
end NodejsPool.Payments
