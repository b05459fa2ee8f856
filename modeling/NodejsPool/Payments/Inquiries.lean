import NodejsPool.Payments.Contract

/-! The functions that only ask, of the wallet, the lock and the clock: what they establish,
under whatever contract lets a process ask. -/
namespace NodejsPool.Payments
open Async Program

abbrev anything {A : Type} : Log → A → Prop := fun _ _ => True

section Rules

/-- The calls that change no batch and no balance, and open no plan. -/
def asking : Call → Prop
  | .wallet (.transfer _ _) => False
  | .wallet _ => True
  | .selectBatch _ => True
  | .selectItems _ => True
  | .getConnection => True
  | .isUsedLock => True
  | .releaseLock => True
  | .now => True
  | .sleep _ => True
  | .isFailStop => True
  | .enterFailStop => True
  | .lockConnection => True
  | .setLockConnection _ => True
  | _ => False

class Asking (contract : Contract signature) : Prop where
  asks : ∀ log call, asking call → contract.allowed log call

class Locking (contract : Contract signature) : Prop extends Asking contract where
  locks : ∀ log, contract.allowed log .getLock

instance : Asking settlement where
  asks log call asks := by
    cases call with
    | wallet rpc => cases rpc <;> first | exact trivial | cases asks
    | _ => first | exact trivial | cases asks

variable {contract : Contract signature} [Asking contract]

theorem asks_await {call : Call} {A : Type} {f : signature.Reply call → Task A} {log : Log} {good : Log → A → Prop}
    (asks : asking call) (next : ∀ reply, (f reply).Meets contract (⟨call,.ok reply⟩::log) (Returns good)) :
    (ask call >>= f).Meets contract log (Returns good) :=
  returns_await (Asking.asks log call asks) fun reply _ => next reply

theorem asks_perform {call : Call} {log : Log} (asks : asking call) :
    (ask call).Meets contract log (Returns anything) :=
  returns_perform (Asking.asks log call asks) fun _ _ => trivial

theorem suffix_log (log : Log) (event : Event signature) : log <:+ event::log := List.suffix_cons _ _

theorem currentTime_meets (log : Log) : currentTime.Meets contract log (Returns anything) :=
  asks_await trivial fun _ => trivial

omit [Asking contract] in
theorem liftExcept_meets {A : Type} (value : Except Failure A) (log : Log) :
    (liftExcept value).Meets contract log (Returns fun after result => value = .ok result ∧ after = log) := by
  cases value with
  | ok value => exact ⟨rfl,rfl⟩
  | error failure => exact trivial

end Rules

section Lock

variable {contract : Contract signature} [Asking contract]

theorem enterFailStop_meets (log : Log) : enterFailStop.Meets contract log (Returns fun _ result => result = false) :=
  asks_await trivial fun _ => rfl

def Sees (log after : Log) (owns : Bool) : Prop :=
  owns = true → (standing log).reserved ⊆ (standing after).cleared

theorem sees_false {log after : Log} {owns : Bool} (no : owns = false) : Sees log after owns := by
  intro yes
  rw [no] at yes
  cases yes

theorem verifyAdvisoryLock_meets (log : Log) : verifyAdvisoryLock.Meets contract log (Returns (Sees log)) := by
  refine asks_await trivial fun connected => ?_
  split
  · exact sees_false rfl
  · have looking : (tryCatch ((fun owns => some owns) <$> ask .isUsedLock) fun _ => return none).Meets contract
        (⟨.lockConnection,.ok connected⟩::log) (Returns fun after owns => owns = some true →
          (standing log).reserved ⊆ (standing after).cleared) := by
      rw [meets_tryCatch,meets_map,ask,meets_perform]
      refine ⟨Asking.asks _ _ trivial,fun outcome _ => ?_⟩
      cases outcome with
      | ok owns =>
        intro same
        obtain rfl : owns = true := Option.some.inj same
        exact List.subset_append_left _ _
      | error failure =>
        intro same
        cases same
    apply looking.andReturns
    intro after owns _ seen
    rcases owns with _ | _ | _
    · exact asks_await trivial fun _ => (enterFailStop_meets _).returns fun _ _ no => sees_false no
    · exact (enterFailStop_meets _).returns fun _ _ no => sees_false no
    · intro _
      exact seen rfl

theorem checkExclusiveAccess_meets (log : Log) : checkExclusiveAccess.Meets contract log (Returns (Sees log)) := by
  refine asks_await trivial fun stopped => ?_
  split
  · exact sees_false rfl
  · refine asks_await trivial fun connected => ?_
    split
    · exact sees_false rfl
    · exact verifyAdvisoryLock_meets _

theorem releaseAdvisoryLock_meets (log : Log) : releaseAdvisoryLock.Meets contract log (Returns anything) := by
  refine asks_await trivial fun connected => ?_
  split
  · exact trivial
  · have releasing (before : Log) : ((ask .releaseLock).tryCatch fun _ => return ()).Meets contract before
        (Returns anything) := by
      rw [meets_tryCatch,ask,meets_perform]
      refine ⟨Asking.asks _ _ trivial,fun outcome _ => ?_⟩
      cases outcome <;> exact trivial
    apply (releasing _).andReturns
    intro _ _ _ _
    exact asks_perform trivial

end Lock

section Wallet

variable {contract : Contract signature} [Asking contract]

theorem resolveTxKey_meets (txHash : String) (log : Log) :
    (resolveTxKey txHash).Meets contract log (Returns anything) := by
  refine asks_await trivial fun reply => ?_
  split
  · exact trivial
  · split
    · exact trivial
    · split
      · split <;> exact trivial
      · exact trivial

def Loads (after : Log) : WalletLoad → Prop
  | .ok transfers => ∀ transfer ∈ transfers, Reported after transfer
  | _ => True

theorem reported_reply {rpc : Rpc} {reply : RpcResponse} {result : Json} {transfer : Json} {log : Log}
    (found : reply.result = some result) (member : transfer ∈ transfersOf result ++ transfersByTxid result) :
    Reported (⟨.wallet rpc,.ok reply⟩::log) transfer :=
  ⟨_,List.mem_cons_self,by simpa [transfersTold,found] using member⟩

private theorem loadTransfersBetween_meets (heights : Option (ℚ × ℚ)) (log : Log) :
    (loadTransfersBetween heights).Meets contract log (Returns Loads) := by
  refine asks_await trivial fun reply => ?_
  split
  · exact trivial
  next result found =>
    intro transfer member
    exact reported_reply found (List.mem_append_left _ member)

theorem loadWalletTransfers_meets (filterByHeight : Bool) (log : Log) :
    (loadWalletTransfers filterByHeight).Meets contract log (Returns Loads) := by
  unfold loadWalletTransfers
  split
  · refine asks_await trivial fun reply => ?_
    split
    · exact trivial
    · exact loadTransfersBetween_meets _ _
  · exact loadTransfersBetween_meets _ _

private theorem loadWalletTransferByTxHash_meets (txHash : String) (log : Log) :
    (loadWalletTransferByTxHash txHash).Meets contract log (Returns Loads) := by
  refine asks_await trivial fun reply => ?_
  split
  · exact trivial
  · split
    · split
      · exact trivial
      · split <;> exact trivial
    · split
      · exact trivial
      next result found =>
        dsimp only
        split
        · exact trivial
        · intro transfer member
          exact reported_reply found (List.mem_append_right _ member)

theorem loadSubmittedTransfersByTxHash_meets (txHash : String) (log : Log) :
    (loadSubmittedTransfersByTxHash txHash).Meets contract log (Returns Loads) := by
  apply (loadWalletTransferByTxHash_meets txHash log).andReturns
  intro after byTxHash _ loads
  split
  · apply (loadWalletTransfers_meets false after).andReturns
    intro later fallback _ reported
    split
    next transfers =>
      dsimp only
      split
      · exact trivial
      · intro transfer member
        exact reported transfer (List.mem_filter.mp member).1
    · exact reported
  · exact loads

def FoundMatch (items : List Item) (after : Log) : WalletMatch → Prop
  | .matched_waiting_tx_key txHash _ => Canonical txHash ∧ Matched after items txHash
  | .matched_missing_tx_key txHash _ => Canonical txHash ∧ Matched after items txHash
  | .matched txHash _ _ => Canonical txHash ∧ Matched after items txHash
  | _ => True

theorem findWalletTransferMatch_meets (batch : Batch) (items : List Item) (log : Log) :
    (findWalletTransferMatch batch items).Meets contract log (Returns (FoundMatch items)) := by
  apply (loadWalletTransfers_meets true log).andReturns
  intro after loadedTransfers _ loads
  split
  next transfers =>
    apply (liftExcept_meets _ after).andReturns
    intro later found _ filtered
    obtain ⟨filtered,rfl⟩ := filtered
    split
    · exact trivial
    next transfer =>
      split
      next txHash totalFee hashed _ =>
        obtain ⟨inside,matching⟩ := mem_filterMatches filtered (List.mem_singleton_self _)
        have canonical : Canonical txHash := normalizeHash_idem hashed
        have matched : Matched later items txHash :=
          ⟨transfer,loads transfer inside,by simpa [hasTxHash] using hashed,batch,matching⟩
        apply (resolveTxKey_meets txHash later).andReturns
        intro last txKeyResult longer _
        split
        · exact ⟨canonical,matched.extend longer⟩
        · exact ⟨canonical,matched.extend longer⟩
        · exact ⟨canonical,matched.extend longer⟩
      · exact trivial
    · exact trivial
  · exact trivial

private theorem someExact_mem {batch : Batch} {items : List Item} {txHash : String} {transfers : List Json}
    (visible : someExactSubmittedTransfer batch items txHash transfers = .ok true) :
    ∃ transfer ∈ transfers, hasTxHash txHash transfer = true ∧
    transferMatchesBatch batch items transfer = .ok true := by
  induction transfers with
  | nil => cases visible
  | cons transfer transfers ih =>
    have later (rest : someExactSubmittedTransfer batch items txHash transfers = .ok true) :
        ∃ other ∈ transfer::transfers, hasTxHash txHash other = true ∧
          transferMatchesBatch batch items other = .ok true := by
      obtain ⟨other,inside,found⟩ := ih rest
      exact ⟨other,List.mem_cons_of_mem _ inside,found⟩
    unfold someExactSubmittedTransfer at visible
    split at visible
    next candidate =>
      cases matching : transferMatchesBatch batch items transfer with
      | error failure =>
        rw [matching] at visible
        cases visible
      | ok found =>
        rw [matching] at visible
        cases found with
        | true =>
          simp only [Bool.and_eq_true] at candidate
          exact ⟨transfer,List.mem_cons_self,candidate.2,matching⟩
        | false => exact later visible
    · exact later visible

def SeesTransfer (batch : Batch) (items : List Item) (after : Log) (visibility : Visibility) : Prop :=
  visibility = .visible → ∀ txHash, normalizeHash (batch.tx_hash.map Json.str) = some txHash →
    Matched after items txHash

theorem findSubmittedTransferVisibility_meets (batch : Batch) (items : List Item) (log : Log) :
    (findSubmittedTransferVisibility batch items).Meets contract log (Returns (SeesTransfer batch items)) := by
  have hidden (after : Log) (visibility : Visibility) (no : visibility ≠ .visible) :
      SeesTransfer batch items after visibility := fun yes => (no yes).elim
  unfold findSubmittedTransferVisibility
  split
  · exact hidden _ _ (by decide)
  next txHash hashed =>
    apply (loadSubmittedTransfersByTxHash_meets txHash log).andReturns
    intro after loadedTransfers _ loads
    split
    next transfers =>
      apply (liftExcept_meets _ after).andReturns
      intro later visible _ exact_
      obtain ⟨exact_,rfl⟩ := exact_
      split
      next yes =>
        intro _ other same
        cases hashed.symm.trans same
        obtain ⟨transfer,inside,found,matching⟩ := someExact_mem (yes ▸ exact_)
        exact ⟨transfer,loads transfer inside,found,batch,matching⟩
      · exact hidden _ _ (by decide)
    · exact hidden _ _ (by decide)
    · exact hidden _ _ (by decide)

section

variable {A : Type}
  {search : Task A}
  {good : Log → A → Prop}
  (meets : ∀ log, search.Meets contract log (Returns good))
  (shouldRetry : A → Bool)
include meets shouldRetry

private theorem retrySearch_meets (delay : ℕ) (delays : List ℕ) (log : Log) :
    (retrySearch search shouldRetry delay delays).Meets contract log (Returns good) := by
  induction delays generalizing delay log with
  | nil => exact asks_await trivial fun _ => meets _
  | cons next delays ih =>
    refine asks_await trivial fun _ => ?_
    apply (meets _).andReturns
    intro after result _ found
    split
    · exact ih next after
    · exact found

theorem retryPostSubmitSearch_meets (log : Log) :
    (retryPostSubmitSearch search shouldRetry).Meets contract log (Returns good) :=
  retrySearch_meets meets shouldRetry _ _ log

end

theorem findWalletTransferMatchAfterSubmit_meets (batch : Batch) (items : List Item) (log : Log) :
    (findWalletTransferMatchAfterSubmit batch items).Meets contract log (Returns (FoundMatch items)) :=
  retryPostSubmitSearch_meets (findWalletTransferMatch_meets batch items) _ log

theorem findSubmittedTransferVisibilityAfterSubmit_meets (batch : Batch) (items : List Item) (log : Log) :
    (findSubmittedTransferVisibilityAfterSubmit batch items).Meets contract log
      (Returns (SeesTransfer batch items)) :=
  retryPostSubmitSearch_meets (findSubmittedTransferVisibility_meets batch items) _ log

theorem preflightWalletBalance_meets (config : Config) (totalNet : ℤ) (log : Log) :
    (preflightWalletBalance config totalNet).Meets contract log (Returns anything) := by
  refine asks_await trivial fun reply => ?_
  split
  · exact trivial
  · split
    · exact trivial
    · split
      · exact trivial
      · split <;> exact trivial

end Wallet

section Locking

variable {contract : Contract signature} [Locking contract]

private theorem acquireAdvisoryLock_meets (log : Log) : acquireAdvisoryLock.Meets contract log (Returns anything) := by
  refine asks_await trivial fun _ => ?_
  refine asks_await trivial fun _ => ?_
  refine returns_await (Locking.locks _) fun locked _ => ?_
  split
  · exact trivial
  · apply (releaseAdvisoryLock_meets _).andReturns
    intro after _ _ _
    exact (enterFailStop_meets after).returns fun _ _ _ => trivial

theorem ensureAdvisoryLock_meets (log : Log) : ensureAdvisoryLock.Meets contract log (Returns anything) := by
  refine asks_await trivial fun connected => ?_
  split
  · exact (verifyAdvisoryLock_meets _).returns fun _ _ _ => trivial
  · apply (acquireAdvisoryLock_meets _).tryCatch
    · intro _ _ _ _
      exact trivial
    · intro after failure _ _
      refine asks_await trivial fun _ => ?_
      exact (enterFailStop_meets _).returns fun _ _ _ => trivial

end Locking
end NodejsPool.Payments
