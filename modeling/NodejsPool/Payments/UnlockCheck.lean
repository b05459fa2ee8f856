import NodejsPool.Async.Solo
import NodejsPool.Payments.Execution

/-! The unlock tool reads the wallet's history itself before it releases a batch past the submit
boundary. It is compared with the runtime's own lookup on the same two replies. -/
namespace NodejsPool.Payments
open Async Program

section Replies

structure WalletReplies where
  height : RpcResponse
  transfers : RpcResponse

def WalletReplies.answer (replies : WalletReplies) : Rpc → RpcResponse
  | .get_height => replies.height
  | _ => replies.transfers

def WalletReplies.tell (replies : WalletReplies) : (call : Call) → Option (signature.Outcome call)
  | .wallet rpc => some (.ok (replies.answer rpc))
  | _ => none

/-- The outcome of a task that asks nothing but the wallet. -/
def ofReplies {A : Type} (replies : WalletReplies) : Task A → Option (Except Failure A)
  | .done value => some (.ok value)
  | .throw failure => some (.error failure)
  | .call request next =>
    match replies.tell request with
    | some outcome => ofReplies replies (next outcome)
    | none => none

def RuntimeHolds (replies : WalletReplies) (batch : Batch) (items : List Item) : Prop :=
  match ofReplies replies (loadWalletTransfers true) with
  | some (.ok .wallet_unavailable) => True
  | some (.ok (.ok transfers)) => ∃ found others, filterMatches batch items transfers = .ok (found::others)
  | _ => False

def respond (replies : WalletReplies) (process : ℕ) :
    (call : Call) → Answer → Shared → Option (signature.Outcome call × Shared)
  | .wallet rpc,_,shared => some (.ok (replies.answer rpc),shared)
  | request,answer,shared => perform process shared answer request

end Replies

section Validators

variable {replies : WalletReplies} {batch : Batch} {items : List Item}

/-- What `Number` turns into a number and the runtime does not take for one. -/
def misread : Option Json → Bool
  | some .null => true
  | some (.bool _) => true
  | some (.str text) => text = ""
  | some (.arr values) => (readNumber (Json.arr values).toText).isSome
  | _ => false

theorem misread_iff (value : Option Json) :
    misread value = true ↔ normalizeInteger value = none ∧ (toNumber value).isSome = true := by
  cases value with
  | none => simp [misread,toNumber]
  | some value =>
    cases value with
    | str text =>
      by_cases empty : text = ""
      · subst empty
        have zero : (readNumber "").isSome = true := by decide +kernel
        simp [misread,normalizeInteger,toNumber,zero]
      · simp only [misread,decide_eq_true_eq,empty,normalizeInteger,toNumber,if_false,false_iff]
        rintro ⟨missing,found⟩
        rw [missing] at found
        cases found
    | _ => simp [misread,normalizeInteger,toNumber]

def HeightMisread (replies : WalletReplies) : Prop :=
  ∃ result, replies.height.result = some result ∧ misread (result.field "height") = true

def HistoryClear (replies : WalletReplies) (batch : Batch) (items : List Item) : Prop :=
  ∃ result transfers, replies.transfers.result = some result ∧
    historyTransfers result ["out","pending","pool"] = some transfers ∧
    checkHistory.firstMatch batch items transfers = .ok none

theorem ofReplies_callWallet {A : Type} (rpc : Rpc) (next : RpcResponse → Task A) :
    ofReplies replies (callWallet rpc >>= next) = ofReplies replies (next (replies.answer rpc)) := rfl

theorem loadWalletTransfers_unread (unread : (replies.height.result.bind fun result =>
    normalizeInteger (result.field "height")) = none) :
    ofReplies replies (loadWalletTransfers true) = some (.ok .wallet_unavailable) := by
  rw [loadWalletTransfers,if_pos rfl,ofReplies_callWallet]
  dsimp only [WalletReplies.answer]
  rw [unread]
  rfl

theorem loadWalletTransfers_read {number : ℚ} (read : (replies.height.result.bind fun result =>
    normalizeInteger (result.field "height")) = some number) :
    ofReplies replies (loadWalletTransfers true) = some (.ok (match replies.transfers.result with
      | none => .wallet_unavailable
      | some result => .ok (transfersOf result))) := by
  rw [loadWalletTransfers,if_pos rfl,ofReplies_callWallet]
  dsimp only [WalletReplies.answer]
  rw [read]
  dsimp only
  rw [loadTransfersBetween,ofReplies_callWallet]
  dsimp only [WalletReplies.answer]
  cases replies.transfers.result <;> rfl

theorem historyTransfers_eq {result : Json} {keys : List String} {transfers : List Json}
    (scanned : historyTransfers result keys = some transfers) : transfers = keys.flatMap (recordsAt result) := by
  induction keys generalizing transfers with
  | nil =>
    cases scanned
    rfl
  | cons key keys ih =>
    rw [List.flatMap_cons]
    unfold historyTransfers at scanned
    cases values : result.field key with
    | none =>
      rw [values] at scanned
      rw [ih scanned,recordsAt,values]
      rfl
    | some value =>
      rw [values] at scanned
      cases value with
      | arr entries =>
        dsimp only at scanned
        split at scanned
        · next records =>
          obtain ⟨others,rest,rfl⟩ := Option.map_eq_some_iff.mp scanned
          have own : recordsAt result key = entries := by
            rw [recordsAt,values]
            exact List.filter_eq_self.mpr (List.all_eq_true.mp records)
          rw [own,ih rest]
        · cases scanned
      | _ => cases scanned

theorem firstMatch_none {transfers matching : List Json} (filtered : filterMatches batch items transfers = .ok matching)
    (clear : checkHistory.firstMatch batch items transfers = .ok none) : matching = [] := by
  induction transfers generalizing matching with
  | nil =>
    cases filtered
    rfl
  | cons transfer transfers ih =>
    unfold filterMatches at filtered
    unfold checkHistory.firstMatch at clear
    cases first : transferMatchesBatch batch items transfer with
    | error failure =>
      rw [first] at clear
      cases clear
    | ok found =>
      rw [first] at filtered clear
      cases found with
      | true => cases clear
      | false =>
        cases rest : filterMatches batch items transfers with
        | error failure =>
          rw [rest] at filtered
          cases filtered
        | ok others =>
          rw [rest] at filtered
          cases filtered
          exact ih rest clear

theorem misread_of_clear (holds : RuntimeHolds replies batch items) (clear : HistoryClear replies batch items)
    {height : ℚ} (read : (replies.height.result.bind fun result => toNumber (result.field "height")) = some height) :
    HeightMisread replies := by
  obtain ⟨result,found,number⟩ := Option.bind_eq_some_iff.mp read
  refine ⟨result,found,(misread_iff _).mpr ⟨?_,by rw [number]; rfl⟩⟩
  cases normalized : normalizeInteger (result.field "height") with
  | none => rfl
  | some walletHeight =>
    exfalso
    obtain ⟨history,transfers,replied,scanned,none_⟩ := clear
    have known : (replies.height.result.bind fun result => normalizeInteger (result.field "height")) =
        some walletHeight := by
      rw [found]
      exact normalized
    have loaded := loadWalletTransfers_read known
    rw [replied] at loaded
    unfold RuntimeHolds at holds
    rw [loaded] at holds
    obtain ⟨first,others,filtered⟩ := holds
    have same : transfers = transfersOf history := historyTransfers_eq scanned
    rw [← same] at filtered
    cases firstMatch_none filtered none_

theorem holds_of_misread (slipped : HeightMisread replies) : RuntimeHolds replies batch items := by
  obtain ⟨result,found,slipped⟩ := slipped
  have unread : (replies.height.result.bind fun result => normalizeInteger (result.field "height")) = none := by
    rw [found]
    exact ((misread_iff _).mp slipped).1
  unfold RuntimeHolds
  rw [loadWalletTransfers_unread unread]
  trivial

end Validators

section Refusal

variable {replies : WalletReplies} {db : Db} {batch : Batch} {options : UnlockOptions} {process : ℕ} {free : Bool}

/-- What keeps the tool from releasing the batch, the wallet check apart, does not stand in its way. -/
structure Unlockable (options : UnlockOptions) (db : Db) (batch : Batch) : Prop where
  confirmed : options.confirmWalletHistoryChecked = true
  safe : unsafeUnlock batch true = false
  forced : riskyUnlock batch (selectItems db options.batchId) (selectReservedBalances db options.batchId) = true →
    options.force = true
  status : batch.status ∈ [.reserved,.retrying,.submitting]

def lockFree (process : ℕ) (shared : Shared) : Bool := shared.lockOwner.all fun owner => owner = process

def harmless (db : Db) : Call → Prop
  | .unlock id confirm releasedAt => ∀ cleared after, ¬(unlockTransaction id confirm releasedAt).Yields db cleared after
  | request => unlocking request

def toldAlone (replies : WalletReplies) (db : Db) (free : Bool) : (call : Call) → signature.Outcome call → Prop
  | .wallet rpc,outcome => outcome = .ok (replies.answer rpc)
  | .selectBatch id,.ok loaded => loaded = selectBatch db id
  | .selectItems id,.ok items => items = selectItems db id
  | .selectReservedBalances id,.ok rows => rows = selectReservedBalances db id
  | .getLock,.ok locked => locked = free
  | .unlock _ _ _,.ok _ => False
  | _,_ => True

@[reducible] def aloneTool (replies : WalletReplies) (db : Db) (free : Bool) : Contract signature :=
  ⟨fun _ => harmless db,fun _ => toldAlone replies db free⟩

def Untouched (process : ℕ) (db : Db) (free : Bool) (shared : Shared) : Prop :=
  shared.db = db ∧ lockFree process shared = free

theorem attempt_untouched {A : Type} {answer : Answer} {value : A} {after shared next : Shared}
    {outcome : Except Failure A} (start : Untouched process db free shared) (kept : Untouched process db free after)
    (answered : attempt answer value after shared = some (outcome,next)) :
    (∀ reply, outcome = .ok reply → reply = value) ∧ Untouched process db free next := by
  rcases attempt_cases answered with ⟨rfl,told⟩ | ⟨rfl,failure,rfl⟩
  · exact ⟨told,kept⟩
  · exact ⟨nofun,start⟩

private theorem lockFree_getLock (shared : Shared) :
    lockFree process {shared with lockOwner := shared.lockOwner.or (some process)} = lockFree process shared := by
  cases owner : shared.lockOwner with
  | none | some other => simp [lockFree,owner]

private theorem lockFree_releaseLock (shared : Shared) : lockFree process
    {shared with lockOwner := shared.lockOwner.filter fun owner => owner ≠ process} = lockFree process shared := by
  cases owner : shared.lockOwner with
  | none => simp [lockFree,owner]
  | some other =>
    by_cases own : other = process
    · simp [lockFree,owner,own]
    · simp [lockFree,owner,own]

theorem respond_untouched {call : Call} {answer : Answer} {shared next : Shared} {outcome : signature.Outcome call}
    (start : Untouched process db free shared) (allowed : harmless db call)
    (answered : respond replies process call answer shared = some (outcome,next)) :
    toldAlone replies db free call outcome ∧ Untouched process db free next := by
  obtain ⟨rfl,own⟩ := start
  have start : Untouched process shared.db free shared := ⟨rfl,own⟩
  cases call with
  | wallet rpc =>
    cases answered
    exact ⟨rfl,start⟩
  | selectBatch id | selectItems id | selectReservedBalances id =>
    obtain ⟨told,kept⟩ := attempt_untouched start start answered
    refine ⟨?_,kept⟩
    cases outcome with
    | ok loaded => exact told loaded rfl
    | error failure => trivial
  | getLock =>
    have taken : Untouched process shared.db free {shared with lockOwner := shared.lockOwner.or (some process)} :=
      ⟨rfl,(lockFree_getLock shared).trans own⟩
    obtain ⟨told,kept⟩ := attempt_untouched start taken answered
    refine ⟨?_,kept⟩
    cases outcome with
    | ok locked => exact (told locked rfl).trans own
    | error failure => trivial
  | releaseLock =>
    have given : Untouched process shared.db free
        {shared with lockOwner := shared.lockOwner.filter fun owner => owner ≠ process} :=
      ⟨rfl,(lockFree_releaseLock shared).trans own⟩
    exact ⟨trivial,(attempt_untouched start given answered).2⟩
  | unlock id confirm releasedAt =>
    rcases attemptTransaction_cases answered with ⟨cleared,after,yields,_,_⟩ | ⟨rfl,failure,rfl⟩
    · exact (allowed cleared after yields).elim
    · exact ⟨trivial,start⟩
  | now =>
    cases answer with
    | time milliseconds =>
      cases answered
      exact ⟨trivial,start⟩
    | _ => cases answered
  | selectOpenBatches => exact ⟨trivial,(attempt_untouched start start answered).2⟩
  | selectPayoutRows walletMin => exact ⟨trivial,(attempt_untouched start start answered).2⟩
  | getConnection => exact ⟨trivial,(attempt_untouched start start answered).2⟩
  | isUsedLock => exact ⟨trivial,(attempt_untouched start start answered).2⟩
  | updateBatch id fields guard => exact allowed.elim
  | reserve plan => exact allowed.elim
  | finalize batch items hash txKey finalizedAt => exact allowed.elim
  | release batch releasedAt => exact allowed.elim
  | _ =>
    cases answered
    exact ⟨trivial,start⟩

theorem liftExcept_bind {A B : Type} (value : A) (next : A → Task B) : (liftExcept (.ok value) >>= next) = next value :=
  rfl

private theorem defaultWalletMatchChecker_alone (batch : Batch) (items : List Item) (log : Log) :
    (defaultWalletMatchChecker batch items).Meets (aloneTool replies db free) log
      (Returns fun _ check => check = .no_match → HistoryClear replies batch items ∧
        (replies.height.result.bind fun result => toNumber (result.field "height")).isSome = true) := by
  apply returns_await trivial
  intro heightReply told
  cases told
  split
  · exact fun check => by cases check
  · next walletHeight read =>
    apply returns_await trivial
    intro reply told
    cases told
    split
    · exact fun check => by cases check
    · next history replied =>
      change replies.transfers.result = some history at replied
      change (replies.height.result.bind fun result => toNumber (result.field "height")) = some walletHeight at read
      unfold checkHistory
      split
      · exact fun check => by cases check
      · next transfers scanned =>
        cases first : checkHistory.firstMatch batch items transfers with
        | error failure => exact trivial
        | ok found =>
          cases found with
          | none => exact fun _ => ⟨⟨history,transfers,replied,scanned,first⟩,by rw [read]; rfl⟩
          | some transfer =>
            rw [liftExcept_bind]
            dsimp only
            split <;> exact fun check => by cases check

theorem assertWalletHistoryClear_alone (batch : Batch) (items : List Item) (log : Log) :
    (assertWalletHistoryClear batch items).Meets (aloneTool replies db free) log
      (Returns fun _ _ => HistoryClear replies batch items ∧
        (replies.height.result.bind fun result => toNumber (result.field "height")).isSome = true) := by
  apply (defaultWalletMatchChecker_alone batch items log).andReturns
  intro after check _ clear
  split
  · next passed => exact clear passed
  · exact trivial

theorem selectBatch_found {id : ℕ} (stored : selectBatch db id = some batch) :
    batch ∈ db.payment_batches ∧ batch.id = id := by
  have same := List.find?_some (p := fun row : Batch => decide (row.id = id)) stored
  exact ⟨List.mem_of_find?_eq_some stored,of_decide_eq_true same⟩

private theorem unlock_unyielding (distinct : (db.payment_batches.map Batch.id).Nodup) {id : ℕ}
    (stored : selectBatch db id = some batch)
    (settled : batch.status ∉ [.reserved,.retrying,.submitting]) (releasedAt cleared : ℕ) (after : Db) :
    ¬(unlockTransaction id true releasedAt).Yields db cleared after := by
  intro yields
  have one := (unlock_writes yields).2
  have positive : 0 < db.payment_batches.countP fun row => row.id = id ∧ (unlockGuard true).admits row := by omega
  obtain ⟨row,member,admitted⟩ := List.countP_pos_iff.mp positive
  obtain ⟨same,admits⟩ := of_decide_eq_true admitted
  obtain ⟨inside,own⟩ := selectBatch_found stored
  have equal : row = batch := List.inj_on_of_nodup_map distinct member inside (same.trans own.symm)
  subst equal
  have status : row.status ∈ [.reserved,.retrying,.submitting] := by
    simpa [unlockGuard,Guard.admits] using admits
  exact settled status

section

variable (stored : selectBatch db options.batchId = some batch)
  (past : batch.submit_started_at.isSome = true)
  (holds : RuntimeHolds replies batch (selectItems db options.batchId))
include stored past holds

theorem runUnlock_alone (kept : ¬(HeightMisread replies ∧ HistoryClear replies batch (selectItems db options.batchId) ∧
      Unlockable options db batch))
    (distinct : (db.payment_batches.map Batch.id).Nodup) (log : Log) :
    (runUnlock options).Meets (aloneTool replies db free) log (Returns fun _ _ => False) := by
  apply returns_await trivial
  intro loaded told
  cases (show loaded = some batch from told.trans stored)
  apply returns_await trivial
  intro items told
  cases told
  apply returns_await trivial
  intro reservedBalances told
  cases told
  split
  · exact trivial
  · next safe =>
    split
    · exact trivial
    · next forced =>
      have confirmed : options.confirmWalletHistoryChecked = true := by
        cases confirmed : options.confirmWalletHistoryChecked with
        | true => rfl
        | false => simp [unsafeUnlock,confirmed,past] at safe
      rw [if_pos (by simp [confirmed,past])]
      apply (assertWalletHistoryClear_alone batch (selectItems db options.batchId) _).andReturns
      intro checked _ _ clear
      obtain ⟨height,read⟩ := Option.isSome_iff_exists.mp clear.2
      have misread := misread_of_clear holds clear.1 read
      have settled : batch.status ∉ [.reserved,.retrying,.submitting] := by
        intro status
        refine kept ⟨misread,clear.1,confirmed,?_,?_,status⟩
        · rw [confirmed] at safe
          exact (Bool.not_eq_true _).mp safe
        · intro risky
          rw [risky] at forced
          simpa using forced
      have clock : currentTime.Meets (aloneTool replies db free) checked (Returns fun _ _ => True) :=
        returns_await trivial fun _ _ => trivial
      apply clock.andReturns
      intro after releasedAt _ _
      have refused : harmless db (.unlock options.batchId options.confirmWalletHistoryChecked releasedAt) := by
        rw [confirmed]
        exact unlock_unyielding distinct stored settled releasedAt
      exact returns_await refused fun reply told => told.elim

theorem unlockBatch_alone (kept :
      ¬(HeightMisread replies ∧ HistoryClear replies batch (selectItems db options.batchId) ∧
      Unlockable options db batch ∧ free = true))
    (distinct : (db.payment_batches.map Batch.id).Nodup) (log : Log) :
    (unlockBatch options).Meets (aloneTool replies db free) log (Returns fun _ _ => False) := by
  apply returns_await trivial
  intro _ _
  apply returns_await trivial
  intro locked told
  cases (show locked = free from told)
  split
  · exact trivial
  · next held =>
    have own : free = true := by simpa using held
    have refused (before : Log) : (runUnlock options).Meets (aloneTool replies db free) before (Returns
        fun _ _ => False) :=
      runUnlock_alone stored past holds (fun all => kept ⟨all.1,all.2.1,all.2.2,own⟩) distinct before
    have releasing (before : Log) :
        tryReleaseLock.Meets (aloneTool replies db free) before (Returns fun _ _ => True) := by
      rw [tryReleaseLock,meets_tryCatch,ask,meets_perform]
      refine ⟨trivial,fun outcome _ => ?_⟩
      cases outcome <;> exact trivial
    have caught (before : Log) : ((runUnlock options).tryCatch fun failure => do
        tryReleaseLock
        fail failure).Meets (aloneTool replies db free) before (Returns fun _ _ => False) := by
      apply (refused before).tryCatch
      · intro _ _ _ impossible
        exact impossible.elim
      · intro after failure _ _
        apply (releasing after).andReturns
        intro _ _ _ _
        exact trivial
    apply (caught _).andReturns
    intro _ _ _ impossible
    exact impossible.elim

end

end Refusal

section Release

variable {replies : WalletReplies} {shared : Shared} {batch : Batch} {options : UnlockOptions} {process : ℕ}

private theorem countP_stored {db : Db} (distinct : (db.payment_batches.map Batch.id).Nodup) {id : ℕ} {guard : Guard}
    (stored : selectBatch db id = some batch) (admits : guard.admits batch = true) :
    (db.payment_batches.countP fun row => row.id = id ∧ guard.admits row) = 1 := by
  obtain ⟨inside,own⟩ := selectBatch_found stored
  have same : (db.payment_batches.countP fun row => row.id = id ∧ guard.admits row) =
      db.payment_batches.countP fun row => row.id = id := by
    apply List.countP_congr
    intro row member
    simp only [decide_eq_true_eq]
    constructor
    · exact And.left
    · intro here
      have equal : row = batch := List.inj_on_of_nodup_map distinct member inside (here.trans own.symm)
      exact ⟨here,equal ▸ admits⟩
  have counted : (db.payment_batches.countP fun row => row.id = id) = (db.payment_batches.map Batch.id).count id := by
    rw [List.count,List.countP_map]
    rfl
  rw [same,counted]
  exact List.count_eq_one_of_mem distinct (own ▸ List.mem_map_of_mem inside)

theorem unlock_yields {db : Db} (distinct : (db.payment_batches.map Batch.id).Nodup) {id : ℕ}
    (stored : selectBatch db id = some batch) (status : batch.status ∈ [.reserved,.retrying,.submitting])
    (releasedAt : ℕ) :
    ∃ cleared after, transact Failure.lost {} (unlockTransaction id true releasedAt) db = (.ok cleared,after) := by
  have admits : (unlockGuard true).admits batch = true := by
    simpa [unlockGuard,Guard.admits] using status
  have one := countP_stored distinct stored admits
  have updates : updateBatches id (unlockFields true releasedAt) (unlockGuard true) (clearPending id db).2 =
      .ok (1,setBatch (clearPending id db).2 id (unlockGuard true) (unlockFields true releasedAt)) := by
    change (if _ ∧ hashTaken _ id (unlockFields true releasedAt) = true then _ else _) = _
    rw [if_neg (fun taken => by cases taken.2)]
    exact congrArg (fun rows => Except.ok (rows,_)) one
  have worked : unlockTransaction id true releasedAt (db,none) =
      .ok ((clearPending id db).1,setBatch (clearPending id db).2 id (unlockGuard true)
      (unlockFields true releasedAt),none) := by
    have updated : statement (updateBatches id (unlockFields true releasedAt) (unlockGuard true))
        ((clearPending id db).2,none) = .ok (1,setBatch (clearPending id db).2 id (unlockGuard true)
          (unlockFields true releasedAt),none) := by
      simp only [statement,Work.statement,updates,Except.map]
    change Except.bind (statement (updateBatches id (unlockFields true releasedAt) (unlockGuard true))
      ((clearPending id db).2,none)) _ = _
    rw [updated]
    rfl
  exact ⟨_,_,transact_ok rfl rfl worked⟩

private theorem defaultWalletMatchChecker_clear {items : List Item} (slipped : HeightMisread replies)
    (clear : HistoryClear replies batch items) :
    (defaultWalletMatchChecker batch items).solo (respond replies process) [.reply,.reply] shared =
      some (.ok .no_match,shared) := by
  obtain ⟨height,found,slipped⟩ := slipped
  obtain ⟨number,read⟩ := Option.isSome_iff_exists.mp ((misread_iff _).mp slipped).2
  obtain ⟨history,transfers,replied,scanned,none_⟩ := clear
  have known : (replies.height.result.bind fun result => toNumber (result.field "height")) = some number := by
    rw [found]
    exact read
  have asked : respond replies process (.wallet .get_height) .reply shared = some (.ok replies.height,shared) := rfl
  refine (solo_await asked).trans ?_
  rw [known]
  have answered : respond replies process (.wallet (.get_transfers
      (some (max 0 (number - recentTransferLookbackBlocks),number)))) .reply shared =
      some (.ok replies.transfers,shared) := rfl
  refine (solo_await answered).trans ?_
  rw [replied]
  dsimp only
  unfold checkHistory
  rw [scanned]
  dsimp only
  rw [none_]
  rfl

def releaseSteps : List Answer := [.reply,.reply,.reply,.reply,.reply,.time 0,.fate {}]

section

variable (distinct : (shared.db.payment_batches.map Batch.id).Nodup)
  (stored : selectBatch shared.db options.batchId = some batch)
  (past : batch.submit_started_at.isSome = true)
  (slipped : HeightMisread replies)
  (clear : HistoryClear replies batch (selectItems shared.db options.batchId))
  (unlockable : Unlockable options shared.db batch)
include distinct stored past slipped clear unlockable

private theorem runUnlock_releases :
    ∃ after, (runUnlock options).solo (respond replies process) releaseSteps shared = some (.ok (),after) := by
  obtain ⟨cleared,db,released⟩ := unlock_yields distinct stored unlockable.status 0
  refine ⟨{shared with db := db},?_⟩
  have loaded : respond replies process (.selectBatch options.batchId) .reply shared =
      some (.ok (selectBatch shared.db options.batchId),shared) := rfl
  refine (solo_await loaded).trans ?_
  rw [stored]
  have items : respond replies process (.selectItems options.batchId) .reply shared =
      some (.ok (selectItems shared.db options.batchId),shared) := rfl
  refine (solo_await items).trans ?_
  have reserved : respond replies process (.selectReservedBalances options.batchId) .reply shared =
      some (.ok (selectReservedBalances shared.db options.batchId),shared) := rfl
  refine (solo_await reserved).trans ?_
  have safe : unsafeUnlock batch options.confirmWalletHistoryChecked ≠ true := by
    rw [unlockable.confirmed,unlockable.safe]
    nofun
  have forced : ¬(riskyUnlock batch (selectItems shared.db options.batchId)
      (selectReservedBalances shared.db options.batchId) && !options.force) = true := by
    intro refused
    obtain ⟨risky,unforced⟩ := Bool.and_eq_true_iff.mp refused
    rw [unlockable.forced risky] at unforced
    cases unforced
  rw [if_neg safe,if_neg forced,if_pos (by simp [unlockable.confirmed,past])]
  have checked : (assertWalletHistoryClear batch (selectItems shared.db options.batchId)).solo (respond replies process)
      [.reply,.reply] shared = some (.ok (),shared) :=
    (solo_bind (defaultWalletMatchChecker_clear slipped clear)).trans rfl
  refine (solo_bind checked).trans ?_
  have clock : currentTime.solo (respond replies process) [.time 0] shared = some (.ok 0,shared) := rfl
  refine (solo_bind clock).trans ?_
  have unlocked : respond replies process (.unlock options.batchId options.confirmWalletHistoryChecked 0)
    (.fate {}) shared =
      some (.ok cleared,{shared with db := db}) := by
    change attemptTransaction (.fate {})
      (unlockTransaction options.batchId options.confirmWalletHistoryChecked 0) shared = _
    rw [unlockable.confirmed]
    unfold attemptTransaction
    dsimp only
    rw [released]
  exact (solo_await unlocked).trans rfl

private theorem unlockBatch_releases (free : lockFree process shared = true) :
    ∃ after, (unlockBatch options).solo (respond replies process) (.reply::.reply::(releaseSteps ++ [.reply])) shared =
      some (.ok (),after) := by
  let held : Shared := {shared with lockOwner := shared.lockOwner.or (some process)}
  have distinct' : (held.db.payment_batches.map Batch.id).Nodup := distinct
  obtain ⟨after,released⟩ : ∃ after, (runUnlock options).solo (respond replies process) releaseSteps held =
    some (.ok (),after) := runUnlock_releases distinct' stored past slipped clear unlockable
  refine ⟨{after with lockOwner := after.lockOwner.filter fun owner => owner ≠ process},?_⟩
  have connected : respond replies process .getConnection .reply shared = some (.ok (),shared) := rfl
  refine (solo_await connected).trans ?_
  have locked : respond replies process .getLock .reply shared = some (.ok (lockFree process shared),held) := rfl
  refine (solo_await locked).trans ?_
  rw [free]
  exact (solo_bind (solo_tryCatch released)).trans rfl

end

end Release

def submittingBatch : Batch where
  id := 1
  status := .submitting
  batch_type := .bulk
  total_gross := 10
  total_net := 10
  total_fee := 0
  submit_started_at := some 5

def submittingStart : Shared where
  db := ⟨[⟨1,"A",none,"pplns",10,some 1⟩],[],[submittingBatch],[⟨1,1,0,"pplns","A",10,10,0⟩],[],[],2,1⟩
  history := []
  lockOwner := none
  memory _ := {}
  lastPaymentCycle := 0
  issued := []
  funded _ := 10
  claims := []

def heightReply (height : Json) : RpcResponse := .json (.obj [("result",.obj [("height",height)])])

def emptyHistory : RpcResponse := .json (.obj [("result",.obj [])])

end NodejsPool.Payments
