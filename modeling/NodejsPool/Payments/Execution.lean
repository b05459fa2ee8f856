import NodejsPool.Payments.Contract

/-! What one answered call of a payment process can do to the world. -/
namespace NodejsPool.Payments
open Async

def Silent (process : ℕ) (shared : Shared) : Event signature → Prop
  | ⟨.wallet (.transfer _ _),_⟩ => False
  | ⟨.wallet _,.ok reply⟩ => shared.reports reply = true
  | ⟨.selectBatch id,.ok row⟩ => row = selectBatch shared.db id
  | ⟨.selectOpenBatches,.ok rows⟩ => rows = selectOpenBatches shared.db
  | ⟨.selectItems id,.ok items⟩ => items = selectItems shared.db id
  | ⟨.selectPayoutRows walletMin,.ok rows⟩ => rows = selectPayoutRows shared.db walletMin
  | ⟨.updateBatch _ _ _,.ok _⟩ => False
  | ⟨.reserve _,.ok _⟩ => False
  | ⟨.isUsedLock,.ok owns⟩ => owns = true → shared.lockOwner = some process
  | _ => True

inductive Performed (process : ℕ) (shared : Shared) : Event signature → Shared → Prop
  | silent {event : Event signature} (memory : ℕ → Memory) (lastPaymentCycle : ℕ)
    (silent : Silent process shared event) :
    Performed process shared event {shared with memory := memory, lastPaymentCycle := lastPaymentCycle}
  | transfer {batch : ℕ} {destinations : List (ℤ × String)} {reply : RpcResponse}
    (reports : shared.reports reply = true) :
    Performed process shared ⟨.wallet (.transfer batch destinations),.ok reply⟩
      {shared with issued := shared.issued ++ [batch]}
  | update {id : ℕ} {fields : Fields} {guard : Guard} {outcome : Except Failure Bool} {affectedRows : ℕ} {db : Db}
    (updated : updateBatches id fields guard shared.db = .ok (affectedRows,db))
    (acknowledged : ∀ reply, outcome = .ok reply → reply = decide (affectedRows = 1)) :
    Performed process shared ⟨.updateBatch id fields guard,outcome⟩
      {shared with db := db, claims := shared.claimed process id fields affectedRows}
  | reserve {plan : BatchPlan} {outcome : Except Failure ℕ} {batchId : ℕ} {db : Db}
    (yields : (reserveTransaction plan).Yields shared.db batchId db)
    (acknowledged : ∀ reply, outcome = .ok reply → reply = batchId) :
    Performed process shared ⟨.reserve plan,outcome⟩ {shared with db := db}
  | finalize {batch : Batch} {items : List Item} {hash txKey : String} {finalizedAt : ℕ} {outcome : Except Failure ℕ}
    {transactionId : ℕ} {db : Db}
    (yields : (finalizeTransaction batch items hash txKey finalizedAt).Yields shared.db transactionId db) :
    Performed process shared ⟨.finalize batch items hash txKey finalizedAt,outcome⟩ {shared with db := db}
  | release {batch : Batch} {releasedAt : ℕ} {outcome : Except Failure Bool} {result : Bool} {db : Db}
    (yields : (releaseTransaction batch releasedAt).Yields shared.db result db) :
    Performed process shared ⟨.release batch releasedAt,outcome⟩ {shared with db := db}
  | unlock {batchId releasedAt : ℕ} {confirm : Bool} {outcome : Except Failure ℕ} {cleared : ℕ} {db : Db}
    (yields : (unlockTransaction batchId confirm releasedAt).Yields shared.db cleared db) :
    Performed process shared ⟨.unlock batchId confirm releasedAt,outcome⟩ {shared with db := db}
  | getLock {outcome : Except Failure Bool} :
    Performed process shared ⟨.getLock,outcome⟩ {shared with lockOwner := shared.lockOwner.or (some process)}
  | releaseLock {outcome : Except Failure Unit} :
    Performed process shared ⟨.releaseLock,outcome⟩
      {shared with lockOwner := shared.lockOwner.filter fun owner => owner ≠ process}

section Answers

variable {answer : Answer} {shared next : Shared}

theorem attempt_cases {A : Type} {value : A} {after : Shared} {outcome : Except Failure A}
    (answered : attempt answer value after shared = some (outcome,next)) :
    (next = after ∧ ∀ reply, outcome = .ok reply → reply = value) ∨
      (next = shared ∧ ∃ failure, outcome = .error failure) := by
  unfold attempt at answered
  split at answered
  · cases answered
    exact .inl ⟨rfl,fun reply same => (Except.ok.inj same).symm⟩
  next failure =>
    cases answered
    exact .inr ⟨rfl,failure,rfl⟩
  · cases answered
    refine .inl ⟨rfl,?_⟩
    intro reply same
    cases same
  · cases answered

theorem attemptTransaction_cases {A : Type} {work : LedgerWork A}
    {outcome : Except Failure A} (answered : attemptTransaction answer work shared = some (outcome,next)) :
    (∃ value db, work.Yields shared.db value db ∧ next = {shared with db := db} ∧
      ∀ reply, outcome = .ok reply → reply = value) ∨
        (next = shared ∧ ∃ failure, outcome = .error failure) := by
  unfold attemptTransaction at answered
  split at answered
  next fate =>
    cases ran : transact .lost fate work shared.db with
    | mk result db =>
      rw [ran] at answered
      cases answered
      rcases transact_cases ran with ⟨rfl,failure,rfl⟩ | ⟨value,yields,told⟩
      · exact .inr ⟨rfl,failure,rfl⟩
      · refine .inl ⟨value,db,yields,rfl,?_⟩
        intro reply ok
        rcases told with rfl | ⟨failure,rfl⟩
        · exact (Except.ok.inj ok).symm
        · cases ok
  · cases answered

theorem attempt_silent {call : Call} {process : ℕ} {value : signature.Reply call} {outcome : signature.Outcome call}
    (answered : attempt answer value shared shared = some (outcome,next))
    (told : Silent process shared ⟨call,.ok value⟩) (failed : ∀ failure, Silent process shared ⟨call,.error failure⟩) :
    Performed process shared ⟨call,outcome⟩ next := by
  have silent : Silent process shared ⟨call,outcome⟩ := by
    rcases attempt_cases answered with ⟨_,told'⟩ | ⟨_,failure,rfl⟩
    · cases outcome with
      | ok reply => rwa [told' reply rfl]
      | error failure => exact failed failure
    · exact failed failure
  have same : next = shared := by
    rcases attempt_cases answered with ⟨same,_⟩ | ⟨same,_⟩
    · exact same
    · exact same
  rw [same]
  exact .silent shared.memory shared.lastPaymentCycle silent

end Answers

theorem performed {process : ℕ} {shared next : Shared} {answer : Answer} {call : Call}
    {outcome : signature.Outcome call} (answered : perform process shared answer call = some (outcome,next)) :
    Performed process shared ⟨call,outcome⟩ next := by
  cases call with
  | wallet rpc =>
    cases answer with
    | wallet reply =>
      simp only [perform] at answered
      split at answered
      next reports =>
        cases answered
        cases rpc with
        | transfer batch destinations => exact .transfer reports
        | _ => exact .silent shared.memory shared.lastPaymentCycle reports
      · cases answered
    | _ => cases answered
  | selectBatch id | selectOpenBatches | selectItems id => exact attempt_silent answered rfl fun _ => trivial
  | selectReservedBalances id => exact attempt_silent answered trivial fun _ => trivial
  | selectPayoutRows walletMin => exact attempt_silent answered rfl fun _ => trivial
  | updateBatch id fields guard =>
    simp only [perform,attemptUpdate] at answered
    split at answered
    · cases answered
      exact .silent shared.memory shared.lastPaymentCycle trivial
    next affectedRows db updated =>
      rcases attempt_cases answered with ⟨rfl,told⟩ | ⟨rfl,failure,rfl⟩
      · exact .update updated told
      · exact .silent next.memory next.lastPaymentCycle trivial
  | reserve plan =>
    rcases attemptTransaction_cases answered with ⟨value,db,yields,rfl,told⟩ | ⟨rfl,failure,rfl⟩
    · exact .reserve yields told
    · exact .silent next.memory next.lastPaymentCycle trivial
  | finalize batch items hash txKey finalizedAt =>
    rcases attemptTransaction_cases answered with ⟨value,db,yields,rfl,_⟩ | ⟨rfl,failure,rfl⟩
    · exact .finalize yields
    · exact .silent next.memory next.lastPaymentCycle trivial
  | release batch releasedAt =>
    rcases attemptTransaction_cases answered with ⟨value,db,yields,rfl,_⟩ | ⟨rfl,failure,rfl⟩
    · exact .release yields
    · exact .silent next.memory next.lastPaymentCycle trivial
  | unlock batchId confirm releasedAt =>
    rcases attemptTransaction_cases answered with ⟨value,db,yields,rfl,_⟩ | ⟨rfl,failure,rfl⟩
    · exact .unlock yields
    · exact .silent next.memory next.lastPaymentCycle trivial
  | getConnection => exact attempt_silent answered trivial fun _ => trivial
  | getLock =>
    rcases attempt_cases answered with ⟨rfl,_⟩ | ⟨rfl,failure,rfl⟩
    · exact .getLock
    · exact .silent next.memory next.lastPaymentCycle trivial
  | isUsedLock => exact attempt_silent answered of_decide_eq_true fun _ => trivial
  | releaseLock =>
    rcases attempt_cases answered with ⟨rfl,_⟩ | ⟨rfl,failure,rfl⟩
    · exact .releaseLock
    · exact .silent next.memory next.lastPaymentCycle trivial
  | now =>
    cases answer with
    | time milliseconds =>
      cases answered
      exact .silent shared.memory shared.lastPaymentCycle trivial
    | _ => cases answered
  | setLastPaymentCycle seconds =>
    cases answered
    exact .silent shared.memory seconds trivial
  | sleep milliseconds | isFailStop =>
    cases answered
    exact .silent shared.memory shared.lastPaymentCycle trivial
  | enterFailStop =>
    cases answered
    exact .silent _ shared.lastPaymentCycle trivial
  | lockConnection =>
    cases answered
    exact .silent shared.memory shared.lastPaymentCycle trivial
  | setLockConnection held =>
    cases answered
    exact .silent _ shared.lastPaymentCycle trivial

end NodejsPool.Payments
