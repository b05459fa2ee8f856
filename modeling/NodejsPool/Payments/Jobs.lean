import NodejsPool.Payments.Planning
import NodejsPool.Payments.Settlement

/-! Every payment process keeps its contract: the runtime through all its cycles, and
the operator's unlock tool. -/
namespace NodejsPool.Payments
open Async Program

section Cycle

variable {log : Log} {plans : List BatchPlan} {plan : BatchPlan}

theorem settles {A : Type} {p : Task A} {ends : Log → Except Failure A → Prop} (meets : p.Meets settlement log ends) :
    p.Meets payment log ends := by
  refine Meets.relax settling_paying ?_ meets
  intro _ _ _ told
  exact told

instance : Locking payment where
  asks log call asks := settling_paying log call (@Asking.asks settlement _ log call asks)
  locks _ := trivial

theorem keepsPlan {A : Type} {p : Task A} {good : Log → A → Prop} (meets : p.Meets settlement log (Returns good)) :
    p.Meets settlement log (Returns fun after value => (standing after).rows = (standing log).rows ∧
      (standing after).drawn = (standing log).drawn ∧ good after value) := by
  have kept := meets.keeps (fun log : Log => ((standing log).rows,(standing log).drawn))
    fun log call outcome allowed => Prod.ext (settling_standing log call outcome allowed).1
      (settling_standing log call outcome allowed).2
  apply kept.imp
  intro after result met
  cases result with
  | error failure => exact trivial
  | ok value =>
    obtain ⟨rows,drawn⟩ := Prod.mk.inj met.1
    exact ⟨rows,drawn,met.2⟩

theorem runtimeRecovery_meets (config : Config) (log : Log) :
    (runtimeRecovery config).Meets payment log (Returns anything) := by
  apply returns_await trivial
  intro stopped _
  split
  · exact trivial
  · apply (ensureAdvisoryLock_meets _).andReturns
    intro after locked _ _
    split
    · exact settles (recoverPendingBatches_meets config after)
    · exact trivial

def Left (log : Log) (plans : List BatchPlan) : Prop :=
  Plans (standing log).rows plans ∧
    ∀ plan ∈ plans, ∀ item ∈ plan.items, item.balanceId ∉ (standing log).drawn

theorem Left.same {after : Log} (left : Left log plans)
    (rows : (standing after).rows = (standing log).rows) (drawn : (standing after).drawn = (standing log).drawn) :
    Left after plans := by
  unfold Left
  rw [rows,drawn]
  exact left

theorem Plans.tail {rows : List PayoutRow} (whole : Plans rows (plan::plans)) : Plans rows plans := by
  refine ⟨fun other inside => whole.sound other (List.mem_cons_of_mem _ inside),?_,
    fun other inside => whole.drawn other (List.mem_cons_of_mem _ inside)⟩
  have distinct := whole.distinct
  rw [List.flatMap_cons,List.map_append] at distinct
  exact distinct.of_append_right

theorem Left.tail (left : Left log (plan::plans)) (id : ℕ) : Left (⟨.reserve plan,.ok id⟩::log) plans := by
  obtain ⟨whole,free⟩ := left
  refine ⟨whole.tail,?_⟩
  intro other inside item member again
  have distinct := whole.distinct
  rw [List.flatMap_cons,List.map_append] at distinct
  rcases List.mem_append.mp again with first | earlier
  · exact List.disjoint_of_nodup_append distinct first
      (List.mem_map_of_mem (List.mem_flatMap.mpr ⟨other,inside,member⟩))
  · exact free other (List.mem_cons_of_mem _ inside) item member earlier

theorem Left.drawn (left : Left log (plan::plans)) : PlanSound plan ∧ Drawn log plan := by
  refine ⟨left.1.sound plan List.mem_cons_self,?_⟩
  intro item member
  exact ⟨left.2 plan List.mem_cons_self item member,left.1.drawn plan List.mem_cons_self item member⟩

private theorem reserveBatch_meets (left : Left log (plan::plans)) :
    (reserveBatch plan).Meets payment log (Returns fun after result => Left after plans ∧
      Waiting after result.1 result.2 ∧ result.1.id ∈ (standing after).reserved) := by
  apply returns_await left.drawn
  intro batchId _
  refine ⟨left.tail batchId,⟨⟨?_,?_,?_⟩,.inl rfl⟩,List.mem_cons_self⟩
  · exact ⟨_,List.mem_cons_self,_,List.mem_singleton_self _,rfl,rfl⟩
  · exact ⟨_,List.mem_cons_self,rfl⟩
  · intro hash same
    cases same

private theorem runPlans_meets (config : Config) (plans : List BatchPlan) (log : Log) (left : Left log plans) :
    (runPlans config plans).Meets payment log (Returns anything) := by
  induction plans generalizing log with
  | nil => exact trivial
  | cons plan plans ih =>
    apply (settles (keepsPlan (verifyAdvisoryLock_meets log))).andReturns
    intro first exclusive _ kept
    split
    · exact trivial
    · apply (reserveBatch_meets (left.same kept.1 kept.2.1)).andReturns
      intro second result _ reserved
      obtain ⟨rest,waiting,own⟩ := reserved
      have submitting := submitReservedBatch_meets config waiting fun _ => own
      apply (settles (keepsPlan submitting)).andReturns
      intro third outcome _ kept
      split
      · exact ih third (rest.same kept.1 kept.2.1)
      · exact trivial

theorem planBatches_meets (config : Config) (log : Log) : (planBatches config).Meets payment log (Returns Left) := by
  unfold planBatches
  split
  · exact trivial
  · apply returns_await trivial
    intro rows distinct
    refine ⟨planRows_plans config distinct,?_⟩
    intro plan _ item _ drawn
    cases drawn

private theorem advancePaymentCycle_meets (log : Log) : advancePaymentCycle.Meets payment log (Returns anything) := by
  apply returns_await trivial
  intro stopped _
  split
  · exact trivial
  · apply returns_await trivial
    intro milliseconds _
    exact returns_perform trivial fun _ _ => trivial

theorem cycleSteps_meets (config : Config) (log : Log) : (cycleSteps config).Meets payment log (Returns anything) := by
  apply returns_await trivial
  intro stopped _
  split
  · exact trivial
  · apply (ensureAdvisoryLock_meets _).andReturns
    intro first locked _ _
    split
    · exact trivial
    · apply (runtimeRecovery_meets config first).andReturns
      intro second recovered _ _
      split
      · exact trivial
      · apply (planBatches_meets config second).andReturns
        intro third plans _ left
        apply (runPlans_meets config plans third left).andReturns
        intro fourth result _ _
        split
        · exact advancePaymentCycle_meets fourth
        · exact trivial

theorem runCycle_meets (config : Config) (log : Log) : (runCycle config).Meets payment log (Returns anything) := by
  apply (cycleSteps_meets config log).tryCatch
  · intro _ _ _ _
    exact trivial
  · intro _ _ _ _
    exact trivial

theorem runCycles_meets (config : Config) (cycles : ℕ) (log : Log) :
    (runCycles config cycles).Meets payment log (Returns anything) := by
  induction cycles generalizing log with
  | zero => exact releaseAdvisoryLock_meets log
  | succ cycles ih =>
    apply (runCycle_meets config log).andReturns
    intro after _ _ _
    exact ih after

end Cycle

section Unlock

variable {log : Log}

private theorem liftExcept_unlocks {A : Type} (value : Except Failure A) (log : Log) :
    (liftExcept value).Meets unlockTool log (Returns anything) := by
  cases value <;> exact trivial

private theorem checkHistory_meets (batch : Batch) (items : List Item) (result : Json) (log : Log) :
    (checkHistory batch items result).Meets unlockTool log (Returns anything) := by
  unfold checkHistory
  split
  · exact trivial
  · apply (liftExcept_unlocks _ log).andReturns
    intro after found _ _
    split
    · exact trivial
    · split <;> exact trivial

private theorem assertWalletHistoryClear_meets (batch : Batch) (items : List Item) (log : Log) :
    (assertWalletHistoryClear batch items).Meets unlockTool log (Returns anything) := by
  have checking : (defaultWalletMatchChecker batch items).Meets unlockTool log (Returns anything) := by
    apply returns_await trivial
    intro heightReply _
    split
    · exact trivial
    · apply returns_await trivial
      intro reply _
      split
      · exact trivial
      · exact checkHistory_meets batch items _ _
  apply checking.andReturns
  intro after check _ _
  split <;> exact trivial

private theorem runUnlock_meets (options : UnlockOptions) (log : Log) :
    (runUnlock options).Meets unlockTool log (Returns anything) := by
  have unlocking (before : Log) : (do
      let releasedAt ← currentTime
      let _ ← ask (.unlock options.batchId options.confirmWalletHistoryChecked releasedAt) : Task Unit).Meets
        unlockTool before (Returns anything) := by
    have clock : currentTime.Meets unlockTool before (Returns anything) := returns_await trivial fun _ _ => trivial
    apply clock.andReturns
    intro after releasedAt _ _
    exact returns_await trivial fun _ _ => trivial
  apply returns_await trivial
  intro loaded _
  cases loaded with
  | none => exact trivial
  | some batch =>
    apply returns_await trivial
    intro items _
    apply returns_await trivial
    intro reservedBalances _
    split
    · exact trivial
    · split
      · exact trivial
      · split
        · apply (assertWalletHistoryClear_meets batch items _).andReturns
          intro after _ _ _
          exact unlocking after
        · exact unlocking _

private theorem unlockBatch_meets (options : UnlockOptions) (log : Log) :
    (unlockBatch options).Meets unlockTool log (Returns anything) := by
  have releasing (before : Log) : tryReleaseLock.Meets unlockTool before (Returns anything) := by
    rw [tryReleaseLock,meets_tryCatch,ask,meets_perform]
    refine ⟨trivial,fun outcome _ => ?_⟩
    cases outcome <;> exact trivial
  apply returns_await trivial
  intro _ _
  apply returns_await trivial
  intro locked _
  split
  · exact trivial
  · have running (before : Log) : (tryCatch (runUnlock options) fun failure => do
        tryReleaseLock
        fail failure).Meets unlockTool before (Returns anything) := by
      apply (runUnlock_meets options before).tryCatch
      · intro _ _ _ _
        exact trivial
      · intro after failure _ _
        apply (releasing after).andReturns
        intro _ _ _ _
        exact trivial
    apply (running _).andReturns
    intro after _ _ _
    exact releasing after

end Unlock

theorem runJob_meets (job : Job) : (runJob job).Meets (contractOf job) [] fun _ _ => True := by
  cases job with
  | payments config cycles => exact (runCycles_meets config cycles []).imp fun _ _ _ => trivial
  | unlock options => exact (unlockBatch_meets options []).imp fun _ _ _ => trivial

end NodejsPool.Payments
