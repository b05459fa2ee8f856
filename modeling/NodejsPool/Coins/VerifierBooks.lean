import Mathlib.Tactic.Abel
import NodejsPool.Common.Families
import NodejsPool.Coins.ShareVerifier

/-! What the verifier's counts stand for: each admitted task waits in a queue, is verified, or has been
answered. -/
namespace NodejsPool.Coins.ShareVerifier
open Async Callbacks Counters Families Function Multiset

variable {n : ℕ}

section Places

def World.pending (world : World n) (host : Fin n) : List (QueueTask VerifyTask Empty) :=
    (world.queues host).queue.pending

def Handler.reporting (handler : Handler n) (host : Fin n) : Option ℕ :=
  match handler with
  | .report swept index => if swept = host then some index else none
  | _ => none

def withoutReported (index : Option ℕ) (pending : List (QueueTask VerifyTask Empty)) : List VerifyTask :=
  match index with
  | none => pending.map QueueTask.data
  | some index => (pending.eraseIdx index).map QueueTask.data

def waiting (pending : Fin n → List (QueueTask VerifyTask Empty)) (handler : Handler n) : Multiset VerifyTask :=
  gather fun host => withoutReported (handler.reporting host) (pending host)

def verifying (verifications : Multiset (Verification n)) : Multiset VerifyTask :=
  (verifications.filter fun verification => verification.expired = false ∧ verification.freed = 0).map Verification.task

def World.calling (world : World n) : Multiset (Verification n) := (world.verifications : Multiset (Verification n))

def World.waiting (world : World n) : Multiset VerifyTask := ShareVerifier.waiting world.pending world.handler

end Places

def ofMiner (tasks : Multiset VerifyTask) (miner : String) : ℕ := tasks.countP fun task => task.miner_address = miner

structure Books (verify : String → Option ℕ) (bytes tasks : ℕ) (waiting verifying : Multiset VerifyTask) : Prop where
  tallies : Tallies verify (ofMiner waiting)
  bytesSum : bytes = ((waiting + verifying).map VerifyTask.verifyBytes).sum
  tasksSum : tasks = (waiting + verifying).countP fun task => task.pearl
  charged : ∀ task ∈ waiting + verifying, task.pearl = true ↔ task.verifyBytes ≠ 0
  bytesLimit : bytes ≤ PEARL_PENDING_VERIFY_MAX_BYTES
  tasksLimit : tasks ≤ PEARL_PENDING_VERIFY_MAX_TASKS

/-- Every task that was admitted is in one place, and has been called back unless it waits or is verified. -/
structure Lives (accepted : List VerifyTask) (calls : List Call) (reported : List ℕ) (waiting : Multiset VerifyTask)
    (verifications : Multiset (Verification n)) : Prop where
  numbered : accepted.map VerifyTask.id = List.range accepted.length
  placed : (accepted.map VerifyTask.id : Multiset ℕ) =
    waiting.map VerifyTask.id + (reported : Multiset ℕ) + verifications.map fun verification => verification.task.id
  called : (calls.map Call.task : Multiset ℕ) = (reported : Multiset ℕ) +
    (verifications.filter fun verification => verification.is_cb = true).map fun verification => verification.task.id

section Books

variable {verify : String → Option ℕ} {bytes tasks : ℕ} {waiting verifying : Multiset VerifyTask} {task : VerifyTask}

theorem ofMiner_cons : ofMiner (task ::ₘ waiting) =
    update (ofMiner waiting) task.miner_address (ofMiner waiting task.miner_address + 1) := by
  funext miner
  by_cases same : miner = task.miner_address
  · subst same
    rw [update_self]
    exact countP_cons_of_pos waiting rfl
  · rw [update_of_ne same]
    exact countP_cons_of_neg waiting (Ne.symm same)

theorem tallies_less (tallies : Tallies verify (ofMiner (task ::ₘ waiting))) :
    Tallies (decrement verify task.miner_address) (ofMiner waiting) := by
  have less := tallies.decrement task.miner_address
  rwa [ofMiner_cons,update_self,Nat.add_sub_cancel,update_idem,update_eq_self] at less

def pearlCount (task : VerifyTask) : ℕ := if task.pearl then 1 else 0

theorem countP_pearl : (task ::ₘ waiting).countP (fun task => task.pearl) =
    waiting.countP (fun task => task.pearl) + pearlCount task := countP_cons _ _ _

theorem released_bytes (charged : task.pearl = true ↔ task.verifyBytes ≠ 0) :
    (if task.charged then bytes - task.verifyBytes else bytes) = bytes - task.verifyBytes := by
  unfold VerifyTask.charged
  by_cases none : task.verifyBytes = 0
  · simp [none]
  · simp [none,charged.mpr none]

private theorem released_tasks (charged : task.pearl = true ↔ task.verifyBytes ≠ 0) :
    (if task.charged then tasks - 1 else tasks) = tasks - pearlCount task := by
  unfold VerifyTask.charged pearlCount
  by_cases none : task.verifyBytes = 0
  · have other : task.pearl = false := Bool.eq_false_iff.mpr fun pearl => charged.mp pearl none
    simp [other]
  · simp [none,charged.mpr none]

theorem Books.reserve (books : Books verify bytes tasks waiting verifying)
    (charged : task.pearl = true ↔ task.verifyBytes ≠ 0)
    (fitsBytes : bytes + task.verifyBytes ≤ PEARL_PENDING_VERIFY_MAX_BYTES)
    (fitsTasks : tasks + pearlCount task ≤ PEARL_PENDING_VERIFY_MAX_TASKS) :
    Books (increment verify task.miner_address).2 (bytes + task.verifyBytes) (tasks + pearlCount task)
      (task ::ₘ waiting) verifying := by
  refine ⟨?_,?_,?_,?_,fitsBytes,fitsTasks⟩
  · rw [ofMiner_cons]
    exact books.tallies.increment task.miner_address
  · rw [cons_add,map_cons,sum_cons,← books.bytesSum,Nat.add_comm]
  · rw [cons_add,countP_pearl,← books.tasksSum]
  · rw [cons_add]
    exact forall_mem_cons.mpr ⟨charged,books.charged⟩

theorem Books.start (books : Books verify bytes tasks (task ::ₘ waiting) verifying) :
    Books (decrement verify task.miner_address) bytes tasks waiting (task ::ₘ verifying) := by
  have same : waiting + task ::ₘ verifying = task ::ₘ waiting + verifying := by rw [add_cons,cons_add]
  refine ⟨tallies_less books.tallies,?_,?_,?_,books.bytesLimit,books.tasksLimit⟩
  · rw [same]
    exact books.bytesSum
  · rw [same]
    exact books.tasksSum
  · rw [same]
    exact books.charged

theorem Books.release (bytesSum : bytes = ((task ::ₘ waiting + verifying).map VerifyTask.verifyBytes).sum)
    (tasksSum : tasks = (task ::ₘ waiting + verifying).countP fun task => task.pearl)
    (charged : ∀ other ∈ task ::ₘ waiting + verifying, other.pearl = true ↔ other.verifyBytes ≠ 0) :
    (if task.charged then bytes - task.verifyBytes else bytes) =
      ((waiting + verifying).map VerifyTask.verifyBytes).sum ∧
      (if task.charged then tasks - 1 else tasks) = ((waiting + verifying).countP fun task => task.pearl) ∧
      ∀ other ∈ waiting + verifying, other.pearl = true ↔ other.verifyBytes ≠ 0 := by
  rw [cons_add] at bytesSum tasksSum charged
  obtain ⟨head,rest⟩ := forall_mem_cons.mp charged
  rw [map_cons,sum_cons] at bytesSum
  rw [countP_pearl] at tasksSum
  rw [released_bytes head,released_tasks head]
  exact ⟨by omega,by omega,rest⟩

theorem Books.lapse (books : Books verify bytes tasks (task ::ₘ waiting) verifying) :
    Books (decrement verify task.miner_address) (if task.charged then bytes - task.verifyBytes else bytes)
      (if task.charged then tasks - 1 else tasks) waiting verifying := by
  obtain ⟨bytesSum,tasksSum,charged⟩ := Books.release books.bytesSum books.tasksSum books.charged
  refine ⟨tallies_less books.tallies,bytesSum,tasksSum,charged,?_,?_⟩
  · exact le_trans (by split <;> omega) books.bytesLimit
  · exact le_trans (by split <;> omega) books.tasksLimit

theorem Books.finish (books : Books verify bytes tasks waiting (task ::ₘ verifying)) :
    Books verify (if task.charged then bytes - task.verifyBytes else bytes)
      (if task.charged then tasks - 1 else tasks) waiting verifying := by
  have same : waiting + task ::ₘ verifying = task ::ₘ waiting + verifying := by rw [add_cons,cons_add]
  obtain ⟨bytesSum,tasksSum,charged⟩ := Books.release (same ▸ books.bytesSum) (same ▸ books.tasksSum)
    (same ▸ books.charged)
  refine ⟨books.tallies,bytesSum,tasksSum,charged,?_,?_⟩
  · exact le_trans (by split <;> omega) books.bytesLimit
  · exact le_trans (by split <;> omega) books.tasksLimit

end Books

section Lives

variable {accepted : List VerifyTask} {calls : List Call} {reported : List ℕ} {waiting : Multiset VerifyTask}
variable {verifications : Multiset (Verification n)} {task : VerifyTask} {call : Call} {host : Fin n}
variable {verification next : Verification n}

theorem coe_concat {α : Type} (items : List α) (item : α) :
    ((items ++ [item] : List α) : Multiset α) = item ::ₘ (items : Multiset α) := by
  rw [← coe_add,coe_singleton,add_comm,singleton_add]

theorem set_cons {α : Type} {items : List α} {index : ℕ} {item : α} (found : items[index]? = some item) :
    ∃ rest : Multiset α, (items : Multiset α) = item ::ₘ rest ∧ ∀ other, (items.set index other : Multiset α) =
      other ::ₘ rest := by
  obtain ⟨inside,same⟩ := List.getElem?_eq_some_iff.mp found
  refine ⟨(items.eraseIdx index : List α),?_,fun other => ?_⟩
  · rw [cons_coe,coe_eq_coe,← same]
    exact (List.getElem_cons_eraseIdx_perm inside).symm
  · rw [cons_coe,coe_eq_coe]
    exact List.set_perm_cons_eraseIdx inside other

theorem released_id : task.released.id = task.id := by
  unfold VerifyTask.released
  split <;> rfl

theorem Lives.take (lives : Lives accepted calls reported waiting verifications) (fresh : task.id = accepted.length) :
    Lives (accepted ++ [task]) calls reported (task ::ₘ waiting) verifications := by
  refine ⟨?_,?_,lives.called⟩
  · rw [List.map_append,lives.numbered,List.length_append,List.length_singleton,List.range_succ,
      List.map_singleton,fresh]
  · rw [List.map_append,List.map_singleton,coe_concat,lives.placed,map_cons,cons_add,cons_add]

section

variable (lives : Lives accepted calls reported (task ::ₘ waiting) verifications)
include lives

theorem Lives.start : Lives accepted calls reported waiting (opened host task ::ₘ verifications) := by
  refine ⟨lives.numbered,?_,?_⟩
  · rw [lives.placed,map_cons,map_cons,cons_add,cons_add,add_cons]
    rfl
  · rw [lives.called,filter_cons_of_neg _ (by exact Bool.false_ne_true)]

theorem Lives.lapse (same : call.task = task.id) :
    Lives accepted (calls ++ [call]) reported waiting (lapsed host task ::ₘ verifications) := by
  have id : (lapsed host task).task.id = task.id := released_id
  refine ⟨lives.numbered,?_,?_⟩
  · rw [lives.placed,map_cons,map_cons,cons_add,cons_add,add_cons,id]
  · rw [List.map_append,List.map_singleton,coe_concat,lives.called,filter_cons_of_pos _ (by exact rfl),
      map_cons,add_cons,id,same]

theorem Lives.report (same : call.task = task.id) :
    Lives accepted (calls ++ [call]) (reported ++ [task.id]) waiting verifications := by
  refine ⟨lives.numbered,?_,?_⟩
  · rw [lives.placed,map_cons,coe_concat,cons_add,cons_add,add_cons,cons_add]
  · rw [List.map_append,List.map_singleton,coe_concat,lives.called,coe_concat,cons_add,same]

end

theorem Lives.answer (lives : Lives accepted calls reported waiting (verification ::ₘ verifications))
    (was : verification.is_cb = false) (now : next.is_cb = true) (id : next.task.id = verification.task.id)
    (same : call.task = verification.task.id) :
    Lives accepted (calls ++ [call]) reported waiting (next ::ₘ verifications) := by
  refine ⟨lives.numbered,?_,?_⟩
  · rw [lives.placed,map_cons,map_cons,id]
  · rw [List.map_append,List.map_singleton,coe_concat,lives.called,
      filter_cons_of_neg _ (by exact Bool.eq_false_iff.mp was),
      filter_cons_of_pos _ (by exact now),map_cons,add_cons,id,same]

theorem Lives.keep (lives : Lives accepted calls reported waiting (verification ::ₘ verifications))
    (flag : next.is_cb = verification.is_cb) (id : next.task.id = verification.task.id) :
    Lives accepted calls reported waiting (next ::ₘ verifications) := by
  refine ⟨lives.numbered,?_,?_⟩
  · rw [lives.placed,map_cons,map_cons,id]
  · rw [lives.called]
    by_cases answered : verification.is_cb = true
    · rw [filter_cons_of_pos _ (by exact answered),filter_cons_of_pos _ (by exact flag.trans answered),
        map_cons,map_cons,id]
    · rw [filter_cons_of_neg _ (by exact answered),filter_cons_of_neg _ (by rwa [flag])]

end Lives

section Waiting

variable {pending : Fin n → List (QueueTask VerifyTask Empty)} {handler : Handler n} {host : Fin n} {index : ℕ}
variable {task : QueueTask VerifyTask Empty} {rest : List (QueueTask VerifyTask Empty)}

def Handler.quiet (handler : Handler n) : Prop := ∀ host, handler.reporting host = none

theorem waiting_quiet (quiet : handler.quiet) :
    waiting pending handler = gather fun host => (pending host).map QueueTask.data :=
  gather_congr fun host => by rw [quiet host]; exact .refl _

theorem waiting_push (still : handler.reporting host = none) :
    waiting (update pending host (task::pending host)) handler = task.data ::ₘ waiting pending handler := by
  refine gather_cons host ?_ fun rest apart => ?_
  · rw [update_self,still]
    exact .refl _
  · rw [update_of_ne apart]

theorem waiting_shift (still : handler.reporting host = none) (head : pending host = task::rest) :
    waiting pending handler = task.data ::ₘ waiting (update pending host rest) handler := by
  refine gather_cons host ?_ fun rest apart => ?_
  · rw [update_self,still,head]
    exact .refl _
  · rw [update_of_ne apart]

theorem reporting_self : (Handler.report host index).reporting host = some index := if_pos rfl

theorem reporting_of_ne {other : Fin n} (apart : other ≠ host) : (Handler.report host index).reporting other = none :=
  if_neg (Ne.symm apart)

theorem waiting_report (quiet : handler.quiet) (found : (pending host)[index]? = some task)
    (other : QueueTask VerifyTask Empty) : waiting pending handler =
      task.data ::ₘ waiting (update pending host ((pending host).set index other)) (.report host index) := by
  obtain ⟨inside,same⟩ := List.getElem?_eq_some_iff.mp found
  refine gather_cons host ?_ fun rest apart => ?_
  · rw [update_self,reporting_self,quiet host]
    change ((pending host).map QueueTask.data).Perm
      (task.data::(((pending host).set index other).eraseIdx index).map QueueTask.data)
    rw [List.eraseIdx_set_eq,← same,← List.map_cons]
    exact ((List.getElem_cons_eraseIdx_perm inside).symm).map _
  · rw [update_of_ne apart,reporting_of_ne apart,quiet rest]

theorem waiting_splice (quiet : handler.quiet) :
    waiting (update pending host ((pending host).eraseIdx index)) handler = waiting pending (.report host index) := by
  refine gather_congr fun other => ?_
  by_cases same : other = host
  · subst same
    rw [update_self,reporting_self,quiet other]
    exact .refl _
  · rw [update_of_ne same,reporting_of_ne same,quiet other]

end Waiting
end NodejsPool.Coins.ShareVerifier
