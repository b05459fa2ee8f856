import NodejsPool.Pool.SubmissionMoves

/-! What a block submission comes to: attempts on each chain, the one call of the callback, the blocks
stored, and the end of every run. -/
namespace NodejsPool.Pool.BlockSubmission
open Async Payments

variable (c : Candidate)

/-- A reply that says that the chain did not take the block: an error, `false`, or a text that gives the reason. -/
def rejects (rpcResult : Json) : Bool :=
  ((rpcResult.field "error").map Json.truthy).getD false ||
    match rpcResult.field "result" with
    | some (.bool result) => !result
    | some (.str _) => true
    | _ => false

/-- A run of a submission keeps to its attempts, calls the callback once, or is still to call it from one of its
tasks, and stores one block of a chain at most, on a reply that took it and under a hash that is one. -/
structure Settled (callback : Bool) (world : World) : Prop where
  attempts : ∀ chain, world.attempts.count chain ≤ if resubmits c then 3 else 2
  once : world.callbacks.length + world.owed = callback.toNat
  single : ∀ chain, world.stored.countP (fun entry => entry.chain = chain) ≤ 1
  accepted : ∀ entry ∈ world.stored, isAccepted c entry.reply = true ∧ rejects entry.reply.rpcResult = false
  hashes : ∀ entry ∈ world.stored, isHash entry.block.hash = true ∧ entry.block.hash ≠ zeroHash

section Runs

structure Sound (world : World) : Prop where
  tasks : ∀ task ∈ world.tasks, TaskOk c task
  attempts : ∀ chain, world.attempts.count chain + world.total (Task.potential c chain) ≤ if resubmits c then 3 else 2
  single : resubmits c = false → ∀ chain, world.storedOn chain + world.total (Task.holds c chain) ≤ 1
  accepted : ∀ entry ∈ world.stored, isAccepted c entry.reply = true

/-- The conversion of a hash does not throw where the callback hangs on it, and the hash is zero, or it is one and the
reply is no refusal. Where a retry goes to both chains, no block of the chain was stored before. -/
def Found.Plain (world : World) (found : Found) : Prop :=
  match found.hash with
  | none => found.dispatch.callback = false
  | some newBlockHash => newBlockHash = zeroHash ∨ isHash newBlockHash = true ∧
      rejects found.reply.rpcResult = false ∧ (resubmits c = true → world.storedOn (chainOf c found.dispatch) = 0)

def Plain (world : World) (event : Event) : Prop :=
  ∀ task ∈ world.tasks[event.index]?, ∀ found ∈ resolution c task event, found.Plain c world

instance (world : World) : ∀ found : Found, Decidable (found.Plain c world)
  | ⟨_,_,none⟩ => inferInstanceAs (Decidable (_ = false))
  | ⟨_,_,some _⟩ => inferInstanceAs (Decidable (_ ∨ _ ∧ _ ∧ (_ → _)))

instance (world : World) (event : Event) : Decidable (Plain c world event) :=
  inferInstanceAs (Decidable (∀ _ ∈ _, ∀ _ ∈ _, _))

variable {c} {world after : World} {event : Event} {callback : Bool} {sent : List Request}

section

variable (sound : Sound c world) (moved : step c world event = some after)
include sound moved

theorem step_moves : ∃ task, world.tasks[event.index]? = some task ∧
      Moves c {world with tasks := world.tasks.eraseIdx event.index} task (resolution c task event) after := by
  obtain ⟨task,present,resumed⟩ := Option.bind_eq_some_iff.mp moved
  exact ⟨task,present,resume_moves (sound.tasks task (List.mem_of_getElem? present)) resumed⟩

theorem step_weight : after.total Task.weight + 1 ≤ world.total Task.weight := by
  obtain ⟨task,present,moves⟩ := step_moves sound moved
  rw [total_eraseIdx present]
  exact moves.weight (sound.tasks task (List.mem_of_getElem? present))

theorem step_sound : Sound c after := by
  obtain ⟨task,present,moves⟩ := step_moves sound moved
  refine ⟨?_,?_,?_,?_⟩
  · intro next member
    rcases moves.tasks member with old | new
    · exact sound.tasks next (List.mem_of_mem_eraseIdx old)
    · exact new
  · intro chain
    refine (moves.attempts chain).trans ((Nat.le_of_eq ?_).trans (sound.attempts chain))
    rw [total_eraseIdx present,Nat.add_assoc]
  · intro alone chain
    refine (moves.single alone chain).trans ((Nat.le_of_eq ?_).trans (sound.single alone chain))
    rw [total_eraseIdx present,Nat.add_assoc]
    rfl
  · intro entry member
    rcases moves.stored with same | ⟨dispatch,reply,newBlockHash,timeNow,_,_,accepted,stored⟩
    · rw [same] at member
      exact sound.accepted entry member
    · rw [stored] at member
      rcases List.mem_append.mp member with old | new
      · exact sound.accepted entry old
      · cases List.mem_singleton.mp new
        exact accepted

end

theorem calls_eraseIdx {index : ℕ} {task : Task} (present : world.tasks[index]? = some task) :
    world.calls = {world with tasks := world.tasks.eraseIdx index}.calls + task.callback.toNat := by
  obtain ⟨inside,rfl⟩ := List.getElem?_eq_some_iff.mp present
  have split := (List.getElem_cons_eraseIdx_perm inside).countP_eq Task.callback
  rw [List.countP_cons] at split
  unfold World.calls World.owed
  rw [← split,← Nat.add_assoc]
  cases world.tasks[index].callback <;> rfl

theorem storedOn_le (sound : Sound c world) (alone : resubmits c = false) (chain : Chain) : world.storedOn chain ≤ 1 :=
  (Nat.le_add_right ..).trans (sound.single alone chain)

theorem attempts_le (sound : Sound c world) (chain : Chain) :
    world.attempts.count chain ≤ if resubmits c then 3 else 2 :=
  (Nat.le_add_right ..).trans (sound.attempts chain)

theorem settled_same (sound : Sound c after) (settled : Settled c callback world) (calls : after.calls = world.calls)
    (stored : after.stored = world.stored) : Settled c callback after := by
  refine ⟨attempts_le sound,calls.trans settled.once,?_,?_,?_⟩
  · rw [stored]
    exact settled.single
  · rw [stored]
    exact settled.accepted
  · rw [stored]
    exact settled.hashes

private theorem hash_entryOf (dispatch : Dispatch) (reply : Reply) (newBlockHash : String) (timeNow : ℕ) :
    (entryOf c dispatch reply newBlockHash timeNow).block.hash = newBlockHash := by
  unfold entryOf storeResolvedBlock
  dsimp only
  split <;> rfl

theorem settled_stored (sound : Sound c after) (settled : Settled c callback world) (calls : after.calls = world.calls)
    {dispatch : Dispatch} {reply : Reply} {newBlockHash : String} {timeNow : ℕ} (nonzero : newBlockHash ≠ zeroHash)
    (accepted : isAccepted c reply = true)
    (stored : after.stored = world.stored ++ [entryOf c dispatch reply newBlockHash timeNow]) :
    Settled c callback after ↔ isHash newBlockHash = true ∧ rejects reply.rpcResult = false ∧
      (resubmits c = true → world.storedOn (chainOf c dispatch) = 0) := by
  have more (chain : Chain) : after.storedOn chain = world.storedOn chain + if chainOf c dispatch =
      chain then 1 else 0 := by
    unfold World.storedOn
    rw [stored]
    simp [entryOf]
  have last : entryOf c dispatch reply newBlockHash timeNow ∈ after.stored := by
    rw [stored]
    exact List.mem_append_right _ (List.mem_singleton_self _)
  constructor
  · intro settledAfter
    have hash := (settledAfter.hashes _ last).1
    rw [hash_entryOf] at hash
    refine ⟨hash,(settledAfter.accepted _ last).2,fun _ => ?_⟩
    have one := settledAfter.single (chainOf c dispatch)
    have count := more (chainOf c dispatch)
    rw [if_pos rfl] at count
    exact Nat.le_zero.mp (Nat.le_of_succ_le_succ (count.symm.le.trans one))
  · rintro ⟨hash,taken,fresh⟩
    have new {P : Stored → Prop} (old : ∀ entry ∈ world.stored, P entry)
        (this : P (entryOf c dispatch reply newBlockHash timeNow)) : ∀ entry ∈ after.stored, P entry := by
      intro entry member
      rw [stored] at member
      rcases List.mem_append.mp member with before | here
      · exact old entry before
      · cases List.mem_singleton.mp here
        exact this
    refine ⟨attempts_le sound,calls.trans settled.once,?_,new settled.accepted ⟨accepted,taken⟩,new settled.hashes ?_⟩
    · intro chain
      by_cases both : resubmits c = true
      · show after.storedOn chain ≤ 1
        rw [more]
        split
        next here => rw [← here,fresh both]
        · exact settled.single chain
      · exact storedOn_le sound (Bool.not_eq_true _ ▸ both) chain
    · rw [hash_entryOf]
      exact ⟨hash,nonzero⟩

theorem step_settled (sound : Sound c world) (settled : Settled c callback world)
    (moved : step c world event = some after) :
    Settled c callback after ↔ Plain c world event := by
  obtain ⟨task,present,moves⟩ := step_moves sound moved
  have soundAfter := step_sound sound moved
  have plain : Plain c world event ↔ ∀ found ∈ resolution c task event, found.Plain c world := by
    unfold Plain
    rw [present]
    simp
  have calls := moves.calls
  have before := calls_eraseIdx present
  rw [plain]
  cases resolved : resolution c task event with
  | none =>
    rw [resolved] at moves calls
    refine iff_of_true (settled_same soundAfter settled ?_ ?_) (by simp)
    · rw [calls,before]
      simp
    · rcases moves.stored with same | ⟨_,_,_,_,impossible,_⟩
      · exact same
      · cases impossible
  | some found =>
    rw [resolved] at moves calls
    obtain ⟨dispatch,reply,hash⟩ := found
    simp only [Option.mem_def,Option.some.injEq,forall_eq']
    cases hash with
    | none =>
      cases moves with
      | lost =>
        have kept : world.calls = callback.toNat := settled.once
        constructor
        · intro settledAfter
          have still := settledAfter.once.trans (kept.symm.trans before)
          cases lost : dispatch.callback with
          | false => exact lost
          | true =>
            rw [Task.callback,lost] at still
            exact absurd still (Nat.ne_of_lt (Nat.lt_succ_self _))
        · intro plain
          have quiet : dispatch.callback = false := plain
          refine settled_same soundAfter settled ?_ rfl
          rw [before,Task.callback,quiet]
          rfl
    | some newBlockHash =>
      have same : after.calls = world.calls := by
        rw [calls,before]
        simp
      cases moves with
      | found awaits accepted =>
        rename_i timeNow
        have stored : (onBlockHash c {world with tasks := world.tasks.eraseIdx event.index} reply dispatch newBlockHash
            timeNow).stored = _ := stored_onBlockHash reply dispatch newBlockHash timeNow
        by_cases zero : newBlockHash = zeroHash
        · rw [if_pos zero] at stored
          exact iff_of_true (settled_same soundAfter settled same stored) (.inl zero)
        · rw [if_neg zero] at stored
          rw [settled_stored soundAfter settled same zero accepted stored]
          exact (or_iff_right zero).symm

variable (c) in
theorem begin_refused {error : Json} (refused : requests c (firstCall callback) = .error error) (timeNow : ℕ) :
    begin c callback timeNow = nothing.add (.retry (againOf (stdDispatch c (firstCall callback)))) ∨
      begin c callback timeNow = nothing.add (.notify callback) ∨
      begin c callback timeNow = nothing.finish callback false := by
  unfold begin submitBlock
  rw [← firstCall,refused]
  dsimp only
  unfold replyFn
  rw [if_pos (refused_again c refused).1]
  split
  · exact .inl rfl
  · split
    · exact .inr (.inl rfl)
    · exact .inr (.inr rfl)

variable (c) in
theorem begin_sent (sends : requests c (firstCall callback) = .ok sent) (timeNow : ℕ) :
    begin c callback timeNow = send c (firstCall callback) nothing sent := by
  unfold begin submitBlock
  rw [← firstCall,sends]

private theorem sum_le_length {weigh : Request → ℕ} (small : ∀ request ∈ sent, weigh request ≤ 1) :
    (sent.map weigh).sum ≤ sent.length := by
  have bound := List.sum_le_card_nsmul (sent.map weigh) 1 (by simpa using small)
  simpa using bound

variable (c) in
theorem sent_sound (sends : requests c (firstCall callback) = .ok sent) :
    Sound c (send c (firstCall callback) nothing sent) := by
  have shared := first_shared c sends
  have once (chain : Chain) : (sent.map fun request => chainOf c request.dispatch).count chain ≤ 1 :=
    List.nodup_iff_count_le_one.mp shared.chains chain
  refine ⟨?_,?_,?_,fun _ member => by cases member⟩
  · intro task member
    obtain ⟨request,found,rfl⟩ := List.mem_map.mp (List.mem_append.mp member |>.resolve_left List.not_mem_nil)
    exact .first sends found
  · intro chain
    have again : ∀ request ∈ sent, (chains c (againOf request.dispatch)).count chain ≤ 1 := by
      intro request member
      obtain ⟨_,sendsAgain,sharedAgain,_⟩ := again_shared c sends member
      rw [chains_sent sendsAgain]
      exact List.nodup_iff_count_le_one.mp sharedAgain.chains chain
    have potential : (sent.map fun request => Task.potential c chain (.rpc (firstCall callback) request.dispatch)).sum ≤
        if resubmits c then 2 else 1 := by
      split
      · exact (sum_le_length again).trans shared.length_le
      next alone =>
        have keeps : (sent.map fun request => (chains c (againOf request.dispatch)).count chain) =
            sent.map fun request => if chainOf c request.dispatch = chain then 1 else 0 := by
          refine List.map_congr_left fun request member => ?_
          obtain ⟨_,_,_,keeps⟩ := again_shared c sends member
          rw [keeps (Bool.not_eq_true _ ▸ alone),List.count_singleton]
          simp only [beq_iff_eq]
        exact (congrArg List.sum keeps).le.trans ((sum_chains sent chain).le.trans (once chain))
    have first : (send c (firstCall callback) nothing sent).attempts.count chain ≤ 1 := once chain
    have none : nothing.total (Task.potential c chain) = 0 := rfl
    have limit : (if resubmits c then 3 else 2) = 1 + if resubmits c then 2 else 1 := by split <;> rfl
    rw [total_send,none,limit]
    omega
  · intro alone chain
    have none : nothing.total (Task.holds c chain) = 0 := rfl
    rw [total_send,none]
    have held : (sent.map fun request => Task.holds c chain (.rpc (firstCall callback) request.dispatch)).sum ≤ 1 :=
      (sum_chains sent chain).le.trans (once chain)
    show 0 + (0 + _) ≤ 1
    omega

theorem refused_starts {task : Task} (ok : TaskOk c task) (potential : ∀ chain, task.potential c chain = 0)
    (holds : ∀ chain, task.holds c chain = 0) : Sound c (nothing.add task) ∧
    Settled c task.callback (nothing.add task) := by
  constructor
  · refine ⟨?_,?_,?_,?_⟩
    · intro other member
      cases List.mem_singleton.mp member
      exact ok
    · intro chain
      rw [total_add,potential]
      exact Nat.zero_le _
    · intro _ chain
      rw [total_add,holds]
      exact Nat.zero_le 1
    · intro entry member
      cases member
  · refine ⟨fun _ => Nat.zero_le _,?_,fun _ => Nat.zero_le 1,?_,?_⟩
    · exact (calls_add task).trans (Nat.zero_add _)
    · intro entry member
      cases member
    · intro entry member
      cases member

private theorem failed_starts : Sound c (nothing.finish callback false) ∧
    Settled c callback (nothing.finish callback false) := by
  have none : (nothing.finish callback false).stored = [] := stored_finish ..
  constructor
  · refine ⟨?_,?_,?_,?_⟩
    · intro task member
      rw [tasks_finish] at member
      cases member
    · intro chain
      rw [attempts_finish,total_finish]
      exact Nat.zero_le _
    · intro _ chain
      rw [World.storedOn,none,total_finish]
      exact Nat.zero_le 1
    · rw [none]
      intro entry member
      cases member
  · refine ⟨?_,?_,?_,?_,?_⟩
    · intro chain
      rw [attempts_finish]
      exact Nat.zero_le _
    · exact (calls_finish callback false).trans (Nat.zero_add _)
    · rw [none]
      exact fun _ => Nat.zero_le 1
    · rw [none]
      intro entry member
      cases member
    · rw [none]
      intro entry member
      cases member

variable (c callback) in
theorem begin_starts (timeNow : ℕ) : Sound c (begin c callback timeNow) ∧
    Settled c callback (begin c callback timeNow) ∧
    (begin c callback timeNow).total Task.weight ≤ 48 := by
  cases sends : requests c (firstCall callback) with
  | ok sent =>
    have sound := sent_sound c sends
    have shared := first_shared c sends
    rw [begin_sent c sends]
    refine ⟨sound,⟨attempts_le sound,?_,fun _ => Nat.zero_le 1,?_,?_⟩,?_⟩
    · exact (calls_send shared).trans (Nat.zero_add _)
    · intro entry member
      cases member
    · intro entry member
      cases member
    · have few := shared.length_le
      have none : nothing.total Task.weight = 0 := rfl
      rw [total_send,none]
      simp [Task.weight,firstCall]
      omega
  | error error =>
    have refused := (refused_again c sends).2
    rcases begin_refused c sends timeNow with again | checked | failed
    · have silent (chain : Chain) : (chains c (againOf (stdDispatch c (firstCall callback)))).count chain = 0 := by
        rw [chains,refused]
        rfl
      rw [again]
      obtain ⟨sound,settled⟩ := refused_starts (TaskOk.refused c.port_pos.ne' (refused _)) silent silent
      refine ⟨sound,settled,?_⟩
      rw [total_add]
      show 0 + 23 ≤ 48
      decide
    · rw [checked]
      obtain ⟨sound,settled⟩ := refused_starts (.notify callback : TaskOk c (.notify callback))
        (fun _ => rfl) (fun _ => rfl)
      refine ⟨sound,settled,?_⟩
      rw [total_add]
      show 0 + 1 ≤ 48
      decide
    · rw [failed]
      obtain ⟨sound,settled⟩ : Sound c (nothing.finish callback false) ∧
        Settled c callback (nothing.finish callback false) :=
        failed_starts
      refine ⟨sound,settled,?_⟩
      rw [total_finish]
      decide

def Task.answer : Task → Event
  | .rpc .. => .reply 0 ⟨.null,none⟩ 0
  | .retry _ => .retry 0 0
  | .notify _ => .checked 0 false
  | .report _ => .reported 0
  | .erg .. => .header 0 true .null 0
  | .eth .. => .found 0 none 0

private theorem resume_answer (rest : World) (task : Task) : ∃ next, resume c rest task task.answer = some next := by
  cases task with
  | rpc | retry | notify | report | erg => exact ⟨_,rfl⟩
  | eth reply dispatch attempt =>
    unfold resume Task.answer
    dsimp only
    split <;> exact ⟨_,rfl⟩

theorem progress (waits : world.tasks ≠ []) : ∃ event next, step c world event = some next := by
  cases tasks : world.tasks with
  | nil => exact absurd tasks waits
  | cons task rest =>
    obtain ⟨next,resumed⟩ := resume_answer (c := c) {world with tasks := world.tasks.eraseIdx 0} task
    have first : task.answer.index = 0 := by cases task <;> rfl
    refine ⟨task.answer,next,?_⟩
    unfold step
    rw [first,tasks]
    rw [tasks] at resumed
    exact resumed

private theorem run_weight {events : List Event} (sound : Sound c world)
    (ran : (submission c callback).run world events = some after) :
    after.total Task.weight + events.length ≤ world.total Task.weight := by
  induction events generalizing world with
  | nil =>
    cases ran
    exact le_rfl
  | cons event events ih =>
    obtain ⟨next,moved,rest⟩ := Option.bind_eq_some_iff.mp ran
    have lighter := step_weight sound moved
    have shorter := ih (step_sound sound moved) rest
    rw [List.length_cons]
    omega

end Runs

section Samples

def sampleDigest : Digest := ⟨List.replicate 32 0xab,rfl⟩

def sampleCandidate (settings : PoolSettings) (coin : String) (hashDiff : ℚ) : Candidate where
  daemon := ⟨18081,false,none,none⟩
  poolSettings := some settings
  coin := coin
  port := 18081
  port_pos := by decide
  height := 100
  difficulty := 100
  xmrDifficulty := some 200
  xtmDifficulty := some 100
  xtmHeight := some 7
  xtmBlock := false
  hash2 := none
  hashDiff := hashDiff
  blockData := .buffer [1,2,3]
  blockId := sampleDigest
  resultBuff := some sampleDigest
  proofValid := false
  throws := none
  isTrustedShare := false
  isParentBlock := true
  suppressFailureEmail := false
  converts := true
  poolType := 0
  anchorHeight := 0
  coin2port _ := none
  getPoolWorkDifficulty _ difficulty := difficulty

def moneroSettings : PoolSettings :=
  ⟨.statusOkObject,.block,.dualMain,some "XTM",some 18144,some 18083,some 18081⟩

def deroSettings : PoolSettings := ⟨.definedResult,.deroBlid,.dero,none,none,none,none⟩

def ravenSettings : PoolSettings := ⟨.definedResult,.resultHash,.btc,none,none,none,none⟩

def okReply : Reply := ⟨.obj [("result",.obj [("status",.str "OK")])],some 200⟩

def blidReply : Reply := ⟨.obj [("result",.obj [("status",.str "OK"),("blid",.str "abc")])],some 200⟩

def rejectedReply : Reply := ⟨.obj [("result",.str "rejected"),("error",.null)],some 200⟩

def unknownReply : Reply := ⟨.null,some 200⟩

end Samples

end NodejsPool.Pool.BlockSubmission
