import NodejsPool.Coins.VerifierLoops

/-! Every task is called back once and gives its slot back once, and the counts are those of the tasks
there are. -/
namespace NodejsPool.Coins.ShareVerifier
open Async Callbacks Counters Families Multiset Option
open Payments (Json)

variable {n : ℕ} {config : Config n} {world next : World n}

section Accounts

/-- A queue that is swept is given no task while a callback of the sweep runs, and `verifyInput` does not throw. -/
def World.admits (world : World n) : Admission n → Bool
  | .thrown => false
  | .queued host _ =>
    match world.handler with
    | .report swept _ => swept ≠ host
    | _ => true
  | _ => true

/-- An exception that is caught unwinds outside code only: in the `catch` of a reply, while the proof is
still being compressed. -/
def World.forgives (world : World n) (unwound : ℕ) : Bool :=
  (world.stack.take unwound).all (fun frame => frame = .code) && (!(world.stack.drop unwound).isEmpty ||
    match world.handler with
    | .answer index _ => world.verifications[index]?.any Verification.compressing
    | _ => false)

def Meets (config : Config n) (world : World n) : Label n → Bool
  | .verifyPearlAsync request miner_address now => world.admits (world.pearlAdmission config request miner_address now)
  | .slowHashAsync template miner_address now => world.admits (world.hashAdmission config template miner_address now)
  | .throw unwound _ => world.forgives unwound
  | _ => true

/-- Each task's callback and slot, and what the counts stand for. -/
structure Accounted (world : World n) : Prop where
  /-- No callback is called twice. -/
  once : (world.calls.map Call.task).Nodup
  /-- A task that has not been called back waits in a queue or is being verified. -/
  called : (world.accepted.map VerifyTask.id : Multiset ℕ) = (world.calls.map Call.task : Multiset ℕ) +
    world.waiting.map VerifyTask.id +
    (world.calling.filter fun verification => verification.is_cb = false).map fun verification => verification.task.id
  /-- A task waits, was removed by a sweep, or was given one slot. -/
  placed : (world.accepted.map VerifyTask.id : Multiset ℕ) = world.waiting.map VerifyTask.id +
    (world.reported : Multiset ℕ) + world.calling.map fun verification => verification.task.id
  freed : ∀ verification ∈ world.verifications, verification.freed ≤ 1
  slots : ∀ host, world.running host = world.calling.countP (busy host)
  /-- A slot that is in use will be given back: by the answer, for which the timer waits, or by the compressor. -/
  freeing : world.atRest → ∀ verification ∈ world.verifications, verification.freed = 0 →
    verification.is_cb = false ∧ verification.timer = true ∨ verification.compressing = true
  /-- A task waits only while every slot of its queue is in use. -/
  full : world.atRest → ∀ host, world.pending host ≠ [] → 16 ≤ world.running host
  verify : Tallies world.miner_address_verify (ofMiner world.waiting)
  bytes : world.pearlPendingVerifyBytes = ((world.waiting + verifying world.calling).map VerifyTask.verifyBytes).sum
  tasks : world.pearlPendingVerifyTasks = (world.waiting + verifying world.calling).countP fun task => task.pearl
  limits : world.pearlPendingVerifyBytes ≤ PEARL_PENDING_VERIFY_MAX_BYTES ∧
    world.pearlPendingVerifyTasks ≤ PEARL_PENDING_VERIFY_MAX_TASKS
  swept : world.removed <+: world.reported ∧ (world.atRest → world.reported = world.removed)
  /-- Once nothing is awaited every callback has been called, and every slot given back. -/
  settled : world.atRest → (∀ verification ∈ world.verifications, verification.timer = false ∧
    verification.compressing = false) →
    (world.calls.map Call.task).Perm (world.accepted.map VerifyTask.id) ∧
      ∀ verification ∈ world.verifications, verification.freed = 1

end Accounts

section Reading

theorem Sound.ids (sound : Sound world) : (world.accepted.map VerifyTask.id).Nodup := by
  rw [sound.lives.numbered]
  exact List.nodup_range

theorem Sound.called (sound : Sound world) : (world.accepted.map VerifyTask.id : Multiset ℕ) =
    (world.calls.map Call.task : Multiset ℕ) + world.waiting.map VerifyTask.id +
    (world.calling.filter fun verification => verification.is_cb = false).map fun verification =>
    verification.task.id := by
  have parts : world.calling.map (fun verification => verification.task.id) =
      (world.calling.filter fun verification => verification.is_cb = true).map (fun verification =>
      verification.task.id) +
        (world.calling.filter fun verification => verification.is_cb = false).map fun verification =>
        verification.task.id := by
    rw [← map_add]
    refine congrArg _ ?_
    conv_lhs => rw [← filter_add_not (fun verification : Verification n => verification.is_cb = true) world.calling]
    refine congrArg _ (filter_congr fun verification _ => ?_)
    exact Bool.not_eq_true _ ▸ Iff.rfl
  rw [sound.lives.placed,sound.lives.called,parts]
  abel

theorem Sound.full (sound : Sound world) (rest : world.atRest) (host : Fin n) (some : world.pending host ≠ []) :
    16 ≤ world.running host := by
  by_contra free
  have loops := sound.pumps.full host some (Nat.lt_of_not_le free)
  rw [rest.1] at loops
  rcases loops with inside | inside <;> exact absurd inside List.not_mem_nil

theorem Sound.settled (sound : Sound world) (rest : world.atRest)
    (quiet : ∀ verification ∈ world.verifications, verification.timer = false ∧ verification.compressing = false) :
    (world.calls.map Call.task).Perm (world.accepted.map VerifyTask.id) ∧
      ∀ verification ∈ world.verifications, verification.freed = 1 := by
  have done : ∀ verification ∈ world.verifications, verification.is_cb = true ∧ verification.freed = 1 := by
    intro verification inside
    obtain ⟨index,found⟩ := List.mem_iff_getElem?.mp inside
    have served := sound.slots.served index verification found
    obtain ⟨timer,compressing⟩ := quiet verification inside
    have answered : verification.is_cb = true := by
      rw [served.timer] at timer
      exact Bool.eq_true_of_not_eq_false fun waits => by rw [waits] at timer; cases timer
    refine ⟨answered,?_⟩
    rw [rest.1,rest.2] at served
    have owed : verification.freed ≠ 0 := fun free => by
      rcases served.owed.mp free with waits | presses | answers | frames
      · exact Bool.false_ne_true (waits.symm.trans answered)
      · exact Bool.false_ne_true (compressing.symm.trans presses)
      · exact not_answers_idle answers
      · exact Nat.lt_irrefl 0 frames
    have := served.once
    omega
  refine ⟨?_,fun verification inside => (done verification inside).2⟩
  have empty : ∀ host, world.pending host = [] := by
    intro host
    by_contra some
    have full := sound.full rest host some
    rw [sound.slots.running,countP_eq_zero.mpr] at full
    · omega
    · intro verification inside used
      exact absurd (used.2.symm.trans (done verification inside).2) (by decide)
  have waiting : world.waiting = 0 := by
    rw [World.waiting,rest.2,waiting_quiet quiet_idle,funext empty]
    exact gather_nil
  have called := sound.called
  rw [waiting,filter_eq_nil.mpr fun verification inside waits =>
    Bool.false_ne_true (waits.symm.trans (done verification inside).1)] at called
  exact (coe_eq_coe.mp (called.trans (by simp))).symm

theorem Sound.accounted (sound : Sound world) : Accounted world := by
  have called := sound.called
  refine ⟨?_,called,sound.lives.placed,fun verification inside => ?_,sound.slots.running,
    fun rest verification inside free => ?_,sound.full,sound.books.tallies,sound.books.bytesSum,sound.books.tasksSum,
    ⟨sound.books.bytesLimit,sound.books.tasksLimit⟩,⟨?_,fun rest => ?_⟩,sound.settled⟩
  · have nodup : (world.accepted.map VerifyTask.id : Multiset ℕ).Nodup := coe_nodup.mpr sound.ids
    rw [called,add_assoc] at nodup
    exact coe_nodup.mp (nodup_of_le (le_add_right _ _) nodup)
  · obtain ⟨index,found⟩ := List.mem_iff_getElem?.mp inside
    exact (sound.slots.served index verification found).once
  · obtain ⟨index,found⟩ := List.mem_iff_getElem?.mp inside
    have served := sound.slots.served index verification found
    rw [rest.1,rest.2] at served
    rcases served.owed.mp free with waits | compressing | answers | frames
    · exact .inl ⟨waits,served.timer.trans (by rw [waits]; rfl)⟩
    · exact .inr compressing
    · exact absurd answers not_answers_idle
    · exact absurd frames (Nat.lt_irrefl 0)
  · have swept := sound.swept
    unfold Swept at swept
    split at swept
    · obtain ⟨task,_,same⟩ := swept
      exact ⟨[task.data.id],same.symm⟩
    · exact swept ▸ List.prefix_refl _
  · have swept := sound.swept
    rw [rest.2] at swept
    exact swept

end Reading

section Steps

variable {verification : Verification n} {index : ℕ} {now : ℤ}

theorem Sound.empty : Sound (World.empty : World n) := by
  have none : (World.empty : World n).waiting = 0 := (waiting_quiet quiet_idle).trans gather_nil
  refine ⟨?_,?_,?_,?_,rfl,nofun⟩
  · rw [none]
    exact ⟨rfl,rfl,rfl⟩
  · rw [none]
    exact ⟨fun _ => rfl,rfl,rfl,fun _ inside => absurd inside (notMem_zero _),Nat.zero_le _,Nat.zero_le _⟩
  · exact ⟨fun _ _ found => absurd (List.getElem?_nil.symm.trans found) (by simp),nofun,fun _ answers =>
      absurd answers not_answers_idle,fun _ => rfl⟩
  · exact ⟨fun _ => rfl,fun _ some => absurd rfl some,fun _ ⟨_,sweeping⟩ => by
      rcases sweeping with same | same <;> cases same⟩

theorem count_outside {frames : List (Frame n)} (outside : ∀ frame ∈ frames, frame = .code ∨ frame = .attempt)
    {frame : Frame n} (code : frame ≠ .code) (attempt : frame ≠ .attempt) : frames.count frame = 0 :=
  List.count_eq_zero.mpr fun inside => (outside frame inside).elim code attempt

theorem Sound.outside (sound : Sound world) (some : world.stack ≠ []) (front back frames : List (Frame n))
    (top : world.stack = front ++ back) (left : ∀ frame ∈ front, frame = .code ∨ frame = .attempt)
    (entered : ∀ frame ∈ frames, frame = .code ∨ frame = .attempt) : Sound { world with stack := frames ++ back } := by
  refine sound.reframe (frames ++ back) world.handler (fun frame code attempt => ?_) (.inl rfl) (fun _ => Iff.rfl)
    (fun _ => .inl) fun host index sweeping => absurd (sound.bare host index sweeping) some
  rw [top,List.count_append,List.count_append,count_outside left code attempt,count_outside entered code attempt]

theorem Sound.handler (sound : Sound world) (quiet : world.handler.quiet)
    (answers : ∀ index, ¬ world.handler.answers index)
    (none : world.stack = []) (following : Handler n) (after : following.quiet)
    (silent : ∀ index, ¬ following.answers index) :
    Sound { world with handler := following } :=
  sound.reframe world.stack following (fun _ _ _ => rfl) (.inr ⟨quiet,after⟩)
    (fun index => iff_of_false (silent index) (answers index)) (fun _ _ => .inr none) fun _ _ _ => none

theorem Sound.handle (sound : Sound world) (none : world.stack = []) (moved : world.handle now = some next) :
    Sound next := by
  unfold World.handle at moved
  split at moved
  · cases moved
  · next tried handler =>
    cases moved
    exact sound.handler (handler ▸ quiet_leaving) (fun _ => handler ▸ not_answers_leaving) none .idle quiet_idle
      fun _ => not_answers_idle
  · next index tried handler =>
    obtain ⟨verification,found,rfl⟩ := map_eq_some_iff.mp moved
    have answers : world.handler.answers index := ⟨tried,handler⟩
    have served := sound.slots.served index verification found
    split
    · next compressing =>
      have unchanged : ∀ frame : Frame n, frame ≠ .code → frame ≠ .attempt →
          world.stack.count frame = world.stack.count frame :=
        fun _ _ _ => rfl
      have left := sound.relinquish unchanged answers found compressing
      exact left
    · next compressed =>
      exact sound.finishTask none (.inr answers) found ⟨rfl,rfl,rfl,rfl,rfl⟩ (Bool.eq_false_iff.mpr compressed)
        (served.called answers).1 (served.called answers).2 (served.owed.mpr (.inr (.inr (.inl answers)))) rfl rfl
  · next host handler =>
    cases moved
    exact sound.handler (handler ▸ quiet_sweep) (fun _ => handler ▸ not_answers_sweep) none .idle quiet_idle fun _ =>
      not_answers_idle
  · next host index handler =>
    split at moved
    · cases moved
      exact sound.handler (handler ▸ quiet_sweep)
        (fun _ => handler ▸ not_answers_sweep) none (.sweep host index) quiet_sweep
        fun _ => not_answers_sweep
    · next task found =>
      cases moved
      exact sound.removeExpired handler found now
  · next host index handler =>
    cases moved
    exact sound.splice handler none

theorem Sound.run (sound : Sound world) (moved : world.run now = some next) : Sound next := by
  unfold World.run at moved
  split at moved
  · cases moved
  · next rest top =>
    cases moved
    exact sound.outside (by rw [top]; exact List.cons_ne_nil _ _) [.attempt] rest [] top
      (fun frame inside => .inr (List.mem_singleton.mp inside)) fun _ none => absurd none List.not_mem_nil
  · next host rest top =>
    cases moved
    exact sound.pump top
  · next host rest top =>
    cases moved
    exact sound.loop top now
  · next index rest top =>
    obtain ⟨verification,found,rfl⟩ := map_eq_some_iff.mp moved
    exact sound.queueCB top found
  · next none => exact sound.handle none moved

theorem on_some {may : Verification n → Bool} {handle : Verification n → World n}
    (moved : world.on index may handle = some next) :
    world.atRest ∧ ∃ verification, world.verifications[index]? = some verification ∧ may verification = true ∧
      next = handle verification := by
  obtain ⟨rest,moved⟩ := ite_none_right_eq_some.mp moved
  obtain ⟨verification,found,rfl⟩ := map_eq_some_iff.mp moved
  obtain ⟨found,may⟩ := filter_eq_some_iff.mp found
  exact ⟨rest,verification,found,may,rfl⟩

theorem Sound.onCompressed (sound : Sound world) (rest : world.atRest)
    (found : world.verifications[index]? = some verification)
    (compressing : verification.compressing = true) : Sound (world.onCompressed index verification) := by
  have served := sound.slots.served index verification found
  have fresh : verification.expired = false := Bool.eq_false_iff.mpr fun expired =>
    Bool.false_ne_true ((served.lapsed expired).2.symm.trans compressing)
  unfold World.onCompressed
  split
  · next called =>
    exact sound.finishTask rest.1 (.inl rest.2) found ⟨rfl,rfl,rfl,rfl,rfl⟩ rfl called fresh
      (served.owed.mpr (.inr (.inl compressing))) rfl rfl
  · next waits =>
    exact sound.setVerification found ⟨rfl,rfl,rfl,rfl,rfl⟩ rfl (fun called => absurd called waits) fun called =>
      absurd called waits

theorem Sound.onData {buff1 : List UInt16} (sound : Sound world) (rest : world.atRest)
    (found : world.verifications[index]? = some verification) (connected : verification.socket = .connected) :
    Sound (world.onData index verification buff1) := by
  have timer := (sound.slots.served index verification found).timer
  unfold World.onData
  dsimp only
  split
  · exact sound.return_cb rest.1 rest.2 found ⟨rfl,rfl,rfl,rfl,rfl⟩ (fun called =>
      timer.trans (by rw [called]; rfl)) nofun rfl
  · refine sound.setVerification found ⟨rfl,rfl,rfl,rfl,rfl⟩ rfl (fun _ => ?_) fun _ => rfl
    exact connected ▸ nofun

theorem Sound.ends {host : Fin n} {health : Health} {changed : Verification n} {tried : Bool} {result : Json}
    {errorKind : Option String}
    (sound : Sound world) (rest : world.atRest) (found : world.verifications[index]? = some verification)
    (alike : Alike verification changed) (timer : changed.timer = verification.timer ∨ verification.timer = true)
    (socket : changed.socket ≠ .connecting) (compressing : changed.compressing = verification.compressing) :
    Sound (((world.setVerification index changed).setHealth host health).return_cb index changed tried result
      errorKind) := by
  have served := sound.slots.served index verification found
  have healthy : Sound (world.setHealth host health) := sound.setHealth
  refine healthy.return_cb rest.1 rest.2 found alike (fun called => ?_) socket compressing
  have stopped : verification.timer = false := served.timer.trans (by rw [called]; rfl)
  rcases timer with same | running
  · exact same.trans stopped
  · exact absurd (stopped.symm.trans running) Bool.false_ne_true

theorem Sound.onEnd (sound : Sound world) (rest : world.atRest)
    (found : world.verifications[index]? = some verification) :
    Sound (world.onEnd config index verification now) := by
  unfold World.onEnd
  split
  · exact sound.ends rest found ⟨rfl,rfl,rfl,rfl,rfl⟩ (.inl rfl) nofun rfl
  · exact sound.ends rest found ⟨rfl,rfl,rfl,rfl,rfl⟩ (.inl rfl) nofun rfl

theorem Sound.onConnect {original : Option ℕ} (sound : Sound world)
    (found : world.verifications[index]? = some verification)
    (connecting : verification.socket = .connecting) : Sound (world.onConnect config index verification original) := by
  have served := sound.slots.served index verification found
  exact sound.setVerification found ⟨rfl,rfl,rfl,rfl,rfl⟩ rfl nofun fun called =>
    absurd connecting (served.socket called)

private theorem World.refuse_called (called : verification.is_cb = true) :
    world.refuse index verification now = world.fail verification.host now := by
  rw [World.refuse,World.return_cb,if_pos called]

theorem Sound.throw {unwound : ℕ} (sound : Sound world) (forgiven : world.forgives unwound = true)
    (moved : world.throw unwound now = some next) : Sound next := by
  obtain ⟨only,reaches⟩ := Bool.and_eq_true_iff.mp forgiven
  have outside : ∀ frame ∈ world.stack.take unwound, frame = .code ∨ frame = .attempt := fun frame inside =>
    .inl (of_decide_eq_true (List.all_eq_true.mp only frame inside))
  have parts := (List.take_append_drop unwound world.stack).symm
  obtain ⟨may,moved⟩ := ite_none_left_eq_some.mp moved
  have some : world.stack ≠ [] := by
    intro none
    rw [none] at may
    exact may (.inl nofun)
  split at moved
  · next stack kept =>
    cases moved
    exact sound.outside some _ (.code::stack) [] (parts.trans (by rw [kept])) outside fun _ none =>
      absurd none List.not_mem_nil
  · next stack kept =>
    cases moved
    refine sound.outside some (world.stack.take unwound ++ [.attempt]) stack [.code] ?_ ?_ fun frame inside => ?_
    · rw [List.append_assoc]
      exact parts.trans (by rw [kept]; rfl)
    · intro frame inside
      rcases List.mem_append.mp inside with inside | inside
      · exact outside frame inside
      · exact .inr (List.mem_singleton.mp inside)
    · exact .inl (List.mem_singleton.mp inside)
  · next reached =>
    rw [reached,List.append_nil] at parts
    rw [← parts] at outside
    rw [reached] at reaches
    have handled : (match world.handler with
      | .answer index _ => world.verifications[index]?.any Verification.compressing
      | _ => false) = true := by simpa using reaches
    split at moved
    · next index handler =>
      obtain ⟨verification,found,rfl⟩ := map_eq_some_iff.mp moved
      rw [handler] at handled
      simp only [found,any_some] at handled
      have answers : world.handler.answers index := ⟨true,handler⟩
      have called := ((sound.slots.served index verification found).called answers).1
      rw [World.refuse_called called]
      refine Sound.setHealth (sound.relinquish (fun frame code attempt => ?_) answers found handled)
      rw [count_outside outside code attempt]
      rfl
    · next index handler =>
      rw [handler] at handled
      cases handled
    · cases moved
  · cases moved

end Steps

section Requests

variable {asked : PearlRequest} {template : HashTemplate} {miner_address : String} {now : ℤ} {host : Fin n}
    {verifyBytes : ℕ}

private theorem calmest_some (candidates : List (Fin n)) (best : Option (Fin n)) (found : best.isSome = true) :
    (candidates.foldl world.calmest best).isSome = true := by
  induction candidates generalizing best with
  | nil => exact found
  | cons candidate candidates ih =>
    refine ih _ ?_
    unfold World.calmest
    split
    · rfl
    · exact found

theorem selectShareVerifyQueue_some (some : n ≠ 0) (now : ℤ) : world.selectShareVerifyQueue config now ≠ none := by
  unfold World.selectShareVerifyQueue
  split
  · exact some_ne_none _
  · obtain ⟨rest,rfl⟩ := Nat.exists_eq_succ_of_ne_zero some
    rw [List.finRange_succ,List.foldl_cons]
    exact isSome_iff_ne_none.mp (calmest_some _ _ rfl)

theorem pearl_queued (admission : world.pearlAdmission config asked miner_address now = .queued host verifyBytes)
    (limit : world.pearlPendingVerifyBytes ≤ PEARL_PENDING_VERIFY_MAX_BYTES) :
    verifyBytes ≠ 0 ∧ world.pearlPendingVerifyBytes + verifyBytes ≤ PEARL_PENDING_VERIFY_MAX_BYTES ∧
      world.pearlPendingVerifyTasks + 1 ≤ PEARL_PENDING_VERIFY_MAX_TASKS := by
  unfold World.pearlAdmission at admission
  split at admission
  · cases admission
  · split at admission
    · cases admission
    · split at admission
      · cases admission
      · split at admission
        · cases admission
        · split at admission
          · cases admission
          · dsimp only at admission
            split at admission
            · cases admission
            · next fits =>
              cases admission
              refine ⟨?_,by omega,by omega⟩
              exact Nat.succ_ne_zero _

theorem pearl_placed : world.pearlAdmission config asked miner_address now ≠ .unqueued := by
  unfold World.pearlAdmission
  split
  · nofun
  · split
    · nofun
    · split
      · nofun
      · split
        · nofun
        · split
          · nofun
          · dsimp only
            split <;> nofun

theorem hash_queued (admission : world.hashAdmission config template miner_address now = .queued host verifyBytes) :
    verifyBytes = 0 := by
  unfold World.hashAdmission at admission
  repeat' split at admission
  all_goals first | (cases admission; rfl) | cases admission

theorem hash_placed : world.hashAdmission config template miner_address now ≠ .unqueued := by
  unfold World.hashAdmission
  split
  · nofun
  · next some =>
    split
    · nofun
    · split
      · nofun
      · split
        · next none => exact absurd none (selectShareVerifyQueue_some some now)
        · nofun

theorem Sound.request {admission : Admission n} {pearl : Bool} (sound : Sound world) (some : world.stack ≠ [])
    (admits : world.admits admission = true) (placed : admission ≠ .unqueued)
    (fits : ∀ host verifyBytes, admission = .queued host verifyBytes → (pearl = true ↔ verifyBytes ≠ 0) ∧
      world.pearlPendingVerifyBytes + verifyBytes ≤ PEARL_PENDING_VERIFY_MAX_BYTES ∧
      world.pearlPendingVerifyTasks + (if pearl then 1 else 0) ≤ PEARL_PENDING_VERIFY_MAX_TASKS) :
    Sound (world.request admission miner_address now pearl) := by
  cases admission with
  | rejected =>
    exact sound.outside some [] world.stack [.code] rfl (fun _ none => absurd none List.not_mem_nil)
      fun frame inside => .inl (List.mem_singleton.mp inside)
  | locally =>
    refine sound.outside some [] world.stack [.code,.attempt] rfl (fun _ none => absurd none List.not_mem_nil)
      fun frame inside => ?_
    rcases List.mem_cons.mp inside with same | inside
    · exact .inl same
    · exact .inr (List.mem_singleton.mp inside)
  | thrown => cases admits
  | unqueued => exact absurd rfl placed
  | queued host verifyBytes =>
    obtain ⟨charged,bytes,tasks⟩ := fits host verifyBytes rfl
    refine sound.unshift ?_ rfl charged bytes tasks some
    rintro ⟨index,sweeping | reporting⟩
    · exact some (sound.bare host index sweeping)
    · rw [World.admits,reporting] at admits
      exact of_decide_eq_true admits rfl

end Requests

section Run

theorem outside_some {after : World n} (moved : world.outside after = some next) : world.stack.head? = some .code ∧
    next = after := by
  obtain ⟨top,same⟩ := ite_none_right_eq_some.mp moved
  exact ⟨top,(some.inj same).symm⟩

private theorem stack_of_head (top : world.stack.head? = some .code) : world.stack ≠ [] := by
  intro none
  rw [none] at top
  cases top

theorem Sound.step {label : Label n} (sound : Sound world) (meets : Meets config world label = true)
    (moved : world.step config label = some next) : Sound next := by
  cases label with
  | event =>
    obtain ⟨rest,same⟩ := ite_none_right_eq_some.mp moved
    cases same
    refine sound.reframe [.code] (.leaving none) (fun frame code _ => ?_) (.inr ⟨rest.2 ▸ quiet_idle,quiet_leaving⟩)
      (fun _ => iff_of_false not_answers_leaving (rest.2 ▸ not_answers_idle)) (fun _ _ => .inr rest.1) nofun
    rw [rest.1]
    exact List.count_cons_of_ne (Ne.symm code)
  | verifyPearlAsync request miner_address now =>
    obtain ⟨top,rfl⟩ := outside_some moved
    refine sound.request (stack_of_head top) meets pearl_placed fun host verifyBytes admission => ?_
    obtain ⟨some,bytes,tasks⟩ := pearl_queued admission sound.books.bytesLimit
    exact ⟨iff_of_true rfl some,bytes,tasks⟩
  | slowHashAsync template miner_address now =>
    obtain ⟨top,rfl⟩ := outside_some moved
    refine sound.request (stack_of_head top) meets hash_placed fun host verifyBytes admission => ?_
    cases hash_queued admission
    exact ⟨iff_of_false Bool.false_ne_true (not_not_intro rfl),sound.books.bytesLimit,sound.books.tasksLimit⟩
  | «return» =>
    obtain ⟨top,rfl⟩ := outside_some moved
    cases stack : world.stack with
    | nil =>
      rw [stack] at top
      cases top
    | cons frame rest =>
      rw [stack] at top
      cases top
      exact sound.outside (by rw [stack]; exact List.cons_ne_nil _ _) [.code] rest [] stack
        (fun frame inside => .inl (List.mem_singleton.mp inside)) fun _ none => absurd none List.not_mem_nil
  | throw unwound now => exact sound.throw meets moved
  | connect index original =>
    obtain ⟨rest,verification,found,may,rfl⟩ := on_some moved
    exact sound.onConnect found (of_decide_eq_true may)
  | compressed index =>
    obtain ⟨rest,verification,found,may,rfl⟩ := on_some moved
    exact sound.onCompressed rest found may
  | data index buff1 =>
    obtain ⟨rest,verification,found,may,rfl⟩ := on_some moved
    exact sound.onData rest found (of_decide_eq_true may)
  | «end» index now =>
    obtain ⟨rest,verification,found,may,rfl⟩ := on_some moved
    exact sound.onEnd rest found
  | error index now =>
    obtain ⟨rest,verification,found,may,rfl⟩ := on_some moved
    exact sound.ends rest found ⟨rfl,rfl,rfl,rfl,rfl⟩ (.inl rfl) nofun rfl
  | timeout index now =>
    obtain ⟨rest,verification,found,may,rfl⟩ := on_some moved
    exact sound.ends rest found ⟨rfl,rfl,rfl,rfl,rfl⟩ (.inr may) nofun rfl
  | checkQueue host now =>
    obtain ⟨rest,same⟩ := ite_none_right_eq_some.mp moved
    cases same
    unfold World.checkQueue
    dsimp only
    split
    · exact sound
    · split
      · exact sound
      · exact sound.handler (rest.2 ▸ quiet_idle)
          (fun _ => rest.2 ▸ not_answers_idle) rest.1 (.sweep host _) quiet_sweep
          fun _ => not_answers_sweep
  | run now => exact sound.run moved

/-- In every run in which no callback of a sweep gives the swept queue a task, no exception of a callback is
caught above the verifier, and `verifyInput` does not throw. -/
theorem accounted_of_reachable (reachable : (machine config).ReachableBy (fun world label =>
      Meets config world label = true) world) :
    Accounted world := by
  refine Sound.accounted (reachable.invariant Sound ?_ ?_)
  · rintro _ rfl
    exact Sound.empty
  · exact fun _ _ _ sound meets moved => sound.step meets moved

def sampleConfig : Config 1 := ⟨fun _ => "verifier.example",fun _ => some (.obj [("result",.bool false)])⟩

theorem accounted_of_reachable_sample : ∃ world, (machine sampleConfig).ReachableBy
    (fun world label => Meets sampleConfig world label = true) world ∧ world.pearlPendingVerifyTasks = 0 ∧
      world.calls.map Call.task = [0] ∧ Accounted world := by
  obtain ⟨world,ran,tasks,calls⟩ : ∃ world, ((machine sampleConfig).guarded (Meets sampleConfig)).run World.empty
      [.event,.verifyPearlAsync ⟨"00",some 1000,"ff",none⟩ "miner" 0,.run 0,.run 0,.run 0,.return,.run 0,
      .connect 0 none,.error 0 5,.return,.run 5,.compressed 0,.run 9,.run 9,.run 9] = some world ∧
      world.pearlPendingVerifyTasks = 0 ∧ world.calls.map Call.task = [0] := by
    refine (Option.map_eq_some_iff (f := fun world :
      World 1 => (world.pearlPendingVerifyTasks,world.calls.map Call.task))
      (b := (0,[0]))).mp ?_ |>.imp fun world same => ⟨same.1,(Prod.mk.inj same.2).1,(Prod.mk.inj same.2).2⟩
    decide +kernel
  have reached := Machine.ReachableBy.run_guarded (fun _ _ passed => passed) (.initial rfl) ran
  exact ⟨world,reached,tasks,calls,accounted_of_reachable reached⟩

/-- A callback that throws on a reply: its slot is never given back. -/
theorem slot_kept_of_throw : ∃ world, (machine sampleConfig).Reachable world ∧ ¬ Accounted world := by
  obtain ⟨world,ran,rest,kept⟩ : ∃ world, (machine sampleConfig).run World.empty
      [.event,.slowHashAsync ⟨false,none⟩ "miner" 0,.run 0,.run 0,.run 0,.return,.run 0,.connect 0 none,.end 0 1,
      .throw 1 1] = some world ∧
      world.atRest ∧ world.verifications.map (fun verification =>
        (verification.freed,verification.timer,verification.compressing)) = [(0,false,false)] := by
    refine (Option.map_eq_some_iff (f := fun world :
      World 1 => (decide world.atRest,world.verifications.map fun verification =>
      (verification.freed,verification.timer,verification.compressing))) (b := (true,[(0,false,false)]))).mp ?_ |>.imp
      fun world same => ⟨same.1,of_decide_eq_true (Prod.mk.inj same.2).1,(Prod.mk.inj same.2).2⟩
    decide +kernel
  refine ⟨world,Machine.reachable_run rfl ran,fun accounted => ?_⟩
  obtain ⟨verification,same⟩ : ∃ verification, world.verifications = [verification] := by
    rw [← List.length_eq_one_iff,← List.length_map,kept]
    rfl
  rw [same,List.map_singleton,List.singleton_inj,Prod.mk.injEq,Prod.mk.injEq] at kept
  obtain ⟨free,timer,compressing⟩ := kept
  rcases accounted.freeing rest verification (same ▸ List.mem_singleton_self _) free with waits | presses
  · exact Bool.false_ne_true (timer.symm.trans waits.2)
  · exact Bool.false_ne_true (compressing.symm.trans presses)

end Run
end NodejsPool.Coins.ShareVerifier
