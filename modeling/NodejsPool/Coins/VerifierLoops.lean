import NodejsPool.Coins.VerifierSteps

/-! Tasks that enter the queues and leave them. -/
namespace NodejsPool.Coins.ShareVerifier
open Async Callbacks Counters Function

variable {n : ℕ} {world : World n} {index : ℕ} {host : Fin n} {rest : List (Frame n)}

section Loops

variable {queue : TaskQueue VerifyTask Empty} {frame : Frame n} {after : List (Frame n)}

theorem setQueue_self : world.setQueue host (world.queues host).queue = world := by
  unfold World.setQueue
  rw [update_eq_self]

def World.requeue (world : World n) (host : Fin n) (queue : TaskQueue VerifyTask Empty) (after : List (Frame n)) :
    World n :=
  { world.setQueue host queue with stack := after }

private theorem pending_requeue : (world.requeue host queue after).pending = update world.pending host queue.pending :=
  pending_setQueue

private theorem running_requeue : (world.requeue host queue after).running = update world.running host queue.running :=
  running_setQueue

private theorem pumping_requeue : (world.requeue host queue after).pumping = update world.pumping host queue.pumping :=
  pumping_setQueue

theorem Sound.requeue (sound : Sound world) (top : world.stack = frame::rest)
    (pump : frame = .pump host ∨ frame = .loop host)
    (shape : after = rest ∨ after = .loop host::rest) (pending : queue.pending = world.pending host)
    (running : queue.running = world.running host) (loops : after.count (.loop host) = if queue.pumping then 1 else 0)
    (full : world.pending host ≠ [] → world.running host < 16 → .pump host ∈ after ∨ .loop host ∈ after) :
    Sound (world.requeue host queue after) := by
  have waits : (world.requeue host queue after).pending = world.pending := by
    rw [pending_requeue,pending,update_eq_self]
  have runs : (world.requeue host queue after).running = world.running := by
    rw [running_requeue,running,update_eq_self]
  have stays : (world.requeue host queue after).waiting = world.waiting := congrArg (waiting · world.handler) waits
  have count : ∀ other : Frame n, other ≠ .pump host → other ≠ .loop host →
      after.count other = world.stack.count other := by
    intro other notPump notLoop
    have before : world.stack.count other = rest.count other := by
      rw [top]
      exact List.count_cons_of_ne (by rcases pump with rfl | rfl <;> exact Ne.symm (by assumption))
    rw [before]
    rcases shape with rfl | rfl
    · rfl
    · exact List.count_cons_of_ne (Ne.symm notLoop)
  have member : ∀ other : Frame n, other ≠ .pump host → other ≠ .loop host → (other ∈ after ↔ other ∈ world.stack) := by
    intro other notPump notLoop
    rw [← List.count_pos_iff,count other notPump notLoop,List.count_pos_iff]
  refine ⟨?_,?_,?_,?_,?_,fun host index sweeping => ?_⟩
  · rw [stays]
    exact sound.lives
  · rw [stays]
    exact sound.books
  · rw [runs]
    exact sound.slots.reframe (fun index => count (.queueCB index) (by simp) (by simp)) fun _ => Iff.rfl
  · rw [waits,runs,pumping_requeue]
    refine ⟨fun other => ?_,fun other some free => ?_,fun other sweeps some inside pumps => ?_⟩
    · by_cases same : other = host
      · subst same
        rw [update_self]
        exact loops
      · rw [update_of_ne same,← sound.pumps.loops other]
        exact count (.loop other) (by simp) (by simpa using same)
    · by_cases same : other = host
      · subst same
        exact full some free
      · have either := sound.pumps.full other some free
        rwa [← member (.pump other) (by simpa using same) (by simp),← member (.loop other) (by simp)
          (by simpa using same)] at either
    · by_cases own : some = .pump host ∨ some = .loop host
      · have same : host = other := by rcases own with rfl | rfl <;> exact pumps
        refine sound.pumps.still other sweeps frame (top ▸ List.mem_cons_self) ?_
        rcases pump with rfl | rfl <;> exact same
      · obtain ⟨notPump,notLoop⟩ := not_or.mp own
        exact sound.pumps.still other sweeps some ((member some notPump notLoop).mp inside) pumps
  · rw [waits]
    exact sound.swept
  · have bare := sound.bare host index sweeping
    rw [top] at bare
    exact absurd bare (List.cons_ne_nil _ _)

theorem Sound.pump (sound : Sound world) (top : world.stack = .pump host::rest) : Sound (world.pump host rest) := by
  have count : rest.count (.loop host) = if world.pumping host then 1 else 0 := by
    rw [← sound.pumps.loops host,top]
    exact (List.count_cons_of_ne (by simp)).symm
  by_cases pumping : world.pumping host = true
  · rw [if_pos pumping] at count
    have inside : .loop host ∈ rest := List.count_pos_iff.mp (by omega)
    have same : world.pump host rest = world.requeue host (world.queues host).queue rest := by
      rw [World.requeue,setQueue_self]
      exact if_pos pumping
    rw [same]
    exact sound.requeue top (.inl rfl) (.inl rfl) rfl rfl (count.trans (if_pos pumping).symm) fun _ _ => .inr inside
  · rw [if_neg pumping] at count
    have same : world.pump host rest =
      world.requeue host { (world.queues host).queue with pumping := true } (.loop host::rest) := if_neg pumping
    rw [same]
    exact sound.requeue top (.inl rfl) (.inr rfl) rfl rfl (by rw [List.count_cons_self,count]; rfl)
      fun _ _ => .inr List.mem_cons_self

theorem Sound.endLoop (sound : Sound world) (top : world.stack = .loop host::rest)
    (full : world.pending host ≠ [] → ¬ world.running host < 16) : Sound (world.endLoop host rest) := by
  have count := sound.pumps.loops host
  rw [top,List.count_cons_self] at count
  refine sound.requeue top (.inr rfl) (.inl rfl) rfl rfl ?_ fun some free => absurd free (full some)
  change rest.count (.loop host) = 0
  split at count <;> omega

end Loops

section Starts

variable {task : QueueTask VerifyTask Empty} {others : List (QueueTask VerifyTask Empty)} {now : ℤ}

theorem Sound.reporting_of_loop (sound : Sound world) (inside : .loop host ∈ world.stack) :
    world.handler.reporting host = none := by
  by_contra some
  exact sound.pumps.still host (Handler.sweeps_of_reporting some) _ inside rfl

theorem pending_taken : (world.taken host others).pending = update world.pending host others := pending_setQueue

theorem running_taken : (world.taken host others).running = update world.running host (world.running host + 1) :=
  running_setQueue

theorem pumping_taken (world : World n) (host : Fin n) (others : List (QueueTask VerifyTask Empty)) :
    (world.taken host others).pumping = world.pumping :=
  pumping_setQueue.trans (update_eq_self host world.pumping)

theorem waiting_taken (sound : Sound world) (inside : .loop host ∈ world.stack)
    (head : world.pending host = task::others) :
    world.waiting = task.data ::ₘ (world.taken host others).waiting := by
  refine (waiting_shift (sound.reporting_of_loop inside) head).trans ?_
  unfold World.waiting
  rw [pending_taken]
  rfl

theorem Sound.taken {verification : Verification n} (above : List (Frame n)) (sound : Sound world)
    (inside : .loop host ∈ world.stack) (head : world.pending host = task::others) (own : verification.host = host)
    (frames : ∀ frame ∈ above, frame = .code ∨ frame = .queueCB world.verifications.length) :
    Pumps (update world.pending host others) (update world.running host (world.running host + 1))
      world.pumping (world.verifications ++ [verification]) (above ++ world.stack) world.handler := by
  refine sound.pumps.keep (fun other => ?_) (fun other some free => .inl ?_) fun other sweeps =>
    ⟨sweeps,fun frame present pumps => ?_⟩
  · have none : above.count (.loop other) = 0 := List.count_eq_zero.mpr fun present => by
      rcases frames _ present with same | same <;> cases same
    rw [List.count_append,none,Nat.zero_add]
  · refine ⟨?_,?_,List.mem_append_right above⟩
    · by_cases same : other = host
      · rw [same,head]
        exact List.cons_ne_nil task others
      · rwa [update_of_ne same] at some
    · by_cases same : other = host
      · subst same
        rw [update_self] at free
        omega
      · rwa [update_of_ne same] at free
  · rcases List.mem_append.mp present with new | old
    · rcases frames frame new with rfl | rfl
      · exact absurd pumps id
      · obtain ⟨entry,found,same⟩ := pumps
        rw [List.getElem?_concat_length] at found
        cases found
        exact ⟨.loop host,inside,own.symm.trans same⟩
    · refine ⟨frame,old,?_⟩
      cases frame with
      | queueCB index =>
        obtain ⟨entry,found,same⟩ := pumps
        rw [List.getElem?_append_left (sound.slots.framed index old)] at found
        exact ⟨entry,found,same⟩
      | _ => exact pumps

section

variable (sound : Sound world)
include sound

theorem Sound.swept_taken (inside : .loop host ∈ world.stack) :
    Swept (world.taken host others).pending world.handler world.reported world.removed := by
  refine sound.swept.update (sound.reporting_of_loop inside) fun other apart => ?_
  rw [pending_taken,update_of_ne apart]

theorem Sound.bare_of_loop (inside : .loop host ∈ world.stack) (other : Fin n) (index : ℕ) :
    world.handler ≠ .sweep other index := by
  intro sweeping
  rw [sound.bare other index sweeping] at inside
  exact absurd inside List.not_mem_nil

theorem Sound.unframed : world.stack.count (.queueCB world.verifications.length) = 0 :=
  List.count_eq_zero.mpr fun inside => Nat.lt_irrefl _ (sound.slots.framed _ inside)

theorem Sound.start (inside : .loop host ∈ world.stack) (head : world.pending host = task::others) :
    Sound { (world.taken host others).decrementMinerAddressVerify task.data.miner_address with
      verifications := world.verifications ++ [opened host task.data] } := by
  have waits := waiting_taken sound inside head
  have calling : ((world.verifications ++ [opened host task.data] : List (Verification n)) :
    Multiset (Verification n)) =
    opened host task.data ::ₘ world.calling := coe_concat _ _
  have lives := sound.lives
  have books := sound.books
  rw [waits] at lives books
  refine ⟨?_,?_,?_,?_,sound.swept_taken inside,fun other index sweeping =>
    absurd sweeping (sound.bare_of_loop inside other index)⟩
  · exact (congrArg (Lives _ _ _ _) calling).mpr lives.start
  · refine (congrArg (Books _ _ _ _) (congrArg verifying calling)).mpr ?_
    rw [verifying_cons_of_pos ⟨rfl,rfl⟩]
    exact books.start
  · refine sound.slots.append ?_ rfl (fun _ _ => rfl)
      (fun index frame => (sound.slots.framed index frame).le) running_taken
    change Served (world.stack.count _) _ _
    rw [sound.unframed]
    exact ⟨Nat.zero_le 1,rfl,fun called => absurd called Bool.false_ne_true,False.elim,
      ⟨Nat.zero_le 1,fun some => absurd some (Nat.lt_irrefl 0)⟩,fun expired => absurd expired Bool.false_ne_true,
      iff_of_true rfl (.inl rfl)⟩
  · have pumps := sound.taken [] inside head (rfl : (opened host task.data).host = host) fun _ none =>
      absurd none List.not_mem_nil
    rw [← pending_taken,← running_taken,← pumping_taken world host others] at pumps
    exact pumps

theorem Sound.lapse (inside : .loop host ∈ world.stack) (head : world.pending host = task::others)
    (result : Payments.Json) (errorKind : Option String) : Sound
      (World.cb { ((world.taken host others).decrementMinerAddressVerify
        task.data.miner_address).releasePearlVerifyBudget task.data with
        verifications := world.verifications ++ [lapsed host task.data]
        stack := .queueCB world.verifications.length::world.stack } task.data result errorKind) := by
  have waits := waiting_taken sound inside head
  have calling : ((world.verifications ++ [lapsed host task.data] : List (Verification n)) :
    Multiset (Verification n)) =
    lapsed host task.data ::ₘ world.calling := coe_concat _ _
  have lives := sound.lives
  have books := sound.books
  rw [waits] at lives books
  refine ⟨?_,?_,?_,?_,sound.swept_taken inside,fun other index sweeping =>
    absurd sweeping (sound.bare_of_loop inside other index)⟩
  · exact (congrArg (Lives _ _ _ _) calling).mpr (lives.lapse rfl)
  · refine (congrArg (Books _ _ _ _) (congrArg verifying calling)).mpr ?_
    rw [verifying_cons_of_neg fun used => absurd used.1.symm Bool.false_ne_true]
    exact books.lapse
  · have above : ∀ index, ((.code::.queueCB world.verifications.length::world.stack : List (Frame n))).count
      (.queueCB index) =
        world.stack.count (.queueCB index) + if index = world.verifications.length then 1 else 0 := by
      intro index
      rw [List.count_cons_of_ne (by simp),List.count_cons]
      refine congrArg _ (if_congr ?_ rfl rfl)
      rw [beq_iff_eq,Frame.queueCB.injEq]
      exact eq_comm
    refine sound.slots.append ?_ rfl (fun index old => (above index).trans ?_) (fun index frame => ?_) running_taken
    · change Served ((.code::.queueCB world.verifications.length::world.stack : List (Frame n)).count _) _ _
      rw [above,sound.unframed,if_pos rfl]
      exact ⟨Nat.zero_le 1,rfl,fun _ => by simp [lapsed],False.elim,⟨le_refl 1,fun _ => rfl⟩,fun _ => ⟨rfl,rfl⟩,
        iff_of_true rfl (.inr (.inr (.inr Nat.one_pos)))⟩
    · rw [if_neg old.ne,Nat.add_zero]
    · rcases List.mem_cons.mp ((List.mem_cons.mp frame).resolve_left (by simp)) with same | old
      · cases same
        exact le_refl _
      · exact (sound.slots.framed index old).le
  · have pumps := sound.taken [.code,.queueCB world.verifications.length] inside head
      (rfl : (lapsed host task.data).host = host) fun frame present => by simpa using present
    rw [← pending_taken,← running_taken,← pumping_taken world host others] at pumps
    exact pumps

theorem Sound.loop (top : world.stack = .loop host::rest) (now : ℤ) : Sound (world.loop host rest now) := by
  have inside : .loop host ∈ world.stack := top ▸ List.mem_cons_self
  have queued : (world.queues host).queue.pending = world.pending host := rfl
  cases head : world.pending host with
  | nil =>
    have same : world.loop host rest now = world.endLoop host rest := by simp only [World.loop,queued,head]
    rw [same]
    exact sound.endLoop top fun some => absurd head some
  | cons task others =>
    by_cases free : world.running host < 16
    · have same : world.loop host rest now = (world.taken host others).verifyShareRemote host task.data now := by
        simp only [World.loop,queued,head]
        exact if_pos free
      rw [same,World.verifyShareRemote]
      split
      · exact sound.lapse inside head _ _
      · exact sound.start inside head
    · have same : world.loop host rest now = world.endLoop host rest := by
        simp only [World.loop,queued,head]
        exact if_neg free
      rw [same]
      exact sound.endLoop top fun _ => free

end

end Starts

section Requests

variable {task : VerifyTask}

private theorem pending_unshift : ((world.reserve task).unshift host task).pending =
    update world.pending host ((world.queues host).queue.task task none::world.pending host) := by
  change (world.setQueue host _).pending = _
  rw [pending_setQueue]
  rfl

private theorem running_unshift : ((world.reserve task).unshift host task).running = world.running := by
  change (world.setQueue host _).running = _
  rw [running_setQueue]
  exact update_eq_self host world.running

private theorem pumping_unshift : ((world.reserve task).unshift host task).pumping = world.pumping := by
  change (world.setQueue host _).pumping = _
  rw [pumping_setQueue]
  exact update_eq_self host world.pumping

theorem Sound.unshift (sound : Sound world) (still : ¬ world.handler.sweeps host)
    (fresh : task.id = world.accepted.length) (charged : task.pearl = true ↔ task.verifyBytes ≠ 0)
    (fitsBytes : world.pearlPendingVerifyBytes + task.verifyBytes ≤ PEARL_PENDING_VERIFY_MAX_BYTES)
    (fitsTasks : world.pearlPendingVerifyTasks + pearlCount task ≤ PEARL_PENDING_VERIFY_MAX_TASKS)
    (top : world.stack ≠ []) : Sound ((world.reserve task).unshift host task) := by
  have quiet : world.handler.reporting host = none := by
    by_contra some
    exact still (Handler.sweeps_of_reporting some)
  have waits : ((world.reserve task).unshift host task).waiting = task ::ₘ world.waiting := by
    have pushed : waiting (update world.pending host ((world.queues host).queue.task task none::world.pending host))
        world.handler = task ::ₘ world.waiting := waiting_push quiet
    exact (congrArg (waiting · world.handler) pending_unshift).trans pushed
  refine ⟨?_,?_,?_,?_,?_,fun other index sweeping => absurd (sound.bare other index sweeping) top⟩
  · rw [waits]
    exact sound.lives.take fresh
  · rw [waits]
    exact sound.books.reserve charged fitsBytes fitsTasks
  · rw [running_unshift]
    exact sound.slots.reframe (fun _ => List.count_cons_of_ne (by simp)) fun _ => Iff.rfl
  · rw [pending_unshift,running_unshift,pumping_unshift]
    refine sound.pumps.keep (fun _ => List.count_cons_of_ne (by simp)) (fun other some free => ?_)
      fun other sweeps => ⟨sweeps,fun frame inside pumps => ?_⟩
    · by_cases same : other = host
      · exact .inr (same ▸ List.mem_cons_self)
      · rw [update_of_ne same] at some
        exact .inl ⟨some,free,List.mem_cons_of_mem _⟩
    · rcases List.mem_cons.mp inside with rfl | inside
      · exact absurd sweeps (pumps ▸ still)
      · exact ⟨frame,inside,pumps⟩
  · rw [pending_unshift]
    exact sound.swept.update quiet fun other apart => update_of_ne apart _ _

end Requests

section Sweeps

variable {task : QueueTask VerifyTask Empty} {now : ℤ}

def World.reporting (world : World n) (host : Fin n) (index : ℕ) (task : QueueTask VerifyTask Empty) : World n :=
  { (world.decrementMinerAddressVerify task.data.miner_address).releasePearlVerifyBudget task.data with
    queues := (world.setQueue host { (world.queues host).queue with
      pending := (world.pending host).set index { task with data := task.data.released } }).queues
    handler := .report host index
    reported := world.reported ++ [task.data.id] }

private theorem pending_reporting : (world.reporting host index task).pending =
    update world.pending host ((world.pending host).set index { task with data := task.data.released }) :=
  pending_setQueue

private theorem running_reporting : (world.reporting host index task).running = world.running :=
  running_setQueue.trans (update_eq_self host world.running)

private theorem pumping_reporting : (world.reporting host index task).pumping = world.pumping :=
  pumping_setQueue.trans (update_eq_self host world.pumping)

section

variable (sound : Sound world)
  (sweeping : world.handler = .sweep host (index + 1))
  (found : (world.pending host)[index]? = some task)
include sound sweeping found

theorem Sound.report (result : Payments.Json) (errorKind : Option String) :
    Sound ((world.reporting host index task).cb task.data result errorKind) := by
  have none := sound.bare host (index + 1) sweeping
  have quiet : world.handler.quiet := sweeping ▸ quiet_sweep
  have waits : world.waiting = task.data ::ₘ (world.reporting host index task).waiting := by
    refine (waiting_report quiet found { task with data := task.data.released }).trans ?_
    unfold World.waiting
    rw [pending_reporting]
    rfl
  have lives := sound.lives
  have books := sound.books
  rw [waits] at lives books
  have here : (world.reporting host index task).pending host =
      (world.pending host).set index { task with data := task.data.released } := by
    rw [pending_reporting,update_self]
  refine ⟨lives.report rfl,books.lapse,?_,?_,?_,fun _ _ other => nomatch other⟩
  · change Slots (world.reporting host index task).running world.verifications (.code::world.stack) (.report host index)
    rw [running_reporting]
    refine sound.slots.reframe (fun _ => List.count_cons_of_ne (by simp)) fun _ => ?_
    rw [sweeping]
    exact iff_of_false not_answers_report not_answers_sweep
  · change Pumps (world.reporting host index task).pending (world.reporting host index task).running
      (world.reporting host index task).pumping world.verifications (.code::world.stack) (.report host index)
    rw [pending_reporting,running_reporting,pumping_reporting]
    refine sound.pumps.keep (fun _ => List.count_cons_of_ne (by simp))
      (fun other some free => .inl ⟨?_,free,List.mem_cons_of_mem _⟩) fun other sweeps =>
      ⟨?_,fun frame inside pumps => ?_⟩
    · by_cases same : other = host
      · subst same
        rw [update_self] at some
        exact fun empty => some (by rw [empty]; rfl)
      · rwa [update_of_ne same] at some
    · obtain ⟨_,other | other⟩ := sweeps <;> cases other
      exact ⟨index + 1,.inl sweeping⟩
    · rw [none,List.mem_singleton] at inside
      subst inside
      exact absurd pumps id
  · refine ⟨{ task with data := task.data.released },?_,?_⟩
    · change ((world.reporting host index task).pending host)[index]? = _
      rw [here]
      exact List.getElem?_set_self (List.getElem?_eq_some_iff.mp found).1
    · change world.reported ++ [task.data.id] = world.removed ++ [task.data.released.id]
      rw [released_id,(swept_quiet quiet).mp sound.swept]

theorem Sound.removeExpired (now : ℤ) : Sound (world.removeExpired host index task now) := by
  unfold World.removeExpired
  split
  · refine sound.reframe world.stack (.sweep host index) (fun _ _ _ => rfl) (.inr ⟨sweeping ▸ quiet_sweep,quiet_sweep⟩)
      (fun _ => ?_) (fun _ sweeps => .inl ?_) fun _ _ _ => sound.bare host (index + 1) sweeping
    · rw [sweeping]
      exact iff_of_false not_answers_sweep not_answers_sweep
    · obtain ⟨_,other | other⟩ := sweeps <;> cases other
      exact ⟨index + 1,.inl sweeping⟩
  · exact sound.report sweeping found _ _

end

theorem Sound.splice (sound : Sound world) (reporting : world.handler = .report host index) (none : world.stack = []) :
    Sound (world.splice host index) := by
  have pend : (world.splice host index).pending = update world.pending host ((world.pending host).eraseIdx index) :=
    pending_setQueue
  have runs : (world.splice host index).running = world.running :=
    running_setQueue.trans (update_eq_self host world.running)
  have pumps : (world.splice host index).pumping = world.pumping :=
    pumping_setQueue.trans (update_eq_self host world.pumping)
  have waits : (world.splice host index).waiting = world.waiting := by
    unfold World.waiting
    rw [pend,reporting]
    exact waiting_splice quiet_sweep
  have swept := sound.swept
  rw [reporting] at swept
  obtain ⟨task,found,reported⟩ := swept
  refine ⟨?_,?_,?_,?_,?_,fun _ _ _ => none⟩
  · rw [waits]
    exact sound.lives
  · rw [waits]
    exact sound.books
  · rw [runs]
    refine sound.slots.reframe (fun _ => rfl) fun _ => ?_
    rw [reporting]
    exact iff_of_false not_answers_sweep not_answers_report
  · rw [pend,runs,pumps]
    refine sound.pumps.keep (fun _ => rfl) (fun other some free => .inl ⟨?_,free,id⟩) fun other sweeps =>
      ⟨?_,fun frame inside _ => ?_⟩
    · by_cases same : other = host
      · subst same
        rw [update_self] at some
        exact fun empty => some (by rw [empty]; rfl)
      · rwa [update_of_ne same] at some
    · obtain ⟨_,other | other⟩ := sweeps <;> cases other
      exact ⟨index,.inr reporting⟩
    · rw [show (world.splice host index).stack = [] from none] at inside
      exact absurd inside List.not_mem_nil
  · change world.reported = world.removed ++ ((world.pending host)[index]?.map fun task => task.data.id).toList
    rw [found,reported]
    rfl

end Sweeps
end NodejsPool.Coins.ShareVerifier
