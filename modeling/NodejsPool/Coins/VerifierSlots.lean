import NodejsPool.Coins.VerifierBooks

/-! The slots of the verifier's queues and the loops that fill them. -/
namespace NodejsPool.Coins.ShareVerifier
open Async Callbacks Function

variable {n : ℕ}

def World.running (world : World n) (host : Fin n) : ℕ := (world.queues host).queue.running

def World.pumping (world : World n) (host : Fin n) : Bool := (world.queues host).queue.pumping

def Handler.answers (handler : Handler n) (index : ℕ) : Prop := ∃ tried, handler = .answer index tried

def Handler.sweeps (handler : Handler n) (host : Fin n) : Prop := ∃ index, handler = .sweep host index ∨
    handler = .report host index

/-- What a call of `verifyShareRemote` keeps, by the frames that have still to call its `queueCB` and
whether the handler has. -/
structure Served (frames : ℕ) (answering : Prop) (verification : Verification n) : Prop where
  once : verification.freed ≤ 1
  timer : verification.timer = !verification.is_cb
  socket : verification.is_cb = true → verification.socket ≠ .connecting
  called : answering → verification.is_cb = true ∧ verification.expired = false
  lapsing : frames ≤ 1 ∧ (0 < frames → verification.expired = true)
  lapsed : verification.expired = true → verification.is_cb = true ∧ verification.compressing = false
  owed : verification.freed = 0 ↔
    verification.is_cb = false ∨ verification.compressing = true ∨ answering ∨ 0 < frames

def busy (host : Fin n) (verification : Verification n) : Prop := verification.host = host ∧ verification.freed = 0

instance (host : Fin n) (verification : Verification n) : Decidable (busy host verification) :=
  inferInstanceAs (Decidable (_ ∧ _))

structure Slots (running : Fin n → ℕ) (verifications : List (Verification n)) (stack : List (Frame n))
    (handler : Handler n) :
    Prop where
  served : ∀ index verification, verifications[index]? = some verification →
    Served (stack.count (.queueCB index)) (handler.answers index) verification
  framed : ∀ index, .queueCB index ∈ stack → index < verifications.length
  answered : ∀ index, handler.answers index → index < verifications.length
  running : ∀ host, running host = (verifications : Multiset (Verification n)).countP (busy host)

def Frame.pumps (verifications : List (Verification n)) (host : Fin n) : Frame n → Prop
  | .pump other => other = host
  | .loop other => other = host
  | .queueCB index => ∃ verification, verifications[index]? = some verification ∧ verification.host = host
  | _ => False

/-- A queue in which tasks wait has no free slot unless its loop runs, and none of its loops runs in its sweep. -/
structure Pumps (pending : Fin n → List (QueueTask VerifyTask Empty)) (running : Fin n → ℕ) (pumping : Fin n → Bool)
    (verifications : List (Verification n)) (stack : List (Frame n)) (handler : Handler n) : Prop where
  loops : ∀ host, stack.count (.loop host) = if pumping host then 1 else 0
  full : ∀ host, pending host ≠ [] → running host < 16 → .pump host ∈ stack ∨ .loop host ∈ stack
  still : ∀ host, handler.sweeps host → ∀ frame ∈ stack, ¬ frame.pumps verifications host

def Swept (pending : Fin n → List (QueueTask VerifyTask Empty)) (handler : Handler n) (reported removed : List ℕ) :
    Prop :=
  match handler with
  | .report host index => ∃ task, (pending host)[index]? = some task ∧ reported = removed ++ [task.data.id]
  | _ => reported = removed

structure Sound (world : World n) : Prop where
  lives : Lives world.accepted world.calls world.reported world.waiting world.calling
  books : Books world.miner_address_verify world.pearlPendingVerifyBytes world.pearlPendingVerifyTasks world.waiting
    (verifying world.calling)
  slots : Slots world.running world.verifications world.stack world.handler
  pumps : Pumps world.pending world.running world.pumping world.verifications world.stack world.handler
  swept : Swept world.pending world.handler world.reported world.removed
  bare : ∀ host index, world.handler = .sweep host index → world.stack = []

section Queues

variable {world : World n} {host : Fin n} {queue : TaskQueue VerifyTask Empty} {health : Health}

theorem pending_setQueue : (world.setQueue host queue).pending = update world.pending host queue.pending := by
  funext other
  unfold World.pending World.setQueue
  by_cases same : other = host
  · subst same
    simp only [update_self]
  · simp only [update_of_ne same]

theorem running_setQueue : (world.setQueue host queue).running = update world.running host queue.running := by
  funext other
  unfold World.running World.setQueue
  by_cases same : other = host
  · subst same
    simp only [update_self]
  · simp only [update_of_ne same]

theorem pumping_setQueue : (world.setQueue host queue).pumping = update world.pumping host queue.pumping := by
  funext other
  unfold World.pumping World.setQueue
  by_cases same : other = host
  · subst same
    simp only [update_self]
  · simp only [update_of_ne same]

theorem queue_setHealth (other : Fin n) : ((world.setHealth host health).queues other).queue =
    (world.queues other).queue := by
  unfold World.setHealth
  by_cases same : other = host
  · subst same
    simp only [update_self]
  · simp only [update_of_ne same]

theorem pending_setHealth : (world.setHealth host health).pending = world.pending :=
  funext fun other => congrArg TaskQueue.pending (queue_setHealth other)

theorem running_setHealth : (world.setHealth host health).running = world.running :=
  funext fun other => congrArg TaskQueue.running (queue_setHealth other)

theorem pumping_setHealth : (world.setHealth host health).pumping = world.pumping :=
  funext fun other => congrArg TaskQueue.pumping (queue_setHealth other)

end Queues

section Slots

variable {running moved : Fin n → ℕ} {verifications : List (Verification n)} {stack after : List (Frame n)}
variable {handler next : Handler n} {verification changed : Verification n} {index : ℕ}

section

variable (slots : Slots running verifications stack handler)
include slots

theorem Slots.reframe (frames : ∀ index, after.count (.queueCB index) = stack.count (.queueCB index))
    (answers : ∀ index, next.answers index ↔ handler.answers index) : Slots running verifications after next := by
  refine ⟨fun index verification found => ?_,fun index inside => ?_,fun index answered => ?_,slots.running⟩
  · rw [frames,propext (answers index)]
    exact slots.served index verification found
  · exact slots.framed index (List.count_pos_iff.mp (frames index ▸ List.count_pos_iff.mpr inside))
  · exact slots.answered index ((answers index).mp answered)

theorem Slots.append (served : Served (after.count (.queueCB verifications.length)) False verification)
    (free : verification.freed = 0)
    (frames : ∀ index < verifications.length, after.count (.queueCB index) = stack.count (.queueCB index))
    (framed : ∀ index, .queueCB index ∈ after → index ≤ verifications.length)
    (runs : moved = update running verification.host (running verification.host + 1)) :
    Slots moved (verifications ++ [verification]) after handler := by
  refine ⟨fun index other found => ?_,fun index inside => ?_,fun index answered => ?_,fun host => ?_⟩
  · by_cases old : index < verifications.length
    · rw [List.getElem?_append_left old] at found
      rw [frames index old]
      exact slots.served index other found
    · have last := (List.getElem?_eq_some_iff.mp found).1
      rw [List.length_append,List.length_singleton] at last
      obtain rfl : index = verifications.length := by omega
      rw [List.getElem?_concat_length] at found
      cases found
      rwa [eq_false fun answered => old (slots.answered _ answered)]
  · rw [List.length_append,List.length_singleton]
    have := framed index inside
    omega
  · rw [List.length_append,List.length_singleton]
    have := slots.answered index answered
    omega
  · rw [coe_concat,runs]
    by_cases same : host = verification.host
    · subst same
      rw [update_self,Multiset.countP_cons_of_pos _ ⟨rfl,free⟩,slots.running]
    · rw [update_of_ne same,Multiset.countP_cons_of_neg _ fun busy => same busy.1.symm,slots.running]

theorem Slots.set (found : verifications[index]? = some verification)
    (served : Served (after.count (.queueCB index)) (next.answers index) changed)
    (frames : ∀ other, other ≠ index → after.count (.queueCB other) = stack.count (.queueCB other))
    (answers : ∀ other, other ≠ index → (next.answers other ↔ handler.answers other))
    (runs : ∀ host, moved host + (if busy host verification then 1 else 0) =
      running host + if busy host changed then 1 else 0) :
      Slots moved (verifications.set index changed) after next := by
  have inside := (List.getElem?_eq_some_iff.mp found).1
  refine ⟨fun other entry found => ?_,fun other frame => ?_,fun other answered => ?_,fun host => ?_⟩
  · by_cases same : other = index
    · subst same
      rw [List.getElem?_set_self inside] at found
      cases found
      exact served
    · rw [List.getElem?_set_ne (Ne.symm same)] at found
      rw [frames other same,propext (answers other same)]
      exact slots.served other entry found
  · rw [List.length_set]
    by_cases same : other = index
    · exact same ▸ inside
    · exact slots.framed other (List.count_pos_iff.mp (frames other same ▸ List.count_pos_iff.mpr frame))
  · rw [List.length_set]
    by_cases same : other = index
    · exact same ▸ inside
    · exact slots.answered other ((answers other same).mp answered)
  · obtain ⟨rest,before,after⟩ := set_cons found
    have sum := runs host
    rw [slots.running,before,Multiset.countP_cons] at sum
    rw [after,Multiset.countP_cons]
    omega

end

end Slots

section Pumps

variable {pending left : Fin n → List (QueueTask VerifyTask Empty)} {running moved : Fin n → ℕ} {pumping : Fin n → Bool}
variable {verifications others : List (Verification n)} {stack after : List (Frame n)} {handler next : Handler n}

def Hosts (verifications others : List (Verification n)) : Prop :=
  ∀ (index : ℕ) (verification : Verification n), others[index]? = some verification →
    ∃ entry : Verification n, verifications[index]? = some entry ∧ entry.host = verification.host

theorem Hosts.set {index : ℕ} {verification changed : Verification n}
    (found : verifications[index]? = some verification)
    (host : changed.host = verification.host) : Hosts verifications (verifications.set index changed) := by
  intro other entry present
  by_cases same : other = index
  · subst same
    rw [List.getElem?_set_self (List.getElem?_eq_some_iff.mp found).1] at present
    cases present
    exact ⟨verification,found,host.symm⟩
  · rw [List.getElem?_set_ne (Ne.symm same)] at present
    exact ⟨entry,present,rfl⟩

theorem Frame.pumps_of_hosts (hosts : Hosts verifications others) {host : Fin n} {frame : Frame n}
    (pumps : frame.pumps others host) : frame.pumps verifications host := by
  cases frame with
  | queueCB index =>
    obtain ⟨verification,found,same⟩ := pumps
    obtain ⟨entry,present,host⟩ := hosts index verification found
    exact ⟨entry,present,host.trans same⟩
  | _ => exact pumps

theorem Pumps.keep (pumps : Pumps pending running pumping verifications stack handler)
    (loops : ∀ host, after.count (.loop host) = stack.count (.loop host))
    (full : ∀ host, left host ≠ [] → moved host < 16 → (pending host ≠ [] ∧ running host < 16 ∧
      (.pump host ∈ stack → .pump host ∈ after)) ∨
      .pump host ∈ after)
    (still : ∀ host, next.sweeps host → handler.sweeps host ∧ ∀ frame ∈ after, frame.pumps others host →
      ∃ frame ∈ stack, frame.pumps verifications host) : Pumps left moved pumping others after next := by
  refine ⟨fun host => (loops host).trans (pumps.loops host),fun host some free =>
    ?_,fun host sweeps frame inside pump => ?_⟩
  · rcases full host some free with ⟨waits,slots,kept⟩ | pump
    · rcases pumps.full host waits slots with pump | loop
      · exact .inl (kept pump)
      · exact .inr (List.count_pos_iff.mp (loops host ▸ List.count_pos_iff.mpr loop))
    · exact .inl pump
  · obtain ⟨swept,other⟩ := still host sweeps
    obtain ⟨frame,inside,pumped⟩ := other frame inside pump
    exact pumps.still host swept frame inside pumped

end Pumps
end NodejsPool.Coins.ShareVerifier
