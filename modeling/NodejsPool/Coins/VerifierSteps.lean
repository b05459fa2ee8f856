import NodejsPool.Coins.VerifierSlots

/-! What each step of the verifier keeps. -/
namespace NodejsPool.Coins.ShareVerifier
open Async Callbacks Function

variable {n : ℕ} {world : World n} {verification changed : Verification n} {index : ℕ} {host : Fin n}

section Handlers

variable {handler next : Handler n} {pending left : Fin n → List (QueueTask VerifyTask Empty)}
    {reported removed : List ℕ}

theorem swept_quiet (quiet : handler.quiet) : Swept pending handler reported removed ↔ reported = removed := by
  cases handler with
  | report host index => exact absurd (quiet host) (by rw [reporting_self]; exact Option.some_ne_none index)
  | _ => exact Iff.rfl

theorem quiet_idle : (Handler.idle : Handler n).quiet := fun _ => rfl

theorem quiet_leaving {tried : Option ℕ} : (Handler.leaving tried : Handler n).quiet := fun _ => rfl

theorem quiet_answer {tried : Bool} : (Handler.answer index tried : Handler n).quiet := fun _ => rfl

theorem quiet_sweep : (Handler.sweep host index).quiet := fun _ => rfl

theorem Handler.quiet_of_answers (answers : handler.answers index) : handler.quiet := by
  obtain ⟨tried,rfl⟩ := answers
  exact quiet_answer

theorem not_answers_idle : ¬ (Handler.idle : Handler n).answers index := fun ⟨_,same⟩ => nomatch same

theorem not_answers_leaving {tried : Option ℕ} : ¬ (Handler.leaving tried : Handler n).answers index :=
  fun ⟨_,same⟩ => nomatch same

theorem not_answers_sweep {place : ℕ} : ¬ (Handler.sweep host place).answers index := fun ⟨_,same⟩ => nomatch same

theorem not_answers_report {place : ℕ} : ¬ (Handler.report host place).answers index := fun ⟨_,same⟩ => nomatch same

def Handler.alike (handler next : Handler n) : Prop := next = handler ∨ handler.quiet ∧ next.quiet

theorem waiting_alike (alike : handler.alike next) : waiting pending next = waiting pending handler := by
  rcases alike with rfl | ⟨before,after⟩
  · rfl
  · rw [waiting_quiet before,waiting_quiet after]

theorem Swept.alike (swept : Swept pending handler reported removed) (alike : handler.alike next) :
    Swept pending next reported removed := by
  rcases alike with rfl | ⟨before,after⟩
  · exact swept
  · exact (swept_quiet after).mpr ((swept_quiet before).mp swept)

theorem Handler.sweeps_of_reporting (some : handler.reporting host ≠ none) : handler.sweeps host := by
  cases handler with
  | report other index =>
    by_cases same : other = host
    · exact ⟨index,.inr (same ▸ rfl)⟩
    · exact absurd (if_neg same) some
  | _ => exact absurd rfl some

theorem Swept.update (swept : Swept pending handler reported removed) (still : handler.reporting host = none)
    (same : ∀ other, other ≠ host → left other = pending other) : Swept left handler reported removed := by
  cases handler with
  | report other index =>
    have apart : other ≠ host :=
      fun equal => absurd still (by rw [equal,reporting_self]; exact Option.some_ne_none index)
    obtain ⟨task,found,rest⟩ := swept
    exact ⟨task,(same other apart) ▸ found,rest⟩
  | _ => exact swept

end Handlers

section Quiet

theorem Sound.setHealth {health : Health} (sound : Sound world) : Sound (world.setHealth host health) := by
  obtain ⟨lives,books,slots,pumps,swept,bare⟩ := sound
  unfold World.waiting at lives books
  have pending : (world.setHealth host health).pending = world.pending := pending_setHealth
  have running : (world.setHealth host health).running = world.running := running_setHealth
  have pumping : (world.setHealth host health).pumping = world.pumping := pumping_setHealth
  rw [← pending] at lives books swept pumps
  rw [← running] at slots pumps
  rw [← pumping] at pumps
  exact ⟨lives,books,slots,pumps,swept,bare⟩

theorem Sound.reframe (sound : Sound world) (after : List (Frame n)) (next : Handler n)
    (frames : ∀ frame : Frame n, frame ≠ .code → frame ≠ .attempt → after.count frame = world.stack.count frame)
    (alike : world.handler.alike next) (answers : ∀ index, next.answers index ↔ world.handler.answers index)
    (sweeps : ∀ host, next.sweeps host → world.handler.sweeps host ∨ world.stack = [])
    (bare : ∀ host index, next = .sweep host index → after = []) :
    Sound { world with stack := after,handler := next } := by
  have member : ∀ frame : Frame n, frame ≠ .code → frame ≠ .attempt → (frame ∈ after ↔ frame ∈ world.stack) := by
    intro frame code attempt
    rw [← List.count_pos_iff,frames frame code attempt,List.count_pos_iff]
  have same : ({ world with stack := after,handler := next } : World n).waiting = world.waiting := waiting_alike alike
  refine ⟨?_,?_,?_,?_,sound.swept.alike alike,bare⟩
  · rw [same]
    exact sound.lives
  · rw [same]
    exact sound.books
  · exact sound.slots.reframe (fun index => frames (.queueCB index) (by simp) (by simp)) answers
  · refine ⟨fun host => ?_,fun host some free => ?_,fun host swept frame inside pumps => ?_⟩
    · rw [frames (.loop host) (by simp) (by simp)]
      exact sound.pumps.loops host
    · rw [member (.pump host) (by simp) (by simp),member (.loop host) (by simp) (by simp)]
      exact sound.pumps.full host some free
    · have before : frame ∈ world.stack :=
        (member frame (by rintro rfl; exact pumps) (by rintro rfl; exact pumps)).mp inside
      rcases sweeps host swept with swept | none
      · exact sound.pumps.still host swept frame before pumps
      · rw [none] at before
        exact absurd before List.not_mem_nil

end Quiet

section Verifications

variable {verifications : List (Verification n)} {rest : Multiset (Verification n)}

theorem verifying_cons_of_pos (free : verification.expired = false ∧ verification.freed = 0) :
    verifying (verification ::ₘ rest) = verification.task ::ₘ verifying rest := by
  unfold verifying
  rw [Multiset.filter_cons_of_pos _ (by exact free),Multiset.map_cons]

theorem verifying_cons_of_neg (done : ¬ (verification.expired = false ∧ verification.freed = 0)) :
    verifying (verification ::ₘ rest) = verifying rest := by
  unfold verifying
  rw [Multiset.filter_cons_of_neg _ (by exact done)]

structure Alike (verification changed : Verification n) : Prop where
  host : changed.host = verification.host
  task : changed.task = verification.task
  expired : changed.expired = verification.expired
  is_cb : changed.is_cb = verification.is_cb
  freed : changed.freed = verification.freed

theorem verifying_congr (task : changed.task = verification.task) (expired : changed.expired = verification.expired)
    (freed : changed.freed = verification.freed) :
    verifying (changed ::ₘ rest) = verifying (verification ::ₘ rest) := by
  by_cases free : verification.expired = false ∧ verification.freed = 0
  · rw [verifying_cons_of_pos free,verifying_cons_of_pos (by rwa [expired,freed]),task]
  · rw [verifying_cons_of_neg free,verifying_cons_of_neg (by rwa [expired,freed])]

theorem busy_congr (host : changed.host = verification.host) (freed : changed.freed = verification.freed)
    (other : Fin n) :
    busy other changed ↔ busy other verification := by
  unfold busy
  rw [host,freed]

theorem Sound.setVerification (sound : Sound world) (found : world.verifications[index]? = some verification)
    (alike : Alike verification changed) (timer : changed.timer = verification.timer)
    (socket : verification.is_cb = true → changed.socket ≠ .connecting)
    (compressing : verification.is_cb = true → changed.compressing = verification.compressing) :
    Sound (world.setVerification index changed) := by
  obtain ⟨rest,before,after⟩ := set_cons found
  have calling : world.calling = verification ::ₘ rest := before
  have next : (world.setVerification index changed).calling = changed ::ₘ rest := after changed
  have served := sound.slots.served index verification found
  refine ⟨?_,?_,?_,?_,sound.swept,sound.bare⟩
  · rw [next]
    exact (calling ▸ sound.lives).keep alike.is_cb (congrArg VerifyTask.id alike.task)
  · rw [next,verifying_congr alike.task alike.expired alike.freed,← calling]
    exact sound.books
  · refine sound.slots.set found ?_ (fun _ _ => rfl) (fun _ _ => Iff.rfl) fun other => ?_
    · refine ⟨?_,?_,?_,?_,?_,?_,?_⟩
      · rw [alike.freed]
        exact served.once
      · rw [timer,alike.is_cb]
        exact served.timer
      · rw [alike.is_cb]
        exact socket
      · rw [alike.is_cb,alike.expired]
        exact served.called
      · rw [alike.expired]
        exact served.lapsing
      · rw [alike.expired,alike.is_cb]
        intro expired
        have lapsed := served.lapsed expired
        exact ⟨lapsed.1,(compressing lapsed.1).trans lapsed.2⟩
      · rw [alike.freed,alike.is_cb,served.owed]
        by_cases called : verification.is_cb = true
        · rw [compressing called]
          rfl
        · simp [called]
    · simp only [busy_congr alike.host alike.freed other]
      rfl
  · exact sound.pumps.keep (fun _ => rfl) (fun _ some free => .inl ⟨some,free,id⟩) fun host sweeps =>
      ⟨sweeps,fun frame inside pumps => ⟨frame,inside,Frame.pumps_of_hosts (.set found alike.host) pumps⟩⟩

def Verification.answered (verification : Verification n) : Verification n :=
    { verification with is_cb := true,timer := false }

def World.answering (world : World n) (index : ℕ) (changed : Verification n) (tried : Bool) (call : Call) : World n :=
  { world with
    verifications := world.verifications.set index changed.answered
    handler := .answer index tried
    stack := .code::world.stack
    calls := world.calls ++ [call] }

theorem return_cb_waits (world : World n) (index : ℕ) (tried : Bool) (result : Payments.Json)
    (errorKind : Option String) (waits : changed.is_cb = false) : ∃ call : Call, call.task = changed.task.id ∧
      (world.setVerification index changed).return_cb index changed tried result errorKind =
        world.answering index changed tried call := by
  refine ⟨⟨changed.task.id,if changed.task.pearl then result else verifierResultToHex result,errorKind⟩,rfl,?_⟩
  rw [World.return_cb,if_neg (Bool.eq_false_iff.mp waits)]
  simp only [World.cb,World.answering,World.setVerification,List.set_set]
  rfl

theorem Sound.answering {tried : Bool} {call : Call} (sound : Sound world) (none : world.stack = [])
    (idle : world.handler = .idle) (found : world.verifications[index]? = some verification)
    (alike : Alike verification changed) (waits : verification.is_cb = false) (socket : changed.socket ≠ .connecting)
    (task : call.task = changed.task.id) : Sound (world.answering index changed tried call) := by
  have served := sound.slots.served index verification found
  obtain ⟨rest,before,after⟩ := set_cons found
  have calling : world.calling = verification ::ₘ rest := before
  have next : (world.answering index changed tried call).calling = changed.answered ::ₘ rest := after changed.answered
  have quiet : world.handler.alike (.answer index tried) := .inr ⟨idle ▸ quiet_idle,quiet_answer⟩
  have stays : (world.answering index changed tried call).waiting = world.waiting := waiting_alike quiet
  have fresh : verification.expired = false := Bool.eq_false_iff.mpr fun expired =>
    Bool.false_ne_true (waits.symm.trans (served.lapsed expired).1)
  have free : verification.freed = 0 := served.owed.mpr (.inl waits)
  have id : changed.answered.task.id = verification.task.id := congrArg VerifyTask.id alike.task
  refine ⟨?_,?_,?_,?_,sound.swept.alike quiet,fun _ _ sweeping => nomatch sweeping⟩
  · rw [stays,next]
    exact (calling ▸ sound.lives).answer waits rfl id (task.trans id)
  · have keeps : verifying (changed.answered ::ₘ rest) = verifying (verification ::ₘ rest) :=
      verifying_congr alike.task alike.expired alike.freed
    rw [stays,next,keeps,← calling]
    exact sound.books
  · refine sound.slots.set found ?_ (fun other _ => List.count_cons_of_ne (by simp))
      (fun other apart => ?_) fun other => ?_
    · refine ⟨alike.freed ▸ served.once,rfl,fun _ => socket,fun _ => ⟨rfl,alike.expired.trans fresh⟩,?_,fun expired =>
        ?_,?_⟩
      · have alone : (world.answering index changed tried call).stack.count (.queueCB index) = 0 :=
          (congrArg (fun stack : List (Frame n) => (.code::stack).count (.queueCB index)) none).trans rfl
        rw [alone]
        exact ⟨Nat.zero_le 1,fun some => absurd some (Nat.lt_irrefl 0)⟩
      · exact absurd ((alike.expired.trans fresh).symm.trans expired) Bool.false_ne_true
      · exact ⟨fun _ => .inr (.inr (.inl ⟨tried,rfl⟩)),fun _ => alike.freed.trans free⟩
    · rw [idle]
      refine ⟨fun ⟨_,same⟩ => ?_,fun ⟨_,same⟩ => nomatch same⟩
      cases same
      exact absurd rfl apart
    · have same : busy other changed.answered ↔ busy other verification := busy_congr alike.host alike.freed other
      exact congrArg _ (if_congr same rfl rfl).symm
  · refine sound.pumps.keep (fun _ => List.count_cons_of_ne (by simp))
      (fun _ some free => .inl ⟨some,free,List.mem_cons_of_mem _⟩) ?_
    rintro host ⟨_,sweeping | sweeping⟩ <;> cases sweeping

theorem Sound.return_cb {tried : Bool} {result : Payments.Json} {errorKind : Option String} (sound : Sound world)
    (none : world.stack = []) (idle : world.handler = .idle) (found : world.verifications[index]? = some verification)
    (alike : Alike verification changed) (timer : verification.is_cb = true → changed.timer = false)
    (socket : changed.socket ≠ .connecting) (compressing : changed.compressing = verification.compressing) :
    Sound ((world.setVerification index changed).return_cb index changed tried result errorKind) := by
  by_cases called : verification.is_cb = true
  · rw [World.return_cb,if_pos (alike.is_cb.trans called)]
    refine sound.setVerification found alike ?_ (fun _ => socket) fun _ => compressing
    rw [timer called,(sound.slots.served index verification found).timer,called]
    rfl
  · have waits := Bool.eq_false_iff.mpr called
    obtain ⟨call,task,same⟩ := return_cb_waits world index tried result errorKind (alike.is_cb.trans waits)
    rw [same]
    exact sound.answering none idle found alike waits socket task

end Verifications

section Slots

variable {running : Fin n → ℕ} {verifications : List (Verification n)} {stack : List (Frame n)} {handler : Handler n}

theorem Slots.freed
    (slots : Slots running verifications stack handler) (found : verifications[index]? = some verification)
    (free : verification.freed = 0) (given : changed.freed ≠ 0) (host : Fin n) :
    update running verification.host (running verification.host - 1) host + (if busy host verification then 1 else 0) =
      running host + if busy host changed then 1 else 0 := by
  rw [if_neg fun used : busy host changed => given used.2]
  by_cases same : host = verification.host
  · subst same
    have some : 0 < running verification.host := by
      rw [slots.running,Multiset.countP_pos]
      exact ⟨verification,List.mem_of_getElem? found,rfl,free⟩
    rw [update_self,if_pos ⟨rfl,free⟩]
    omega
  · rw [update_of_ne same,if_neg fun used : busy host verification => same used.1.symm]

def World.given (world : World n) (index : ℕ) (host : Fin n) (changed : Verification n) (stack : List (Frame n)) :
    World n :=
  { world.setQueue host { (world.queues host).queue with running := world.running host - 1 } with
    verifications := world.verifications.set index changed
    stack := .pump host::stack }

theorem pending_given : (world.given index host changed stack).pending = world.pending := by
  change (world.setQueue host _).pending = _
  rw [pending_setQueue]
  exact update_eq_self host world.pending

theorem running_given : (world.given index host changed stack).running =
    update world.running host (world.running host - 1) := by
  change (world.setQueue host _).running = _
  rw [running_setQueue]

theorem pumping_given : (world.given index host changed stack).pumping = world.pumping := by
  change (world.setQueue host _).pumping = _
  rw [pumping_setQueue]
  exact update_eq_self host world.pumping

theorem waiting_given : (world.given index host changed stack).waiting = world.waiting :=
  congrArg (waiting · world.handler) pending_given

theorem Pumps.given {pending : Fin n → List (QueueTask VerifyTask Empty)} {pumping : Fin n → Bool}
    {rest : List (Frame n)} {next : Handler n} (pumps : Pumps pending running pumping verifications stack handler)
    (found : verifications[index]? = some verification)
    (same : changed.host = verification.host) (loops : ∀ host, rest.count (.loop host) = stack.count (.loop host))
    (kept : ∀ host, .pump host ∈ stack → .pump host ∈ rest)
    (still : ∀ host, next.sweeps host → handler.sweeps host ∧ rest ⊆ stack ∧ .queueCB index ∈ stack) :
    Pumps pending (update running verification.host (running verification.host - 1)) pumping
      (verifications.set index changed) (.pump verification.host::rest) next := by
  refine pumps.keep (fun host => (List.count_cons_of_ne (by simp)).trans (loops host)) (fun host some free => ?_)
    fun host sweeps => ?_
  · by_cases here : host = verification.host
    · exact .inr (here ▸ List.mem_cons_self)
    · rw [update_of_ne here] at free
      exact .inl ⟨some,free,fun pump => List.mem_cons_of_mem _ (kept host pump)⟩
  · obtain ⟨swept,within,frame⟩ := still host sweeps
    refine ⟨swept,fun other inside pump => ?_⟩
    rcases List.mem_cons.mp inside with rfl | inside
    · exact ⟨.queueCB index,frame,verification,found,pump⟩
    · exact ⟨other,within inside,Frame.pumps_of_hosts (.set found same) pump⟩

end Slots

section Finish

variable {rest : List (Frame n)} {tried : Option ℕ}

private theorem queueCB_given : { world with stack := rest }.queueCB index verification =
    world.given index verification.host { verification with freed := verification.freed + 1 } rest := rfl

theorem Sound.queueCB (sound : Sound world) (top : world.stack = .queueCB index::rest)
    (found : world.verifications[index]? = some verification) :
    Sound (World.queueCB { world with stack := rest } index verification) := by
  have served := sound.slots.served index verification found
  rw [top,List.count_cons_self] at served
  have expired := served.lapsing.2 (Nat.succ_pos _)
  have free : verification.freed = 0 := served.owed.mpr (.inr (.inr (.inr (Nat.succ_pos _))))
  have alone : rest.count (.queueCB index) = 0 := by
    have := served.lapsing.1
    omega
  obtain ⟨others,before,after⟩ := set_cons found
  have calling : world.calling = verification ::ₘ others := before
  rw [queueCB_given]
  have next : (world.given index verification.host { verification with freed := verification.freed + 1 } rest).calling =
    { verification with freed := verification.freed + 1 } ::ₘ others := after _
  refine ⟨?_,?_,?_,?_,?_,fun host index sweeping => ?_⟩
  · rw [waiting_given,next]
    exact (calling ▸ sound.lives).keep rfl rfl
  · rw [waiting_given,next,verifying_cons_of_neg (by simp)]
    have books := sound.books
    rwa [calling,verifying_cons_of_neg (by simp [expired])] at books
  · rw [running_given]
    refine sound.slots.set found ?_ (fun other apart => ?_) (fun _ _ => Iff.rfl)
      (sound.slots.freed found free (Nat.succ_ne_zero _))
    · have count : (world.given index verification.host { verification with freed := verification.freed + 1 }
        rest).stack.count (.queueCB index) = 0 := (List.count_cons_of_ne (by simp)).trans alone
      rw [count]
      have lapsed := served.lapsed expired
      refine ⟨by rw [free],served.timer,served.socket,served.called,⟨Nat.zero_le 1,fun _ => expired⟩,served.lapsed,?_⟩
      refine iff_of_false (Nat.succ_ne_zero _) ?_
      rintro (waits | compressing | answering | some)
      · exact Bool.false_ne_true (waits.symm.trans lapsed.1)
      · exact Bool.false_ne_true (lapsed.2.symm.trans compressing)
      · exact Bool.false_ne_true ((served.called answering).2.symm.trans expired)
      · exact Nat.lt_irrefl 0 some
    · rw [top]
      exact (List.count_cons_of_ne (by simp)).trans (List.count_cons_of_ne (by simpa using Ne.symm apart)).symm
  · rw [pending_given,running_given,pumping_given]
    refine sound.pumps.given found rfl ?_ ?_ fun host sweeps => ⟨sweeps,?_⟩
    · intro host
      rw [top]
      exact (List.count_cons_of_ne (by simp)).symm
    · intro host pump
      rw [top] at pump
      exact (List.mem_cons.mp pump).resolve_left (by simp)
    · rw [top]
      exact ⟨List.subset_cons_self _ _,List.mem_cons_self⟩
  · rw [pending_given]
    exact sound.swept
  · have bare := sound.bare host index sweeping
    rw [top] at bare
    exact absurd bare (List.cons_ne_nil _ _)

def Verification.finished (verification : Verification n) : Verification n :=
  { verification with task := verification.task.released,freed := verification.freed + 1 }

private theorem finishTask_given : { world with handler := .leaving tried }.finishTask index verification =
    World.given (World.releasePearlVerifyBudget { world with handler := .leaving tried } verification.task) index
      verification.host verification.finished world.stack := rfl

theorem Sound.finishTask (sound : Sound world) (none : world.stack = [])
    (ready : world.handler = .idle ∨ world.handler.answers index)
    (found : world.verifications[index]? = some verification)
    (alike : Alike verification changed) (done : changed.compressing = false) (called : verification.is_cb = true)
    (fresh : verification.expired = false) (free : verification.freed = 0) (timer : changed.timer = verification.timer)
    (socket : changed.socket = verification.socket) :
    Sound ({ world with handler := .leaving tried }.finishTask index changed) := by
  have served := sound.slots.served index verification found
  have quiet : world.handler.quiet := by
    rcases ready with idle | answers
    · exact idle ▸ quiet_idle
    · exact Handler.quiet_of_answers answers
  have still : world.handler.alike (.leaving tried) := .inr ⟨quiet,quiet_leaving⟩
  obtain ⟨others,before,after⟩ := set_cons found
  have calling : world.calling = verification ::ₘ others := before
  have host := alike.host
  rw [finishTask_given]
  have next : (World.given (World.releasePearlVerifyBudget { world with handler := .leaving tried } changed.task) index
    changed.host changed.finished world.stack).calling = changed.finished ::ₘ others := after _
  have stays : (World.given (World.releasePearlVerifyBudget { world with handler := .leaving tried } changed.task) index
    changed.host changed.finished world.stack).waiting = world.waiting := waiting_given.trans (waiting_alike still)
  have given : changed.finished.freed ≠ 0 := Nat.succ_ne_zero _
  refine ⟨?_,?_,?_,?_,?_,fun _ _ sweeping => nomatch sweeping⟩
  · rw [stays,next]
    exact (calling ▸ sound.lives).keep alike.is_cb (released_id.trans (congrArg VerifyTask.id alike.task))
  · rw [stays,next,verifying_cons_of_neg fun used => given used.2]
    have books := sound.books
    rw [calling,verifying_cons_of_pos ⟨fresh,free⟩] at books
    rw [alike.task]
    exact books.finish
  · rw [running_given,host]
    refine sound.slots.set found ?_ (fun other _ => List.count_cons_of_ne (by simp)) (fun other apart => ?_)
      (sound.slots.freed found free given)
    · have count : (World.given (World.releasePearlVerifyBudget { world with handler := .leaving tried } changed.task)
        index verification.host changed.finished world.stack).stack.count (.queueCB index) = 0 :=
        (congrArg (fun stack : List (Frame n) => (.pump verification.host::stack).count (.queueCB index)) none).trans
          (List.count_cons_of_ne (by simp))
      rw [count]
      have one : changed.finished.freed = 1 := congrArg (· + 1) (alike.freed.trans free)
      refine ⟨le_of_eq one,?_,fun _ => ?_,fun answers => ?_,⟨Nat.zero_le 1,fun some => absurd some (Nat.lt_irrefl 0)⟩,
        fun expired => ?_,iff_of_false given ?_⟩
      · exact timer.trans (served.timer.trans (congrArg not alike.is_cb.symm))
      · exact socket.symm ▸ served.socket called
      · exact absurd answers not_answers_leaving
      · exact absurd ((alike.expired.trans fresh).symm.trans expired) Bool.false_ne_true
      · rintro (waits | compressing | answers | some)
        · exact Bool.false_ne_true (waits.symm.trans (alike.is_cb.trans called))
        · exact Bool.false_ne_true (done.symm.trans compressing)
        · exact not_answers_leaving answers
        · exact Nat.lt_irrefl 0 some
    · refine ⟨fun leaving => absurd leaving not_answers_leaving,fun answers => ?_⟩
      rcases ready with idle | ⟨_,same⟩
      · exact absurd (idle ▸ answers) not_answers_idle
      · rw [same] at answers
        obtain ⟨_,equal⟩ := answers
        cases equal
        exact absurd rfl apart
  · rw [pending_given,running_given,pumping_given,host]
    refine sound.pumps.given found host (fun _ => rfl) (fun _ => id) ?_
    rintro other ⟨_,sweeping | sweeping⟩ <;> cases sweeping
  · rw [pending_given]
    exact sound.swept.alike still

theorem Sound.relinquish {after : List (Frame n)} (sound : Sound world)
    (frames : ∀ frame : Frame n, frame ≠ .code → frame ≠ .attempt → after.count frame = world.stack.count frame)
    (answers : world.handler.answers index) (found : world.verifications[index]? = some verification)
    (compressing : verification.compressing = true) : Sound { world with stack := after,handler := .idle } := by
  have served := sound.slots.served index verification found
  have count : after.count (.queueCB index) = world.stack.count (.queueCB index) := frames _ (by simp) (by simp)
  have still : world.handler.alike .idle := .inr ⟨Handler.quiet_of_answers answers,quiet_idle⟩
  have stays : ({ world with stack := after,handler := .idle } : World n).waiting = world.waiting := waiting_alike still
  have same : world.verifications.set index verification = world.verifications := by
    obtain ⟨inside,here⟩ := List.getElem?_eq_some_iff.mp found
    rw [← here,List.set_getElem_self]
  refine ⟨?_,?_,?_,?_,sound.swept.alike still,fun _ _ sweeping => nomatch sweeping⟩
  · rw [stays]
    exact sound.lives
  · rw [stays]
    exact sound.books
  · have slots : Slots world.running (world.verifications.set index verification) after .idle := by
      refine sound.slots.set found ?_ (fun other _ => frames _ (by simp) (by simp))
        (fun other apart => ?_) (fun _ => rfl)
      · rw [count]
        refine ⟨served.once,served.timer,served.socket,fun idle => absurd idle not_answers_idle,served.lapsing,
          served.lapsed,?_⟩
        exact iff_of_true (served.owed.mpr (.inr (.inl compressing))) (.inr (.inl compressing))
      · refine ⟨fun idle => absurd idle not_answers_idle,fun other => ?_⟩
        obtain ⟨_,one⟩ := answers
        rw [one] at other
        obtain ⟨_,two⟩ := other
        cases two
        exact absurd rfl apart
    rwa [same] at slots
  · have member : ∀ host, .pump host ∈ world.stack → .pump host ∈ after := fun host inside => by
      rw [← List.count_pos_iff,frames _ (by simp) (by simp),List.count_pos_iff]
      exact inside
    refine sound.pumps.keep (fun _ => frames _ (by simp) (by simp))
      (fun host some free => .inl ⟨some,free,member host⟩) ?_
    rintro other ⟨_,sweeping | sweeping⟩ <;> cases sweeping

end Finish
end NodejsPool.Coins.ShareVerifier
