import NodejsPool.Pool.ShareProcessing

/-! What the operations of the trust gate leave alone: a share that is not completed by one of
them is not touched, and none of them credits anything. -/
namespace NodejsPool.Pool.ShareProcessing
open Entries Option

variable {next : Flight} {R : Flight → Flight → Prop} {world after : World} {change : Flight → Flight}

inductive Ended (flight : Flight) : Flight → Prop
  | same : Ended flight flight
  | done (shareAccepted : Option Bool) (running : flight.shareProcessingCompleted = false) :
    Ended flight { flight with
      shareProcessingCompleted := true, stage := .done, replies := flight.replies ++ [shareAccepted] }

theorem Ended.trans {first second third : Flight} (before : Ended first second) (after : Ended second third) :
    Ended first third := by
  cases before with
  | same => exact after
  | done shareAccepted running =>
    cases after with
    | same => exact .done shareAccepted running
    | done _ again => cases again

@[simp] theorem Ended.share {flight : Flight} (ended : Ended flight next) : next.share = flight.share := by
  cases ended <;> rfl

theorem Flight.cancelled_cancelled (flight : Flight) : flight.cancelled.cancelled = flight.cancelled := by
  unfold Flight.cancelled
  by_cases completed : flight.shareProcessingCompleted = true <;> simp [completed]

def Muted (flight next : Flight) : Prop := next = flight ∨ next = flight.cancelled

theorem Muted.trans {first second third : Flight} (before : Muted first second) (after : Muted second third) :
    Muted first third := by
  rcases before with rfl | rfl
  · exact after
  · rcases after with rfl | rfl
    · exact .inr rfl
    · exact .inr first.cancelled_cancelled

theorem Muted.ended {flight : Flight} (muted : Muted flight next) : Ended flight next := by
  rcases muted with rfl | rfl
  · exact .same
  · unfold Flight.cancelled
    split
    · exact .same
    next running => exact .done none (by simpa using running)

def Moves (R : Flight → Flight → Prop) (world after : World) : Prop :=
  after.flights.length = world.flights.length ∧
    ∀ (i : ℕ) (flight : Flight), world.flights[i]? = some flight → ∃ next, after.flights[i]? = some next ∧ R flight next

theorem Moves.back (moves : Moves R world after) {i : ℕ}
    (found : after.flights[i]? = some next) : ∃ flight, world.flights[i]? = some flight ∧ R flight next := by
  obtain ⟨inside,_⟩ := List.getElem?_eq_some_iff.mp found
  have bound : i < world.flights.length := moves.1 ▸ inside
  have here : world.flights[i]? = some world.flights[i] := List.getElem?_eq_getElem bound
  obtain ⟨other,there,related⟩ := moves.2 i _ here
  cases found.symm.trans there
  exact ⟨_,here,related⟩

theorem Moves.mono {S : Flight → Flight → Prop} (moves : Moves R world after)
    (weaker : ∀ flight next, R flight next → S flight next) : Moves S world after := by
  refine ⟨moves.1,?_⟩
  intro i flight found
  obtain ⟨next,there,related⟩ := moves.2 i flight found
  exact ⟨next,there,weaker flight next related⟩

structure Quiet (world after : World) : Prop where
  moves : Moves Muted world after
  credits : after.credits = world.credits
  failed : after.failed = world.failed

theorem Quiet.ended (quiet : Quiet world after) : Moves Ended world after :=
  quiet.moves.mono fun _ _ => Muted.ended

theorem Quiet.refl (world : World) : Quiet world world :=
  ⟨⟨rfl,fun _ flight found => ⟨flight,found,.inl rfl⟩⟩,rfl,rfl⟩

theorem Quiet.trans {first second third : World} (before : Quiet first second) (after : Quiet second third) :
    Quiet first third := by
  refine ⟨⟨after.moves.1.trans before.moves.1,?_⟩,after.credits.trans before.credits,after.failed.trans before.failed⟩
  intro i flight found
  obtain ⟨middle,there,muted⟩ := before.moves.2 i flight found
  obtain ⟨last,here,again⟩ := after.moves.2 i middle there
  exact ⟨last,here,muted.trans again⟩

theorem Quiet.of_eq (flights : after.flights = world.flights) (credits : after.credits = world.credits)
    (failed : after.failed = world.failed) : Quiet world after :=
  ⟨⟨by rw [flights],fun _ flight found => ⟨flight,by rw [flights,found],.inl rfl⟩⟩,credits,failed⟩

theorem getElem?_update {share i : ℕ} : (world.update share change).flights[i]? =
      if share = i then world.flights[i]?.map change else world.flights[i]? := by
  unfold World.update
  rw [List.getElem?_modify]
  by_cases same : share = i <;> simp [same]

theorem Moves.update {changed : World} {share : ℕ}
    (same : changed.flights = world.flights) (refl : ∀ flight, R flight flight)
    (changes : ∀ flight, world.flights[share]? = some flight → R flight (change flight)) :
    Moves R world (changed.update share change) := by
  refine ⟨by rw [World.update,List.length_modify,same],?_⟩
  intro i flight found
  rw [getElem?_update,same]
  by_cases here : share = i
  · subst here
    exact ⟨change flight,by rw [if_pos rfl,found,map_some],changes flight found⟩
  · exact ⟨flight,by rw [if_neg here,found],refl flight⟩

theorem getElem?_update_self {share : ℕ} {flight : Flight}
    (found : world.flights[share]? = some flight) : (world.update share change).flights[share]? =
      some (change flight) := by
  rw [getElem?_update,if_pos rfl,found,map_some]

theorem cancel_quiet (share : ℕ) (world : World) : Quiet world (cancel share world) :=
  ⟨.update rfl (fun _ => .inl rfl) fun _ _ => .inr rfl,rfl,rfl⟩

section Gates

variable (trustKey payout : String) (change : Gate → Gate) (world : World)

@[simp] theorem updateGate_flights : (updateGate trustKey change world).flights = world.flights := by
  unfold updateGate
  split <;> rfl

@[simp] theorem updateGate_credits : (updateGate trustKey change world).credits = world.credits := by
  unfold updateGate
  split <;> rfl

@[simp] theorem updateGate_failed : (updateGate trustKey change world).failed = world.failed := by
  unfold updateGate
  split <;> rfl

@[simp] theorem getTrustVerificationGate_flights :
    (getTrustVerificationGate trustKey payout world).flights = world.flights := by
  unfold getTrustVerificationGate
  split <;> rfl

@[simp] theorem getTrustVerificationGate_credits :
    (getTrustVerificationGate trustKey payout world).credits = world.credits := by
  unfold getTrustVerificationGate
  split <;> rfl

@[simp] theorem getTrustVerificationGate_failed :
    (getTrustVerificationGate trustKey payout world).failed = world.failed := by
  unfold getTrustVerificationGate
  split <;> rfl

theorem updateGate_quiet : Quiet world (updateGate trustKey change world) :=
  .of_eq (updateGate_flights ..) (updateGate_credits ..) (updateGate_failed ..)

end Gates

theorem foldl_cancel_quiet (queue : List Entry) (world : World) : Quiet world (queue.foldl (fun world entry =>
      cancel entry.share { world with trustedQueuedBytes := world.trustedQueuedBytes - entry.retainedBytes })
      world) := by
  induction queue generalizing world with
  | nil => exact .refl world
  | cons entry queue ih =>
    have released : Quiet world { world with trustedQueuedBytes := world.trustedQueuedBytes - entry.retainedBytes } :=
      .of_eq rfl rfl rfl
    exact (released.trans (cancel_quiet entry.share _)).trans (ih _)

theorem drainTrustedQueue_quiet (moment : Moment) (trustKey : String) (world : World) :
    Quiet world (drainTrustedQueue moment trustKey world) := by
  unfold drainTrustedQueue
  cases get world.gates trustKey with
  | none => exact .refl world
  | some gate =>
    simp only
    split
    · exact .refl world
    · split
      · have erased : Quiet world { world with gates := erase world.gates trustKey } := .of_eq rfl rfl rfl
        exact erased.trans (foldl_cancel_quiet gate.queue _)
      · split
        · exact .of_eq rfl rfl rfl
        · exact .of_eq rfl rfl rfl

private theorem finishTrustVerification_quiet (moment : Moment) (trustKey : String) (world : World) :
    Quiet world (finishTrustVerification moment trustKey world) :=
  (updateGate_quiet trustKey _ world).trans (drainTrustedQueue_quiet moment trustKey _)

theorem onQueuedShareProcessed_quiet (moment : Moment) (trustKey : String) (completion : Completion) (world : World) :
    Quiet world (onQueuedShareProcessed moment trustKey completion world) := by
  unfold onQueuedShareProcessed
  cases get world.gates trustKey with
  | none => exact .of_eq rfl rfl rfl
  | some gate =>
    simp only
    split
    · exact .of_eq rfl rfl rfl
    · refine Quiet.trans ?_ (drainTrustedQueue_quiet moment trustKey _)
      exact .of_eq rfl rfl rfl

theorem releaseVerification_quiet (moment : Moment) (flight : Flight) (world : World) :
    Quiet world (releaseVerification moment flight world) := by
  unfold releaseVerification
  split
  · exact finishTrustVerification_quiet moment flight.share.trustKey world
  · exact .refl world

theorem releaseEntry_quiet (moment : Moment) (flight : Flight) (world : World) :
    Quiet world (releaseEntry moment flight world) := by
  unfold releaseEntry
  split
  · exact .refl world
  · exact onQueuedShareProcessed_quiet moment flight.share.trustKey _ world

@[simp] theorem noteFailure_flights (flight : Flight) (shareAccepted : Option Bool) (world : World) :
    (noteFailure flight shareAccepted world).flights = world.flights := by
  unfold noteFailure markTrustVerificationFailed
  simp only
  split <;> split <;> simp

@[simp] theorem noteFailure_credits (flight : Flight) (shareAccepted : Option Bool) (world : World) :
    (noteFailure flight shareAccepted world).credits = world.credits := by
  unfold noteFailure markTrustVerificationFailed
  simp only
  split <;> split <;> simp

theorem finishShareProcessing_moves (moment : Moment) (share : ℕ) (shareAccepted : Option Bool) (world : World) :
    Moves Ended world (finishShareProcessing moment share shareAccepted world) ∧
      (finishShareProcessing moment share shareAccepted world).credits = world.credits := by
  unfold finishShareProcessing
  cases found : world.flights[share]? with
  | none => exact ⟨(Quiet.refl world).ended,rfl⟩
  | some flight =>
    simp only
    split
    · exact ⟨(Quiet.refl world).ended,rfl⟩
    next running =>
      have completed : Moves Ended world (complete share shareAccepted world) := by
        refine .update rfl (fun _ => .same) fun other here => ?_
        cases found.symm.trans here
        exact .done shareAccepted (by simpa using running)
      have released := (releaseVerification_quiet moment flight
        (noteFailure flight shareAccepted (complete share shareAccepted world))).trans
        (releaseEntry_quiet moment flight _)
      refine ⟨⟨?_,?_⟩,released.credits.trans (noteFailure_credits ..)⟩
      · rw [released.moves.1,noteFailure_flights,completed.1]
      · intro i before here
        obtain ⟨middle,there,ended⟩ := completed.2 i before here
        obtain ⟨last,after,again⟩ := released.ended.2 i middle (by rw [noteFailure_flights,there])
        exact ⟨last,after,ended.trans again⟩

theorem finishShareProcessing_completes (moment : Moment) (share : ℕ) (shareAccepted : Option Bool)
    (there : (finishShareProcessing moment share shareAccepted world).flights[share]? = some next) :
    next.shareProcessingCompleted = true := by
  unfold finishShareProcessing at there
  cases found : world.flights[share]? with
  | none =>
    rw [found] at there
    simp only at there
    rw [there] at found
    cases found
  | some flight =>
    rw [found] at there
    simp only at there
    split at there
    next completed =>
      cases found.symm.trans there
      exact completed
    · have released := (releaseVerification_quiet moment flight
        (noteFailure flight shareAccepted (complete share shareAccepted world))).trans
        (releaseEntry_quiet moment flight _)
      obtain ⟨middle,here,ended⟩ := released.ended.back there
      rw [noteFailure_flights,complete,getElem?_update,if_pos rfl,found,map_some] at here
      cases here
      cases ended with
      | same => rfl
      | done _ running => cases running

theorem verifyShareCB_cases (found : world.flights[share]? = some flight) (moment : Moment) (verified : Verified) :
    ∃ blocks credits, let recorded : World := { world with blocks, credits }
      ((judge moment flight.share verified).1 = .testSubmit ∧
        verifyShareCB moment share verified world = recorded.setStage share (.testSubmitting false)) ∨
      ∃ shareAccepted, verifyShareCB moment share verified world = finishShareProcessing moment share
        shareAccepted recorded := by
  cases judged : judge moment flight.share verified with
  | mk judgement blocks =>
    simp only [verifyShareCB,found,judged]
    cases judgement with
    | reject | record => exact ⟨_,_,.inr ⟨_,rfl⟩⟩
    | testSubmit => exact ⟨_,_,.inl ⟨rfl,rfl⟩⟩

def Started (flight next : Flight) : Prop := next = flight ∨ next = { flight with walletVerificationStarted := true }

@[simp] theorem startAsyncVerification_credits (share : ℕ) (world : World) :
    (startAsyncVerification share world).credits = world.credits := by
  unfold startAsyncVerification
  split
  · rfl
  · split
    · rfl
    · simp [World.update]

theorem startAsyncVerification_moves (share : ℕ) (world : World) :
    Moves Started world (startAsyncVerification share world) := by
  have same : Moves Started world world := ⟨rfl,fun _ flight found => ⟨flight,found,.inl rfl⟩⟩
  unfold startAsyncVerification
  split
  · exact same
  · split
    · exact same
    · have started : Moves Started world
          (world.update share fun flight => { flight with walletVerificationStarted := true }) :=
        .update rfl (fun _ => .inl rfl) fun _ _ => .inr rfl
      refine ⟨by rw [updateGate_flights,getTrustVerificationGate_flights,started.1],fun i before here => ?_⟩
      rw [updateGate_flights,getTrustVerificationGate_flights]
      exact started.2 i before here

def Queued (flight next : Flight) : Prop := next = flight ∨
    ∃ failures, next = { flight with stage := .waiting, queuedAt := failures }

theorem pushEntry_moves (share : ℕ) (trustKey : String) (retainedBytes : ℕ) (world : World) :
    Moves Queued world (pushEntry share trustKey retainedBytes world) :=
  .update (updateGate_flights ..) (fun _ => .inl rfl) fun _ _ => .inr ⟨_,rfl⟩

@[simp] theorem pushEntry_credits (share : ℕ) (trustKey : String) (retainedBytes : ℕ) (world : World) :
    (pushEntry share trustKey retainedBytes world).credits = world.credits := by
  simp [pushEntry,World.update]

section Steps

variable {baseDiff : ℕ} {slowHash : String → String}

def World.arrive (world : World) (arriving : Share) : World :=
  { world with flights := world.flights ++ [newFlight arriving] }

def World.hear (world : World) (share : ℕ) (reply : SubmitReply) : World :=
  world.update share fun flight => { flight with submits := flight.submits ++ [reply] }

def Drain.begin (drain : Drain) (flight : Flight) : Flight :=
  { flight with
    forceVerifyTrusted := drain.forceVerify
    isQueuedTrustedShare := true
    queuedShareCompletion := some ⟨drain.gate,drain.entry.retainedBytes⟩
    stage := .running }

def World.dequeue (world : World) (callback : ℕ) (drain : Drain) : World :=
  { world with drains := world.drains.eraseIdx callback }.update drain.entry.share drain.begin

section

variable (baseDiff : ℕ) (slowHash : String → String) (world : World)

/-- What a step can do, one case for each way through the code that runs until the next callback. -/
inductive Moved : Label → World → Prop
  | rejects (moment : Moment) (arriving : Share) : Moved (.submit moment arriving)
    (finishShareProcessing moment ((world.arrive arriving).flights.length - 1) none (world.arrive arriving))
  | begins (moment : Moment) (arriving : Share) : Moved (.submit moment arriving)
    (resumeShareProcessing baseDiff moment ((world.arrive arriving).flights.length - 1) (world.arrive arriving))
  | retries {share retriesLeft : ℕ} {flight : Flight} {check : Check} (moment : Moment) (answer : HashAnswer)
    (found : world.flights[share]? = some flight) (stage : flight.stage = .hashing check retriesLeft)
    (left : 0 < retriesLeft) :
    Moved (.answer moment share answer) (world.setStage share (.retrying check (retriesLeft - 1)))
  | answers {share retriesLeft : ℕ} {flight : Flight} {check : Check} (moment : Moment) (answer heard : HashAnswer)
    (found : world.flights[share]? = some flight) (stage : flight.stage = .hashing check retriesLeft) :
    Moved (.answer moment share answer)
      (carryOut moment share (onHash baseDiff slowHash moment flight.share heard check) world)
  | asks {share retriesLeft : ℕ} {flight : Flight} {check : Check} (found : world.flights[share]? = some flight)
    (stage : flight.stage = .retrying check retriesLeft) :
    Moved (.retry share) (world.setStage share (.hashing check retriesLeft))
  | resubmits {share : ℕ} {flight : Flight} {hash : ResultHash} {trusted : Bool} (moment : Moment)
    (reply : SubmitReply) (found : world.flights[share]? = some flight)
    (stage : flight.stage = .submitting hash trusted false) :
    Moved (.daemon moment share reply) ((world.hear share reply).setStage share (.submitting hash trusted true))
  | submitted {share : ℕ} {flight : Flight} {hash : ResultHash} {trusted resubmitted : Bool} (moment : Moment)
    (reply : SubmitReply) (found : world.flights[share]? = some flight)
    (stage : flight.stage = .submitting hash trusted resubmitted) : Moved (.daemon moment share reply)
      (carryOut moment share (onSubmitted baseDiff moment hash trusted (reply = .accepted)) (world.hear share reply))
  | retests {share : ℕ} {flight : Flight} (moment : Moment) (reply : SubmitReply)
    (found : world.flights[share]? = some flight) (stage : flight.stage = .testSubmitting false) :
    Moved (.daemon moment share reply) ((world.hear share reply).setStage share (.testSubmitting true))
  | tested {share : ℕ} {flight : Flight} {resubmitted : Bool} (moment : Moment) (reply : SubmitReply)
    (found : world.flights[share]? = some flight) (stage : flight.stage = .testSubmitting resubmitted) :
    Moved (.daemon moment share reply) (finishShareProcessing moment share (some true) (world.hear share reply))
  | delivers {share : ℕ} {flight : Flight} (moment : Moment) {verified : Verified}
    (found : world.flights[share]? = some flight) (stage : flight.stage = .delayed verified) :
    Moved (.delay moment share) (verifyShareCB moment share verified world)
  | drains (moment : Moment) {callback : ℕ} {drain : Drain} (due : world.drains[callback]? = some drain) :
    Moved (.drain moment callback)
      (resumeShareProcessing baseDiff moment drain.entry.share (world.dequeue callback drain))

end

private theorem asksAgain_first {judged : Share} {reply : SubmitReply} {resubmitted : Bool}
    (again : asksAgain judged reply resubmitted = true) : resubmitted = false := by
  unfold asksAgain at again
  simpa using (Bool.and_eq_true_iff.mp again).1

theorem step_moved {label : Label} (moved : step baseDiff slowHash world label = some after) :
    Moved baseDiff slowHash world label after := by
  cases label with
  | submit moment arriving =>
    cases moved
    unfold processShare
    dsimp only
    split
    · exact .rejects moment arriving
    · exact .begins moment arriving
  | answer moment share answer =>
    obtain ⟨flight,found,moved⟩ := bind_eq_some_iff.mp moved
    split at moved
    next check retriesLeft stage =>
      split at moved
      · split at moved
        next left =>
          cases moved
          exact .retries moment answer found stage left
        · cases moved
          exact .answers moment answer .null found stage
      · cases moved
        exact .answers moment answer answer found stage
    · cases moved
  | retry share =>
    obtain ⟨flight,found,moved⟩ := bind_eq_some_iff.mp moved
    split at moved
    next stage =>
      cases moved
      exact .asks found stage
    · cases moved
  | daemon moment share reply =>
    obtain ⟨flight,found,moved⟩ := bind_eq_some_iff.mp moved
    dsimp only at moved
    split at moved
    next stage =>
      split at moved
      next again =>
        cases moved
        obtain rfl := asksAgain_first again
        exact .resubmits moment reply found stage
      · cases moved
        exact .submitted moment reply found stage
    next stage =>
      split at moved
      next again =>
        cases moved
        obtain rfl := asksAgain_first again
        exact .retests moment reply found stage
      · cases moved
        exact .tested moment reply found stage
    · cases moved
  | delay moment share =>
    obtain ⟨flight,found,moved⟩ := bind_eq_some_iff.mp moved
    split at moved
    next stage =>
      cases moved
      exact .delivers moment found stage
    · cases moved
  | drain moment callback =>
    obtain ⟨drain,due,moved⟩ := bind_eq_some_iff.mp moved
    cases moved
    exact .drains moment due

@[simp] theorem getElem?_arrive {arriving : Share} :
    (world.arrive arriving).flights[(world.arrive arriving).flights.length - 1]? = some (newFlight arriving) := by
  simp [World.arrive]

theorem getElem?_hear {share : ℕ} {flight : Flight} (reply : SubmitReply)
    (found : world.flights[share]? = some flight) :
    (world.hear share reply).flights[share]? = some { flight with submits := flight.submits ++ [reply] } :=
  getElem?_update_self found

theorem getElem?_dequeue {callback : ℕ} {drain : Drain} {flight : Flight}
    (found : world.flights[drain.entry.share]? = some flight) :
    (world.dequeue callback drain).flights[drain.entry.share]? = some (drain.begin flight) := getElem?_update_self found

end Steps

end NodejsPool.Pool.ShareProcessing
