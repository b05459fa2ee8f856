import NodejsPool.Pool.GateProgress

/-! A verifier that throws as it is called. The trust gate then counts a verification that no callback
ends, and the shares behind it are not completed any more. -/
namespace NodejsPool.Pool.ShareProcessing
open Async Entries Option List

variable {world after : World} {baseDiff : ℕ} {slowHash : String → String} {flight next : Flight} {moment : Moment}
  {share : ℕ} {plan : Plan}

/-- A callback, or a submit in which `slowHashAsync` throws. The handler of the miner's socket catches
that; out of any other callback it would end the process. -/
inductive Event where
  | label (label : Label)
  | throws (moment : Moment) (share : Share)

section Throwing

variable (baseDiff : ℕ) (slowHash : String → String)

/-- `startAsyncVerification` has counted the verification whose callback is never called. -/
def throwShare (moment : Moment) (share : Share) (world : World) : Option World :=
  if isThrottled moment then none
  else match verifyShare baseDiff moment (newFlight share) (isBusy share.trustKey world) with
    | .hash _ _ => some (startAsyncVerification world.flights.length { world with flights := world.flights ++
      [newFlight share] })
    | _ => none

def throwingStep (world : World) : Event → Option World
  | .label label => step baseDiff slowHash world label
  | .throws moment share => throwShare baseDiff moment share world

def throwing : Machine World Event where
  initial world := world = fresh
  step := throwingStep baseDiff slowHash

/-- A share with this plan waits for the delay of its acceptance or for the daemon in test mode,
without a verification. -/
def Plan.waits (moment : Moment) (share : Share) : Plan → Bool
  | .trust verified => moment.lastSlowHashAsyncDelay ≠ 0 || (judge moment share verified).1 = .testSubmit
  | .accept verified => (judge moment share verified).1 = .testSubmit
  | _ => false

/-- No verifier throws, and no share that is drained is made to wait. -/
def Completes (world : World) : Event → Prop
  | .throws _ _ => False
  | .label (.drain moment callback) => ∀ drain flight, world.drains[callback]? = some drain →
      world.flights[drain.entry.share]? = some flight →
      (verifyShare baseDiff moment (drain.begin flight)
        (isBusy flight.share.trustKey (world.dequeue callback drain))).waits moment flight.share = false
  | .label _ => True

structure Accounted (world : World) : Prop where
  inFlight : ∀ trustKey, (gateOf world trustKey).inFlight = tally (verifying trustKey) world
  queuedBytes : ∀ trustKey, (gateOf world trustKey).queuedBytes = queueBytes (gateOf world trustKey).queue +
    scheduledBytes trustKey world.drains + tally (drainedBytes trustKey) world
  fits : ∀ trustKey, (gateOf world trustKey).queuedBytes ≤ TRUSTED_QUEUE_KEY_MAX_RETAINED_BYTES
  totals : (world.trustedQueuedBytes : ℤ) = total (fun gate : Gate => (gate.queuedBytes : ℤ)) world.gates
  fitsAll : world.trustedQueuedBytes ≤ TRUSTED_QUEUE_MAX_RETAINED_BYTES
  once : ∀ flight ∈ world.flights, flight.replies.length ≤ 1
  ends : Acc (fun after world => Callback baseDiff slowHash world after) world
  completed : (∀ after, ¬Callback baseDiff slowHash world after) → ∀ flight ∈ world.flights, flight.replies.length = 1
  moves : ∀ trustKey, (gateOf world trustKey).queue ≠ [] → (gateOf world trustKey).inFlight ≠ 0 ∨
    ∃ drain ∈ world.drains, drain.trustKey = trustKey

end Throwing

section Attending

/-- A drained share is completed or verified. -/
def Attended (flight : Flight) : Prop :=
  flight.queuedShareCompletion.isSome = true → flight.shareProcessingCompleted = false →
    flight.walletVerificationStarted = true

def AllAttended (world : World) : Prop := ∀ (i : ℕ) (flight : Flight), world.flights[i]? = some flight → Attended flight

private theorem Attended.ended (attended : Attended flight) (ended : Ended flight next) : Attended next := by
  cases ended with
  | same => exact attended
  | done _ _ =>
    intro _ completed
    cases completed

private theorem attended_moves {R : Flight → Flight → Prop} (moves : Moves R world after)
    (beside : ∀ (i : ℕ) (flight : Flight), i ≠ share → world.flights[i]? = some flight → Attended flight)
    (keeps : ∀ flight next, R flight next → Attended flight → Attended next)
    (own : ∀ next, after.flights[share]? = some next → Attended next) : AllAttended after := by
  intro i next there
  by_cases here : i = share
  · exact own next (here ▸ there)
  · obtain ⟨flight,found,related⟩ := moves.back there
    exact keeps flight next related (beside i flight here found)

variable (beside : ∀ (i : ℕ) (flight : Flight), i ≠ share → world.flights[i]? = some flight → Attended flight)
include beside

private theorem finish_attended (moment : Moment) (shareAccepted : Option Bool) :
    AllAttended (finishShareProcessing moment share shareAccepted world) := by
  refine attended_moves (finishShareProcessing_moves moment share shareAccepted world).1 beside
    (fun _ _ ended attended => attended.ended ended) fun next there _ completed => ?_
  rw [finishShareProcessing_completes moment share shareAccepted there] at completed
  cases completed

private theorem setStage_attended (stage : Stage) (own : ∀ flight, world.flights[share]? = some flight →
      Attended flight) :
    AllAttended (world.setStage share stage) := by
  intro i next there
  rw [World.setStage,getElem?_update] at there
  split at there
  next here =>
    subst here
    obtain ⟨flight,found,rfl⟩ := map_eq_some_iff.mp there
    exact own flight found
  next apart => exact beside i next (Ne.symm apart) there

private theorem verifyShareCB_attended (found : world.flights[share]? = some flight) (verified : Verified)
    (own : Attended flight ∨ (judge moment flight.share verified).1 ≠ .testSubmit) :
    AllAttended (verifyShareCB moment share verified world) := by
  obtain ⟨blocks,credits,⟨tested,same⟩ | ⟨shareAccepted,same⟩⟩ :=
    verifyShareCB_cases found moment verified <;> rw [same]
  · refine setStage_attended (by exact beside) _ fun other here => ?_
    cases found.symm.trans here
    exact own.resolve_right fun other => other tested
  · exact finish_attended (by exact beside) moment shareAccepted

private theorem start_attended (found : world.flights[share]? = some flight) (stage : Stage) :
    AllAttended ((startAsyncVerification share world).setStage share stage) := by
  have moves := startAsyncVerification_moves share world
  refine setStage_attended (fun i next apart there => ?_) stage fun next there => ?_
  · obtain ⟨before,here,same | same⟩ := moves.back there
    · exact same ▸ beside i before apart here
    · rw [same]
      exact fun _ _ => rfl
  · intro _ _
    by_cases started : flight.walletVerificationStarted
    · simp only [startAsyncVerification,found,started,if_true] at there
      cases there
      exact started
    · rw [startAsyncVerification_eq found (by simpa using started),getElem?_update,if_pos rfl] at there
      obtain ⟨before,_,rfl⟩ := map_eq_some_iff.mp there
      rfl

private theorem carryOut_attended (found : world.flights[share]? = some flight)
    (own : Attended flight ∨ plan.waits moment flight.share = false ∧ plan ≠ .enqueue) :
    AllAttended (carryOut moment share plan world) := by
  cases plan with
  | finish outcome => exact finish_attended beside moment outcome
  | accept verified => exact verifyShareCB_attended beside found verified (own.imp_right
    fun passes => by simpa [Plan.waits] using passes.1)
  | enqueue =>
    have attended := own.resolve_right fun passes => passes.2 rfl
    simp only [carryOut,enqueueTrustedShare,found]
    have same := getTrustVerificationGate_flights flight.share.trustKey flight.share.payout world
    split
    · exact finish_attended (by rwa [same]) moment none
    · have pushed := pushEntry_moves share flight.share.trustKey flight.share.retainedBytes
        (getTrustVerificationGate flight.share.trustKey flight.share.payout world)
      have keeps (before next : Flight) (queued : Queued before next) (attended : Attended before) : Attended next := by
        rcases queued with rfl | ⟨failures,rfl⟩ <;> exact attended
      refine attended_moves pushed (by rwa [same]) keeps fun next there => ?_
      obtain ⟨before,here,queued⟩ := pushed.back there
      rw [same] at here
      cases found.symm.trans here
      exact keeps flight next queued attended
  | trust verified =>
    simp only [carryOut]
    split
    next delays =>
      refine setStage_attended beside _ fun other here => ?_
      cases found.symm.trans here
      exact own.resolve_right fun passes => by simp [Plan.waits,delays] at passes
    · refine verifyShareCB_attended beside found verified (own.imp_right fun passes => ?_)
      simp [Plan.waits] at passes
      tauto
  | hash check retries | submit hash trusted => exact start_attended beside found _

private theorem resume_attended (found : world.flights[share]? = some flight)
    (own : Attended flight ∨ (verifyShare baseDiff moment flight (isBusy flight.share.trustKey world)).waits moment
      flight.share = false ∧ verifyShare baseDiff moment flight (isBusy flight.share.trustKey world) ≠ .enqueue) :
    AllAttended (resumeShareProcessing baseDiff moment share world) := by
  simp only [resumeShareProcessing,found]
  refine carryOut_attended (fun i other apart here => ?_) (getElem?_update_self found) own
  rw [getElem?_update,if_neg apart.symm] at here
  exact beside i other apart here

end Attending

section Runs

private theorem attended_step {label : Label} (rest : AtRest world) (attended : AllAttended world)
    (completes : Completes baseDiff world (.label label)) (moved : step baseDiff slowHash world label = some after) :
    AllAttended after := by
  have arrived (arriving : Share) : AllAttended (world.arrive arriving) := by
    intro i flight found
    rcases mem_append.mp (List.mem_of_getElem? found) with old | new
    · obtain ⟨j,here⟩ := List.mem_iff_getElem?.mp old
      exact attended j flight here
    · obtain rfl := List.mem_singleton.mp new
      intro none
      cases none
  have heard (share : ℕ) (reply : SubmitReply) : AllAttended (world.hear share reply) := by
    intro i next there
    rw [World.hear,getElem?_update] at there
    split at there
    · obtain ⟨flight,found,rfl⟩ := map_eq_some_iff.mp there
      exact attended i flight found
    · exact attended i next there
  have others {changed : World} {share : ℕ} (all : AllAttended changed) :
      ∀ (i : ℕ) (flight : Flight), i ≠ share → changed.flights[i]? = some flight → Attended flight :=
    fun i flight _ found => all i flight found
  cases step_moved moved with
  | rejects moment arriving => exact finish_attended (others (arrived arriving)) moment none
  | begins moment arriving =>
    have own : Attended (newFlight arriving) := fun none => by cases none
    exact resume_attended (others (arrived arriving)) getElem?_arrive (.inl own)
  | retries moment answer found stage left =>
    exact setStage_attended (others attended) _ fun flight found => attended _ flight found
  | asks found stage => exact setStage_attended (others attended) _ fun flight found => attended _ flight found
  | resubmits moment reply found stage | retests moment reply found stage =>
    exact setStage_attended (others (heard _ reply)) _ fun flight found => heard _ reply _ flight found
  | answers moment answer _ found stage => exact carryOut_attended (others attended) found (.inl (attended _ _ found))
  | submitted moment reply found stage =>
    exact carryOut_attended (others (heard _ reply)) (getElem?_hear reply found)
      (.inl (heard _ reply _ _ (getElem?_hear reply found)))
  | tested moment reply found stage => exact finish_attended (others (heard _ reply)) moment _
  | delivers moment found stage => exact verifyShareCB_attended (others attended) found _ (.inl (attended _ _ found))
  | @drains moment callback drain due =>
    obtain ⟨flight,found,_⟩ := rest.balanced.ledger.taken due
    have beside (i : ℕ) (other : Flight) (apart : i ≠ drain.entry.share)
        (here : (world.dequeue callback drain).flights[i]? = some other) : Attended other := by
      rw [World.dequeue,getElem?_update,if_neg apart.symm] at here
      exact attended i other here
    refine resume_attended beside (getElem?_dequeue found) (.inr ⟨completes drain flight due found,fun queues => ?_⟩)
    -- a share that comes from the queue does not go back into it
    have planned := verifyShare_phase baseDiff moment (drain.begin flight)
      (isBusy (drain.begin flight).share.trustKey (world.dequeue callback drain))
    rw [queues] at planned
    simp [Plan.phase,Drain.begin] at planned

private theorem AtRest.scheduled_or_verified (rest : AtRest world) (attended : AllAttended world) {trustKey : String}
    (queued : (gateOf world trustKey).queue ≠ []) : (gateOf world trustKey).inFlight ≠ 0 ∨
      ∃ drain ∈ world.drains, drain.trustKey = trustKey := by
  rcases rest.moving queued with verifies | due | drains
  · exact .inl verifies
  · obtain ⟨drain,member⟩ := List.exists_mem_of_ne_nil _ due
    exact .inr ⟨drain,mem_scheduled.mp member⟩
  · obtain ⟨i,flight,found,counts,_⟩ := rest.counted drains fun flight counts =>
      ⟨(drained_ne_zero counts).2.2,.inr (drained_ne_zero counts).2.1⟩
    obtain ⟨own,drained,incomplete⟩ := drained_ne_zero counts
    have started := attended i flight found drained incomplete
    refine .inl fun none => ?_
    have account := (rest.balanced.ledger.settled trustKey).account.inFlight
    rw [none] at account
    have idle := tally_eq_zero.mp (Nat.eq_zero_of_add_eq_zero_right account.symm) flight (List.mem_of_getElem? found)
    simp [verifying,own,started,incomplete] at idle

/-- Without a throw and with no drained share made to wait, the gates' accounts are right in every state. -/
theorem gates_accounted (reachable : (throwing baseDiff slowHash).ReachableBy (Completes baseDiff) world) :
    Accounted baseDiff slowHash world := by
  obtain ⟨reached,attended⟩ : (shareProcessing baseDiff slowHash).Reachable world ∧ AllAttended world := by
    refine reachable.invariant (fun world => (shareProcessing baseDiff slowHash).Reachable world ∧
      AllAttended world) ?_ ?_
    · rintro start rfl
      exact ⟨.initial rfl,fun i flight found => by simp [fresh] at found⟩
    · rintro before after (label | ⟨moment,share⟩) ⟨reached,attended⟩ completes moved
      · exact ⟨.step reached trivial moved,attended_step (atRest_of_reachable reached) attended completes moved⟩
      · exact completes.elim
  have rest := atRest_of_reachable reached
  obtain ⟨keys,⟨totals,fitsAll⟩,⟨once,ends,completed⟩,_⟩ := gate_accounting reached
  exact ⟨fun trustKey => (keys trustKey).1,fun trustKey => (keys trustKey).2.1,fun trustKey => (keys trustKey).2.2,
    totals,fitsAll,once,ends,completed,fun trustKey => rest.scheduled_or_verified attended⟩

def waitingEvents : List Event :=
  [.label (.submit sampleMoment sampleShare),.label (.submit trustingMoment retainedShare)]

theorem gates_accounted_waiting : ∃ world, (throwing sampleBaseDiff sampleSlowHash).run fresh waitingEvents =
    some world ∧
    (gateOf world "4address").queue = [⟨1,100⟩] ∧ Accounted sampleBaseDiff sampleSlowHash world := by
  have ran : ((throwing sampleBaseDiff sampleSlowHash).run fresh waitingEvents).map
      (fun world => (gateOf world "4address").queue) = some [⟨1,100⟩] := by decide +kernel
  obtain ⟨world,ran,queue⟩ := map_eq_some_iff.mp ran
  refine ⟨world,ran,queue,gates_accounted (Machine.ReachableBy.run (.initial rfl) ?_ ran)⟩
  intro event member state
  rcases List.mem_cons.mp member with rfl | later
  · trivial
  · obtain rfl := List.mem_singleton.mp later
    trivial

/-- No callback comes to a share that runs or waits. -/
theorem no_callback (stages : ∀ flight ∈ world.flights, flight.stage = .running ∨ flight.stage = .waiting)
    (undrained : world.drains = []) (after : World) : ¬Callback baseDiff slowHash world after := by
  rintro ⟨label,callback,moved⟩
  have idle {share : ℕ} {flight : Flight} {stage : Stage} (found : world.flights[share]? = some flight)
      (same : flight.stage = stage) : stage = .running ∨ stage = .waiting :=
    same ▸ stages flight (List.mem_of_getElem? found)
  cases step_moved moved with
  | rejects | begins => cases callback
  | drains moment due => simp [undrained] at due
  | retries _ _ found stage | answers _ _ _ found stage | asks found stage | delivers _ found stage =>
    rcases idle found stage with other | other <;> cases other
  | resubmits _ _ found stage | submitted _ _ found stage | retests _ _ found stage | tested _ _ found stage =>
    rcases idle found stage with other | other <;> cases other

/-- A template without a seed hash: the verification of the first share throws, and the one behind it is
never completed. -/
def thrownEvents : List Event := [.throws sampleMoment sampleShare,.label (.submit trustingMoment retainedShare)]

/-- Behind a verification two shares queue; it succeeds, and the first of them is trusted after a delay. -/
def delayedEvents : List Event := waitingEvents ++ [.label (.submit trustingMoment retainedShare),
  .label (.answer sampleMoment 0 .hash),.label (.drain trustingMoment 0)]

theorem verifier_throws : (∃ world, (throwing sampleBaseDiff sampleSlowHash).run fresh thrownEvents = some world ∧
      (gateOf world "4address").inFlight = 1 ∧ ¬Accounted sampleBaseDiff sampleSlowHash world) ∧
    ∃ world, (throwing sampleBaseDiff sampleSlowHash).run fresh delayedEvents = some world ∧
      ¬Accounted sampleBaseDiff sampleSlowHash world := by
  constructor
  · have ran : ((throwing sampleBaseDiff sampleSlowHash).run fresh thrownEvents).map (fun world =>
        ((gateOf world "4address").inFlight,world.drains,world.flights.map Flight.stage,
          world.flights.map fun flight => flight.replies.length)) =
        some (1,[],[.running,.waiting],[0,0]) := by decide +kernel
    obtain ⟨world,ran,seen⟩ := map_eq_some_iff.mp ran
    obtain ⟨inFlight,drains,flights,replies⟩ := by simpa only [Prod.mk.injEq] using seen
    have stages (flight : Flight) (member : flight ∈ world.flights) : flight.stage = .running ∨
        flight.stage = .waiting := by
      have inside := List.mem_map_of_mem (f := Flight.stage) member
      rw [flights] at inside
      simpa using inside
    refine ⟨world,ran,inFlight,fun accounted => ?_⟩
    obtain ⟨flight,member,unreplied⟩ := List.mem_map.mp (replies ▸ List.mem_cons_self)
    have replied := accounted.completed (no_callback stages drains) flight member
    rw [unreplied] at replied
    cases replied
  · have ran : ((throwing sampleBaseDiff sampleSlowHash).run fresh delayedEvents).map
        (fun world => (gateOf world "4address",world.drains)) =
          some (⟨0,"4address",0,[⟨2,100⟩],true,false,200⟩,[]) := by decide +kernel
    obtain ⟨world,ran,seen⟩ := map_eq_some_iff.mp ran
    obtain ⟨gate,drains⟩ := Prod.mk.inj seen
    refine ⟨world,ran,fun accounted => ?_⟩
    rcases accounted.moves "4address" (by rw [gate]; exact List.cons_ne_nil _ _) with verifies | ⟨drain,member,_⟩
    · rw [gate] at verifies
      exact absurd rfl verifies
    · rw [drains] at member
      cases member

end Runs
end NodejsPool.Pool.ShareProcessing
