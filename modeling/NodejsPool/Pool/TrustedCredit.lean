import NodejsPool.Pool.GateProgress

/-! Credit on trust beside a pending verification: which trusted shares are credited although a
verification of their wallet is in flight or has failed since they were queued. -/
namespace NodejsPool.Pool.ShareProcessing
open Async Entries

/-- A credit on trust although a verification of the share's wallet was in flight, or had failed
since the share was queued. -/
def blind (world after : World) (credit : Credit) : Bool :=
  credit.isTrustedShare && (after.flights[credit.share]?).any fun flight =>
    tally (verifying flight.share.trustKey) world ≠ 0 ||
      flight.queuedAt.any fun failures => failures ≠ world.failed.count flight.share.trustKey

structure Watched where
  world : World
  blindCredits : List Credit

def watch (watched : Watched) (after : World) : Watched :=
  ⟨after,watched.blindCredits ++ (after.credits.drop watched.world.credits.length).filter (blind watched.world after)⟩

def watchedProcessing (baseDiff : ℕ) (slowHash : String → String) : Machine Watched Label where
  initial watched := watched = ⟨fresh,[]⟩
  step watched label := (step baseDiff slowHash watched.world label).map (watch watched)

def records (moment : Moment) (share : Share) (verified : Verified) : Bool := (judge moment share verified).1 = .record

def Plan.trusts (moment : Moment) (share : Share) : Plan → Bool
  | .accept verified => verified.isTrustedShare && records moment share verified
  | .trust verified => moment.lastSlowHashAsyncDelay = 0 && verified.isTrustedShare && records moment share verified
  | _ => false

/-- No verification of the key is in flight, and its queue has not heard of a failed one. -/
def Open (world : World) (trustKey : String) : Prop :=
  (gateOf world trustKey).inFlight = 0 ∧ (gateOf world trustKey).forceVerify = false

def FindsOpen (baseDiff : ℕ) (world : World) : Label → Prop
  | .drain moment callback => ∀ drain ∈ world.drains[callback]?, ∀ flight ∈ world.flights[drain.entry.share]?,
      (verifyShare baseDiff moment { flight with forceVerifyTrusted := drain.forceVerify, isQueuedTrustedShare := true }
        (isBusy drain.trustKey world)).trusts moment flight.share = true → Open world drain.trustKey
  | .delay moment share => ∀ flight ∈ world.flights[share]?, ∀ verified, flight.stage = .delayed verified →
      verified.isTrustedShare = true → records moment flight.share verified = true →
        (gateOf world flight.share.trustKey).inFlight = 0 ∧
          (flight.queuedShareCompletion.isSome = true → (gateOf world flight.share.trustKey).forceVerify = false)
  | _ => True

/-! The generation of a queued share. -/

/-- A share that was queued waits or has been drained, and its gate knows of every failure since. -/
structure Dated (world : World) (flight : Flight) : Prop where
  queued : flight.shareProcessingCompleted = false →
    (flight.queuedAt.isSome = true ↔ flight.stage = .waiting ∨ flight.queuedShareCompletion.isSome = true)
  current : flight.shareProcessingCompleted = false → (gateOf world flight.share.trustKey).forceVerify = false →
    ∀ failures ∈ flight.queuedAt, failures = world.failed.count flight.share.trustKey

def Generations (world : World) : Prop := ∀ (i : ℕ) (flight : Flight), world.flights[i]? = some flight →
    Dated world flight

section Generations

variable {world after : World} {trustKey : String} {verifications drains bytes : ℕ} {moment : Moment}

theorem Ledger.idle (ledger : Ledger trustKey verifications drains bytes world)
    (empty : (gateOf world trustKey).queue = [])
    (idle : (gateOf world trustKey).draining = false) (i : ℕ) (flight : Flight)
    (found : world.flights[i]? = some flight)
    (belongs : flight.share.trustKey = trustKey) (running : flight.shareProcessingCompleted = false) :
    flight.stage ≠ .waiting ∧ flight.queuedShareCompletion.isSome = false := by
  have counted := ledger.account.draining
  rw [idle] at counted
  simp only [Bool.false_eq_true,if_false] at counted
  have undue : scheduled trustKey world.drains = [] := List.eq_nil_of_length_eq_zero (by omega)
  have undrained : tally (drained trustKey) world = 0 := by omega
  constructor
  · intro waiting
    have placed := ledger.placed trustKey i
    rw [places,empty,undue,found,Option.any_some,isWaiting,belongs,waiting,decide_eq_true rfl,decide_eq_true rfl]
      at placed
    cases placed
  · by_contra holds
    have nothing := tally_eq_zero.mp undrained flight (List.mem_of_getElem? found)
    rw [Bool.not_eq_false] at holds
    rw [drained,if_pos ⟨belongs,holds,running⟩] at nothing
    cases nothing

theorem Generations.moves (trustKey : String) (generations : Generations world) (moves : Moves Ended world after)
    (others : ∀ other, other ≠ trustKey → ((gateOf after other).forceVerify = false →
      (gateOf world other).forceVerify = false) ∧
      after.failed.count other = world.failed.count other)
    (own : (∀ (i : ℕ) (flight : Flight), after.flights[i]? = some flight → flight.share.trustKey = trustKey →
        flight.shareProcessingCompleted = false → flight.stage ≠ .waiting ∧
        flight.queuedShareCompletion.isSome = false) ∨
      ((gateOf after trustKey).forceVerify = false → (gateOf world trustKey).forceVerify = false ∧
        after.failed.count trustKey = world.failed.count trustKey)) : Generations after := by
  intro i next there
  obtain ⟨flight,found,ended⟩ := moves.back there
  have dated := generations i flight found
  cases ended with
  | done shareAccepted running => exact ⟨nofun,nofun⟩
  | same =>
    refine ⟨dated.queued,fun running opens failures queuedAt => ?_⟩
    by_cases same : next.share.trustKey = trustKey
    · rcases own with idle | hears
      · have queued := (dated.queued running).mp (Option.isSome_iff_exists.mpr ⟨failures,queuedAt⟩)
        obtain ⟨active,free⟩ := idle i next there same running
        rcases queued with waiting | holds
        · exact absurd waiting active
        · rw [free] at holds
          cases holds
      · rw [same] at opens
        obtain ⟨opened,count⟩ := hears opens
        rw [same,count,← same]
        exact dated.current running (by rw [same,opened]) failures queuedAt
    · obtain ⟨keeps,count⟩ := others _ same
      rw [count]
      exact dated.current running (keeps opens) failures queuedAt

private theorem drainTrustedQueue_mode (moment : Moment) (world : World) (trustKey : String) :
    (gateOf (drainTrustedQueue moment trustKey world) trustKey = noGate) ∨
      (gateOf (drainTrustedQueue moment trustKey world) trustKey).forceVerify =
        (gateOf world trustKey).forceVerify := by
  unfold drainTrustedQueue
  cases found : get world.gates trustKey with
  | none => exact .inr rfl
  | some gate =>
    simp only
    split
    · exact .inr rfl
    · split
      · exact .inl ((gateOf_erase (cancelAll_frame gate.queue _).1 trustKey).trans (if_pos rfl))
      · split
        · exact .inl ((gateOf_erase rfl trustKey).trans (if_pos rfl))
        · refine .inr ?_
          rw [gateOf_put rfl,if_pos rfl,gateOf_eq found]

theorem Generations.drain (generations : Generations world) (ledger : Ledger trustKey verifications drains bytes world)
    (free : drains = 0 → bytes = 0) (moment : Moment) : Generations (drainTrustedQueue moment trustKey world) := by
  have quiet := drainTrustedQueue_quiet moment trustKey world
  have drained := (ledger.drain free moment).1
  refine generations.moves trustKey quiet.ended (fun other apart => ⟨fun opens => ?_,by rw [quiet.failed]⟩) ?_
  · rwa [drainTrustedQueue_aside moment world trustKey apart] at opens
  · rcases drainTrustedQueue_mode moment world trustKey with gone | same
    · exact .inl (drained.idle (by rw [gone]; rfl) (by rw [gone]; rfl))
    · exact .inr fun opens => ⟨same ▸ opens,by rw [quiet.failed]⟩

theorem updateGate_aside (change : Gate → Gate) {other : String} (apart : other ≠ trustKey) :
    gateOf (updateGate trustKey change world) other = gateOf world other := by
  cases found : get world.gates trustKey with
  | none => rw [updateGate_none found]
  | some gate => rw [gateOf_updateGate found,if_neg apart]

theorem hasQueuedGeneration_iff : hasQueuedGeneration trustKey world = true ↔
    (gateOf world trustKey).queue ≠ [] ∨ (gateOf world trustKey).draining = true := by
  unfold hasQueuedGeneration
  cases found : get world.gates trustKey with
  | none => simp [gateOf_none found,noGate]
  | some gate => simp [gateOf_eq found]

theorem markTrustVerificationFailed_mode : (gateOf (markTrustVerificationFailed trustKey world) trustKey).forceVerify =
    if (gateOf world trustKey).queue ≠ [] ∨ (gateOf world trustKey).draining = true then true
    else (gateOf world trustKey).forceVerify := by
  unfold markTrustVerificationFailed
  cases found : get world.gates trustKey with
  | none =>
    rw [updateGate_none found,gateOf_none found]
    rfl
  | some gate =>
    rw [gateOf_updateGate found,if_pos rfl,gateOf_eq found]
    split <;> rfl

private theorem noteFailure_failed (flight : Flight) (shareAccepted : Option Bool) (world : World) :
    (noteFailure flight shareAccepted world).failed =
      if flight.walletVerificationStarted && shareAccepted ≠ some true then world.failed ++ [flight.share.trustKey]
      else world.failed := by
  unfold noteFailure markTrustVerificationFailed
  simp only
  split <;> split <;> simp

private theorem noteFailure_gateOf (flight : Flight) (shareAccepted : Option Bool) (world : World) (other : String) :
    gateOf (noteFailure flight shareAccepted world) other = gateOf
      (if (flight.walletVerificationStarted && shareAccepted.isNone) ||
        (shareAccepted = some false && hasQueuedGeneration flight.share.trustKey world) then
        markTrustVerificationFailed flight.share.trustKey world else world) other := by
  unfold noteFailure
  simp only
  split <;> rfl

theorem Generations.note {flight : Flight} (generations : Generations world)
    (ledger : Ledger flight.share.trustKey verifications drains bytes world) (shareAccepted : Option Bool) :
    Generations (noteFailure flight shareAccepted world) := by
  obtain ⟨noted,steady⟩ := noteFailure_spec flight shareAccepted ledger
  have same : Moves Ended world (noteFailure flight shareAccepted world) :=
    ⟨by rw [noteFailure_flights],fun i other found => ⟨other,by rw [noteFailure_flights,found],.same⟩⟩
  refine generations.moves flight.share.trustKey same (fun other apart => ⟨fun opens => ?_,?_⟩) ?_
  · rw [noteFailure_gateOf] at opens
    split at opens
    · rwa [markTrustVerificationFailed,updateGate_aside _ apart] at opens
    · exact opens
  · rw [noteFailure_failed]
    split
    · rw [List.count_append,List.count_singleton,if_neg (by simpa using apart.symm),Nat.add_zero]
    · rfl
  · by_cases busy : (gateOf world flight.share.trustKey).queue ≠ [] ∨
      (gateOf world flight.share.trustKey).draining = true
    · refine .inr fun opens => ?_
      have heard := hasQueuedGeneration_iff.mpr busy
      rw [noteFailure_gateOf,heard,Bool.and_true] at opens
      split at opens
      · rw [markTrustVerificationFailed_mode,if_pos busy] at opens
        cases opens
      next silent =>
        refine ⟨opens,?_⟩
        rw [noteFailure_failed,if_neg]
        cases shareAccepted with
        | none => simpa using silent
        | some accepted => cases accepted <;> simp_all
    · obtain ⟨empty,idle⟩ := not_or.mp busy
      refine .inl (noted.idle ?_ ?_)
      · rw [(steady _).queue]
        exact not_not.mp empty
      · rw [(steady _).draining]
        simpa using idle

theorem Generations.of_eq (generations : Generations world) (flights : after.flights = world.flights)
    (gates : ∀ other, (gateOf after other).forceVerify = (gateOf world other).forceVerify)
    (failed : after.failed = world.failed) : Generations after := by
  intro i flight found
  rw [flights] at found
  have dated := generations i flight found
  exact ⟨dated.queued,fun running opens => by rw [gates] at opens; rw [failed]; exact dated.current running opens⟩

theorem Generations.release {flight : Flight} (generations : Generations world)
    (running : flight.shareProcessingCompleted = false) (free : drains = 0 → bytes = 0)
    (ledger : Ledger flight.share.trustKey (verifying flight.share.trustKey flight) drains bytes world)
    (moment : Moment) :
    Generations (releaseVerification moment flight world) := by
  unfold releaseVerification
  split
  next started =>
    have owes : verifying flight.share.trustKey flight = 0 + 1 := by simp [verifying,started,running]
    rw [owes] at ledger
    have counted := ledger.account.inFlight
    obtain ⟨gate,found⟩ := get_of_gateOf (.inl (by omega) : (gateOf world flight.share.trustKey).inFlight ≠ 0 ∨ _ ∨ _)
    refine Generations.drain ?_ ledger.unverify free moment
    refine generations.of_eq (updateGate_flights ..) (fun other => ?_) (updateGate_failed ..)
    rw [gateOf_updateGate found]
    split
    next same => rw [same,gateOf_eq found]
    · rfl
  · exact generations

private theorem Generations.giveBack {flight : Flight} (generations : Generations world)
    (running : flight.shareProcessingCompleted = false)
    (ledger : Ledger flight.share.trustKey 0 (drained flight.share.trustKey flight)
      (drainedBytes flight.share.trustKey flight) world)
    (own : ∀ completion ∈ flight.queuedShareCompletion, completion.gate = (gateOf world flight.share.trustKey).id)
    (moment : Moment) : Generations (releaseEntry moment flight world) := by
  unfold releaseEntry
  cases holds : flight.queuedShareCompletion with
  | none => exact generations
  | some completion =>
    have owes : drained flight.share.trustKey flight = 1 ∧
        drainedBytes flight.share.trustKey flight = completion.retainedBytes := by
      simp [drained,drainedBytes,holds,running]
    rw [owes.1,owes.2] at ledger
    obtain ⟨gate,found⟩ := get_of_gateOf (.inr (.inl ledger.account.draining_of_drained))
    have same : gate.id = completion.gate := by rw [own completion holds,gateOf_eq found]
    simp only [onQueuedShareProcessed,found]
    rw [if_neg (not_not.mpr same)]
    have released := ledger.release found (if gate.queue = [] then false else gate.forceVerify)
    refine Generations.drain ?_ released (fun _ => rfl) moment
    have still : Moves Ended world { world with
        trustedQueuedBytes := world.trustedQueuedBytes - completion.retainedBytes
        gates := put world.gates flight.share.trustKey { gate with
          queuedBytes := gate.queuedBytes - completion.retainedBytes
          draining := false
          forceVerify := if gate.queue = [] then false else gate.forceVerify } } :=
      ⟨rfl,fun i other at_i => ⟨other,at_i,.same⟩⟩
    refine generations.moves flight.share.trustKey still (fun other apart => ⟨fun opens => ?_,rfl⟩) ?_
    · rwa [gateOf_put rfl,if_neg apart] at opens
    · by_cases empty : gate.queue = []
      · exact .inl (released.idle (by rw [gateOf_put rfl,if_pos rfl]; exact empty) (by rw [gateOf_put rfl,if_pos rfl]))
      · refine .inr fun opens => ⟨?_,rfl⟩
        rw [gateOf_put rfl,if_pos rfl] at opens
        simp only [if_neg empty] at opens
        rw [gateOf_eq found,opens]

variable {share : ℕ} {flight : Flight}

theorem Generations.finish (generations : Generations world) (balanced : Balanced world)
    (found : world.flights[share]? = some flight) (active : flight.stage ≠ .waiting) (shareAccepted : Option Bool)
    (moment : Moment) : Generations (finishShareProcessing moment share shareAccepted world) := by
  simp only [finishShareProcessing,found]
  split
  · exact generations
  next incomplete =>
    have running : flight.shareProcessingCompleted = false := by simpa using incomplete
    have completed := balanced.ledger.complete found running active shareAccepted
    have noted := (noteFailure_spec flight shareAccepted completed).1
    obtain ⟨verified,_,_,owned⟩ := balanced.ending moment found active running shareAccepted rfl
    have ended : Generations (complete share shareAccepted world) := by
      have moves : Moves Ended world (complete share shareAccepted world) := by
        refine .update rfl (fun _ => .same) fun other here => ?_
        cases found.symm.trans here
        exact .done shareAccepted running
      exact generations.moves flight.share.trustKey moves (fun _ _ => ⟨id,rfl⟩) (.inr fun opens => ⟨opens,rfl⟩)
    exact ((ended.note completed shareAccepted).release running (drainedBytes_free running) noted moment).giveBack
      running verified owned moment

end Generations

/-! The steps keep the generations. -/

section Stepping

variable {world before after : World} {moment : Moment} {share : ℕ} {flight : Flight} {baseDiff : ℕ}
    {slowHash : String → String}

theorem Generations.update (generations : Generations world) (flights : before.flights = world.flights)
    (gates : ∀ other, (gateOf before other).forceVerify = (gateOf world other).forceVerify)
    (failed : before.failed = world.failed)
    (found : world.flights[share]? = some flight) {change : Flight → Flight} (dated : Dated world (change flight)) :
    Generations (before.update share change) := by
  have kept {flight : Flight} (dated : Dated world flight) : Dated (before.update share change) flight :=
    ⟨dated.queued,fun running opens => by
      rw [show (before.update share change).failed = world.failed from failed]
      exact dated.current running ((gates _).symm.trans opens)⟩
  intro i next there
  rw [getElem?_update,flights] at there
  split at there
  next here =>
    subst here
    rw [found,Option.map_some] at there
    exact Option.some.inj there ▸ kept dated
  · exact kept (generations i next there)

theorem Generations.setStage (generations : Generations world) (found : world.flights[share]? = some flight)
    (active : flight.stage ≠ .waiting) (stage : Stage) (waits : stage ≠ .waiting) :
    Generations (world.setStage share stage) := by
  have dated := generations share flight found
  refine generations.update rfl (fun _ => rfl) rfl found ⟨fun running => ?_,dated.current⟩
  simpa [active,waits] using dated.queued running

theorem Generations.arrive (generations : Generations world) (arriving : Share) :
    Generations { world with flights := world.flights ++ [newFlight arriving] } := by
  intro i flight found
  change (world.flights ++ [newFlight arriving])[i]? = some flight at found
  rw [List.getElem?_append] at found
  split at found
  · have dated := generations i flight found
    exact ⟨dated.queued,dated.current⟩
  · obtain rfl := List.mem_singleton.mp (List.mem_of_getElem? found)
    refine ⟨fun _ => by simp [newFlight],fun _ _ failures queuedAt => ?_⟩
    cases queuedAt

private theorem getTrustVerificationGate_mode (trustKey payout : String) (world : World) (other : String) :
    (gateOf (getTrustVerificationGate trustKey payout world) other).forceVerify = (gateOf world other).forceVerify := by
  by_cases same : other = trustKey
  · subst same
    unfold getTrustVerificationGate
    cases found : get world.gates other with
    | some gate => rfl
    | none =>
      rw [gateOf_put rfl,if_pos rfl,gateOf_none found]
  · rw [getTrustVerificationGate_aside same]

theorem updateGate_mode {trustKey : String} {change : Gate → Gate}
    (same : ∀ gate, (change gate).forceVerify = gate.forceVerify)
    (other : String) : (gateOf (updateGate trustKey change world) other).forceVerify =
      (gateOf world other).forceVerify := by
  cases found : get world.gates trustKey with
  | none => rw [updateGate_none found]
  | some gate =>
    rw [gateOf_updateGate found]
    split
    next here => rw [same,here,gateOf_eq found]
    · rfl

section

variable (generations : Generations world)
include generations

theorem Generations.start (found : world.flights[share]? = some flight) :
    Generations (startAsyncVerification share world) := by
  by_cases started : flight.walletVerificationStarted = true
  · simpa only [startAsyncVerification,found,started,if_true] using generations
  · rw [startAsyncVerification_eq found (by simpa using started)]
    have dated := generations share flight found
    refine generations.update (by simp) (fun other => ?_) (by simp) found ⟨dated.queued,dated.current⟩
    exact (updateGate_mode (by intro _; rfl) other).trans (getTrustVerificationGate_mode ..)

theorem Generations.push (found : world.flights[share]? = some flight) :
    Generations (pushEntry share flight.share.trustKey flight.share.retainedBytes world) := by
  have dated :
      Dated world { flight with stage := .waiting, queuedAt := some (world.failed.count flight.share.trustKey) } :=
    ⟨fun _ => by simp,fun _ _ failures queuedAt => (Option.some.inj queuedAt).symm⟩
  unfold pushEntry
  refine generations.update ?_ (fun other => ?_) ?_ found dated
  · exact updateGate_flights ..
  · exact updateGate_mode (by intro _; rfl) other
  · exact updateGate_failed ..

theorem verifyShareCB_generations (balanced : Balanced world)
    (found : world.flights[share]? = some flight) (active : flight.stage ≠ .waiting) (verified : Verified) :
    Generations (verifyShareCB moment share verified world) := by
  obtain ⟨blocks,credits,⟨_,same⟩ | ⟨shareAccepted,same⟩⟩ := verifyShareCB_cases found moment verified <;>
    have recorded : Generations { world with blocks, credits } := generations.of_eq rfl (fun _ => rfl) rfl <;> rw [same]
  · exact recorded.setStage found active _ (by simp)
  · exact recorded.finish (balanced.of_eq rfl rfl rfl rfl) found active shareAccepted moment

theorem carryOut_generations (balanced : Balanced world)
    (found : world.flights[share]? = some flight) (active : flight.stage ≠ .waiting) {plan : Plan}
    (enqueues : plan = .enqueue → isBusy flight.share.trustKey world = true) :
    Generations (carryOut moment share plan world) := by
  have started : ∀ {stage : Stage}, stage ≠ .waiting →
      Generations ((startAsyncVerification share world).setStage share stage) := by
    intro stage waits
    obtain ⟨next,there,same⟩ := (startAsyncVerification_moves share world).2 share flight found
    have stays : next.stage = flight.stage := by rcases same with rfl | rfl <;> rfl
    exact (generations.start found).setStage there (by rwa [stays]) stage waits
  cases plan with
  | finish outcome => exact generations.finish balanced found active outcome moment
  | accept verified => exact verifyShareCB_generations generations balanced found active verified
  | enqueue =>
    simp only [carryOut,enqueueTrustedShare,found,getTrustVerificationGate_busy (enqueues rfl)]
    split
    · exact generations.finish balanced found active none moment
    · exact generations.push found
  | trust verified =>
    unfold carryOut
    simp only
    split
    · exact generations.setStage found active _ (by simp)
    · exact verifyShareCB_generations generations balanced found active verified
  | hash check retries | submit hash trusted => exact started (by simp)

private theorem resumeShareProcessing_generations (balanced : Balanced world)
    (found : world.flights[share]? = some flight) (active : flight.stage ≠ .waiting) :
    Generations (resumeShareProcessing baseDiff moment share world) := by
  simp only [resumeShareProcessing,found]
  have dated := generations share flight found
  refine carryOut_generations (generations.update rfl (fun _ => rfl) rfl found ⟨dated.queued,dated.current⟩)
    (balanced.touch found ⟨rfl,rfl,rfl,rfl,rfl,rfl⟩) (getElem?_update_self found) active fun queues => ?_
  rcases verifyShare_phase baseDiff moment flight (isBusy flight.share.trustKey world) with near | ⟨_,_,busy⟩
  · rw [queues] at near
    simp [Plan.phase] at near
  · exact busy

end

theorem step_generations {label : Label} (generations : Generations world) (rest : AtRest world)
    (moved : step baseDiff slowHash world label = some after) : Generations after := by
  have carried {world : World} (generations : Generations world) (balanced : Balanced world) {share : ℕ}
    {flight : Flight}
      (found : world.flights[share]? = some flight) (active : flight.stage ≠ .waiting) {plan : Plan} (moment : Moment)
      (near : plan.phase < 11) : Generations (carryOut moment share plan world) :=
    carryOut_generations generations balanced found active fun queues => absurd queues (Plan.ne_enqueue near)
  have heard {share : ℕ} {flight : Flight} (found : world.flights[share]? = some flight) (reply : SubmitReply) :
      Generations (world.hear share reply) := by
    have dated := generations share flight found
    exact generations.update rfl (fun _ => rfl) rfl found ⟨dated.queued,dated.current⟩
  have balanced {share : ℕ} {flight : Flight} (found : world.flights[share]? = some flight) (reply : SubmitReply) :
      Balanced (world.hear share reply) := rest.balanced.touch found ⟨rfl,rfl,rfl,rfl,rfl,rfl⟩
  cases step_moved moved with
  | rejects moment arriving =>
    exact (generations.arrive arriving).finish (rest.balanced.arrive arriving) getElem?_arrive
      (by rintro ⟨⟩) none moment
  | begins moment arriving =>
    exact resumeShareProcessing_generations (generations.arrive arriving)
      (rest.balanced.arrive arriving) getElem?_arrive (by rintro ⟨⟩)
  | retries _ _ found stage => exact generations.setStage found (stage.trans_ne (by simp)) _ (by simp)
  | answers moment _ _ found stage =>
    have bound := rest.phases _ _ found
    rw [stage] at bound
    exact carried generations rest.balanced found (stage.trans_ne (by simp)) moment ((onHash_phase ..).trans_le bound)
  | asks found stage => exact generations.setStage found (stage.trans_ne (by simp)) _ (by simp)
  | resubmits _ reply found stage =>
    exact (heard found reply).setStage (getElem?_hear reply found) (stage.trans_ne (by simp)) _ (by simp)
  | submitted moment reply found stage =>
    have bound := rest.phases _ _ found
    rw [stage] at bound
    exact carried (heard found reply) (balanced found reply) (getElem?_hear reply found)
      (stage.trans_ne (by simp)) moment ((onSubmitted_phase ..).trans_le bound)
  | retests _ reply found stage =>
    exact (heard found reply).setStage (getElem?_hear reply found) (stage.trans_ne (by simp)) _ (by simp)
  | tested moment reply found stage =>
    exact (heard found reply).finish (balanced found reply) (getElem?_hear reply found)
      (stage.trans_ne (by simp)) _ moment
  | @delivers _ _ _ verified found stage =>
    exact verifyShareCB_generations generations rest.balanced found (stage.trans_ne (by simp)) verified
  | @drains _ callback drain due =>
    obtain ⟨flight,found,_,_,waiting,_⟩ := rest.balanced.ledger.taken due
    have dated := generations _ flight found
    have begun : Dated world (drain.begin flight) :=
      ⟨fun running => by simpa [waiting,Drain.begin] using dated.queued running,dated.current⟩
    have taken : Generations (world.dequeue callback drain) := by
      refine generations.update ?_ (fun _ => ?_) ?_ found begun
      · rfl
      · rfl
      · rfl
    exact resumeShareProcessing_generations taken (rest.balanced.take due) (getElem?_dequeue found) (by rintro ⟨⟩)

end Stepping

/-! Who is credited on trust. -/

section Crediting

variable {world before after : World} {moment : Moment} {share : ℕ} {flight : Flight} {baseDiff : ℕ}
    {slowHash : String → String}

def Adds (share : ℕ) (flight : Flight) (trusted : Bool) (world after : World) : Prop :=
  ∃ new, after.credits = world.credits ++ new ∧ (new ≠ [] → ∃ next, after.flights[share]? = some next ∧
    Ended flight next) ∧
    ∀ credit ∈ new, credit.share = share ∧ (credit.isTrustedShare = true → trusted = true)

theorem Adds.nothing (same : after.credits = world.credits) (share : ℕ) (flight : Flight) (trusted : Bool) :
    Adds share flight trusted world after := ⟨[],by rw [same,List.append_nil],fun some => absurd rfl some,nofun⟩

theorem verifyShareCB_adds (found : world.flights[share]? = some flight) (verified : Verified) :
    Adds share flight (verified.isTrustedShare && records moment flight.share verified) world
      (verifyShareCB moment share verified world) := by
  cases judged : judge moment flight.share verified with
  | mk judgement blocks =>
    simp only [verifyShareCB,found,judged]
    cases judgement with
    | reject => exact .nothing (finishShareProcessing_moves ..).2 share flight _
    | testSubmit => exact .nothing rfl share flight _
    | record =>
      have recorded : records moment flight.share verified = true := by simp [records,judged]
      obtain ⟨moves,credits⟩ := finishShareProcessing_moves moment share (some true) { world with
        blocks := world.blocks ++ blocks.map (Submission.mk share)
        credits := world.credits ++ (false::if flight.share.blockTemplate.child_template.isSome then [true] else []).map
          (Credit.mk share verified.hashDiff verified.isTrustedShare) }
      refine ⟨_,credits,fun _ => moves.2 share flight found,fun credit member => ?_⟩
      obtain ⟨child,_,rfl⟩ := List.mem_map.mp member
      exact ⟨rfl,fun trusted => by rw [recorded,Bool.and_true]; exact trusted⟩

theorem carryOut_adds (found : world.flights[share]? = some flight) (plan : Plan) :
    Adds share flight (plan.trusts moment flight.share) world (carryOut moment share plan world) := by
  cases plan with
  | finish outcome => exact .nothing (finishShareProcessing_moves ..).2 share flight _
  | accept verified => exact verifyShareCB_adds found verified
  | enqueue =>
    refine .nothing ?_ share flight _
    simp only [carryOut,enqueueTrustedShare,found]
    split
    · rw [(finishShareProcessing_moves ..).2,getTrustVerificationGate_credits]
    · rw [pushEntry_credits,getTrustVerificationGate_credits]
  | trust verified =>
    simp only [carryOut,Plan.trusts]
    split
    · exact .nothing rfl share flight _
    next immediate =>
      rw [not_not.mp immediate,decide_eq_true rfl,Bool.true_and]
      exact verifyShareCB_adds found verified
  | hash check retries | submit hash trusted =>
    refine .nothing ?_ share flight _
    exact startAsyncVerification_credits share world

theorem onHash_trusts (judged : Share) (answer : HashAnswer) (check : Check) :
    (onHash baseDiff slowHash moment judged answer check).trusts moment judged = false := by
  cases check with
  | special =>
    simp only [onHash]
    split <;> simp [Plan.trusts,SpecialResult.verified]
  | slow hash | failedCandidate hash | candidate hash =>
    cases answer with
    | hash =>
      simp only [onHash]
      split <;> simp [Plan.trusts]
    | null | failed errorKind => simp [onHash,Plan.trusts]

theorem onSubmitted_trusts (judged : Share) (hash : ResultHash) (trusted blockSubmitResult : Bool) :
    (onSubmitted baseDiff moment hash trusted blockSubmitResult).trusts moment judged = false := by
  cases trusted <;> cases blockSubmitResult <;> simp [onSubmitted,Plan.trusts]

private theorem tryTrustedShare_trusts {busy : Bool} {onTrustedShare otherwise : Plan}
    (verifies : otherwise.trusts moment flight.share = false)
    (trusts : (tryTrustedShare moment flight busy onTrustedShare otherwise).trusts moment flight.share = true) :
    flight.isQueuedTrustedShare = true ∨ busy = false := by
  unfold tryTrustedShare at trusts
  split at trusts
  · rw [verifies] at trusts
    cases trusts
  · split at trusts
    · cases trusts
    next direct => simpa [Bool.and_eq_true,or_iff_not_imp_left] using direct

private theorem verifyCandidateOrHash_trusts (judged : Share) (hash : ResultHash) :
    (verifyCandidateOrHash baseDiff moment judged hash).trusts moment judged = false := by
  unfold verifyCandidateOrHash
  split
  · rfl
  · split
    · split <;> rfl
    · rfl

private theorem testBypass_records {hashDiff : Diff} (bypass : (isBlockSubmitTestBypassEnabled moment flight.share &&
    !hasBlockSubmitTrust moment && ge hashDiff flight.share.blockTemplate.difficulty) = true) :
    records moment flight.share ⟨hashDiff,some .buffer,true,true,false⟩ = false := by
  simp only [Bool.and_eq_true] at bypass
  obtain ⟨⟨enabled,untrusted⟩,candidate⟩ := bypass
  simp [records,judge,submitMainBlockIfNeeded,getVerifiedBlockData,enabled,untrusted,candidate]

theorem verifyShare_trusts (busy : Bool)
    (trusts : (verifyShare baseDiff moment flight busy).trusts moment flight.share = true) :
    flight.isQueuedTrustedShare = true ∨ busy = false := by
  have standard (trusts : (verifyStandardShare baseDiff moment flight busy).trusts moment flight.share = true) :
      flight.isQueuedTrustedShare = true ∨ busy = false := by
    unfold verifyStandardShare at trusts
    split at trusts
    · cases trusts
    · simp only at trusts
      split at trusts
      next bypass =>
        split at trusts
        · rw [Plan.trusts,testBypass_records bypass,Bool.and_false] at trusts
          cases trusts
        · cases trusts
      · split at trusts
        · rw [verifyCandidateOrHash_trusts] at trusts
          cases trusts
        · exact tryTrustedShare_trusts (verifyCandidateOrHash_trusts _ _) trusts
  unfold verifyShare at trusts
  split at trusts
  · split at trusts
    · exact standard trusts
    · cases trusts
    · simp [Plan.trusts,SpecialResult.verified] at trusts
    · simp only at trusts
      split at trusts
      · cases trusts
      · exact tryTrustedShare_trusts rfl trusts
  · exact standard trusts

theorem Adds.clean {trusted : Bool} (adds : Adds share flight trusted before after)
    (same : before.credits = world.credits)
    (clean : trusted = true → tally (verifying flight.share.trustKey) world = 0 ∧
      ∀ failures ∈ flight.queuedAt, failures = world.failed.count flight.share.trustKey) :
    (after.credits.drop world.credits.length).filter (blind world after) = [] := by
  obtain ⟨new,credits,ends,credited⟩ := adds
  rw [credits,same,List.drop_left,List.filter_eq_nil_iff]
  intro credit member isBlind
  obtain ⟨next,there,ended⟩ := ends (List.ne_nil_of_mem member)
  obtain ⟨own,trusts⟩ := credited credit member
  simp only [blind,own,there,Option.any_some,Bool.and_eq_true,Bool.or_eq_true,decide_eq_true_eq] at isBlind
  obtain ⟨onTrust,pending⟩ := isBlind
  obtain ⟨idle,current⟩ := clean (trusts onTrust)
  have kept : next.share = flight.share ∧ next.queuedAt = flight.queuedAt := by cases ended <;> exact ⟨rfl,rfl⟩
  rw [kept.1,kept.2] at pending
  rcases pending with verifies | failed
  · exact verifies idle
  · cases queuedAt : flight.queuedAt with
    | none =>
      rw [queuedAt] at failed
      cases failed
    | some failures =>
      rw [queuedAt,Option.any_some,decide_eq_true_eq] at failed
      exact failed (current failures queuedAt)

theorem AtRest.clean (rest : AtRest world) (dated : Dated world flight)
    (running : flight.shareProcessingCompleted = false) (idle : (gateOf world flight.share.trustKey).inFlight = 0)
    (opens : flight.queuedAt.isSome = true → (gateOf world flight.share.trustKey).forceVerify = false) :
    tally (verifying flight.share.trustKey) world = 0 ∧
      ∀ failures ∈ flight.queuedAt, failures = world.failed.count flight.share.trustKey := by
  have account := (rest.balanced.ledger.settled flight.share.trustKey).account
  refine ⟨account.inFlight.symm.trans idle,fun failures queuedAt => ?_⟩
  exact dated.current running (opens (Option.isSome_iff_exists.mpr ⟨failures,queuedAt⟩)) failures queuedAt

private theorem resumeShareProcessing_adds (found : world.flights[share]? = some flight) :
    Adds share { flight with tested := flight.tested || isBlockSubmitTestBypassEnabled moment flight.share }
      ((verifyShare baseDiff moment flight (isBusy flight.share.trustKey world)).trusts moment flight.share) world
      (resumeShareProcessing baseDiff moment share world) := by
  simp only [resumeShareProcessing,found]
  obtain ⟨new,credits,ends,credited⟩ : Adds share _ _ _ (carryOut moment share _ _) := carryOut_adds
    (getElem?_update_self found) (verifyShare baseDiff moment flight (isBusy flight.share.trustKey world))
  exact ⟨new,credits,ends,credited⟩

private theorem step_clean {label : Label} (rest : AtRest world) (generations : Generations world)
    (opens : FindsOpen baseDiff world label) (moved : step baseDiff slowHash world label = some after) :
    (after.credits.drop world.credits.length).filter (blind world after) = [] := by
  have quiet {after : World} (same : after.credits = world.credits) :
      (after.credits.drop world.credits.length).filter (blind world after) = [] := by
    rw [same,List.drop_length]
    rfl
  cases step_moved moved with
  | rejects => exact quiet (finishShareProcessing_moves ..).2
  | begins moment arriving =>
    refine (resumeShareProcessing_adds getElem?_arrive).clean rfl fun trusts => ?_
    rcases verifyShare_trusts _ trusts with queued | idle
    · cases queued
    · refine ⟨?_,fun _ queuedAt => by cases queuedAt⟩
      have account := (rest.balanced.ledger.settled arriving.trustKey).account
      refine account.inFlight.symm.trans ?_
      change isBusy arriving.trustKey world = false at idle
      unfold isBusy at idle
      cases found : get world.gates arriving.trustKey with
      | none => rw [gateOf_none found]; rfl
      | some gate =>
        rw [found,Option.any_some,Bool.or_eq_false_iff,Bool.or_eq_false_iff] at idle
        rw [gateOf_eq found]
        simpa using idle.1.1
  | answers _ _ _ found =>
    refine (carryOut_adds found _).clean rfl fun trusts => ?_
    rw [onHash_trusts] at trusts
    cases trusts
  | submitted _ reply found =>
    refine (carryOut_adds (getElem?_hear reply found) _).clean rfl fun trusts => ?_
    simp only [onSubmitted_trusts] at trusts
    cases trusts
  | retries | asks | resubmits | retests => exact quiet rfl
  | tested => exact quiet (finishShareProcessing_moves ..).2
  | @delivers share flight _ verified found stage =>
    have incomplete := rest.incomplete found (by rw [stage]; nofun)
    have dated := generations share flight found
    refine (verifyShareCB_adds found verified).clean rfl fun trusts => ?_
    obtain ⟨onTrust,recorded⟩ := Bool.and_eq_true_iff.mp trusts
    obtain ⟨idle,heard⟩ := opens flight found verified stage onTrust recorded
    refine rest.clean dated incomplete idle fun queuedAt => heard ?_
    rcases (dated.queued incomplete).mp queuedAt with waiting | holds
    · rw [stage] at waiting
      cases waiting
    · exact holds
  | @drains _ _ drain due =>
    obtain ⟨flight,found,belongs,_,waiting,_⟩ := rest.balanced.ledger.taken due
    obtain ⟨incomplete,_,_⟩ := (rest.balanced.ledger.formed _ flight found).waiting waiting
    refine Adds.clean (resumeShareProcessing_adds (getElem?_dequeue found)) rfl fun trusts => ?_
    obtain ⟨idle,heard⟩ := opens drain due flight found (by rw [← belongs]; exact trusts)
    rw [← belongs] at idle heard
    have clean := rest.clean (generations _ flight found) incomplete idle fun _ => heard
    exact clean

structure Clean (watched : Watched) : Prop where
  rest : AtRest watched.world
  generations : Generations watched.world
  nothing : watched.blindCredits = []

theorem trusted_credit_clean {watched : Watched} (reachable : (watchedProcessing baseDiff slowHash).ReachableBy
    (fun watched => FindsOpen baseDiff watched.world) watched) : watched.blindCredits = [] := by
  refine (reachable.invariant Clean ?_ ?_).nothing
  · intro start initial
    cases initial
    refine ⟨fresh_atRest,fun i flight found => ?_,rfl⟩
    simp [fresh] at found
  · intro before after label clean opens moved
    obtain ⟨world,stepped,rfl⟩ := Option.map_eq_some_iff.mp moved
    refine ⟨step_atRest clean.rest stepped,step_generations clean.generations clean.rest stepped,?_⟩
    rw [watch,clean.nothing,step_clean clean.rest clean.generations opens stepped]
    rfl

end Crediting

def promptMoment : Moment := { trustingMoment with lastSlowHashAsyncDelay := 0 }

def scheduledRun : List Label :=
  [.submit sampleMoment sampleShare,.submit promptMoment sampleShare,.answer sampleMoment 0 .hash]

theorem scheduledRun_drained : (((watchedProcessing sampleBaseDiff sampleSlowHash).run ⟨fresh,[]⟩ scheduledRun).bind
      fun before =>
    ((watchedProcessing sampleBaseDiff sampleSlowHash).step before (.drain promptMoment 0)).map fun after =>
      (gateOf before.world "4address",before.world.drains.map Drain.trustKey,
        after.world.credits.map Credit.isTrustedShare)) =
    some (⟨0,"4address",0,[],true,false,0⟩,["4address"],[false,true]) := by decide +kernel

theorem scheduledRun_clean : ∃ watched, (watchedProcessing sampleBaseDiff sampleSlowHash).ReachableBy
    (fun watched => FindsOpen sampleBaseDiff watched.world) watched ∧
      watched.world.credits.map Credit.isTrustedShare = [false,true] ∧ watched.blindCredits = [] := by
  obtain ⟨before,ran,stepped⟩ := Option.bind_eq_some_iff.mp scheduledRun_drained
  obtain ⟨after,moved,seen⟩ := Option.map_eq_some_iff.mp stepped
  obtain ⟨gate,rest⟩ := Prod.mk.inj seen
  obtain ⟨keys,credits⟩ := Prod.mk.inj rest
  have scheduled : (watchedProcessing sampleBaseDiff sampleSlowHash).ReachableBy
      (fun watched => FindsOpen sampleBaseDiff watched.world) before := by
    refine Machine.ReachableBy.run (.initial rfl) ?_ ran
    simp [scheduledRun,FindsOpen]
  have opens : FindsOpen sampleBaseDiff before.world (.drain promptMoment 0) := by
    intro drain due flight _ _
    have first : (before.world.drains.map Drain.trustKey)[0]? = some drain.trustKey := by
      rw [List.getElem?_map,show before.world.drains[0]? = some drain from due]
      rfl
    rw [keys] at first
    have key : "4address" = drain.trustKey := Option.some.inj first
    rw [Open,← key,gate]
    exact ⟨rfl,rfl⟩
  have reachable := scheduled.step opens moved
  exact ⟨after,reachable,credits,trusted_credit_clean reachable⟩

def overtakenRun : List Label := scheduledRun ++ [.submit sampleMoment sampleShare,.drain promptMoment 0]

private theorem overtakenRun_blind : ((watchedProcessing sampleBaseDiff sampleSlowHash).run ⟨fresh,[]⟩ overtakenRun).map
    Watched.blindCredits = some [⟨1,.bigint 1,true,false⟩] := by decide +kernel

theorem overtaken_drain : ¬∀ watched, (watchedProcessing sampleBaseDiff sampleSlowHash).Reachable watched →
    watched.blindCredits = [] := by
  intro clean
  obtain ⟨watched,ran,seen⟩ := Option.map_eq_some_iff.mp overtakenRun_blind
  rw [clean watched (Machine.reachable_run rfl ran)] at seen
  cases seen

end NodejsPool.Pool.ShareProcessing
