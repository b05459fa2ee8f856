import NodejsPool.Pool.GateLedger

/-! The books of the trust gate over whole runs: every step keeps them square, and every callback
brings its share nearer to its end. -/
namespace NodejsPool.Pool.ShareProcessing
open Async Entries Option

structure Balanced (world : World) : Prop where
  ledger : Ledger "" 0 0 0 world
  live : ∀ trustKey, Live world trustKey

section Finishing

variable {world : World} {moment : Moment} {share : ℕ} {flight : Flight} {trustKey : String}

theorem releaseVerification_spec (moment : Moment) {drains bytes : ℕ}
    (running : flight.shareProcessingCompleted = false) (free : drains = 0 → bytes = 0)
    (ledger : Ledger flight.share.trustKey (verifying flight.share.trustKey flight) drains bytes world)
    (live : flight.walletVerificationStarted = false → Live world flight.share.trustKey) :
    Ledger flight.share.trustKey 0 drains bytes (releaseVerification moment flight world) ∧
    Live (releaseVerification moment flight world) flight.share.trustKey ∧
    (∀ other, other ≠ flight.share.trustKey →
      gateOf (releaseVerification moment flight world) other = gateOf world other) ∧
    ((gateOf world flight.share.trustKey).draining = true →
      (gateOf (releaseVerification moment flight world) flight.share.trustKey).id =
        (gateOf world flight.share.trustKey).id) := by
  unfold releaseVerification
  by_cases started : flight.walletVerificationStarted = true
  · have owes : verifying flight.share.trustKey flight = 0 + 1 := by simp [verifying,started,running]
    rw [owes] at ledger
    have counted := ledger.account.inFlight
    obtain ⟨gate,found⟩ := get_of_gateOf (.inl (by omega) : (gateOf world flight.share.trustKey).inFlight ≠ 0 ∨ _ ∨ _)
    have unverified := ledger.unverify
    rw [if_pos started,finishTrustVerification]
    obtain ⟨drained,live⟩ := unverified.drain free moment
    refine ⟨drained,live,fun other apart => ?_,fun draining => ?_⟩
    · rw [drainTrustedQueue_aside moment _ _ apart,gateOf_updateGate found,if_neg apart]
    · have gate_eq : gateOf (updateGate flight.share.trustKey (fun gate =>
        { gate with inFlight := gate.inFlight - 1 }) world)
          flight.share.trustKey = { gate with inFlight := gate.inFlight - 1 } := by
        rw [gateOf_updateGate found,if_pos rfl]
      rw [gateOf_eq found] at draining
      rw [drainTrustedQueue_draining moment (by rw [gate_eq]; exact draining),gate_eq,gateOf_eq found]
  · have unstarted : flight.walletVerificationStarted = false := by simpa using started
    have owes : verifying flight.share.trustKey flight = 0 := by simp [verifying,unstarted]
    rw [owes] at ledger
    rw [if_neg started]
    exact ⟨ledger,live unstarted,fun _ _ => rfl,fun _ => rfl⟩

theorem Account.draining_of_drained {verifications bytes : ℕ} (account : Account world trustKey verifications 1 bytes) :
    (gateOf world trustKey).draining = true := by
  have counted := account.draining
  by_contra idle
  rw [if_neg idle] at counted
  omega

theorem releaseEntry_spec (moment : Moment) (running : flight.shareProcessingCompleted = false)
    (ledger : Ledger flight.share.trustKey 0 (drained flight.share.trustKey flight)
      (drainedBytes flight.share.trustKey flight) world)
    (live : Live world flight.share.trustKey)
    (own : ∀ completion ∈ flight.queuedShareCompletion, completion.gate = (gateOf world flight.share.trustKey).id) :
    Ledger flight.share.trustKey 0 0 0 (releaseEntry moment flight world) ∧
    Live (releaseEntry moment flight world) flight.share.trustKey ∧
    ∀ other, other ≠ flight.share.trustKey → gateOf (releaseEntry moment flight world) other = gateOf world other := by
  unfold releaseEntry
  cases holds : flight.queuedShareCompletion with
  | none =>
    have owes : drained flight.share.trustKey flight = 0 ∧ drainedBytes flight.share.trustKey flight = 0 := by
      simp [drained,drainedBytes,holds]
    rw [owes.1,owes.2] at ledger
    exact ⟨ledger,live,fun _ _ => rfl⟩
  | some completion =>
    have owes : drained flight.share.trustKey flight = 1 ∧
        drainedBytes flight.share.trustKey flight = completion.retainedBytes := by
      simp [drained,drainedBytes,holds,running]
    rw [owes.1,owes.2] at ledger
    obtain ⟨gate,found⟩ := get_of_gateOf (.inr (.inl ledger.account.draining_of_drained))
    have same : gate.id = completion.gate := by
      rw [own completion holds,gateOf_eq found]
    simp only [onQueuedShareProcessed,found]
    rw [if_neg (not_not.mpr same)]
    have released := ledger.release found (if gate.queue = [] then false else gate.forceVerify)
    obtain ⟨drained,live⟩ := released.drain (fun _ => rfl) moment
    refine ⟨drained,live,fun other apart => ?_⟩
    rw [drainTrustedQueue_aside moment _ _ apart,gateOf_put rfl,if_neg apart]

theorem drainedBytes_free (running : flight.shareProcessingCompleted = false) :
    drained flight.share.trustKey flight = 0 → drainedBytes flight.share.trustKey flight = 0 := by
  cases holds : flight.queuedShareCompletion <;> simp [drained,drainedBytes,holds,running]

theorem Balanced.ending (moment : Moment) (balanced : Balanced world) (found : world.flights[share]? = some flight)
    (active : flight.stage ≠ .waiting) (running : flight.shareProcessingCompleted = false) (shareAccepted : Option Bool)
    {released : World} (result : releaseVerification moment flight
      (noteFailure flight shareAccepted (complete share shareAccepted world)) = released) :
    Ledger flight.share.trustKey 0 (drained flight.share.trustKey flight)
    (drainedBytes flight.share.trustKey flight) released ∧
    Live released flight.share.trustKey ∧
    (∀ other, other ≠ flight.share.trustKey → Steady (gateOf world other) (gateOf released other)) ∧
    ∀ completion ∈ flight.queuedShareCompletion, completion.gate = (gateOf released flight.share.trustKey).id := by
  subst result
  have completed := balanced.ledger.complete found running active shareAccepted
  obtain ⟨noted,steady⟩ := noteFailure_spec flight shareAccepted completed
  have gates (other : String) : Steady (gateOf world other)
    (gateOf (noteFailure flight shareAccepted (complete share shareAccepted world)) other) := steady other
  have own : ∀ completion ∈ flight.queuedShareCompletion,
      completion.gate = (gateOf world flight.share.trustKey).id := balanced.ledger.owned share flight found running
  generalize noteFailure flight shareAccepted (complete share shareAccepted world) = noted' at noted gates
  obtain ⟨verified,live,beside,keeps⟩ := releaseVerification_spec moment running (drainedBytes_free running) noted
    fun _ => (balanced.live _).steady (gates _)
  refine ⟨verified,live,fun other apart => by rw [beside other apart]; exact gates other,fun completion holds => ?_⟩
  have owes : drained flight.share.trustKey flight = 1 := by
    simp [drained,show flight.queuedShareCompletion = some completion from holds,running]
  rw [keeps (owes ▸ noted.account).draining_of_drained,(gates _).id]
  exact own completion holds

theorem Balanced.finish (balanced : Balanced world) (found : world.flights[share]? = some flight)
    (active : flight.stage ≠ .waiting) (shareAccepted : Option Bool) :
    Balanced (finishShareProcessing moment share shareAccepted world) := by
  simp only [finishShareProcessing,found]
  split
  · exact balanced
  next incomplete =>
    have running : flight.shareProcessingCompleted = false := by simpa using incomplete
    obtain ⟨verified,live,gates,owned⟩ := balanced.ending moment found active running shareAccepted rfl
    obtain ⟨released,live,beside⟩ := releaseEntry_spec moment running verified live owned
    refine ⟨released.settled "",fun other => ?_⟩
    by_cases same : other = flight.share.trustKey
    · rwa [same]
    · refine (balanced.live other).steady ?_
      rw [beside other same]
      exact gates other same

end Finishing

/-! Starting a verification and joining the queue. -/

section Starting

variable {world : World} {moment : Moment} {share : ℕ} {flight : Flight} {trustKey : String}

theorem Balanced.of_eq {after : World} (balanced : Balanced world) (flights : after.flights = world.flights)
    (gates : after.gates = world.gates) (due : after.drains = world.drains)
    (held : after.trustedQueuedBytes = world.trustedQueuedBytes) : Balanced after := by
  refine ⟨balanced.ledger.of_eq flights gates due held,fun other => (balanced.live other).steady ?_⟩
  rw [gateOf_eq_of_gates gates]
  exact .refl _

theorem Balanced.setStage (balanced : Balanced world) (found : world.flights[share]? = some flight)
    (active : flight.stage ≠ .waiting) (incomplete : flight.shareProcessingCompleted = false) (stage : Stage)
    (waits : stage ≠ .waiting) (goes : stage ≠ .done) : Balanced (world.setStage share stage) := by
  have formed := balanced.ledger.formed share flight found
  refine ⟨?_,balanced.live⟩
  refine ((balanced.ledger.settled flight.share.trustKey).reflight found rfl ⟨fun here => absurd here waits,
    fun here => absurd here active⟩ ?_ ?_ ⟨rfl,rfl,rfl⟩).settled ""
  · exact ⟨fun here => absurd here waits,
      ⟨fun here => absurd here goes,fun completed => by simp [incomplete] at completed⟩,
      formed.replies,formed.retained⟩
  · exact fun _ => balanced.ledger.owned share flight found incomplete

theorem Ledger.admit (ledger : Ledger trustKey 0 0 0 world) (payout : String) :
    Ledger trustKey 0 0 0 (getTrustVerificationGate trustKey payout world) := by
  unfold getTrustVerificationGate
  cases found : get world.gates trustKey with
  | some gate => exact ledger
  | none =>
    simp only
    have account := ledger.account
    have here := gateOf_none found
    obtain ⟨undue,undrained,_,_,_⟩ := account.idle (fun _ => rfl) (by rw [here]; rfl)
    have there : gateOf { world with
        gates := put world.gates trustKey { noGate with id := world.nextGate, payout }
        nextGate := world.nextGate + 1 } trustKey = { noGate with id := world.nextGate, payout } := by
      rw [gateOf_put rfl,if_pos rfl]
    have sum := ledger.totals
    refine ledger.aside ⟨fun other apart => ?_,fun _ _ => rfl,rfl,fun _ flight at_i => ⟨flight,at_i,rfl,.inl rfl⟩⟩
      (put_distinct ledger.distinct) ⟨?_,?_,?_⟩ ?_ ?_ ledger.fitsAll ?_ ledger.formed ?_ ?_ ?_
    · rw [gateOf_put rfl,if_neg apart]
    · rw [there]
      have counted := account.inFlight
      rwa [here] at counted
    · rw [there]
      have counted := account.draining
      rwa [here] at counted
    · rw [there]
      have held := account.queuedBytes
      rwa [here] at held
    · rw [total_put,found,sum]
      simp [noGate]
    · rw [there]
      exact Nat.zero_le _
    · intro i
      have placed := ledger.placed trustKey i
      rw [places,here] at placed
      rw [places,there]
      exact placed
    · rw [there]
      simp [noGate]
    · intro drain member
      rw [undue] at member
      cases member
    · intro i next at_i belongs running completion holds
      have idle := tally_eq_zero.mp undrained next (List.mem_of_getElem? at_i)
      simp [drained,belongs,running,show next.queuedShareCompletion = some completion from holds] at idle

theorem getTrustVerificationGate_found (trustKey payout : String) (world : World) :
    ∃ gate, get (getTrustVerificationGate trustKey payout world).gates trustKey = some gate := by
  unfold getTrustVerificationGate
  cases found : get world.gates trustKey with
  | some gate => exact ⟨gate,found⟩
  | none => exact ⟨_,get_put_self⟩

theorem getTrustVerificationGate_aside {other : String} (apart : other ≠ trustKey) (payout : String) :
    gateOf (getTrustVerificationGate trustKey payout world) other = gateOf world other := by
  unfold getTrustVerificationGate
  cases get world.gates trustKey with
  | some gate => rfl
  | none => rw [gateOf_put rfl,if_neg apart]

theorem Ledger.verify {verifications drains bytes : ℕ} {gate : Gate}
    (ledger : Ledger trustKey verifications drains bytes world)
    (found : get world.gates trustKey = some gate) : Ledger trustKey (verifications + 1) drains bytes
      (updateGate trustKey (fun gate => { gate with inFlight := gate.inFlight + 1 }) world) := by
  have account := ledger.account
  have here := gateOf_eq found
  rw [updateGate_some found]
  refine ledger.regate found rfl rfl le_rfl rfl ⟨?_,?_,?_⟩ <;> rw [gateOf_put rfl,if_pos rfl]
  · have counted := account.inFlight
    rw [here] at counted
    simp only [counted]
    rfl
  · have counted := account.draining
    rwa [here] at counted
  · have held := account.queuedBytes
    rwa [here] at held

theorem startAsyncVerification_eq (found : world.flights[share]? = some flight)
    (unstarted : flight.walletVerificationStarted = false) :
    startAsyncVerification share world =
      (updateGate flight.share.trustKey (fun gate => { gate with inFlight := gate.inFlight + 1 })
        (getTrustVerificationGate flight.share.trustKey flight.share.payout world)).update share
          fun flight => { flight with walletVerificationStarted := true } := by
  simp only [startAsyncVerification,found,unstarted,Bool.false_eq_true,if_false,getTrustVerificationGate,
    updateGate,World.update]
  cases here : get world.gates flight.share.trustKey with
  | some gate => simp only [here]
  | none => simp only [get_put_self]

theorem Balanced.start (balanced : Balanced world) (found : world.flights[share]? = some flight)
    (active : flight.stage ≠ .waiting) (incomplete : flight.shareProcessingCompleted = false) :
    Balanced (startAsyncVerification share world) := by
  by_cases started : flight.walletVerificationStarted = true
  · simpa only [startAsyncVerification,found,started,if_true] using balanced
  · have unstarted : flight.walletVerificationStarted = false := by simpa using started
    rw [startAsyncVerification_eq found unstarted]
    have formed := balanced.ledger.formed share flight found
    have own := balanced.ledger.owned share flight found incomplete
    have settled := balanced.ledger.settled flight.share.trustKey
    have admitted := settled.admit flight.share.payout
    obtain ⟨gate,here⟩ := getTrustVerificationGate_found flight.share.trustKey flight.share.payout world
    have verified := admitted.verify here
    have owned : ∀ completion ∈ flight.queuedShareCompletion,
        completion.gate = (gateOf (updateGate flight.share.trustKey (fun gate =>
        { gate with inFlight := gate.inFlight + 1 })
          (getTrustVerificationGate flight.share.trustKey flight.share.payout world)) flight.share.trustKey).id := by
      intro completion holds
      have again := admitted.owned share flight (by rw [getTrustVerificationGate_flights,found]) incomplete
        completion holds
      rw [again,gateOf_updateGate here,if_pos rfl,gateOf_eq here]
    have started : Ledger flight.share.trustKey 0 0 0
        ((updateGate flight.share.trustKey (fun gate => { gate with inFlight := gate.inFlight + 1 })
          (getTrustVerificationGate flight.share.trustKey flight.share.payout world)).update share
            fun flight => { flight with walletVerificationStarted := true }) :=
      verified.reflight (by rw [updateGate_flights,getTrustVerificationGate_flights,found]) rfl Iff.rfl
        ⟨fun here => absurd here active,formed.done,formed.replies,formed.retained⟩ (fun _ => owned)
        ⟨by simp [verifying,unstarted,incomplete],rfl,rfl⟩
    refine ⟨started.settled "",fun other => ?_⟩
    by_cases same : other = flight.share.trustKey
    · refine fun _ => .inl ?_
      change (gateOf (updateGate flight.share.trustKey _ _) other).inFlight ≠ 0
      rw [gateOf_updateGate here,if_pos same]
      exact Nat.succ_ne_zero _
    · refine (balanced.live other).steady ?_
      change Steady _ (gateOf (updateGate flight.share.trustKey _ _) other)
      rw [gateOf_updateGate here,if_neg same,getTrustVerificationGate_aside same]
      exact .refl _

abbrev queued (share : ℕ) (flight : Flight) (gate : Gate) : Gate := { gate with
  queuedBytes := gate.queuedBytes + flight.share.retainedBytes
  queue := gate.queue ++ [⟨share,flight.share.retainedBytes⟩] }

/-- What `pushEntry` leaves, over the gate it finds. -/
structure Pushed (share : ℕ) (flight : Flight) (gate : Gate) (world after : World) : Prop where
  here : get world.gates flight.share.trustKey = some gate
  gates : after.gates = put world.gates flight.share.trustKey (queued share flight gate)
  due : after.drains = world.drains
  held : after.trustedQueuedBytes = world.trustedQueuedBytes + flight.share.retainedBytes
  flights : ∀ i, after.flights[i]? = if share = i then world.flights[i]?.map fun other =>
      { other with stage := .waiting, queuedAt := some (world.failed.count flight.share.trustKey) }
    else world.flights[i]?
  moves : Moves Queued world after

section

variable {gate : Gate} {after : World} (pushed : Pushed share flight gate world after)
include pushed

theorem Pushed.own : gateOf after flight.share.trustKey = queued share flight gate :=
  (gateOf_put pushed.gates _).trans (if_pos rfl)

theorem Pushed.tally_eq (weight : Flight → ℕ)
    (same : ∀ other failures, weight { other with stage := .waiting, queuedAt := failures } = weight other) :
    tally weight after = tally weight world := by
  refine tally_moves pushed.moves fun _ other next _ queued => ?_
  obtain rfl | ⟨failures,rfl⟩ := queued
  · rfl
  · exact same other failures

theorem Pushed.account (account : Account world flight.share.trustKey 0 0 0) :
    Account after flight.share.trustKey 0 0 0 := by
  obtain ⟨inFlight,draining,queuedBytes⟩ := account
  rw [gateOf_eq pushed.here] at inFlight draining queuedBytes
  refine ⟨?_,?_,?_⟩ <;> rw [pushed.own,pushed.tally_eq _ fun _ _ => rfl]
  · exact inFlight
  · rwa [pushed.due]
  · rw [pushed.due]
    simp only [queueBytes,List.map_append,List.sum_append,List.map_cons,List.map_nil,
      List.sum_singleton] at queuedBytes ⊢
    omega

variable (found : world.flights[share]? = some flight)
include found

theorem Pushed.aside : Aside flight.share.trustKey world after := by
  refine ⟨fun other apart => ?_,fun other _ => by rw [pushed.due],pushed.moves.1,fun i other at_i => ?_⟩
  · rw [gateOf_put pushed.gates,if_neg apart]
  · rw [pushed.flights]
    split
    next same =>
      subst same
      cases found.symm.trans at_i
      rw [at_i]
      exact ⟨_,rfl,rfl,.inr rfl⟩
    · exact ⟨other,at_i,rfl,.inl rfl⟩

variable (ledger : Ledger flight.share.trustKey 0 0 0 world) (active : flight.stage ≠ .waiting)
include ledger active

theorem Pushed.placed (i : ℕ) : places after flight.share.trustKey i =
    if (after.flights[i]?).any (isWaiting flight.share.trustKey) then 1 else 0 := by
  have placed := ledger.placed flight.share.trustKey i
  rw [places,gateOf_eq pushed.here] at placed
  rw [places,pushed.own,pushed.due,pushed.flights,List.countP_append]
  by_cases same : share = i
  · subst same
    have absent : isWaiting flight.share.trustKey flight = false := by simp [isWaiting,active]
    rw [found,any_some,absent,if_neg Bool.false_ne_true] at placed
    rw [if_pos rfl,found,map_some,any_some,isWaiting,decide_eq_true rfl,decide_eq_true rfl,List.countP_singleton,
      decide_eq_true rfl]
    simp only [Bool.and_self,if_true]
    omega
  · rw [if_neg same,← placed]
    simp [same]

theorem Pushed.keeps (incomplete : flight.shareProcessingCompleted = false)
    (unstarted : flight.walletVerificationStarted = false) (free : flight.queuedShareCompletion = none)
    (fits : gate.queuedBytes + flight.share.retainedBytes ≤ TRUSTED_QUEUE_KEY_MAX_RETAINED_BYTES)
    (fitsAll : world.trustedQueuedBytes + flight.share.retainedBytes ≤ TRUSTED_QUEUE_MAX_RETAINED_BYTES) :
    Ledger flight.share.trustKey 0 0 0 after := by
  have gate_eq := gateOf_eq pushed.here
  have formed := ledger.formed share flight found
  refine ledger.aside (pushed.aside found) (pushed.gates ▸ put_distinct ledger.distinct) (pushed.account ledger.account)
    ?_ (pushed.own ▸ fits) (pushed.held ▸ fitsAll) (pushed.placed found ledger active) ?_ ?_ ?_ ?_
  · rw [pushed.gates,totals_put pushed.here,← ledger.totals,pushed.held]
    push_cast
    omega
  · intro i next at_i
    rw [pushed.flights] at at_i
    split at at_i
    next same =>
      subst same
      rw [found,map_some] at at_i
      cases at_i
      exact ⟨fun _ => ⟨incomplete,unstarted,free⟩,⟨by simp,fun completed => by simp [incomplete] at completed⟩,
        formed.replies,formed.retained⟩
    · exact ledger.formed i next at_i
  · intro entry member
    rw [pushed.own] at member
    rcases List.mem_append.mp member with inside | last
    · exact ledger.queued _ entry (by rwa [gate_eq])
    · rw [List.mem_singleton.mp last]
      exact ⟨flight,found,rfl⟩
  · intro drain member
    rw [pushed.due] at member
    obtain ⟨inside,belongs⟩ := mem_scheduled.mp member
    obtain ⟨retains,id⟩ := ledger.due drain inside
    rw [belongs,gate_eq] at id
    exact ⟨retains,by rw [pushed.own,id]⟩
  · intro i next at_i belongs running completion holds
    obtain ⟨other,before,rfl | ⟨failures,rfl⟩⟩ := pushed.moves.back at_i
    all_goals
      have id := ledger.owned i _ before running completion holds
      rw [belongs,gate_eq] at id
      rw [pushed.own,id]

end

private theorem pushEntry_pushed {gate : Gate} (here : get world.gates flight.share.trustKey = some gate) :
    Pushed share flight gate world (pushEntry share flight.share.trustKey flight.share.retainedBytes world) := by
  have moves := pushEntry_moves share flight.share.trustKey flight.share.retainedBytes world
  rw [pushEntry,updateGate_some here] at moves ⊢
  exact ⟨here,rfl,rfl,rfl,fun i => getElem?_update,moves⟩

theorem Balanced.push (balanced : Balanced world) (found : world.flights[share]? = some flight)
    (active : flight.stage ≠ .waiting) (incomplete : flight.shareProcessingCompleted = false)
    (unstarted : flight.walletVerificationStarted = false) (free : flight.queuedShareCompletion = none)
    (busy : isBusy flight.share.trustKey world = true) (room : isQueueFull moment flight.share world = false) :
    Balanced (pushEntry share flight.share.trustKey flight.share.retainedBytes world) := by
  obtain ⟨gate,here⟩ : ∃ gate, get world.gates flight.share.trustKey = some gate := by
    cases here : get world.gates flight.share.trustKey with
    | some gate => exact ⟨gate,rfl⟩
    | none => simp [isBusy,here] at busy
  simp only [isQueueFull,here,getD_some,Bool.or_eq_false_iff,decide_eq_false_iff_not,not_lt] at room
  obtain ⟨⟨_,fits⟩,fitsAll⟩ := room
  have pushed : Pushed share flight gate world _ := pushEntry_pushed here
  generalize pushEntry share flight.share.trustKey flight.share.retainedBytes world = after at pushed ⊢
  have ledger := pushed.keeps found (balanced.ledger.settled _) active incomplete unstarted free fits fitsAll
  refine ⟨ledger.settled "",fun other => ?_⟩
  by_cases same : other = flight.share.trustKey
  · subst same
    rw [Live,pushed.own]
    have moving := balanced.live flight.share.trustKey
    rw [Live,gateOf_eq here] at moving
    simp only [isBusy,here,any_some,Bool.or_eq_true,decide_eq_true_eq] at busy
    rcases busy with (verified | draining) | waiting
    · exact fun _ => .inl verified
    · exact fun _ => .inr draining
    · exact fun _ => moving waiting
  · refine (balanced.live other).steady ?_
    rw [gateOf_put pushed.gates,if_neg same]
    exact .refl _

theorem Ledger.taken {owing : String} {callback : ℕ} {drain : Drain} (ledger : Ledger owing 0 0 0 world)
    (due : world.drains[callback]? = some drain) : ∃ flight, world.flights[drain.entry.share]? = some flight ∧
      flight.share.trustKey = drain.trustKey ∧ flight.share.retainedBytes = drain.entry.retainedBytes ∧
      flight.stage = .waiting ∧ drain.gate = (gateOf world drain.trustKey).id ∧
      (gateOf world drain.trustKey).draining = true ∧
      scheduled drain.trustKey world.drains = [drain] ∧
      scheduled drain.trustKey (world.drains.eraseIdx callback) = [] ∧
      ∀ other, other ≠ drain.trustKey → scheduled other (world.drains.eraseIdx callback) =
        scheduled other world.drains := by
  have member := List.mem_of_getElem? due
  obtain ⟨⟨flight,found,retains⟩,id⟩ := ledger.due drain member
  have account := (ledger.settled drain.trustKey).account
  have counted := account.draining
  have placed := ledger.placed drain.trustKey drain.entry.share
  obtain ⟨inside,here⟩ := List.getElem?_eq_some_iff.mp due
  have whole : world.drains = world.drains.take callback ++ drain::world.drains.drop (callback + 1) := by
    rw [← here,List.getElem_cons_drop,List.take_append_drop]
  have erased : world.drains.eraseIdx callback = world.drains.take callback ++ world.drains.drop (callback + 1) :=
    List.eraseIdx_eq_take_drop_succ ..
  have parts (other : String) : scheduled other world.drains =
      scheduled other (world.drains.take callback) ++ scheduled other (drain::world.drains.drop (callback + 1)) := by
    conv_lhs => rw [whole]
    exact List.filter_append ..
  have rest (other : String) : scheduled other (world.drains.eraseIdx callback) =
      scheduled other (world.drains.take callback) ++ scheduled other (world.drains.drop (callback + 1)) := by
    rw [erased]
    exact List.filter_append ..
  have own := parts drain.trustKey
  have kept : scheduled drain.trustKey (drain::world.drains.drop (callback + 1)) =
      drain::scheduled drain.trustKey (world.drains.drop (callback + 1)) := List.filter_cons_of_pos (by simp)
  rw [kept] at own
  rw [own] at counted
  simp only [List.length_append,List.length_cons] at counted
  have draining : (gateOf world drain.trustKey).draining = true := by
    by_contra idle
    rw [if_neg idle] at counted
    omega
  rw [if_pos draining] at counted
  have before : scheduled drain.trustKey (world.drains.take callback) = [] := List.eq_nil_of_length_eq_zero (by omega)
  have behind : scheduled drain.trustKey (world.drains.drop (callback + 1)) = [] :=
    List.eq_nil_of_length_eq_zero (by omega)
  rw [before,behind] at own
  have waiting : (world.flights[drain.entry.share]?).any (isWaiting drain.trustKey) = true := by
    by_contra absent
    rw [if_neg absent,places,own] at placed
    simp at placed
  rw [found,any_some,isWaiting,Bool.and_eq_true] at waiting
  refine ⟨flight,found,of_decide_eq_true waiting.1,retains,of_decide_eq_true waiting.2,id,draining,own,?_,
    fun other apart => ?_⟩
  · rw [rest,before,behind]
    rfl
  · rw [rest,parts]
    congr 1
    exact (List.filter_cons_of_neg (by simpa using apart.symm)).symm

theorem Balanced.take {callback : ℕ} {drain : Drain} (balanced : Balanced world)
    (due : world.drains[callback]? = some drain) :
    Balanced (world.dequeue callback drain) := by
  obtain ⟨flight,found,belongs,retains,waiting,id,draining,own,none_left,others⟩ := balanced.ledger.taken due
  have ledger := balanced.ledger.settled drain.trustKey
  have account := ledger.account
  have formed := ledger.formed _ flight found
  obtain ⟨incomplete,unstarted,free⟩ := formed.waiting waiting
  let after : World := world.dequeue callback drain
  suffices taken : Ledger drain.trustKey 0 0 0 after from ⟨taken.settled "",balanced.live⟩
  have sums (weight : Flight → ℕ) : tally weight after + weight flight = tally weight world +
      weight (drain.begin flight) :=
    tally_update rfl found weight drain.begin
  have flights (i : ℕ) : after.flights[i]? = if drain.entry.share = i then world.flights[i]?.map drain.begin
      else world.flights[i]? :=
    getElem?_update
  have gates (other : String) : gateOf after other = gateOf world other := rfl
  have left : scheduled drain.trustKey after.drains = [] := none_left
  refine ledger.aside ⟨fun other _ => rfl,others,?_⟩ ledger.distinct ⟨?_,?_,?_⟩ ledger.totals (ledger.fits _)
    ledger.fitsAll ?_ ?_ (ledger.queued _) ?_ ?_
  · refine .update rfl (fun other => ⟨rfl,.inl rfl⟩) fun other here => ?_
    cases found.symm.trans here
    exact ⟨rfl,.inr belongs⟩
  · have sum := sums (verifying drain.trustKey)
    have counted := account.inFlight
    have same : verifying drain.trustKey (drain.begin flight) = verifying drain.trustKey flight := rfl
    rw [gates]
    omega
  · have sum := sums (drained drain.trustKey)
    have counted := account.draining
    have before : drained drain.trustKey flight = 0 := by simp [drained,free]
    have after : drained drain.trustKey (drain.begin flight) = 1 := by simp [drained,Drain.begin,belongs,incomplete]
    rw [own,List.length_singleton] at counted
    rw [gates,left,List.length_nil,← counted]
    omega
  · have sum := sums (drainedBytes drain.trustKey)
    have held := account.queuedBytes
    have before : drainedBytes drain.trustKey flight = 0 := by simp [drainedBytes,free]
    have after : drainedBytes drain.trustKey (drain.begin flight) = drain.entry.retainedBytes := by
      simp [drainedBytes,Drain.begin,belongs,incomplete]
    rw [scheduledBytes,own,List.map_singleton,List.sum_singleton] at held
    rw [gates,held,scheduledBytes,left,List.map_nil,List.sum_nil]
    omega
  · intro i
    have placed := ledger.placed drain.trustKey i
    rw [places,own] at placed
    rw [places,left,flights,gates]
    by_cases same : drain.entry.share = i
    · subst same
      have waits : isWaiting drain.trustKey flight = true := by simp [isWaiting,belongs,waiting]
      have runs : isWaiting drain.trustKey (drain.begin flight) = false := by simp [isWaiting,Drain.begin]
      rw [found,any_some,waits,if_pos rfl,List.countP_singleton,decide_eq_true rfl] at placed
      rw [if_pos rfl,found,map_some,any_some,runs]
      simp only [if_true,Bool.false_eq_true,if_false,List.countP_nil] at placed ⊢
      omega
    · rw [if_neg same,← placed]
      simp [same]
  · intro i next at_i
    rw [flights] at at_i
    split at at_i
    next same =>
      subst same
      rw [found,map_some] at at_i
      cases at_i
      refine ⟨by rintro ⟨⟩,⟨by rintro ⟨⟩,fun completed => by simp [Drain.begin,incomplete] at completed⟩,
        formed.replies,?_⟩
      intro completion holds
      cases holds
      exact retains.symm
    · exact ledger.formed i next at_i
  · intro other member
    rw [left] at member
    cases member
  · intro i next at_i same running completion holds
    rw [flights] at at_i
    split at at_i
    next same =>
      subst same
      rw [found,map_some] at at_i
      cases at_i
      cases holds
      exact id
    · have again := ledger.owned i next at_i running completion holds
      rwa [same] at again

theorem Balanced.arrive (balanced : Balanced world) (arriving : Share) : Balanced (world.arrive arriving) := by
  have ledger := balanced.ledger
  let after : World := world.arrive arriving
  have sums (weight : Flight → ℕ) (nothing : weight (newFlight arriving) = 0) :
      tally weight after = tally weight world := by
    change ((world.flights ++ [newFlight arriving]).map weight).sum = _
    rw [List.map_append,List.sum_append,List.map_singleton,List.sum_singleton,nothing]
    rfl
  have back {i : ℕ} {next : Flight} (at_i : after.flights[i]? = some next) :
      world.flights[i]? = some next ∨ next = newFlight arriving := by
    change (world.flights ++ [newFlight arriving])[i]? = some next at at_i
    rw [List.getElem?_append] at at_i
    split at at_i
    · exact .inl at_i
    · exact .inr (List.mem_singleton.mp (List.mem_of_getElem? at_i))
  have keeps {i : ℕ} {flight : Flight} (at_i : world.flights[i]? = some flight) : after.flights[i]? = some flight := by
    obtain ⟨inside,_⟩ := List.getElem?_eq_some_iff.mp at_i
    rw [← at_i]
    exact List.getElem?_append_left inside
  have retained {entry : Entry} (retains : Retains world entry) : Retains after entry := by
    obtain ⟨flight,found,same⟩ := retains
    exact ⟨flight,keeps found,same⟩
  refine ⟨⟨ledger.distinct,fun other => ?_,ledger.totals,ledger.fits,ledger.fitsAll,fun other i => ?_,?_,?_,?_,?_⟩,
    balanced.live⟩
  · have account := ledger.accounts other
    have weights : tally (verifying other) after = tally (verifying other) world ∧
        tally (drained other) after = tally (drained other) world ∧
        tally (drainedBytes other) after = tally (drainedBytes other) world :=
      ⟨sums _ (by simp [verifying,newFlight]),sums _ (by simp [drained,newFlight]),
        sums _ (by simp [drainedBytes,newFlight])⟩
    split at account <;> split <;> exact account.congr rfl rfl weights
  · have placed := ledger.placed other i
    have same : (after.flights[i]?).any (isWaiting other) = (world.flights[i]?).any (isWaiting other) := by
      cases found : world.flights[i]? with
      | some flight => rw [keeps found]
      | none =>
        cases found' : after.flights[i]? with
        | none => rfl
        | some next =>
          rcases back found' with before | rfl
          · rw [before] at found
            cases found
          · simp [isWaiting,newFlight]
    exact placed.trans (by rw [same])
  · intro i next at_i
    rcases back at_i with before | rfl
    · exact ledger.formed i next before
    · exact ⟨by rintro ⟨⟩,⟨by rintro ⟨⟩,by rintro ⟨⟩⟩,rfl,by rintro _ ⟨⟩⟩
  · exact fun other entry member => retained (ledger.queued other entry member)
  · exact fun drain member => ⟨retained (ledger.due drain member).1,(ledger.due drain member).2⟩
  · intro i next at_i running completion holds
    rcases back at_i with before | rfl
    · exact ledger.owned i next before running completion holds
    · cases holds

end Starting

/-! What a step does. -/

section Stepping

variable {world : World} {moment : Moment} {share : ℕ} {flight : Flight}
  {plan : Plan} {change : Flight → Flight} {reply : SubmitReply}

theorem getTrustVerificationGate_busy {trustKey payout : String} (busy : isBusy trustKey world = true) :
    getTrustVerificationGate trustKey payout world = world := by
  unfold getTrustVerificationGate
  cases found : get world.gates trustKey with
  | some gate => rfl
  | none => simp [isBusy,found] at busy

section

variable (balanced : Balanced world)
  (found : world.flights[share]? = some flight)
  (active : flight.stage ≠ .waiting)
  (incomplete : flight.shareProcessingCompleted = false)
include balanced found active incomplete

private theorem enqueueTrustedShare_balanced (unstarted : flight.walletVerificationStarted = false)
    (free : flight.queuedShareCompletion = none)
    (busy : isBusy flight.share.trustKey world = true) : Balanced (enqueueTrustedShare moment share world) := by
  simp only [enqueueTrustedShare,found,getTrustVerificationGate_busy busy]
  split
  · exact balanced.finish found active none
  next room => exact balanced.push found active incomplete unstarted free busy (by simpa using room)

theorem verifyShareCB_balanced (verified : Verified) : Balanced (verifyShareCB moment share verified world) := by
  obtain ⟨blocks,credits,⟨_,same⟩ | ⟨shareAccepted,same⟩⟩ := verifyShareCB_cases found moment verified <;>
    have recorded : Balanced { world with blocks, credits } := balanced.of_eq rfl rfl rfl rfl <;> rw [same]
  · exact recorded.setStage found active incomplete _ (by simp) (by simp)
  · exact recorded.finish found active shareAccepted

theorem carryOut_balanced (enqueues : plan = .enqueue → flight.walletVerificationStarted = false ∧
      flight.queuedShareCompletion = none ∧
      isBusy flight.share.trustKey world = true) : Balanced (carryOut moment share plan world) := by
  have started : ∀ {stage : Stage}, stage ≠ .waiting → stage ≠ .done →
      Balanced ((startAsyncVerification share world).setStage share stage) := by
    intro stage waits goes
    obtain ⟨next,there,same⟩ := (startAsyncVerification_moves share world).2 share flight found
    have stays : next.stage = flight.stage ∧ next.shareProcessingCompleted = flight.shareProcessingCompleted := by
      rcases same with rfl | rfl <;> exact ⟨rfl,rfl⟩
    exact (balanced.start found active incomplete).setStage there (by rwa [stays.1])
      (by rw [stays.2,incomplete]) stage waits goes
  cases plan with
  | finish outcome => exact balanced.finish found active outcome
  | accept verified => exact verifyShareCB_balanced balanced found active incomplete verified
  | enqueue =>
    obtain ⟨unstarted,free,busy⟩ := enqueues rfl
    exact enqueueTrustedShare_balanced balanced found active incomplete unstarted free busy
  | trust verified =>
    unfold carryOut
    simp only
    split
    · exact balanced.setStage found active incomplete _ nofun nofun
    · exact verifyShareCB_balanced balanced found active incomplete verified
  | hash check retries | submit hash trusted => exact started nofun nofun

end

/-! How far a share is from its end. -/

def Check.phase : Check → ℕ
  | .candidate _ => 7
  | _ => 4

/-- What a share waits for never lies before what it has waited for. -/
def Stage.phase : Stage → ℕ
  | .running => 12
  | .waiting => 11
  | .submitting _ true false => 9
  | .submitting _ true true => 8
  | .hashing check _ | .retrying check _ => check.phase
  | .submitting _ false false => 6
  | .submitting _ false true => 5
  | .delayed _ => 3
  | .testSubmitting false => 2
  | .testSubmitting true => 1
  | .done => 0

def Plan.phase : Plan → ℕ
  | .finish _ => 0
  | .accept _ => 2
  | .enqueue => 11
  | .trust _ => 3
  | .hash check _ => check.phase
  | .submit _ trusted => if trusted then 9 else 6

variable {baseDiff : ℕ} {slowHash : String → String}

theorem onHash_phase (moment : Moment) (judged : Share) (answer : HashAnswer) (check : Check) :
    (onHash baseDiff slowHash moment judged answer check).phase < check.phase := by
  cases check with
  | special =>
    simp only [onHash]
    split <;> simp [Plan.phase,Check.phase]
  | slow hash | failedCandidate hash | candidate hash =>
    cases answer with
    | hash =>
      simp only [onHash]
      split <;> simp [Plan.phase,Check.phase]
    | null | failed errorKind => simp [onHash,Plan.phase,Check.phase]

theorem onSubmitted_phase (moment : Moment) (hash : ResultHash) (trusted blockSubmitResult resubmitted : Bool) :
    (onSubmitted baseDiff moment hash trusted blockSubmitResult).phase <
      (Stage.submitting hash trusted resubmitted).phase := by
  cases trusted <;> cases resubmitted <;> cases blockSubmitResult <;> simp [onSubmitted,Plan.phase,
    Check.phase,Stage.phase]

private theorem verifyCandidateOrHash_phase (moment : Moment) (judged : Share) (hash : ResultHash) :
    (verifyCandidateOrHash baseDiff moment judged hash).phase ≤ 9 := by
  unfold verifyCandidateOrHash
  split
  · simp [Plan.phase]
  · split
    · split <;> simp [Plan.phase,Check.phase]
    · simp [Plan.phase,Check.phase]

theorem tryTrustedShare_phase {busy : Bool} {onTrustedShare otherwise : Plan} (trusts : onTrustedShare.phase ≤ 9)
    (verifies : otherwise.phase ≤ 9) : (tryTrustedShare moment flight busy onTrustedShare otherwise).phase ≤ 9 ∨
      tryTrustedShare moment flight busy onTrustedShare otherwise = .enqueue ∧
        flight.isQueuedTrustedShare = false ∧ busy = true := by
  unfold tryTrustedShare
  split
  · exact .inl verifies
  · split
    next waits => exact .inr ⟨rfl,by simpa using waits⟩
    · exact .inl trusts

theorem verifyShare_phase (baseDiff : ℕ) (moment : Moment) (flight : Flight) (busy : Bool) :
    (verifyShare baseDiff moment flight busy).phase ≤ 9 ∨
    verifyShare baseDiff moment flight busy = .enqueue ∧ flight.isQueuedTrustedShare = false ∧ busy = true := by
  have standard : (verifyStandardShare baseDiff moment flight busy).phase ≤ 9 ∨
      verifyStandardShare baseDiff moment flight busy = .enqueue ∧ flight.isQueuedTrustedShare = false ∧
      busy = true := by
    unfold verifyStandardShare
    split
    · exact .inl (by simp [Plan.phase])
    · simp only
      split
      · split
        · exact .inl (by simp [Plan.phase])
        · exact .inl (by simp [Plan.phase])
      · split
        · exact .inl (verifyCandidateOrHash_phase _ _ _)
        · exact tryTrustedShare_phase (by simp [Plan.phase]) (verifyCandidateOrHash_phase _ _ _)
  unfold verifyShare
  split
  · split
    · exact standard
    · exact .inl (by simp [Plan.phase])
    · exact .inl (by simp [Plan.phase])
    · simp only
      split
      · exact .inl (by simp [Plan.phase,Check.phase])
      · exact tryTrustedShare_phase (by simp [Plan.phase]) (by simp [Plan.phase,Check.phase])
  · exact standard

structure Turned (share phase : ℕ) (world after : World) : Prop where
  length : after.flights.length = world.flights.length
  beside : ∀ (i : ℕ) (flight : Flight), i ≠ share → world.flights[i]? = some flight →
    ∃ next, after.flights[i]? = some next ∧ Ended flight next
  turn : ∀ next, after.flights[share]? = some next → next.stage.phase ≤ phase

theorem Turned.mono {phase phase' : ℕ} (turned : Turned share phase world after) (less : phase ≤ phase') :
    Turned share phase' world after :=
  ⟨turned.length,turned.beside,fun next there => (turned.turn next there).trans less⟩

theorem Turned.of_eq {phase : ℕ} {before : World} (turned : Turned share phase before after)
    (length : before.flights.length = world.flights.length)
    (same : ∀ i, i ≠ share → before.flights[i]? = world.flights[i]?) : Turned share phase world after := by
  refine ⟨turned.length.trans length,fun i flight apart found => ?_,turned.turn⟩
  rw [← same i apart] at found
  exact turned.beside i flight apart found

theorem setStage_turned (world : World) (share : ℕ) (stage : Stage) :
    Turned share stage.phase world (world.setStage share stage) := by
  refine ⟨List.length_modify ..,fun i flight apart found => ?_,fun next there => ?_⟩
  · exact ⟨flight,by rw [World.setStage,getElem?_update,if_neg apart.symm,found],.same⟩
  · rw [World.setStage,getElem?_update,if_pos rfl] at there
    obtain ⟨flight,_,rfl⟩ := map_eq_some_iff.mp there
    exact le_rfl

theorem Balanced.finish_turned (balanced : Balanced world) (found : world.flights[share]? = some flight)
    (active : flight.stage ≠ .waiting) (shareAccepted : Option Bool) (phase : ℕ) :
    Turned share phase world (finishShareProcessing moment share shareAccepted world) := by
  obtain ⟨moves,_⟩ := finishShareProcessing_moves moment share shareAccepted world
  have ended : Balanced (finishShareProcessing moment share shareAccepted world) :=
    balanced.finish found active shareAccepted
  have formed := ended.ledger.formed share
  refine ⟨moves.1,fun i flight _ found => moves.2 i flight found,fun next there => ?_⟩
  rw [(formed next there).done.mpr (finishShareProcessing_completes moment share shareAccepted there)]
  exact Nat.zero_le phase

theorem verifyShareCB_turned (balanced : Balanced world) (found : world.flights[share]? = some flight)
    (active : flight.stage ≠ .waiting) (verified : Verified) :
    Turned share 2 world (verifyShareCB moment share verified world) := by
  obtain ⟨blocks,credits,⟨_,same⟩ | ⟨shareAccepted,same⟩⟩ := verifyShareCB_cases found moment verified <;> rw [same]
  · exact (setStage_turned _ share (.testSubmitting false)).of_eq rfl fun _ _ => rfl
  · have recorded : Balanced { world with blocks, credits } := balanced.of_eq rfl rfl rfl rfl
    exact (recorded.finish_turned found active shareAccepted 2).of_eq rfl fun _ _ => rfl

private theorem startAsyncVerification_beside (world : World) (share i : ℕ) (apart : i ≠ share) :
    (startAsyncVerification share world).flights[i]? = world.flights[i]? := by
  unfold startAsyncVerification
  split
  · rfl
  · split
    · rfl
    · rw [updateGate_flights,getTrustVerificationGate_flights,getElem?_update,if_neg apart.symm]

section

variable (balanced : Balanced world) (found : world.flights[share]? = some flight)
include balanced found

private theorem enqueueTrustedShare_turned (active : flight.stage ≠ .waiting)
    (busy : isBusy flight.share.trustKey world = true) :
    Turned share 11 world (enqueueTrustedShare moment share world) := by
  simp only [enqueueTrustedShare,found,getTrustVerificationGate_busy busy]
  split
  · exact balanced.finish_turned found active none 11
  · have moves := pushEntry_moves share flight.share.trustKey flight.share.retainedBytes world
    have flights (i : ℕ) : (pushEntry share flight.share.trustKey flight.share.retainedBytes world).flights[i]? =
        if share = i then world.flights[i]?.map fun flight' =>
          { flight' with stage := .waiting, queuedAt := some (world.failed.count flight.share.trustKey) }
        else world.flights[i]? := by
      rw [pushEntry,getElem?_update,updateGate_flights]
    refine ⟨moves.1,fun i other apart found => ⟨other,by rw [flights,if_neg apart.symm,found],.same⟩,fun next there =>
      ?_⟩
    rw [flights,if_pos rfl,found,map_some] at there
    cases there
    exact le_rfl

theorem carryOut_turned (active : flight.stage ≠ .waiting)
    (enqueues : plan = .enqueue → isBusy flight.share.trustKey world = true) :
    Turned share plan.phase world (carryOut moment share plan world) := by
  have started (stage : Stage) : Turned share stage.phase world
      ((startAsyncVerification share world).setStage share stage) :=
    (setStage_turned _ share stage).of_eq (startAsyncVerification_moves share world).1 fun i apart =>
      startAsyncVerification_beside world share i apart
  cases plan with
  | finish outcome => exact balanced.finish_turned found active outcome 0
  | accept verified => exact verifyShareCB_turned balanced found active verified
  | enqueue => exact enqueueTrustedShare_turned balanced found active (enqueues rfl)
  | trust verified =>
    unfold carryOut
    simp only
    split
    · exact setStage_turned world share (.delayed verified)
    · exact (verifyShareCB_turned balanced found active verified).mono (by simp [Plan.phase])
  | hash check retries => exact started (.hashing check retries)
  | submit hash trusted =>
    cases trusted with
    | false => exact started (.submitting hash false false)
    | true => exact started (.submitting hash true false)

theorem Balanced.touch (same : (change flight).share = flight.share ∧ (change flight).stage = flight.stage ∧
      (change flight).shareProcessingCompleted = flight.shareProcessingCompleted ∧
      (change flight).walletVerificationStarted = flight.walletVerificationStarted ∧
      (change flight).queuedShareCompletion = flight.queuedShareCompletion ∧ (change flight).replies = flight.replies) :
    Balanced (world.update share change) := by
  obtain ⟨sameShare,stage,completed,started,completion,replies⟩ := same
  have formed := balanced.ledger.formed share flight found
  refine ⟨?_,balanced.live⟩
  refine ((balanced.ledger.settled flight.share.trustKey).reflight found sameShare (by rw [stage])
    ⟨?_,?_,?_,?_⟩ ?_ ⟨?_,?_,?_⟩).settled ""
  · rw [stage,completed,started,completion]
    exact formed.waiting
  · rw [stage,completed]
    exact formed.done
  · rw [replies,completed]
    exact formed.replies
  · rw [completion,sameShare]
    exact formed.retained
  · rw [completed,completion]
    exact balanced.ledger.owned share flight found
  · rw [verifying,verifying,sameShare,started,completed]
  · rw [drained,drained,sameShare,completion,completed]
  · rw [drainedBytes,drainedBytes,sameShare,completion,completed]

end

theorem update_turned {phase : ℕ} {before : World}
    (turned : Turned share phase (before.update share change) after) (same : before.flights = world.flights) :
    Turned share phase world after := by
  refine turned.of_eq ?_ fun i apart => ?_
  · rw [World.update,List.length_modify,same]
  · rw [getElem?_update,if_neg apart.symm,same]

theorem resumeShareProcessing_spec (baseDiff : ℕ) (moment : Moment) (balanced : Balanced world)
    (found : world.flights[share]? = some flight)
    (active : flight.stage ≠ .waiting) (incomplete : flight.shareProcessingCompleted = false)
    (direct : flight.isQueuedTrustedShare = false →
      flight.walletVerificationStarted = false ∧ flight.queuedShareCompletion = none) :
    Balanced (resumeShareProcessing baseDiff moment share world) ∧
    (Turned share 9 world (resumeShareProcessing baseDiff moment share world) ∨ flight.isQueuedTrustedShare = false ∧
      Turned share 11 world (resumeShareProcessing baseDiff moment share world)) := by
  simp only [resumeShareProcessing,found]
  have seen : Balanced (world.update share fun flight =>
      { flight with tested := flight.tested || isBlockSubmitTestBypassEnabled moment flight.share }) :=
    balanced.touch found ⟨rfl,rfl,rfl,rfl,rfl,rfl⟩
  have there : (world.update share fun flight =>
      { flight with tested := flight.tested || isBlockSubmitTestBypassEnabled moment flight.share }).flights[share]? =
        some { flight with tested := flight.tested || isBlockSubmitTestBypassEnabled moment flight.share } :=
    getElem?_update_self found
  have planned := verifyShare_phase baseDiff moment flight (isBusy flight.share.trustKey world)
  generalize verifyShare baseDiff moment flight (isBusy flight.share.trustKey world) = plan at planned ⊢
  have enqueues (queues : plan = .enqueue) : flight.isQueuedTrustedShare = false ∧
      isBusy flight.share.trustKey world = true := by
    rcases planned with near | ⟨_,waits⟩
    · rw [queues] at near
      simp [Plan.phase] at near
    · exact waits
  have turned : Turned share plan.phase _ (carryOut moment share plan _) :=
    carryOut_turned seen there active fun queues => (enqueues queues).2
  refine ⟨carryOut_balanced seen there active incomplete fun queues => ?_,?_⟩
  · obtain ⟨unqueued,busy⟩ := enqueues queues
    obtain ⟨unstarted,free⟩ := direct unqueued
    exact ⟨unstarted,free,busy⟩
  · rcases planned with near | ⟨rfl,unqueued,_⟩
    · exact .inl (update_turned (turned.mono near) rfl)
    · exact .inr ⟨unqueued,update_turned turned rfl⟩

structure AtRest (world : World) : Prop where
  balanced : Balanced world
  phases : ∀ (i : ℕ) (flight : Flight), world.flights[i]? = some flight → flight.stage.phase ≤ 11

theorem AtRest.incomplete (rest : AtRest world) (found : world.flights[share]? = some flight)
    (goes : flight.stage ≠ .done) :
    flight.shareProcessingCompleted = false := by
  have formed := rest.balanced.ledger.formed share flight found
  simpa using mt formed.done.mpr goes

theorem AtRest.turned {phase : ℕ} (balanced : Balanced after) (turned : Turned share phase world after)
    (bound : phase ≤ 11) (others : ∀ (i : ℕ) (flight : Flight), i ≠ share → world.flights[i]? = some flight →
      flight.stage.phase ≤ 11) : AtRest after := by
  refine ⟨balanced,fun i next there => ?_⟩
  by_cases here : i = share
  · subst here
    exact (turned.turn next there).trans bound
  · obtain ⟨inside,_⟩ := List.getElem?_eq_some_iff.mp there
    have within : i < world.flights.length := turned.length ▸ inside
    have before : world.flights[i]? = some world.flights[i] := List.getElem?_eq_getElem within
    obtain ⟨other,found,ended⟩ := turned.beside i _ here before
    cases found.symm.trans there
    cases ended with
    | same => exact others i _ here before
    | done _ _ => exact Nat.zero_le 11

def Stage.retries : Stage → ℕ
  | .hashing _ retriesLeft => 2 * retriesLeft
  | .retrying _ retriesLeft => 2 * retriesLeft + 1
  | _ => 0

inductive Descends (world after : World) : Prop
  | nearer (share phase : ℕ) (flight : Flight) (found : world.flights[share]? = some flight)
    (less : phase < flight.stage.phase) (turned : Turned share phase world after)
  | retried (share : ℕ) (flight : Flight) (stage : Stage) (found : world.flights[share]? = some flight)
    (same : stage.phase = flight.stage.phase) (fewer : stage.retries < flight.stage.retries)
    (result : after = world.setStage share stage)

def Label.isCallback : Label → Bool
  | .submit _ _ => false
  | _ => true

variable {after : World}

theorem AtRest.nearer (rest : AtRest world) {phase : ℕ} (found : world.flights[share]? = some flight)
    (less : phase < flight.stage.phase) (balanced : Balanced after) (turned : Turned share phase world after) :
    AtRest after ∧ Descends world after := by
  have bound := rest.phases share flight found
  exact ⟨.turned balanced turned (by omega) fun i other _ here => rest.phases i other here,
    .nearer share phase flight found less turned⟩

theorem AtRest.retried (rest : AtRest world) (found : world.flights[share]? = some flight)
    (active : flight.stage ≠ .waiting)
    (goes : flight.stage ≠ .done) (stage : Stage) (waits : stage ≠ .waiting) (continues : stage ≠ .done)
    (same : stage.phase = flight.stage.phase) (fewer : stage.retries < flight.stage.retries) :
    AtRest (world.setStage share stage) ∧ Descends world (world.setStage share stage) := by
  have bound := rest.phases share flight found
  have balanced := rest.balanced.setStage found active (rest.incomplete found goes) stage waits continues
  exact ⟨.turned balanced (setStage_turned world share stage) (by omega) fun i other _ here => rest.phases i other here,
    .retried share flight stage found same fewer rfl⟩

theorem Plan.ne_enqueue (less : plan.phase < 11) : plan ≠ .enqueue := by
  rintro rfl
  exact absurd less (lt_irrefl 11)

theorem AtRest.concluded (rest : AtRest world) (found : world.flights[share]? = some flight)
    (goes : flight.stage ≠ .done) (active : flight.stage ≠ .waiting) {heard : World} (balanced : Balanced heard)
    (there : heard.flights[share]? = some next) (stage : next.stage = flight.stage)
    (completed : next.shareProcessingCompleted = flight.shareProcessingCompleted)
    (same : ∀ {phase : ℕ} {last : World}, Turned share phase heard last → Turned share phase world last)
    (less : plan.phase < flight.stage.phase) :
    AtRest (carryOut moment share plan heard) ∧ Descends world (carryOut moment share plan heard) := by
  have passes := Plan.ne_enqueue (less.trans_le (rest.phases share flight found))
  have going : next.stage ≠ .waiting := stage.trans_ne active
  exact rest.nearer found less
    (carryOut_balanced balanced there going (completed.trans (rest.incomplete found goes)) fun queues =>
    absurd queues passes)
    (same (carryOut_turned balanced there going fun queues => absurd queues passes))

theorem callback_spec {label : Label} (rest : AtRest world) (callback : label.isCallback = true)
    (moved : step baseDiff slowHash world label = some after) : AtRest after ∧ Descends world after := by
  have heard {share : ℕ} {flight : Flight} (found : world.flights[share]? = some flight) (reply : SubmitReply) :
      Balanced (world.hear share reply) := rest.balanced.touch found ⟨rfl,rfl,rfl,rfl,rfl,rfl⟩
  cases step_moved moved with
  | rejects | begins => cases callback
  | retries _ _ found stage left =>
    refine rest.retried found (by rw [stage]; nofun) (by rw [stage]; nofun) _ nofun nofun ?_ ?_
    · rw [stage]
      rfl
    · rw [stage]
      simp only [Stage.retries]
      omega
  | answers moment _ answer found stage =>
    refine rest.concluded found (by rw [stage]; nofun) (by rw [stage]; nofun) rest.balanced found rfl rfl id ?_
    rw [stage]
    exact onHash_phase ..
  | asks found stage =>
    refine rest.retried found (by rw [stage]; nofun) (by rw [stage]; nofun) _ nofun nofun ?_ ?_
    · rw [stage]
      rfl
    · rw [stage]
      exact Nat.lt_succ_self _
  | @resubmits share _ hash trusted _ reply found stage =>
    have running := rest.incomplete found (by rw [stage]; nofun)
    refine rest.nearer found ?_ ((heard found reply).setStage (getElem?_hear reply found)
      (stage.trans_ne nofun) running _ nofun nofun)
      (update_turned (setStage_turned _ share (.submitting hash trusted true)) rfl)
    rw [stage]
    cases trusted <;> simp [Stage.phase]
  | submitted _ reply found stage =>
    refine rest.concluded found (by rw [stage]; nofun) (by rw [stage]; nofun) (heard found reply)
      (getElem?_hear reply found) rfl rfl (fun turned => update_turned turned rfl) ?_
    rw [stage]
    exact onSubmitted_phase ..
  | retests _ reply found stage =>
    have running := rest.incomplete found (by rw [stage]; nofun)
    refine rest.nearer found ?_ ((heard found reply).setStage (getElem?_hear reply found)
      (stage.trans_ne nofun) running _ nofun nofun) (update_turned (setStage_turned _ _ (.testSubmitting true)) rfl)
    rw [stage]
    simp [Stage.phase]
  | @tested _ _ resubmitted _ reply found stage =>
    refine rest.nearer found ?_ ((heard found reply).finish (getElem?_hear reply found) (stage.trans_ne nofun) _)
      (update_turned ((heard found reply).finish_turned (getElem?_hear reply found) (stage.trans_ne nofun) _ 0) rfl)
    rw [stage]
    cases resubmitted <;> simp [Stage.phase]
  | delivers _ found stage =>
    refine rest.nearer found ?_ (verifyShareCB_balanced rest.balanced found (stage.trans_ne nofun)
      (rest.incomplete found (by rw [stage]; nofun)) _)
      (verifyShareCB_turned rest.balanced found (stage.trans_ne nofun) _)
    rw [stage]
    simp [Stage.phase]
  | drains moment due =>
    obtain ⟨flight,found,_,_,waiting,_⟩ := rest.balanced.ledger.taken due
    obtain ⟨incomplete,_,_⟩ := (rest.balanced.ledger.formed _ flight found).waiting waiting
    obtain ⟨balanced,turned | ⟨unqueued,_⟩⟩ := resumeShareProcessing_spec baseDiff moment (rest.balanced.take due)
      (getElem?_dequeue found) nofun incomplete nofun
    · refine rest.nearer found ?_ balanced (update_turned turned rfl)
      rw [waiting]
      simp [Stage.phase]
    · cases unqueued

theorem step_atRest {label : Label} (rest : AtRest world) (moved : step baseDiff slowHash world label = some after) :
    AtRest after := by
  have arrived (arriving : Share) : Balanced (world.arrive arriving) := rest.balanced.arrive arriving
  have others (arriving : Share) (i : ℕ) (flight : Flight) (apart : i ≠ (world.arrive arriving).flights.length - 1)
      (found : (world.arrive arriving).flights[i]? = some flight) : flight.stage.phase ≤ 11 := by
    obtain ⟨inside,_⟩ := List.getElem?_eq_some_iff.mp found
    simp only [World.arrive,List.length_append,List.length_singleton] at apart inside
    rw [World.arrive,List.getElem?_append_left (by omega)] at found
    exact rest.phases i flight found
  cases step_moved moved with
  | rejects moment arriving =>
    exact .turned ((arrived arriving).finish getElem?_arrive (by rintro ⟨⟩) none)
      ((arrived arriving).finish_turned getElem?_arrive (by rintro ⟨⟩) none 0) (Nat.zero_le _) (others arriving)
  | begins moment arriving =>
    have active : (newFlight arriving).stage ≠ .waiting := by rintro ⟨⟩
    obtain ⟨balanced,turned | ⟨_,turned⟩⟩ :=
      resumeShareProcessing_spec baseDiff moment (arrived arriving) getElem?_arrive
      active rfl fun _ => ⟨rfl,rfl⟩
    · exact .turned balanced turned (by omega) (others arriving)
    · exact .turned balanced turned (by omega) (others arriving)
  | retries | answers | asks | resubmits | submitted | retests | tested | delivers | drains =>
    exact (callback_spec rest rfl moved).1

theorem fresh_atRest : AtRest fresh := by
  have account (trustKey : String) : Account fresh trustKey 0 0 0 := ⟨rfl,rfl,rfl⟩
  have nobody {i : ℕ} {flight : Flight} (found : fresh.flights[i]? = some flight) : False := by simp [fresh] at found
  refine ⟨⟨⟨List.nodup_nil,fun other => ?_,rfl,fun _ => Nat.zero_le _,Nat.zero_le _,fun _ share => ?_,?_,?_,?_,?_⟩,?_⟩,
    ?_⟩
  · split <;> exact account other
  · simp [places,fresh,gateOf,noGate,scheduled]
  · exact fun _ _ found => (nobody found).elim
  · intro other entry member
    simp [gateOf,fresh,noGate] at member
  · intro drain member
    simp [fresh] at member
  · exact fun _ _ found => (nobody found).elim
  · exact fun _ queued => absurd rfl queued
  · exact fun _ _ found => (nobody found).elim

theorem atRest_of_reachable (reachable : (shareProcessing baseDiff slowHash).Reachable world) : AtRest world := by
  refine reachable.invariant AtRest ?_ fun _ _ _ rest _ moved => step_atRest rest moved
  intro start initial
  cases initial
  exact fresh_atRest

end Stepping

end NodejsPool.Pool.ShareProcessing
