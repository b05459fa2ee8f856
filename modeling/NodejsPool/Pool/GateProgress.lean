import NodejsPool.Pool.CreditSoundness
import NodejsPool.Pool.GateAccounting

/-! The accounts of the trust gate: its counters count what they should, its queues are bounded and
never left to themselves, and callbacks run out only when every share has been completed. -/
namespace NodejsPool.Pool.ShareProcessing
open Async Entries

/-! Callbacks run out. -/

section Ending

variable {world after : World} {baseDiff : ℕ} {slowHash : String → String} {flight : Flight} {trustKey : String}

def stageTally (measure : Stage → ℕ) (world : World) : ℕ := tally (fun flight => measure flight.stage) world

private theorem tally_range (weight : Flight → ℕ) (world : World) : tally weight world =
    ((List.range world.flights.length).map fun i => ((world.flights[i]?).map weight).getD 0).sum := by
  unfold tally
  congr 1
  apply List.ext_getElem
  · simp
  · intro i inside _
    rw [List.length_map] at inside
    simp [inside]

private theorem Turned.stageTally_lt {share phase : ℕ} (turned : Turned share phase world after)
    (found : world.flights[share]? = some flight) (less : phase < flight.stage.phase) :
    stageTally Stage.phase after < stageTally Stage.phase world := by
  have within : share < world.flights.length := (List.getElem?_eq_some_iff.mp found).1
  have own : (((after.flights[share]?).map fun flight => flight.stage.phase).getD 0) ≤ phase := by
    cases there : after.flights[share]? with
    | none => exact Nat.zero_le _
    | some next => exact turned.turn next there
  rw [stageTally,stageTally,tally_range,tally_range,turned.length]
  refine List.sum_lt_sum _ _ (fun i inside => ?_) ⟨share,List.mem_range.mpr within,?_⟩
  · by_cases here : i = share
    · subst here
      rw [found]
      exact own.trans less.le
    · have bound : i < world.flights.length := List.mem_range.mp inside
      have before : world.flights[i]? = some world.flights[i] := List.getElem?_eq_getElem bound
      obtain ⟨next,there,ended⟩ := turned.beside i _ here before
      rw [before,there]
      cases ended with
      | same => exact le_rfl
      | done _ _ => exact Nat.zero_le _
  · rw [found]
    exact own.trans_lt less

theorem Descends.less (descends : Descends world after) :
    Prod.Lex (· < ·) (· < ·) (stageTally Stage.phase after,stageTally Stage.retries after)
      (stageTally Stage.phase world,stageTally Stage.retries world) := by
  cases descends with
  | nearer share phase flight found less turned => exact .left _ _ (turned.stageTally_lt found less)
  | retried share flight stage found same fewer result =>
    subst result
    have moved (measure : Stage → ℕ) : stageTally measure (world.setStage share stage) + measure flight.stage =
        stageTally measure world + measure stage :=
      tally_update rfl found (fun flight => measure flight.stage) fun flight => { flight with stage }
    have phases := moved Stage.phase
    have retries := moved Stage.retries
    have equal : stageTally Stage.phase (world.setStage share stage) = stageTally Stage.phase world := by omega
    rw [equal]
    exact .right _ (by omega)

def Callback (baseDiff : ℕ) (slowHash : String → String) (world after : World) : Prop :=
  ∃ label : Label, label.isCallback = true ∧ step baseDiff slowHash world label = some after

theorem AtRest.callbacks_end (rest : AtRest world) :
    Acc (fun after world => Callback baseDiff slowHash world after) world := by
  have wellFounded : WellFounded (Prod.Lex (· < ·) (· < ·) : ℕ × ℕ → ℕ × ℕ → Prop) :=
    WellFounded.prod_lex Nat.lt_wfRel.wf Nat.lt_wfRel.wf
  generalize measured : (stageTally Stage.phase world,stageTally Stage.retries world) = measure
  induction measure using wellFounded.induction generalizing world with
  | _ measure ih =>
    subst measured
    constructor
    rintro after ⟨label,callback,moved⟩
    obtain ⟨rest,descends⟩ := callback_spec rest callback moved
    exact ih _ descends.less rest rfl

theorem callback_of_isSome {label : Label} (callback : label.isCallback = true)
    (due : (step baseDiff slowHash world label).isSome = true) : ∃ after, Callback baseDiff slowHash world after := by
  obtain ⟨after,moved⟩ := Option.isSome_iff_exists.mp due
  exact ⟨after,label,callback,moved⟩

theorem AtRest.due (rest : AtRest world) {i : ℕ} (found : world.flights[i]? = some flight)
    (active : flight.stage ≠ .waiting) (incomplete : flight.shareProcessingCompleted = false) :
    ∃ after, Callback baseDiff slowHash world after := by
  have goes : flight.stage ≠ .done := fun done => by
    rw [(rest.balanced.ledger.formed i flight found).done.mp done] at incomplete
    cases incomplete
  cases stage : flight.stage with
  | running =>
    have bound := rest.phases i flight found
    rw [stage] at bound
    exact absurd bound (by decide)
  | waiting => exact absurd stage active
  | done => exact absurd stage goes
  | delayed verified =>
    refine callback_of_isSome (rfl : (Label.delay sampleMoment i).isCallback = true) ?_
    simp only [step,found,Option.bind_eq_bind,Option.bind_some,stage]
    rfl
  | hashing check retriesLeft =>
    refine callback_of_isSome (rfl : (Label.answer sampleMoment i .hash).isCallback = true) ?_
    simp only [step,onAnswer,found,Option.bind_eq_bind,Option.bind_some,stage]
    rfl
  | retrying check retriesLeft =>
    refine callback_of_isSome (rfl : (Label.retry i).isCallback = true) ?_
    simp only [step,found,Option.bind_eq_bind,Option.bind_some,stage]
    rfl
  | submitting hash trusted resubmitted | testSubmitting resubmitted =>
    refine callback_of_isSome (rfl : (Label.daemon sampleMoment i .accepted).isCallback = true) ?_
    simp only [step,onReply,found,Option.bind_eq_bind,Option.bind_some,stage]
    split <;> rfl

theorem due_of_scheduled {drain : Drain} (member : drain ∈ world.drains) :
    ∃ after, Callback baseDiff slowHash world after := by
  obtain ⟨callback,due⟩ := List.mem_iff_getElem?.mp member
  refine callback_of_isSome (rfl : (Label.drain sampleMoment callback).isCallback = true) ?_
  simp only [step,onDrain,due,Option.bind_eq_bind,Option.bind_some]
  rfl

theorem AtRest.counted (rest : AtRest world) {weight : Flight → ℕ} (counts : tally weight world ≠ 0)
    (sees : ∀ flight, weight flight ≠ 0 → flight.shareProcessingCompleted = false ∧
      (flight.walletVerificationStarted = true ∨ flight.queuedShareCompletion.isSome = true)) :
    ∃ (i : ℕ) (flight : Flight), world.flights[i]? = some flight ∧ weight flight ≠ 0 ∧ flight.stage ≠ .waiting := by
  obtain ⟨flight,member,counted⟩ : ∃ flight ∈ world.flights, weight flight ≠ 0 := by
    by_contra nobody
    push Not at nobody
    exact counts (tally_eq_zero.mpr nobody)
  obtain ⟨i,found⟩ := List.mem_iff_getElem?.mp member
  refine ⟨i,flight,found,counted,fun waiting => ?_⟩
  obtain ⟨_,unstarted,free⟩ := (rest.balanced.ledger.formed i flight found).waiting waiting
  rcases (sees flight counted).2 with started | holds
  · rw [unstarted] at started
    cases started
  · rw [free] at holds
    cases holds

private theorem verifying_ne_zero (counts : verifying trustKey flight ≠ 0) :
    flight.share.trustKey = trustKey ∧ flight.walletVerificationStarted = true ∧
    flight.shareProcessingCompleted = false := by
  by_contra other
  exact counts (if_neg other)

theorem drained_ne_zero (counts : drained trustKey flight ≠ 0) :
    flight.share.trustKey = trustKey ∧ flight.queuedShareCompletion.isSome = true ∧
    flight.shareProcessingCompleted = false := by
  by_contra other
  exact counts (if_neg other)

theorem AtRest.moving (rest : AtRest world) (queued : (gateOf world trustKey).queue ≠ []) :
    (gateOf world trustKey).inFlight ≠ 0 ∨ scheduled trustKey world.drains ≠ [] ∨
    tally (drained trustKey) world ≠ 0 := by
  rcases rest.balanced.live trustKey queued with verifies | draining
  · exact .inl verifies
  · have counted := (rest.balanced.ledger.settled trustKey).account.draining
    rw [if_pos draining] at counted
    by_cases due : scheduled trustKey world.drains = []
    · refine .inr (.inr ?_)
      rw [due,List.length_nil] at counted
      omega
    · exact .inr (.inl due)

theorem AtRest.completed (rest : AtRest world) (quiet : ∀ after, ¬Callback baseDiff slowHash world after) :
    ∀ flight ∈ world.flights, flight.shareProcessingCompleted = true := by
  have idle {i : ℕ} {flight : Flight} (found : world.flights[i]? = some flight) (active : flight.stage ≠ .waiting) :
      flight.shareProcessingCompleted = true := by
    by_contra incomplete
    obtain ⟨after,due⟩ : ∃ after, Callback baseDiff slowHash world after :=
      rest.due found active (by simpa using incomplete)
    exact quiet after due
  have undue (drain : Drain) (member : drain ∈ world.drains) : False := by
    obtain ⟨after,due⟩ : ∃ after, Callback baseDiff slowHash world after := due_of_scheduled member
    exact quiet after due
  intro flight member
  obtain ⟨i,found⟩ := List.mem_iff_getElem?.mp member
  by_cases waiting : flight.stage = .waiting
  · exfalso
    have placed := rest.balanced.ledger.placed flight.share.trustKey i
    have waits : isWaiting flight.share.trustKey flight = true := by simp [isWaiting,waiting]
    rw [found,Option.any_some,waits,if_pos rfl,places] at placed
    have nowhere : scheduled flight.share.trustKey world.drains = [] := by
      rw [List.eq_nil_iff_forall_not_mem]
      exact fun drain inside => undue drain (mem_scheduled.mp inside).1
    have queued : (gateOf world flight.share.trustKey).queue ≠ [] := by
      intro empty
      rw [empty,nowhere] at placed
      simp at placed
    rcases rest.moving queued with verifies | scheduled | drains
    · rw [(rest.balanced.ledger.settled flight.share.trustKey).account.inFlight,Nat.add_zero] at verifies
      obtain ⟨j,other,here,counts,active⟩ := rest.counted verifies fun other counts =>
        ⟨(verifying_ne_zero counts).2.2,.inl (verifying_ne_zero counts).2.1⟩
      have running := (verifying_ne_zero counts).2.2
      rw [idle here active] at running
      cases running
    · exact scheduled nowhere
    · obtain ⟨j,other,here,counts,active⟩ := rest.counted drains fun other counts =>
        ⟨(drained_ne_zero counts).2.2,.inr (drained_ne_zero counts).2.1⟩
      have running := (drained_ne_zero counts).2.2
      rw [idle here active] at running
      cases running
  · exact idle found waiting

end Ending

/-! The accounts. -/

section Accounts

variable {world : World} {baseDiff : ℕ} {slowHash : String → String}

theorem gate_accounting (reachable : (shareProcessing baseDiff slowHash).Reachable world) :
    (∀ trustKey, (gateOf world trustKey).inFlight = tally (verifying trustKey) world ∧
      (gateOf world trustKey).queuedBytes = queueBytes (gateOf world trustKey).queue +
        scheduledBytes trustKey world.drains + tally (drainedBytes trustKey) world ∧
      (gateOf world trustKey).queuedBytes ≤ TRUSTED_QUEUE_KEY_MAX_RETAINED_BYTES) ∧
    ((world.trustedQueuedBytes : ℤ) = total (fun gate : Gate => (gate.queuedBytes : ℤ)) world.gates ∧
      world.trustedQueuedBytes ≤ TRUSTED_QUEUE_MAX_RETAINED_BYTES) ∧
    ((∀ flight ∈ world.flights, flight.replies.length ≤ 1) ∧
      Acc (fun after world => Callback baseDiff slowHash world after) world ∧
      ((∀ after, ¬Callback baseDiff slowHash world after) → ∀ flight ∈ world.flights, flight.replies.length = 1)) ∧
    ∀ trustKey, (gateOf world trustKey).queue ≠ [] → (gateOf world trustKey).inFlight ≠ 0 ∨
      (∃ drain ∈ world.drains, drain.trustKey = trustKey) ∨
      ∃ flight ∈ world.flights, flight.share.trustKey = trustKey ∧ flight.queuedShareCompletion.isSome = true ∧
        flight.shareProcessingCompleted = false := by
  have rest := atRest_of_reachable reachable
  have replied {flight : Flight} (member : flight ∈ world.flights) :
      flight.replies.length = if flight.shareProcessingCompleted then 1 else 0 := by
    obtain ⟨i,found⟩ := List.mem_iff_getElem?.mp member
    exact (rest.balanced.ledger.formed i flight found).replies
  refine ⟨fun trustKey => ?_,⟨rest.balanced.ledger.totals,rest.balanced.ledger.fitsAll⟩,⟨?_,rest.callbacks_end,?_⟩,?_⟩
  · have account := (rest.balanced.ledger.settled trustKey).account
    exact ⟨account.inFlight,account.queuedBytes,rest.balanced.ledger.fits trustKey⟩
  · intro flight member
    rw [replied member]
    split <;> decide
  · intro quiet flight member
    rw [replied member,if_pos (rest.completed quiet flight member)]
  · intro trustKey queued
    rcases rest.moving queued with verifies | due | drains
    · exact .inl verifies
    · obtain ⟨drain,member⟩ := List.exists_mem_of_ne_nil _ due
      exact .inr (.inl ⟨drain,(mem_scheduled.mp member).1,(mem_scheduled.mp member).2⟩)
    · obtain ⟨i,flight,found,counts,_⟩ := rest.counted drains fun flight counts =>
        ⟨(drained_ne_zero counts).2.2,.inr (drained_ne_zero counts).2.1⟩
      exact .inr (.inr ⟨flight,List.mem_of_getElem? found,drained_ne_zero counts⟩)

def trustingMoment : Moment :=
  { sampleMoment with trustThreshold := some 1, trustMin := some 0, minerTrust := some ⟨1000,0⟩,
                      walletTrust := some 1000000, lastSlowHashAsyncDelay := 5 }

def retainedShare : Share := { sampleShare with retainedBytes := 100 }

end Accounts
end NodejsPool.Pool.ShareProcessing
