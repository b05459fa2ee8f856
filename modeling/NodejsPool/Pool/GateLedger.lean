import Mathlib.Algebra.Order.BigOperators.Group.List
import NodejsPool.Pool.ShareFrames

/-! The books of the trust gate: what its counters count, in the middle of ending a share as well,
where the gate of that share still counts what the share has just given back. -/
namespace NodejsPool.Pool.ShareProcessing
open Entries

variable {world : World} {flight : Flight} {weight : Flight → ℕ} {trustKey : String}

def gateOf (world : World) (trustKey : String) : Gate := (get world.gates trustKey).getD noGate

def tally (weight : Flight → ℕ) (world : World) : ℕ := (world.flights.map weight).sum

def verifying (trustKey : String) (flight : Flight) : ℕ :=
  if flight.share.trustKey = trustKey ∧ flight.walletVerificationStarted = true ∧
    flight.shareProcessingCompleted = false then 1 else 0

def drained (trustKey : String) (flight : Flight) : ℕ :=
  if flight.share.trustKey = trustKey ∧ flight.queuedShareCompletion.isSome ∧
    flight.shareProcessingCompleted = false then 1 else 0

def drainedBytes (trustKey : String) (flight : Flight) : ℕ :=
  if flight.share.trustKey = trustKey ∧ flight.shareProcessingCompleted = false then
    (flight.queuedShareCompletion.map Completion.retainedBytes).getD 0 else 0

def queueBytes (queue : List Entry) : ℕ := (queue.map Entry.retainedBytes).sum

def scheduled (trustKey : String) (drains : List Drain) : List Drain :=
  drains.filter fun drain => drain.trustKey = trustKey

def scheduledBytes (trustKey : String) (drains : List Drain) : ℕ :=
  ((scheduled trustKey drains).map fun drain => drain.entry.retainedBytes).sum

/-- A gate against what it counts; the debts are what a share being ended has not given back. -/
structure Account (world : World) (trustKey : String) (verifications drains bytes : ℕ) : Prop where
  inFlight : (gateOf world trustKey).inFlight = tally (verifying trustKey) world + verifications
  draining : (scheduled trustKey world.drains).length + tally (drained trustKey) world + drains =
    if (gateOf world trustKey).draining then 1 else 0
  queuedBytes : (gateOf world trustKey).queuedBytes = queueBytes (gateOf world trustKey).queue +
    scheduledBytes trustKey world.drains + tally (drainedBytes trustKey) world + bytes

def places (world : World) (trustKey : String) (share : ℕ) : ℕ :=
  (gateOf world trustKey).queue.countP (fun entry => entry.share = share) +
    (scheduled trustKey world.drains).countP fun drain => drain.entry.share = share

def isWaiting (trustKey : String) (flight : Flight) : Bool :=
  flight.share.trustKey = trustKey && flight.stage = .waiting

structure Formed (flight : Flight) : Prop where
  waiting : flight.stage = .waiting → flight.shareProcessingCompleted = false ∧
    flight.walletVerificationStarted = false ∧ flight.queuedShareCompletion = none
  done : flight.stage = .done ↔ flight.shareProcessingCompleted = true
  replies : flight.replies.length = if flight.shareProcessingCompleted then 1 else 0
  retained : ∀ completion ∈ flight.queuedShareCompletion, completion.retainedBytes = flight.share.retainedBytes

def Retains (world : World) (entry : Entry) : Prop :=
  ∃ flight, world.flights[entry.share]? = some flight ∧ flight.share.retainedBytes = entry.retainedBytes

structure Ledger (owing : String) (verifications drains bytes : ℕ) (world : World) : Prop where
  distinct : (world.gates.map Prod.fst).Nodup
  accounts : ∀ trustKey, if trustKey = owing then Account world trustKey verifications drains bytes
    else Account world trustKey 0 0 0
  totals : (world.trustedQueuedBytes : ℤ) = total (fun gate : Gate => (gate.queuedBytes : ℤ)) world.gates
  fits : ∀ trustKey, (gateOf world trustKey).queuedBytes ≤ TRUSTED_QUEUE_KEY_MAX_RETAINED_BYTES
  fitsAll : world.trustedQueuedBytes ≤ TRUSTED_QUEUE_MAX_RETAINED_BYTES
  placed : ∀ trustKey share, places world trustKey share =
    if (world.flights[share]?).any (isWaiting trustKey) then 1 else 0
  formed : ∀ (i : ℕ) (flight : Flight), world.flights[i]? = some flight → Formed flight
  queued : ∀ trustKey, ∀ entry ∈ (gateOf world trustKey).queue, Retains world entry
  due : ∀ drain ∈ world.drains, Retains world drain.entry ∧ drain.gate = (gateOf world drain.trustKey).id
  owned : ∀ (i : ℕ) (flight : Flight), world.flights[i]? = some flight → flight.shareProcessingCompleted = false →
    ∀ completion ∈ flight.queuedShareCompletion, completion.gate = (gateOf world flight.share.trustKey).id

def Live (world : World) (trustKey : String) : Prop :=
  (gateOf world trustKey).queue ≠ [] → (gateOf world trustKey).inFlight ≠ 0 ∨ (gateOf world trustKey).draining = true

/-! Sums over the shares. -/

theorem tally_update {changed : World} {share : ℕ} (same : changed.flights = world.flights)
    (found : world.flights[share]? = some flight) (weight : Flight → ℕ) (change : Flight → Flight) :
    tally weight (changed.update share change) + weight flight = tally weight world + weight (change flight) := by
  unfold tally World.update
  rw [same]
  obtain ⟨inside,here⟩ := List.getElem?_eq_some_iff.mp found
  have parts : (world.flights.map weight).sum =
      ((world.flights.take share).map weight).sum +
      (weight flight + ((world.flights.drop (share + 1)).map weight).sum) := by
    conv_lhs => rw [← List.take_append_drop share world.flights,List.drop_eq_getElem_cons inside,here]
    simp
  rw [List.modify_eq_take_cons_drop inside,here,parts]
  simp only [List.map_append,List.map_cons,List.sum_append,List.sum_cons]
  omega

theorem tally_moves {R : Flight → Flight → Prop} {after : World} (moves : Moves R world after)
    (same : ∀ (i : ℕ) flight next, world.flights[i]? = some flight → R flight next → weight next = weight flight) :
    tally weight after = tally weight world := by
  unfold tally
  congr 1
  apply List.ext_getElem?
  intro i
  rw [List.getElem?_map,List.getElem?_map]
  cases found : world.flights[i]? with
  | none =>
    have outside := List.getElem?_eq_none_iff.mp found
    rw [List.getElem?_eq_none (by rw [moves.1]; exact outside)]
  | some flight =>
    obtain ⟨next,there,related⟩ := moves.2 i flight found
    rw [there,Option.map_some,Option.map_some,same i flight next found related]

theorem tally_eq_zero : tally weight world = 0 ↔ ∀ flight ∈ world.flights, weight flight = 0 := by
  unfold tally
  rw [List.sum_eq_zero_iff_forall_eq_nat]
  exact List.forall_mem_map

theorem scheduledBytes_eq_zero {drains : List Drain} (nothing : (scheduled trustKey drains).length = 0) :
    scheduledBytes trustKey drains = 0 := by
  rw [scheduledBytes,List.eq_nil_of_length_eq_zero nothing]
  rfl

theorem drainedBytes_eq_zero (nothing : tally (drained trustKey) world = 0) :
    tally (drainedBytes trustKey) world = 0 := by
  rw [tally_eq_zero] at nothing ⊢
  intro flight member
  have idle := nothing flight member
  unfold drained at idle
  unfold drainedBytes
  split
  next here =>
    cases completion : flight.queuedShareCompletion with
    | none => rfl
    | some value => simp [here,completion] at idle
  · rfl

/-! Gates. -/

section Gates

variable {world : World} {trustKey other : String} {gate : Gate} {after : World}

theorem gateOf_eq (found : get world.gates trustKey = some gate) :
    gateOf world trustKey = gate := by rw [gateOf,found]; rfl

theorem gateOf_none (absent : get world.gates trustKey = none) :
    gateOf world trustKey = noGate := by rw [gateOf,absent]; rfl

theorem get_of_gateOf (busy : (gateOf world trustKey).inFlight ≠ 0 ∨ (gateOf world trustKey).draining = true ∨
    (gateOf world trustKey).queue ≠ []) : ∃ gate, get world.gates trustKey = some gate := by
  cases found : get world.gates trustKey with
  | some gate => exact ⟨gate,rfl⟩
  | none =>
    rw [gateOf_none found] at busy
    simp [noGate] at busy

theorem gateOf_put (gates : after.gates = put world.gates trustKey gate) (other : String) :
    gateOf after other = if other = trustKey then gate else gateOf world other := by
  unfold gateOf
  rw [gates]
  split
  next same => rw [same,get_put_self]; rfl
  next apart => rw [get_put_other apart]

theorem gateOf_erase (gates : after.gates = erase world.gates trustKey) (other : String) :
    gateOf after other = if other = trustKey then noGate else gateOf world other := by
  unfold gateOf
  rw [gates]
  split
  next same => rw [same,get_erase_self]; rfl
  next apart => rw [get_erase_other apart]

theorem gateOf_eq_of_gates (gates : after.gates = world.gates) (other : String) :
    gateOf after other = gateOf world other := by rw [gateOf,gates]; rfl

end Gates

section Ledgers

variable {world after : World} {owing : String} {verifications drains bytes : ℕ} {trustKey : String}

theorem Ledger.account (ledger : Ledger owing verifications drains bytes world) :
    Account world owing verifications drains bytes := by
  have account := ledger.accounts owing
  rwa [if_pos rfl] at account

theorem Account.congr (account : Account world trustKey verifications drains bytes)
    (gate : gateOf after trustKey = gateOf world trustKey)
    (scheduled : scheduled trustKey after.drains = scheduled trustKey world.drains)
    (weights : tally (verifying trustKey) after = tally (verifying trustKey) world ∧
      tally (drained trustKey) after = tally (drained trustKey) world ∧
      tally (drainedBytes trustKey) after = tally (drainedBytes trustKey) world) :
    Account after trustKey verifications drains bytes := by
  obtain ⟨inFlight,draining,queuedBytes⟩ := account
  obtain ⟨same,also,again⟩ := weights
  constructor
  · rw [gate,same]
    exact inFlight
  · rw [gate,scheduled,also]
    exact draining
  · unfold scheduledBytes at *
    rw [gate,scheduled,again]
    exact queuedBytes

structure Aside (owing : String) (world after : World) : Prop where
  gates : ∀ other, other ≠ owing → gateOf after other = gateOf world other
  drains : ∀ other, other ≠ owing → scheduled other after.drains = scheduled other world.drains
  moves : Moves (fun flight next => next.share = flight.share ∧
    (next = flight ∨ flight.share.trustKey = owing)) world after

theorem Aside.tally_eq (aside : Aside owing world after) {weight : Flight → ℕ} {other : String} (apart : other ≠ owing)
    (own : ∀ flight : Flight, flight.share.trustKey ≠ other → weight flight = 0) :
    tally weight after = tally weight world := by
  refine tally_moves aside.moves fun _ flight next _ related => ?_
  obtain ⟨share,rfl | belongs⟩ := related
  · rfl
  · have elsewhere : flight.share.trustKey ≠ other := fun same => apart (same.symm.trans belongs)
    rw [own flight elsewhere,own next (by rwa [share])]

theorem Aside.any_isWaiting (aside : Aside owing world after) {other : String} (apart : other ≠ owing) (share : ℕ) :
    (after.flights[share]?).any (isWaiting other) = (world.flights[share]?).any (isWaiting other) := by
  cases found : world.flights[share]? with
  | none =>
    have outside := List.getElem?_eq_none_iff.mp found
    rw [List.getElem?_eq_none (by rw [aside.moves.1]; exact outside)]
  | some flight =>
    obtain ⟨next,there,same,rfl | belongs⟩ := aside.moves.2 share flight found
    · rw [there]
    · have elsewhere : flight.share.trustKey ≠ other := fun also => apart (also.symm.trans belongs)
      rw [there,Option.any_some,Option.any_some,isWaiting,isWaiting,same]
      simp [elsewhere]

theorem Aside.retains (aside : Aside owing world after) {entry : Entry} (retains : Retains world entry) :
    Retains after entry := by
  obtain ⟨flight,found,same⟩ := retains
  obtain ⟨next,there,share,_⟩ := aside.moves.2 _ flight found
  exact ⟨next,there,by rw [share,same]⟩

theorem mem_scheduled {drains : List Drain} {drain : Drain} :
    drain ∈ scheduled trustKey drains ↔ drain ∈ drains ∧ drain.trustKey = trustKey := by
  simp [scheduled]

theorem Ledger.aside {verifications' drains' bytes' : ℕ} (ledger : Ledger owing verifications drains bytes world)
    (aside : Aside owing world after) (distinct : (after.gates.map Prod.fst).Nodup)
    (account : Account after owing verifications' drains' bytes')
    (totals : (after.trustedQueuedBytes : ℤ) = total (fun gate : Gate => (gate.queuedBytes : ℤ)) after.gates)
    (fits : (gateOf after owing).queuedBytes ≤ TRUSTED_QUEUE_KEY_MAX_RETAINED_BYTES)
    (fitsAll : after.trustedQueuedBytes ≤ TRUSTED_QUEUE_MAX_RETAINED_BYTES)
    (placed : ∀ share, places after owing share =
      if (after.flights[share]?).any (isWaiting owing) then 1 else 0)
    (formed : ∀ (i : ℕ) (flight : Flight), after.flights[i]? = some flight → Formed flight)
    (queued : ∀ entry ∈ (gateOf after owing).queue, Retains world entry) (due : ∀ drain ∈ scheduled owing after.drains,
      Retains world drain.entry ∧ drain.gate = (gateOf after owing).id)
    (owned : ∀ (i : ℕ) (flight : Flight), after.flights[i]? = some flight → flight.share.trustKey = owing →
      flight.shareProcessingCompleted = false →
      ∀ completion ∈ flight.queuedShareCompletion, completion.gate = (gateOf after owing).id) :
    Ledger owing verifications' drains' bytes' after := by
  refine ⟨distinct,?_,totals,?_,fitsAll,?_,formed,?_,?_,?_⟩
  · intro trustKey
    split
    next same => exact same ▸ account
    next apart =>
      have before := ledger.accounts trustKey
      rw [if_neg apart] at before
      refine before.congr (aside.gates trustKey apart) (aside.drains trustKey apart) ⟨?_,?_,?_⟩
      · exact aside.tally_eq apart fun flight elsewhere => if_neg fun here => elsewhere here.1
      · exact aside.tally_eq apart fun flight elsewhere => if_neg fun here => elsewhere here.1
      · exact aside.tally_eq apart fun flight elsewhere => if_neg fun here => elsewhere here.1
  · intro trustKey
    by_cases same : trustKey = owing
    · rwa [same]
    · rw [aside.gates trustKey same]
      exact ledger.fits trustKey
  · intro trustKey share
    by_cases same : trustKey = owing
    · rw [same]
      exact placed share
    · rw [aside.any_isWaiting same,← ledger.placed trustKey share,places,places,
        aside.gates trustKey same,aside.drains trustKey same]
  · intro trustKey entry member
    by_cases same : trustKey = owing
    · exact aside.retains (queued entry (same ▸ member))
    · rw [aside.gates trustKey same] at member
      exact aside.retains (ledger.queued trustKey entry member)
  · intro drain member
    by_cases same : drain.trustKey = owing
    · obtain ⟨retains,id⟩ := due drain (mem_scheduled.mpr ⟨member,same⟩)
      exact ⟨aside.retains retains,by rw [same,id]⟩
    · have here : drain ∈ scheduled drain.trustKey world.drains := by
        rw [← aside.drains drain.trustKey same]
        exact mem_scheduled.mpr ⟨member,rfl⟩
      obtain ⟨retains,id⟩ := ledger.due drain (mem_scheduled.mp here).1
      exact ⟨aside.retains retains,by rw [aside.gates drain.trustKey same,id]⟩
  · intro i flight found running completion held
    by_cases same : flight.share.trustKey = owing
    · rw [same]
      exact owned i flight found same running completion held
    · obtain ⟨before,there,share,rfl | belongs⟩ := aside.moves.back found
      · rw [aside.gates _ same]
        exact ledger.owned i flight there running completion held
      · exact absurd (share ▸ belongs) same

end Ledgers

/-! Draining. -/

@[simp] theorem Flight.cancelled_share (flight : Flight) : flight.cancelled.share = flight.share := by
  unfold Flight.cancelled
  split <;> rfl

@[simp] theorem Flight.cancelled_completed (flight : Flight) : flight.cancelled.shareProcessingCompleted = true := by
  unfold Flight.cancelled
  split
  next completed => exact completed
  · rfl

def cancelAll (queue : List Entry) (world : World) : World :=
  queue.foldl (fun world entry =>
    cancel entry.share { world with trustedQueuedBytes := world.trustedQueuedBytes - entry.retainedBytes }) world

theorem cancelAll_length (queue : List Entry) (world : World) :
    (cancelAll queue world).flights.length = world.flights.length :=
  (foldl_cancel_quiet queue world).moves.1

theorem cancelAll_frame (queue : List Entry) (world : World) :
    (cancelAll queue world).gates = world.gates ∧ (cancelAll queue world).drains = world.drains ∧
    (cancelAll queue world).trustedQueuedBytes = world.trustedQueuedBytes - queueBytes queue := by
  induction queue generalizing world with
  | nil => exact ⟨rfl,rfl,rfl⟩
  | cons entry queue ih =>
    obtain ⟨gates,drains,bytes⟩ := ih (cancel entry.share
      { world with trustedQueuedBytes := world.trustedQueuedBytes - entry.retainedBytes })
    refine ⟨gates,drains,bytes.trans ?_⟩
    simp only [queueBytes,List.map_cons,List.sum_cons,cancel,World.update]
    omega

theorem cancelAll_flights (queue : List Entry) (world : World) (i : ℕ) : (cancelAll queue world).flights[i]? =
      if i ∈ queue.map Entry.share then world.flights[i]?.map Flight.cancelled else world.flights[i]? := by
  induction queue generalizing world with
  | nil => rfl
  | cons entry queue ih =>
    have first : (cancel entry.share { world with
      trustedQueuedBytes := world.trustedQueuedBytes - entry.retainedBytes }).flights[i]? =
        if entry.share = i then world.flights[i]?.map Flight.cancelled else world.flights[i]? := getElem?_update
    rw [cancelAll,List.foldl_cons]
    refine (ih _).trans ?_
    rw [first,List.map_cons]
    by_cases here : entry.share = i
    · subst here
      rw [if_pos rfl,if_pos List.mem_cons_self]
      split
      · rw [Option.map_map]
        congr 1
        funext flight
        exact Flight.cancelled_cancelled flight
      · rfl
    · rw [if_neg here]
      simp [Ne.symm here]

theorem Formed.cancelled (formed : Formed flight) : Formed flight.cancelled := by
  unfold Flight.cancelled
  split
  · exact formed
  next running =>
    have empty := formed.replies
    rw [if_neg running] at empty
    refine ⟨nofun,⟨fun _ => rfl,fun _ => rfl⟩,?_,formed.retained⟩
    simp [empty]

theorem Formed.weights (formed : Formed flight) (waiting : flight.stage = .waiting) (trustKey : String) :
    (verifying trustKey flight = 0 ∧ drained trustKey flight = 0 ∧ drainedBytes trustKey flight = 0) ∧
    verifying trustKey flight.cancelled = 0 ∧ drained trustKey flight.cancelled = 0 ∧
      drainedBytes trustKey flight.cancelled = 0 := by
  obtain ⟨running,unstarted,free⟩ := formed.waiting waiting
  simp [verifying,drained,drainedBytes,Flight.cancelled,running,unstarted,free]

theorem gate_le_total {gates : List (String × Gate)} {gate : Gate} (found : get gates trustKey = some gate) :
    (gate.queuedBytes : ℤ) ≤ total (fun gate : Gate => (gate.queuedBytes : ℤ)) gates := by
  have member := mem_of_get found
  unfold Entries.total
  apply List.single_le_sum
  · intro bytes inside
    obtain ⟨entry,_,rfl⟩ := List.mem_map.mp inside
    exact Int.natCast_nonneg _
  · exact List.mem_map.mpr ⟨(trustKey,gate),member,rfl⟩

section Draining

variable {world : World} {trustKey : String} {verifications drains bytes : ℕ} {gate : Gate}

theorem Account.idle (account : Account world trustKey verifications drains bytes) (free : drains = 0 → bytes = 0)
    (idle : (gateOf world trustKey).draining = false) :
    scheduled trustKey world.drains = [] ∧ tally (drained trustKey) world = 0 ∧ drains = 0 ∧ bytes = 0 ∧
      (gateOf world trustKey).queuedBytes = queueBytes (gateOf world trustKey).queue := by
  have counted := account.draining
  rw [idle] at counted
  simp only [Bool.false_eq_true,if_false] at counted
  have nobody : (scheduled trustKey world.drains).length = 0 := by omega
  have nothing : tally (drained trustKey) world = 0 := by omega
  have settled : drains = 0 := by omega
  refine ⟨List.eq_nil_of_length_eq_zero nobody,nothing,settled,free settled,?_⟩
  rw [account.queuedBytes,scheduledBytes_eq_zero nobody,drainedBytes_eq_zero nothing,free settled]
  rfl

/-- The queue of a gate that nothing is drained of holds exactly the waiting shares of the key. -/
theorem Ledger.waits (ledger : Ledger trustKey verifications drains bytes world)
    (found : get world.gates trustKey = some gate) (undue : scheduled trustKey world.drains = []) (i : ℕ) :
    (world.flights[i]?).any (isWaiting trustKey) = true ↔ i ∈ gate.queue.map Entry.share := by
  have placed := ledger.placed trustKey i
  rw [places,undue,gateOf_eq found] at placed
  constructor
  · intro waits
    rw [if_pos waits] at placed
    have counted : 0 < gate.queue.countP fun entry => entry.share = i := by
      simp only [List.countP_nil] at placed
      omega
    obtain ⟨entry,member,same⟩ := List.countP_pos_iff.mp counted
    exact List.mem_map.mpr ⟨entry,member,by simpa using same⟩
  · intro inside
    obtain ⟨entry,member,rfl⟩ := List.mem_map.mp inside
    have counted : 0 < gate.queue.countP (fun other => other.share = entry.share) :=
      List.countP_pos_iff.mpr ⟨entry,member,by simp⟩
    by_contra absent
    rw [if_neg absent] at placed
    simp only [List.countP_nil] at placed
    omega

/-- A flight is as it was, or it waited at the key and is cancelled. -/
def Dropped (trustKey : String) (flight next : Flight) : Prop :=
  next = flight ∨ flight.stage = .waiting ∧ flight.share.trustKey = trustKey ∧ Formed flight ∧ next = flight.cancelled

theorem Ledger.dropped (ledger : Ledger trustKey verifications drains bytes world)
    (found : get world.gates trustKey = some gate) (undue : scheduled trustKey world.drains = []) :
    Moves (Dropped trustKey) world (cancelAll gate.queue { world with gates := erase world.gates trustKey }) := by
  refine ⟨cancelAll_length gate.queue _,fun i flight at_i => ?_⟩
  rw [cancelAll_flights gate.queue]
  split
  next inside =>
    have waiting := (ledger.waits found undue i).mpr inside
    rw [at_i,Option.any_some,isWaiting,Bool.and_eq_true] at waiting
    exact ⟨flight.cancelled,by rw [at_i,Option.map_some],
      .inr ⟨of_decide_eq_true waiting.2,of_decide_eq_true waiting.1,ledger.formed i flight at_i,rfl⟩⟩
  · exact ⟨flight,at_i,.inl rfl⟩

private theorem dropped_weights {after : World} (moves : Moves (Dropped trustKey) world after) :
    tally (verifying trustKey) after = tally (verifying trustKey) world ∧
    tally (drained trustKey) after = tally (drained trustKey) world ∧
    tally (drainedBytes trustKey) after = tally (drainedBytes trustKey) world := by
  refine ⟨tally_moves moves ?_,tally_moves moves ?_,tally_moves moves ?_⟩ <;>
  · rintro i flight next _ (rfl | ⟨waiting,_,formed,rfl⟩)
    · rfl
    · have weights := formed.weights waiting trustKey
      omega

theorem Ledger.drop (ledger : Ledger trustKey verifications drains bytes world) (free : drains = 0 → bytes = 0)
    (found : get world.gates trustKey = some gate) (unverified : gate.inFlight = 0) (idle : gate.draining = false) :
    Ledger trustKey verifications drains bytes (cancelAll gate.queue { world with
      gates := erase world.gates trustKey }) := by
  have account := ledger.account
  have here := gateOf_eq found
  obtain ⟨undue,undrained,settled,owed,held⟩ := account.idle free (by rw [here,idle])
  have moves := ledger.dropped found undue
  have queued := ledger.waits found undue
  obtain ⟨gates,drains',released⟩ := cancelAll_frame gate.queue { world with gates := erase world.gates trustKey }
  have flights := cancelAll_flights gate.queue { world with gates := erase world.gates trustKey }
  generalize cancelAll gate.queue { world with gates := erase world.gates trustKey } =
    after at gates drains' released flights moves ⊢
  have gone : gateOf after trustKey = noGate := by rw [gateOf_erase gates,if_pos rfl]
  have weights := dropped_weights moves
  have account' : Account after trustKey verifications drains bytes := by
    refine ⟨?_,?_,?_⟩
    · rw [gone,weights.1,← account.inFlight,here,unverified]
      rfl
    · rw [gone,weights.2.1,drains',undue,undrained,settled]
      rfl
    · rw [gone,weights.2.2,drainedBytes_eq_zero undrained,owed,scheduledBytes_eq_zero (by rw [drains',undue]; rfl)]
      rfl
  refine ledger.aside ⟨?_,?_,?_⟩ ?_ account' ?_ ?_ ?_ ?_ ?_ ?_ ?_ ?_
  · intro other apart
    rw [gateOf_erase gates,if_neg apart]
  · intro other _
    rw [drains']
  · refine moves.mono ?_
    rintro flight next (rfl | ⟨_,belongs,_,rfl⟩)
    · exact ⟨rfl,.inl rfl⟩
    · exact ⟨flight.cancelled_share,.inr belongs⟩
  · rw [gates]
    exact erase_distinct ledger.distinct
  · have enough := gate_le_total found
    rw [← ledger.totals] at enough
    rw [gates,released,total_erase _ ledger.distinct,found,Option.map_some,Option.getD_some,← ledger.totals]
    have held' : gate.queuedBytes = queueBytes gate.queue := by rw [← here]; exact held
    simp only
    omega
  · rw [gone]
    exact Nat.zero_le _
  · rw [released]
    exact (Nat.sub_le _ _).trans ledger.fitsAll
  · intro i
    have outside : (after.flights[i]?).any (isWaiting trustKey) = false := by
      rw [flights i]
      split
      next inside =>
        cases at_i : world.flights[i]? with
        | none => rfl
        | some flight =>
          have finished := (ledger.formed i flight at_i).cancelled.done.mpr flight.cancelled_completed
          simp [isWaiting,finished]
      next outside => simpa using mt (queued i).mp outside
    rw [outside,places,gone,drains',undue]
    rfl
  · intro i next at_i
    obtain ⟨flight,before,rfl | ⟨_,_,formed,rfl⟩⟩ := moves.back at_i
    · exact ledger.formed i next before
    · exact formed.cancelled
  · rw [gone]
    exact nofun
  · rw [drains',undue]
    exact nofun
  · intro i next at_i belongs running completion held
    obtain ⟨flight,before,rfl | ⟨waiting,_,formed,rfl⟩⟩ := moves.back at_i
    · have idle := tally_eq_zero.mp undrained next (List.mem_of_getElem? before)
      rw [drained,if_pos ⟨belongs,Option.isSome_iff_exists.mpr ⟨completion,held⟩,running⟩] at idle
      cases idle
    · simp at running

private theorem scheduled_append (other : String) (drains : List Drain) (drain : Drain) :
    scheduled other (drains ++ [drain]) = scheduled other drains ++ if drain.trustKey = other then [drain] else [] := by
  unfold scheduled
  rw [List.filter_append]
  by_cases same : drain.trustKey = other <;> simp [same]

theorem totals_put {next : Gate} (found : get world.gates trustKey = some gate) :
    total (fun gate : Gate => (gate.queuedBytes : ℤ)) (put world.gates trustKey next) =
      total (fun gate : Gate => (gate.queuedBytes : ℤ)) world.gates - gate.queuedBytes + next.queuedBytes := by
  rw [total_put,found]
  rfl

theorem Ledger.schedule {entry : Entry} {queue : List Entry} (ledger : Ledger trustKey verifications drains bytes world)
    (free : drains = 0 → bytes = 0) (found : get world.gates trustKey = some gate) (idle : gate.draining = false)
    (first : gate.queue = entry::queue) : Ledger trustKey verifications drains bytes { world with
      gates := put world.gates trustKey { gate with queue, draining := true }
      drains := world.drains ++ [⟨trustKey,gate.id,entry,gate.forceVerify⟩] } := by
  have account := ledger.account
  have here := gateOf_eq found
  obtain ⟨undue,undrained,settled,owed,held⟩ := account.idle free (by rw [here,idle])
  generalize result : ({ world with
    gates := put world.gates trustKey { gate with queue, draining := true },
    drains := world.drains ++ [⟨trustKey,gate.id,entry,gate.forceVerify⟩] } : World) = after
  have gates : after.gates = put world.gates trustKey { gate with queue, draining := true } := by rw [← result]
  have drains' : after.drains = world.drains ++ [⟨trustKey,gate.id,entry,gate.forceVerify⟩] := by rw [← result]
  have flights : after.flights = world.flights := by rw [← result]
  have there : gateOf after trustKey = { gate with queue, draining := true } := by rw [gateOf_put gates,if_pos rfl]
  have due : scheduled trustKey after.drains = [⟨trustKey,gate.id,entry,gate.forceVerify⟩] := by
    rw [drains',scheduled_append,undue,if_pos rfl]
    rfl
  have weights (weight : Flight → ℕ) : tally weight after = tally weight world := by rw [tally,flights]; rfl
  have retains := ledger.queued trustKey entry (by rw [here,first]; exact List.mem_cons_self)
  refine ledger.aside ⟨?_,?_,?_⟩ ?_ ⟨?_,?_,?_⟩ ?_ ?_ ?_ ?_ ?_ ?_ ?_ ?_
  · intro other apart
    rw [gateOf_put gates,if_neg apart]
  · intro other apart
    rw [drains',scheduled_append,if_neg (Ne.symm apart),List.append_nil]
  · exact ⟨by rw [flights],fun i flight at_i => ⟨flight,by rw [flights,at_i],rfl,.inl rfl⟩⟩
  · rw [gates]
    exact put_distinct ledger.distinct
  · rw [there,weights,← account.inFlight,here]
  · rw [there,due,weights,undrained,settled]
    rfl
  · have whole : gate.queuedBytes = queueBytes gate.queue := by rw [← here]; exact held
    rw [there,scheduledBytes,due,weights,drainedBytes_eq_zero undrained,owed]
    simp only [whole,first,queueBytes,List.map_cons,List.map_nil,List.sum_cons,List.sum_nil]
    omega
  · rw [gates,totals_put found,← ledger.totals,← result]
    simp
  · have fits := ledger.fits trustKey
    rw [here] at fits
    rwa [there]
  · rw [← result]
    exact ledger.fitsAll
  · intro share
    have placed := ledger.placed trustKey share
    rw [places,undue,here,first,List.countP_cons] at placed
    rw [places,due,there,flights,← placed]
    simp
  · intro i flight at_i
    rw [flights] at at_i
    exact ledger.formed i flight at_i
  · intro other member
    rw [there] at member
    exact ledger.queued trustKey other (by rw [here,first]; exact List.mem_cons_of_mem _ member)
  · intro drain member
    rw [due] at member
    rw [List.mem_singleton.mp member,there]
    exact ⟨retains,rfl⟩
  · intro i flight at_i belongs running completion holds
    rw [flights] at at_i
    have id := ledger.owned i flight at_i running completion holds
    rw [belongs,here] at id
    rw [there,id]

theorem Ledger.drain (ledger : Ledger trustKey verifications drains bytes world) (free : drains = 0 → bytes = 0)
    (moment : Moment) : Ledger trustKey verifications drains bytes (drainTrustedQueue moment trustKey world) ∧
      Live (drainTrustedQueue moment trustKey world) trustKey := by
  unfold drainTrustedQueue
  cases found : get world.gates trustKey with
  | none =>
    refine ⟨ledger,?_⟩
    rw [Live,gateOf_none found]
    exact fun queued => absurd rfl queued
  | some gate =>
    simp only
    split
    next busy =>
      refine ⟨ledger,fun _ => ?_⟩
      rwa [gateOf_eq found]
    next idle =>
      obtain ⟨unverified,undraining⟩ := not_or.mp idle
      have unverified : gate.inFlight = 0 := not_not.mp unverified
      have undraining : gate.draining = false := by simpa using undraining
      have dropped := ledger.drop free found unverified undraining
      split
      · refine ⟨dropped,?_⟩
        rw [Live,gateOf_erase (cancelAll_frame gate.queue _).1,if_pos rfl]
        exact fun queued => absurd rfl queued
      · split
        next empty =>
          rw [empty] at dropped
          refine ⟨dropped,?_⟩
          rw [Live,gateOf_erase rfl,if_pos rfl]
          exact fun queued => absurd rfl queued
        next entry queue first =>
          refine ⟨ledger.schedule free found undraining first,?_⟩
          rw [Live,gateOf_put rfl,if_pos rfl]
          exact fun _ => .inr rfl

theorem drainTrustedQueue_aside (moment : Moment) (world : World) (trustKey : String) {other : String}
    (apart : other ≠ trustKey) :
    gateOf (drainTrustedQueue moment trustKey world) other = gateOf world other := by
  unfold drainTrustedQueue
  cases found : get world.gates trustKey with
  | none => rfl
  | some gate =>
    simp only
    split
    · rfl
    · split
      · exact (gateOf_erase (cancelAll_frame gate.queue _).1 other).trans (if_neg apart)
      · split
        · exact (gateOf_erase rfl other).trans (if_neg apart)
        · exact (gateOf_put rfl other).trans (if_neg apart)

end Draining

/-! Ending a share. -/

section Ending

variable {world : World} {owing trustKey : String} {verifications drains bytes : ℕ} {gate : Gate}
  {verifications' : ℕ} {flight : Flight} {change : Gate → Gate}

theorem Ledger.settled (ledger : Ledger owing 0 0 0 world) (trustKey : String) : Ledger trustKey 0 0 0 world := by
  refine { ledger with accounts := fun other => ?_ }
  have account := ledger.accounts other
  split at account <;> split <;> exact account

theorem gateOf_updateGate (found : get world.gates trustKey = some gate) (change : Gate → Gate) (other : String) :
    gateOf (updateGate trustKey change world) other = if other = trustKey then change gate else gateOf world other := by
  unfold updateGate
  rw [found]
  exact gateOf_put rfl other

theorem Ledger.regate {drains' bytes' held : ℕ} {next : Gate}
    (ledger : Ledger trustKey verifications drains bytes world) (found : get world.gates trustKey = some gate)
    (id : next.id = gate.id) (queue : next.queue = gate.queue) (less : next.queuedBytes ≤ gate.queuedBytes)
    (shifts : held + gate.queuedBytes = world.trustedQueuedBytes + next.queuedBytes)
    (account : Account { world with gates := put world.gates trustKey next, trustedQueuedBytes := held } trustKey
      verifications' drains' bytes') :
    Ledger trustKey verifications' drains' bytes'
      { world with gates := put world.gates trustKey next, trustedQueuedBytes := held } := by
  have here := gateOf_eq found
  generalize result :
    ({ world with gates := put world.gates trustKey next, trustedQueuedBytes := held } : World) = after at account ⊢
  have gates : after.gates = put world.gates trustKey next := by rw [← result]
  have same : after.drains = world.drains := by rw [← result]
  have flights : after.flights = world.flights := by rw [← result]
  have holds : after.trustedQueuedBytes = held := by rw [← result]
  have there : gateOf after trustKey = next := by rw [gateOf_put gates,if_pos rfl]
  refine ledger.aside ⟨?_,?_,?_⟩ ?_ account ?_ ?_ ?_ ?_ ?_ ?_ ?_ ?_
  · intro other apart
    rw [gateOf_put gates,if_neg apart]
  · intro other _
    rw [same]
  · exact ⟨by rw [flights],fun i flight at_i => ⟨flight,by rw [flights,at_i],rfl,.inl rfl⟩⟩
  · rw [gates]
    exact put_distinct ledger.distinct
  · rw [gates,totals_put found,← ledger.totals,holds]
    omega
  · have fits := ledger.fits trustKey
    rw [here] at fits
    rw [there]
    exact less.trans fits
  · have fits := ledger.fitsAll
    rw [holds]
    omega
  · intro share
    have placed := ledger.placed trustKey share
    rw [places,here] at placed
    rw [places,there,same,flights,queue,placed]
  · intro i flight at_i
    rw [flights] at at_i
    exact ledger.formed i flight at_i
  · intro entry member
    rw [there,queue] at member
    exact ledger.queued trustKey entry (by rwa [here])
  · intro drain member
    rw [same] at member
    obtain ⟨inside,belongs⟩ := mem_scheduled.mp member
    obtain ⟨retains,due⟩ := ledger.due drain inside
    rw [belongs,here] at due
    exact ⟨retains,by rw [there,id,due]⟩
  · intro i flight at_i belongs running completion holds
    rw [flights] at at_i
    have own := ledger.owned i flight at_i running completion holds
    rw [belongs,here] at own
    rw [there,id,own]

theorem Ledger.reflight {drains' bytes' share : ℕ} {change : Flight → Flight}
    (ledger : Ledger flight.share.trustKey verifications drains bytes world)
    (found : world.flights[share]? = some flight)
    (same : (change flight).share = flight.share) (waits : (change flight).stage = .waiting ↔ flight.stage = .waiting)
    (formed : Formed (change flight))
    (owned : (change flight).shareProcessingCompleted = false → ∀ completion ∈ (change flight).queuedShareCompletion,
      completion.gate = (gateOf world flight.share.trustKey).id)
    (owes : verifying flight.share.trustKey (change flight) + verifications' =
        verifying flight.share.trustKey flight + verifications ∧
      drained flight.share.trustKey (change flight) + drains' = drained flight.share.trustKey flight + drains ∧
      drainedBytes flight.share.trustKey (change flight) + bytes' = drainedBytes flight.share.trustKey flight + bytes) :
    Ledger flight.share.trustKey verifications' drains' bytes' (world.update share change) := by
  have account := ledger.account
  have sums (weight : Flight → ℕ) : tally weight (world.update share change) + weight flight = tally weight world +
      weight (change flight) :=
    tally_update rfl found weight change
  have gate (other : String) : gateOf (world.update share change) other = gateOf world other := rfl
  have flights (i : ℕ) : (world.update share change).flights[i]? =
      if share = i then world.flights[i]?.map change else world.flights[i]? := getElem?_update
  obtain ⟨verifications_eq,drains_eq,bytes_eq⟩ := owes
  refine ledger.aside ⟨fun other _ => rfl,fun other _ => rfl,?_⟩ ledger.distinct ⟨?_,?_,?_⟩
    ledger.totals (ledger.fits _) ledger.fitsAll ?_ ?_ (ledger.queued _) ?_ ?_
  · refine .update rfl (fun other => ⟨rfl,.inl rfl⟩) fun other here => ?_
    cases found.symm.trans here
    exact ⟨same,.inr rfl⟩
  · have counted := account.inFlight
    have sum := sums (verifying flight.share.trustKey)
    rw [gate]
    omega
  · have counted := account.draining
    have sum := sums (drained flight.share.trustKey)
    rw [gate,← counted]
    change (scheduled flight.share.trustKey world.drains).length + _ + _ = _
    omega
  · have held := account.queuedBytes
    have sum := sums (drainedBytes flight.share.trustKey)
    rw [gate]
    change _ = _ + scheduledBytes flight.share.trustKey world.drains + _ + _
    omega
  · intro i
    have waiting : ((world.update share change).flights[i]?).any (isWaiting flight.share.trustKey) =
        (world.flights[i]?).any (isWaiting flight.share.trustKey) := by
      rw [flights i]
      split
      next here =>
        subst here
        simp [found,isWaiting,same,waits]
      · rfl
    rw [waiting]
    exact ledger.placed _ i
  · intro i next there
    rw [flights i] at there
    split at there
    next here =>
      subst here
      rw [found,Option.map_some] at there
      exact Option.some.inj there ▸ formed
    · exact ledger.formed i next there
  · intro drain member
    obtain ⟨inside,belongs⟩ := mem_scheduled.mp member
    obtain ⟨retains,due⟩ := ledger.due drain inside
    rw [belongs] at due
    exact ⟨retains,due⟩
  · intro i next there belongs running completion holds
    rw [flights i] at there
    split at there
    next here =>
      subst here
      rw [found,Option.map_some] at there
      cases there
      exact owned running completion holds
    · have own := ledger.owned i next there running completion holds
      rwa [belongs] at own

theorem Formed.complete (formed : Formed flight) (running : flight.shareProcessingCompleted = false)
    (shareAccepted : Option Bool) : Formed { flight with
      shareProcessingCompleted := true, stage := .done, replies := flight.replies ++ [shareAccepted] } := by
  have empty := formed.replies
  rw [running] at empty
  refine ⟨nofun,⟨fun _ => rfl,fun _ => rfl⟩,?_,formed.retained⟩
  simpa using empty

theorem Ledger.complete {share : ℕ} (ledger : Ledger owing 0 0 0 world)
    (found : world.flights[share]? = some flight) (running : flight.shareProcessingCompleted = false)
    (active : flight.stage ≠ .waiting) (shareAccepted : Option Bool) :
    Ledger flight.share.trustKey (verifying flight.share.trustKey flight) (drained flight.share.trustKey flight)
      (drainedBytes flight.share.trustKey flight) (complete share shareAccepted world) := by
  have formed := (ledger.formed share flight found).complete running shareAccepted
  refine (ledger.settled flight.share.trustKey).reflight found rfl ⟨nofun,fun waiting =>
    absurd waiting active⟩ formed nofun ⟨?_,?_,?_⟩
  · simp [verifying]
  · simp [drained]
  · simp [drainedBytes]

theorem Ledger.of_eq {after : World} (ledger : Ledger owing verifications drains bytes world)
    (flights : after.flights = world.flights) (gates : after.gates = world.gates) (due : after.drains = world.drains)
    (held : after.trustedQueuedBytes = world.trustedQueuedBytes) : Ledger owing verifications drains bytes after := by
  cases world
  cases after
  dsimp only at flights gates due held
  subst flights gates due held
  refine ⟨ledger.distinct,fun other => ?_,ledger.totals,ledger.fits,ledger.fitsAll,ledger.placed,ledger.formed,
    ledger.queued,ledger.due,ledger.owned⟩
  have account := ledger.accounts other
  by_cases same : other = owing
  · rw [if_pos same] at account ⊢
    exact account.congr rfl rfl ⟨rfl,rfl,rfl⟩
  · rw [if_neg same] at account ⊢
    exact account.congr rfl rfl ⟨rfl,rfl,rfl⟩

theorem updateGate_some (found : get world.gates trustKey = some gate) (change : Gate → Gate) :
    updateGate trustKey change world = { world with gates := put world.gates trustKey (change gate) } := by
  unfold updateGate
  rw [found]

theorem updateGate_none (absent : get world.gates trustKey = none) (change : Gate → Gate) :
    updateGate trustKey change world = world := by
  unfold updateGate
  rw [absent]

structure Remodes (change : Gate → Gate) : Prop where
  id : ∀ gate, (change gate).id = gate.id
  inFlight : ∀ gate, (change gate).inFlight = gate.inFlight
  queue : ∀ gate, (change gate).queue = gate.queue
  draining : ∀ gate, (change gate).draining = gate.draining
  queuedBytes : ∀ gate, (change gate).queuedBytes = gate.queuedBytes

theorem Ledger.remode (ledger : Ledger trustKey verifications drains bytes world)
    (remodes : Remodes change) : Ledger trustKey verifications drains bytes (updateGate trustKey change world) := by
  cases found : get world.gates trustKey with
  | none => rwa [updateGate_none found]
  | some gate =>
    rw [updateGate_some found]
    have account := ledger.account
    have here := gateOf_eq found
    have there : gateOf { world with gates := put world.gates trustKey (change gate) } trustKey = change gate := by
      rw [gateOf_put rfl,if_pos rfl]
    have same := remodes.queuedBytes gate
    refine ledger.regate found (remodes.id gate) (remodes.queue gate) same.le (by rw [same]) ⟨?_,?_,?_⟩
    · rw [there,remodes.inFlight,← here]
      exact account.inFlight
    · rw [there,remodes.draining,← here]
      exact account.draining
    · rw [there,remodes.queuedBytes,remodes.queue,← here]
      exact account.queuedBytes

structure Steady (before after : Gate) : Prop where
  id : after.id = before.id
  inFlight : after.inFlight = before.inFlight
  queue : after.queue = before.queue
  draining : after.draining = before.draining

theorem Steady.refl (gate : Gate) : Steady gate gate := ⟨rfl,rfl,rfl,rfl⟩

theorem Live.steady {after : World} (live : Live world trustKey) (steady : Steady (gateOf world trustKey)
      (gateOf after trustKey)) :
    Live after trustKey := by
  rw [Live,steady.inFlight,steady.queue,steady.draining]
  exact live

private theorem gateOf_remode (remodes : Remodes change) (other : String) :
    Steady (gateOf world other) (gateOf (updateGate trustKey change world) other) := by
  cases found : get world.gates trustKey with
  | none =>
    rw [updateGate_none found]
    exact .refl _
  | some gate =>
    rw [gateOf_updateGate found]
    split
    next same =>
      subst same
      rw [gateOf_eq found]
      exact ⟨remodes.id gate,remodes.inFlight gate,remodes.queue gate,remodes.draining gate⟩
    · exact .refl _

private theorem remodes_mark : Remodes fun gate =>
    if gate.queue ≠ [] ∨ gate.draining then { gate with forceVerify := true } else gate := by
  constructor <;> intro gate <;> split <;> rfl

theorem noteFailure_spec (flight : Flight) (shareAccepted : Option Bool)
    (ledger : Ledger flight.share.trustKey verifications drains bytes world) :
    Ledger flight.share.trustKey verifications drains bytes (noteFailure flight shareAccepted world) ∧
    ∀ other, Steady (gateOf world other) (gateOf (noteFailure flight shareAccepted world) other) := by
  have same (other : String) : Steady (gateOf world other) (gateOf world other) := .refl _
  unfold noteFailure markTrustVerificationFailed
  simp only
  split
  · split
    · exact ⟨(ledger.remode remodes_mark).of_eq rfl rfl rfl rfl,gateOf_remode remodes_mark⟩
    · exact ⟨ledger.of_eq rfl rfl rfl rfl,same⟩
  · split
    · exact ⟨ledger.remode remodes_mark,gateOf_remode remodes_mark⟩
    · exact ⟨ledger,same⟩

theorem Ledger.unverify (ledger : Ledger trustKey (verifications + 1) drains bytes world) :
    Ledger trustKey verifications drains bytes
      (updateGate trustKey (fun gate => { gate with inFlight := gate.inFlight - 1 }) world) := by
  have account := ledger.account
  obtain ⟨gate,found⟩ := get_of_gateOf (.inl (by rw [account.inFlight]; omega) :
    (gateOf world trustKey).inFlight ≠ 0 ∨ _ ∨ _)
  rw [updateGate_some found]
  have here := gateOf_eq found
  have there : gateOf { world with gates := put world.gates trustKey { gate with inFlight := gate.inFlight - 1 } }
    trustKey =
      { gate with inFlight := gate.inFlight - 1 } := by rw [gateOf_put rfl,if_pos rfl]
  refine ledger.regate found rfl rfl le_rfl rfl ⟨?_,?_,?_⟩
  · have counted := account.inFlight
    rw [here] at counted
    rw [there,counted]
    rfl
  · have counted := account.draining
    rw [here] at counted
    rw [there]
    exact counted
  · have held := account.queuedBytes
    rw [here] at held
    rw [there,held]
    rfl

theorem Ledger.release (ledger : Ledger trustKey verifications 1 bytes world)
    (found : get world.gates trustKey = some gate) (forceVerify : Bool) : Ledger trustKey verifications 0 0 { world with
      gates := put world.gates trustKey { gate with
        queuedBytes := gate.queuedBytes - bytes, draining := false, forceVerify }
      trustedQueuedBytes := world.trustedQueuedBytes - bytes } := by
  have account := ledger.account
  have here := gateOf_eq found
  have enough := gate_le_total found
  rw [← ledger.totals] at enough
  have held := account.queuedBytes
  rw [here] at held
  refine ledger.regate found rfl rfl (Nat.sub_le _ _)
    (by simp only; omega) ⟨?_,?_,?_⟩ <;> rw [gateOf_put rfl,if_pos rfl]
  · have counted := account.inFlight
    rwa [here] at counted
  · have counted := account.draining
    rw [here] at counted
    simp only [tally,Bool.false_eq_true,if_false] at counted ⊢
    split at counted <;> omega
  · simp only [tally] at held ⊢
    omega

theorem drainTrustedQueue_draining (moment : Moment) (draining : (gateOf world trustKey).draining = true) :
    drainTrustedQueue moment trustKey world = world := by
  obtain ⟨gate,found⟩ := get_of_gateOf (.inr (.inl draining))
  rw [gateOf_eq found] at draining
  unfold drainTrustedQueue
  rw [found]
  exact if_pos (.inr draining)

end Ending

end NodejsPool.Pool.ShareProcessing
