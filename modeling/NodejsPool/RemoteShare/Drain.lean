import Mathlib.Data.List.Infix
import NodejsPool.Async.Machine

/-! The share queue of the remote share ingress: accepted shares wait in memory
and are written in chunks by a timer and its `setImmediate` continuations. -/
namespace NodejsPool.RemoteShare
open Async Option List

/-- What the drain does to the outside, oldest first. A flush waiter is settled in a state with the
given queue depth and reject flag. -/
inductive Effect (Share : Type) where
  | accepted (share : Share)
  | stored (batch : List Share)
  | failed (batch : List Share)
  | resolved (waiter depth : Nat) (lmdbRejecting : Bool)
  | rejected (waiter : Nat) (error : String)

structure ShareStats where
  accepted : Nat := 0
  flushBatches : Nat := 0
  flushed : Nat := 0
  maxQueueDepth : Nat := 0
  totalAccepted : Nat := 0
  totalFlushed : Nat := 0

/-- `setImmediates` counts the scheduled `flushNextChunk` callbacks. -/
structure State (Share : Type) where
  lmdbRejecting : Bool := false
  shareDrainActive : Bool := false
  shareDrainWaiters : List Nat := []
  shareQueue : List Share := []
  shareStats : ShareStats := {}
  shareTimer : Bool := false
  setImmediates : Nat := 0
  effects : List (Effect Share) := []

variable {Share : Type}

def maxSafeInteger : Int := 9007199254740991

def shareBatchSize (requested : Option Int) : { size : Nat // 0 < size } :=
  match requested with
  | some size => if positive : 0 < size ∧ size ≤ maxSafeInteger then ⟨size.toNat,by omega⟩ else ⟨5000,by omega⟩
  | none => ⟨5000,by omega⟩

def enterRejectMode (s : State Share) : State Share := {s with lmdbRejecting := true}

def queueShare (s : State Share) (share : Share) : State Share :=
  if s.lmdbRejecting then s
  else
    let queue := s.shareQueue ++ [share]
    {s with
      shareQueue := queue
      shareStats := {s.shareStats with
        accepted := s.shareStats.accepted + 1
        totalAccepted := s.shareStats.totalAccepted + 1
        maxQueueDepth := max queue.length s.shareStats.maxQueueDepth}
      shareTimer := true
      effects := s.effects ++ [.accepted share]}

def settleWaiter (s : State Share) (error : Option String) (waiter : Nat) : Effect Share :=
  match error with
  | some error => .rejected waiter error
  | none => .resolved waiter s.shareQueue.length s.lmdbRejecting

def resolveShareDrainWaiters (s : State Share) (error : Option String) : State Share :=
  {s with shareDrainWaiters := [], effects := s.effects ++ s.shareDrainWaiters.map (settleWaiter s error)}

def finishShareDrain (s : State Share) (error : Option String) : State Share :=
  let s := {s with shareDrainActive := false}
  if error.isSome || s.shareQueue.isEmpty then resolveShareDrainWaiters s error else s

/-- `stored` says whether `storeShares` commits or throws. -/
def flushNextChunk (size : Nat) (s : State Share) (stored : Bool) : State Share :=
  if s.shareQueue.isEmpty then finishShareDrain s none
  else
    let batch := s.shareQueue.take size
    let s := {s with shareQueue := s.shareQueue.drop size}
    if stored then
      let s := {s with
        shareStats := {s.shareStats with
          flushBatches := s.shareStats.flushBatches + 1
          flushed := s.shareStats.flushed + batch.length
          totalFlushed := s.shareStats.totalFlushed + batch.length}
        effects := s.effects ++ [.stored batch]}
      if s.shareQueue.isEmpty then finishShareDrain s none
      else {s with setImmediates := s.setImmediates + 1}
    else
      let s := enterRejectMode {s with effects := s.effects ++ [.failed batch]}
      let s := {s with shareQueue := batch ++ s.shareQueue, shareDrainActive := false}
      resolveShareDrainWaiters s none

def drainShareQueue (size : Nat) (s : State Share) (stored : Bool) : State Share :=
  if s.lmdbRejecting then resolveShareDrainWaiters {s with shareDrainActive := false} none
  else if s.shareDrainActive || s.shareQueue.isEmpty then
    if !s.shareDrainActive && s.shareQueue.isEmpty then resolveShareDrainWaiters s none else s
  else flushNextChunk size {s with shareDrainActive := true} stored

def onShareTimer (size : Nat) (s : State Share) (stored : Bool) : State Share :=
  drainShareQueue size {s with shareTimer := false} stored

def waitForShareDrain (size : Nat) (s : State Share) (waiter : Nat) (stored : Bool) : State Share :=
  if s.lmdbRejecting then {s with effects := s.effects ++ [settleWaiter s none waiter]}
  else if !s.shareDrainActive && s.shareQueue.isEmpty then
    {s with effects := s.effects ++ [settleWaiter s none waiter]}
  else
    let s := {s with shareDrainWaiters := s.shareDrainWaiters ++ [waiter]}
    if !s.shareDrainActive && !s.shareQueue.isEmpty then drainShareQueue size s stored else s

/-- `stop` clears the timer before it awaits the drain. -/
def stopIntervals (s : State Share) : State Share := {s with shareTimer := false}

def logShareSummary (s : State Share) : State Share :=
  {s with shareStats := {s.shareStats with
    accepted := 0, flushed := 0, flushBatches := 0, maxQueueDepth := s.shareQueue.length}}

/-- The turns of the event loop that reach the queue. A turn carries the fate of the one `storeShares`
call it may make; `rejectWrites` is a reject mode entered elsewhere. -/
inductive Turn (Share : Type) where
  | queueShare (share : Share)
  | shareTimer (stored : Bool)
  | setImmediate (stored : Bool)
  | rejectWrites
  | stopIntervals
  | waitForShareDrain (waiter : Nat) (stored : Bool)
  | logShareSummary

def turn (size : Nat) (s : State Share) : Turn Share → Option (State Share)
  | .queueShare share => some (queueShare s share)
  | .shareTimer stored => if s.shareTimer then some (onShareTimer size s stored) else none
  | .setImmediate stored =>
    if s.setImmediates = 0 then none
    else some (flushNextChunk size {s with setImmediates := s.setImmediates - 1} stored)
  | .rejectWrites => some (enterRejectMode s)
  | .stopIntervals => some (stopIntervals s)
  | .waitForShareDrain waiter stored => some (waitForShareDrain size s waiter stored)
  | .logShareSummary => some (logShareSummary s)

def shareRuntime (Share : Type) (options : Option Int) : Machine (State Share) (Turn Share) where
  initial s := s = {}
  step := turn (shareBatchSize options).val

def Turn.Offers : Turn Share → Prop
  | .queueShare _ => True
  | _ => False

/-- New effects that only settle waiters, in the state `s` they are settled in. -/
def Settles (s : State Share) (news : List (Effect Share)) : Prop :=
  ∀ effect ∈ news, (∃ waiter, effect = .resolved waiter s.shareQueue.length s.lmdbRejecting) ∧
    (s.shareQueue = [] ∨ s.lmdbRejecting = true)

/-- What a turn does to the queue and the effects; only one that offers a share may accept one. -/
inductive Change (offers : Prop) (s t : State Share) : Prop
  | settle (news : List (Effect Share)) (queue : t.shareQueue = s.shareQueue)
      (effects : t.effects = s.effects ++ news) (settles : Settles t news)
  | accept (offered : offers) (share : Share) (queue : t.shareQueue = s.shareQueue ++ [share])
      (effects : t.effects = s.effects ++ [.accepted share])
  | store (batch : List Share) (news : List (Effect Share)) (queue : s.shareQueue = batch ++ t.shareQueue)
      (effects : t.effects = s.effects ++ .stored batch :: news) (settles : Settles t news)
  | fail (batch rest : List Share) (news : List (Effect Share)) (before : s.shareQueue = batch ++ rest)
      (queue : t.shareQueue = batch ++ rest) (rejecting : t.lmdbRejecting = true)
      (effects : t.effects = s.effects ++ .failed batch :: news) (settles : Settles t news)

variable {offers : Prop}

theorem Change.from {r s t : State Share} (change : Change offers s t) (queue : s.shareQueue = r.shareQueue)
    (effects : s.effects = r.effects) : Change offers r t := by
  cases change with
  | settle news same grown settles => exact .settle news (same.trans queue) (effects ▸ grown) settles
  | accept offered share same grown => exact .accept offered share (queue ▸ same) (effects ▸ grown)
  | store batch news same grown settles =>
    exact .store batch news (queue.symm.trans same) (effects ▸ grown) settles
  | fail batch rest news before same rejecting grown settles =>
    exact .fail batch rest news (queue.symm.trans before) same rejecting (effects ▸ grown) settles

private theorem settles_nil (s : State Share) : Settles s [] := by simp [Settles]

private theorem settles_waiters (s : State Share) (ready : s.shareQueue = [] ∨ s.lmdbRejecting = true) :
    Settles (resolveShareDrainWaiters s none) (s.shareDrainWaiters.map (settleWaiter s none)) := by
  intro effect member
  obtain ⟨waiter,_,rfl⟩ := mem_map.mp member
  exact ⟨⟨waiter,rfl⟩,ready⟩

private theorem finish_settles (s : State Share) : ∃ news,
    (finishShareDrain s none).shareQueue = s.shareQueue ∧
      (finishShareDrain s none).effects = s.effects ++ news ∧ Settles (finishShareDrain s none) news := by
  simp only [finishShareDrain]
  split
  next empty =>
    have empty : s.shareQueue = [] := by simpa using empty
    exact ⟨_,rfl,rfl,settles_waiters {s with shareDrainActive := false} (.inl empty)⟩
  next => exact ⟨[],rfl,by simp,settles_nil _⟩

theorem flush_change (size : Nat) (s : State Share) (stored : Bool) :
    Change offers s (flushNextChunk size s stored) := by
  have split : s.shareQueue = s.shareQueue.take size ++ s.shareQueue.drop size :=
    (take_append_drop size s.shareQueue).symm
  unfold flushNextChunk
  split
  next =>
    obtain ⟨news,queue,effects,settles⟩ := finish_settles s
    exact .settle news queue effects settles
  next =>
    cases stored with
    | true =>
      simp only [if_true]
      split
      next =>
        obtain ⟨news,queue,effects,settles⟩ := finish_settles {s with
          shareQueue := s.shareQueue.drop size
          shareStats := {s.shareStats with
            flushBatches := s.shareStats.flushBatches + 1
            flushed := s.shareStats.flushed + (s.shareQueue.take size).length
            totalFlushed := s.shareStats.totalFlushed + (s.shareQueue.take size).length}
          effects := s.effects ++ [.stored (s.shareQueue.take size)]}
        refine .store (s.shareQueue.take size) news (split.trans ?_) (effects.trans ?_) settles
        · rw [queue]
        · exact append_assoc ..
      next => exact .store (s.shareQueue.take size) [] split rfl (settles_nil _)
    | false =>
      simp only [Bool.false_eq_true,if_false]
      exact .fail _ _ _ split rfl rfl (append_assoc ..) (settles_waiters _ (.inr rfl))

theorem drain_change (size : Nat) (s : State Share) (stored : Bool) :
    Change offers s (drainShareQueue size s stored) := by
  unfold drainShareQueue
  split
  next rejecting => exact .settle _ rfl rfl (settles_waiters _ (.inr rejecting))
  next =>
    split
    next =>
      split
      next idle =>
        have empty : s.shareQueue = [] := by simp_all
        exact .settle _ rfl rfl (settles_waiters s (.inl empty))
      next => exact .settle [] rfl (by simp) (settles_nil _)
    next =>
      exact (flush_change size {s with shareDrainActive := true} stored).from rfl rfl

private theorem wait_change (size : Nat) (s : State Share) (waiter : Nat) (stored : Bool) :
    Change offers s (waitForShareDrain size s waiter stored) := by
  unfold waitForShareDrain
  split
  next rejecting => exact .settle [_] rfl rfl (by simp [Settles,settleWaiter,rejecting])
  next =>
    split
    next idle =>
      have empty : s.shareQueue = [] := by simp_all
      exact .settle [_] rfl rfl (by simp [Settles,settleWaiter,empty])
    next =>
      simp only
      split
      next => exact (drain_change size _ stored).from rfl rfl
      next => exact .settle [] rfl (by simp) (settles_nil _)

theorem turn_change {size : Nat} {s t : State Share} {event : Turn Share}
    (moved : turn size s event = some t) : Change event.Offers s t := by
  cases event with
  | queueShare share =>
    cases moved
    unfold queueShare
    split
    next => exact .settle [] rfl (by simp) (settles_nil _)
    next => exact .accept trivial share rfl rfl
  | shareTimer stored =>
    simp only [turn,ite_none_right_eq_some,some.injEq] at moved
    obtain ⟨_,rfl⟩ := moved
    exact (drain_change size {s with shareTimer := false} stored).from rfl rfl
  | setImmediate stored =>
    simp only [turn,ite_none_left_eq_some,some.injEq] at moved
    obtain ⟨_,rfl⟩ := moved
    exact (flush_change size {s with setImmediates := s.setImmediates - 1} stored).from rfl rfl
  | waitForShareDrain waiter stored =>
    cases moved
    exact wait_change size s waiter stored
  | rejectWrites | stopIntervals | logShareSummary =>
    cases moved
    exact .settle [] rfl (by simp [enterRejectMode,stopIntervals,logShareSummary]) (settles_nil _)

theorem turn_rejecting {size : Nat} {s t : State Share} {event : Turn Share} (moved : turn size s event = some t)
    (rejecting : s.lmdbRejecting = true) : t.lmdbRejecting = true := by
  have finish (s : State Share) : (finishShareDrain s none).lmdbRejecting = s.lmdbRejecting := by
    unfold finishShareDrain
    dsimp only
    split <;> rfl
  have flush (s : State Share) (stored : Bool) (rejecting : s.lmdbRejecting = true) :
      (flushNextChunk size s stored).lmdbRejecting = true := by
    unfold flushNextChunk
    split
    · rw [finish,rejecting]
    · cases stored
      · rfl
      · simp only [if_true]
        split
        · rw [finish]
          exact rejecting
        · exact rejecting
  have drain (s : State Share) (stored : Bool) (rejecting : s.lmdbRejecting = true) :
      (drainShareQueue size s stored).lmdbRejecting = true := by
    unfold drainShareQueue
    rw [if_pos rejecting]
    exact rejecting
  cases event with
  | queueShare share =>
    cases moved
    unfold queueShare
    rw [if_pos rejecting]
    exact rejecting
  | shareTimer stored =>
    simp only [turn,ite_none_right_eq_some,some.injEq] at moved
    obtain ⟨_,rfl⟩ := moved
    exact drain _ stored rejecting
  | setImmediate stored =>
    simp only [turn,ite_none_left_eq_some,some.injEq] at moved
    obtain ⟨_,rfl⟩ := moved
    exact flush _ stored rejecting
  | waitForShareDrain waiter stored =>
    cases moved
    unfold waitForShareDrain
    rw [if_pos rejecting]
    exact rejecting
  | rejectWrites =>
    cases moved
    rfl
  | stopIntervals | logShareSummary =>
    cases moved
    exact rejecting

def acceptedShares (effects : List (Effect Share)) : List Share :=
  effects.filterMap fun | .accepted share => some share | _ => none

/-- The batches `storeShares` committed, concatenated in commit order. -/
def storedShares (effects : List (Effect Share)) : List Share :=
  effects.flatMap fun | .stored batch => batch | _ => []

/-- A waiter is settled by an empty queue or in reject mode, and never with an
error. -/
def Effect.Prompt : Effect Share → Prop
  | .resolved _ depth lmdbRejecting => depth = 0 ∨ lmdbRejecting = true
  | .rejected _ _ => False
  | _ => True

theorem acceptedShares_append (old new : List (Effect Share)) :
    acceptedShares (old ++ new) = acceptedShares old ++ acceptedShares new := filterMap_append

theorem storedShares_append (old new : List (Effect Share)) :
    storedShares (old ++ new) = storedShares old ++ storedShares new := flatMap_append

@[simp] theorem acceptedShares_cons (effect : Effect Share) (effects : List (Effect Share)) :
    acceptedShares (effect::effects) =
      (match effect with | .accepted share => [share] | _ => []) ++ acceptedShares effects := by
  cases effect <;> rfl

@[simp] theorem storedShares_cons (effect : Effect Share) (effects : List (Effect Share)) :
    storedShares (effect::effects) =
      (match effect with | .stored batch => batch | _ => []) ++ storedShares effects := rfl

@[simp] theorem acceptedShares_nil : acceptedShares ([] : List (Effect Share)) = [] := rfl

@[simp] theorem storedShares_nil : storedShares ([] : List (Effect Share)) = [] := rfl

theorem Settles.no_shares {s : State Share} {news : List (Effect Share)} (settles : Settles s news) :
    acceptedShares news = [] ∧ storedShares news = [] := by
  induction news with
  | nil => exact ⟨rfl,rfl⟩
  | cons effect news ih =>
    obtain ⟨⟨⟨waiter,rfl⟩,_⟩,rest⟩ := forall_mem_cons.mp settles
    simpa using ih rest

theorem Settles.prompt {s : State Share} {news : List (Effect Share)} (settles : Settles s news) :
    ∀ effect ∈ news, effect.Prompt := by
  intro effect member
  obtain ⟨⟨waiter,rfl⟩,ready⟩ := settles effect member
  exact ready.imp (fun empty => by simp [empty]) id

theorem Change.accepts {s t : State Share} (change : Change offers s t) (inside : ¬offers) :
    acceptedShares t.effects = acceptedShares s.effects := by
  cases change with
  | settle news _ effects settles => rw [effects,acceptedShares_append,settles.no_shares.1,append_nil]
  | accept offered => exact absurd offered inside
  | store batch news _ effects settles | fail batch rest news _ _ _ effects settles =>
    rw [effects,acceptedShares_append,acceptedShares_cons,settles.no_shares.1,append_nil,append_nil]

structure Sound (s : State Share) : Prop where
  kept : storedShares s.effects ++ s.shareQueue = acceptedShares s.effects
  prompt : ∀ effect ∈ s.effects, effect.Prompt

theorem change_sound {s t : State Share} (change : Change offers s t) (sound : Sound s) : Sound t := by
  have kept := sound.kept
  have prompt := sound.prompt
  cases change with
  | settle news queue effects settles =>
    obtain ⟨accepted,stored⟩ := settles.no_shares
    constructor
    · simpa [effects,queue,acceptedShares_append,storedShares_append,accepted,stored] using kept
    · rw [effects]
      exact forall_mem_append.mpr ⟨prompt,settles.prompt⟩
  | accept _ share queue effects =>
    constructor
    · simp [effects,queue,acceptedShares_append,storedShares_append,← kept]
    · rw [effects]
      exact forall_mem_append.mpr ⟨prompt,by simp [Effect.Prompt]⟩
  | store batch news queue effects settles =>
    obtain ⟨accepted,stored⟩ := settles.no_shares
    constructor
    · simp [effects,acceptedShares_append,storedShares_append,accepted,stored,← kept,queue]
    · rw [effects]
      exact forall_mem_append.mpr ⟨prompt,forall_mem_cons.mpr ⟨trivial,settles.prompt⟩⟩
  | fail batch rest news before queue rejecting effects settles =>
    obtain ⟨accepted,stored⟩ := settles.no_shares
    constructor
    · simp [effects,acceptedShares_append,storedShares_append,accepted,stored,← kept,before,queue]
    · rw [effects]
      exact forall_mem_append.mpr ⟨prompt,forall_mem_cons.mpr ⟨trivial,settles.prompt⟩⟩

variable {options : Option Int}

theorem reachable_sound {s : State Share} (reachable : (shareRuntime Share options).Reachable s) : Sound s := by
  refine reachable.invariant Sound ?_ fun s t event sound _ moved => change_sound (turn_change moved) sound
  rintro s rfl
  exact ⟨rfl,by simp⟩

private theorem failed_batch_restored {size : Nat} {s t : State Share} {event : Turn Share}
    (moved : turn size s event = some t) {news : List (Effect Share)}
    (effects : t.effects = s.effects ++ news) {batch : List Share} (failed : .failed batch ∈ news) :
    t.shareQueue = s.shareQueue ∧ batch <+: t.shareQueue := by
  have unsettled (settled : List (Effect Share)) (settles : Settles t settled) :
      Effect.failed batch ∉ settled := by
    intro member
    obtain ⟨⟨waiter,equal⟩,_⟩ := settles _ member
    cases equal
  cases turn_change moved with
  | settle settled _ grown settles =>
    obtain rfl := append_cancel_left (effects.symm.trans grown)
    exact absurd failed (unsettled _ settles)
  | accept _ share _ grown =>
    obtain rfl := append_cancel_left (effects.symm.trans grown)
    simp at failed
  | store _ settled _ grown settles =>
    obtain rfl := append_cancel_left (effects.symm.trans grown)
    exact absurd ((mem_cons.mp failed).resolve_left (by simp)) (unsettled _ settles)
  | fail other rest settled before queue _ grown settles =>
    obtain rfl := append_cancel_left (effects.symm.trans grown)
    obtain rfl : batch = other := by
      rcases mem_cons.mp failed with same | member
      · exact Effect.failed.inj same
      · exact absurd member (unsettled _ settles)
    exact ⟨queue.trans before.symm,⟨rest,queue.symm⟩⟩

/-- In every state of every schedule the committed batches followed by the queue are the accepted
shares in acceptance order, a batch that failed is back at the front, and every settled waiter was
settled with an empty queue or in reject mode. -/
theorem share_drain_exact {s : State Share} (reachable : (shareRuntime Share options).Reachable s) :
    storedShares s.effects ++ s.shareQueue = acceptedShares s.effects ∧
    storedShares s.effects <+: acceptedShares s.effects ∧
    ((acceptedShares s.effects).Nodup → (storedShares s.effects).Nodup) ∧
    (∀ event t news, (shareRuntime Share options).step s event = some t → t.effects = s.effects ++ news →
      ∀ batch, .failed batch ∈ news → t.shareQueue = s.shareQueue ∧ batch <+: t.shareQueue) ∧
    ∀ waiter depth rejecting, .resolved waiter depth rejecting ∈ s.effects →
      depth = 0 ∨ rejecting = true := by
  have sound := reachable_sound reachable
  have stored : storedShares s.effects <+: acceptedShares s.effects := ⟨s.shareQueue,sound.kept⟩
  refine ⟨sound.kept,stored,fun nodup => nodup.sublist stored.sublist,?_,?_⟩
  · intro event t news moved effects batch failed
    exact failed_batch_restored moved effects failed
  · intro waiter depth rejecting member
    exact sound.prompt _ member

def requeuedTurns : List (Turn Nat) :=
  [.queueShare 7,.queueShare 8,.shareTimer true,.waitForShareDrain 0 true,.setImmediate false]

theorem share_drain_exact_requeued : ∃ s : State Nat,
    (shareRuntime Nat (some 1)).run {} requeuedTurns = some s ∧ storedShares s.effects = [7] ∧
      s.shareQueue = [8] ∧ s.lmdbRejecting = true ∧
      storedShares s.effects ++ s.shareQueue = acceptedShares s.effects := by
  have ran : (shareRuntime Nat (some 1)).run {} requeuedTurns = some _ := rfl
  exact ⟨_,ran,rfl,rfl,rfl,(share_drain_exact (Machine.reachable_run rfl ran)).1⟩

end NodejsPool.RemoteShare
