import Mathlib.Data.List.Nodup
import NodejsPool.BlockManager.Crediting

/-! The balance rows of a payout's credits are looked up by several workers at once. Lookups of
one key share a promise and a cache; the credits are then added up by row. -/
namespace NodejsPool.BlockManager.Lookups
open Async Function
open List (map_nil mem_of_getElem? sum_cons sum_nil)
open Payout (BalanceKey BalanceCredit Failure normalizePaymentId cacheKey addCredit creditOf totalCredit)
open Option (some bind_eq_some_iff map_eq_some_iff)

section Model

structure PaymentRow where
  payment_address : String
  payment_id : Option String
  pool_type : String
  amount : ℤ

def PaymentRow.balance (payment : PaymentRow) : BalanceKey :=
  ⟨payment.payment_address,normalizePaymentId payment.payment_id,payment.pool_type⟩

def PaymentRow.key (payment : PaymentRow) : String := cacheKey payment.balance

inductive Phase where
  | selecting
  | inserting
  | reselecting
  | fulfilled (id : ℕ)
  | rejected (failure : Failure)

structure Lookup where
  balance : BalanceKey
  phase : Phase

inductive Awaited where
  | cached (id : ℕ)
  | lookup (lookup : ℕ)

inductive Worker where
  | running
  | awaiting (index : ℕ) (awaited : Awaited)
  | finished
  | failed (failure : Failure)

/-- The promises a call made are numbered; `inserts` lists the INSERTs that were issued, each with
its lookup. -/
structure State where
  nextIndex : ℕ
  resolved : ℕ → Option BalanceCredit
  workers : List Worker
  lookups : List Lookup
  balanceIdCache : String → Option ℕ
  pendingBalanceLookups : List (String × ℕ)
  isFullStop : Bool
  inserts : List (ℕ × BalanceKey)

def State.pending (s : State) (key : String) : Option ℕ :=
  (s.pendingBalanceLookups.find? fun entry => entry.1 = key).map Prod.snd

inductive Reply where
  | rows (ids : List ℕ)
  | inserted (insertId : ℕ)
  | failure (failure : Failure)

/-- `lookup` is the promise: the cache and the pending lookups come before a new one. -/
def getOrCreateBalanceId (s : State) (balance : BalanceKey) : Awaited × State :=
  let key := cacheKey balance
  match s.balanceIdCache key with
  | some cachedId => (.cached cachedId,s)
  | none =>
    match s.pending key with
    | some pendingLookup => (.lookup pendingLookup,s)
    | none => (.lookup s.lookups.length,{s with
        lookups := s.lookups ++ [⟨balance,.selecting⟩]
        pendingBalanceLookups := s.pendingBalanceLookups ++ [(key,s.lookups.length)]})

def claim (credits : List PaymentRow) (s : State) (worker : ℕ) : State :=
  match credits[s.nextIndex]? with
  | none => {s with workers := s.workers.set worker .finished}
  | some payment =>
    let (awaited,next) := getOrCreateBalanceId {s with nextIndex := s.nextIndex + 1} payment.balance
    {next with workers := s.workers.set worker (.awaiting s.nextIndex awaited)}

def State.settled (s : State) : Awaited → Option (Except Failure ℕ)
  | .cached id => some (.ok id)
  | .lookup lookup =>
    match (s.lookups[lookup]?).map Lookup.phase with
    | some (.fulfilled id) => some (.ok id)
    | some (.rejected failure) => some (.error failure)
    | _ => none

def resume (credits : List PaymentRow) (s : State) (worker index : ℕ) (outcome : Except Failure ℕ) : State :=
  match outcome with
  | .error failure => {s with workers := s.workers.set worker (.failed failure)}
  | .ok id => {s with
      workers := s.workers.set worker .running
      resolved := Function.update s.resolved index ((credits[index]?).map fun payment => ⟨id,payment.amount⟩)}

def State.move (s : State) (lookup : ℕ) (balance : BalanceKey) (phase : Phase) : State :=
  {s with lookups := s.lookups.set lookup ⟨balance,phase⟩}

def State.fulfil (s : State) (lookup : ℕ) (balance : BalanceKey) (id : ℕ) : State :=
  {s.move lookup balance (.fulfilled id) with
    balanceIdCache := Function.update s.balanceIdCache (cacheKey balance) (some id)}

def State.reject (s : State) (lookup : ℕ) (balance : BalanceKey) (failure : Failure) : State :=
  s.move lookup balance (.rejected failure)

def multipleRows (balance : BalanceKey) : Failure :=
  .thrown s!"Multiple balance rows found for {balance.payment_address} / {balance.pool_type}"

def unresolvedRow (balance : BalanceKey) : Failure :=
  .thrown s!"Unable to resolve balance row for {balance.payment_address} / {balance.pool_type}"

def State.stop (s : State) : State := {s with isFullStop := true}

def settle (s : State) (lookup : ℕ) (reply : Reply) : Option State := do
  let ⟨balance,phase⟩ ← s.lookups[lookup]?
  match phase,reply with
  | .selecting,.rows [id] => some (s.fulfil lookup balance id)
  | .selecting,.rows [] => some {s.move lookup balance .inserting with inserts := s.inserts ++ [(lookup,balance)]}
  | .selecting,.rows _ => some (s.stop.reject lookup balance (multipleRows balance))
  | .selecting,.failure failure => some (s.reject lookup balance failure)
  | .inserting,.inserted insertId => some (s.fulfil lookup balance insertId)
  | .inserting,.failure failure =>
    some (if failure = .duplicateEntry then s.move lookup balance .reselecting else s.reject lookup balance failure)
  | .reselecting,.rows [id] => some (s.fulfil lookup balance id)
  | .reselecting,.rows _ => some (s.stop.reject lookup balance (unresolvedRow balance))
  | .reselecting,.failure failure => some (s.reject lookup balance failure)
  | _,_ => none

def Phase.isSettled : Phase → Bool
  | .fulfilled _ | .rejected _ => true
  | _ => false

def forget (s : State) (lookup : ℕ) : Option State := do
  let ⟨balance,phase⟩ ← s.lookups[lookup]?
  if phase.isSettled ∧ s.pending (cacheKey balance) = some lookup then
    some {s with pendingBalanceLookups := s.pendingBalanceLookups.filter fun entry => entry.1 ≠ cacheKey balance}
  else none

inductive Label where
  | advance (worker : ℕ)
  | settle (lookup : ℕ) (reply : Reply)
  | forget (lookup : ℕ)

def step (credits : List PaymentRow) (s : State) : Label → Option State
  | .advance worker => do
    match ← s.workers[worker]? with
    | .running => some (claim credits s worker)
    | .awaiting index awaited => (s.settled awaited).map (resume credits s worker index)
    | _ => none
  | .settle lookup reply => settle s lookup reply
  | .forget lookup => forget s lookup

def Worker.failure : Worker → Option Failure
  | .failed failure => some failure
  | _ => none

def Worker.isFinished : Worker → Bool
  | .finished => true
  | _ => false

def aggregated (credits : List PaymentRow) (s : State) : List BalanceCredit :=
  ((List.range credits.length).filterMap s.resolved).foldl addCredit []

/-- `Promise.all` of the workers, and then the sum of the credits of each row. -/
def result (credits : List PaymentRow) (s : State) : Option (Except Failure (List BalanceCredit)) :=
  match s.workers.findSome? Worker.failure with
  | some failure => some (.error failure)
  | none => if s.workers.all Worker.isFinished then some (.ok (aggregated credits s)) else none

def resolveBalanceCredits (credits : List PaymentRow) (balanceLookupConcurrency : ℕ)
    (balanceIdCache : String → Option ℕ) (isFullStop : Bool) : State where
  nextIndex := 0
  resolved _ := none
  workers := List.replicate (min balanceLookupConcurrency credits.length) .running
  lookups := []
  balanceIdCache := balanceIdCache
  pendingBalanceLookups := []
  isFullStop := isFullStop
  inserts := []

def machine (credits : List PaymentRow) (balanceLookupConcurrency : ℕ) : Machine State Label where
  initial s := ∃ balanceIdCache isFullStop,
    s = resolveBalanceCredits credits balanceLookupConcurrency balanceIdCache isFullStop
  step := step credits

end Model

section Invariants

variable {credits : List PaymentRow} {s t : State} {awaited : Awaited} {id worker : ℕ}

def Failed (s : State) : Prop := ∃ (worker : ℕ) (failure : Failure), s.workers[worker]? = some (.failed failure)

def Phase.isActive : Phase → Bool
  | .selecting | .inserting | .reselecting => true
  | _ => false

def Phase.isRejected : Phase → Bool
  | .rejected _ => true
  | _ => false

def Phase.isFulfilled : Phase → Bool
  | .fulfilled _ => true
  | _ => false

structure Shared (s : State) : Prop where
  fulfilled : ∀ (lookup : ℕ) (balance : BalanceKey) (id : ℕ), s.lookups[lookup]? = some ⟨balance,.fulfilled id⟩ →
    s.balanceIdCache (cacheKey balance) = some id
  active : ∀ (lookup : ℕ) (balance : BalanceKey) (phase : Phase), s.lookups[lookup]? = some ⟨balance,phase⟩ →
    phase.isActive = true →
    s.pending (cacheKey balance) = some lookup ∧ s.balanceIdCache (cacheKey balance) = none
  pending : ∀ (key : String) (lookup : ℕ), s.pending key = some lookup → ∃ there :
    Lookup, s.lookups[lookup]? = some there ∧ cacheKey there.balance = key
  alone : ∀ (first second : ℕ) (one two : Lookup), s.lookups[first]? = some one → s.lookups[second]? = some two →
    cacheKey one.balance = cacheKey two.balance → one.phase.isRejected = false → two.phase.isRejected = false →
    first = second
  issued : ∀ entry ∈ s.inserts, ∃ there : Lookup, s.lookups[entry.1]? = some there ∧ there.balance = entry.2 ∧
    there.phase ≠ .selecting
  distinct : (s.inserts.map Prod.fst).Nodup

def awaitsKey (s : State) (awaited : Awaited) (key : String) : Prop :=
  match awaited with
  | .cached id => s.balanceIdCache key = some id
  | .lookup lookup => ∃ there : Lookup, s.lookups[lookup]? = some there ∧ cacheKey there.balance = key

/-- Every credit that was taken is resolved or waited for, and every lookup has its own caller. -/
structure Working (credits : List PaymentRow) (s : State) : Prop where
  bound : s.nextIndex ≤ credits.length
  known : ∀ index credit, s.resolved index = some credit → ∃ payment, credits[index]? = some payment ∧
    credit.amount = payment.amount ∧ s.balanceIdCache payment.key = some credit.id
  claimed : ∀ index < s.nextIndex, (s.resolved index).isSome = true ∨
    (∃ (worker : ℕ) (awaited : Awaited), s.workers[worker]? = some (.awaiting index awaited)) ∨ Failed s
  awaits : ∀ (worker index : ℕ) (awaited : Awaited), s.workers[worker]? = some (.awaiting index awaited) →
    index < s.nextIndex ∧ ∃ payment, credits[index]? = some payment ∧ awaitsKey s awaited payment.key
  done : ∀ worker : ℕ, s.workers[worker]? = some .finished → credits.length ≤ s.nextIndex
  owned : ∀ (lookup : ℕ) (there : Lookup), s.lookups[lookup]? = some there → there.phase.isFulfilled = false →
    (∃ worker index : ℕ, s.workers[worker]? = some (.awaiting index (.lookup lookup))) ∨ Failed s
  failed : ∀ (worker : ℕ) (failure : Failure), s.workers[worker]? = some (.failed failure) →
    ∃ (lookup : ℕ) (balance : BalanceKey), s.lookups[lookup]? = some ⟨balance,.rejected failure⟩

structure Advances (s t : State) : Prop where
  workers : t.workers = s.workers
  nextIndex : t.nextIndex = s.nextIndex
  resolved : t.resolved = s.resolved
  cache : ∀ key id, s.balanceIdCache key = some id → t.balanceIdCache key = some id
  balances : ∀ (lookup : ℕ) (there : Lookup), s.lookups[lookup]? = some there →
    ∃ later : Lookup, t.lookups[lookup]? = some later ∧ later.balance = there.balance
  known : ∀ (lookup : ℕ) (there : Lookup), t.lookups[lookup]? = some there →
    ∃ before : Lookup, s.lookups[lookup]? = some before ∧
    (there.phase.isFulfilled = false → before.phase.isFulfilled = false)
  rejected : ∀ (lookup : ℕ) (balance : BalanceKey) (failure : Failure), s.lookups[lookup]? =
    some ⟨balance,.rejected failure⟩ →
    t.lookups[lookup]? = some ⟨balance,.rejected failure⟩

private theorem Advances.awaitsKey (advances : Advances s t) {key : String} (awaits : awaitsKey s awaited key) :
    Lookups.awaitsKey t awaited key := by
  cases awaited with
  | cached id => exact advances.cache key id awaits
  | lookup lookup =>
    obtain ⟨there,found,same⟩ := awaits
    obtain ⟨later,still,balance⟩ := advances.balances lookup there found
    exact ⟨later,still,by rw [balance,same]⟩

theorem Working.advances (working : Working credits s) (advances : Advances s t) : Working credits t := by
  have fails : Failed s → Failed t := by
    rintro ⟨worker,failure,there⟩
    exact ⟨worker,failure,by rwa [advances.workers]⟩
  constructor
  · rw [advances.nextIndex]
    exact working.bound
  · intro index credit there
    rw [advances.resolved] at there
    obtain ⟨payment,found,amount,cached⟩ := working.known index credit there
    exact ⟨payment,found,amount,advances.cache _ _ cached⟩
  · intro index before
    rw [advances.nextIndex] at before
    rw [advances.resolved,advances.workers]
    rcases working.claimed index before with resolved | waiting | failed
    · exact .inl resolved
    · exact .inr (.inl waiting)
    · exact .inr (.inr (fails failed))
  · intro worker index awaited there
    rw [advances.workers] at there
    obtain ⟨before,payment,found,awaits⟩ := working.awaits worker index awaited there
    rw [advances.nextIndex]
    exact ⟨before,payment,found,advances.awaitsKey awaits⟩
  · intro worker there
    rw [advances.workers] at there
    rw [advances.nextIndex]
    exact working.done worker there
  · intro lookup there found waits
    obtain ⟨before,earlier,same⟩ := advances.known lookup there found
    rw [advances.workers]
    rcases working.owned lookup before earlier (same waits) with waiting | failed
    · exact .inl waiting
    · exact .inr (fails failed)
  · intro worker failure there
    rw [advances.workers] at there
    obtain ⟨lookup,balance,found⟩ := working.failed worker failure there
    exact ⟨lookup,balance,advances.rejected lookup balance failure found⟩

theorem getElem?_set_found {A : Type} {items : List A} {place : ℕ} {before : A} (there : items[place]? = some before)
    (after : A) (other : ℕ) : (items.set place after)[other]? = if other = place then some after
    else items[other]? := by
  obtain ⟨bound,_⟩ := List.getElem?_eq_some_iff.mp there
  by_cases same : other = place
  · subst same
    rw [if_pos rfl,List.getElem?_set_self bound]
  · rw [if_neg same,List.getElem?_set_ne (Ne.symm same)]

theorem getElem?_move {there : Lookup} (found : s.lookups[lookup]? = some there) (balance : BalanceKey)
    (phase : Phase) (other : ℕ) :
    (s.move lookup balance phase).lookups[other]? = if other = lookup then some ⟨balance,phase⟩
    else s.lookups[other]? :=
  getElem?_set_found found _ other

theorem Phase.isActive_settled {phase : Phase} (active : phase.isActive = true) :
    phase.isRejected = false ∧ phase.isFulfilled = false := by
  cases phase <;> first | exact ⟨rfl,rfl⟩ | cases active

theorem Phase.isSettled_idle {phase : Phase} (settled : phase.isSettled = true) : phase.isActive = false := by
  cases phase <;> first | rfl | cases settled

def cachedAfter (s : State) (balance : BalanceKey) : Phase → String → Option ℕ
  | .fulfilled id => Function.update s.balanceIdCache (cacheKey balance) (some id)
  | _ => s.balanceIdCache

variable {lookup : ℕ} {balance : BalanceKey} {old phase : Phase}

theorem cachedAfter_grows (missing : s.balanceIdCache (cacheKey balance) = none) {key : String}
    (cached : s.balanceIdCache key = some id) : cachedAfter s balance phase key = some id := by
  have apart : key ≠ cacheKey balance := by
    rintro rfl
    rw [missing] at cached
    cases cached
  cases phase with
  | fulfilled other => exact (update_of_ne apart _ _).trans cached
  | _ => exact cached

theorem cachedAfter_apart {key : String} (apart : key ≠ cacheKey balance) :
    cachedAfter s balance phase key = s.balanceIdCache key := by
  cases phase with
  | fulfilled other => exact update_of_ne apart _ _
  | _ => rfl

def State.goes (s : State) (lookup : ℕ) (balance : BalanceKey) (phase : Phase) : State :=
  {s.move lookup balance phase with balanceIdCache := cachedAfter s balance phase}

theorem goes_advances (shared : Shared s) (found : s.lookups[lookup]? = some ⟨balance,old⟩)
    (active : old.isActive = true) :
    Advances s (s.goes lookup balance phase) := by
  obtain ⟨plain,waits⟩ := Phase.isActive_settled active
  have places := getElem?_move found balance phase
  refine ⟨rfl,rfl,rfl,fun key id => cachedAfter_grows (shared.active lookup balance old found active).2,?_,?_,?_⟩
  · intro other there before
    by_cases same : other = lookup
    · subst same
      rw [found] at before
      cases before
      exact ⟨⟨balance,phase⟩,(places other).trans (if_pos rfl),rfl⟩
    · exact ⟨there,((places other).trans (if_neg same)).trans before,rfl⟩
  · intro other there later
    by_cases same : other = lookup
    · subst same
      exact ⟨⟨balance,old⟩,found,fun _ => waits⟩
    · rw [show (s.goes lookup balance phase).lookups[other]? = s.lookups[other]? from (places other).trans
        (if_neg same)] at later
      exact ⟨there,later,id⟩
  · intro other key failure before
    have apart : other ≠ lookup := by
      rintro rfl
      rw [found] at before
      cases before
      cases plain
    exact ((places other).trans (if_neg apart)).trans before

theorem goes_shared (shared : Shared s) (found : s.lookups[lookup]? = some ⟨balance,old⟩) (active : old.isActive = true)
    (past : phase ≠ .selecting) : Shared (s.goes lookup balance phase) := by
  obtain ⟨pending,missing⟩ := shared.active lookup balance old found active
  have places (other : ℕ) : (s.goes lookup balance phase).lookups[other]? =
      if other = lookup then some ⟨balance,phase⟩ else s.lookups[other]? := getElem?_move found balance phase other
  have advances : Advances s (s.goes lookup balance phase) := goes_advances shared found active
  constructor
  · intro other key id there
    rw [places] at there
    split at there
    · cases there
      exact update_self ..
    · exact cachedAfter_grows missing (shared.fulfilled other key id there)
  · intro other key later there waits
    rw [places] at there
    split at there
    · next same =>
      cases there
      subst same
      refine ⟨pending,?_⟩
      change cachedAfter s balance phase (cacheKey balance) = none
      cases phase with
      | fulfilled id => cases waits
      | _ => exact missing
    · next apart =>
      obtain ⟨own,unknown⟩ := shared.active other key later there waits
      refine ⟨own,?_⟩
      have keys : cacheKey key ≠ cacheKey balance := by
        intro same
        rw [same,pending] at own
        exact apart (some.inj own).symm
      exact (cachedAfter_apart keys).trans unknown
  · intro key other there
    obtain ⟨before,inside,same⟩ := shared.pending key other there
    obtain ⟨later,still,kept⟩ := advances.balances other before inside
    exact ⟨later,still,by rw [kept,same]⟩
  · have earlier (other : ℕ) (there : Lookup) (later : (s.goes lookup balance phase).lookups[other]? = some there)
        (plain : there.phase.isRejected = false) :
        ∃ before, s.lookups[other]? = some before ∧ before.balance = there.balance ∧
          before.phase.isRejected = false := by
      rw [places] at later
      split at later
      · next same =>
        cases later
        subst same
        exact ⟨⟨balance,old⟩,found,rfl,(Phase.isActive_settled active).1⟩
      · exact ⟨there,later,rfl,plain⟩
    intro first second one two left right keys goes stays
    obtain ⟨before,found,same,plain⟩ := earlier first one left goes
    obtain ⟨other,there,equal,good⟩ := earlier second two right stays
    exact shared.alone first second before other found there (by rw [same,equal,keys]) plain good
  · intro entry member
    obtain ⟨there,inside,own,issued⟩ := shared.issued entry member
    by_cases same : entry.1 = lookup
    · rw [same,found] at inside
      cases inside
      exact ⟨⟨balance,phase⟩,(places entry.1).trans (if_pos same),own,past⟩
    · exact ⟨there,((places entry.1).trans (if_neg same)).trans inside,own,issued⟩
  · exact shared.distinct

theorem insert_shared (shared : Shared s) (found : s.lookups[lookup]? = some ⟨balance,.selecting⟩) :
    Shared {s.goes lookup balance .inserting with inserts := s.inserts ++ [(lookup,balance)]} := by
  have goes : Shared (s.goes lookup balance .inserting) := goes_shared shared found rfl nofun
  refine ⟨goes.fulfilled,goes.active,goes.pending,goes.alone,?_,?_⟩
  · intro entry member
    rcases List.mem_append.mp member with old | new
    · exact goes.issued entry old
    · obtain rfl := List.mem_singleton.mp new
      exact ⟨⟨balance,.inserting⟩,(getElem?_move found balance .inserting lookup).trans (if_pos rfl),rfl,nofun⟩
  · rw [List.map_append,List.nodup_append]
    refine ⟨shared.distinct,by simp,?_⟩
    intro number member other last
    obtain rfl := List.mem_singleton.mp last
    rintro rfl
    obtain ⟨entry,inside,same⟩ := List.mem_map.mp member
    obtain ⟨there,here,_,issued⟩ := shared.issued entry inside
    rw [same,found] at here
    cases here
    exact issued rfl

structure Sound (credits : List PaymentRow) (s : State) : Prop where
  shared : Shared s
  working : Working credits s

theorem Sound.goes (sound : Sound credits s) (found : s.lookups[lookup]? = some ⟨balance,old⟩)
    (active : old.isActive = true) (past : phase ≠ .selecting) : Sound credits (s.goes lookup balance phase) :=
  ⟨goes_shared sound.shared found active past,sound.working.advances (goes_advances sound.shared found active)⟩

theorem Sound.stop (sound : Sound credits s) : Sound credits s.stop :=
  ⟨⟨sound.shared.fulfilled,sound.shared.active,sound.shared.pending,sound.shared.alone,sound.shared.issued,
    sound.shared.distinct⟩,⟨sound.working.bound,sound.working.known,sound.working.claimed,sound.working.awaits,
    sound.working.done,sound.working.owned,sound.working.failed⟩⟩

theorem settle_cases {reply : Reply} (moved : settle s lookup reply = some t) : ∃ balance old,
    s.lookups[lookup]? = some ⟨balance,old⟩ ∧ old.isActive = true ∧
      ((∃ phase, phase ≠ .selecting ∧ phase ≠ old ∧ (old = .reselecting → phase ≠ .inserting) ∧
        (t = s.goes lookup balance phase ∨ t = s.stop.goes lookup balance phase)) ∨
      (old = .selecting ∧ t = {s.goes lookup balance .inserting with inserts := s.inserts ++ [(lookup,balance)]})) := by
  obtain ⟨⟨balance,old⟩,found,moved⟩ := bind_eq_some_iff.mp moved
  refine ⟨balance,old,found,?_⟩
  have goes (phase : Phase) (made : t = s.goes lookup balance phase) (past : phase ≠ .selecting) (new : phase ≠ old)
      (onward : old = .reselecting → phase ≠ .inserting) :
      ∃ phase, phase ≠ .selecting ∧ phase ≠ old ∧ (old = .reselecting → phase ≠ .inserting) ∧
        (t = s.goes lookup balance phase ∨ t = s.stop.goes lookup balance phase) := ⟨phase,past,new,onward,.inl made⟩
  have stops (failure : Failure) (made : t = s.stop.goes lookup balance (.rejected failure))
    (active : old.isActive = true) :
      ∃ phase, phase ≠ .selecting ∧ phase ≠ old ∧ (old = .reselecting → phase ≠ .inserting) ∧
        (t = s.goes lookup balance phase ∨ t = s.stop.goes lookup balance phase) := by
    refine ⟨.rejected failure,nofun,?_,nofun,.inr made⟩
    rintro rfl
    cases active
  cases old with
  | selecting =>
    refine ⟨rfl,?_⟩
    rcases reply with ids | id | failure
    · rcases ids with _ | ⟨id,_ | ⟨other,ids⟩⟩
      · exact .inr ⟨rfl,(some.inj moved).symm⟩
      · exact .inl (goes (.fulfilled id) (some.inj moved).symm nofun nofun nofun)
      · exact .inl (stops _ (some.inj moved).symm rfl)
    · cases moved
    · exact .inl (goes (.rejected failure) (some.inj moved).symm nofun nofun nofun)
  | inserting =>
    refine ⟨rfl,.inl ?_⟩
    rcases reply with ids | id | failure
    · cases moved
    · exact goes (.fulfilled id) (some.inj moved).symm nofun nofun nofun
    · have made := (some.inj moved).symm
      split at made
      · exact goes .reselecting made nofun nofun nofun
      · exact goes (.rejected failure) made nofun nofun nofun
  | reselecting =>
    refine ⟨rfl,.inl ?_⟩
    rcases reply with ids | id | failure
    · rcases ids with _ | ⟨id,_ | ⟨other,ids⟩⟩
      · exact stops _ (some.inj moved).symm rfl
      · exact goes (.fulfilled id) (some.inj moved).symm nofun nofun nofun
      · exact stops _ (some.inj moved).symm rfl
    · cases moved
    · exact goes (.rejected failure) (some.inj moved).symm nofun nofun nofun
  | fulfilled id | rejected failure => cases reply <;> cases moved

theorem settle_sound {reply : Reply} (sound : Sound credits s) (moved : settle s lookup reply = some t) :
    Sound credits t := by
  obtain ⟨balance,old,found,active,⟨phase,past,_,_,rfl | rfl⟩ | ⟨rfl,rfl⟩⟩ := settle_cases moved
  · exact sound.goes found active past
  · exact sound.stop.goes found active past
  · refine ⟨insert_shared sound.shared found,?_⟩
    have past : Phase.inserting ≠ .selecting := nofun
    have goes := (sound.goes found rfl past).working
    exact ⟨goes.bound,goes.known,goes.claimed,goes.awaits,goes.done,goes.owned,goes.failed⟩

private theorem pending_filter (s : State) (gone key : String) :
    State.pending {s with pendingBalanceLookups := s.pendingBalanceLookups.filter fun entry => entry.1 ≠ gone} key =
      if key = gone then none else s.pending key := by
  unfold State.pending
  dsimp only
  rw [List.find?_filter]
  split
  · next same =>
    subst same
    rw [List.find?_eq_none.mpr]
    · rfl
    · intro entry _
      simp
  · next apart =>
    congr 2
    funext entry
    by_cases same : entry.1 = key
    · simp [same,apart]
    · simp [same]

theorem forget_sound (sound : Sound credits s) (moved : forget s lookup = some t) : Sound credits t := by
  obtain ⟨⟨balance,phase⟩,found,moved⟩ := bind_eq_some_iff.mp moved
  dsimp only at moved
  split at moved
  · next ready =>
    obtain ⟨settled,own⟩ := ready
    cases moved
    have working := sound.working
    refine ⟨⟨sound.shared.fulfilled,?_,?_,sound.shared.alone,sound.shared.issued,sound.shared.distinct⟩,
      ⟨working.bound,working.known,working.claimed,working.awaits,working.done,working.owned,working.failed⟩⟩
    · intro other key later there waits
      obtain ⟨pending,missing⟩ := sound.shared.active other key later there waits
      refine ⟨?_,missing⟩
      rw [pending_filter,if_neg]
      · exact pending
      · intro same
        rw [same,own] at pending
        cases pending
        have there : s.lookups[lookup]? = some ⟨key,later⟩ := there
        rw [found] at there
        cases there
        rw [Phase.isSettled_idle settled] at waits
        cases waits
    · intro key other there
      rw [pending_filter] at there
      split at there
      · cases there
      · exact sound.shared.pending key other there
  · cases moved

theorem worker_kept {before : Worker} (there : s.workers[worker]? = some before) (after : Worker) {other : ℕ}
    {kept : Worker} (here : s.workers[other]? = some kept) (apart : kept ≠ before) :
    (s.workers.set worker after)[other]? = some kept := by
  rw [getElem?_set_found there,if_neg]
  · exact here
  · rintro rfl
    rw [there] at here
    exact apart (some.inj here).symm

/-- A worker that stops waiting was served, or it fails. -/
structure Served (credits : List PaymentRow) (s : State) (resolved : ℕ → Option BalanceCredit) (before after : Worker) :
    Prop where
  alive : ∀ failure, before ≠ .failed failure
  quiet : ∀ index awaited, after ≠ .awaiting index awaited
  finished : after = .finished → credits.length ≤ s.nextIndex
  rejected : ∀ failure, after = .failed failure →
    ∃ (lookup : ℕ) (balance : BalanceKey), s.lookups[lookup]? = some ⟨balance,.rejected failure⟩
  known : ∀ index credit, resolved index = some credit → ∃ payment, credits[index]? = some payment ∧
    credit.amount = payment.amount ∧ s.balanceIdCache payment.key = some credit.id
  grows : ∀ index, (s.resolved index).isSome = true → (resolved index).isSome = true
  served : ∀ index awaited, before = .awaiting index awaited → (∃ failure, after = .failed failure) ∨
    (resolved index).isSome = true ∧ ∀ (lookup : ℕ) (there : Lookup), awaited = .lookup lookup →
      s.lookups[lookup]? = some there → there.phase.isFulfilled = true

theorem Sound.serve (sound : Sound credits s) {before after : Worker} (found : s.workers[worker]? = some before)
    {resolved : ℕ → Option BalanceCredit} (served : Served credits s resolved before after) :
    Sound credits {s with workers := s.workers.set worker after, resolved := resolved} := by
  have shared := sound.shared
  have working := sound.working
  have places (other : ℕ) : (s.workers.set worker after)[other]? = if other = worker then some after
      else s.workers[other]? :=
    getElem?_set_found found after other
  have failing (failure : Failure) (fails : after = .failed failure) :
      Failed {s with workers := s.workers.set worker after, resolved := resolved} :=
    ⟨worker,failure,(places worker).trans ((if_pos rfl).trans (congrArg some fails))⟩
  have fails : Failed s → Failed {s with workers := s.workers.set worker after, resolved := resolved} := by
    rintro ⟨other,failure,there⟩
    exact ⟨other,failure,worker_kept found _ there (served.alive failure).symm⟩
  refine ⟨⟨shared.fulfilled,shared.active,shared.pending,shared.alone,shared.issued,shared.distinct⟩,
    ⟨working.bound,served.known,?_,?_,?_,?_,?_⟩⟩
  · intro index taken
    rcases working.claimed index taken with resolved | ⟨other,awaited,there⟩ | failed
    · exact .inl (served.grows index resolved)
    · by_cases same : Worker.awaiting index awaited = before
      · rcases served.served index awaited same.symm with ⟨failure,failed⟩ | ⟨resolved,_⟩
        · exact .inr (.inr (failing failure failed))
        · exact .inl resolved
      · exact .inr (.inl ⟨other,awaited,worker_kept found _ there same⟩)
    · exact .inr (.inr (fails failed))
  · intro other index awaited there
    change (s.workers.set worker after)[other]? = _ at there
    rw [places] at there
    split at there
    · exact (served.quiet index awaited (some.inj there)).elim
    · exact working.awaits other index awaited there
  · intro other there
    change (s.workers.set worker after)[other]? = _ at there
    rw [places] at there
    split at there
    · exact served.finished (some.inj there)
    · exact working.done other there
  · intro lookup there inside waits
    rcases working.owned lookup there inside waits with ⟨other,index,here⟩ | failed
    · by_cases same : Worker.awaiting index (.lookup lookup) = before
      · rcases served.served index _ same.symm with ⟨failure,failed⟩ | ⟨_,fulfilled⟩
        · exact .inr (failing failure failed)
        · rw [fulfilled lookup there rfl inside] at waits
          cases waits
      · exact .inl ⟨other,index,worker_kept found _ here same⟩
    · exact .inr (fails failed)
  · intro other failure there
    change (s.workers.set worker after)[other]? = _ at there
    rw [places] at there
    split at there
    · exact served.rejected failure (some.inj there)
    · exact working.failed other failure there

theorem finish_sound (sound : Sound credits s) (running : s.workers[worker]? = some .running)
    (exhausted : credits.length ≤ s.nextIndex) : Sound credits {s with workers := s.workers.set worker .finished} :=
  sound.serve running ⟨nofun,nofun,fun _ => exhausted,nofun,sound.working.known,fun _ => id,nofun⟩

structure Claims (s t : State) (worker : ℕ) (awaited : Awaited) : Prop where
  workers : t.workers = s.workers.set worker (.awaiting s.nextIndex awaited)
  nextIndex : t.nextIndex = s.nextIndex + 1
  resolved : t.resolved = s.resolved
  cache : t.balanceIdCache = s.balanceIdCache
  kept : ∀ (lookup : ℕ) (there : Lookup), s.lookups[lookup]? = some there → t.lookups[lookup]? = some there
  fresh : ∀ (lookup : ℕ) (there : Lookup), t.lookups[lookup]? = some there →
    s.lookups[lookup]? = some there ∨ awaited = .lookup lookup

theorem Claims.working {payment : PaymentRow} (claims : Claims s t worker awaited)
    (working : Working credits s) (running : s.workers[worker]? = some .running)
    (found : credits[s.nextIndex]? = some payment) (awaits : awaitsKey t awaited payment.key) : Working credits t := by
  have kept (before : Awaited) (key : String) (waits : awaitsKey s before key) : awaitsKey t before key := by
    cases before with
    | cached id => exact (congrFun claims.cache key).trans waits
    | lookup lookup =>
      obtain ⟨there,inside,same⟩ := waits
      exact ⟨there,claims.kept lookup there inside,same⟩
  have places (other : ℕ) : t.workers[other]? =
      if other = worker then some (.awaiting s.nextIndex awaited) else s.workers[other]? := by
    rw [claims.workers,getElem?_set_found running]
  have still (other : ℕ) (before : Worker) (there : s.workers[other]? = some before) (busy : before ≠ .running) :
      t.workers[other]? = some before := by
    rw [claims.workers]
    exact worker_kept running _ there busy
  have fails : Failed s → Failed t := by
    rintro ⟨other,failure,there⟩
    exact ⟨other,failure,still other _ there nofun⟩
  obtain ⟨bound,_⟩ := List.getElem?_eq_some_iff.mp found
  constructor
  · rw [claims.nextIndex]
    exact bound
  · intro index credit there
    rw [claims.resolved] at there
    rw [claims.cache]
    exact working.known index credit there
  · intro index before
    rw [claims.nextIndex] at before
    rw [claims.resolved]
    rcases Nat.lt_succ_iff_lt_or_eq.mp before with earlier | rfl
    · rcases working.claimed index earlier with resolved | ⟨other,before,there⟩ | failed
      · exact .inl resolved
      · exact .inr (.inl ⟨other,before,still other _ there nofun⟩)
      · exact .inr (.inr (fails failed))
    · exact .inr (.inl ⟨worker,awaited,(places worker).trans (if_pos rfl)⟩)
  · intro other index before there
    rw [places] at there
    rw [claims.nextIndex]
    split at there
    · cases there
      exact ⟨Nat.lt_succ_self _,payment,found,awaits⟩
    · obtain ⟨taken,own,inside,waits⟩ := working.awaits other index before there
      exact ⟨by omega,own,inside,kept before own.key waits⟩
  · intro other there
    rw [places] at there
    split at there
    · cases there
    · have finished := working.done other there
      omega
  · intro lookup there inside waits
    rcases claims.fresh lookup there inside with old | rfl
    · rcases working.owned lookup there old waits with ⟨other,index,here⟩ | failed
      · exact .inl ⟨other,index,still other _ here nofun⟩
      · exact .inr (fails failed)
    · exact .inl ⟨worker,s.nextIndex,(places worker).trans (if_pos rfl)⟩
  · intro other failure there
    rw [places] at there
    split at there
    · cases there
    · obtain ⟨lookup,balance,inside⟩ := working.failed other failure there
      exact ⟨lookup,balance,claims.kept lookup _ inside⟩

private theorem pending_append (s : State) (own key : String) (lookup : ℕ) (absent : s.pending own = none) :
    State.pending {s with pendingBalanceLookups := s.pendingBalanceLookups ++ [(own,lookup)]} key =
      if key = own then some lookup else s.pending key := by
  unfold State.pending at absent ⊢
  dsimp only
  rw [List.find?_append]
  split
  · next same =>
    subst same
    rw [Option.map_eq_none_iff.mp absent]
    simp
  · next apart => simp [Ne.symm apart]

private theorem begin_shared (shared : Shared s) (missing : s.balanceIdCache (cacheKey balance) = none)
    (absent : s.pending (cacheKey balance) = none) : Shared {s with
      lookups := s.lookups ++ [⟨balance,.selecting⟩]
      pendingBalanceLookups := s.pendingBalanceLookups ++ [(cacheKey balance,s.lookups.length)]} := by
  have places (other : ℕ) (there : Lookup)
    (inside : (s.lookups ++ [(⟨balance,.selecting⟩ : Lookup)])[other]? = some there) :
      s.lookups[other]? = some there ∨ other = s.lookups.length ∧ there = ⟨balance,.selecting⟩ := by
    rcases Nat.lt_or_ge other s.lookups.length with old | new
    · rw [List.getElem?_append_left old] at inside
      exact .inl inside
    · rw [List.getElem?_append_right new] at inside
      obtain ⟨bound,same⟩ := List.getElem?_eq_some_iff.mp inside
      rw [List.length_singleton] at bound
      rw [List.getElem_singleton] at same
      exact .inr ⟨by omega,same.symm⟩
  have kept (other : ℕ) (there : Lookup) (inside : s.lookups[other]? = some there) :
      (s.lookups ++ [(⟨balance,.selecting⟩ : Lookup)])[other]? = some there := by
    obtain ⟨bound,_⟩ := List.getElem?_eq_some_iff.mp inside
    rw [List.getElem?_append_left bound]
    exact inside
  have pendings (key : String) : State.pending {s with
      lookups := s.lookups ++ [⟨balance,.selecting⟩]
      pendingBalanceLookups := s.pendingBalanceLookups ++ [(cacheKey balance,s.lookups.length)]} key =
        if key = cacheKey balance then some s.lookups.length else s.pending key :=
    pending_append s (cacheKey balance) key s.lookups.length absent
  have unseen (other : ℕ) (there : Lookup) (inside : s.lookups[other]? = some there)
      (plain : there.phase.isRejected = false) : cacheKey there.balance ≠ cacheKey balance := by
    intro same
    obtain ⟨own,phase⟩ := there
    by_cases active : phase.isActive = true
    · have pending := (shared.active other own phase inside active).1
      rw [same,absent] at pending
      cases pending
    · cases phase with
      | fulfilled id =>
        have cached := shared.fulfilled other own id inside
        rw [same,missing] at cached
        cases cached
      | rejected failure => cases plain
      | _ => exact active rfl
  constructor
  · intro other key id inside
    rcases places other _ inside with old | ⟨_,new⟩
    · exact shared.fulfilled other key id old
    · cases new
  · intro other key phase inside active
    rw [pendings]
    rcases places other _ inside with old | ⟨rfl,new⟩
    · obtain ⟨pending,uncached⟩ := shared.active other key phase old active
      rw [if_neg (unseen other _ old (Phase.isActive_settled active).1)]
      exact ⟨pending,uncached⟩
    · cases new
      exact ⟨if_pos rfl,missing⟩
  · intro key other pending
    rw [pendings] at pending
    split at pending
    · next same =>
      cases pending
      exact ⟨⟨balance,.selecting⟩,List.getElem?_concat_length ..,same.symm⟩
    · obtain ⟨there,inside,same⟩ := shared.pending key other pending
      exact ⟨there,kept other there inside,same⟩
  · intro first second one two left right keys goes stays
    rcases places first one left with old | ⟨rfl,rfl⟩ <;> rcases places second two right with old' | ⟨rfl,rfl⟩
    · exact shared.alone first second one two old old' keys goes stays
    · exact (unseen first one old goes keys).elim
    · exact (unseen second two old' stays keys.symm).elim
    · rfl
  · intro entry member
    obtain ⟨there,inside,own,issued⟩ := shared.issued entry member
    exact ⟨there,kept _ there inside,own,issued⟩
  · exact shared.distinct

theorem claim_sound (sound : Sound credits s) (running : s.workers[worker]? = some .running) :
    Sound credits (claim credits s worker) := by
  unfold claim
  cases found : credits[s.nextIndex]? with
  | none => exact finish_sound sound running (List.getElem?_eq_none_iff.mp found)
  | some payment =>
    have shared := sound.shared
    simp only [getOrCreateBalanceId]
    cases cached : s.balanceIdCache (cacheKey payment.balance) with
    | some id =>
      have claims : Claims s {s with nextIndex := s.nextIndex + 1, workers := s.workers.set worker (.awaiting
        s.nextIndex (.cached id))}
          worker (.cached id) := ⟨rfl,rfl,rfl,rfl,fun _ _ inside => inside,fun _ _ inside => .inl inside⟩
      exact ⟨⟨shared.fulfilled,shared.active,shared.pending,shared.alone,shared.issued,shared.distinct⟩,
        claims.working sound.working running found cached⟩
    | none =>
      cases there : State.pending {s with nextIndex := s.nextIndex + 1} (cacheKey payment.balance) with
      | some lookup =>
        have claims : Claims s {s with
            nextIndex := s.nextIndex + 1
            workers := s.workers.set worker (.awaiting s.nextIndex (.lookup lookup))} worker (.lookup lookup) :=
          ⟨rfl,rfl,rfl,rfl,fun _ _ inside => inside,fun _ _ inside => .inl inside⟩
        exact ⟨⟨shared.fulfilled,shared.active,shared.pending,shared.alone,shared.issued,shared.distinct⟩,
          claims.working sound.working running found (shared.pending _ _ there)⟩
      | none =>
        have begun := begin_shared shared cached there
        have claims : Claims s {s with
            nextIndex := s.nextIndex + 1
            workers := s.workers.set worker (.awaiting s.nextIndex (.lookup s.lookups.length))
            lookups := s.lookups ++ [⟨payment.balance,.selecting⟩]
            pendingBalanceLookups := s.pendingBalanceLookups ++ [(cacheKey payment.balance,s.lookups.length)]} worker
            (.lookup s.lookups.length) := by
          refine ⟨rfl,rfl,rfl,rfl,?_,?_⟩
          · intro other inside before
            obtain ⟨bound,_⟩ := List.getElem?_eq_some_iff.mp before
            exact (List.getElem?_append_left bound).trans before
          · intro other inside later
            rcases Nat.lt_or_ge other s.lookups.length with old | new
            · exact .inl ((List.getElem?_append_left old).symm.trans later)
            · obtain ⟨bound,_⟩ := List.getElem?_eq_some_iff.mp later
              rw [List.length_append,List.length_singleton] at bound
              obtain rfl : other = s.lookups.length := by omega
              exact .inr rfl
        exact ⟨⟨begun.fulfilled,begun.active,begun.pending,begun.alone,begun.issued,begun.distinct⟩,
          claims.working sound.working running found ⟨_,List.getElem?_concat_length ..,rfl⟩⟩

private theorem settled_ok (settled : s.settled awaited = some (.ok id)) :
    awaited = .cached id ∨ ∃ lookup balance, awaited = .lookup lookup ∧
    s.lookups[lookup]? = some ⟨balance,.fulfilled id⟩ := by
  cases awaited with
  | cached other =>
    cases settled
    exact .inl rfl
  | lookup lookup =>
    simp only [State.settled] at settled
    split at settled
    · next other phase =>
      cases settled
      obtain ⟨⟨balance,_⟩,there,rfl⟩ := map_eq_some_iff.mp phase
      exact .inr ⟨lookup,balance,rfl,there⟩
    · cases settled
    · cases settled

theorem settled_error {failure : Failure} (settled : s.settled awaited = some (.error failure)) :
    ∃ (lookup : ℕ) (balance : BalanceKey), s.lookups[lookup]? = some ⟨balance,.rejected failure⟩ := by
  cases awaited with
  | cached other => cases settled
  | lookup lookup =>
    simp only [State.settled] at settled
    split at settled
    · cases settled
    · next other phase =>
      cases settled
      obtain ⟨⟨balance,_⟩,there,rfl⟩ := map_eq_some_iff.mp phase
      exact ⟨lookup,balance,there⟩
    · cases settled

private theorem resolve_sound (sound : Sound credits s) {index : ℕ}
    (waits : s.workers[worker]? = some (.awaiting index awaited)) (settled : s.settled awaited = some (.ok id)) :
    Sound credits (resume credits s worker index (.ok id)) := by
  have shared := sound.shared
  have working := sound.working
  obtain ⟨taken,payment,found,key⟩ := working.awaits worker index awaited waits
  have cached : s.balanceIdCache payment.key = some id := by
    rcases settled_ok settled with rfl | ⟨lookup,balance,rfl,fulfilled⟩
    · exact key
    · obtain ⟨there,inside,same⟩ := key
      rw [fulfilled] at inside
      cases inside
      rw [← same]
      exact shared.fulfilled lookup balance id fulfilled
  have value : (credits[index]?).map (fun payment => (⟨id,payment.amount⟩ : BalanceCredit)) =
      some ⟨id,payment.amount⟩ := by
    rw [found]
    rfl
  refine sound.serve waits ⟨nofun,nofun,nofun,nofun,?_,?_,?_⟩
  · intro other credit there
    by_cases same : other = index
    · subst same
      rw [update_self,value] at there
      cases there
      exact ⟨payment,found,rfl,cached⟩
    · rw [update_of_ne same] at there
      exact working.known other credit there
  · intro other resolved
    by_cases same : other = index
    · subst same
      rw [update_self,value]
      rfl
    · rwa [update_of_ne same]
  · rintro _ _ ⟨⟩
    refine .inr ⟨?_,?_⟩
    · rw [update_self,value]
      rfl
    · rintro lookup there rfl inside
      rcases settled_ok settled with impossible | ⟨own,balance,same,fulfilled⟩
      · cases impossible
      · cases same
        rw [fulfilled] at inside
        cases inside
        rfl

private theorem fail_sound (sound : Sound credits s) {index : ℕ} {failure : Failure}
    (waits : s.workers[worker]? = some (.awaiting index awaited))
    (settled : s.settled awaited = some (.error failure)) :
    Sound credits (resume credits s worker index (.error failure)) := by
  refine sound.serve waits ⟨nofun,nofun,nofun,?_,sound.working.known,fun _ => id,fun _ _ _ => .inl ⟨failure,rfl⟩⟩
  rintro _ ⟨⟩
  exact settled_error settled

theorem advance_cases (moved : step credits s (.advance worker) = some t) :
    (s.workers[worker]? = some .running ∧ t = claim credits s worker) ∨
      ∃ index awaited outcome, s.workers[worker]? = some (.awaiting index awaited) ∧ s.settled awaited = some outcome ∧
        t = resume credits s worker index outcome := by
  obtain ⟨before,there,moved⟩ := bind_eq_some_iff.mp moved
  cases before with
  | running => exact .inl ⟨there,(some.inj moved).symm⟩
  | awaiting index awaited =>
    obtain ⟨outcome,settled,made⟩ := map_eq_some_iff.mp moved
    exact .inr ⟨index,awaited,outcome,there,settled,made.symm⟩
  | finished | failed failure => cases moved

theorem step_sound (sound : Sound credits s) {label : Label} (moved : step credits s label = some t) :
    Sound credits t := by
  cases label with
  | advance worker =>
    rcases advance_cases moved with ⟨running,rfl⟩ | ⟨index,awaited,outcome,waits,settled,rfl⟩
    · exact claim_sound sound running
    · cases outcome with
      | ok id => exact resolve_sound sound waits settled
      | error failure => exact fail_sound sound waits settled
  | settle lookup reply => exact settle_sound sound moved
  | forget lookup => exact forget_sound sound moved

theorem start_sound (credits : List PaymentRow) (balanceLookupConcurrency : ℕ) (balanceIdCache : String → Option ℕ)
    (isFullStop : Bool) : Sound credits (resolveBalanceCredits credits balanceLookupConcurrency balanceIdCache
      isFullStop) := by
  have running (worker : ℕ) (there : Worker)
      (inside : (List.replicate (min balanceLookupConcurrency credits.length) Worker.running)[worker]? = some there) :
      there = .running := List.eq_of_mem_replicate (mem_of_getElem? inside)
  constructor
  · constructor
    · intro lookup balance id there
      cases there
    · intro lookup balance phase there
      cases there
    · intro key lookup there
      cases there
    · intro first second one two there
      cases there
    · intro entry member
      cases member
    · exact List.nodup_nil
  · constructor
    · exact Nat.zero_le _
    · intro index credit there
      cases there
    · intro index before
      cases before
    · intro worker index awaited there
      cases running worker _ there
    · intro worker there
      cases running worker _ there
    · intro lookup there inside
      cases inside
    · intro worker failure there
      cases running worker _ there

theorem reachable_sound {balanceLookupConcurrency : ℕ}
    (reachable : (machine credits balanceLookupConcurrency).Reachable s) :
    Sound credits s := by
  apply reachable.invariant (Sound credits)
  · rintro _ ⟨balanceIdCache,isFullStop,rfl⟩
    exact start_sound credits balanceLookupConcurrency balanceIdCache isFullStop
  · intro before after label sound _ moved
    exact step_sound sound moved

end Invariants

section Termination

variable {credits : List PaymentRow} {s t : State}

def Worker.weight : Worker → ℕ
  | .running => 1
  | .awaiting .. => 2
  | _ => 0

def Phase.weight : Phase → ℕ
  | .selecting => 3
  | .inserting => 2
  | .reselecting => 1
  | _ => 0

def remaining (credits : List PaymentRow) (s : State) : ℕ :=
  6 * (credits.length - s.nextIndex) + (s.workers.map Worker.weight).sum +
    (s.lookups.map fun lookup => lookup.phase.weight).sum + s.pendingBalanceLookups.length

theorem sum_set {A : Type} (weight : A → ℕ) {items : List A} {index : ℕ} {old : A} (there : items[index]? = some old)
    (new : A) :
    ((items.set index new).map weight).sum + weight old = (items.map weight).sum + weight new := by
  induction items generalizing index with
  | nil => cases there
  | cons item items ih =>
    cases index with
    | zero =>
      cases there
      simp only [List.set_cons_zero,List.map_cons,sum_cons]
      omega
    | succ index =>
      have rest := ih there
      simp only [List.set_cons_succ,List.map_cons,sum_cons]
      omega

theorem claim_remaining {worker : ℕ} (running : s.workers[worker]? = some .running) :
    remaining credits (claim credits s worker) < remaining credits s := by
  unfold claim
  cases found : credits[s.nextIndex]? with
  | none =>
    have weights := sum_set Worker.weight running .finished
    have one : Worker.weight .running = 1 := rfl
    have none : Worker.weight .finished = 0 := rfl
    simp only [remaining]
    omega
  | some payment =>
    obtain ⟨bound,_⟩ := List.getElem?_eq_some_iff.mp found
    have one : Worker.weight .running = 1 := rfl
    simp only [getOrCreateBalanceId]
    cases s.balanceIdCache (cacheKey payment.balance) with
    | some id =>
      have weights := sum_set Worker.weight running (.awaiting s.nextIndex (.cached id))
      have two : Worker.weight (.awaiting s.nextIndex (.cached id)) = 2 := rfl
      simp only [remaining]
      omega
    | none =>
      cases State.pending {s with nextIndex := s.nextIndex + 1} (cacheKey payment.balance) with
      | some lookup =>
        have weights := sum_set Worker.weight running (.awaiting s.nextIndex (.lookup lookup))
        have two : Worker.weight (.awaiting s.nextIndex (.lookup lookup)) = 2 := rfl
        simp only [remaining]
        omega
      | none =>
        have weights := sum_set Worker.weight running (.awaiting s.nextIndex (.lookup s.lookups.length))
        have two : Worker.weight (.awaiting s.nextIndex (.lookup s.lookups.length)) = 2 := rfl
        have three : Phase.weight .selecting = 3 := rfl
        simp only [remaining,List.map_append,List.sum_append,List.map_cons,map_nil,sum_cons,sum_nil,
          List.length_append,List.length_singleton]
        omega

private theorem resume_remaining {worker index : ℕ} {awaited : Awaited}
    (waits : s.workers[worker]? = some (.awaiting index awaited))
    (outcome : Except Failure ℕ) : remaining credits (resume credits s worker index outcome) < remaining credits s := by
  have two : Worker.weight (.awaiting index awaited) = 2 := rfl
  cases outcome with
  | ok id =>
    have weights := sum_set Worker.weight waits .running
    have one : Worker.weight .running = 1 := rfl
    simp only [remaining,resume]
    omega
  | error failure =>
    have weights := sum_set Worker.weight waits (.failed failure)
    have none : Worker.weight (.failed failure) = 0 := rfl
    simp only [remaining,resume]
    omega

private theorem goes_remaining {lookup : ℕ} {balance : BalanceKey} {old phase : Phase}
    (found : s.lookups[lookup]? = some ⟨balance,old⟩) (less : phase.weight < old.weight) :
    remaining credits (s.goes lookup balance phase) < remaining credits s := by
  have weights := sum_set (fun lookup : Lookup => lookup.phase.weight) found ⟨balance,phase⟩
  simp only [remaining,State.goes,State.move] at weights ⊢
  omega

private theorem Phase.weight_lt {old phase : Phase} (active : old.isActive = true) (past : phase ≠ .selecting)
    (new : phase ≠ old) (onward : old = .reselecting → phase ≠ .inserting) : phase.weight < old.weight := by
  cases old with
  | selecting => cases phase <;> first | exact (past rfl).elim | exact Nat.zero_lt_succ _ | decide
  | inserting =>
    cases phase <;> first | exact (past rfl).elim | exact (new rfl).elim | exact Nat.zero_lt_succ _ | decide
  | reselecting =>
    cases phase <;>
      first | exact (past rfl).elim | exact (new rfl).elim | exact (onward rfl rfl).elim | exact Nat.zero_lt_succ _
  | fulfilled id | rejected failure => cases active

private theorem step_remaining {label : Label} (moved : step credits s label = some t) :
    remaining credits t < remaining credits s := by
  cases label with
  | advance worker =>
    rcases advance_cases moved with ⟨running,rfl⟩ | ⟨index,awaited,outcome,waits,_,rfl⟩
    · exact claim_remaining running
    · exact resume_remaining waits outcome
  | settle lookup reply =>
    obtain ⟨balance,old,found,active,⟨phase,past,new,onward,rfl | rfl⟩ | ⟨rfl,rfl⟩⟩ := settle_cases moved
    · exact goes_remaining found (Phase.weight_lt active past new onward)
    · have inside : s.stop.lookups[lookup]? = some ⟨balance,old⟩ := found
      exact goes_remaining inside (Phase.weight_lt active past new onward)
    · exact goes_remaining found (by decide : Phase.inserting.weight < Phase.selecting.weight)
  | forget lookup =>
    obtain ⟨⟨balance,phase⟩,found,moved⟩ := bind_eq_some_iff.mp moved
    dsimp only at moved
    split at moved
    · next ready =>
      cases moved
      obtain ⟨entry,there,_⟩ := map_eq_some_iff.mp ready.2
      have same := List.find?_some there
      have own : ¬entry.1 ≠ cacheKey balance := not_not.mpr (of_decide_eq_true same)
      have fewer : (s.pendingBalanceLookups.filter fun entry => entry.1 ≠ cacheKey balance).length <
          s.pendingBalanceLookups.length :=
        List.length_filter_lt_length_iff_exists.mpr ⟨entry,List.mem_of_find?_eq_some there,by simpa using own⟩
      simp only [remaining]
      omega
    · cases moved

theorem run_remaining {balanceLookupConcurrency : ℕ} {labels : List Label}
    (ran : (machine credits balanceLookupConcurrency).run s labels = some t) :
    remaining credits t + labels.length ≤ remaining credits s := by
  induction labels generalizing s with
  | nil =>
    cases ran
    exact le_rfl
  | cons label labels ih =>
    obtain ⟨next,moved,rest⟩ := bind_eq_some_iff.mp ran
    have less : remaining credits next < remaining credits s := step_remaining moved
    have later := ih rest
    rw [List.length_cons]
    omega

theorem start_remaining (credits : List PaymentRow) (balanceLookupConcurrency : ℕ) (balanceIdCache : String → Option ℕ)
    (isFullStop : Bool) : remaining credits
      (resolveBalanceCredits credits balanceLookupConcurrency balanceIdCache isFullStop) ≤ 7 * credits.length := by
  have running (count : ℕ) : ((List.replicate count Worker.running).map Worker.weight).sum = count := by
    induction count with
    | zero => rfl
    | succ count ih =>
      rw [List.replicate_succ,List.map_cons,sum_cons,ih]
      exact Nat.add_comm 1 count
  simp only [remaining,resolveBalanceCredits,running,map_nil,sum_nil,List.length_nil]
  omega

theorem enabled (sound : Sound credits s) (open_ : result credits s = none) :
    ∃ label, (step credits s label).isSome = true := by
  unfold result at open_
  split at open_
  · cases open_
  · next none =>
    split at open_
    · cases open_
    · next busy =>
      have unfinished : ∃ there ∈ s.workers, there.isFinished = false := by simpa using busy
      obtain ⟨there,member,waits⟩ := unfinished
      obtain ⟨worker,found⟩ := List.mem_iff_getElem?.mp member
      cases there with
      | running =>
        refine ⟨.advance worker,?_⟩
        simp [step,found]
      | finished => cases waits
      | failed failure => cases List.findSome?_eq_none_iff.mp none _ member
      | awaiting index awaited =>
        cases settled : s.settled awaited with
        | some outcome =>
          refine ⟨.advance worker,?_⟩
          simp [step,found,settled]
        | none =>
          obtain ⟨_,payment,_,key⟩ := sound.working.awaits worker index awaited found
          cases awaited with
          | cached id => cases settled
          | lookup lookup =>
            obtain ⟨⟨balance,phase⟩,inside,_⟩ := key
            simp only [State.settled,inside,Option.map_some] at settled
            cases phase with
            | selecting => exact ⟨.settle lookup (.rows []),by simp [step,settle,inside]⟩
            | inserting => exact ⟨.settle lookup (.inserted 0),by simp [step,settle,inside]⟩
            | reselecting => exact ⟨.settle lookup (.rows []),by simp [step,settle,inside]⟩
            | fulfilled id | rejected failure => cases settled

end Termination

section Aggregation

variable {rows items : List BalanceCredit} {credit : BalanceCredit}

private theorem mem_addCredit {id : ℕ} : id ∈ (addCredit rows credit).map BalanceCredit.id ↔
      id ∈ rows.map BalanceCredit.id ∨ credit.amount ≠ 0 ∧ credit.id = id := by
  unfold addCredit
  split
  · next zero => simp [zero]
  · next some =>
    split
    · next known =>
      have same : (rows.map fun other => if other.id = credit.id then
          {other with amount := other.amount + credit.amount} else other).map BalanceCredit.id =
          rows.map BalanceCredit.id := by
        rw [List.map_map]
        apply List.map_congr_left
        intro other _
        rw [comp_apply]
        split <;> rfl
      rw [same]
      constructor
      · exact .inl
      · rintro (member | ⟨_,rfl⟩)
        · exact member
        · exact known
    · simp [some,eq_comm]

theorem mem_aggregated {id : ℕ} : id ∈ (items.foldl addCredit rows).map BalanceCredit.id ↔
      id ∈ rows.map BalanceCredit.id ∨ ∃ credit ∈ items, credit.amount ≠ 0 ∧ credit.id = id := by
  induction items generalizing rows with
  | nil => simp
  | cons item items ih =>
    rw [List.foldl_cons,ih,mem_addCredit,or_assoc,List.exists_mem_cons_iff]

theorem totalCredit_cons (credit : BalanceCredit) (rows : List BalanceCredit) :
    totalCredit (credit::rows) = credit.amount + totalCredit rows := sum_cons

private theorem totalCredit_raise (distinct : (rows.map BalanceCredit.id).Nodup)
    (member : credit.id ∈ rows.map BalanceCredit.id) : totalCredit (rows.map fun other => if other.id = credit.id then
      {other with amount := other.amount + credit.amount} else other) = totalCredit rows + credit.amount := by
  induction rows with
  | nil => cases member
  | cons head rows ih =>
    obtain ⟨fresh,rest⟩ := List.nodup_cons.mp distinct
    rw [List.map_cons,totalCredit_cons,totalCredit_cons]
    by_cases here : head.id = credit.id
    · have others : (rows.map fun other => if other.id = credit.id then
          {other with amount := other.amount + credit.amount} else other) = rows := by
        conv_rhs => rw [← List.map_id rows]
        apply List.map_congr_left
        intro other inside
        rw [if_neg]
        · rfl
        · intro same
          exact fresh (here ▸ same ▸ List.mem_map_of_mem inside)
      rw [others,if_pos here]
      ring
    · have inside : credit.id ∈ rows.map BalanceCredit.id := by
        rcases List.mem_cons.mp member with same | inside
        · exact (here same.symm).elim
        · exact inside
      rw [ih rest inside,if_neg here]
      ring

private theorem totalCredit_addCredit (distinct : (rows.map BalanceCredit.id).Nodup)
    (credit : BalanceCredit) : totalCredit (addCredit rows credit) = totalCredit rows + credit.amount := by
  unfold addCredit
  split
  · next zero => rw [zero,add_zero]
  · split
    · next member => exact totalCredit_raise distinct member
    · unfold totalCredit
      rw [List.map_append,List.sum_append]
      simp

private theorem totalCredit_aggregated (distinct : (rows.map BalanceCredit.id).Nodup) :
    totalCredit (items.foldl addCredit rows) = totalCredit rows + totalCredit items := by
  induction items generalizing rows with
  | nil => simp [totalCredit]
  | cons item items ih =>
    rw [List.foldl_cons,ih (Payout.addCredit_ids distinct item),totalCredit_addCredit distinct,
      totalCredit_cons,add_assoc]

end Aggregation

section Results

variable {credits : List PaymentRow} {s : State} {rows : List BalanceCredit}

structure Merged (credits : List PaymentRow) (idOf : String → ℕ) (rows : List BalanceCredit) : Prop where
  each : ∀ id, creditOf rows id = ((credits.filter fun payment => idOf payment.key = id).map PaymentRow.amount).sum
  total : totalCredit rows = (credits.map PaymentRow.amount).sum
  distinct : (rows.map BalanceCredit.id).Nodup
  entries : ∀ id, id ∈ rows.map BalanceCredit.id ↔ ∃ payment ∈ credits, payment.amount ≠ 0 ∧ idOf payment.key = id

def creditAt (idOf : String → ℕ) (payment : PaymentRow) : BalanceCredit := ⟨idOf payment.key,payment.amount⟩

theorem merged_aggregated (credits : List PaymentRow) (idOf : String → ℕ) :
    Merged credits idOf ((credits.map (creditAt idOf)).foldl addCredit []) := by
  have start : (([] : List BalanceCredit).map BalanceCredit.id).Nodup := List.nodup_nil
  constructor
  · intro id
    rw [Payout.creditOf_foldl _ _ start,Payout.creditOf_nil,zero_add]
    clear start
    induction credits with
    | nil => rfl
    | cons payment credits ih =>
      rw [List.map_cons,Payout.creditOf_cons,ih]
      by_cases own : idOf payment.key = id
      · rw [List.filter_cons_of_pos (by simpa using own),List.map_cons,sum_cons]
        simp [creditAt,own]
      · rw [List.filter_cons_of_neg (by simpa using own)]
        simp [creditAt,own]
  · rw [totalCredit_aggregated start]
    simp [totalCredit,creditAt,comp_def]
  · exact Payout.foldl_addCredit_distinct _ _ start
  · intro id
    rw [mem_aggregated]
    simp [creditAt]

theorem workers_length (balanceLookupConcurrency : ℕ)
    (reachable : (machine credits balanceLookupConcurrency).Reachable s) :
    s.workers.length = min balanceLookupConcurrency credits.length := by
  apply reachable.invariant fun s => s.workers.length = min balanceLookupConcurrency credits.length
  · rintro _ ⟨balanceIdCache,isFullStop,rfl⟩
    exact List.length_replicate
  · intro before after label same _ moved
    cases label with
    | advance worker =>
      rcases advance_cases moved with ⟨_,rfl⟩ | ⟨index,awaited,outcome,_,_,rfl⟩
      · unfold claim
        split
        · rw [← same]
          exact List.length_set
        · rw [← same]
          exact List.length_set
      · cases outcome <;> exact List.length_set.trans same
    | settle lookup reply =>
      obtain ⟨balance,old,_,_,⟨phase,_,_,_,rfl | rfl⟩ | ⟨_,rfl⟩⟩ := settle_cases moved <;> exact same
    | forget lookup =>
      obtain ⟨there,_,moved⟩ := bind_eq_some_iff.mp moved
      dsimp only at moved
      split at moved
      · cases moved
        exact same
      · cases moved

theorem inserts_once (shared : Shared s) (balance : BalanceKey)
    (kept : ∀ lookup ∈ s.lookups, lookup.balance = balance → lookup.phase.isRejected = false) :
    (s.inserts.filter fun entry => entry.2 = balance).length ≤ 1 := by
  by_contra! several
  have two : ∃ first second, first ≠ second ∧ first ∈ s.inserts ∧ second ∈ s.inserts ∧ first.2 = balance ∧
      second.2 = balance := by
    have distinct : s.inserts.Nodup := List.Nodup.of_map Prod.fst shared.distinct
    have parts : ∀ entry ∈ s.inserts.filter (fun entry => entry.2 = balance), entry ∈ s.inserts ∧
        entry.2 = balance := by
      intro entry member
      obtain ⟨inside,own⟩ := List.mem_filter.mp member
      exact ⟨inside,of_decide_eq_true own⟩
    have different := distinct.filter (fun entry => decide (entry.2 = balance))
    rcases list : s.inserts.filter (fun entry => entry.2 = balance) with _ | ⟨first,_ | ⟨second,rest⟩⟩
    · rw [list] at several
      simp at several
    · rw [list] at several
      simp at several
    · rw [list] at parts different
      obtain ⟨one,own⟩ := parts first (by simp)
      obtain ⟨other,same⟩ := parts second (by simp)
      refine ⟨first,second,?_,one,other,own,same⟩
      rintro rfl
      simp at different
  obtain ⟨first,second,apart,one,other,own,same⟩ := two
  obtain ⟨there,inside,balance',_⟩ := shared.issued first one
  obtain ⟨here,found,balance'',_⟩ := shared.issued second other
  have left := kept there (mem_of_getElem? inside) (balance'.trans own)
  have right := kept here (mem_of_getElem? found) (balance''.trans same)
  have numbers := shared.alone first.1 second.1 there here inside found
    (by rw [balance',balance'',own,same]) left right
  exact apart (Prod.ext numbers (own.trans same.symm))

theorem returned {balanceLookupConcurrency : ℕ} (positive : 0 < balanceLookupConcurrency)
    (reachable : (machine credits balanceLookupConcurrency).Reachable s)
    (ended : result credits s = some (.ok rows)) : ¬Failed s ∧
      (∀ payment ∈ credits, (s.balanceIdCache payment.key).isSome = true) ∧
      rows = (credits.map (creditAt fun key => (s.balanceIdCache key).getD 0)).foldl addCredit [] := by
  have sound := reachable_sound reachable
  unfold result at ended
  split at ended
  · cases ended
  · next none =>
    split at ended
    · next finished =>
      cases ended
      have all (worker : ℕ) (there : Worker) (found : s.workers[worker]? = some there) : there = .finished := by
        have done := List.all_eq_true.mp finished there (mem_of_getElem? found)
        cases there <;> first | rfl | cases done
      have good : ¬Failed s := by
        rintro ⟨worker,failure,found⟩
        cases all worker _ found
      have resolved (index : ℕ) (payment : PaymentRow) (found : credits[index]? = some payment) :
          ∃ id, s.balanceIdCache payment.key = some id ∧ s.resolved index = some ⟨id,payment.amount⟩ := by
        obtain ⟨bound,_⟩ := List.getElem?_eq_some_iff.mp found
        have manned : 0 < s.workers.length := by
          rw [workers_length balanceLookupConcurrency reachable]
          omega
        have first : s.workers[0]? = some s.workers[0] := List.getElem?_eq_getElem manned
        rw [all 0 _ first] at first
        have taken := sound.working.done 0 first
        rcases sound.working.claimed index (by omega) with resolved | ⟨worker,awaited,there⟩ | failed
        · obtain ⟨credit,there⟩ := Option.isSome_iff_exists.mp resolved
          obtain ⟨own,here,amount,cached⟩ := sound.working.known index credit there
          rw [found] at here
          cases here
          refine ⟨credit.id,cached,?_⟩
          rw [there,← amount]
        · cases all worker _ there
        · exact (good failed).elim
      refine ⟨good,?_,?_⟩
      · intro payment member
        obtain ⟨index,found⟩ := List.mem_iff_getElem?.mp member
        obtain ⟨id,cached,_⟩ := resolved index payment found
        rw [cached]
        rfl
      · have same : (List.range credits.length).filterMap s.resolved =
            credits.map (creditAt fun key => (s.balanceIdCache key).getD 0) := by
          have values : (List.range credits.length).map s.resolved =
              credits.map fun payment => some (creditAt (fun key => (s.balanceIdCache key).getD 0) payment) := by
            apply List.ext_getElem
            · simp
            · intro index left right
              have bound : index < credits.length := by simpa using left
              obtain ⟨id,cached,there⟩ := resolved index credits[index] (List.getElem?_eq_getElem bound)
              simp [there,creditAt,cached]
          have unwrapped := congrArg (List.filterMap id) values
          simpa [List.filterMap_map,comp_def] using unwrapped
        rw [aggregated,same]
    · cases ended

theorem result_error {failure : Failure} (sound : Sound credits s) (ended : result credits s = some (.error failure)) :
    ∃ lookup ∈ s.lookups, lookup.phase = .rejected failure := by
  unfold result at ended
  split at ended
  · next first found =>
    cases ended
    obtain ⟨there,member,failed⟩ := List.exists_of_findSome?_eq_some found
    cases there with
    | failed other =>
      cases failed
      obtain ⟨worker,inside⟩ := List.mem_iff_getElem?.mp member
      obtain ⟨lookup,balance,rejected⟩ := sound.working.failed worker failure inside
      exact ⟨⟨balance,.rejected failure⟩,mem_of_getElem? rejected,rfl⟩
    | _ => cases failed
  · split at ended <;> cases ended

private theorem returned_unrejected (sound : Sound credits s) (good : ¬Failed s)
    (ended : result credits s = some (.ok rows)) : ∀ lookup ∈ s.lookups, lookup.phase.isRejected = false := by
  intro there member
  obtain ⟨lookup,found⟩ := List.mem_iff_getElem?.mp member
  cases rejected : there.phase.isRejected with
  | false => rfl
  | true =>
    have unfulfilled : there.phase.isFulfilled = false := by
      cases phase : there.phase <;> rw [phase] at rejected <;> first | rfl | cases rejected
    rcases sound.working.owned lookup there found unfulfilled with ⟨worker,index,waits⟩ | failed
    · unfold result at ended
      split at ended
      · cases ended
      · split at ended
        · next finished =>
          have done := List.all_eq_true.mp finished _ (mem_of_getElem? waits)
          cases done
        · cases ended
    · exact (good failed).elim

/-- Whatever the order in which queries are answered, a row is inserted at most once for a balance
unless a lookup of it fails, and a call that returns has merged every credit. It ends. -/
theorem balance_credits_resolved (credits : List PaymentRow) {balanceLookupConcurrency : ℕ}
    (positive : 0 < balanceLookupConcurrency) {s : State}
    (reachable : (machine credits balanceLookupConcurrency).Reachable s) :
    (∀ balance, (∀ lookup ∈ s.lookups, lookup.balance = balance → lookup.phase.isRejected = false) →
      (s.inserts.filter fun entry => entry.2 = balance).length ≤ 1) ∧
    (∀ rows, result credits s = some (.ok rows) →
      (∀ balance, (s.inserts.filter fun entry => entry.2 = balance).length ≤ 1) ∧
      ∃ idOf, (∀ payment ∈ credits, s.balanceIdCache payment.key = some (idOf payment.key)) ∧
      Merged credits idOf rows) ∧
    (∀ failure, result credits s = some (.error failure) → ∃ lookup ∈ s.lookups, lookup.phase = .rejected failure) ∧
    (result credits s = none → ∃ label, (step credits s label).isSome = true) ∧
    ∀ start labels, (machine credits balanceLookupConcurrency).initial start →
      (machine credits balanceLookupConcurrency).run start labels = some s → labels.length ≤ 7 * credits.length := by
  have sound := reachable_sound reachable
  refine ⟨fun balance => inserts_once sound.shared balance,?_,fun failure => result_error sound,enabled sound,?_⟩
  · intro rows ended
    obtain ⟨good,resolved,same⟩ := returned positive reachable ended
    have kept := returned_unrejected sound good ended
    refine ⟨fun balance => inserts_once sound.shared balance fun lookup member _ => kept lookup member,
      fun key => (s.balanceIdCache key).getD 0,?_,?_⟩
    · intro payment member
      obtain ⟨id,cached⟩ := Option.isSome_iff_exists.mp (resolved payment member)
      simp only [cached,Option.getD_some]
    · rw [same]
      exact merged_aggregated credits _
  · rintro _ labels ⟨balanceIdCache,isFullStop,rfl⟩ ran
    have ends := run_remaining ran
    have starts := start_remaining credits balanceLookupConcurrency balanceIdCache isFullStop
    omega

def shortIdCredits : List PaymentRow := [⟨"4Ab",none,"pplns",3⟩,⟨"4Ab",some "short","pplns",4⟩]

def shortIdLabels : List Label :=
  [.advance 0,.advance 1,.settle 0 (.rows []),.settle 0 (.inserted 5),.advance 1,.forget 0,.advance 0,
    .advance 0,.advance 1]

def shortIdMerged (s : State) : Bool :=
  s.inserts.length == 1 && match result shortIdCredits s with
    | some (.ok rows) => rows.map (fun credit => (credit.id,credit.amount)) == [(5,7)]
    | _ => false

theorem balance_credits_resolved_short_id : ∃ s rows, shortIdMerged s = true ∧
    result shortIdCredits s = some (.ok rows) ∧ ∃ idOf, Merged shortIdCredits idOf rows := by
  have start : (machine shortIdCredits 2).initial (resolveBalanceCredits shortIdCredits 2 (fun _ => none) false) :=
    ⟨_,_,rfl⟩
  have ends : ((machine shortIdCredits 2).run (resolveBalanceCredits shortIdCredits 2 (fun _ => none) false)
      shortIdLabels).any shortIdMerged = true := by decide +kernel
  obtain ⟨s,ran,merged⟩ := (Option.any_eq_true _ _).mp ends
  have resolved := balance_credits_resolved shortIdCredits (by decide : 0 < 2) (Machine.reachable_run start ran)
  have ok := (Bool.and_eq_true _ _ ▸ merged).2
  split at ok
  · next rows ended =>
    obtain ⟨_,idOf,_,rowsMerged⟩ := resolved.2.1 rows ended
    exact ⟨s,rows,merged,ended,idOf,rowsMerged⟩
  · cases ok

end Results

end NodejsPool.BlockManager.Lookups
