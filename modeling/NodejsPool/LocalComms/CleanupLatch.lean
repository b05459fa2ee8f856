import Mathlib.Data.List.Count
import NodejsPool.Async.Machine
import NodejsPool.Payments.Json

/-! The latch of the share cleanup and the callback it is given, through the replies of the
daemon, the retries and every throw on the way. -/
namespace NodejsPool.LocalComms.Cleanup
open Async
open Payments (Json)

section FailureTexts

inductive Value where
  | undefined
  | json (value : Json)
  | error (name message : String)

namespace Value

def isNull : Value → Bool
  | .json .null => true
  | _ => false

def truthy : Value → Bool
  | .undefined => false
  | .json value => value.truthy
  | .error .. => true

def field (value : Value) (name : String) : Option Json :=
  match value with
  | .json value => value.field name
  | _ => none

def string (value : Value) : Option String :=
  match value with
  | .json (.str text) => some text
  | _ => none

end Value

def textOf : Option Json → Option String
  | some (.str text) => some text
  | _ => none

mutual

/-- An object that has its own `toString` is no text: no JSON value can be called. -/
def primitive : Json → Bool
  | .arr values => allPrimitive values
  | .obj fields => !fields.any fun entry => entry.1 = "toString"
  | _ => true

def allPrimitive : List Json → Bool
  | [] => true
  | value::values => primitive value && allPrimitive values

end

/-- `String(value)`, which may throw. -/
def stringOf (value : Json) : Except String String :=
  if primitive value then .ok value.toText else .error "Cannot convert object to primitive value"

def isErrorLike : Value → Bool
  | .error .. => true
  | .json (.obj fields) => (textOf ((Json.obj fields).field "message")).isSome ||
      ((Json.obj fields).field "code").isSome
  | _ => false

/-- `String` of a property, when it is there. -/
def part (value : Option Json) : Except String (List String) :=
  match value with
  | some value => (stringOf value).map fun text => [text]
  | none => .ok []

def constructorName (body : Json) : Json :=
  match body.field "constructor" with
  | none => .str "Object"
  | some constructor => ((constructor.field "name").filter Json.truthy).getD (.str "error")

def formatErrorLike (errorLike : Value) : Except String (Option Json) :=
  if isErrorLike errorLike then
    match errorLike with
    | .error name message =>
      .ok (some (.str (if message ≠ "" then message else if name ≠ "" then name else "error")))
    | .json body => do
      let code ← part (body.field "code")
      let errno ← part (body.field "errno")
      let errno := errno.map ("errno=" ++ ·)
      let syscall := (textOf (body.field "syscall")).toList.map ("syscall=" ++ ·)
      let message := ((textOf (body.field "message")).filter (· ≠ "")).toList
      let parts := code ++ errno ++ syscall ++ message
      if parts ≠ [] then return some (.str (String.intercalate " " parts)) else return some (constructorName body)
    | .undefined => .ok none
  else .ok none

/-- `JSON.stringify`, for what is no error. -/
def stringifyFallback : Value → Option Json
  | .json value => some (.str value.stringify)
  | .error .. => some (.str "\x7b\x7d")
  | .undefined => none

def formatRpcFailureValue (value : Value) : Except String (Option Json) := do
  let formatted ← formatErrorLike value
  match formatted.filter Json.truthy with
  | some formatted => return some formatted
  | none =>
    match value.string with
    | some text => return some (.str text)
    | none => return stringifyFallback value

def formatBodyObjectFailure (body : Value) : Json :=
  match body with
  | .json (.obj []) => .str "empty daemon response"
  | body => (stringifyFallback body).getD (.str "unknown error")

def formatBodyRpcFailure (body : Value) : Except String Json := do
  match body with
  | .undefined => return .str "unknown error"
  | body =>
    let formattedBody ← formatErrorLike body
    match formattedBody.filter Json.truthy with
    | some formattedBody => return formattedBody
    | none =>
      match body.string with
      | some text => return .str text
      | none => return formatBodyObjectFailure body

def formatErrRpcFailure (err body : Value) : Except String Json := do
  let formattedErr ← formatRpcFailureValue err
  match formattedErr with
  | some formattedErr => return formattedErr
  | none => formatBodyRpcFailure body

def errorMessage : Value → Option String
  | .error _ message => some message
  | err => textOf (err.field "message")

def isPlainFailure : Value → Bool
  | .undefined => true
  | .json .null => true
  | .json (.bool true) => true
  | _ => false

def formatCleanShareRpcFailure (err body : Value) : Except String Json :=
  match (if isErrorLike err then errorMessage err else none).filter (· ≠ "") with
  | some message => .ok (.str message)
  | none => if isPlainFailure err then formatBodyRpcFailure body else formatErrRpcFailure err body

def failureText (err result : Value) : Except String String := formatCleanShareRpcFailure err result >>= stringOf

end FailureTexts

section Cleanup

/-- A caller's `done`: whose it is, and what comes of calling it. -/
structure Call where
  id : ℕ
  done : Except String Unit

inductive Awaiting where
  | blockHeader (oldestLockedBlockHeight attempt : ℕ)
  | retry (oldestLockedBlockHeight attempt : ℕ)
  | lastHeader (oldestLockedBlockHeight : Option ℕ) (oldestLockedBlockDifficulty : Json)

structure State where
  cleanShareInProgress : Bool := false
  cleanShareStuckCount : ℕ := 0
  pending : Option (Call × Awaiting) := none
  /-- How often the cleanup was called: a call's number tells whose `done` it is. -/
  calls : ℕ := 0
  /-- The calls of the callbacks, each with its error. -/
  finished : List (ℕ × Option String) := []
  console : List String := []

/-- What the database and the mails do while a reply is handled: the scan finds heights to
delete, and any of these may throw. -/
structure Outcomes where
  depthWarning : Except String Unit
  scan : Except String (List ℕ)
  deletes : Except String Unit
  sync : Except String Unit

structure Config where
  blockCleaner : Bool

def CLEAN_SHARE_BLOCK_HEADER_RETRIES : ℕ := 3

abbrev Code := ExceptT String (StateM State)

def outcome {A : Type} (result : Except String A) : Code A := liftExcept result

def log (line : String) : Code Unit := modify fun s => {s with console := s.console ++ [line]}

def await (call : Call) (awaiting : Awaiting) : Code Unit := modify fun s => {s with pending := some (call,awaiting)}

def finish (call : Call) (error : Option String) : Code Unit := do
  modify fun s => {s with finished := s.finished ++ [(call.id,error)]}
  outcome call.done

def failCleanup (call : Call) (error : String) : Code Unit := do
  modify fun s => {s with cleanShareInProgress := false}
  finish call (some error)

def abortMessage : String := "Share DB cleanup aborted because the main daemon block-header lookup failed"

def abortCleanup (call : Call) : Code Unit := do
  log abortMessage
  modify fun s => {s with cleanShareInProgress := false}
  finish call (some abortMessage)

def finalizeCleanup (config : Config) (call : Call) (outcomes : Outcomes) (data : List ℕ) : Code Unit := do
  if config.blockCleaner then
    if 0 < data.length then outcome outcomes.deletes
    outcome outcomes.sync
  modify fun s => {s with cleanShareInProgress := false, cleanShareStuckCount := 0}
  finish call none

def scanShares (config : Config) (call : Call) (outcomes : Outcomes) : Code Unit := do
  let blockSet ← outcome outcomes.scan
  finalizeCleanup config call outcomes blockSet

def validDifficulty : Option Json → Bool
  | some (.num headerDifficulty) => 0 < headerDifficulty
  | _ => false

def isNullJson : Json → Bool
  | .null => true
  | _ => false

def cleanWindow (config : Config) (call : Call) (oldestLockedBlockHeight : Option ℕ)
    (oldestLockedBlockDifficulty : Json) (body : Value) (outcomes : Outcomes) : Code Unit := do
  match oldestLockedBlockHeight with
  | none =>
    if validDifficulty (body.field "difficulty") then scanShares config call outcomes
    else failCleanup call "Invalid current block difficulty"
  | some _ =>
    outcome outcomes.depthWarning
    if isNullJson oldestLockedBlockDifficulty then failCleanup call "Missing locked block difficulty"
    else scanShares config call outcomes

def onLastBlockHeader (config : Config) (call : Call) (oldestLockedBlockHeight : Option ℕ)
    (oldestLockedBlockDifficulty : Json) (err body : Value) (outcomes : Outcomes) : Code Unit := do
  if !err.isNull || !body.truthy then
    log "Last block header request failed!"
    abortCleanup call
  else
    try cleanWindow config call oldestLockedBlockHeight oldestLockedBlockDifficulty body outcomes
    catch error => failCleanup call error

def attemptLine (oldestLockedBlockHeight attempt : ℕ) (failure : String) : String :=
  "Share DB cleanup: can't get main block with " ++ toString oldestLockedBlockHeight ++ " height on attempt " ++
    toString attempt ++ "/" ++ toString CLEAN_SHARE_BLOCK_HEADER_RETRIES ++ ": " ++ failure

def onBlockHeader (call : Call) (oldestLockedBlockHeight attempt : ℕ) (err result : Value) : Code Unit := do
  match (if err.isNull && result.truthy then result.field "difficulty" else none) with
  | some difficulty => await call (.lastHeader (some oldestLockedBlockHeight) difficulty)
  | none =>
    let failure ← outcome (failureText err result)
    log (attemptLine oldestLockedBlockHeight attempt failure)
    if CLEAN_SHARE_BLOCK_HEADER_RETRIES ≤ attempt then abortCleanup call
    else await call (.retry oldestLockedBlockHeight attempt)

/-- `oldest` is what reading the oldest locked height comes to, and `email` what the mail on a
stuck cleanup comes to. -/
def cleanShareDB (call : Call) (oldest : Except String (Option ℕ)) (email : Except String Unit) : Code Unit := do
  if (← get).cleanShareInProgress then
    log "Share DB cleanup is already running"
    modify fun s => {s with cleanShareStuckCount := s.cleanShareStuckCount + 1}
    if 5 < (← get).cleanShareStuckCount then outcome email
    finish call (some "Share DB cleanup is already running")
  else
    modify fun s => {s with cleanShareInProgress := true}
    match oldest with
    | .error error => failCleanup call error
    | .ok none => await call (.lastHeader none .null)
    | .ok (some oldestLockedBlockHeight) => await call (.blockHeader oldestLockedBlockHeight 1)

inductive Label where
  | cleanShareDB (done : Except String Unit) (oldest : Except String (Option ℕ)) (email : Except String Unit)
  /-- The daemon call that was made throws instead of calling back. -/
  | daemonThrows
  | reply (err body : Value) (outcomes : Outcomes)
  | timer

/-- The state an event leaves; what it throws goes to the event loop. -/
def exec (code : Code Unit) (s : State) : State := (code.run.run s).2

def step (config : Config) (s : State) : Label → Option State
  | .cleanShareDB done oldest email =>
    some (exec (cleanShareDB ⟨s.calls,done⟩ oldest email) {s with calls := s.calls + 1})
  | .daemonThrows =>
    match s.pending with
    | some (_,.blockHeader ..) | some (_,.lastHeader ..) => some {s with pending := none}
    | _ => none
  | .reply err body outcomes =>
    match s.pending with
    | some (call,.blockHeader height attempt) =>
      some (exec (onBlockHeader call height attempt err body) {s with pending := none})
    | some (call,.lastHeader height difficulty) =>
      some (exec (onLastBlockHeader config call height difficulty err body outcomes) {s with pending := none})
    | _ => none
  | .timer =>
    match s.pending with
    | some (call,.retry height attempt) => some {s with pending := some (call,.blockHeader height (attempt + 1))}
    | _ => none

def machine (config : Config) : Machine State Label where
  initial s := s = {}
  step := step config

end Cleanup

section Codes

variable {A B : Type} {s t : State} {code : Code A} {next : A → Code Unit} {call : Call}

theorem outcome_run (result : Except String A) (s : State) : (outcome result).run.run s = (result,s) := by
  cases result <;> rfl

theorem bind_ok {next : A → Code B} {value : A} (ran : code.run.run s = (.ok value,t)) :
    (code >>= next).run.run s = (next value).run.run t := by
  have split : (code >>= next).run.run s = (ExceptT.bindCont next (code.run.run s).1).run (code.run.run s).2 := rfl
  rw [split,ran]
  rfl

theorem bind_error {next : A → Code B} {error : String} (ran : code.run.run s = (.error error,t)) :
    (code >>= next).run.run s = (.error error,t) := by
  have split : (code >>= next).run.run s = (ExceptT.bindCont next (code.run.run s).1).run (code.run.run s).2 := rfl
  rw [split,ran]
  rfl

def caught (handler : String → Code A) : Except String A → StateM State (Except String A)
  | .ok value => pure (.ok value)
  | .error error => (handler error).run

theorem try_run (code : Code A) (handler : String → Code A) (s : State) :
    (tryCatch code handler).run.run s = (caught handler (code.run.run s).1).run (code.run.run s).2 := by
  change (ExceptT.tryCatch code handler).run.run s = _
  rcases ran : code.run.run s with ⟨_ | _,t⟩
  all_goals
    have here : StateT.run code s = _ := ran
    simp only [ExceptT.tryCatch,ExceptT.run_mk,StateT.run_bind]
    rw [here]
    rfl

/-- A code that ends the cleanup: the latch is clear, and `done` was called `count` times. -/
structure Finishes (call : Call) (count : ℕ) (s t : State) : Prop where
  latch : t.cleanShareInProgress = false
  pending : t.pending = s.pending
  calls : t.calls = s.calls
  finished : ∃ errors : List (Option String), errors.length = count ∧
    t.finished = s.finished ++ errors.map fun error => (call.id,error)

theorem Finishes.trans {first second : ℕ} {middle : State} (one : Finishes call first s middle)
    (two : Finishes call second middle t) : Finishes call (first + second) s t := by
  obtain ⟨errors,count,added⟩ := one.finished
  obtain ⟨others,further,more⟩ := two.finished
  refine ⟨two.latch,two.pending.trans one.pending,two.calls.trans one.calls,errors ++ others,?_,?_⟩
  · rw [List.length_append,count,further]
  · rw [more,added,List.map_append,List.append_assoc]

theorem finish_run (call : Call) (error : Option String) (s : State) :
    (finish call error).run.run s = (call.done,{s with finished := s.finished ++ [(call.id,error)]}) := by
  unfold finish
  change (outcome call.done).run.run _ = _
  rw [outcome_run]

theorem failCleanup_run (call : Call) (error : String) (s : State) :
    ∃ t, (failCleanup call error).run.run s = (call.done,t) ∧ Finishes call 1 s t :=
  ⟨_,finish_run call (some error) {s with cleanShareInProgress := false},rfl,rfl,rfl,[some error],rfl,rfl⟩

theorem abortCleanup_run (call : Call) (s : State) :
    ∃ t, (abortCleanup call).run.run s = (call.done,t) ∧ Finishes call 1 s t :=
  ⟨_,finish_run call (some abortMessage) {s with console := s.console ++ [abortMessage],cleanShareInProgress := false},
    rfl,rfl,rfl,[some abortMessage],rfl,rfl⟩

/-- Whether the code calls `done` before anything throws; else it throws and changes nothing. -/
def Completes (call : Call) (code : Code Unit) (completes : Bool) (s : State) : Prop :=
  if completes then ∃ t, code.run.run s = (call.done,t) ∧ Finishes call 1 s t
  else ∃ error, code.run.run s = (.error error,s)

theorem Completes.after {value : A} {completes : Bool}
    (ran : code.run.run s = (.ok value,s)) (rest : Completes call (next value) completes s) :
    Completes call (code >>= next) completes s := by
  unfold Completes at rest ⊢
  rwa [bind_ok ran]

theorem Completes.thrown {error : String}
    (ran : code.run.run s = (.error error,s)) : Completes call (code >>= next) false s :=
  ⟨error,bind_error ran⟩

theorem Completes.outcome (result : Except String A) {completes : Bool}
    (rest : ∀ value, result = .ok value → Completes call (next value) completes s) :
    Completes call (outcome result >>= next) (result.isOk && completes) s := by
  cases same : result with
  | error error => exact .thrown (outcome_run _ s)
  | ok value => exact .after (outcome_run _ s) (rest value same)

def finalizes (config : Config) (outcomes : Outcomes) (data : List ℕ) : Bool :=
  if config.blockCleaner then (if 0 < data.length then outcomes.deletes.isOk else true) && outcomes.sync.isOk else true

def scans (config : Config) (outcomes : Outcomes) : Bool :=
  match outcomes.scan with
  | .ok blockSet => finalizes config outcomes blockSet
  | .error _ => false

/-- Nothing throws in the guarded part of the last header's callback before it calls `done`. -/
def completes (config : Config) (oldestLockedBlockHeight : Option ℕ) (oldestLockedBlockDifficulty : Json) (body : Value)
    (outcomes : Outcomes) : Bool :=
  match oldestLockedBlockHeight with
  | none => if validDifficulty (body.field "difficulty") then scans config outcomes else true
  | some _ => outcomes.depthWarning.isOk && if isNullJson oldestLockedBlockDifficulty then true
    else scans config outcomes

private theorem finished_completes (call : Call) (s : State) : Completes call (do
      modify fun s => {s with cleanShareInProgress := false, cleanShareStuckCount := 0}
      finish call none) true s :=
  ⟨_,finish_run call none {s with cleanShareInProgress := false, cleanShareStuckCount := 0},rfl,rfl,rfl,[none],rfl,rfl⟩

theorem finalizeCleanup_completes (config : Config) (call : Call) (outcomes : Outcomes) (data : List ℕ) (s : State) :
    Completes call (finalizeCleanup config call outcomes data) (finalizes config outcomes data) s := by
  have ends := finished_completes call s
  have syncs : Completes call (do
      outcome outcomes.sync
      modify fun s => {s with cleanShareInProgress := false, cleanShareStuckCount := 0}
      finish call none) outcomes.sync.isOk s := by
    rw [← Bool.and_true outcomes.sync.isOk]
    exact .outcome outcomes.sync fun _ _ => ends
  unfold finalizeCleanup finalizes
  by_cases cleans : config.blockCleaner = true
  · rw [if_pos cleans,if_pos cleans]
    by_cases some : 0 < data.length
    · rw [if_pos some,if_pos some]
      exact .outcome outcomes.deletes fun _ _ => syncs
    · rw [if_neg some,if_neg some,Bool.true_and]
      exact syncs
  · rw [if_neg cleans,if_neg cleans]
    exact ends

private theorem scanShares_completes (config : Config) (call : Call) (outcomes : Outcomes) (s : State) :
    Completes call (scanShares config call outcomes) (scans config outcomes) s := by
  unfold scanShares scans
  cases scanned : outcomes.scan with
  | error error => exact .thrown (outcome_run _ s)
  | ok blockSet => exact .after (outcome_run _ s) (finalizeCleanup_completes config call outcomes blockSet s)

private theorem cleanWindow_completes (config : Config) (call : Call) (oldestLockedBlockHeight : Option ℕ)
    (oldestLockedBlockDifficulty : Json) (body : Value) (outcomes : Outcomes) (s : State) :
    Completes call (cleanWindow config call oldestLockedBlockHeight oldestLockedBlockDifficulty body outcomes)
      (completes config oldestLockedBlockHeight oldestLockedBlockDifficulty body outcomes) s := by
  unfold cleanWindow completes
  cases oldestLockedBlockHeight with
  | none =>
    dsimp only
    split
    · exact scanShares_completes config call outcomes s
    · exact failCleanup_run call _ s
  | some height =>
    apply Completes.outcome
    intro _ _
    split
    · exact failCleanup_run call _ s
    · exact scanShares_completes config call outcomes s

/-- How often the callback of the last header calls `done`: again when the first call throws inside the guard. -/
def lastHeaderCalls (config : Config) (call : Call) (oldestLockedBlockHeight : Option ℕ)
    (oldestLockedBlockDifficulty : Json) (err body : Value) (outcomes : Outcomes) : ℕ :=
  if err.isNull && body.truthy && !call.done.isOk &&
    completes config oldestLockedBlockHeight oldestLockedBlockDifficulty body outcomes then 2 else 1

theorem onLastBlockHeader_finishes (config : Config) (call : Call) (oldestLockedBlockHeight : Option ℕ)
    (oldestLockedBlockDifficulty : Json) (err body : Value) (outcomes : Outcomes) (s : State) :
    Finishes call (lastHeaderCalls config call oldestLockedBlockHeight oldestLockedBlockDifficulty err body outcomes) s
      (exec (onLastBlockHeader config call oldestLockedBlockHeight oldestLockedBlockDifficulty err body outcomes)
        s) := by
  unfold onLastBlockHeader lastHeaderCalls exec
  by_cases arrived : (err.isNull && body.truthy) = true
  · have guard : ¬(!err.isNull || !body.truthy) = true := by simpa using arrived
    rw [if_neg guard,try_run,arrived,Bool.true_and]
    have window := cleanWindow_completes config call oldestLockedBlockHeight oldestLockedBlockDifficulty body outcomes s
    unfold Completes at window
    split at window
    · next whole =>
      obtain ⟨t,ran,finishes⟩ := window
      rw [ran,whole,Bool.and_true]
      cases done : call.done with
      | ok value => exact finishes
      | error error =>
        obtain ⟨u,ended,again⟩ := failCleanup_run call error t
        change Finishes call 2 s ((failCleanup call error).run.run t).2
        rw [ended]
        exact finishes.trans again
    · next thrown =>
      obtain ⟨error,ran⟩ := window
      obtain ⟨u,ended,once⟩ := failCleanup_run call error s
      rw [ran,(Bool.not_eq_true _).mp thrown,Bool.and_false]
      change Finishes call 1 s ((failCleanup call error).run.run s).2
      rw [ended]
      exact once
  · have guard : (!err.isNull || !body.truthy) = true := by
      rw [← Bool.not_and,(Bool.not_eq_true _).mp arrived]
      rfl
    obtain ⟨t,ran,finishes⟩ := abortCleanup_run call {s with
      console := s.console ++ ["Last block header request failed!"]}
    rw [if_pos guard,(Bool.not_eq_true _).mp arrived,Bool.false_and,Bool.false_and]
    change Finishes call 1 s ((abortCleanup call).run.run _).2
    rw [ran]
    exact ⟨finishes.latch,finishes.pending,finishes.calls,finishes.finished⟩

end Codes

section Runs

variable {config : Config} {s t : State} {flag : Bool} {labels : List Label}

/-- How often the `done` of a call was called. -/
def doneCalls (s : State) (id : ℕ) : ℕ := s.finished.countP fun entry => entry.1 = id

def waits (s : State) (id : ℕ) : Prop := s.pending.map (fun pending => pending.1.id) = some id

/-- The latch is set just while a cleanup waits, and every other call had its `done` called once. -/
structure Settled (s : State) : Prop where
  latch : s.cleanShareInProgress = s.pending.isSome
  waiting : ∀ id, waits s id → doneCalls s id = 0
  once : ∀ id < s.calls, ¬waits s id → doneCalls s id = 1

/-- No cleanup waits and the latch is set, or some `done` was not called once and never will be. -/
def Broken (s : State) : Prop :=
  (s.cleanShareInProgress = true ∧ s.pending = none) ∨ ∃ id < s.calls, ¬waits s id ∧ doneCalls s id ≠ 1

structure Sane (s : State) : Prop where
  fresh : ∀ id, s.calls ≤ id → doneCalls s id = 0
  owned : ∀ call awaiting, s.pending = some (call,awaiting) →
    call.id < s.calls ∧ s.cleanShareInProgress = true ∧ doneCalls s call.id = 0

theorem broken_not_settled (broken : Broken s) : ¬Settled s := by
  intro settled
  rcases broken with ⟨latch,none⟩ | ⟨id,known,apart,count⟩
  · have same := settled.latch
    rw [latch,none] at same
    cases same
  · exact count (settled.once id known apart)

/-- What an event does to the latch and the callbacks; the flag tells whether it is in order. -/
inductive Effect (s t : State) : Bool → Prop
  | refused (error : Option String) (latch : s.cleanShareInProgress = true) (same : t.cleanShareInProgress = true)
      (pending : t.pending = s.pending) (calls : t.calls = s.calls + 1)
      (finished : t.finished = s.finished ++ [(s.calls,error)]) : Effect s t true
  | dropped (latch : s.cleanShareInProgress = true) (same : t.cleanShareInProgress = true)
    (pending : t.pending = s.pending)
      (calls : t.calls = s.calls + 1) (finished : t.finished = s.finished) : Effect s t false
  | failed (error : Option String) (clear : s.cleanShareInProgress = false) (latch : t.cleanShareInProgress = false)
      (pending : t.pending = s.pending) (calls : t.calls = s.calls + 1)
      (finished : t.finished = s.finished ++ [(s.calls,error)]) : Effect s t true
  | started (call : Call) (awaiting : Awaiting) (clear : s.cleanShareInProgress = false)
      (latch : t.cleanShareInProgress = true) (own : call.id = s.calls) (pending : t.pending = some (call,awaiting))
      (calls : t.calls = s.calls + 1) (finished : t.finished = s.finished) : Effect s t true
  | continued (call : Call) (before after : Awaiting) (waiting : s.pending = some (call,before))
      (pending : t.pending = some (call,after)) (latch : t.cleanShareInProgress = s.cleanShareInProgress)
      (calls : t.calls = s.calls) (finished : t.finished = s.finished) : Effect s t true
  | ended (call : Call) (awaiting : Awaiting) (twice : Bool) (waiting : s.pending = some (call,awaiting))
      (pending : t.pending = none) (finishes : Finishes call (if twice then 2 else 1) {s with pending := none} t) :
      Effect s t (!twice)
  | lost (call : Call) (awaiting : Awaiting) (waiting : s.pending = some (call,awaiting)) (pending : t.pending = none)
      (latch : t.cleanShareInProgress = s.cleanShareInProgress) (calls : t.calls = s.calls)
      (finished : t.finished = s.finished) : Effect s t false

theorem doneCalls_same (finished : t.finished = s.finished) (id : ℕ) : doneCalls t id = doneCalls s id := by
  rw [doneCalls,finished]
  rfl

theorem doneCalls_added {owner : ℕ} {errors : List (Option String)}
    (finished : t.finished = s.finished ++ errors.map fun error => (owner,error)) (id : ℕ) :
    doneCalls t id = doneCalls s id + if owner = id then errors.length else 0 := by
  rw [doneCalls,finished,List.countP_append,List.countP_map,doneCalls]
  congr 1
  split
  · next same => simp [same]
  · next apart => simp [apart]

theorem doneCalls_one {owner : ℕ} {error : Option String} (finished : t.finished = s.finished ++ [(owner,error)])
    (id : ℕ) :
    doneCalls t id = doneCalls s id + if owner = id then 1 else 0 := by
  have added : t.finished = s.finished ++ [error].map fun error => (owner,error) := finished
  exact doneCalls_added added id

theorem waits_same (pending : t.pending = s.pending) (id : ℕ) : waits t id ↔ waits s id := by
  rw [waits,pending,waits]

theorem waits_some {call : Call} {awaiting : Awaiting} (pending : s.pending = some (call,awaiting)) (id : ℕ) :
    waits s id ↔ call.id = id := by
  rw [waits,pending,Option.map_some,Option.some.injEq]

theorem waits_none (pending : s.pending = none) (id : ℕ) : ¬waits s id := by
  rw [waits,pending]
  nofun

theorem Sane.idle (sane : Sane s) (clear : s.cleanShareInProgress = false) : s.pending = none := by
  rcases pending : s.pending with _ | ⟨call,awaiting⟩
  · rfl
  · have latch := (sane.owned call awaiting pending).2.1
    rw [clear] at latch
    cases latch

theorem Effect.sane (effect : Effect s t flag) (sane : Sane s) : Sane t := by
  cases effect with
  | refused error latch same pending calls finished =>
    constructor
    · intro id later
      rw [calls] at later
      rw [doneCalls_one finished,sane.fresh id (by omega),if_neg (by omega)]
    · intro call awaiting waiting
      rw [pending] at waiting
      obtain ⟨known,_,count⟩ := sane.owned call awaiting waiting
      refine ⟨by omega,same,?_⟩
      rw [doneCalls_one finished,count,if_neg (by omega)]
  | dropped latch same pending calls finished =>
    constructor
    · intro id later
      rw [doneCalls_same finished]
      exact sane.fresh id (by omega)
    · intro call awaiting waiting
      rw [pending] at waiting
      obtain ⟨known,_,count⟩ := sane.owned call awaiting waiting
      exact ⟨by omega,same,(doneCalls_same finished _).trans count⟩
  | failed error clear latch pending calls finished =>
    constructor
    · intro id later
      rw [calls] at later
      rw [doneCalls_one finished,sane.fresh id (by omega),if_neg (by omega)]
    · intro call awaiting waiting
      rw [pending,sane.idle clear] at waiting
      cases waiting
  | started call awaiting clear latch own pending calls finished =>
    constructor
    · intro id later
      rw [doneCalls_same finished]
      exact sane.fresh id (by omega)
    · intro other state waiting
      rw [pending] at waiting
      cases waiting
      refine ⟨by omega,latch,?_⟩
      rw [doneCalls_same finished]
      exact sane.fresh _ own.ge
  | continued call before after waiting pending latch calls finished =>
    obtain ⟨known,set,count⟩ := sane.owned call before waiting
    constructor
    · intro id later
      rw [doneCalls_same finished]
      exact sane.fresh id (by omega)
    · intro other state waits
      rw [pending] at waits
      cases waits
      exact ⟨by omega,latch.trans set,(doneCalls_same finished _).trans count⟩
  | ended call awaiting twice waiting pending finishes =>
    obtain ⟨known,_,_⟩ := sane.owned call awaiting waiting
    obtain ⟨errors,_,finished⟩ := finishes.finished
    have calls : t.calls = s.calls := finishes.calls
    constructor
    · intro id later
      have before : doneCalls s id = 0 := sane.fresh id (by omega)
      have added : doneCalls t id = doneCalls s id + if call.id = id then errors.length else 0 :=
        doneCalls_added finished id
      rw [added,before,if_neg (by omega)]
    · intro other state waits
      rw [pending] at waits
      cases waits
  | lost call awaiting waiting pending latch calls finished =>
    constructor
    · intro id later
      rw [doneCalls_same finished]
      exact sane.fresh id (by omega)
    · intro other state waits
      rw [pending] at waits
      cases waits

theorem Effect.miscounted (effect : Effect s t flag) {id : ℕ} (known : id < s.calls)
    (apart : ¬waits s id) : id < t.calls ∧ ¬waits t id ∧ doneCalls t id = doneCalls s id := by
  cases effect with
  | refused error latch same pending calls finished =>
    refine ⟨by omega,by rwa [waits_same pending],?_⟩
    rw [doneCalls_one finished,if_neg (by omega)]
    rfl
  | dropped latch same pending calls finished =>
    exact ⟨by omega,by rwa [waits_same pending],doneCalls_same finished id⟩
  | failed error clear latch pending calls finished =>
    refine ⟨by omega,by rwa [waits_same pending],?_⟩
    rw [doneCalls_one finished,if_neg (by omega)]
    rfl
  | started call awaiting clear latch own pending calls finished =>
    refine ⟨by omega,?_,doneCalls_same finished id⟩
    rw [waits_some pending]
    omega
  | continued call before after waiting pending latch calls finished =>
    refine ⟨by omega,?_,doneCalls_same finished id⟩
    rwa [waits_some pending,← waits_some waiting]
  | ended call awaiting twice waiting pending finishes =>
    obtain ⟨errors,_,finished⟩ := finishes.finished
    have calls : t.calls = s.calls := finishes.calls
    have added : doneCalls t id = doneCalls s id + if call.id = id then errors.length else 0 :=
      doneCalls_added finished id
    refine ⟨by omega,waits_none pending id,?_⟩
    rw [added,if_neg fun same => apart ((waits_some waiting id).mpr same),add_zero]
  | lost call awaiting waiting pending latch calls finished =>
    exact ⟨by omega,waits_none pending id,doneCalls_same finished id⟩

theorem Effect.broken (effect : Effect s t flag) (broken : Broken s) : Broken t := by
  rcases broken with ⟨set,none⟩ | ⟨id,known,apart,count⟩
  · left
    cases effect with
    | refused error latch same pending calls finished => exact ⟨same,pending.trans none⟩
    | dropped latch same pending calls finished => exact ⟨same,pending.trans none⟩
    | failed error clear | started call awaiting clear => cases set.symm.trans clear
    | continued call before after waiting => cases none.symm.trans waiting
    | ended call awaiting twice waiting => cases none.symm.trans waiting
    | lost call awaiting waiting => cases none.symm.trans waiting
  · obtain ⟨later,still,same⟩ := effect.miscounted known apart
    exact .inr ⟨id,later,still,by rwa [same]⟩

theorem Effect.settled (effect : Effect s t true) (sane : Sane s) (settled : Settled s) : Settled t := by
  have old (id : ℕ) (known : id < s.calls) (apart : ¬waits s id) : doneCalls t id = 1 := by
    rw [(effect.miscounted known apart).2.2]
    exact settled.once id known apart
  generalize order : true = flag at effect
  cases effect with
  | refused error latch same pending calls finished =>
    refine ⟨?_,?_,?_⟩
    · rw [same,pending,← settled.latch,latch]
    · intro id waiting
      rw [waits_same pending] at waiting
      obtain ⟨call,there,rfl⟩ := Option.map_eq_some_iff.mp waiting
      obtain ⟨known,_,count⟩ := sane.owned call.1 call.2 there
      rw [doneCalls_one finished,count,if_neg (by omega)]
    · intro id known apart
      rw [waits_same pending] at apart
      by_cases new : s.calls = id
      · rw [doneCalls_one finished,if_pos new,sane.fresh id new.le]
      · exact old id (by omega) apart
  | failed error clear latch pending calls finished =>
    refine ⟨?_,?_,?_⟩
    · rw [latch,pending,sane.idle clear]
      rfl
    · intro id waiting
      rw [waits_same pending] at waiting
      exact (waits_none (sane.idle clear) id waiting).elim
    · intro id known apart
      rw [waits_same pending] at apart
      by_cases new : s.calls = id
      · rw [doneCalls_one finished,if_pos new,sane.fresh id new.le]
      · exact old id (by omega) apart
  | started call awaiting clear latch own pending calls finished =>
    refine ⟨?_,?_,?_⟩
    · rw [latch,pending]
      rfl
    · intro id waiting
      rw [waits_some pending,own] at waiting
      rw [doneCalls_same finished]
      exact sane.fresh id waiting.le
    · intro id known apart
      rw [waits_some pending,own] at apart
      exact old id (by omega) (waits_none (sane.idle clear) id)
  | continued call before after waiting pending latch calls finished =>
    refine ⟨?_,?_,?_⟩
    · rw [latch,settled.latch,waiting,pending]
      rfl
    · intro id waits
      rw [waits_some pending,← waits_some waiting] at waits
      rw [doneCalls_same finished]
      exact settled.waiting id waits
    · intro id known apart
      rw [waits_some pending,← waits_some waiting] at apart
      exact old id (by omega) apart
  | ended call awaiting twice waiting pending finishes =>
    obtain ⟨errors,count,finished⟩ := finishes.finished
    have calls : t.calls = s.calls := finishes.calls
    refine ⟨?_,?_,?_⟩
    · rw [finishes.latch,pending]
      rfl
    · intro id waits
      exact (waits_none pending id waits).elim
    · intro id known apart
      by_cases own : call.id = id
      · have before : doneCalls s id = 0 := settled.waiting id ((waits_some waiting id).mpr own)
        have added : doneCalls t id = doneCalls s id + if call.id = id then errors.length else 0 :=
          doneCalls_added finished id
        have once : twice = false := by simpa using order
        rw [added,before,if_pos own,count,once]
        rfl
      · exact old id (by omega) fun waits => own ((waits_some waiting id).mp waits)
  | dropped | lost => cases order

theorem Effect.breaks (effect : Effect s t false) (sane : Sane s) : Broken t := by
  generalize order : false = flag at effect
  cases effect with
  | dropped latch same pending calls finished =>
    refine .inr ⟨s.calls,by omega,?_,?_⟩
    · intro waiting
      rw [waits_same pending] at waiting
      obtain ⟨call,there,own⟩ := Option.map_eq_some_iff.mp waiting
      have known := (sane.owned call.1 call.2 there).1
      omega
    · rw [doneCalls_same finished,sane.fresh _ le_rfl]
      exact Nat.zero_ne_one
  | ended call awaiting twice waiting pending finishes =>
    obtain ⟨errors,count,finished⟩ := finishes.finished
    obtain ⟨known,_,before⟩ := sane.owned call awaiting waiting
    have calls : t.calls = s.calls := finishes.calls
    have added : doneCalls t call.id = doneCalls s call.id + if call.id = call.id then errors.length else 0 :=
      doneCalls_added finished call.id
    have again : twice = true := by simpa using order
    refine .inr ⟨call.id,by omega,waits_none pending _,?_⟩
    rw [added,before,if_pos rfl,count,again]
    simp
  | lost call awaiting waiting pending latch calls finished =>
    exact .inl ⟨latch.trans (sane.owned call awaiting waiting).2.1,pending⟩
  | refused | failed | started | continued => cases order

/-- The events in order: no daemon call throws, the text of a failed lookup can be built, the mail on a stuck
cleanup does not throw, and no `done` throws under the last header's guard. -/
def orderly (config : Config) (s : State) : Label → Bool
  | .cleanShareDB _ _ email => !(s.cleanShareInProgress && 5 < s.cleanShareStuckCount + 1 && !email.isOk)
  | .daemonThrows => false
  | .reply err body outcomes =>
    match s.pending with
    | some (_,.blockHeader ..) => (err.isNull && body.truthy && (body.field "difficulty").isSome) ||
      (failureText err body).isOk
    | some (call,.lastHeader height difficulty) =>
      !(err.isNull && body.truthy && !call.done.isOk && completes config height difficulty body outcomes)
    | _ => true
  | .timer => true

theorem exec_ok {A : Type} {code : Code A} {next : A → Code Unit} {value : A} {u : State}
    (ran : code.run.run s = (.ok value,u)) : exec (code >>= next) s = exec (next value) u := by
  rw [exec,bind_ok ran,exec]

theorem exec_error {A : Type} {code : Code A} {next : A → Code Unit} {error : String} {u : State}
    (ran : code.run.run s = (.error error,u)) : exec (code >>= next) s = u := by
  rw [exec,bind_error ran]

theorem exec_finish (call : Call) (error : Option String) (s : State) :
    exec (finish call error) s = {s with finished := s.finished ++ [(call.id,error)]} := by
  rw [exec,finish_run]

def refusedState (s : State) : State :=
  {s with
    calls := s.calls + 1
    console := s.console ++ ["Share DB cleanup is already running"]
    cleanShareStuckCount := s.cleanShareStuckCount + 1}

private theorem cleanShareDB_busy (call : Call) (oldest : Except String (Option ℕ)) (email : Except String Unit)
    (busy : s.cleanShareInProgress = true) : exec (cleanShareDB call oldest email) {s with calls := s.calls + 1} =
      exec (do
        if 5 < s.cleanShareStuckCount + 1 then outcome email
        finish call (some "Share DB cleanup is already running")) (refusedState s) := by
  unfold cleanShareDB
  change exec (do
    if s.cleanShareInProgress then _ else _) _ = _
  rw [if_pos busy]
  rfl

private theorem cleanShareDB_idle (call : Call) (oldest : Except String (Option ℕ)) (email : Except String Unit)
    (idle : s.cleanShareInProgress = false) : exec (cleanShareDB call oldest email) {s with calls := s.calls + 1} =
      exec (match oldest with
        | .error error => failCleanup call error
        | .ok none => await call (.lastHeader none .null)
        | .ok (some oldestLockedBlockHeight) => await call (.blockHeader oldestLockedBlockHeight 1))
        {s with calls := s.calls + 1, cleanShareInProgress := true} := by
  unfold cleanShareDB
  change exec (do
    if s.cleanShareInProgress then _ else _) _ = _
  rw [idle]
  rfl

theorem cleanShareDB_effect (config : Config) (done : Except String Unit) (oldest : Except String (Option ℕ))
    (email : Except String Unit) (s : State) :
    Effect s (exec (cleanShareDB ⟨s.calls,done⟩ oldest email) {s with calls := s.calls + 1})
      (orderly config s (.cleanShareDB done oldest email)) := by
  by_cases busy : s.cleanShareInProgress = true
  · rw [cleanShareDB_busy _ oldest email busy]
    simp only [orderly,busy,Bool.true_and]
    have refused : Effect s (exec (finish ⟨s.calls,done⟩ (some "Share DB cleanup is already running"))
        (refusedState s)) true := by
      rw [exec_finish]
      exact .refused _ busy busy rfl rfl rfl
    by_cases stuck : 5 < s.cleanShareStuckCount + 1
    · rw [if_pos stuck,decide_eq_true stuck]
      cases email with
      | ok value =>
        rw [exec_ok (outcome_run _ _)]
        exact refused
      | error error =>
        rw [exec_error (outcome_run _ _)]
        exact .dropped busy busy rfl rfl rfl
    · rw [if_neg stuck,decide_eq_false stuck]
      exact refused
  · have idle := (Bool.not_eq_true _).mp busy
    rw [cleanShareDB_idle _ oldest email idle]
    simp only [orderly,idle,Bool.false_and,Bool.not_false]
    rcases oldest with error | _ | height
    · obtain ⟨t,ran,_⟩ := failCleanup_run ⟨s.calls,done⟩ error {s with
        calls := s.calls + 1, cleanShareInProgress := true}
      have fails : exec (failCleanup ⟨s.calls,done⟩ error) {s with calls := s.calls + 1, cleanShareInProgress := true} =
          exec (finish ⟨s.calls,done⟩ (some error)) {s with calls := s.calls + 1, cleanShareInProgress := false} := rfl
      dsimp only
      rw [fails,exec_finish]
      exact .failed (some error) idle rfl rfl rfl rfl
    · exact .started ⟨s.calls,done⟩ (.lastHeader none .null) idle rfl rfl rfl rfl rfl
    · exact .started ⟨s.calls,done⟩ (.blockHeader height 1) idle rfl rfl rfl rfl rfl

private theorem onBlockHeader_effect {call : Call} {height attempt : ℕ}
    (waiting : s.pending = some (call,.blockHeader height attempt))
    (err result : Value) : Effect s (exec (onBlockHeader call height attempt err result) {s with pending := none})
      ((err.isNull && result.truthy && (result.field "difficulty").isSome) || (failureText err result).isOk) := by
  unfold onBlockHeader
  have answered : (err.isNull && result.truthy && (result.field "difficulty").isSome) =
      (if err.isNull && result.truthy then result.field "difficulty" else none).isSome := by
    cases err.isNull && result.truthy <;> rfl
  rw [answered]
  cases (if err.isNull && result.truthy then result.field "difficulty" else none) with
  | some difficulty => exact .continued call _ (.lastHeader (some height) difficulty) waiting rfl rfl rfl rfl
  | none =>
    rw [Option.isSome_none,Bool.false_or]
    dsimp only
    cases text : failureText err result with
    | error error =>
      rw [exec_error (outcome_run _ _)]
      exact .lost call _ waiting rfl rfl rfl rfl
    | ok failure =>
      rw [exec_ok (outcome_run _ _)]
      by_cases last : CLEAN_SHARE_BLOCK_HEADER_RETRIES ≤ attempt
      · rw [if_pos last]
        obtain ⟨t,ran,finishes⟩ := abortCleanup_run call
          {s with pending := none, console := s.console ++ [attemptLine height attempt failure]}
        have aborts : exec (do
            log (attemptLine height attempt failure)
            abortCleanup call) {s with pending := none} = t := congrArg Prod.snd ran
        rw [aborts]
        exact .ended call _ false waiting finishes.pending
          ⟨finishes.latch,finishes.pending,finishes.calls,finishes.finished⟩
      · rw [if_neg last]
        exact .continued call _ (.retry height attempt) waiting rfl rfl rfl rfl

theorem step_effect {label : Label} (moved : step config s label = some t) : Effect s t (orderly config s label) := by
  cases label with
  | cleanShareDB done oldest email =>
    cases moved
    exact cleanShareDB_effect config done oldest email s
  | daemonThrows =>
    simp only [step] at moved
    split at moved
    · next call height attempt waiting =>
      cases moved
      exact .lost call _ waiting rfl rfl rfl rfl
    · next call height difficulty waiting =>
      cases moved
      exact .lost call _ waiting rfl rfl rfl rfl
    · cases moved
  | reply err body outcomes =>
    simp only [step] at moved
    split at moved
    · next call height attempt waiting =>
      cases moved
      simp only [orderly,waiting]
      exact onBlockHeader_effect waiting err body
    · next call height difficulty waiting =>
      cases moved
      simp only [orderly,waiting]
      have finishes := onLastBlockHeader_finishes config call height difficulty err body outcomes {s with
        pending := none}
      unfold lastHeaderCalls at finishes
      exact .ended call _ _ waiting finishes.pending finishes
    · cases moved
  | timer =>
    simp only [step] at moved
    split at moved
    · next call height attempt waiting =>
      cases moved
      exact .continued call _ _ waiting rfl rfl rfl rfl
    · cases moved

def ordered (config : Config) : State → List Label → Bool
  | _,[] => true
  | s,label::labels => orderly config s label && (step config s label).all fun t => ordered config t labels

private theorem run_broken (broken : Broken s) (ran : (machine config).run s labels = some t) : Broken t := by
  induction labels generalizing s with
  | nil =>
    cases ran
    exact broken
  | cons label labels ih =>
    obtain ⟨next,moved,rest⟩ := Option.bind_eq_some_iff.mp ran
    exact ih ((step_effect moved).broken broken) rest

private theorem run_settled (sane : Sane s) (settled : Settled s)
    (ran : (machine config).run s labels = some t) : Settled t ↔ ordered config s labels = true := by
  induction labels generalizing s with
  | nil =>
    cases ran
    exact iff_of_true settled rfl
  | cons label labels ih =>
    obtain ⟨next,moved,rest⟩ := Option.bind_eq_some_iff.mp ran
    have effect := step_effect moved
    have here : step config s label = some next := moved
    rw [ordered,here,Option.all_some]
    cases order : orderly config s label with
    | true =>
      rw [order] at effect
      rw [Bool.true_and]
      exact ih (effect.sane sane) (effect.settled sane settled) rest
    | false =>
      rw [order] at effect
      have broken := run_broken (effect.breaks sane) rest
      exact iff_of_false (broken_not_settled broken) Bool.false_ne_true

private theorem sane_start : Sane {} where
  fresh _ _ := rfl
  owned _ _ waiting := by cases waiting

private theorem settled_start : Settled {} where
  latch := rfl
  waiting _ waits := by cases waits
  once _ known := by cases known

/-- After a run the latch is set just while a cleanup waits for a reply, and every other call's
`done` was called exactly once, if and only if every event of the run was in order. -/
theorem cleanup_latch (config : Config) {labels : List Label} (ran : (machine config).run {} labels = some s) :
    Settled s ↔ ordered config {} labels = true := run_settled sane_start settled_start ran

def plainOutcomes : Outcomes := ⟨.ok (),.ok [3],.ok (),.ok ()⟩

def header : Value := .json (.obj [("height",.num 42),("difficulty",.num 7)])

def retriedRun : List Label :=
  [.cleanShareDB (.ok ()) (.ok (some 30)) (.ok ()),.reply (.json (.bool true)) (.error "Error" "timeout") plainOutcomes,
    .cleanShareDB (.ok ()) (.ok none) (.ok ()),.timer,.reply (.json .null) header plainOutcomes,
    .reply (.json .null) header plainOutcomes]

theorem cleanup_latch_retried : ∃ s, (machine ⟨true⟩).run {} retriedRun = some s ∧ Settled s ∧
    s.cleanShareInProgress = false ∧ doneCalls s 0 = 1 ∧ doneCalls s 1 = 1 := by
  have ran : ((machine ⟨true⟩).run {} retriedRun).any (fun s =>
      s.cleanShareInProgress = false ∧ doneCalls s 0 = 1 ∧ doneCalls s 1 = 1) = true := by
    decide +kernel
  obtain ⟨s,ended,seen⟩ := (Option.any_eq_true _ _).mp ran
  exact ⟨s,ended,(cleanup_latch ⟨true⟩ ended).mpr (by decide +kernel),of_decide_eq_true seen⟩

/-- The daemon call throws: the latch stays set and `done` is never called. -/
theorem thrown_call_latches : ¬∀ (config : Config) (labels : List Label) (s : State),
    (machine config).run {} labels = some s → Settled s := by
  intro settled
  have ran : (machine ⟨true⟩).run {} [.cleanShareDB (.ok ()) (.ok none) (.ok ()),.daemonThrows] =
      some {cleanShareInProgress := true, calls := 1} := rfl
  have latch := (settled _ _ _ ran).latch
  cases latch

end Runs

end NodejsPool.LocalComms.Cleanup
