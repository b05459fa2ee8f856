import Mathlib.Tactic.Linarith

/-! The health of the daemons behind a template: when each chain was first found failing or lagging, when its daemon
was last fixed, and when the process gives up. -/
namespace NodejsPool.Pool.DaemonHealth

inductive Chain
  | xmr
  | xtm
  deriving DecidableEq

/-- The key of a chain on a port, such as `xmr:18081`. -/
abbrev Key := Chain × ℕ

structure HealthConfig where
  lagBlocks : ℚ
  graceMs : ℚ
  cooldownMs : ℚ
  unhealthyExitMs : ℚ

def daemonNumberConfig (value : Option ℚ) (fallback : ℚ) : ℚ :=
  match value with
  | some value => if value > 0 then value else fallback
  | none => fallback

structure DaemonConfig where
  stuckTemplateLagBlocks : Option ℚ
  stuckTemplateGraceSeconds : Option ℚ
  stuckTemplateFixCooldownSeconds : Option ℚ
  daemonFailureShutdownSeconds : Option ℚ

def stuckTemplateConfig (daemon : DaemonConfig) : HealthConfig where
  lagBlocks := daemonNumberConfig daemon.stuckTemplateLagBlocks 5
  graceMs := daemonNumberConfig daemon.stuckTemplateGraceSeconds 300 * 1000
  cooldownMs := daemonNumberConfig daemon.stuckTemplateFixCooldownSeconds 900 * 1000
  unhealthyExitMs := daemonNumberConfig daemon.daemonFailureShutdownSeconds 1200 * 1000

structure State where
  daemonFailureSince : Key → Option ℚ
  lastBlockLagStartTime : Key → Option ℚ
  lastBlockFixTime : Key → Option ℚ

section Failures

/-- `mainPort` is the port of the configured daemon. -/
def getDaemonHealthKeys (mainPort : ℕ) (coin : String) (port : ℕ) : List Key :=
  if coin = "" then [(.xmr,port),(.xtm,port)]
  else if "XTM".toList.isPrefixOf coin.toList then [(.xtm,mainPort)]
  else []

def setDaemonFailure (state : State) (now : ℚ) (key : Key) (failed : Bool) : State :=
  if failed ∧ state.daemonFailureSince key = none then
    { state with daemonFailureSince := Function.update state.daemonFailureSince key (some now) }
  else if !failed then { state with daemonFailureSince := Function.update state.daemonFailureSince key none }
  else state

end Failures

section Checks

inductive Status
  | noHeight
  | healthy
  | grace
  | cooldown
  | ready
  | fix
  deriving DecidableEq

structure HealthObservation where
  port : ℕ
  xmrHeight : Option ℚ
  xtmHeight : Option ℚ
  topXmrHeight : Option ℚ
  topXtmHeight : Option ℚ
  config : HealthConfig
  now : ℚ

def lagOf (height topHeight : Option ℚ) : ℚ :=
  match topHeight,height with
  | some top,some height => if top = 0 then 0 else top - height
  | _,_ => 0

/-- What a check notes of a chain's lag: a new one starts now, and none is left where the top height is known. -/
def noteLag (state : State) (key : Key) (height topHeight : Option ℚ) (config : HealthConfig) (now : ℚ) : State :=
  let lag := lagOf height topHeight
  if topHeight ≠ none ∧ lag ≥ config.lagBlocks ∧ state.lastBlockLagStartTime key = none then
    { state with lastBlockLagStartTime := Function.update state.lastBlockLagStartTime key (some now) }
  else if topHeight ≠ none ∧ lag < config.lagBlocks then
    { state with lastBlockLagStartTime := Function.update state.lastBlockLagStartTime key none }
  else state

def unhealthySince (state : State) (key : Key) : ℚ :=
  let since := (state.daemonFailureSince key).getD 0
  let lagSince := (state.lastBlockLagStartTime key).getD 0
  if lagSince ≠ 0 ∧ (since = 0 ∨ lagSince < since) then lagSince else since

def daemonStatus (state : State) (key : Key) (height topHeight : Option ℚ) (config : HealthConfig) (now : ℚ) :
    Status × ℚ × State :=
  if height = none ∧ (state.daemonFailureSince key).getD 0 = 0 then (.noHeight,0,state)
  else
    let state := noteLag state key height topHeight config now
    let since := unhealthySince state key
    if since = 0 then
      (.healthy,0,{ state with lastBlockFixTime := Function.update state.lastBlockFixTime key none })
    else if now - since < config.graceMs then (.grace,since,state)
    else if (state.lastBlockFixTime key).any fun lastFixAt => now - lastFixAt < config.cooldownMs then
      (.cooldown,since,state)
    else (.ready,since,state)

/-- What `fixDaemonIssue` is told. -/
structure Fix where
  reason : String
  port : ℕ
  xmrHeight : Option ℚ
  expectedXmrHeight : Option ℚ
  xtmHeight : Option ℚ
  expectedXtmHeight : Option ℚ
  keys : List Key

def expected (wanted : Bool) (topHeight : Option ℚ) : Option ℚ :=
  if wanted then topHeight.filter fun height => height ≠ 0 else none

/-- `both` is the fix that the two chains share; the keys it is for are noted as fixed. -/
def runDaemonFix (state : State) (options : HealthObservation) (xmr xtm : Bool) : Fix × State :=
  let keys := (if xmr then [(Chain.xmr,options.port)] else []) ++ if xtm then [(Chain.xtm,options.port)] else []
  ({ reason := if xmr && xtm then "template-stuck" else if xtm then "xtm-lag" else "xmr-lag"
     port := options.port
     xmrHeight := options.xmrHeight
     expectedXmrHeight := expected xmr options.topXmrHeight
     xtmHeight := options.xtmHeight
     expectedXtmHeight := expected xtm options.topXtmHeight
     keys := keys },
    { state with lastBlockFixTime :=
        keys.foldl (fun times key => Function.update times key (some options.now)) state.lastBlockFixTime })

def maybeExitForDaemonHealth (height : Option ℚ) (since : ℚ) (config : HealthConfig) (now : ℚ) : Bool :=
  !(height = none ∨ since = 0 ∨ now - since < config.unhealthyExitMs)

structure Health where
  xmr : Status
  xtm : Status
  fix : Option Fix
  exiting : Option Chain

def evaluateDaemonHealth (state : State) (options : HealthObservation) : Health × State :=
  let xmrHealth := daemonStatus state (.xmr,options.port) options.xmrHeight options.topXmrHeight
    options.config options.now
  let xtmHealth :=
    daemonStatus xmrHealth.2.2 (.xtm,options.port) options.xtmHeight options.topXtmHeight options.config options.now
  let xmrReady := xmrHealth.1 == .ready
  let xtmReady := xtmHealth.1 == .ready
  let fixed : Option Fix × State :=
    if xmrReady || xtmReady then
      let run := runDaemonFix xtmHealth.2.2 options xmrReady xtmReady
      (some run.1,run.2)
    else (none,xtmHealth.2.2)
  let exiting :=
    if maybeExitForDaemonHealth options.xmrHeight xmrHealth.2.1 options.config options.now then some Chain.xmr
    else if maybeExitForDaemonHealth options.xtmHeight xtmHealth.2.1 options.config options.now then some Chain.xtm
    else none
  ({ xmr := if xmrReady then .fix else xmrHealth.1
     xtm := if xtmReady then .fix else xtmHealth.1
     fix := fixed.1
     exiting := exiting },fixed.2)

/-- The heights of a template as `normalizedHeight` reads them. -/
structure HealthTemplate where
  port : Option ℕ
  height : Option ℚ
  xtm_height : Option ℚ

structure PoolRow where
  blockID : Option ℚ
  xtmBlockID : Option ℚ
  port : ℕ

def topHeight (heights : List (Option ℚ)) : ℚ :=
  heights.foldl (fun top height => if height.any fun value => value > top then height.getD 0 else top) 0

/-- What `checkStuckTemplateHealth` observes; rows that are none are a query that failed. -/
def checkStuckTemplateHealth (mainPort : ℕ) (template : Option HealthTemplate) (rows : Option (List PoolRow))
    (config : HealthConfig) (now : ℚ) : HealthObservation :=
  match template with
  | none => {
      port := mainPort
      xmrHeight := none
      xtmHeight := none
      topXmrHeight := none
      topXtmHeight := none
      config := config
      now := now }
  | some template =>
    let port := template.port.getD mainPort
    let own := rows.map fun rows => rows.filter fun row => row.port = port
    { port := port
      xmrHeight := template.height
      xtmHeight := template.xtm_height
      topXmrHeight := own.map fun rows => topHeight (rows.map PoolRow.blockID)
      topXtmHeight := own.map fun rows => topHeight (rows.map PoolRow.xtmBlockID)
      config := config
      now := now }

end Checks

section Specs

variable {state : State} {key other : Key} {height topHeight : Option ℚ} {config : HealthConfig} {now t : ℚ}

theorem setDaemonFailure_since {failed : Bool}
    (noted : (setDaemonFailure state now key failed).daemonFailureSince other = some t) :
    (other = key → failed = true) ∧ (other = key ∧ t = now ∨ state.daemonFailureSince other = some t) := by
  unfold setDaemonFailure at noted
  split at noted
  next new =>
    refine ⟨fun _ => new.1,?_⟩
    simp only [Function.update_apply] at noted
    split at noted
    next here => exact .inl ⟨here,(Option.some.inj noted).symm⟩
    · exact .inr noted
  · split at noted
    · simp only [Function.update_apply] at noted
      split at noted
      · cases noted
      next apart => exact ⟨fun here => absurd here apart,.inr noted⟩
    next failing => exact ⟨fun _ => by simpa using failing,.inr noted⟩

theorem setDaemonFailure_lag {failed : Bool} :
    (setDaemonFailure state now key failed).lastBlockLagStartTime = state.lastBlockLagStartTime := by
  unfold setDaemonFailure
  split
  · rfl
  · split <;> rfl

theorem setDaemonFailure_fix {failed : Bool} :
    (setDaemonFailure state now key failed).lastBlockFixTime = state.lastBlockFixTime := by
  unfold setDaemonFailure
  split
  · rfl
  · split <;> rfl

def Lagging (height topHeight : Option ℚ) (config : HealthConfig) : Prop :=
  topHeight ≠ none ∧ lagOf height topHeight ≥ config.lagBlocks

instance : Decidable (Lagging height topHeight config) := inferInstanceAs (Decidable (_ ∧ _))

theorem noteLag_failure : (noteLag state key height topHeight config now).daemonFailureSince =
    state.daemonFailureSince := by
  unfold noteLag
  dsimp only
  split
  · rfl
  · split <;> rfl

theorem noteLag_fix : (noteLag state key height topHeight config now).lastBlockFixTime = state.lastBlockFixTime := by
  unfold noteLag
  dsimp only
  split
  · rfl
  · split <;> rfl

theorem noteLag_lag (noted : (noteLag state key height topHeight config now).lastBlockLagStartTime other = some t) :
    state.lastBlockLagStartTime other = some t ∨ other = key ∧ t = now ∧ Lagging height topHeight config := by
  unfold noteLag at noted
  dsimp only at noted
  split at noted
  next seen =>
    simp only [Function.update_apply] at noted
    split at noted
    next here => exact .inr ⟨here,(Option.some.inj noted).symm,seen.1,seen.2.1⟩
    · exact .inl noted
  · split at noted
    · simp only [Function.update_apply] at noted
      split at noted
      · cases noted
      · exact .inl noted
    · exact .inl noted

variable (state key) in
theorem unhealthySince_cases : unhealthySince state key = 0 ∧
      ((state.daemonFailureSince key).getD 0 = 0 ∧ (state.lastBlockLagStartTime key).getD 0 = 0) ∨
    unhealthySince state key ≠ 0 ∧ (state.daemonFailureSince key = some (unhealthySince state key) ∨
      state.lastBlockLagStartTime key = some (unhealthySince state key)) := by
  unfold unhealthySince
  dsimp only
  cases state.daemonFailureSince key <;> cases state.lastBlockLagStartTime key <;> simp <;> grind

theorem daemonStatus_cases (state : State) (key : Key) (height topHeight : Option ℚ) (config : HealthConfig) (now : ℚ) :
    let noted := noteLag state key height topHeight config now
    let found := daemonStatus state key height topHeight config now
    found = (.noHeight,0,state) ∨
    found = (.healthy,0,{ noted with lastBlockFixTime := Function.update noted.lastBlockFixTime key none }) ∧
      unhealthySince noted key = 0 ∨
    found.2 = (unhealthySince noted key,noted) ∧ unhealthySince noted key ≠ 0 ∧ found.1 ≠ .healthy ∧
      (found.1 = .ready → unhealthySince noted key + config.graceMs ≤ now ∧
        ∀ last, state.lastBlockFixTime key = some last → last + config.cooldownMs ≤ now) := by
  dsimp only
  unfold daemonStatus
  split
  · exact .inl rfl
  · refine .inr ?_
    dsimp only
    split
    next healthy => exact .inl ⟨rfl,healthy⟩
    next since =>
      refine .inr ?_
      split
      · exact ⟨rfl,since,by simp,by simp⟩
      next old =>
        split
        · exact ⟨rfl,since,by simp,by simp⟩
        next cooled =>
          refine ⟨rfl,since,by simp,fun _ => ⟨by linarith,?_⟩⟩
          intro last fixed
          rw [noteLag_fix,fixed] at cooled
          simp at cooled
          linarith

end Specs
end NodejsPool.Pool.DaemonHealth
