import NodejsPool.Async.Machine
import NodejsPool.Common.Logs
import NodejsPool.Pool.DaemonHealth

/-! Runs of the daemons' health: every fix and every exit has the record that calls for it, and none that forbids it. -/
namespace NodejsPool.Pool.DaemonHealth
open Async Common.Logs

section Runs

inductive Kind
  | found (status : Status) (lagging : Bool)
  | marked (failed lagNoted : Bool)
  | fixed
  deriving DecidableEq

structure Event where
  key : Key
  time : ℚ
  kind : Kind

structure World where
  state : State
  log : List Event
  now : ℚ

def World.mark (world : World) (now : ℚ) (key : Key) (failed : Bool) : World :=
  { world with
    state := setDaemonFailure world.state now key failed
    log := ⟨key,now,.marked failed (world.state.lastBlockLagStartTime key).isSome⟩::world.log }

def World.markDaemonFailure (world : World) (now : ℚ) (mainPort : ℕ) (coin : String) (port : ℕ) (failed : Bool) :
    World :=
  (getDaemonHealthKeys mainPort coin port).foldl (fun world key => world.mark now key failed) world

def World.markHeaderHealth (world : World) (now : ℚ) (port : ℕ) (xmrStale xtmStale : Bool) : World :=
  (world.mark now (.xmr,port) xmrStale).mark now (.xtm,port) xtmStale

def World.check (world : World) (options : HealthObservation) : World :=
  let health := evaluateDaemonHealth world.state options
  let found (chain : Chain) (status : Status) (height topHeight : Option ℚ) : Event :=
    ⟨(chain,options.port),options.now,.found status (Lagging height topHeight options.config)⟩
  let fixed := (health.1.fix.map Fix.keys).getD []
  { world with
    state := health.2
    log := fixed.map (fun key => ⟨key,options.now,.fixed⟩) ++
      found .xtm health.1.xtm options.xtmHeight options.topXtmHeight::
      found .xmr health.1.xmr options.xmrHeight options.topXmrHeight::world.log }

inductive Label
  | mark (coin : String) (port : ℕ) (failed : Bool)
  | header (port : ℕ) (xmrStale xtmStale : Bool)
  | check (template : Option HealthTemplate) (rows : Option (List PoolRow)) (config : HealthConfig)

def step (mainPort : ℕ) (world : World) (now : ℚ) : Label → World
  | .mark coin port failed => world.markDaemonFailure now mainPort coin port failed
  | .header port xmrStale xtmStale => world.markHeaderHealth now port xmrStale xtmStale
  | .check template rows config => world.check (checkStuckTemplateHealth mainPort template rows config now)

/-- Marks and checks in any order, at times that never go back. -/
def health (mainPort : ℕ) : Machine World (ℚ × Label) where
  initial world := world.state = ⟨fun _ => none,fun _ => none,fun _ => none⟩ ∧ world.log = [] ∧ 0 < world.now
  step world label :=
    if world.now ≤ label.1 then some { step mainPort world label.1 label.2 with now := label.1 } else none

end Runs

section Invariant

def HealthyCheck (key : Key) (event : Event) : Prop := event.key = key ∧ ∃ lagging, event.kind = .found .healthy lagging

def Healthy (key : Key) (event : Event) : Prop :=
  HealthyCheck key event ∨ event.key = key ∧ event.kind = .marked false false

def Unhealthy (key : Key) (event : Event) : Prop :=
  event.key = key ∧ ((∃ status, event.kind = .found status true) ∨ ∃ lagNoted, event.kind = .marked true lagNoted)

def Fixed (key : Key) (event : Event) : Prop := event.key = key ∧ event.kind = .fixed

structure Tracked (state : State) (log : List Event) (now : ℚ) : Prop where
  sorted : log.Pairwise fun later earlier => earlier.time ≤ later.time
  past : ∀ event ∈ log, 0 < event.time ∧ event.time ≤ now
  failure : ∀ key t, state.daemonFailureSince key = some t →
    Since (fun event => Unhealthy key event ∧ event.time = t) (Healthy key) log
  lag : ∀ key t, state.lastBlockLagStartTime key = some t →
    Since (fun event => Unhealthy key event ∧ event.time = t) (Healthy key) log
  fixes : ∀ key t, Since (fun event => Fixed key event ∧ event.time = t) (HealthyCheck key) log →
    ∃ last, state.lastBlockFixTime key = some last ∧ t ≤ last

variable {state : State} {log : List Event} {now : ℚ} {key : Key} {kind : Kind} {mainPort : ℕ}

theorem Tracked.elapse (tracked : Tracked state log now) {after : ℚ} (later : now ≤ after) : Tracked state log after :=
  { tracked with past := fun event among => ⟨(tracked.past event among).1,(tracked.past event among).2.trans later⟩ }

theorem Tracked.positive {start : Event → Prop} {stop : Event → Prop} {t : ℚ} (tracked : Tracked state log now)
    (since : Since (fun event => start event ∧ event.time = t) stop log) : 0 < t := by
  obtain ⟨event,among,_,rfl⟩ := since.exists_mem
  exact (tracked.past event among).1

theorem Tracked.record {after : State} (tracked : Tracked state log now) (positive : 0 < now) (event : Event)
    (here : event.time = now) (failure : ∀ key t, after.daemonFailureSince key = some t →
      Unhealthy key event ∧ t = now ∨ state.daemonFailureSince key = some t ∧ ¬Healthy key event)
    (lag : ∀ key t, after.lastBlockLagStartTime key = some t →
      Unhealthy key event ∧ t = now ∨ state.lastBlockLagStartTime key = some t ∧ ¬Healthy key event)
    (fixes : ∀ key, Fixed key event ∧ after.lastBlockFixTime key = some now ∨ HealthyCheck key event ∨
      ¬Fixed key event ∧ after.lastBlockFixTime key = state.lastBlockFixTime key) :
    Tracked after (event::log) now := by
  refine ⟨List.pairwise_cons.mpr ⟨fun earlier among => ?_,tracked.sorted⟩,?_,?_,?_,?_⟩
  · rw [here]
    exact (tracked.past earlier among).2
  · intro other among
    rcases List.mem_cons.mp among with rfl | earlier
    · rw [here]
      exact ⟨positive,le_rfl⟩
    · exact tracked.past other earlier
  · intro key t noted
    rcases failure key t noted with ⟨signs,rfl⟩ | ⟨before,kept⟩
    · exact since_cons.mpr (.inl ⟨signs,here⟩)
    · exact (tracked.failure key t before).later kept
  · intro key t noted
    rcases lag key t noted with ⟨signs,rfl⟩ | ⟨before,kept⟩
    · exact since_cons.mpr (.inl ⟨signs,here⟩)
    · exact (tracked.lag key t before).later kept
  · intro key t since
    rcases fixes key with ⟨fixed,noted⟩ | healthy | ⟨other,same⟩
    · refine ⟨now,noted,?_⟩
      rcases since_cons.mp since with ⟨_,rfl⟩ | ⟨_,before⟩
      · exact here.le
      · obtain ⟨earlier,among,_,rfl⟩ := before.exists_mem
        exact (tracked.past earlier among).2
    · rcases since_cons.mp since with ⟨fixed,_⟩ | ⟨kept,_⟩
      · obtain ⟨_,_,found⟩ := healthy
        rw [fixed.2] at found
        cases found
      · exact absurd healthy kept
    · rcases since_cons.mp since with ⟨fixed,_⟩ | ⟨_,before⟩
      · exact absurd fixed other
      · rw [same]
        exact tracked.fixes key t before

theorem found_healthy {status : Status} {lagging : Bool} {other : Key} :
    Healthy key ⟨other,now,.found status lagging⟩ ↔ other = key ∧ status = .healthy := by
  constructor
  · intro healthy
    rcases healthy with ⟨same,_,found⟩ | ⟨_,marked⟩
    · cases found
      exact ⟨same,rfl⟩
    · cases marked
  · intro healthy
    obtain ⟨rfl,rfl⟩ := healthy
    exact .inl ⟨rfl,_,rfl⟩

theorem mark_tracked {world : World} (tracked : Tracked world.state world.log now) (positive : 0 < now) (key : Key)
    (failed : Bool) : Tracked (world.mark now key failed).state (world.mark now key failed).log now := by
  refine tracked.record positive _ rfl ?_ ?_ fun other => .inr (.inr ⟨?_,?_⟩)
  · intro other t noted
    obtain ⟨failing,new | before⟩ := setDaemonFailure_since noted
    · obtain ⟨rfl,rfl⟩ := new
      exact .inl ⟨⟨rfl,.inr ⟨_,by rw [failing rfl]⟩⟩,rfl⟩
    · refine .inr ⟨before,fun healthy => ?_⟩
      rcases healthy with ⟨_,_,found⟩ | ⟨same,marked⟩
      · cases found
      · rw [failing same.symm] at marked
        cases marked
  · intro other t noted
    change (setDaemonFailure world.state now key failed).lastBlockLagStartTime other = some t at noted
    rw [setDaemonFailure_lag] at noted
    refine .inr ⟨noted,fun healthy => ?_⟩
    rcases healthy with ⟨_,_,found⟩ | ⟨same,marked⟩
    · cases found
    · obtain rfl : key = other := same
      rw [noted] at marked
      cases marked
  · intro fixed
    cases fixed.2
  · exact congrFun setDaemonFailure_fix other

section Found

variable {height topHeight : Option ℚ} {config : HealthConfig} {status : Status} {other : Key} {t : ℚ}

theorem found_unfixed {lagging : Bool} : ¬Fixed other ⟨key,now,.found status lagging⟩ := by
  intro fixed
  cases fixed.2

/-- The lag is new, or it was noted and is still. -/
theorem noteLag_signs (noted : (noteLag state key height topHeight config now).lastBlockLagStartTime other = some t) :
    Unhealthy other ⟨key,now,.found status (Lagging height topHeight config)⟩ ∧ t = now ∨
      state.lastBlockLagStartTime other = some t := by
  rcases noteLag_lag noted with before | ⟨rfl,here,seen⟩
  · exact .inr before
  · exact .inl ⟨⟨rfl,.inl ⟨status,by simp [seen]⟩⟩,here⟩

private theorem healthy_tracked (tracked : Tracked state log now) (positive : 0 < now)
    (zero : unhealthySince (noteLag state key height topHeight config now) key = 0) :
    Tracked { noteLag state key height topHeight config now with
      lastBlockFixTime := Function.update (noteLag state key height topHeight config now).lastBlockFixTime key none }
      (⟨key,now,.found .healthy (Lagging height topHeight config)⟩::log) now := by
  obtain ⟨failing,lagging⟩ : (state.daemonFailureSince key).getD 0 = 0 ∧
      ((noteLag state key height topHeight config now).lastBlockLagStartTime key).getD 0 = 0 := by
    rcases unhealthySince_cases (noteLag state key height topHeight config now) key with
      ⟨_,failing,lagging⟩ | ⟨since,_⟩
    · rw [noteLag_failure] at failing
      exact ⟨failing,lagging⟩
    · exact absurd zero since
  refine tracked.record positive _ rfl ?_ ?_ ?_
  · intro other t noted
    change (noteLag state key height topHeight config now).daemonFailureSince other = some t at noted
    rw [noteLag_failure] at noted
    refine .inr ⟨noted,fun healthy => ?_⟩
    obtain ⟨rfl,_⟩ := found_healthy.mp healthy
    have time := tracked.positive (tracked.failure key t noted)
    rw [noted] at failing
    exact time.ne' failing
  · intro other t noted
    rcases noteLag_signs noted with new | before
    · exact .inl new
    · refine .inr ⟨before,fun healthy => ?_⟩
      obtain ⟨rfl,_⟩ := found_healthy.mp healthy
      have time := tracked.positive (tracked.lag key t before)
      change (noteLag state key height topHeight config now).lastBlockLagStartTime key = some t at noted
      rw [noted] at lagging
      exact time.ne' lagging
  · intro other
    by_cases here : key = other
    · subst here
      exact .inr (.inl ⟨rfl,_,rfl⟩)
    · refine .inr (.inr ⟨found_unfixed,?_⟩)
      change Function.update (noteLag state key height topHeight config now).lastBlockFixTime key none other = _
      rw [Function.update_of_ne (Ne.symm here),noteLag_fix]

theorem unhealthy_tracked (tracked : Tracked state log now) (positive : 0 < now) (unhealthy : status ≠ .healthy) :
    Tracked (noteLag state key height topHeight config now)
      (⟨key,now,.found status (Lagging height topHeight config)⟩::log) now := by
  have kept : ∀ other, ¬Healthy other ⟨key,now,.found status (Lagging height topHeight config)⟩ := by
    intro other healthy
    exact unhealthy (found_healthy.mp healthy).2
  refine tracked.record positive _ rfl ?_ ?_ ?_
  · intro other t noted
    rw [noteLag_failure] at noted
    exact .inr ⟨noted,kept other⟩
  · intro other t noted
    rcases noteLag_signs noted with new | before
    · exact .inl new
    · exact .inr ⟨before,kept other⟩
  · intro other
    exact .inr (.inr ⟨found_unfixed,congrFun noteLag_fix other⟩)

end Found

theorem daemonStatus_tracked (tracked : Tracked state log now) (positive : 0 < now) (key : Key)
    (height topHeight : Option ℚ) (config : HealthConfig) {status : Status}
    (told : status = .healthy ↔ (daemonStatus state key height topHeight config now).1 = .healthy) :
    let found := daemonStatus state key height topHeight config now
    let event : Event := ⟨key,now,.found status (Lagging height topHeight config)⟩
    Tracked found.2.2 (event::log) now ∧
    (found.2.1 ≠ 0 → Since (fun event => Unhealthy key event ∧ event.time = found.2.1) (Healthy key) (event::log)) ∧
    (found.1 = .ready → (∀ earlier ∈ log, Healthy key earlier → earlier.time + config.graceMs ≤ now) ∧
      ¬Since (fun event => Fixed key event ∧ now - event.time < config.cooldownMs) (HealthyCheck key) log) := by
  have cases := daemonStatus_cases state key height topHeight config now
  generalize daemonStatus state key height topHeight config now = found at *
  dsimp only at *
  rcases cases with rfl | ⟨rfl,zero⟩ | ⟨result,since,unhealthy,ready⟩
  · have kept : ∀ other, ¬Healthy other ⟨key,now,.found status (Lagging height topHeight config)⟩ := by
      intro other healthy
      cases told.mp (found_healthy.mp healthy).2
    refine ⟨?_,fun since => absurd rfl since,fun ready => by cases ready⟩
    exact tracked.record positive _ rfl (fun other t noted => .inr ⟨noted,kept other⟩)
      (fun other t noted => .inr ⟨noted,kept other⟩) (fun other => .inr (.inr ⟨found_unfixed,rfl⟩))
  · obtain rfl := told.mpr rfl
    exact ⟨healthy_tracked tracked positive zero,fun since => absurd rfl since,fun ready => by cases ready⟩
  · have after : Tracked found.2.2 (⟨key,now,.found status (Lagging height topHeight config)⟩::log) now := by
      rw [result]
      exact unhealthy_tracked tracked positive (mt told.mp unhealthy)
    have signed : Since (fun event => Unhealthy key event ∧ event.time = found.2.1) (Healthy key)
        (⟨key,now,.found status (Lagging height topHeight config)⟩::log) := by
      have noted := (unhealthySince_cases found.2.2 key).resolve_left fun zero => since (by rw [← zero.1,result])
      have same : unhealthySince found.2.2 key = found.2.1 := by rw [result]
      rw [same] at noted
      rcases noted.2 with failing | lagging
      · exact after.failure key _ failing
      · exact after.lag key _ lagging
    refine ⟨after,fun _ => signed,fun started => ?_⟩
    obtain ⟨grace,cooled⟩ := ready started
    refine ⟨fun earlier among healthy => ?_,fun again => ?_⟩
    · have before := signed.before after.sorted (List.mem_cons_of_mem _ among) healthy
      rw [result] at before
      dsimp only at before
      linarith
    · obtain ⟨newer,event,older,rfl,⟨fixed,recent⟩,checks⟩ := again
      obtain ⟨last,noted,later⟩ := tracked.fixes key event.time ⟨newer,event,older,rfl,⟨fixed,rfl⟩,checks⟩
      have cooled := cooled last noted
      linarith

private theorem foldl_update (times : Key → Option ℚ) (keys : List Key) (key : Key) :
    keys.foldl (fun times key => Function.update times key (some now)) times key =
      if key ∈ keys then some now else times key := by
  induction keys generalizing times with
  | nil => rfl
  | cons head keys ih =>
    rw [List.foldl_cons,ih,Function.update_apply]
    by_cases later : key ∈ keys
    · simp [later]
    · by_cases here : key = head
      · simp [here]
      · simp [later,here]

theorem fixed_tracked (tracked : Tracked state log now) (positive : 0 < now) (keys : List Key) :
    Tracked ⟨state.daemonFailureSince,state.lastBlockLagStartTime,
        keys.foldl (fun times key => Function.update times key (some now)) state.lastBlockFixTime⟩
      (keys.map (fun key => ⟨key,now,.fixed⟩) ++ log) now := by
  have kept : ∀ key other, ¬Healthy key ⟨other,now,.fixed⟩ := by
    intro key other healthy
    rcases healthy with ⟨_,_,found⟩ | ⟨_,marked⟩
    · cases found
    · cases marked
  induction keys with
  | nil => exact tracked
  | cons head keys ih =>
    refine ih.record positive _ rfl (fun key t noted => .inr ⟨noted,kept key head⟩)
      (fun key t noted => .inr ⟨noted,kept key head⟩) fun key => ?_
    simp only [foldl_update,List.mem_cons]
    by_cases here : key = head
    · exact .inl ⟨⟨here.symm,rfl⟩,by simp [here]⟩
    · refine .inr (.inr ⟨fun fixed => here fixed.1.symm,by simp [here]⟩)

end Invariant

section Decisions

variable {world : World} {mainPort : ℕ} {now : ℚ}

structure Justified (world : World) (options : HealthObservation) : Prop where
  grace : ∀ fix, (evaluateDaemonHealth world.state options).1.fix = some fix → ∀ key ∈ fix.keys, ∀ event ∈ world.log,
    Healthy key event → event.time + options.config.graceMs ≤ options.now
  cooldown : ∀ fix, (evaluateDaemonHealth world.state options).1.fix = some fix → ∀ key ∈ fix.keys,
    ¬Since (fun event => Fixed key event ∧ options.now - event.time < options.config.cooldownMs)
    (HealthyCheck key) world.log
  exiting : ∀ chain, (evaluateDaemonHealth world.state options).1.exiting = some chain →
    Since (fun event => Unhealthy (chain,options.port) event ∧
    event.time + options.config.unhealthyExitMs ≤ options.now) (Healthy (chain,options.port)) (world.check options).log

theorem maybeExit_since {height : Option ℚ} {since : ℚ} {config : HealthConfig}
    (exiting : maybeExitForDaemonHealth height since config now = true) :
    since ≠ 0 ∧ since + config.unhealthyExitMs ≤ now := by
  simp only [maybeExitForDaemonHealth,Bool.not_eq_true',decide_eq_false_iff_not,not_or,not_lt] at exiting
  obtain ⟨_,since,long⟩ := exiting
  exact ⟨since,by linarith⟩

theorem fixing_healthy (status : Status) :
    (if status == .ready then .fix else status) = Status.healthy ↔ status = .healthy := by
  cases status <;> decide

variable (state : State) (options : HealthObservation)

def xmrFound : Status × ℚ × State :=
  daemonStatus state (.xmr,options.port) options.xmrHeight options.topXmrHeight options.config options.now

def xtmFound : Status × ℚ × State :=
  daemonStatus (xmrFound state options).2.2 (.xtm,options.port) options.xtmHeight options.topXtmHeight options.config
    options.now

def fixedKeys : List Key :=
  (if (xmrFound state options).1 == .ready then [(.xmr,options.port)] else []) ++
    if (xtmFound state options).1 == .ready then [(.xtm,options.port)] else []

theorem evaluate_fixes : ((evaluateDaemonHealth state options).1.fix.map Fix.keys).getD [] = fixedKeys state options ∧
    (evaluateDaemonHealth state options).2 = ⟨(xtmFound state options).2.2.daemonFailureSince,
      (xtmFound state options).2.2.lastBlockLagStartTime,
      (fixedKeys state options).foldl (fun times key => Function.update times key (some options.now))
        (xtmFound state options).2.2.lastBlockFixTime⟩ := by
  unfold evaluateDaemonHealth fixedKeys xtmFound xmrFound
  dsimp only
  split
  next ready => exact ⟨rfl,rfl⟩
  next idle =>
    obtain ⟨xmr,xtm⟩ := Bool.or_eq_false_iff.mp (Bool.eq_false_iff.mpr idle)
    rw [xmr,xtm]
    exact ⟨rfl,rfl⟩

variable {state options}

private theorem mem_fixedKeys {key : Key} (fixed : key ∈ fixedKeys state options) :
    key = (.xmr,options.port) ∧ (xmrFound state options).1 = .ready ∨
      key = (.xtm,options.port) ∧ (xtmFound state options).1 = .ready := by
  unfold fixedKeys at fixed
  rcases List.mem_append.mp fixed with xmr | xtm
  · split at xmr
    next ready => exact .inl ⟨List.mem_singleton.mp xmr,beq_iff_eq.mp ready⟩
    · cases xmr
  · split at xtm
    next ready => exact .inr ⟨List.mem_singleton.mp xtm,beq_iff_eq.mp ready⟩
    · cases xtm

private theorem fix_keys {fix : Fix} (started : (evaluateDaemonHealth state options).1.fix = some fix) :
    fix.keys = fixedKeys state options := by
  rw [← (evaluate_fixes state options).1,started]
  rfl

private theorem evaluate_exits {chain : Chain} (exiting : (evaluateDaemonHealth state options).1.exiting = some chain) :
    chain = .xmr ∧ (xmrFound state options).2.1 ≠ 0 ∧
        (xmrFound state options).2.1 + options.config.unhealthyExitMs ≤ options.now ∨
      chain = .xtm ∧ (xtmFound state options).2.1 ≠ 0 ∧
        (xtmFound state options).2.1 + options.config.unhealthyExitMs ≤ options.now := by
  unfold evaluateDaemonHealth at exiting
  dsimp only at exiting
  split at exiting
  next exits =>
    cases exiting
    exact .inl ⟨rfl,maybeExit_since exits⟩
  · split at exiting
    next exits =>
      cases exiting
      exact .inr ⟨rfl,maybeExit_since exits⟩
    · cases exiting

variable (world options) in
theorem check_tracked (tracked : Tracked world.state world.log options.now) (positive : 0 < options.now) :
    Tracked (world.check options).state (world.check options).log options.now ∧ Justified world options := by
  obtain ⟨keys,state⟩ := evaluate_fixes world.state options
  obtain ⟨xmrTracked,xmrSince,xmrReady⟩ := daemonStatus_tracked tracked positive (.xmr,options.port) options.xmrHeight
    options.topXmrHeight options.config (fixing_healthy (xmrFound world.state options).1)
  obtain ⟨xtmTracked,xtmSince,xtmReady⟩ :=
    daemonStatus_tracked xmrTracked positive (.xtm,options.port) options.xtmHeight
    options.topXtmHeight options.config (fixing_healthy (xtmFound world.state options).1)
  have after := fixed_tracked xtmTracked positive (fixedKeys world.state options)
  have log : (world.check options).log = (fixedKeys world.state options).map (fun key =>
      ⟨key,options.now,.fixed⟩) ++ _ :=
    congrArg (fun keys : List Key => keys.map (fun key => (⟨key,options.now,.fixed⟩ : Event)) ++ _) keys
  have unfixed : ∀ key, ∀ later ∈ (fixedKeys world.state options).map (fun key => (⟨key,options.now,.fixed⟩ : Event)),
      ¬Healthy key later := by
    intro key later among healthy
    obtain ⟨other,_,rfl⟩ := List.mem_map.mp among
    rcases healthy with ⟨_,_,found⟩ | ⟨_,marked⟩
    · cases found
    · cases marked
  refine ⟨?_,?_,?_,?_⟩
  · have same : (world.check options).state = _ := state
    rw [log,same]
    exact after
  · intro fix started key held event among healthy
    rw [fix_keys started] at held
    rcases mem_fixedKeys held with ⟨rfl,ready⟩ | ⟨rfl,ready⟩
    · exact (xmrReady ready).1 event among healthy
    · exact (xtmReady ready).1 event (List.mem_cons_of_mem _ among) healthy
  · intro fix started key held again
    rw [fix_keys started] at held
    rcases mem_fixedKeys held with ⟨rfl,ready⟩ | ⟨rfl,ready⟩
    · exact (xmrReady ready).2 again
    · refine (xtmReady ready).2 (again.later fun check => ?_)
      cases check.1
  · intro chain exits
    rw [log]
    rcases evaluate_exits exits with ⟨rfl,noted,long⟩ | ⟨rfl,noted,long⟩
    · refine Since.append ?_ (unfixed _)
      refine Since.later ?_ fun healthy => by cases (found_healthy.mp healthy).1
      refine (xmrSince noted).mono (fun event _ signs => ⟨signs.1,?_⟩) fun _ healthy => healthy
      rw [signs.2]
      exact long
    · refine Since.append ?_ (unfixed _)
      refine (xtmSince noted).mono (fun event _ signs => ⟨signs.1,?_⟩) fun _ healthy => healthy
      rw [signs.2]
      exact long

private theorem markDaemonFailure_tracked {world : World} (tracked : Tracked world.state world.log now)
    (positive : 0 < now) (coin : String)
    (port : ℕ) (failed : Bool) : Tracked (world.markDaemonFailure now mainPort coin port failed).state
      (world.markDaemonFailure now mainPort coin port failed).log now := by
  unfold World.markDaemonFailure
  generalize getDaemonHealthKeys mainPort coin port = keys
  induction keys generalizing world with
  | nil => exact tracked
  | cons key keys ih => exact ih (mark_tracked tracked positive key failed)

def Kept (world : World) : Prop := 0 < world.now ∧ Tracked world.state world.log world.now

private theorem step_tracked {world : World} (tracked : Tracked world.state world.log now) (positive : 0 < now)
    (label : Label) :
    Tracked (step mainPort world now label).state (step mainPort world now label).log now := by
  cases label with
  | mark coin port failed => exact markDaemonFailure_tracked tracked positive coin port failed
  | header port xmrStale xtmStale =>
    exact mark_tracked (mark_tracked tracked positive (.xmr,port) xmrStale) positive (.xtm,port) xtmStale
  | check template rows config =>
    have time : (checkStuckTemplateHealth mainPort template rows config now).now = now := by
      cases template <;> rfl
    have after := (check_tracked world (checkStuckTemplateHealth mainPort template rows config now) (by rwa [time])
      (by rwa [time])).1
    rwa [time] at after

theorem kept_reachable (reachable : (health mainPort).Reachable world) : Kept world := by
  refine reachable.invariant Kept ?_ ?_
  · intro world start
    obtain ⟨state,log,positive⟩ := start
    refine ⟨positive,?_⟩
    rw [state,log]
    refine ⟨.nil,?_,?_,?_,?_⟩
    · intro event among
      cases among
    · intro key t noted
      cases noted
    · intro key t noted
      cases noted
    · intro key t since
      exact absurd since since_nil
  · intro world after label kept _ moved
    obtain ⟨positive,tracked⟩ := kept
    obtain ⟨later,moved⟩ := Option.ite_none_right_eq_some.mp moved
    cases moved
    have now := positive.trans_le later
    exact ⟨now,step_tracked (tracked.elapse later) now label.2⟩

/-- A fix is for chains that nothing has shown healthy within the grace, and is not repeated within the cooldown without
a healthy check between; an exit is for a chain unhealthy all the time that is configured. -/
theorem decisions_justified (mainPort : ℕ) {world : World} (reachable : (health mainPort).Reachable world)
    (options : HealthObservation) (later : world.now ≤ options.now) : Justified world options := by
  obtain ⟨positive,tracked⟩ := kept_reachable reachable
  exact (check_tracked world options (tracked.elapse later) (positive.trans_le later)).2

def started : World := ⟨⟨fun _ => none,fun _ => none,fun _ => none⟩,[],1⟩

theorem started_initial (mainPort : ℕ) : (health mainPort).initial started := ⟨rfl,rfl,by decide +kernel⟩

def defaults : HealthConfig := stuckTemplateConfig ⟨none,none,none,none⟩

def behind : Label := .check (some ⟨none,some 10,none⟩) (some [⟨some 100,none,18081⟩]) defaults

def behindAt (now : ℚ) : HealthObservation :=
  checkStuckTemplateHealth 18081 (some ⟨none,some 10,none⟩) (some [⟨some 100,none,18081⟩]) defaults now

theorem decisions_justified_behind : ∃ world, (health 18081).run started [(1000,behind),(301000,behind)] = some world ∧
    (evaluateDaemonHealth world.state (behindAt 1201000)).1.fix.isSome = true ∧
    (evaluateDaemonHealth world.state (behindAt 1201000)).1.exiting = some .xmr ∧
    Justified world (behindAt 1201000) := by
  have ran : ((health 18081).run started [(1000,behind),(301000,behind)]).any (fun world =>
      (evaluateDaemonHealth world.state (behindAt 1201000)).1.fix.isSome &&
      ((evaluateDaemonHealth world.state (behindAt 1201000)).1.exiting = some .xmr) &&
      world.now ≤ 1201000) = true := by decide +kernel
  obtain ⟨world,run,told⟩ := (Option.any_eq_true _ _).mp ran
  obtain ⟨told,later⟩ := Bool.and_eq_true_iff.mp told
  obtain ⟨fixed,exits⟩ := Bool.and_eq_true_iff.mp told
  exact ⟨world,run,fixed,of_decide_eq_true exits,
    decisions_justified 18081 (Machine.reachable_run (started_initial 18081) run) (behindAt 1201000)
      (of_decide_eq_true later)⟩

/-- A clear that finds a lag noted does not show the chain healthy: the fix it was due comes soon after. -/
theorem clear_keeps_lag : ¬∀ mainPort (world : World), (health mainPort).Reachable world →
    ∀ options, world.now ≤ options.now → ∀ fix, (evaluateDaemonHealth world.state options).1.fix = some fix →
    ∀ key ∈ fix.keys, ∀ event ∈ world.log,
      HealthyCheck key event ∨ event.key = key ∧ (∃ lagNoted, event.kind = .marked false lagNoted) →
      event.time + options.config.graceMs ≤ options.now := by
  intro justified
  have ran : ((health 18081).run started [(1000,behind),(200000,.mark "" 18081 false)]).any (fun world =>
      (evaluateDaemonHealth world.state (behindAt 301000)).1.fix.any (fun fix => fix.keys.contains (.xmr,18081)) &&
      world.log.any (fun event => event.key = (.xmr,18081) && event.kind = .marked false true && event.time = 200000) &&
      world.now ≤ 301000) = true := by decide +kernel
  obtain ⟨world,run,told⟩ := (Option.any_eq_true _ _).mp ran
  obtain ⟨told,later⟩ := Bool.and_eq_true_iff.mp told
  obtain ⟨fixes,cleared⟩ := Bool.and_eq_true_iff.mp told
  obtain ⟨fix,fixed,held⟩ := (Option.any_eq_true _ _).mp fixes
  obtain ⟨event,among,told⟩ := List.any_eq_true.mp cleared
  obtain ⟨told,time⟩ := Bool.and_eq_true_iff.mp told
  obtain ⟨key,kind⟩ := Bool.and_eq_true_iff.mp told
  have early := justified 18081 world (Machine.reachable_run (started_initial 18081) run) (behindAt 301000)
    (of_decide_eq_true later) fix fixed _ (List.contains_iff_mem.mp held) event among
    (.inr ⟨of_decide_eq_true key,_,of_decide_eq_true kind⟩)
  rw [of_decide_eq_true time] at early
  exact absurd early (by decide +kernel)

end Decisions
end NodejsPool.Pool.DaemonHealth
