import NodejsPool.Pool.CreditSoundness
import NodejsPool.Pool.ShareAccounting

/-! An accepted share counts once: for the hashes of its miner, the events, its reward and the trust of
its session. -/
namespace NodejsPool.Pool.ShareAccounting
open Async Entries
open ShareProcessing (Credit Moment MinerTrust step_shares shareProcessing step_outcome Flight Diff ChildTemplate
  sampleShare sampleMoment sampleBaseDiff sampleSlowHash)
open ShareAccumulator (Settings Activity Miner Message ShareJob BlockTemplate sendAccepted touchMiner Invariant
  invariant_step sampleMiner sampleJob sampleTemplate sampleSettings sampleStart)

section Recording

open ShareAccumulator

variable (settings : Settings) (miner : Miner) (job : ShareJob) (trusted : Bool) (blockTemplate : BlockTemplate)

private theorem armFinalizer_frame (walletKey : String) (btPort : ℕ) (state : State) :
    let armed := armFinalizer settings walletKey miner btPort state
    armed.messages = state.messages ∧ armed.activity = state.activity ∧ armed.credited = state.credited := by
  intro armed
  simp only [armed,armFinalizer]
  split <;> exact ⟨rfl,rfl,rfl⟩

private theorem creditWorker_frame (walletKey : String) (wallet : Wallet) (state : State) :
    let credited := creditWorker settings miner job trusted blockTemplate walletKey wallet state
    credited.messages = state.messages ++ sendAccepted settings job trusted blockTemplate ∧
      credited.activity = state.activity ∧ credited.credited = state.credited := by
  intro credited
  simp only [credited,creditWorker]
  generalize chooseWorker miner wallet (workerCount state walletKey) = workerName
  by_cases known : (get wallet workerName).isSome = true
  · obtain ⟨worker,found⟩ := Option.isSome_iff_exists.mp known
    rw [if_pos known]
    simp only [found]
    obtain ⟨messages,activity,same⟩ := armFinalizer_frame settings miner walletKey blockTemplate.port _
    exact ⟨messages,activity,same⟩
  · simp only [if_neg known,addShareWorker,get_put_self]
    obtain ⟨messages,activity,same⟩ := armFinalizer_frame settings miner walletKey blockTemplate.port _
    exact ⟨messages,activity,same⟩

private theorem openWallet_frame (walletKey : String) (state : State) : let opened := openWallet walletKey state
    opened.messages = state.messages ∧ opened.activity = state.activity ∧ opened.credited = state.credited ∧
      (get opened.walletAcc walletKey).isSome = true := by
  intro opened
  simp only [opened,openWallet]
  split
  next wallet found => exact ⟨rfl,rfl,rfl,by rw [found]; rfl⟩
  · exact ⟨rfl,rfl,rfl,by rw [get_put_self]; rfl⟩

theorem accept_frame (state : State) : let accepted := accept settings miner job trusted blockTemplate state
    accepted.messages = state.messages ++ sendAccepted settings job trusted blockTemplate ∧
      accepted.activity = touchMiner settings miner job state.activity ∧
      accepted.credited = state.credited ++ [job] := by
  intro accepted
  simp only [accepted,accept,recordShareData]
  let touched : State := { state with activity := touchMiner settings miner job state.activity }
  obtain ⟨messages,activity,credited,known⟩ := openWallet_frame (getWalletKey miner blockTemplate) touched
  obtain ⟨wallet,found⟩ := Option.isSome_iff_exists.mp known
  rw [found]
  obtain ⟨added,same,still⟩ := creditWorker_frame settings miner job trusted blockTemplate
    (getWalletKey miner blockTemplate) wallet (openWallet (getWalletKey miner blockTemplate) touched)
  refine ⟨added.trans (by rw [messages]),same.trans activity,?_⟩
  exact congrArg (· ++ [job]) (still.trans credited)

end Recording

section Counting

variable {world after : World} {settings : Settings} {submission : Submission}
  {i : ℕ} {before last : ShareProcessing.World}

def World.hashesOf (world : World) (miner : ShareAccumulator.Miner) : ℚ :=
  (get world.accumulator.activity.hashes miner.id).getD 0

def isEvent : ShareAccumulator.Message → Bool
  | .trustedShare | .normalShare => true
  | .outdatedShare => false

def World.events (world : World) : ℕ := world.accumulator.messages.countP isEvent

def World.shares2 (world : World) : ℚ := (ShareAccumulator.State.accepted world.accumulator).2.1

structure AccountedOnce (world after : World) (submission : Submission) (trustedMiners : Bool) : Prop where
  hashes : after.hashesOf submission.miner = world.hashesOf submission.miner + submission.job.norm_diff
  proxyHashes : ∀ proxyMiner, get world.accumulator.activity.proxyMiners submission.miner.payout = some proxyMiner →
    ∃ next, get after.accumulator.activity.proxyMiners submission.miner.payout = some next ∧
      next.hashes = proxyMiner.hashes + submission.job.norm_diff
  event : after.events = world.events + 1
  shares2 : after.shares2 = world.shares2 + submission.share.rewarded_difficulty2
  trust : trustedMiners = true → ∀ trust, (world.sessions submission.miner.id).trust = some trust →
    ∃ next, (after.sessions submission.miner.id).trust = some next ∧
      next.trust = trust.trust + submission.share.rewarded_difficulty2

/-- The template has no child, the share does not come in on the test bypass, and its miner, if it is
trusted and the share worth anything, is still there. -/
structure CountsOnce (world : World) (i : ℕ) (submission : Submission) (trustedMiners : Bool) : Prop where
  single : submission.childTemplate = none
  untested : world.processing.testing i = false
  present : trustedMiners = true → (world.sessions submission.miner.id).trust.isSome = true →
    (world.sessions submission.miner.id).removed_miner = true → submission.share.rewarded_difficulty2 = 0

theorem foldl_one {State : Type} (f : State → ℕ → State) (others : ∀ s j, j ≠ i → f s j = s) {indices : List ℕ}
    (distinct : indices.Nodup) (member : i ∈ indices) (s : State) : indices.foldl f s = f s i := by
  induction indices generalizing s with
  | nil => cases member
  | cons j indices ih =>
    obtain ⟨absent,distinct⟩ := List.nodup_cons.mp distinct
    by_cases here : j = i
    · subst here
      have still : indices.foldl f (f s j) = indices.foldl (fun s _ => s) (f s j) :=
        List.foldl_ext f _ _ fun s k inside => others s k fun same => absent (same ▸ inside)
      rw [List.foldl_cons,still,List.foldl_fixed]
    · rw [List.foldl_cons,others s j here]
      exact ih distinct ((List.mem_cons.mp member).resolve_left (Ne.symm here)) s

theorem sendAccepted_events (settings : Settings) (job : ShareJob) (trusted : Bool) (blockTemplate : BlockTemplate) :
    (sendAccepted settings job trusted blockTemplate).countP isEvent = 1 := by
  unfold sendAccepted
  cases get settings.activeBlockTemplates job.coin with
  | none => cases trusted <;> rfl
  | some activeTemplate =>
    dsimp only
    by_cases outdated : activeTemplate.idHash ≠ blockTemplate.idHash
    · rw [if_pos outdated]
      cases trusted <;> rfl
    · rw [if_neg outdated]
      cases trusted <;> rfl

theorem accept_counts (settings : Settings) (miner : Miner) (job : ShareJob) (trusted : Bool)
    (blockTemplate : BlockTemplate) (state : ShareAccumulator.State) :
    let accepted := accept settings miner job trusted blockTemplate state
    (get accepted.activity.hashes miner.id).getD 0 = (get state.activity.hashes miner.id).getD 0 + job.norm_diff ∧
      (∀ proxyMiner, get state.activity.proxyMiners miner.payout = some proxyMiner →
        get accepted.activity.proxyMiners miner.payout = some ⟨proxyMiner.hashes + job.norm_diff,true⟩) ∧
      accepted.messages.countP isEvent = state.messages.countP isEvent + 1 ∧
      accepted.accepted.2.1 = state.accepted.2.1 + job.rewarded_difficulty2 := by
  intro accepted
  obtain ⟨messages,activity,credited⟩ := accept_frame settings miner job trusted blockTemplate state
  simp only [accepted,messages,activity,List.countP_append,sendAccepted_events]
  refine ⟨?_,fun proxyMiner found => ?_,trivial,?_⟩
  · simp [touchMiner]
  · simp [touchMiner,found]
  · simp [ShareAccumulator.State.accepted,credited,ShareJob.amount]

theorem onShareProcessed_frame (trustedMiners shareAccepted : Bool) (world : World) (i : ℕ) :
    let judged := onShareProcessed trustedMiners shareAccepted world i
    judged.processing = world.processing ∧ judged.submissions = world.submissions ∧ judged.jobs = world.jobs ∧
      judged.accumulator = world.accumulator := by
  intro judged
  simp only [judged,onShareProcessed]
  split <;> exact ⟨rfl,rfl,rfl,rfl⟩

private theorem settle_frame (trustedMiners : Bool) (before last : ShareProcessing.World) (world : World) (i : ℕ) :
    let settled := settle trustedMiners before last world i
    settled.processing = world.processing ∧ settled.submissions = world.submissions ∧ settled.jobs = world.jobs ∧
      settled.accumulator = world.accumulator := by
  intro settled
  simp only [settled,settle]
  split
  · exact onShareProcessed_frame ..
  · split
    · exact onShareProcessed_frame ..
    · exact ⟨rfl,rfl,rfl,rfl⟩

theorem foldl_settle_frame (trustedMiners : Bool) (before last : ShareProcessing.World) (indices : List ℕ)
    (world : World) :
    let settled := indices.foldl (settle trustedMiners before last) world
    settled.processing = world.processing ∧ settled.submissions = world.submissions ∧ settled.jobs = world.jobs ∧
      settled.accumulator = world.accumulator := by
  induction indices generalizing world with
  | nil => exact ⟨rfl,rfl,rfl,rfl⟩
  | cons i indices ih =>
    obtain ⟨processing,submissions,jobs,accumulator⟩ := ih (settle trustedMiners before last world i)
    obtain ⟨first,second,third,fourth⟩ := settle_frame trustedMiners before last world i
    exact ⟨processing.trans first,submissions.trans second,jobs.trans third,accumulator.trans fourth⟩

theorem foldl_settle_one (fresh : before.gives i true = false)
    (accepts : ∀ j, last.gives j true = (before.gives j true || j = i))
    (refuses : ∀ j, last.gives j false = before.gives j false)
    (inside : i < last.flights.length) (trustedMiners : Bool) (world : World) :
    (List.range last.flights.length).foldl (settle trustedMiners before last) world =
      onShareProcessed trustedMiners true world i := by
  rw [foldl_one _ (fun s j apart => ?_) List.nodup_range (List.mem_range.mpr inside)]
  · simp [settle,accepts,fresh]
  · simp [settle,accepts,refuses,apart]

private theorem recordCredit_frame (settings : Settings) (world : World) (credit : Credit) :
    let recorded := recordCredit settings world credit
    recorded.processing = world.processing ∧ recorded.submissions = world.submissions ∧
      recorded.sessions = world.sessions ∧ recorded.jobs.length = world.jobs.length ∧
      ∀ j, j ≠ credit.share → recorded.jobs[j]? = world.jobs[j]? := by
  intro recorded
  simp only [recorded,recordCredit]
  split
  · split
    · have others (j : ℕ) (apart : j ≠ credit.share) (job : ShareJob) :
          (world.jobs.set credit.share job)[j]? = world.jobs[j]? := List.getElem?_set_ne (Ne.symm apart)
      split <;> exact ⟨rfl,rfl,rfl,List.length_set,fun j apart => others j apart _⟩
    · exact ⟨rfl,rfl,rfl,rfl,fun _ _ => rfl⟩
  · exact ⟨rfl,rfl,rfl,rfl,fun _ _ => rfl⟩

theorem foldl_record_frame (settings : Settings) {credits : List Credit} (own : ∀ credit ∈ credits, credit.share = i)
    (world : World) : let recorded := credits.foldl (recordCredit settings) world
    recorded.processing = world.processing ∧ recorded.submissions = world.submissions ∧
      recorded.sessions = world.sessions ∧ recorded.jobs.length = world.jobs.length ∧
      ∀ j, j ≠ i → recorded.jobs[j]? = world.jobs[j]? := by
  induction credits generalizing world with
  | nil => exact ⟨rfl,rfl,rfl,rfl,fun _ _ => rfl⟩
  | cons credit credits ih =>
    obtain ⟨here,rest⟩ := List.forall_mem_cons.mp own
    obtain ⟨processing,submissions,sessions,length,others⟩ := ih rest (recordCredit settings world credit)
    obtain ⟨first,second,third,fourth,fifth⟩ := recordCredit_frame settings world credit
    exact ⟨processing.trans first,submissions.trans second,sessions.trans third,length.trans fourth,
      fun j apart => (others j apart).trans (fifth j (here ▸ apart))⟩

structure Consistent (world : World) : Prop where
  shares : world.submissions.map Submission.share = world.processing.shares
  jobs : world.jobs.length = world.submissions.length
  unchanged : ∀ i submission, world.submissions[i]? = some submission → world.processing.gives i true = false →
    world.jobs[i]? = some submission.job

open ShareProcessing (Outcome)

private theorem outcome_credited (outcome : Outcome before last i) :
    (last.credits.drop before.credits.length = [] ∧ ∀ j, last.gives j true = false → before.gives j true = false) ∨
      (∀ credit ∈ last.credits.drop before.credits.length, credit.share = i) ∧
        ∀ j, last.gives j true = false → j ≠ i ∧ before.gives j true = false := by
  cases outcome with
  | silent credits same => exact .inl ⟨by rw [credits,List.drop_length],fun j not => (same j).symm.trans not⟩
  | recorded flight there hashDiff trusted credits untested fresh accepts refuses =>
    refine .inr ⟨fun credit member => ?_,fun j not => ?_⟩
    · rw [credits,List.drop_left] at member
      obtain ⟨_,_,rfl⟩ := List.mem_map.mp member
      rfl
    · rw [accepts,Bool.or_eq_false_iff] at not
      exact ⟨of_decide_eq_false not.2,not.1⟩
  | tested testing credits fresh accepts refuses =>
    refine .inl ⟨by rw [credits,List.drop_length],fun j not => ?_⟩
    rw [accepts,Bool.or_eq_false_iff] at not
    exact not.1

structure Arrived (before last : ShareProcessing.World) (arrived : World) : Prop where
  shares : arrived.submissions.map Submission.share = last.shares
  jobs : arrived.jobs.length = arrived.submissions.length
  unchanged : ∀ i submission, arrived.submissions[i]? = some submission → before.gives i true = false →
    arrived.jobs[i]? = some submission.job

theorem post_same (settings : Settings) (trustedMiners : Bool) (outcome : Outcome before last i) (arrived : World) :
    ((post settings trustedMiners before last arrived).processing = last ∧
      (post settings trustedMiners before last arrived).submissions = arrived.submissions) ∧
      (post settings trustedMiners before last arrived).jobs.length = arrived.jobs.length ∧
      ∀ j, last.gives j true = false → before.gives j true = false ∧
        (post settings trustedMiners before last arrived).jobs[j]? = arrived.jobs[j]? := by
  obtain ⟨processing,submissions,jobs,_⟩ :=
    foldl_settle_frame trustedMiners before last (List.range last.flights.length)
    ((last.credits.drop before.credits.length).foldl (recordCredit settings) { arrived with processing := last })
  change (post settings trustedMiners before last arrived).processing = _ at processing
  change (post settings trustedMiners before last arrived).submissions = _ at submissions
  change (post settings trustedMiners before last arrived).jobs = _ at jobs
  rw [jobs]
  rcases outcome_credited outcome with ⟨none,keeps⟩ | ⟨own,keeps⟩
  · rw [none] at processing submissions ⊢
    exact ⟨⟨processing,submissions⟩,rfl,fun j not => ⟨keeps j not,rfl⟩⟩
  · obtain ⟨first,second,_,length,others⟩ := foldl_record_frame settings own { arrived with processing := last }
    refine ⟨⟨processing.trans first,submissions.trans second⟩,length,fun j not => ?_⟩
    obtain ⟨apart,fresh⟩ := keeps j not
    exact ⟨fresh,others j apart⟩

theorem post_frame (settings : Settings) (trustedMiners : Bool) (outcome : Outcome before last i) (arrived : World) :
    (post settings trustedMiners before last arrived).processing = last ∧
      (post settings trustedMiners before last arrived).submissions = arrived.submissions :=
  (post_same settings trustedMiners outcome arrived).1

theorem post_consistent {arrived : World} (ready : Arrived before last arrived)
    (outcome : Outcome before last i) (trustedMiners : Bool) :
    Consistent (post settings trustedMiners before last arrived) := by
  obtain ⟨⟨processing,submissions⟩,length,others⟩ := post_same settings trustedMiners outcome arrived
  refine ⟨?_,?_,fun j submission found not => ?_⟩
  · rw [submissions,processing]
    exact ready.shares
  · rw [submissions,length]
    exact ready.jobs
  · obtain ⟨fresh,same⟩ := others j (processing ▸ not)
    rw [same]
    exact ready.unchanged j submission (submissions ▸ found) fresh

variable {baseDiff : ℕ} {slowHash : String → String} {label : Label}

def Processed (baseDiff : ℕ) (slowHash : String → String) (world after : World) (label : Label) : Prop :=
  ∃ settings callback last arrived, callback.Honest ∧
    ShareProcessing.step baseDiff slowHash world.processing callback = some last ∧
    Arrived world.processing last arrived ∧ arrived.accumulator = world.accumulator ∧
      arrived.sessions = world.sessions ∧
    after = post settings label.trustedMiners world.processing last arrived

theorem step_cases (consistent : Consistent world) (moved : step baseDiff slowHash world label = some after) :
    Processed baseDiff slowHash world after label ∨
      after.processing = world.processing ∧ after.submissions = world.submissions ∧ after.jobs = world.jobs := by
  cases label with
  | submit settings moment honest submission =>
    unfold step at moved
    obtain ⟨last,stepped,rfl⟩ := Option.map_eq_some_iff.mp moved
    let arrived : World := { world with
      submissions := world.submissions ++ [submission]
      jobs := world.jobs ++ [submission.job] }
    refine .inl ⟨settings,.submit moment submission.share,last,arrived,honest,stepped,⟨?_,?_,?_⟩,rfl,rfl,rfl⟩
    · simp only [arrived]
      rw [step_shares stepped,← consistent.shares,List.map_append]
      rfl
    · simp only [arrived,List.length_append,consistent.jobs,List.length_singleton]
    · intro i other found fresh
      by_cases old : i < world.submissions.length
      · rw [List.getElem?_append_left old] at found
        rw [List.getElem?_append_left (consistent.jobs ▸ old)]
        exact consistent.unchanged i other found fresh
      · have length := (List.getElem?_eq_some_iff.mp found).1
        rw [List.length_append,List.length_singleton] at length
        have here : i = world.submissions.length := by omega
        subst here
        rw [List.getElem?_append_right le_rfl,Nat.sub_self] at found
        cases found
        rw [← consistent.jobs,List.getElem?_append_right le_rfl,Nat.sub_self]
        rfl
  | callback settings callback honest =>
    obtain ⟨calls,moved⟩ := Option.ite_none_right_eq_some.mp moved
    obtain ⟨last,stepped,rfl⟩ := Option.map_eq_some_iff.mp moved
    refine .inl ⟨settings,callback,last,world,honest,stepped,⟨?_,consistent.jobs,consistent.unchanged⟩,rfl,rfl,rfl⟩
    rw [step_shares stepped,consistent.shares]
    cases callback with
    | submit => cases calls
    | answer | retry | daemon | delay | drain => exact (List.append_nil _).symm
  | fire settings timer =>
    obtain ⟨accumulator,_,rfl⟩ := Option.map_eq_some_iff.mp moved
    exact .inr ⟨rfl,rfl,rfl⟩
  | activity | session =>
    cases moved
    exact .inr ⟨rfl,rfl,rfl⟩

private theorem consistent_step (reachable : (shareProcessing baseDiff slowHash).Reachable world.processing)
    (consistent : Consistent world) (moved : step baseDiff slowHash world label = some after) :
    (shareProcessing baseDiff slowHash).Reachable after.processing ∧ Consistent after := by
  rcases step_cases consistent moved with ⟨settings,callback,last,arrived,honest,stepped,ready,_,_,rfl⟩ |
    ⟨processing,submissions,jobs⟩
  · obtain ⟨i,outcome⟩ := step_outcome (ShareProcessing.atRest_of_reachable reachable) honest stepped
    refine ⟨?_,post_consistent ready outcome _⟩
    rw [(post_frame _ _ outcome _).1]
    exact .step reachable trivial stepped
  · refine ⟨by rw [processing]; exact reachable,⟨?_,?_,?_⟩⟩
    · rw [submissions,processing]
      exact consistent.shares
    · rw [submissions,jobs]
      exact consistent.jobs
    · rw [submissions,processing,jobs]
      exact consistent.unchanged

theorem consistent_of_reachable (reachable : (accounting baseDiff slowHash).Reachable world) :
    (shareProcessing baseDiff slowHash).Reachable world.processing ∧ Consistent world := by
  refine reachable.invariant
    (fun world => (shareProcessing baseDiff slowHash).Reachable world.processing ∧ Consistent world) ?_
    fun _ _ _ inv _ moved => consistent_step inv.1 inv.2 moved
  rintro start ⟨processing,submissions,jobs,_⟩
  refine ⟨.initial processing,⟨?_,?_,?_⟩⟩
  · rw [submissions,processing]
    rfl
  · rw [submissions,jobs]
    rfl
  · intro i submission found
    rw [submissions] at found
    cases found

end Counting

section Accounting

variable {world after : World} {settings : Settings} {submission : Submission} {trustedMiners : Bool} {i : ℕ}
  {job : ShareJob}

theorem recordCredit_parent (settings : Settings) {credit : Credit} (parent : credit.child = false)
    (found : world.submissions[credit.share]? = some submission) (read : world.jobs[credit.share]? = some job) :
    recordCredit settings world credit = { world with
      accumulator := accept settings submission.miner job credit.isTrustedShare submission.blockTemplate
        world.accumulator } := by
  simp [recordCredit,found,read,parent]

theorem recordCredit_child (settings : Settings) {credit : Credit} (child : credit.child = true)
    (found : world.submissions[credit.share]? = some submission) (read : world.jobs[credit.share]? = some job)
    {childTemplate : BlockTemplate} (merged : submission.childTemplate = some childTemplate) :
    recordCredit settings world credit = { world with
      jobs := world.jobs.set credit.share { job with rewarded_difficulty2 := 0 }
      accumulator := accept settings submission.miner { job with rewarded_difficulty2 := 0 }
        credit.isTrustedShare childTemplate world.accumulator } := by
  simp [recordCredit,found,read,child,merged]

private theorem onShareProcessed_some (trustedMiners : Bool) (found : world.submissions[i]? = some submission)
    (read : world.jobs[i]? = some job) : onShareProcessed trustedMiners true world i = { world with
      sessions := Function.update world.sessions submission.miner.id
        (handleShareProcessed trustedMiners (world.sessions submission.miner.id) job true) } := by
  simp [onShareProcessed,found,read]

private theorem handleShareProcessed_trust (trustedMiners : Bool) (session : Session) (job : ShareJob) :
    (trustedMiners = true → ∀ trust, session.trust = some trust →
      ∃ next, (handleShareProcessed trustedMiners session job true).trust = some next ∧
        next.trust = trust.trust + job.rewarded_difficulty2) ↔
    (trustedMiners = true → session.trust.isSome = true → session.removed_miner = true →
      job.rewarded_difficulty2 = 0) := by
  refine imp_congr_right fun on => ?_
  subst on
  cases known : session.trust with
  | none => simp
  | some trust => cases removed : session.removed_miner <;> simp [handleShareProcessed,known,removed]

theorem recorded_children (ready : Arrived before last arrived)
    {flight : Flight} (there : last.flights[i]? = some flight) (found : arrived.submissions[i]? = some submission) :
    submission.childTemplate.isSome = flight.share.blockTemplate.child_template.isSome := by
  have shares := congrArg (·[i]?) ready.shares
  rw [List.getElem?_map,found,ShareProcessing.World.shares,List.getElem?_map,there] at shares
  rw [submission.merged,Option.some.inj shares]

def recorded (settings : Settings) (submission : Submission) (trusted : Bool) (arrived : World) :
    World := { arrived with
  accumulator := accept settings submission.miner submission.job trusted submission.blockTemplate arrived.accumulator }

theorem accounted_single (settings : Settings) (trustedMiners : Bool) (arrived : World)
    (same : arrived.accumulator = world.accumulator)
    (sessions : arrived.sessions = world.sessions) (found : arrived.submissions[i]? = some submission)
    (read : arrived.jobs[i]? = some submission.job) (trusted : Bool) :
    AccountedOnce world (onShareProcessed trustedMiners true (recorded settings submission trusted arrived) i)
    submission
        trustedMiners ↔
    (trustedMiners = true → (world.sessions submission.miner.id).trust.isSome = true →
      (world.sessions submission.miner.id).removed_miner = true → submission.share.rewarded_difficulty2 = 0) := by
  obtain ⟨hashes,proxies,events,rewards⟩ := accept_counts settings submission.miner submission.job trusted
    submission.blockTemplate arrived.accumulator
  rw [same] at hashes proxies events rewards
  have handled := handleShareProcessed_trust trustedMiners (world.sessions submission.miner.id) submission.job
  rw [@onShareProcessed_some (recorded settings submission trusted arrived) submission i submission.job
    trustedMiners found read,submission.rewarded,← handled]
  constructor
  · intro once on trust known
    obtain ⟨next,there,grown⟩ := once.trust on trust known
    simp only [recorded,Function.update_self,sessions] at there
    exact ⟨next,there,by rw [grown,submission.rewarded]⟩
  · intro grows
    refine ⟨?_,fun proxyMiner known => ?_,?_,?_,fun on trust known => ?_⟩
    · simp only [World.hashesOf,recorded,same]
      exact hashes
    · simp only [recorded,same]
      exact ⟨_,proxies proxyMiner known,rfl⟩
    · simp only [World.events,recorded,same]
      exact events
    · simp only [World.shares2,recorded,same,submission.rewarded]
      exact rewards
    · obtain ⟨next,there,grown⟩ := grows on trust known
      refine ⟨next,?_,by rw [grown,submission.rewarded]⟩
      simp only [recorded,Function.update_self,sessions]
      exact there

theorem accounted_merged (settings : Settings) (arrived : World) (same : arrived.accumulator = world.accumulator)
    (trusted : Bool) (hashDiff : Diff)
    (found : arrived.submissions[i]? = some submission) (read : arrived.jobs[i]? = some submission.job)
    {childTemplate : BlockTemplate} (merged : submission.childTemplate = some childTemplate) :
    (recordCredit settings (recorded settings submission trusted arrived) ⟨i,hashDiff,trusted,true⟩).events =
      world.events + 2 := by
  have child := @recordCredit_child (recorded settings submission trusted arrived) submission submission.job settings
    ⟨i,hashDiff,trusted,true⟩ rfl found read childTemplate merged
  have parent := (accept_counts settings submission.miner submission.job trusted submission.blockTemplate
    arrived.accumulator).2.2.1
  have again := (accept_counts settings submission.miner { submission.job with rewarded_difficulty2 := 0 }
    trusted childTemplate (recorded settings submission trusted arrived).accumulator).2.2.1
  rw [child]
  simp only [World.events,← same]
  rw [again]
  simp only [recorded]
  rw [parent]

private theorem given_inside {processing : ShareProcessing.World} (given : processing.gives i true = true) :
    i < processing.flights.length := by
  refine Nat.lt_of_not_le fun outside => ?_
  simp [ShareProcessing.World.gives,List.getElem?_eq_none outside] at given

private theorem onShareProcessed_events (trustedMiners shareAccepted : Bool) (world : World) (i : ℕ) :
    (onShareProcessed trustedMiners shareAccepted world i).events = world.events :=
  congrArg (fun state => state.messages.countP isEvent)
    (onShareProcessed_frame trustedMiners shareAccepted world i).2.2.2

variable {before last : ShareProcessing.World} {arrived : World}

private theorem post_accepted (credits : List Credit) (added : last.credits = before.credits ++ credits)
    (fresh : before.gives i true = false) (accepts : ∀ j, last.gives j true = (before.gives j true || j = i))
    (refuses : ∀ j, last.gives j false = before.gives j false)
    (inside : i < last.flights.length) : post settings trustedMiners before last arrived =
      onShareProcessed trustedMiners true (credits.foldl (recordCredit settings)
        { arrived with processing := last }) i := by
  unfold post
  rw [foldl_settle_one fresh accepts refuses inside,added,List.drop_left]

variable {baseDiff : ℕ} {slowHash : String → String} {label : Label}

/-- An accepted share is accounted for once exactly where its template has no child, it does not come in
on the test bypass, and a miner that is trusted for it is still there. -/
theorem accepted_accounted_once (reachable : (accounting baseDiff slowHash).Reachable world)
    (moved : step baseDiff slowHash world label = some after) (fresh : world.processing.gives i true = false)
    (accepted : after.processing.gives i true = true) (found : after.submissions[i]? = some submission) :
    AccountedOnce world after submission label.trustedMiners ↔ CountsOnce world i submission label.trustedMiners := by
  obtain ⟨processed,consistent⟩ := consistent_of_reachable reachable
  rcases step_cases consistent moved with ⟨settings,callback,last,arrived,honest,stepped,ready,accumulator,
    sessions,rfl⟩ | ⟨same,_⟩
  · obtain ⟨k,outcome⟩ := ShareProcessing.step_outcome (ShareProcessing.atRest_of_reachable processed) honest stepped
    obtain ⟨processing,submissions⟩ := post_frame settings label.trustedMiners outcome arrived
    rw [processing] at accepted
    rw [submissions] at found
    cases outcome with
    | silent credits same => cases accepted.symm.trans ((same i).trans fresh)
    | tested testing credits heard accepts refuses =>
      have here : i = k := by simpa [fresh] using (accepts i).symm.trans accepted
      subst here
      have inside : i < last.flights.length := given_inside accepted
      rw [post_accepted [] (credits.trans (List.append_nil _).symm) fresh accepts refuses inside]
      refine iff_of_false (fun once => ?_) fun once => by cases testing.symm.trans once.untested
      have same : ({ arrived with processing := last } : World).events = world.events := by
        simp only [World.events,accumulator]
      exact absurd (once.event.symm.trans ((onShareProcessed_events ..).trans same)) (Nat.succ_ne_self _)
    | recorded flight there hashDiff trusted credits untested heard accepts refuses =>
      have here : i = k := by simpa [fresh] using (accepts i).symm.trans accepted
      subst here
      have merged := recorded_children ready there found
      have read := ready.unchanged i submission found fresh
      let ended : World := { arrived with processing := last }
      have parent : recordCredit settings ended ⟨i,hashDiff,trusted,false⟩ =
          recorded settings submission trusted ended :=
        recordCredit_parent settings rfl found read
      rw [← merged] at credits
      rw [post_accepted _ credits fresh accepts refuses (given_inside accepted),List.map_cons,List.foldl_cons,parent]
      cases child : submission.childTemplate with
      | none =>
        have single := accounted_single settings label.trustedMiners ended accumulator sessions
          found read trusted
        exact single.trans ⟨fun present => ⟨child,untested,present⟩,CountsOnce.present⟩
      | some childTemplate =>
        refine iff_of_false (fun once => ?_) fun once => by cases child.symm.trans once.single
        have twice := accounted_merged settings ended accumulator trusted hashDiff found read child
        have counted := once.event.symm.trans ((onShareProcessed_events ..).trans twice)
        omega
  · rw [same,fresh] at accepted
    cases accepted

end Accounting

section Runs

def sampleSubmission (child : Option ShareProcessing.ChildTemplate) : Submission where
  share := { ShareProcessing.sampleShare with
    difficulty := 1, rewarded_difficulty2 := 1000, blockTemplate := ⟨"",500000,child⟩ }
  miner := ShareAccumulator.sampleMiner
  job := ShareAccumulator.sampleJob
  blockTemplate := ShareAccumulator.sampleTemplate
  childTemplate := child.map fun child => ⟨18146,some 50000,child.difficulty,"c1"⟩
  payout := rfl
  trustKey := rfl
  rewarded := rfl
  merged := Option.isSome_map ..

theorem sampleMoment_honest : sampleMoment.Honest := ⟨nofun,by rintro _ ⟨⟩; nofun⟩

def submitted (child : Option ShareProcessing.ChildTemplate) : Label :=
  .submit (ShareAccumulator.sampleSettings 0) ShareProcessing.sampleMoment sampleMoment_honest (sampleSubmission child)

def hashed : Label :=
  .callback (ShareAccumulator.sampleSettings 0) (.answer ShareProcessing.sampleMoment 0 .hash) sampleMoment_honest

def start : World := ⟨ShareProcessing.fresh,[],[],ShareAccumulator.sampleStart,fun _ => ⟨some ⟨5,0⟩,false⟩⟩

/-- What the samples look at in a world: the verdict of the share, whether it is on the test bypass, and
whether its miner is there. -/
def World.seen (world : World) : Bool × Bool × Bool :=
  (world.processing.gives 0 true,world.processing.testing 0,(world.sessions 1).removed_miner)

theorem sampleRun_accepted (child : Option ChildTemplate) (known : child = none ∨ child = some ⟨1000,true⟩) :
    ∃ world after, step sampleBaseDiff sampleSlowHash start (submitted child) = some world ∧
      step sampleBaseDiff sampleSlowHash world hashed = some after ∧
      world.seen = (false,false,false) ∧ after.seen = (true,false,false) ∧ world.events = 0 ∧
      after.events = 1 + child.toList.length ∧ after.submissions = [sampleSubmission child] := by
  have runs : (step sampleBaseDiff sampleSlowHash start (submitted child)).bind (fun world =>
      (step sampleBaseDiff sampleSlowHash world hashed).map fun after =>
        (world.seen,after.seen,world.events,after.events)) =
      some ((false,false,false),(true,false,false),0,1 + child.toList.length) := by
    rcases known with rfl | rfl <;> decide +kernel
  have submissions : (step sampleBaseDiff sampleSlowHash start (submitted child)).bind (fun world =>
      (step sampleBaseDiff sampleSlowHash world hashed).map fun after => after.submissions) =
      some [sampleSubmission child] := by
    rcases known with rfl | rfl <;> rfl
  obtain ⟨world,arrives,runs⟩ := Option.bind_eq_some_iff.mp runs
  obtain ⟨after,ends,seen⟩ := Option.map_eq_some_iff.mp runs
  rw [arrives,Option.bind_some,ends] at submissions
  simp only [Prod.mk.injEq] at seen
  exact ⟨world,after,arrives,ends,seen.1,seen.2.1,seen.2.2.1,seen.2.2.2,Option.some.inj submissions⟩

theorem start_reachable {child : Option ChildTemplate} {world : World}
    (arrives : step sampleBaseDiff sampleSlowHash start (submitted child) = some world) :
    (accounting sampleBaseDiff sampleSlowHash).Reachable world := by
  have ready : (accounting sampleBaseDiff sampleSlowHash).Reachable start :=
    .initial ⟨rfl,rfl,rfl,rfl,rfl,rfl,rfl,rfl,rfl⟩
  have moved : (accounting sampleBaseDiff sampleSlowHash).step start (submitted child) = some world :=
    arrives
  exact .step ready trivial moved

theorem accepted_accounted_once_sample : ∃ world after,
    (accounting ShareProcessing.sampleBaseDiff ShareProcessing.sampleSlowHash).Reachable world ∧
      step ShareProcessing.sampleBaseDiff ShareProcessing.sampleSlowHash world hashed = some after ∧
      AccountedOnce world after (sampleSubmission none) true := by
  obtain ⟨world,after,arrives,ends,seen,accepted,_,_,submissions⟩ := sampleRun_accepted none (.inl rfl)
  have reachable := start_reachable arrives
  simp only [World.seen,Prod.mk.injEq] at seen accepted
  have found : after.submissions[0]? = some (sampleSubmission none) := by rw [submissions]; rfl
  refine ⟨world,after,reachable,ends,?_⟩
  refine (accepted_accounted_once reachable ends seen.1 accepted.1 found).mpr ⟨rfl,seen.2.1,fun _ _ removed => ?_⟩
  cases removed.symm.trans seen.2.2

/-- The share of a merged-mined template is counted twice. -/
theorem merged_share_counted_twice : ∃ world after submission,
    (accounting ShareProcessing.sampleBaseDiff ShareProcessing.sampleSlowHash).Reachable world ∧
      step ShareProcessing.sampleBaseDiff ShareProcessing.sampleSlowHash world hashed = some after ∧
      world.processing.gives 0 true = false ∧ after.processing.gives 0 true = true ∧
      after.submissions[0]? = some submission ∧ after.events = world.events + 2 ∧
      ¬AccountedOnce world after submission hashed.trustedMiners := by
  obtain ⟨world,after,arrives,ends,seen,accepted,before,events,submissions⟩ :=
    sampleRun_accepted (some ⟨1000,true⟩) (.inr rfl)
  simp only [World.seen,Prod.mk.injEq] at seen accepted
  have twice : after.events = world.events + 2 := by rw [events,before]; rfl
  refine ⟨world,after,_,start_reachable arrives,ends,seen.1,accepted.1,by rw [submissions]; rfl,twice,fun once => ?_⟩
  have counted := once.event.symm.trans twice
  omega

end Runs
end NodejsPool.Pool.ShareAccounting
