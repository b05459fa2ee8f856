import NodejsPool.Pool.AcceptedShares
import NodejsPool.Pool.ShareConservation

/-! The processing of shares with what an accepted one leaves behind: the accumulators of both its
chains, the hash counters, the events, and the trust of its session. -/
namespace NodejsPool.Pool.ShareAccounting
open Async Entries
open ShareProcessing (Credit Moment MinerTrust)
open ShareAccumulator (Settings Activity)

/-- A call of `processShare`, with what the accounting reads of its miner, job and templates. -/
structure Submission where
  share : ShareProcessing.Share
  miner : ShareAccumulator.Miner
  job : ShareAccumulator.ShareJob
  blockTemplate : ShareAccumulator.BlockTemplate
  childTemplate : Option ShareAccumulator.BlockTemplate
  payout : share.payout = miner.payout
  trustKey : share.trustKey = ShareAccumulator.getMinerTrustKey miner
  rewarded : share.rewarded_difficulty2 = job.rewarded_difficulty2
  merged : childTemplate.isSome = share.blockTemplate.child_template.isSome

structure Session where
  trust : Option MinerTrust
  removed_miner : Bool

/-- `jobs` are the job objects of the calls, which the accounting writes to. -/
structure World where
  processing : ShareProcessing.World
  submissions : List Submission
  jobs : List ShareAccumulator.ShareJob
  accumulator : ShareAccumulator.State
  sessions : ℕ → Session

def accept (settings : Settings) (miner : ShareAccumulator.Miner) (job : ShareAccumulator.ShareJob)
    (isTrustedShare : Bool)
    (blockTemplate : ShareAccumulator.BlockTemplate) (state : ShareAccumulator.State) : ShareAccumulator.State :=
  let recorded := ShareAccumulator.recordShareData settings miner job isTrustedShare blockTemplate state
  { recorded with credited := recorded.credited ++ [job] }

def recordCredit (settings : Settings) (world : World) (credit : Credit) : World :=
  match world.submissions[credit.share]?,world.jobs[credit.share]? with
  | some submission,some job =>
    if credit.child then
      let job := { job with rewarded_difficulty2 := 0 }
      let world := { world with jobs := world.jobs.set credit.share job }
      match submission.childTemplate with
      | none => world
      | some childTemplate => { world with
          accumulator := accept settings submission.miner job credit.isTrustedShare childTemplate world.accumulator }
    else { world with
      accumulator := accept settings submission.miner job credit.isTrustedShare submission.blockTemplate
        world.accumulator }
  | _,_ => world

def invalidShare (trustedMiners : Bool) (session : Session) : Session :=
  if trustedMiners then { session with trust := session.trust.map fun trust => { trust with trust := 0 } } else session

def handleShareProcessed (trustedMiners : Bool) (session : Session) (job : ShareAccumulator.ShareJob)
    (shareAccepted : Bool) :
    Session :=
  if session.removed_miner || !trustedMiners then session
  else { session with
    trust := session.trust.map fun trust =>
      if shareAccepted then ⟨trust.trust + job.rewarded_difficulty2,0⟩ else { trust with trust := 0 } }

def onShareProcessed (trustedMiners : Bool) (shareAccepted : Bool) (world : World) (i : ℕ) : World :=
  match world.submissions[i]?,world.jobs[i]? with
  | some submission,some job =>
    let session := world.sessions submission.miner.id
    let judged := if shareAccepted then session else invalidShare trustedMiners session
    { world with
      sessions := Function.update world.sessions submission.miner.id
        (handleShareProcessed trustedMiners judged job shareAccepted) }
  | _,_ => world

def settle (trustedMiners : Bool) (before after : ShareProcessing.World) (world : World) (i : ℕ) : World :=
  if after.gives i true && !before.gives i true then onShareProcessed trustedMiners true world i
  else if after.gives i false && !before.gives i false then onShareProcessed trustedMiners false world i
  else world

def post (settings : Settings) (trustedMiners : Bool) (before after : ShareProcessing.World) (world : World) : World :=
  let recorded := (after.credits.drop before.credits.length).foldl (recordCredit settings)
    { world with processing := after }
  (List.range after.flights.length).foldl (settle trustedMiners before after) recorded

def momentOf : ShareProcessing.Label → Option Moment
  | .submit moment _ | .answer moment _ _ | .daemon moment _ _ | .delay moment _ | .drain moment _ => some moment
  | .retry _ => none

/-- `activity` and `session` stand for all else that moves the counters and the sessions. -/
inductive Label where
  | submit (settings : Settings) (moment : Moment) (honest : moment.Honest) (submission : Submission)
  | callback (settings : Settings) (label : ShareProcessing.Label) (honest : label.Honest)
  | fire (settings : Settings) (timer : ℕ)
  | activity (activity : Activity)
  | session (miner : ℕ) (session : Session)

def Label.trustedMiners : Label → Bool
  | .submit _ moment _ _ => moment.trustedMiners
  | .callback _ label _ => (momentOf label).any fun moment => moment.trustedMiners
  | _ => false

section Stepping

variable (baseDiff : ℕ) (slowHash : String → String)

def step (world : World) (label : Label) : Option World :=
  match label with
  | .submit settings moment _ submission =>
    (ShareProcessing.step baseDiff slowHash world.processing (.submit moment submission.share)).map fun after =>
      post settings label.trustedMiners world.processing after { world with
        submissions := world.submissions ++ [submission]
        jobs := world.jobs ++ [submission.job] }
  | .callback settings callback _ =>
    if callback.isCallback then
      (ShareProcessing.step baseDiff slowHash world.processing callback).map fun after =>
        post settings label.trustedMiners world.processing after world
    else none
  | .fire settings index =>
    (ShareAccumulator.step world.accumulator (.fire settings index)).map fun accumulator => { world with accumulator }
  | .activity activity => some { world with accumulator := { world.accumulator with activity } }
  | .session miner session => some { world with sessions := Function.update world.sessions miner session }

def accounting : Machine World Label where
  initial world := world.processing = ShareProcessing.fresh ∧ world.submissions = [] ∧ world.jobs = [] ∧
    ShareAccumulator.shareAccumulator.initial world.accumulator
  step := step baseDiff slowHash

end Stepping
end NodejsPool.Pool.ShareAccounting
