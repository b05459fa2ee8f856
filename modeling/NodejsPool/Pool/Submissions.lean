import Mathlib.Algebra.Order.Field.Rat
import Mathlib.Data.Finset.Card
import NodejsPool.Async.Machine

/-! Submission keys of one pool worker: their reservation at the submit, the asynchronous check and
the completion that keeps or releases them. -/
namespace NodejsPool.Pool.Submissions
open Async

structure Settings where
  miner : ℕ → ℕ
  sharedTemplateSubmissionMode : ℕ → Bool

structure Throttle where
  minerThrottleShareWindow : ℚ
  minerThrottleSharePerSec : ℚ
  proxySubmissionBudget : Bool

inductive Status
  | answered
  | processing
  | completed (shareAccepted : Option Bool) (wasRemoved : Bool)
  | threw
  deriving DecidableEq

structure Submit where
  job : ℕ
  blockTemplate : ℕ
  nonceTest : String
  status : Status

structure World where
  submissions : ℕ → Finset String
  templateSubmissions : ℕ → Finset String
  removed : ℕ → Bool
  submits : List Submit
  replies : List (ℕ × Option String)

def sharedTemplateSubmissionLimit : ℕ := 65536

def getTrackedSubmissionLimit (throttle : Throttle) : ℚ :=
  let multiplier := if throttle.proxySubmissionBudget then 1000 else 100
  throttle.minerThrottleShareWindow * throttle.minerThrottleSharePerSec * multiplier

def duplicateShare : String := "Duplicate share"
def jobLimit : String := "Too many share submissions for the current job. Wait for a new job."
def templateLimit : String := "Too many share submissions for the current template. Wait for a new template."
def throttledDown : String := "Throttled down share submission (please increase difficulty)"
def lowDifficulty : String := "Low difficulty share"

namespace World

def hasReachedSubmissionLimit (world : World) (job : ℕ) (throttle : Throttle) : Bool :=
  0 < getTrackedSubmissionLimit throttle ∧ getTrackedSubmissionLimit throttle ≤ (world.submissions job).card

def trackJobSubmission (world : World) (job : ℕ) (nonceTest : String) : World :=
  { world with submissions := Function.update world.submissions job (insert nonceTest (world.submissions job)) }

def untrackJobSubmission (world : World) (job : ℕ) (nonceTest : String) : World :=
  { world with submissions := Function.update world.submissions job ((world.submissions job).erase nonceTest) }

def trackSharedTemplateSubmission (world : World) (template : ℕ) (nonceTest : String) : World :=
  { world with templateSubmissions :=
      Function.update world.templateSubmissions template (insert nonceTest (world.templateSubmissions template)) }

def untrackSharedTemplateSubmission (world : World) (template : ℕ) (nonceTest : String) : World :=
  { world with templateSubmissions :=
      Function.update world.templateSubmissions template ((world.templateSubmissions template).erase nonceTest) }

def sendReply (world : World) (submit : ℕ) (error : Option String) : World :=
  { world with replies := world.replies ++ [(submit,error)] }

def add (world : World) (submit : Submit) : World :=
  { world with submits := world.submits ++ [submit] }

def setStatus (world : World) (index : ℕ) (submit : Submit) (status : Status) : World :=
  { world with submits := world.submits.set index { submit with status := status } }

end World

variable (settings : Settings)

def rejection (world : World) (job template : ℕ) (nonceTest : String) (throttle : Throttle) : Option String :=
  if settings.sharedTemplateSubmissionMode template ∧ nonceTest ∈ world.templateSubmissions template then
    some duplicateShare
  else if nonceTest ∈ world.submissions job then some duplicateShare
  else if world.hasReachedSubmissionLimit job throttle then some jobLimit
  else if settings.sharedTemplateSubmissionMode template ∧
      sharedTemplateSubmissionLimit ≤ (world.templateSubmissions template).card then some templateLimit
  else none

/-- Both reservations of a submit that goes to `processShare`. -/
def track (world : World) (job template : ℕ) (nonceTest : String) : World :=
  let world :=
    if settings.sharedTemplateSubmissionMode template then world.trackSharedTemplateSubmission template nonceTest
    else world
  world.trackJobSubmission job nonceTest

/-- A processing that throws before its callback releases both reservations and is not answered. -/
def handleSubmitRequest (world : World) (job template : ℕ) (nonceTest : String) (refused : Option String)
    (throttle : Throttle) (throws : Bool) : World :=
  match refused.or (rejection settings world job template nonceTest throttle) with
  | some error => (world.add ⟨job,template,nonceTest,.answered⟩).sendReply world.submits.length (some error)
  | none =>
    let tracked := track settings world job template nonceTest
    if throws then
      let untracked := tracked.untrackJobSubmission job nonceTest
      let untracked :=
        if settings.sharedTemplateSubmissionMode template then
          untracked.untrackSharedTemplateSubmission template nonceTest
        else untracked
      untracked.add ⟨job,template,nonceTest,.threw⟩
    else tracked.add ⟨job,template,nonceTest,.processing⟩

def handleShareProcessed (world : World) (index : ℕ) (submit : Submit) (shareAccepted : Option Bool) : World :=
  let wasRemoved := world.removed (settings.miner submit.job)
  let completed := world.setStatus index submit (.completed shareAccepted wasRemoved)
  if wasRemoved then completed
  else
    match shareAccepted with
    | none => completed.sendReply index (some throttledDown)
    | some false => completed.sendReply index (some lowDifficulty)
    | some true => completed.sendReply index none

def onShareProcessed (world : World) (index : ℕ) (submit : Submit) (shareAccepted : Option Bool) : World :=
  let world := if shareAccepted = none then world.untrackJobSubmission submit.job submit.nonceTest else world
  let world :=
    if settings.sharedTemplateSubmissionMode submit.blockTemplate ∧ shareAccepted ≠ some true then
      world.untrackSharedTemplateSubmission submit.blockTemplate submit.nonceTest
    else world
  handleShareProcessed settings world index submit shareAccepted

/-- `refused` is the reply of an earlier check, `template` what `getSubmitBlockTemplate` found. -/
inductive Label
  | submit (job template : ℕ) (nonceTest : String) (refused : Option String) (throttle : Throttle) (throws : Bool)
  | complete (index : ℕ) (shareAccepted : Option Bool)
  | removeMiner (miner : ℕ)

/-- A removed miner's submit never passes the earlier checks; a second completion is dropped. -/
def step (world : World) : Label → Option World
  | .submit job template nonceTest refused throttle throws =>
    if refused = none ∧ world.removed (settings.miner job) then none
    else some (handleSubmitRequest settings world job template nonceTest refused throttle throws)
  | .complete index shareAccepted =>
    match world.submits[index]? with
    | none => none
    | some submit =>
      if submit.status = .processing then some (onShareProcessed settings world index submit shareAccepted)
      else some world
  | .removeMiner miner => some { world with removed := Function.update world.removed miner true }

def emptyWorld : World := ⟨fun _ => ∅,fun _ => ∅,fun _ => false,[],[]⟩

def machine : Machine World Label := ⟨fun world => world = emptyWorld,step settings⟩

end NodejsPool.Pool.Submissions
