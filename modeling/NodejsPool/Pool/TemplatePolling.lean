import Mathlib.Algebra.Order.AbsoluteValue.Basic
import Mathlib.Algebra.Order.Field.Rat
import NodejsPool.Async.Machine

/-! Header polls, template fetches with their retries, and the hash factor of one coin, in the
process that polls its daemon. -/
namespace NodejsPool.Pool.TemplatePolling
open Async

structure MergedHeader where
  hash : String
  height : ℤ
  deriving DecidableEq

structure Header where
  hash : String
  height : ℤ
  mm : Option MergedHeader
  deriving DecidableEq

/-- A template reply with what `coinFuncs` reads of it; `auxHeight` is the height of its auxiliary
chain, and a reward that is not a number is a zero. -/
structure RawTemplate where
  isRpcTemplate : Bool
  hasTemplateBlob : Bool
  auxHeight : Option ℤ
  expectedReward : ℚ

/-- The arguments of `templateUpdate2`, and the epoch of the recorded hash at its call. -/
structure Fetch where
  isHashChange : Bool
  isMMHashChange : Bool
  coinHashFactor : ℚ
  isHashFactorChange : Bool
  bodyHeader : Header
  timesFailed : ℕ
  epoch : ℕ

/-- The profile and the configuration of the coin; `main` is the coin without a name. -/
structure Settings where
  main : Bool
  headerProvidesTemplate : Bool
  pollBlockInterval : ℤ
  maxBlockKeepTime : ℤ

/-- `handed` says whether a template fetched in this epoch, that is since the recorded hash was
first seen, went to `templateUpdate3`. The grace timers of a failed RPC are the two failures. -/
structure World where
  now : ℤ
  newCoinHashFactor : Option ℚ
  lastCoinHashFactor : Option ℚ
  lastBlockHash : Option String
  lastBlockHeight : Option ℤ
  lastBlockHashMM : Option String
  lastBlockHeightMM : Option ℤ
  lastBlockTime : Option ℤ
  lastBlockKeepTime : Option ℤ
  lastBlockReward : Option ℚ
  headerFailure : Bool
  templateFailure : Bool
  polls : List ℚ
  fetches : List Fetch
  retries : List Fetch
  epoch : ℕ
  handed : Bool

inductive Rpc
  | header
  | template

variable (settings : Settings)

def zeroHashFactor (world : World) : Bool := world.newCoinHashFactor.getD 0 = 0

def clearFactorFailure (world : World) : Rpc → World
  | .header => { world with headerFailure := false }
  | .template => { world with templateFailure := false }

def coinHashFactorUpdate (world : World) (coinHashFactor : ℚ) : World :=
  if settings.main then world
  else
    let world :=
      if coinHashFactor = 0 then clearFactorFailure (clearFactorFailure world .header) .template else world
    if coinHashFactor = 0 ∧ world.lastCoinHashFactor = some 0 then world
    else { world with lastCoinHashFactor := some coinHashFactor }

def disableCoin (world : World) : World :=
  coinHashFactorUpdate settings { world with newCoinHashFactor := some 0 } 0

def handleDaemonRpcFailure (world : World) (rpc : Rpc) : World :=
  if settings.main then world
  else if 0 < world.newCoinHashFactor.getD 0 then
    match rpc with
    | .header => { world with headerFailure := true }
    | .template => { world with templateFailure := true }
  else disableCoin settings world

/-- `taken` says whether the template became the active one. -/
def templateUpdate3 (world : World) (fetch : Fetch) (taken : Bool) : World :=
  { world with
    handed := world.handed || decide (fetch.epoch = world.epoch)
    lastCoinHashFactor :=
      if taken && fetch.isHashFactorChange then some fetch.coinHashFactor else world.lastCoinHashFactor }

def templateUpdate2 (world : World) (fetch : Fetch) (taken : Bool) : World :=
  let fetch := { fetch with epoch := world.epoch }
  if settings.headerProvidesTemplate then templateUpdate3 world fetch taken
  else { world with fetches := world.fetches ++ [fetch] }

def retryTemplateFetch (world : World) (fetch : Fetch) (daemonRpcFailure : Bool) : World :=
  let nextTimesFailed := fetch.timesFailed + 1
  let world := if daemonRpcFailure then handleDaemonRpcFailure settings world .template else world
  if nextTimesFailed ≤ 2 then
    { world with retries := world.retries ++ [{ fetch with timesFailed := nextTimesFailed }] }
  else if daemonRpcFailure then world
  else disableCoin settings world

def skipTemplateFetch (world : World) (bodyHeader : Header) (bodyBt : Option RawTemplate) : Bool :=
  if zeroHashFactor world then true
  else if bodyHeader.height < world.lastBlockHeight.getD 0 then true
  else
    match bodyHeader.mm, bodyBt.bind RawTemplate.auxHeight with
    | some mm, some _ => mm.height < world.lastBlockHeightMM.getD 0
    | _, _ => false

/-- Whether a reply cannot be used: there is no template, it has no blob, or its auxiliary chain is behind. -/
def rejectInvalidTemplate (bodyHeader : Header) (bodyBt : Option RawTemplate) : Bool :=
  match bodyBt with
  | none => true
  | some template =>
    if !template.hasTemplateBlob then true
    else
      match bodyHeader.mm, template.auxHeight with
      | some mm, some auxHeight => auxHeight < mm.height + 1
      | _, _ => false

def isTimeChange (interval now : ℤ) (last : Option ℤ) : Bool :=
  match last with
  | none => true
  | some last => interval < now - last

def isTemplateDue (world : World) (template : RawTemplate) : Bool :=
  let isRewardCheckReady := decide (template.expectedReward ≠ 0) && decide (world.lastBlockReward.getD 0 ≠ 0)
  let previousReward := if world.lastBlockReward.getD 0 = 0 then 1 else world.lastBlockReward.getD 0
  let isRewardChange := isRewardCheckReady && decide (101 / 100 < template.expectedReward / previousReward)
  (isTimeChange settings.maxBlockKeepTime world.now world.lastBlockKeepTime &&
    (!isRewardCheckReady || decide (template.expectedReward ≠ previousReward))) || isRewardChange

def acceptTemplate (world : World) (fetch : Fetch) (template : RawTemplate) (taken : Bool) : World :=
  let world := clearFactorFailure world .template
  if fetch.isHashChange || fetch.isMMHashChange || isTemplateDue settings world template then
    templateUpdate3
      { world with lastBlockKeepTime := some world.now, lastBlockReward := some template.expectedReward } fetch taken
  else world

def onTemplate (world : World) (fetch : Fetch) (rawTemplate : Option RawTemplate) (taken : Bool) : World :=
  let template := rawTemplate.filter RawTemplate.isRpcTemplate
  if skipTemplateFetch world fetch.bodyHeader template then world
  else if rejectInvalidTemplate fetch.bodyHeader template then
    -- only a reply without a template can come from a failed RPC
    retryTemplateFetch settings world fetch rawTemplate.isNone
  else
    match template with
    | none => world
    | some template => acceptTemplate settings world fetch template taken

def updateLastTemplateHeader (world : World) (body : Header) : World :=
  { world with
    lastBlockHash := some body.hash
    lastBlockHeight := some body.height
    lastBlockHashMM := match body.mm with
      | some mm => some mm.hash
      | none => world.lastBlockHashMM
    lastBlockHeightMM := match body.mm with
      | some mm => some mm.height
      | none => world.lastBlockHeightMM
    lastBlockTime := some world.now
    epoch := if world.lastBlockHash = some body.hash then world.epoch else world.epoch + 1
    handed := if world.lastBlockHash = some body.hash then world.handed else false }

def isHashChange (world : World) (body : Header) : Bool := world.lastBlockHash ≠ some body.hash

def isMMHashChange (world : World) (body : Header) : Bool :=
  match body.mm with
  | some mm => world.lastBlockHashMM ≠ some mm.hash
  | none => false

def isHashFactorChange (world : World) (coinHashFactor : ℚ) : Bool :=
  1 / 20 < |world.lastCoinHashFactor.getD 0 - coinHashFactor| / coinHashFactor

def handleTemplateHeader (world : World) (coinHashFactor : ℚ) (body : Option Header) (taken : Bool) : World :=
  if zeroHashFactor world then world
  else
    match body.filter fun body => body.hash ≠ "" with
    | none => handleDaemonRpcFailure settings world .header
    | some body =>
      let world := if settings.main then world else clearFactorFailure world .header
      if isHashChange world body || isMMHashChange world body ||
          isTimeChange settings.pollBlockInterval world.now world.lastBlockTime then
        templateUpdate2 settings (updateLastTemplateHeader world body)
          ⟨isHashChange world body,isMMHashChange world body,coinHashFactor,isHashFactorChange world coinHashFactor,
            body,0,world.epoch⟩ taken
      else if isHashFactorChange world coinHashFactor then coinHashFactorUpdate settings world coinHashFactor
      else world

/-- A poll that starts, a reply, a timer that fires, a factor from the support module, or time. -/
inductive Label
  | templateUpdate
  | header (index : ℕ) (body : Option Header) (taken : Bool)
  | template (index : ℕ) (rawTemplate : Option RawTemplate) (taken : Bool)
  | retry (index : ℕ) (taken : Bool)
  | disableFailedCoin (rpc : Rpc)
  | onHashFactor (coinHashFactor : Option ℚ)
  | elapse (ms : ℕ)

def step (world : World) : Label → Option World
  | .templateUpdate =>
    if zeroHashFactor world then some world
    else some { world with polls := world.polls ++ [world.newCoinHashFactor.getD 0] }
  | .header index body taken =>
    match world.polls[index]? with
    | none => none
    | some coinHashFactor =>
      some (handleTemplateHeader settings { world with polls := world.polls.eraseIdx index } coinHashFactor body taken)
  | .template index rawTemplate taken =>
    match world.fetches[index]? with
    | none => none
    | some fetch =>
      some (onTemplate settings { world with fetches := world.fetches.eraseIdx index } fetch rawTemplate taken)
  | .retry index taken =>
    match world.retries[index]? with
    | none => none
    | some fetch =>
      some (templateUpdate2 settings { world with retries := world.retries.eraseIdx index } fetch taken)
  | .disableFailedCoin rpc =>
    let armed := match rpc with
      | .header => world.headerFailure
      | .template => world.templateFailure
    if armed then some (disableCoin settings (clearFactorFailure world rpc)) else none
  | .onHashFactor coinHashFactor =>
    -- the factor of the main coin is constant
    if settings.main then none
    else if coinHashFactor.getD 0 = 0 then some (disableCoin settings world)
    else some { world with newCoinHashFactor := coinHashFactor }
  | .elapse ms => some { world with now := world.now + ms }

def startWorld (now : ℤ) : World :=
  let factor : ℚ := if settings.main then 1 else 0
  ⟨now,some factor,some factor,none,none,none,none,none,none,none,false,false,[],[],[],0,false⟩

def machine : Machine World Label := ⟨fun world => ∃ now, world = startWorld settings now,step settings⟩

end NodejsPool.Pool.TemplatePolling
