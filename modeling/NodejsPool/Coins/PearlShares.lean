import NodejsPool.Coins.PearlResults
import NodejsPool.Async.Machine

/-! A pearl share from its first look to its verdict: the trusted path with its queue, and the verifier with as many
callbacks as it makes. -/
namespace NodejsPool.Coins.PearlShares
open Async PearlProofs PearlResults CompactTargets

section Model

structure Job where
  incomplete_header_bytes : Value
  targetHex : Value
  targetDecimal : Value
  difficulty : ℚ

/-- Absent functions are none; `pearlSolutionId` has none where it throws. -/
structure CoinFuncs where
  pearlSolutionId : Option (Text → Bytes → Option Value)
  pearlSolutionIdFromData : Option (Bytes → Text)
  verifyPearlAsync : Bool

/-- What a share is verified with: its parameters, its job, its template's header and target, and the functions that
are there to be called. -/
structure Context where
  params : Value
  job : Job
  header : Value
  networkTarget : Value
  coinFuncs : CoinFuncs
  payout : Text
  tryTrustedShare : Bool
  startAsyncVerification : Bool
  addWalletTrust : Bool

structure SolutionIdentity where
  solution_id : Text
  config : Config
  headerHex : Text

abbrev Identity := Option SolutionIdentity

def PEARL_HEADER_BYTES : ℕ := 76

structure MiningHeader where
  header : Bytes
  target : CompactTarget

def parseMiningHeader (headerBase64 : Text) : Option MiningHeader := do
  let header ← decodeCanonicalBase64 headerBase64 PEARL_HEADER_BYTES
  let target ← compactToTarget (bigEndian ((header.drop 72).take 4).reverse)
  some ⟨header,target⟩

def pearlJobHeaderHex (job : Job) (fallbackHeader : Option Text) : Option Text :=
  let headerBase64 :=
    match job.incomplete_header_bytes with
    | .string text => some text
    | _ => fallbackHeader
  (headerBase64.bind fun text => decodeCanonicalBase64 text PEARL_HEADER_BYTES).map toHex

def computePearlSolutionIdentity (coinFuncs : CoinFuncs) (job : Job) (proof : Bytes) (fallbackHeader : Option Text) :
    Identity :=
  match pearlJobHeaderHex job fallbackHeader,coinFuncs.pearlSolutionId with
  | some headerHex,some pearlSolutionId =>
    match (pearlSolutionId headerHex proof).bind parsePearlSolutionIdResult with
    | some (.valid solution_id config) => some ⟨solution_id,config,headerHex⟩
    | _ => none
  | _,_ => none

def decodedProof (params : Value) : Option Bytes :=
  match params.field "plain_proof" with
  | .buffer proof => some proof
  | .string text => (decodePearlProof (fun _ _ => none) text .undefined false false).decoded
  | _ => none

/-- The identity, and what `pearlSubmissionIdentities` holds for the parameters after it. -/
def getPearlSolutionIdentity (ctx : Context) (cached : Option Identity) (fallbackHeader : Option Text) :
    Identity × Option Identity :=
  if !ctx.params.isRecord then (none,cached)
  else
    match cached with
    | some identity => (identity,some identity)
    | none =>
      let identity := (decodedProof ctx.params).bind fun decoded =>
        computePearlSolutionIdentity ctx.coinFuncs ctx.job decoded fallbackHeader
      (identity,some identity)

def buildPearlSubmissionKey (ctx : Context) (cached : Option Identity) : Text × Option Identity :=
  let found := getPearlSolutionIdentity ctx cached none
  (match found.1 with
    | some identity => identity.solution_id
    | none => [],found.2)

inductive Effect
  | startAsyncVerification
  | verifyPearlAsync (headerHex : Text) (proof : Bytes) (targetHex payout : Text)
  | addWalletTrust
  | verifyShareCB (hashDiff : ℚ) (blockData : Option Text)
      (isTrustedShare isNeedCheckBlockDiff forceBlockCandidate : Bool)
  | processShareCB (shareAccepted : Option Bool)
  deriving DecidableEq

def Effect.isReply : Effect → Bool
  | .verifyShareCB .. => true
  | .processShareCB _ => true
  | _ => false

/-- A call of `onVerified`, with whether it told of an error. -/
structure Answer where
  result : Value
  errorKind : Bool

/-- `answer` is the first one, which sets `verificationCompleted`. -/
structure Verification where
  identity : SolutionIdentity
  proof : Bytes
  answer : Option Answer

/-- `identity` is what `pearlSubmissionIdentities` holds for the parameters; the ids are what is noted on them. -/
structure World where
  identity : Option Identity
  started : Bool
  queued : Bool
  isQueuedTrustedShare : Bool
  verifying : Option Verification
  effects : List Effect
  pearl_solution_id : Option Text
  pearl_proof_id : Option Text

def World.call (world : World) (effect : Effect) : World := { world with effects := world.effects ++ [effect] }

/-- `processShareCB(invalidShare(miner))`. -/
def World.reject (world : World) : World := world.call (.processShareCB (some false))

def World.throttle (world : World) : World := world.call (.processShareCB none)

structure Gate where
  refuses : Bool
  busy : Bool
  full : Bool

def tryTrustedShare (gate : Gate) (world : World) (onTrustedShare : World → World) : Option World :=
  if gate.refuses then none
  else if !world.isQueuedTrustedShare && gate.busy then
    if gate.full then some world.throttle else some { world with queued := true }
  else some (onTrustedShare world)

def claimedJackpot (params : Value) : Option Text :=
  match params.field "jackpot" with
  | .string jackpot => some (toLowerCase jackpot)
  | _ => none

def claimedFactor (params : Value) : Option (Option ℚ) :=
  match params.field "adjustment_factor" with
  | .number factor => some factor
  | _ => none

/-- `hasClaim`, with what is claimed. -/
def claim (params : Value) : Option (Text × Option ℚ) := do
  let jackpot ← claimedJackpot params
  let factor ← claimedFactor params
  some (jackpot,factor)

def hasClaimFields (params : Value) : Bool :=
  !(params.field "jackpot").isUndefined || !(params.field "adjustment_factor").isUndefined

/-- The part of `verifyPearlShare` that hands the proof to the verifiers. -/
def startVerification (ctx : Context) (identity : SolutionIdentity) (proof : Bytes) (targetHex : Text) (world : World) :
    World :=
  let world := if ctx.startAsyncVerification then world.call .startAsyncVerification else world
  if !ctx.coinFuncs.verifyPearlAsync then world.throttle
  else
    { world.call (.verifyPearlAsync identity.headerHex proof targetHex ctx.payout) with
      verifying := some ⟨identity,proof,none⟩ }

def acceptTrustedPearlShare (ctx : Context) (world : World) : World :=
  world.call (.verifyShareCB ctx.job.difficulty none true false false)

def verifyIdentified (ctx : Context) (gate : Gate) (identity : SolutionIdentity) (proof : Bytes) (targetHex : Text)
    (world : World) : World :=
  match claim ctx.params with
  | none => startVerification ctx identity proof targetHex world
  | some (jackpot,factor) =>
    if !isPearlTargetCandidate jackpot ctx.job.targetDecimal (.number factor) then world.reject
    else if factor ≠ some (identity.config.adjustment_factor : ℚ) then world.reject
    else
      let claimedBlock := isPearlNetworkCandidate jackpot ctx.networkTarget (.number factor)
      if !claimedBlock && ctx.tryTrustedShare then
        (tryTrustedShare gate world (acceptTrustedPearlShare ctx)).getD
          (startVerification ctx identity proof targetHex world)
      else startVerification ctx identity proof targetHex world

def headerText (header : Value) : Text :=
  match header with
  | .string text => text
  | _ => []

def shareProof (params : Value) : Option Bytes :=
  match params.field "plain_proof" with
  | .buffer proof => if proof.length = 0 ∨ proof.length > PEARL_MAX_PROOF_BYTES then none else some proof
  | _ => none

def shareTarget (targetHex : Value) : Option Text :=
  match targetHex with
  | .string text => if isHash text then some text else none
  | _ => none

def verifyPearlShare (ctx : Context) (gate : Gate) (world : World) : World :=
  let header := headerText ctx.header
  match parseMiningHeader header,shareProof ctx.params,shareTarget ctx.job.targetHex with
  | some parsed,some proof,some targetHex =>
    if hasClaimFields ctx.params && !hasValidPearlClaim ctx.params then world.reject
    else
      let found := getPearlSolutionIdentity ctx world.identity (some header)
      let world := { world with identity := found.2 }
      match found.1 with
      | none => world.reject
      | some identity =>
        if identity.headerHex ≠ toHex parsed.header then world.reject
        else verifyIdentified ctx gate identity proof targetHex world
  | _,_,_ => world.reject

def agrees (params : Value) (solution : Solution) : Bool :=
  match claim params with
  | none => true
  | some (jackpot,factor) =>
    decide (solution.jackpot = jackpot) && decide (factor = some (solution.config.adjustment_factor : ℚ))

def creditVerified (ctx : Context) (solution : Solution) (verifiedSolutionId : Text) (proof : Bytes) (world : World) :
    World :=
  let world :=
    { world with
      pearl_solution_id := some verifiedSolutionId
      pearl_proof_id := solution.proof_id <|> world.pearl_proof_id }
  let isCandidate := isPearlNetworkCandidate solution.jackpot ctx.networkTarget
    (.number (some (solution.config.adjustment_factor : ℚ)))
  let world := if ctx.addWalletTrust then world.call .addWalletTrust else world
  if !isCandidate then world.call (.verifyShareCB ctx.job.difficulty none false false false)
  else world.call (.verifyShareCB ctx.job.difficulty (some (encodeBase64 proof)) false true true)

def isMissing : Value → Bool
  | .undefined => true
  | .null => true
  | _ => false

def onVerified (ctx : Context) (identity : SolutionIdentity) (proof : Bytes) (answer : Answer) (world : World) :
    World :=
  if answer.errorKind || isMissing answer.result then world.throttle
  else
    match parsePearlVerifierResult answer.result with
    | none => world.throttle
    | some .invalid => world.reject
    | some (.valid solution) =>
      match ctx.coinFuncs.pearlSolutionIdFromData with
      | none => world.throttle
      | some pearlSolutionIdFromData =>
        let verifiedSolutionId := pearlSolutionIdFromData (fromHex solution.solution_data)
        if !isLowerHash verifiedSolutionId then world.throttle
        else if verifiedSolutionId ≠ identity.solution_id ∨
            solution.config.adjustment_factor ≠ identity.config.adjustment_factor then world.reject
        else if !solution.candidate then world.reject
        else if !agrees ctx.params solution then world.reject
        else creditVerified ctx solution verifiedSolutionId proof world

/-- The share is looked at once; what the trust queue holds of it is run once, or dropped; the verifier answers as
often as it likes. -/
inductive Label
  | verify (gate : Gate)
  | resume (gate : Gate)
  | cancel
  | onVerified (answer : Answer)

def step (ctx : Context) (world : World) : Label → Option World
  | .verify gate => if world.started then none else some (verifyPearlShare ctx gate { world with started := true })
  | .resume gate =>
    if world.queued then
      some (verifyPearlShare ctx gate { world with queued := false,isQueuedTrustedShare := true })
    else none
  | .cancel => if world.queued then some { world.throttle with queued := false } else none
  | .onVerified answer =>
    match world.verifying with
    | none => none
    | some verification =>
      if verification.answer.isSome then some world
      else
        some (onVerified ctx verification.identity verification.proof answer
          { world with verifying := some { verification with answer := some answer } })

def start (cached : Option Identity) : World where
  identity := cached
  started := false
  queued := false
  isQueuedTrustedShare := false
  verifying := none
  effects := []
  pearl_solution_id := none
  pearl_proof_id := none

def shares (ctx : Context) (cached : Option Identity) : Machine World Label where
  initial world := world = start (buildPearlSubmissionKey ctx cached).2
  step := step ctx

def World.replies (world : World) : List Effect := world.effects.filter Effect.isReply

def World.answer (world : World) : Option Answer := world.verifying.bind Verification.answer

end Model
section Meaning

structure Verified (ctx : Context) (identity : SolutionIdentity) (answer : Answer) (solution : Solution) : Prop where
  told : answer.errorKind = false
  parsed : parsePearlVerifierResult answer.result = some (.valid solution)
  valid : answer.result.field "valid" = .boolean true
  full : answer.result.field "full" = .boolean true
  candidate : answer.result.field "candidate" = .boolean true
  identified : ∃ pearlSolutionIdFromData, ctx.coinFuncs.pearlSolutionIdFromData = some pearlSolutionIdFromData ∧
    pearlSolutionIdFromData (fromHex solution.solution_data) = identity.solution_id ∧
    isLowerHash identity.solution_id = true
  factor : (answer.result.field "config").field "adjustment_factor" =
    .number (some (identity.config.adjustment_factor : ℚ))
  jackpot : ∀ claimed, ctx.params.field "jackpot" = .string claimed → solution.jackpot = toLowerCase claimed
  claimedFactor : ∀ claimed, ctx.params.field "adjustment_factor" = .number claimed →
    claimed = some (identity.config.adjustment_factor : ℚ)

/-- A well formed claim that meets the job's target and not the network's, with the factor of the proof. -/
def Trusted (ctx : Context) (identity : SolutionIdentity) : Prop :=
  ∃ jackpot, ctx.params.field "jackpot" = .string jackpot ∧ isHash jackpot = true ∧
    ctx.params.field "adjustment_factor" = .number (some (identity.config.adjustment_factor : ℚ)) ∧
    0 < identity.config.adjustment_factor ∧ identity.config.adjustment_factor ≤ 0xffffffff ∧
    Meets jackpot ctx.job.targetDecimal identity.config.adjustment_factor ∧
    ¬ Meets jackpot ctx.networkTarget identity.config.adjustment_factor

def Network (ctx : Context) (solution : Solution) : Prop :=
  Meets solution.jackpot ctx.networkTarget solution.config.adjustment_factor

def WellFormed (params : Value) : Prop := hasClaimFields params = true → hasValidPearlClaim params = true

end Meaning

section Claims

variable {params : Value} {jackpot : Text} {factor : Option ℚ}

theorem claim_eq_some : claim params = some (jackpot,factor) ↔
    claimedJackpot params = some jackpot ∧ claimedFactor params = some factor := by
  unfold claim
  cases claimedJackpot params <;> cases claimedFactor params <;> simp

theorem isHash_toLowerCase {text : Text} (hash : isHash text = true) : isHash (toLowerCase text) = true := by
  obtain ⟨size,hex⟩ := Bool.and_eq_true_iff.mp hash
  refine Bool.and_eq_true_iff.mpr ⟨by simpa [toLowerCase] using size,?_⟩
  unfold isHex toLowerCase
  rw [List.all_map,List.all_eq_true]
  intro unit member
  have digit := List.all_eq_true.mp hex unit member
  simp only [Function.comp_apply]
  split
  next upper =>
    have small : unit.toNat < 128 := by omega
    have table : ∀ code < 128, isHexCode code = true → 65 ≤ code ∧ code ≤ 90 → isHexCode (code + 32) = true := by decide
    rw [UInt16.toNat_add,show (32 : UInt16).toNat = 32 from rfl,Nat.mod_eq_of_lt (by omega)]
    exact table unit.toNat small digit upper
  · exact digit

theorem meets_toLowerCase {target : Value} {number : ℕ} (hash : isHash jackpot = true) :
    Meets (toLowerCase jackpot) target number ↔ Meets jackpot target number := by
  unfold Meets
  rw [fromHex_toLowerCase (Bool.and_eq_true_iff.mp hash).2]

theorem WellFormed.claimed (wellFormed : WellFormed params) (some : hasClaimFields params = true) :
    ∃ (jackpot : Text) (factor : ℕ), params.field "jackpot" = .string jackpot ∧ isHash jackpot = true ∧
      params.field "adjustment_factor" = .number (Option.some (factor : ℚ)) ∧ 0 < factor ∧ factor ≤ 0xffffffff ∧
      claim params = Option.some (toLowerCase jackpot,Option.some (factor : ℚ)) := by
  have there : (params.field "jackpot").isUndefined = false ∨
      (params.field "adjustment_factor").isUndefined = false := by
    simpa [hasClaimFields] using some
  obtain ⟨jackpot,factor,one,hash,two,range⟩ := hasValidPearlClaim_spec (wellFormed some) there
  refine ⟨jackpot,factor,one,hash,two,range.1,range.2,claim_eq_some.mpr ⟨?_,?_⟩⟩
  · rw [claimedJackpot,one]
  · rw [claimedFactor,two]

theorem hasClaimFields_of_claim (some : claim params = some (jackpot,factor)) : hasClaimFields params = true := by
  obtain ⟨one,_⟩ := claim_eq_some.mp some
  unfold claimedJackpot at one
  unfold hasClaimFields
  split at one
  next found =>
    rw [found]
    rfl
  · cases one

private theorem agrees_iff {solution : Solution} (wellFormed : WellFormed params) : agrees params solution = true ↔
    (∀ claimed, params.field "jackpot" = .string claimed → solution.jackpot = toLowerCase claimed) ∧
    ∀ claimed, params.field "adjustment_factor" = .number claimed →
      claimed = some (solution.config.adjustment_factor : ℚ) := by
  unfold agrees
  by_cases some : hasClaimFields params = true
  · obtain ⟨jackpot,factor,one,_,two,_,_,whole⟩ := wellFormed.claimed some
    rw [whole,one,two]
    simp
  · have none : claim params = none := by
      by_contra found
      obtain ⟨⟨jackpot,factor⟩,same⟩ := Option.ne_none_iff_exists'.mp found
      exact some (hasClaimFields_of_claim same)
    rw [none]
    simp only [hasClaimFields,Bool.or_eq_true,Bool.not_eq_true',not_or,Bool.not_eq_false] at some
    refine iff_of_true rfl ⟨fun claimed found => ?_,fun claimed found => ?_⟩
    · rw [found] at some
      cases some.1
    · rw [found] at some
      cases some.2

end Claims

section Verdicts

variable {ctx : Context} {identity : SolutionIdentity} {answer : Answer} {solution : Solution} {world : World}

variable (identity answer solution) in
theorem verified_iff (wellFormed : WellFormed ctx.params) : Verified ctx identity answer solution ↔
    answer.errorKind = false ∧ parsePearlVerifierResult answer.result = some (.valid solution) ∧
    (∃ pearlSolutionIdFromData, ctx.coinFuncs.pearlSolutionIdFromData = some pearlSolutionIdFromData ∧
      pearlSolutionIdFromData (fromHex solution.solution_data) = identity.solution_id ∧
      isLowerHash identity.solution_id = true) ∧
    solution.config.adjustment_factor = identity.config.adjustment_factor ∧ solution.candidate = true ∧
    agrees ctx.params solution = true := by
  rw [agrees_iff wellFormed]
  constructor
  · intro verified
    obtain ⟨valid,read⟩ := parsePearlVerifierResult_valid verified.parsed
    obtain ⟨_,candidate,config,_⟩ := parseSolution_spec read
    have told := verified.candidate
    have factor := verified.factor
    rw [candidate] at told
    rw [(boundedVerifierConfig_factor config).1] at factor
    have same : solution.config.adjustment_factor = identity.config.adjustment_factor := by
      injection factor with factor
      exact_mod_cast Option.some.inj factor
    refine ⟨verified.told,verified.parsed,verified.identified,same,by injection told,verified.jackpot,?_⟩
    rw [same]
    exact verified.claimedFactor
  · rintro ⟨told,parsed,identified,same,candidate,jackpot,claimed⟩
    obtain ⟨valid,read⟩ := parsePearlVerifierResult_valid parsed
    obtain ⟨full,found,config,_⟩ := parseSolution_spec read
    rw [same] at claimed
    refine ⟨told,parsed,valid,full,by rw [found,candidate],identified,?_,jackpot,claimed⟩
    rw [(boundedVerifierConfig_factor config).1,same]

def Replied (before after : World) (reply : Effect) : Prop :=
  after.identity = before.identity ∧ after.started = before.started ∧ after.queued = before.queued ∧
    after.verifying = before.verifying ∧ after.replies = before.replies ++ [reply]

variable (world) in
theorem replied_call {reply : Effect} (told : reply.isReply = true) : Replied world (world.call reply) reply := by
  refine ⟨rfl,rfl,rfl,rfl,?_⟩
  simp [World.replies,World.call,told]

def verdict (ctx : Context) (proof : Bytes) (solution : Solution) : Effect :=
  if isPearlNetworkCandidate solution.jackpot ctx.networkTarget
      (.number (some (solution.config.adjustment_factor : ℚ))) then
    .verifyShareCB ctx.job.difficulty (some (encodeBase64 proof)) false true true
  else .verifyShareCB ctx.job.difficulty none false false false

private theorem creditVerified_replied (verifiedSolutionId : Text) (proof : Bytes) :
    Replied world (creditVerified ctx solution verifiedSolutionId proof world) (verdict ctx proof solution) := by
  unfold creditVerified verdict
  cases isPearlNetworkCandidate solution.jackpot ctx.networkTarget
    (.number (some (solution.config.adjustment_factor : ℚ))) <;> cases ctx.addWalletTrust <;>
    exact ⟨rfl,rfl,rfl,rfl,by simp [World.replies,World.call,Effect.isReply]⟩

private theorem isMissing_parsed {value : Value} {result : VerifierResult}
    (parsed : parsePearlVerifierResult value = some result) :
    isMissing value = false := by
  cases value with
  | undefined | null => cases parsed
  | _ => rfl

variable (identity answer world) in
theorem onVerified_spec (wellFormed : WellFormed ctx.params) (proof : Bytes) :
    (∃ solution, Verified ctx identity answer solution ∧
      Replied world (onVerified ctx identity proof answer world) (verdict ctx proof solution)) ∨
    ((∀ solution, ¬ Verified ctx identity answer solution) ∧ ∃ accepted,
      Replied world (onVerified ctx identity proof answer world) (.processShareCB accepted)) := by
  have refused : ∀ accepted, Replied world (world.call (.processShareCB accepted)) (.processShareCB accepted) :=
    fun accepted => replied_call world rfl
  unfold onVerified
  split
  next missing =>
    refine .inr ⟨fun solution verified => ?_,_,refused none⟩
    rw [verified.told,isMissing_parsed verified.parsed] at missing
    cases missing
  next answered =>
  split
  next unread => exact .inr ⟨fun solution verified => (by cases unread.symm.trans verified.parsed),_,refused none⟩
  next invalid => exact .inr ⟨fun solution verified => (by cases invalid.symm.trans verified.parsed),_,refused _⟩
  next solution parsed =>
  have only : ∀ other, Verified ctx identity answer other → other = solution := fun other verified => by
    cases parsed.symm.trans verified.parsed
    rfl
  split
  next absent =>
    refine .inr ⟨fun other verified => ?_,_,refused none⟩
    obtain ⟨found,there,_⟩ := verified.identified
    cases absent.symm.trans there
  next pearlSolutionIdFromData there =>
  have told : answer.errorKind = false := by
    rw [Bool.or_eq_true,not_or,Bool.not_eq_true] at answered
    exact answered.1
  have exact_iff := verified_iff identity answer solution wellFormed
  dsimp only
  split
  next malformed =>
    refine .inr ⟨fun other verified => ?_,_,refused none⟩
    cases only other verified
    obtain ⟨found,same,id,lower⟩ := verified.identified
    cases there.symm.trans same
    rw [id,lower] at malformed
    cases malformed
  next lower =>
  split
  next apart =>
    refine .inr ⟨fun other verified => ?_,_,refused _⟩
    cases only other verified
    obtain ⟨_,_,⟨found,same,id,_⟩,factor,_⟩ := exact_iff.mp verified
    cases there.symm.trans same
    rcases apart with other | other
    · exact other id
    · exact other factor
  next same =>
  rw [not_or,not_not,not_not] at same
  split
  next off =>
    refine .inr ⟨fun other verified => ?_,_,refused _⟩
    cases only other verified
    rw [(exact_iff.mp verified).2.2.2.2.1] at off
    cases off
  next candidate =>
  split
  next apart =>
    refine .inr ⟨fun other verified => ?_,_,refused _⟩
    cases only other verified
    rw [(exact_iff.mp verified).2.2.2.2.2] at apart
    cases apart
  next agreed =>
    refine .inl ⟨solution,exact_iff.mpr ?_,creditVerified_replied _ proof⟩
    simp only [Bool.not_eq_true,Bool.not_eq_false'] at lower candidate agreed
    exact ⟨told,parsed,⟨_,there,same.1,same.1 ▸ lower⟩,same.2,candidate,agreed⟩

end Verdicts

end NodejsPool.Coins.PearlShares
