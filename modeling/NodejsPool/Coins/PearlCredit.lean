import NodejsPool.Coins.PearlShares

/-! What a pearl share is credited for, over any run of its processing. -/
namespace NodejsPool.Coins.PearlCredit
open Async PearlProofs PearlResults PearlShares

variable {ctx : Context} {cached : Option Identity} {world : World} {gate : Gate}
  {verification : Verification} {identity : SolutionIdentity}

def keyIdentity (ctx : Context) (cached : Option Identity) : Identity := (getPearlSolutionIdentity ctx cached none).1

structure Sent (ctx : Context) (cached : Option Identity) (verification : Verification) : Prop where
  identity : keyIdentity ctx cached = some verification.identity
  proof : shareProof ctx.params = some verification.proof
  wellFormed : WellFormed ctx.params

def Decided (ctx : Context) (verification : Verification) (answer : Answer) (reply : Effect) : Prop :=
  (∃ solution, Verified ctx verification.identity answer solution ∧ reply = verdict ctx verification.proof solution) ∨
  ((∀ solution, ¬ Verified ctx verification.identity answer solution) ∧ ∃ accepted, reply = .processShareCB accepted)

def Settled (ctx : Context) (cached : Option Identity) (reply : Effect) : Prop :=
  (∃ accepted, reply = .processShareCB accepted) ∨
  reply = .verifyShareCB ctx.job.difficulty none true false false ∧
    ∃ identity, keyIdentity ctx cached = some identity ∧ Trusted ctx identity

inductive Phase (ctx : Context) (cached : Option Identity) (world : World) : Prop
  | waiting (started : world.started = world.queued) (verifying : world.verifying = none) (replies : world.replies = [])
  | verifying (verification : Verification) (started : world.started = true) (queued : world.queued = false)
      (same : world.verifying = some verification) (asked : verification.answer = none)
      (sent : Sent ctx cached verification) (replies : world.replies = [])
  | answered (verification : Verification) (answer : Answer) (reply : Effect) (started : world.started = true)
      (queued : world.queued = false) (same : world.verifying = some verification)
      (told : verification.answer = some answer) (sent : Sent ctx cached verification)
      (replies : world.replies = [reply]) (decided : Decided ctx verification answer reply)
  | settled (reply : Effect) (started : world.started = true) (queued : world.queued = false)
      (verifying : world.verifying = none) (replies : world.replies = [reply]) (settled : Settled ctx cached reply)

structure Active (ctx : Context) (cached : Option Identity) (world : World) : Prop where
  started : world.started = true
  queued : world.queued = false
  verifying : world.verifying = none
  replies : world.replies = []
  identity : world.identity = (buildPearlSubmissionKey ctx cached).2

theorem identity_keyed (fallbackHeader : Option Text) :
    getPearlSolutionIdentity ctx (buildPearlSubmissionKey ctx cached).2 fallbackHeader =
      (keyIdentity ctx cached,(buildPearlSubmissionKey ctx cached).2) := by
  unfold keyIdentity buildPearlSubmissionKey getPearlSolutionIdentity
  cases ctx.params.isRecord
  · rfl
  · cases cached <;> rfl

def Kept (ctx : Context) (cached : Option Identity) (world : World) : Prop :=
  Phase ctx cached world ∧ world.identity = (buildPearlSubmissionKey ctx cached).2

section

variable (active : Active ctx cached world)
include active

theorem Active.settle {reply : Effect} (told : reply.isReply = true)
    (settled : Settled ctx cached reply) : Kept ctx cached (world.call reply) := by
  obtain ⟨identity,started,queued,verifying,replies⟩ := replied_call world told
  refine ⟨.settled reply (started.trans active.started) (queued.trans active.queued)
    (verifying.trans active.verifying) ?_ settled,identity.trans active.identity⟩
  rw [replies,active.replies,List.nil_append]

theorem Active.process (accepted : Option Bool) : Kept ctx cached (world.call (.processShareCB accepted)) :=
  active.settle rfl (.inl ⟨accepted,rfl⟩)

theorem Active.call (effect : Effect) (silent : effect.isReply = false) : Active ctx cached (world.call effect) := by
  refine ⟨active.started,active.queued,active.verifying,?_,active.identity⟩
  rw [← active.replies]
  simp [World.replies,World.call,silent]

private theorem startVerification_kept (sent : Sent ctx cached verification) (asked : verification.answer = none)
    (targetHex : Text) :
    Kept ctx cached (startVerification ctx verification.identity verification.proof targetHex world) := by
  have begun : Active ctx cached (if ctx.startAsyncVerification then world.call .startAsyncVerification
      else world) := by
    split
    · exact active.call .startAsyncVerification rfl
    · exact active
  unfold startVerification
  dsimp only
  split
  · exact begun.process none
  · have told := begun.call (.verifyPearlAsync verification.identity.headerHex verification.proof targetHex
      ctx.payout) rfl
    refine ⟨.verifying verification told.started told.queued ?_ asked sent told.replies,told.identity⟩
    rw [← asked]

end

private theorem verifyIdentified_kept {proof : Bytes} (active : Active ctx cached world)
    (sent : Sent ctx cached ⟨identity,proof,none⟩) (targetHex : Text) :
    Kept ctx cached (verifyIdentified ctx gate identity proof targetHex world) := by
  have verify := startVerification_kept active sent rfl targetHex
  unfold verifyIdentified
  split
  · exact verify
  next jackpot factor claimed =>
  obtain ⟨text,number,one,hash,two,positive,bounded,whole⟩ := sent.wellFormed.claimed (hasClaimFields_of_claim claimed)
  cases claimed.symm.trans whole
  have safe : number < 2 ^ 53 := by omega
  have lower := isHash_toLowerCase hash
  split
  · exact active.process _
  next met =>
  rw [Bool.not_eq_true,Bool.not_eq_false',candidate_iff lower positive safe,meets_toLowerCase hash] at met
  split
  · exact active.process _
  next same =>
  rw [not_not,Option.some.injEq,Nat.cast_inj] at same
  dsimp only
  split
  next trusting =>
    have block : ¬ Meets text ctx.networkTarget number := by
      rw [← meets_toLowerCase hash,← candidate_iff lower positive safe]
      exact fun found => by simp [isPearlNetworkCandidate,found] at trusting
    unfold tryTrustedShare
    split
    · exact verify
    split
    · split
      · exact active.process none
      · exact ⟨.waiting active.started active.verifying active.replies,active.identity⟩
    · refine active.settle rfl (.inr ⟨rfl,identity,sent.identity,text,one,hash,?_⟩)
      rw [← same]
      exact ⟨two,positive,bounded,met,block⟩
  · exact verify

theorem verifyPearlShare_kept (active : Active ctx cached world) :
    Kept ctx cached (verifyPearlShare ctx gate world) := by
  unfold verifyPearlShare
  dsimp only
  split
  next parsed proof targetHex _ shared _ =>
    split
    · exact active.process _
    next formed =>
    have wellFormed : WellFormed ctx.params := fun some => by
      by_contra malformed
      exact formed (by simp [some,malformed])
    rw [active.identity,identity_keyed]
    dsimp only
    have again : Active ctx cached { world with identity := (buildPearlSubmissionKey ctx cached).2 } :=
      ⟨active.started,active.queued,active.verifying,active.replies,rfl⟩
    split
    · exact again.process _
    next identity found =>
    split
    · exact again.process _
    · exact verifyIdentified_kept again ⟨found,shared,wellFormed⟩ targetHex
  · exact active.process _

private theorem onVerified_kept {answer : Answer} (kept : Kept ctx cached world)
    (same : world.verifying = some verification) (asked : verification.answer = none) :
    Kept ctx cached (onVerified ctx verification.identity verification.proof answer
      { world with verifying := some { verification with answer := some answer } }) := by
  obtain ⟨phase,identity⟩ := kept
  cases phase with
  | waiting started none _ => cases same.symm.trans none
  | answered other _ _ _ _ there told =>
    cases same.symm.trans there
    cases asked.symm.trans told
  | settled _ _ _ none => cases same.symm.trans none
  | verifying other started queued there _ sent replies =>
    cases same.symm.trans there
    have sentAgain : Sent ctx cached { verification with answer := some answer } :=
      ⟨sent.identity,sent.proof,sent.wellFormed⟩
    have closed : ∀ after reply, Decided ctx { verification with answer := some answer } answer reply →
        Replied { world with verifying := some { verification with answer := some answer } } after reply →
        Kept ctx cached after := by
      intro after reply decided replied
      obtain ⟨unmoved,begun,waits,verifying,one⟩ := replied
      refine ⟨.answered _ answer reply (begun.trans started) (waits.trans queued) verifying rfl sentAgain ?_ decided,
        unmoved.trans identity⟩
      rw [one]
      change world.replies ++ [reply] = [reply]
      rw [replies,List.nil_append]
    rcases onVerified_spec verification.identity answer
      { world with verifying := some { verification with answer := some answer } } sent.wellFormed verification.proof
      with ⟨solution,verified,replied⟩ | ⟨refuted,accepted,replied⟩
    · exact closed _ _ (.inl ⟨solution,verified,rfl⟩) replied
    · exact closed _ _ (.inr ⟨refuted,accepted,rfl⟩) replied

theorem step_kept {after : World} {label : Label} (kept : Kept ctx cached world)
    (moved : step ctx world label = some after) : Kept ctx cached after := by
  cases label with
  | verify gate =>
    obtain ⟨fresh,same⟩ := Option.ite_none_left_eq_some.mp moved
    cases same
    rw [Bool.not_eq_true] at fresh
    refine verifyPearlShare_kept ?_
    cases kept.1 with
    | waiting begun verifying replies => exact ⟨rfl,begun.symm.trans fresh,verifying,replies,kept.2⟩
    | verifying _ started | answered _ _ _ started | settled _ started => cases fresh.symm.trans started
  | resume gate =>
    obtain ⟨queued,same⟩ := Option.ite_none_right_eq_some.mp moved
    cases same
    refine verifyPearlShare_kept ?_
    cases kept.1 with
    | waiting begun verifying replies => exact ⟨begun.trans queued,rfl,verifying,replies,kept.2⟩
    | verifying _ _ idle | answered _ _ _ _ idle | settled _ _ idle => cases queued.symm.trans idle
  | cancel =>
    obtain ⟨queued,same⟩ := Option.ite_none_right_eq_some.mp moved
    cases same
    cases kept.1 with
    | waiting begun verifying replies =>
      refine ⟨.settled (.processShareCB none) (begun.trans queued) rfl verifying ?_ (.inl ⟨none,rfl⟩),kept.2⟩
      change (world.call (.processShareCB none)).replies = [.processShareCB none]
      rw [(replied_call world rfl).2.2.2.2,replies,List.nil_append]
    | verifying _ _ idle | answered _ _ _ _ idle | settled _ _ idle => cases queued.symm.trans idle
  | onVerified answer =>
    simp only [step] at moved
    split at moved
    · cases moved
    next verification same =>
    split at moved
    · cases moved
      exact kept
    next unanswered =>
      cases moved
      exact onVerified_kept kept same (by simpa using unanswered)

theorem reachable_kept (reachable : (shares ctx cached).Reachable world) : Kept ctx cached world := by
  refine reachable.invariant (Kept ctx cached) ?_ fun s t label kept _ moved => step_kept kept moved
  intro s begun
  cases begun
  exact ⟨.waiting rfl rfl rfl,rfl⟩

private theorem verdict_network {answer : Answer} {solution : Solution} (proof : Bytes)
    (verified : Verified ctx identity answer solution) (network : Network ctx solution) :
    verdict ctx proof solution = .verifyShareCB ctx.job.difficulty (some (encodeBase64 proof)) false true true := by
  obtain ⟨_,read⟩ := parsePearlVerifierResult_valid verified.parsed
  obtain ⟨_,_,config,⟨jackpot,_,hash,same⟩,_⟩ := parseSolution_spec read
  obtain ⟨_,positive,bounded⟩ := boundedVerifierConfig_factor config
  refine if_pos ((candidate_iff ?_ positive (by omega)).mpr network)
  rw [same]
  exact isHash_toLowerCase hash

private theorem verdict_plain (proof : Bytes) (solution : Solution) {hashDiff : ℚ} {blockData : Option Text}
    {trusted check force : Bool} (same :
      verdict ctx proof solution = .verifyShareCB hashDiff blockData trusted check force) :
    hashDiff = ctx.job.difficulty ∧ trusted = false := by
  unfold verdict at same
  split at same <;> cases same <;> exact ⟨rfl,rfl⟩

private theorem submissionKey_eq (found : keyIdentity ctx cached = some identity) :
    (buildPearlSubmissionKey ctx cached).1 = identity.solution_id := by
  unfold keyIdentity at found
  simp only [buildPearlSubmissionKey,found]

/-- A share is replied to once. It is credited where the verifiers found it to be what its submission key and its
claim say, or on trust and a claim that is no block; and a block that was verified is forwarded. -/
theorem pearl_share_credit (ctx : Context) (cached : Option Identity) (world : World)
    (reachable : (shares ctx cached).Reachable world) : world.replies.length ≤ 1 ∧
    (∀ hashDiff blockData isTrustedShare isNeedCheckBlockDiff forceBlockCandidate,
      .verifyShareCB hashDiff blockData isTrustedShare isNeedCheckBlockDiff forceBlockCandidate ∈ world.effects →
      hashDiff = ctx.job.difficulty ∧ ∃ identity, keyIdentity ctx cached = some identity ∧
        (buildPearlSubmissionKey ctx cached).1 = identity.solution_id ∧
        ((isTrustedShare = false ∧ ∃ answer solution, world.answer = some answer ∧
            Verified ctx identity answer solution) ∨
          (isTrustedShare = true ∧ world.verifying = none ∧ Trusted ctx identity))) ∧
    ∀ identity answer solution, keyIdentity ctx cached = some identity → world.answer = some answer →
      Verified ctx identity answer solution → Network ctx solution → ∃ proof, shareProof ctx.params = some proof ∧
        world.replies = [.verifyShareCB ctx.job.difficulty (some (encodeBase64 proof)) false true true] := by
  have member : ∀ {hashDiff blockData trusted check force},
      .verifyShareCB hashDiff blockData trusted check force ∈ world.effects →
      .verifyShareCB hashDiff blockData trusted check force ∈ world.replies :=
    fun found => List.mem_filter.mpr ⟨found,rfl⟩
  obtain ⟨phase,_⟩ := reachable_kept reachable
  cases phase with
  | waiting _ verifying replies =>
    refine ⟨by simp [replies],fun _ _ _ _ _ found => ?_,fun _ _ _ _ told => ?_⟩
    · exact absurd (replies ▸ member found) (List.not_mem_nil)
    · simp [World.answer,verifying] at told
  | verifying verification _ _ same asked _ replies =>
    refine ⟨by simp [replies],fun _ _ _ _ _ found => ?_,fun _ _ _ _ told => ?_⟩
    · exact absurd (replies ▸ member found) (List.not_mem_nil)
    · simp [World.answer,same,asked] at told
  | answered verification answer reply _ _ same told sent replies decided =>
    have answered : world.answer = some answer := by rw [World.answer,same,Option.bind_some,told]
    refine ⟨by simp [replies],fun _ _ _ _ _ found => ?_,?_⟩
    · have credited := List.mem_singleton.mp (replies ▸ member found)
      rcases decided with ⟨solution,verified,decided⟩ | ⟨_,accepted,decided⟩
      · obtain ⟨difficulty,untrusted⟩ := verdict_plain _ _ (credited.trans decided).symm
        exact ⟨difficulty,verification.identity,sent.identity,submissionKey_eq sent.identity,
          .inl ⟨untrusted,answer,solution,answered,verified⟩⟩
      · cases credited.trans decided
    · intro identity other solution keyed again verified network
      cases sent.identity.symm.trans keyed
      cases answered.symm.trans again
      rcases decided with ⟨found,agreed,decided⟩ | ⟨refuted,_⟩
      · cases Option.some.inj (agreed.parsed.symm.trans verified.parsed)
        exact ⟨verification.proof,sent.proof,by rw [replies,decided,verdict_network _ verified network]⟩
      · exact absurd verified (refuted solution)
  | settled reply _ _ verifying replies settled =>
    refine ⟨by simp [replies],fun _ _ _ _ _ found => ?_,fun _ _ _ _ told => ?_⟩
    · have credited := List.mem_singleton.mp (replies ▸ member found)
      rcases settled with ⟨accepted,settled⟩ | ⟨settled,identity,keyed,trusted⟩
      · cases credited.trans settled
      · cases credited.trans settled
        exact ⟨rfl,identity,keyed,submissionKey_eq keyed,.inr ⟨rfl,verifying,trusted⟩⟩
    · simp [World.answer,verifying] at told

def sampleConfig : Value := .record (("moe",.boolean false) ::
  ["m","n","k","rank","experts","top_k","expert_index","t_rows","t_cols","adjustment_factor"].map fun name =>
    (name,.number (some 1)))

def sampleHash : Value := .string (List.replicate 64 97)

def sampleHeader : Value := .string (encodeBase64 (List.replicate 72 0 ++ [255,255,0,29]))

/-- A share of proof `[1]`. -/
def sample : Context where
  params := .record [("plain_proof",.buffer [1])]
  job := ⟨sampleHeader,.string (List.replicate 64 97),.undefined,1⟩
  header := sampleHeader
  networkTarget := .string [57]
  coinFuncs :=
    ⟨some fun _ _ => some (.record [("valid",.boolean true),("solution_id",sampleHash),("config",sampleConfig)]),
      some fun _ => List.replicate 64 97,true⟩
  payout := []
  tryTrustedShare := true
  startAsyncVerification := true
  addWalletTrust := true

def sampleAnswer : Answer where
  result := .record [("valid",.boolean true),("full",.boolean true),("candidate",.boolean true),
    ("jackpot",.string (List.replicate 64 48)),("solution_data",.string [48,49]),("config",sampleConfig)]
  errorKind := false

theorem pearl_share_credit_block : ∃ world, (shares sample none).Reachable world ∧
    world.replies = [.verifyShareCB 1 (some (encodeBase64 [1])) false true true] ∧ world.replies.length ≤ 1 := by
  have ran : ((shares sample none).run (start (buildPearlSubmissionKey sample none).2)
      [.verify ⟨false,true,false⟩,.onVerified sampleAnswer,.onVerified ⟨.null,true⟩]).any (fun world =>
        world.replies == [.verifyShareCB 1 (some (encodeBase64 [1])) false true true]) = true := by decide +kernel
  obtain ⟨world,ran,replies⟩ := (Option.any_eq_true _ _).mp ran
  have reachable := Machine.reachable_run (M := shares sample none) rfl ran
  exact ⟨world,reachable,beq_iff_eq.mp replies,(pearl_share_credit sample none world reachable).1⟩
end NodejsPool.Coins.PearlCredit
