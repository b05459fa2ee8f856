import NodejsPool.Pool.ShareFrames

/-! A share of a standard coin is credited for its slow hash, on trust below a block's difficulty,
or as a block the daemon took; its difficulty meets the job's without the job's fraction. -/
namespace NodejsPool.Pool.ShareProcessing
open Async Entries

variable (baseDiff : ℕ) (slowHash : String → String)

def Grounds (flight : Flight) (isTrustedShare : Bool) (hash : ResultHash) : Prop :=
  flight.share.convertedBlob.map slowHash = some hash.toHex ∨
  (isTrustedShare = true ∧ isBlockCandidateDiff flight.share (hashDiffOf baseDiff hash) = false) ∨
  SubmitReply.accepted ∈ flight.submits

def Vouched (flight : Flight) (hashDiff : Diff) (isTrustedShare : Bool) : Prop :=
  flight.share.special = false → ∃ hash, hashDiff = hashDiffOf baseDiff hash ∧
    (flight.tested = true ∨ flight.share.result = some hash ∧ Grounds baseDiff slowHash flight isTrustedShare hash)

def Claimed (flight : Flight) (hash : ResultHash) : Prop :=
  flight.share.special = false → flight.tested = true ∨ flight.share.result = some hash

def CheckSound (flight : Flight) : Check → Prop
  | .slow hash | .candidate hash | .failedCandidate hash => Claimed flight hash
  | .special => flight.share.special = true

def StageSound (flight : Flight) : Stage → Prop
  | .delayed verified => Vouched baseDiff slowHash flight verified.hashDiff verified.isTrustedShare
  | .hashing check _ | .retrying check _ => CheckSound flight check
  | .submitting hash _ _ => Claimed flight hash
  | _ => True

def PlanSound (flight : Flight) : Plan → Prop
  | .accept verified | .trust verified => Vouched baseDiff slowHash flight verified.hashDiff verified.isTrustedShare
  | .hash check _ => CheckSound flight check
  | .submit hash _ => Claimed flight hash
  | _ => True

def CreditSound (flight : Flight) (credit : Credit) : Prop :=
  ge credit.hashDiff flight.share.difficulty = true ∧
    Vouched baseDiff slowHash flight credit.hashDiff credit.isTrustedShare

structure SoundWorld (world : World) : Prop where
  stages : ∀ (i : ℕ) (flight : Flight), world.flights[i]? = some flight →
    StageSound baseDiff slowHash flight flight.stage
  credits : ∀ credit ∈ world.credits, ∃ flight, world.flights[credit.share]? = some flight ∧
    CreditSound baseDiff slowHash flight credit

structure Later (flight next : Flight) : Prop where
  share : next.share = flight.share
  tested : flight.tested = true → next.tested = true
  submits : ∀ reply ∈ flight.submits, reply ∈ next.submits

variable {baseDiff slowHash}

theorem Later.refl (flight : Flight) : Later flight flight := ⟨rfl,id,fun _ => id⟩

theorem Vouched.later {flight next : Flight} {hashDiff : Diff} {trusted : Bool} (later : Later flight next)
    (vouched : Vouched baseDiff slowHash flight hashDiff trusted) :
    Vouched baseDiff slowHash next hashDiff trusted := by
  intro standard
  rw [later.share] at standard
  obtain ⟨hash,same,tested | ⟨result,grounds⟩⟩ := vouched standard
  · exact ⟨hash,same,.inl (later.tested tested)⟩
  · refine ⟨hash,same,.inr ⟨by rw [later.share,result],?_⟩⟩
    rcases grounds with hashed | trusted | accepted
    · exact .inl (by rw [later.share,hashed])
    · exact .inr (.inl (by rwa [later.share]))
    · exact .inr (.inr (later.submits _ accepted))

theorem Claimed.later {flight next : Flight} {hash : ResultHash} (later : Later flight next)
    (claimed : Claimed flight hash) : Claimed next hash := by
  intro standard
  rw [later.share] at standard ⊢
  exact (claimed standard).imp later.tested id

theorem CheckSound.later {flight next : Flight} {check : Check} (later : Later flight next)
    (sound : CheckSound flight check) : CheckSound next check := by
  cases check with
  | slow hash | candidate hash | failedCandidate hash => exact Claimed.later later sound
  | special =>
    unfold CheckSound at sound ⊢
    rw [later.share]
    exact sound

theorem StageSound.later {flight next : Flight} {stage : Stage} (later : Later flight next)
    (sound : StageSound baseDiff slowHash flight stage) : StageSound baseDiff slowHash next stage := by
  cases stage with
  | delayed verified => exact Vouched.later later sound
  | hashing check retriesLeft | retrying check retriesLeft => exact CheckSound.later later sound
  | submitting hash trusted resubmitted => exact Claimed.later later sound
  | _ => trivial

/-! What a plan of the source rests on. -/

section Plans

variable {flight : Flight} {moment : Moment} {busy : Bool}

theorem tryTrustedShare_cases (moment : Moment) (flight : Flight) (busy : Bool) (onTrustedShare otherwise : Plan) :
    tryTrustedShare moment flight busy onTrustedShare otherwise = otherwise ∨
    tryTrustedShare moment flight busy onTrustedShare otherwise = .enqueue ∨
    tryTrustedShare moment flight busy onTrustedShare otherwise = onTrustedShare := by
  unfold tryTrustedShare
  split
  · exact .inl rfl
  · split
    · exact .inr (.inl rfl)
    · exact .inr (.inr rfl)

theorem tryTrustedShare_sound {onTrustedShare otherwise : Plan}
    (trusted : PlanSound baseDiff slowHash flight onTrustedShare)
    (verified : PlanSound baseDiff slowHash flight otherwise) :
    PlanSound baseDiff slowHash flight (tryTrustedShare moment flight busy onTrustedShare otherwise) := by
  rcases tryTrustedShare_cases moment flight busy onTrustedShare otherwise with same | same | same
  · rwa [same]
  · rw [same]
    trivial
  · rwa [same]

private theorem verifyCandidateOrHash_sound {hash : ResultHash} (claimed : Claimed flight hash) :
    PlanSound baseDiff slowHash flight (verifyCandidateOrHash baseDiff moment flight.share hash) := by
  unfold verifyCandidateOrHash
  split
  · trivial
  · split
    · split <;> exact claimed
    · exact claimed

private theorem verifyStandardShare_sound (bypass : isBlockSubmitTestBypassEnabled moment flight.share = true →
      flight.tested = true) :
    PlanSound baseDiff slowHash flight (verifyStandardShare baseDiff moment flight busy) := by
  unfold verifyStandardShare
  cases found : resultBuff moment flight.share with
  | none => trivial
  | some hash =>
    have claimed : Claimed flight hash := by
      intro _
      unfold resultBuff at found
      by_cases on : isBlockSubmitTestBypassEnabled moment flight.share = true
      · exact .inl (bypass on)
      · rw [if_neg on,Option.none_or] at found
        exact .inr found
    simp only
    split
    next on =>
      have tested : flight.tested = true := bypass (by simp_all)
      split
      · exact fun _ => ⟨hash,rfl,.inl tested⟩
      · trivial
    · split
      · exact verifyCandidateOrHash_sound claimed
      next below =>
        refine tryTrustedShare_sound ?_ (verifyCandidateOrHash_sound claimed)
        intro standard
        refine ⟨hash,rfl,(claimed standard).imp_right fun result => ⟨result,.inr (.inl ⟨rfl,?_⟩)⟩⟩
        simpa using below

theorem verifyShare_sound (bypass : isBlockSubmitTestBypassEnabled moment flight.share = true → flight.tested = true) :
    PlanSound baseDiff slowHash flight (verifyShare baseDiff moment flight busy) := by
  unfold verifyShare
  split
  next special =>
    have vouched (hashDiff : Diff) (trusted : Bool) : Vouched baseDiff slowHash flight hashDiff trusted := by
      intro standard
      simp [special] at standard
    cases moment.special with
    | declined => exact verifyStandardShare_sound bypass
    | finish outcome => trivial
    | accept result => exact vouched _ _
    | verify trusted retries =>
      cases trusted with
      | none => exact special
      | some result => exact tryTrustedShare_sound (vouched _ _) special
  · exact verifyStandardShare_sound bypass

theorem onHash_sound {check : Check} {answer : HashAnswer} (sound : CheckSound flight check) :
    PlanSound baseDiff slowHash flight (onHash baseDiff slowHash moment flight.share answer check) := by
  have hashed {hash : ResultHash} (claimed : Claimed flight hash)
    (same : flight.share.convertedBlob.map slowHash = some hash.toHex) :
      Vouched baseDiff slowHash flight (hashDiffOf baseDiff hash) false := fun standard =>
    ⟨hash,rfl,(claimed standard).imp_right fun result => ⟨result,.inl same⟩⟩
  cases check with
  | special =>
    simp only [onHash]
    split
    · trivial
    · intro standard
      exact absurd sound (by simp [CheckSound,standard])
  | slow hash =>
    cases answer with
    | hash =>
      simp only [onHash]
      split
      next same => exact hashed sound same
      · trivial
    | null | failed errorKind => trivial
  | candidate hash =>
    cases answer with
    | hash =>
      simp only [onHash]
      split
      next same => exact hashed sound same
      · trivial
    | null => exact sound
    | failed errorKind => trivial
  | failedCandidate hash =>
    cases answer with
    | hash =>
      simp only [onHash]
      split
      next same => exact hashed sound same
      · trivial
    | null | failed errorKind => trivial

theorem onSubmitted_sound {hash : ResultHash} {trusted accepted : Bool} (claimed : Claimed flight hash)
    (heard : accepted = true → SubmitReply.accepted ∈ flight.submits) :
    PlanSound baseDiff slowHash flight (onSubmitted baseDiff moment hash trusted accepted) := by
  unfold onSubmitted
  split
  next took =>
    intro standard
    exact ⟨hash,rfl,(claimed standard).imp_right fun result => ⟨result,.inr (.inr (heard took))⟩⟩
  · split
    · exact claimed
    · trivial

end Plans

/-! Runs. -/

variable (baseDiff slowHash) in
def Keeps (flight next : Flight) : Prop :=
  Later flight next ∧ (StageSound baseDiff slowHash flight flight.stage → StageSound baseDiff slowHash next next.stage)

theorem Ended.keeps {flight next : Flight} (ended : Ended flight next) : Keeps baseDiff slowHash flight next := by
  cases ended with
  | same => exact ⟨.refl flight,id⟩
  | done shareAccepted running => exact ⟨⟨rfl,id,fun _ => id⟩,fun _ => trivial⟩

theorem Started.later {flight next : Flight} (started : Started flight next) : Later flight next := by
  rcases started with rfl | rfl
  · exact .refl next
  · exact ⟨rfl,id,fun _ => id⟩

theorem Started.keeps {flight next : Flight} (started : Started flight next) : Keeps baseDiff slowHash flight next := by
  refine ⟨started.later,fun sound => ?_⟩
  have stage : next.stage = flight.stage := by rcases started with rfl | rfl <;> rfl
  rw [stage]
  exact StageSound.later started.later sound

theorem Queued.keeps {flight next : Flight} (queued : Queued flight next) : Keeps baseDiff slowHash flight next := by
  rcases queued with rfl | ⟨failures,rfl⟩
  · exact ⟨.refl next,id⟩
  · exact ⟨⟨rfl,id,fun _ => id⟩,fun _ => trivial⟩

variable {world after : World} {moment : Moment} {share : ℕ} {flight : Flight}

section

variable (sound : SoundWorld baseDiff slowHash world)
include sound

theorem SoundWorld.moves (moves : Moves (Keeps baseDiff slowHash) world after)
    (credits : after.credits = world.credits) :
    SoundWorld baseDiff slowHash after := by
  constructor
  · intro i next found
    obtain ⟨before,here,_,kept⟩ := moves.back found
    exact kept (sound.stages i before here)
  · intro credit member
    rw [credits] at member
    obtain ⟨before,here,meets,vouched⟩ := sound.credits credit member
    obtain ⟨next,there,later,_⟩ := moves.2 _ before here
    exact ⟨next,there,by rw [later.share]; exact meets,Vouched.later later vouched⟩

theorem SoundWorld.setStage (found : world.flights[share]? = some flight)
    {stage : Stage} (staged : StageSound baseDiff slowHash flight stage) :
    SoundWorld baseDiff slowHash (world.setStage share stage) := by
  refine sound.moves (.update rfl (fun other => ⟨.refl other,id⟩) fun other here => ?_) rfl
  cases found.symm.trans here
  have later : Later flight { flight with stage } := ⟨rfl,id,fun _ => id⟩
  exact ⟨later,fun _ => StageSound.later later staged⟩

theorem finishShareProcessing_sound (shareAccepted : Option Bool) :
    SoundWorld baseDiff slowHash (finishShareProcessing moment share shareAccepted world) := by
  obtain ⟨moves,credits⟩ := finishShareProcessing_moves moment share shareAccepted world
  exact sound.moves (moves.mono fun _ _ => Ended.keeps) credits

theorem enqueueTrustedShare_sound : SoundWorld baseDiff slowHash (enqueueTrustedShare moment share world) := by
  unfold enqueueTrustedShare
  cases world.flights[share]? with
  | none => exact sound
  | some flight =>
    have opened : SoundWorld baseDiff slowHash
        (getTrustVerificationGate flight.share.trustKey flight.share.payout world) :=
      sound.moves ⟨by simp,fun i other found => ⟨other,by simpa using found,.refl other,id⟩⟩ (by simp)
    simp only
    split
    · exact finishShareProcessing_sound opened none
    · exact opened.moves ((pushEntry_moves ..).mono fun _ _ => Queued.keeps) (pushEntry_credits ..)

end

private theorem submitMainBlockIfNeeded_ne (moment : Moment) (judged : Share) (verified : Verified) :
    (submitMainBlockIfNeeded moment judged verified).1 ≠ some .record := by
  unfold submitMainBlockIfNeeded
  split
  · simp
  · split
    · simp
    · split
      · simp
      · split <;> simp

private theorem judge_record {blocks : List Bool} {verified : Verified} {judged : Share}
    (recorded : judge moment judged verified = (.record,blocks)) : ge verified.hashDiff judged.difficulty = true := by
  unfold judge at recorded
  cases main : submitMainBlockIfNeeded moment judged verified with
  | mk stops submitted =>
    rw [main] at recorded
    cases stops with
    | none =>
      simp only at recorded
      split at recorded
      · cases recorded
      next meets =>
        by_contra below
        simp [below] at meets
    | some judgement =>
      obtain ⟨rfl,_⟩ := Prod.mk.inj recorded
      exact absurd (by rw [main]) (submitMainBlockIfNeeded_ne moment judged verified)

section

variable (sound : SoundWorld baseDiff slowHash world)
include sound

theorem verifyShareCB_sound (found : world.flights[share]? = some flight)
    {verified : Verified} (vouched : Vouched baseDiff slowHash flight verified.hashDiff verified.isTrustedShare) :
    SoundWorld baseDiff slowHash (verifyShareCB moment share verified world) := by
  cases judged : judge moment flight.share verified with
  | mk judgement blocks =>
    simp only [verifyShareCB,found,judged]
    let submitted : World := { world with blocks := world.blocks ++ blocks.map (Submission.mk share) }
    have kept : SoundWorld baseDiff slowHash submitted := ⟨sound.stages,sound.credits⟩
    cases judgement with
    | reject => exact finishShareProcessing_sound kept _
    | testSubmit => exact kept.setStage found trivial
    | record =>
      have credited : SoundWorld baseDiff slowHash { submitted with
          credits := world.credits ++
            (false::if flight.share.blockTemplate.child_template.isSome then [true] else []).map
              (Credit.mk share verified.hashDiff verified.isTrustedShare) } := by
        refine ⟨sound.stages,fun credit member => ?_⟩
        rcases List.mem_append.mp member with old | new
        · exact sound.credits credit old
        · obtain ⟨child,_,rfl⟩ := List.mem_map.mp new
          exact ⟨flight,found,judge_record judged,vouched⟩
      exact finishShareProcessing_sound credited _

private theorem startAsyncVerification_sound : SoundWorld baseDiff slowHash (startAsyncVerification share world) :=
  sound.moves ((startAsyncVerification_moves share world).mono fun _ _ => Started.keeps)
    (startAsyncVerification_credits ..)

private theorem startAsyncVerification_setStage_sound (found : world.flights[share]? = some flight) {stage : Stage}
    (staged : StageSound baseDiff slowHash flight stage) :
    SoundWorld baseDiff slowHash ((startAsyncVerification share world).setStage share stage) := by
  obtain ⟨next,there,started⟩ := (startAsyncVerification_moves share world).2 share flight found
  exact (startAsyncVerification_sound sound).setStage there (StageSound.later started.later staged)

theorem carryOut_sound (found : world.flights[share]? = some flight)
    {plan : Plan} (planned : PlanSound baseDiff slowHash flight plan) :
    SoundWorld baseDiff slowHash (carryOut moment share plan world) := by
  cases plan with
  | finish outcome => exact finishShareProcessing_sound sound outcome
  | accept verified => exact verifyShareCB_sound sound found planned
  | enqueue => exact enqueueTrustedShare_sound sound
  | trust verified =>
    simp only [carryOut]
    split
    · exact sound.setStage found planned
    · exact verifyShareCB_sound sound found planned
  | hash check retries | submit hash trusted => exact startAsyncVerification_setStage_sound sound found planned

private theorem resumeShareProcessing_sound :
    SoundWorld baseDiff slowHash (resumeShareProcessing baseDiff moment share world) := by
  unfold resumeShareProcessing
  cases found : world.flights[share]? with
  | none => exact sound
  | some flight =>
    simp only
    let tested : Flight := { flight with tested := flight.tested || isBlockSubmitTestBypassEnabled moment flight.share }
    have later : Later flight tested := ⟨rfl,fun old => by simp [tested,old],fun _ => id⟩
    have marked : SoundWorld baseDiff slowHash (world.update share fun flight =>
        { flight with tested := flight.tested || isBlockSubmitTestBypassEnabled moment flight.share }) := by
      refine sound.moves (.update rfl (fun other => ⟨.refl other,id⟩) fun other here => ?_) rfl
      cases found.symm.trans here
      exact ⟨later,StageSound.later later⟩
    have here : (world.update share fun flight =>
        { flight with tested := flight.tested || isBlockSubmitTestBypassEnabled moment flight.share }).flights[share]? =
        some tested := by
      rw [getElem?_update,if_pos rfl,found,Option.map_some]
    have planned : PlanSound baseDiff slowHash tested
        (verifyShare baseDiff moment tested (isBusy flight.share.trustKey world)) :=
      verifyShare_sound fun on => by simp only [tested,Bool.or_eq_true]; exact .inr on
    exact carryOut_sound marked here planned

end

theorem step_sound {label : Label} (sound : SoundWorld baseDiff slowHash world)
    (moved : step baseDiff slowHash world label = some after) : SoundWorld baseDiff slowHash after := by
  have arrived (arriving : Share) : SoundWorld baseDiff slowHash (world.arrive arriving) := by
    constructor
    · intro i flight found
      rw [World.arrive] at found
      by_cases old : i < world.flights.length
      · rw [List.getElem?_append_left old] at found
        exact sound.stages i flight found
      · rw [List.getElem?_append_right (Nat.not_lt.mp old)] at found
        rw [List.mem_singleton.mp (List.mem_of_getElem? found)]
        trivial
    · intro credit member
      obtain ⟨flight,found,sound⟩ := sound.credits credit member
      exact ⟨flight,by rw [World.arrive,List.getElem?_append_left (List.getElem?_eq_some_iff.mp found).1,found],sound⟩
  have later (flight : Flight) (reply : SubmitReply) :
      Later flight { flight with submits := flight.submits ++ [reply] } :=
    ⟨rfl,id,fun old member => List.mem_append_left _ member⟩
  have heard (share : ℕ) (reply : SubmitReply) : SoundWorld baseDiff slowHash (world.hear share reply) :=
    sound.moves (.update rfl (fun other => ⟨.refl other,id⟩) fun other _ =>
      ⟨later other reply,StageSound.later (later other reply)⟩) rfl
  cases step_moved moved with
  | rejects moment arriving => exact finishShareProcessing_sound (arrived arriving) none
  | begins moment arriving => exact resumeShareProcessing_sound (arrived arriving)
  | retries _ _ found stage =>
    have staged := sound.stages _ _ found
    rw [stage] at staged
    exact sound.setStage found staged
  | answers _ _ _ found stage =>
    have staged := sound.stages _ _ found
    rw [stage] at staged
    exact carryOut_sound sound found (onHash_sound staged)
  | asks found stage =>
    have staged := sound.stages _ _ found
    rw [stage] at staged
    exact sound.setStage found staged
  | @resubmits share flight _ _ _ reply found stage =>
    have staged := sound.stages _ _ found
    rw [stage] at staged
    exact (heard share reply).setStage (getElem?_hear reply found) (Claimed.later (later flight reply) staged)
  | @submitted share flight _ _ _ _ reply found stage =>
    have staged := sound.stages _ _ found
    rw [stage] at staged
    refine carryOut_sound (heard share reply) (getElem?_hear reply found)
      (onSubmitted_sound (Claimed.later (later flight reply) staged) fun took => ?_)
    have accepted : reply = .accepted := of_decide_eq_true took
    exact List.mem_append_right _ (List.mem_singleton.mpr accepted.symm)
  | @retests share _ _ reply found => exact (heard share reply).setStage (getElem?_hear reply found) trivial
  | @tested share _ _ _ reply => exact finishShareProcessing_sound (heard share reply) _
  | delivers _ found stage =>
    have staged := sound.stages _ _ found
    rw [stage] at staged
    exact verifyShareCB_sound sound found staged
  | drains =>
    refine resumeShareProcessing_sound (sound.moves (.update rfl (fun other => ⟨.refl other,id⟩) fun other here =>
      ?_) rfl)
    exact ⟨⟨rfl,id,fun _ => id⟩,fun _ => trivial⟩

private theorem soundWorld_of_reachable (reachable : (shareProcessing baseDiff slowHash).Reachable world) :
    SoundWorld baseDiff slowHash world := by
  refine reachable.invariant (SoundWorld baseDiff slowHash) ?_ fun _ _ _ sound _ moved => step_sound sound moved
  intro start initial
  cases initial
  constructor
  · intro i flight found
    simp [fresh] at found
  · intro credit member
    simp [fresh] at member

/-- A credit of a standard coin's share rests on the slow hash of its nonce, on trust below a block's
difficulty, on the daemon's acceptance or on test mode, and its hash has at least the job's
difficulty without its fraction. -/
theorem credit_sound (reachable : (shareProcessing baseDiff slowHash).Reachable world) :
    ∀ credit ∈ world.credits, ∃ flight, world.flights[credit.share]? = some flight ∧
      (flight.share.special = false → ∃ hash, credit.hashDiff = .bigint (hashBuffDiff baseDiff hash) ∧
        trunc flight.share.difficulty ≤ hashBuffDiff baseDiff hash ∧
        (flight.tested = true ∨ flight.share.result = some hash ∧
          (flight.share.convertedBlob.map slowHash = some hash.toHex ∨
            (credit.isTrustedShare = true ∧
              isBlockCandidateDiff flight.share (.bigint (hashBuffDiff baseDiff hash)) = false) ∨
            SubmitReply.accepted ∈ flight.submits))) := by
  intro credit member
  obtain ⟨flight,found,meets,vouched⟩ := (soundWorld_of_reachable reachable).credits credit member
  refine ⟨flight,found,fun standard => ?_⟩
  obtain ⟨hash,same,grounds⟩ := vouched standard
  rw [same] at meets
  exact ⟨hash,same,of_decide_eq_true meets,grounds⟩

section Sample

def sampleHash : ResultHash := ⟨List.replicate 32 (Fin.last 255),List.length_replicate⟩

def sampleMoment : Moment :=
  { trustedMiners := true, trustThreshold := none, trustMin := none, trustChange := none, randomByte := 255,
    minerTrust := none, walletTrust := none, validShares := 0, lastSlowHashAsyncDelay := 0, testMode := false,
    isWalletBanned := fun _ => false, minerThrottle := none, last_ver_shares := none, whiteList := false,
    submissionBudget := false, maxRetries := none, special := .declined, verdict := .finish none }

def sampleShare : Share :=
  { payout := "4address", trustKey := "4address", isLoopback := false, special := false, height := 3000000,
    difficulty := 3 / 2, rewarded_difficulty2 := 3 / 2, blockTemplate := ⟨"",500000,none⟩, result := some sampleHash,
    syntheticResult := none, shareBuffer := true, convertedBlob := some "0a", retainedBytes := 0 }

def sampleBaseDiff : ℕ := 2 ^ 256 - 1

def sampleSlowHash (_ : String) : String := sampleHash.toHex

def sampleRun : List Label :=
  [.submit sampleMoment sampleShare,.answer sampleMoment 0 (.failed (some "verify-host-error")),.retry 0,
   .answer sampleMoment 0 .hash]

private theorem sampleRun_credited : ((shareProcessing sampleBaseDiff sampleSlowHash).run fresh sampleRun).map
    (fun world => (world.credits,world.flights.map Flight.share)) =
      some ([⟨0,.bigint 1,false,false⟩],[sampleShare]) := by decide +kernel

theorem sampleRun_reached : ∃ world, (shareProcessing sampleBaseDiff sampleSlowHash).Reachable world ∧
    world.credits = [⟨0,.bigint 1,false,false⟩] ∧ ∃ flight, world.flights[0]? = some flight ∧
    flight.share = sampleShare := by
  obtain ⟨world,ran,seen⟩ := Option.map_eq_some_iff.mp sampleRun_credited
  obtain ⟨credits,shares⟩ := Prod.mk.inj seen
  refine ⟨world,Machine.reachable_run rfl ran,credits,?_⟩
  have first : (world.flights.map Flight.share)[0]? = some sampleShare := by rw [shares]; rfl
  rw [List.getElem?_map] at first
  exact Option.map_eq_some_iff.mp first

theorem sampleRun_sound : ∃ world, (shareProcessing sampleBaseDiff sampleSlowHash).Reachable world ∧
    world.credits = [⟨0,.bigint 1,false,false⟩] ∧ ∃ flight, world.flights[0]? = some flight ∧
      (flight.share.special = false → ∃ hash, trunc flight.share.difficulty ≤ hashBuffDiff sampleBaseDiff hash) := by
  obtain ⟨world,reachable,credits,_⟩ := sampleRun_reached
  obtain ⟨flight,found,sound⟩ := credit_sound reachable ⟨0,.bigint 1,false,false⟩
    (by rw [credits]; exact List.mem_singleton_self _)
  refine ⟨world,reachable,credits,flight,found,fun standard => ?_⟩
  obtain ⟨hash,_,meets,_⟩ := sound standard
  exact ⟨hash,meets⟩

/-- A credited hash may be easier than its job by the job's fraction. -/
theorem fraction_is_lost : ¬∀ world, (shareProcessing sampleBaseDiff sampleSlowHash).Reachable world →
    ∀ credit ∈ world.credits, ∀ flight, world.flights[credit.share]? = some flight → flight.share.special = false →
      ∀ value : ℤ, credit.hashDiff = .bigint value → flight.share.difficulty ≤ value := by
  intro meets
  obtain ⟨world,reachable,credits,flight,found,same⟩ := sampleRun_reached
  have easy := meets world reachable ⟨0,.bigint 1,false,false⟩ (by rw [credits]; exact List.mem_singleton_self _) flight
    found (by rw [same]; rfl) 1 rfl
  rw [same] at easy
  norm_num [sampleShare] at easy

end Sample

end NodejsPool.Pool.ShareProcessing
