import NodejsPool.Pool.GateAccounting

/-! Which step of the processing accepts which share, and what it credits. -/
namespace NodejsPool.Pool.ShareProcessing
open Async Entries

def World.gives (world : World) (share : ℕ) (verdict : Bool) : Bool :=
  (world.flights[share]?).any fun flight => some verdict ∈ flight.replies

theorem Muted.replies {flight next : Flight} (muted : Muted flight next) (verdict : Bool) :
    some verdict ∈ next.replies ↔ some verdict ∈ flight.replies := by
  rcases muted with rfl | rfl
  · exact Iff.rfl
  · unfold Flight.cancelled
    split
    · exact Iff.rfl
    · simp

section Muting

variable {world after : World}

theorem gives_of_flights (same : after.flights = world.flights) (i : ℕ) (verdict : Bool) :
    after.gives i verdict = world.gives i verdict := by
  unfold World.gives
  rw [same]

theorem Quiet.gives (quiet : Quiet world after) (i : ℕ) (verdict : Bool) :
    after.gives i verdict = world.gives i verdict := by
  unfold World.gives
  cases found : world.flights[i]? with
  | none =>
    have none : after.flights[i]? = none := by
      rw [List.getElem?_eq_none_iff,quiet.moves.1]
      exact List.getElem?_eq_none_iff.mp found
    rw [none]
  | some flight =>
    obtain ⟨next,there,muted⟩ := quiet.moves.2 i flight found
    rw [there]
    exact Bool.eq_iff_iff.mpr (by simpa using muted.replies verdict)

variable {share : ℕ} {flight : Flight}

theorem finishShareProcessing_gives (moment : Moment) (found : world.flights[share]? = some flight)
    (running : flight.shareProcessingCompleted = false) (outcome : Option Bool) (i : ℕ) (verdict : Bool) :
    (finishShareProcessing moment share outcome world).gives i verdict =
      (world.gives i verdict || (i = share && outcome = some verdict)) := by
  have released := (releaseVerification_quiet moment flight
    (noteFailure flight outcome (complete share outcome world))).trans (releaseEntry_quiet moment flight _)
  have finished : finishShareProcessing moment share outcome world =
      releaseEntry moment flight (releaseVerification moment flight
        (noteFailure flight outcome (complete share outcome world))) := by
    unfold finishShareProcessing
    simp [found,running]
  rw [finished,released.gives,gives_of_flights (noteFailure_flights ..)]
  unfold World.gives complete
  rw [getElem?_update]
  by_cases here : i = share
  · subst here
    simp [found,eq_comm]
  · rw [if_neg (Ne.symm here)]
    simp [here]

end Muting

def Flight.testing (flight : Flight) : Bool :=
  match flight.stage with
  | .testSubmitting _ => true
  | _ => false

def World.testing (world : World) (share : ℕ) : Bool := (world.flights[share]?).any Flight.testing

/-- What a step does for its share: nothing that counts, or it records it and accepts it, or it accepts
it on the test bypass. -/
inductive Outcome (world after : World) (share : ℕ) : Prop
  | silent (credits : after.credits = world.credits) (same : ∀ i, after.gives i true = world.gives i true)
  | recorded (flight : Flight) (there : after.flights[share]? = some flight) (hashDiff : Diff) (isTrustedShare : Bool)
    (credits : after.credits = world.credits ++
      (false::if flight.share.blockTemplate.child_template.isSome then [true] else []).map
        (Credit.mk share hashDiff isTrustedShare))
    (untested : world.testing share = false) (fresh : world.gives share true = false)
    (accepts : ∀ i, after.gives i true = (world.gives i true || i = share))
    (refuses : ∀ i, after.gives i false = world.gives i false)
  | tested (testing : world.testing share = true) (credits : after.credits = world.credits)
    (fresh : world.gives share true = false) (accepts : ∀ i, after.gives i true = (world.gives i true || i = share))
    (refuses : ∀ i, after.gives i false = world.gives i false)

section Stepping

variable {world after : World} {share : ℕ} {flight : Flight} {moment : Moment} {baseDiff : ℕ}
    {slowHash : String → String}

theorem gives_update (world : World) (share : ℕ) (change : Flight → Flight)
    (same : ∀ flight, (change flight).replies = flight.replies) (i : ℕ) (verdict : Bool) :
    (world.update share change).gives i verdict = world.gives i verdict := by
  unfold World.gives
  rw [getElem?_update]
  split
  · cases world.flights[i]? with
    | none => rfl
    | some flight => simp [same]
  · rfl

theorem gives_setStage (world : World) (share : ℕ) (stage : Stage) (i : ℕ) (verdict : Bool) :
    (world.setStage share stage).gives i verdict = world.gives i verdict :=
  gives_update world share (fun flight => { flight with stage }) (fun _ => rfl) i verdict

theorem gives_unheard (found : world.flights[share]? = some flight) (unheard : flight.replies = []) (verdict : Bool) :
    world.gives share verdict = false := by
  simp [World.gives,found,unheard]

theorem pushEntry_gives (share : ℕ) (trustKey : String) (retainedBytes : ℕ) (world : World) (i : ℕ) (verdict : Bool) :
    (pushEntry share trustKey retainedBytes world).gives i verdict = world.gives i verdict := by
  unfold pushEntry
  refine Eq.trans (gives_update _ share _ ?_ i verdict) ?_
  · exact fun _ => rfl
  · exact gives_of_flights (updateGate_flights ..) i verdict

theorem startAsyncVerification_gives (share : ℕ) (world : World) (i : ℕ) (verdict : Bool) :
    (startAsyncVerification share world).gives i verdict = world.gives i verdict := by
  unfold startAsyncVerification
  split
  · rfl
  · split
    · rfl
    · rw [gives_of_flights ((updateGate_flights ..).trans (getTrustVerificationGate_flights ..))]
      exact gives_update world share (fun flight => { flight with walletVerificationStarted := true })
        (fun _ => rfl) i verdict

theorem finishShareProcessing_silent (found : world.flights[share]? = some flight)
    (running : flight.shareProcessingCompleted = false) {outcome : Option Bool} (unaccepted : outcome ≠ some true) :
    Outcome world (finishShareProcessing moment share outcome world) share := by
  refine .silent (finishShareProcessing_moves ..).2 fun i => ?_
  rw [finishShareProcessing_gives moment found running]
  simp [unaccepted]

theorem Outcome.of_passed {passed : World} (outcome : Outcome passed after share)
    (credits : passed.credits = world.credits) (gives : ∀ i verdict, passed.gives i verdict = world.gives i verdict)
    (testing : passed.testing share = world.testing share) : Outcome world after share := by
  cases outcome with
  | silent same quiet => exact .silent (same.trans credits) fun i => (quiet i).trans (gives i true)
  | recorded flight there hashDiff trusted added untested fresh accepts refuses =>
    refine .recorded flight there hashDiff trusted (by rw [added,credits]) (testing.symm.trans untested)
      ((gives share true).symm.trans fresh) ?_ ?_
    · exact fun i => by rw [accepts,gives]
    · exact fun i => by rw [refuses,gives]
  | tested tests same fresh accepts refuses =>
    refine .tested (testing.symm.trans tests) (same.trans credits) ((gives share true).symm.trans fresh) ?_ ?_
    · exact fun i => by rw [accepts,gives]
    · exact fun i => by rw [refuses,gives]

theorem testing_of_found (found : world.flights[share]? = some flight) : world.testing share = flight.testing := by
  simp [World.testing,found]

theorem testing_update (found : world.flights[share]? = some flight) (change : Flight → Flight)
    (same : (change flight).stage = flight.stage) :
    (world.update share change).testing share = world.testing share := by
  rw [testing_of_found found,testing_of_found (getElem?_update_self found)]
  unfold Flight.testing
  rw [same]

theorem verifyShareCB_outcome (found : world.flights[share]? = some flight)
    (running : flight.shareProcessingCompleted = false)
    (unheard : flight.replies = []) (untested : flight.testing = false) (verified : Verified) :
    Outcome world (verifyShareCB moment share verified world) share := by
  cases judged : judge moment flight.share verified with
  | mk judgement blocks =>
    simp only [verifyShareCB,found,judged]
    let submitted : World := { world with blocks := world.blocks ++ blocks.map (Submission.mk share) }
    cases judgement with
    | reject =>
      have here : submitted.flights[share]? = some flight := found
      have quiet : Outcome submitted (finishShareProcessing moment share (some false) submitted) share :=
        finishShareProcessing_silent here running (by decide)
      exact quiet.of_passed rfl (fun _ _ => rfl) rfl
    | testSubmit => exact .silent rfl fun i => gives_setStage submitted share _ i true
    | record =>
      let children := (false::if flight.share.blockTemplate.child_template.isSome then [true] else []).map
        (Credit.mk share verified.hashDiff verified.isTrustedShare)
      let credited : World := { submitted with credits := world.credits ++ children }
      have here : credited.flights[share]? = some flight := found
      have gives := finishShareProcessing_gives moment here running (some true)
      obtain ⟨moves,credits⟩ := finishShareProcessing_moves moment share (some true) credited
      obtain ⟨next,there,ended⟩ := moves.2 share flight here
      refine .recorded next there verified.hashDiff verified.isTrustedShare ?_ ((testing_of_found found).trans untested)
        (gives_unheard found unheard true) ?_ ?_
      · rw [ended.share]
        exact credits
      · intro i
        exact (gives i true).trans (by rw [decide_eq_true (rfl : some true = some true),Bool.and_true]; rfl)
      · intro i
        refine (gives i false).trans ?_
        simp only [Option.some.injEq,Bool.true_eq_false,decide_false,Bool.and_false,Bool.or_false]
        rfl

/-- No plan but the coin's own verifier ends a share without a record, and that one never accepts. -/
def Moment.Honest (moment : Moment) : Prop :=
  (∀ outcome, moment.special = .finish outcome → outcome ≠ some true) ∧
    ∀ outcome, moment.verdict = .finish outcome → outcome ≠ some true

theorem carryOut_outcome (moment : Moment) (found : world.flights[share]? = some flight)
    (running : flight.shareProcessingCompleted = false) (unheard : flight.replies = [])
    (untested : flight.testing = false)
    {plan : Plan} (honest : plan ≠ .finish (some true)) : Outcome world (carryOut moment share plan world) share := by
  cases plan with
  | finish outcome => exact finishShareProcessing_silent found running fun accepted => honest (by rw [accepted])
  | accept verified => exact verifyShareCB_outcome found running unheard untested verified
  | enqueue =>
    simp only [carryOut,enqueueTrustedShare,found]
    let gated := getTrustVerificationGate flight.share.trustKey flight.share.payout world
    have flights : gated.flights = world.flights := getTrustVerificationGate_flights ..
    split
    · have quiet : Outcome gated (finishShareProcessing moment share none gated) share :=
        finishShareProcessing_silent (by rw [flights]; exact found) running (by simp)
      refine quiet.of_passed (getTrustVerificationGate_credits ..) (gives_of_flights flights) ?_
      unfold World.testing
      rw [flights]
    · refine .silent ?_ fun i => ?_
      · rw [pushEntry_credits,getTrustVerificationGate_credits]
      · have pushed := pushEntry_gives share flight.share.trustKey flight.share.retainedBytes gated i true
        exact pushed.trans (gives_of_flights flights i true)
  | trust verified =>
    simp only [carryOut]
    split
    · exact .silent rfl fun i => gives_setStage world share _ i true
    · exact verifyShareCB_outcome found running unheard untested verified
  | hash check retries | submit hash trusted =>
    refine .silent (startAsyncVerification_credits share world) fun i => ?_
    exact (gives_setStage _ share _ i true).trans (startAsyncVerification_gives share world i true)

theorem tryTrustedShare_ends {busy : Bool} {onTrustedShare otherwise : Plan}
    (trusted : onTrustedShare ≠ .finish (some true)) (else' : otherwise ≠ .finish (some true)) :
    tryTrustedShare moment flight busy onTrustedShare otherwise ≠ .finish (some true) := by
  unfold tryTrustedShare
  split
  · exact else'
  · split
    · nofun
    · exact trusted

private theorem verifyCandidateOrHash_ends {judged : Share} {hash : ResultHash} :
    verifyCandidateOrHash baseDiff moment judged hash ≠ .finish (some true) := by
  unfold verifyCandidateOrHash
  split
  · nofun
  · split
    · split <;> nofun
    · nofun

private theorem verifyStandardShare_ends (busy : Bool) :
    verifyStandardShare baseDiff moment flight busy ≠ .finish (some true) := by
  unfold verifyStandardShare
  split
  · nofun
  · dsimp only
    split
    · split <;> nofun
    · split
      · exact verifyCandidateOrHash_ends
      · exact tryTrustedShare_ends nofun verifyCandidateOrHash_ends

private theorem verifyShare_ends (honest : moment.Honest) (busy : Bool) :
    verifyShare baseDiff moment flight busy ≠ .finish (some true) := by
  unfold verifyShare
  split
  · split
    · exact verifyStandardShare_ends busy
    next outcome special =>
      intro accepted
      exact honest.1 outcome special (Plan.finish.inj accepted)
    · nofun
    · dsimp only
      split
      · nofun
      · exact tryTrustedShare_ends nofun nofun
  · exact verifyStandardShare_ends busy

theorem onHash_ends (honest : moment.Honest) (judged : Share) (answer : HashAnswer) (check : Check) :
    onHash baseDiff slowHash moment judged answer check ≠ .finish (some true) := by
  cases check with
  | special =>
    simp only [onHash]
    split
    next outcome verdict =>
      intro accepted
      exact honest.2 outcome verdict (Plan.finish.inj accepted)
    · simp
  | slow hash | failedCandidate hash | candidate hash =>
    cases answer with
    | hash =>
      simp only [onHash]
      split <;> simp
    | null | failed errorKind => rintro ⟨⟩

private theorem onSubmitted_ends (hash : ResultHash) (trusted blockSubmitResult : Bool) :
    onSubmitted baseDiff moment hash trusted blockSubmitResult ≠ .finish (some true) := by
  unfold onSubmitted
  split
  · nofun
  · split <;> nofun

private theorem resumeShareProcessing_outcome (honest : moment.Honest) (found : world.flights[share]? = some flight)
    (running : flight.shareProcessingCompleted = false) (unheard : flight.replies = [])
    (untested : flight.testing = false) : Outcome world (resumeShareProcessing baseDiff moment share world) share := by
  let change (flight : Flight) : Flight :=
    { flight with tested := flight.tested || isBlockSubmitTestBypassEnabled moment flight.share }
  have there : (world.update share change).flights[share]? = some (change flight) := getElem?_update_self found
  have carried : Outcome (world.update share change)
      (carryOut moment share (verifyShare baseDiff moment flight (isBusy flight.share.trustKey world))
        (world.update share change)) share :=
    carryOut_outcome moment there running unheard untested (verifyShare_ends honest _)
  simp only [resumeShareProcessing,found]
  exact carried.of_passed rfl (gives_update world share change fun _ => rfl) (testing_update found change rfl)

def Label.Honest : Label → Prop
  | .submit moment _ | .answer moment _ _ | .daemon moment _ _ | .delay moment _ | .drain moment _ => moment.Honest
  | .retry _ => True

private theorem AtRest.unheard (rest : AtRest world) (found : world.flights[share]? = some flight)
    (running : flight.shareProcessingCompleted = false) : flight.replies = [] := by
  have formed := rest.balanced.ledger.formed share flight found
  exact List.eq_nil_of_length_eq_zero (by rw [formed.replies,running]; rfl)

theorem step_outcome {label : Label} (rest : AtRest world) (honest : label.Honest)
    (moved : step baseDiff slowHash world label = some after) : ∃ share, Outcome world after share := by
  have gives {arriving : Share} (i : ℕ) (verdict : Bool) :
      (world.arrive arriving).gives i verdict = world.gives i verdict := by
    unfold World.gives World.arrive
    by_cases old : i < world.flights.length
    · rw [List.getElem?_append_left old]
    · rw [List.getElem?_eq_none (Nat.not_lt.mp old)]
      by_cases here : i = world.flights.length
      · simp [here,newFlight]
      · rw [List.getElem?_eq_none (by simp; omega)]
  have untested {arriving : Share} :
      (world.arrive arriving).testing ((world.arrive arriving).flights.length - 1) =
        world.testing ((world.arrive arriving).flights.length - 1) := by
    rw [testing_of_found getElem?_arrive]
    simp [World.testing,World.arrive,Flight.testing,newFlight]
  have hears {share : ℕ} (reply : SubmitReply) (i : ℕ) (verdict : Bool) :
      (world.hear share reply).gives i verdict = world.gives i verdict :=
    gives_update world share (fun flight => { flight with submits := flight.submits ++ [reply] })
      (fun _ => rfl) i verdict
  cases step_moved moved with
  | rejects moment arriving =>
    have outcome : Outcome (world.arrive arriving) (finishShareProcessing moment _ none (world.arrive arriving)) _ :=
      finishShareProcessing_silent getElem?_arrive rfl (by simp)
    exact ⟨_,outcome.of_passed rfl gives untested⟩
  | begins moment arriving =>
    have outcome : Outcome (world.arrive arriving)
        (resumeShareProcessing baseDiff moment _ (world.arrive arriving)) _ :=
      resumeShareProcessing_outcome honest getElem?_arrive rfl rfl rfl
    exact ⟨_,outcome.of_passed rfl gives untested⟩
  | @retries share => exact ⟨share,.silent rfl fun i => gives_setStage world share _ i true⟩
  | @answers share _ _ _ moment _ _ found stage =>
    have running := rest.incomplete found (by rw [stage]; simp)
    exact ⟨share,carryOut_outcome moment found running (rest.unheard found running) (by simp [Flight.testing,stage])
      (onHash_ends honest _ _ _)⟩
  | @asks share => exact ⟨share,.silent rfl fun i => gives_setStage world share _ i true⟩
  | @resubmits share _ _ _ _ reply =>
    exact ⟨share,.silent rfl fun i => (gives_setStage _ share _ i true).trans (hears reply i true)⟩
  | @submitted share flight hash trusted _ moment reply found stage =>
    have running := rest.incomplete found (by rw [stage]; simp)
    have ends : onSubmitted baseDiff moment hash trusted (reply = .accepted) ≠ .finish (some true) :=
      onSubmitted_ends hash trusted _
    have unheard := rest.unheard found running
    have carried := carryOut_outcome moment (getElem?_hear reply found) running unheard (by simp [Flight.testing,stage])
      ends
    exact ⟨share,carried.of_passed rfl (hears reply) (testing_update found _ rfl)⟩
  | @retests share _ _ reply =>
    exact ⟨share,.silent rfl fun i => (gives_setStage _ share _ i true).trans (hears reply i true)⟩
  | @tested share flight _ moment reply found stage =>
    have running := rest.incomplete found (by rw [stage]; simp)
    have ends := finishShareProcessing_gives moment (getElem?_hear reply found) running (some true)
    have testing : flight.testing = true := by simp [Flight.testing,stage]
    refine ⟨share,.tested ((testing_of_found found).trans testing) (finishShareProcessing_moves ..).2
      (gives_unheard found (rest.unheard found running) true) (fun i => ?_) fun i => ?_⟩
    · exact (ends i true).trans (by rw [decide_eq_true (rfl : some true = some true),Bool.and_true,hears])
    · exact (ends i false).trans (by
        simp only [Option.some.injEq,Bool.true_eq_false,decide_false,Bool.and_false,Bool.or_false,hears])
  | @delivers share _ _ verified found stage =>
    have running := rest.incomplete found (by rw [stage]; simp)
    exact ⟨share,verifyShareCB_outcome found running (rest.unheard found running)
      (by simp [Flight.testing,stage]) verified⟩
  | @drains moment callback drain due =>
    obtain ⟨flight,found,_,_,waiting,_⟩ := rest.balanced.ledger.taken due
    have running := ((rest.balanced.ledger.formed _ flight found).waiting waiting).1
    have unheard := rest.unheard found running
    have there : (world.dequeue callback drain).flights[_]? = _ := getElem?_dequeue found
    have outcome : Outcome (world.dequeue callback drain) (resumeShareProcessing baseDiff moment _ _) _ :=
      resumeShareProcessing_outcome honest there running unheard rfl
    refine ⟨_,outcome.of_passed rfl (fun i verdict => ?_) ?_⟩
    · exact (gives_update _ drain.entry.share drain.begin (fun _ => rfl) i verdict).trans
        (gives_of_flights rfl i verdict)
    · rw [testing_of_found there,testing_of_found found]
      simp [Flight.testing,Drain.begin,waiting]

end Stepping

section Sharing

variable {world after : World} {share : ℕ} {moment : Moment} {baseDiff : ℕ} {slowHash : String → String}

def World.shares (world : World) : List Share := world.flights.map Flight.share

theorem Moves.shares {R : Flight → Flight → Prop} (moves : Moves R world after)
    (same : ∀ flight next, R flight next → next.share = flight.share) : after.shares = world.shares := by
  unfold World.shares
  refine List.ext_getElem? fun i => ?_
  rw [List.getElem?_map,List.getElem?_map]
  cases found : world.flights[i]? with
  | none =>
    have none : after.flights[i]? = none := by
      rw [List.getElem?_eq_none_iff,moves.1]
      exact List.getElem?_eq_none_iff.mp found
    rw [none]
  | some flight =>
    obtain ⟨next,there,related⟩ := moves.2 i flight found
    rw [there,Option.map_some,Option.map_some,same flight next related]

theorem shares_update (world : World) (share : ℕ) (change : Flight → Flight)
    (same : ∀ flight, (change flight).share = flight.share) : (world.update share change).shares = world.shares :=
  Moves.shares (Moves.update (R := fun flight next => next.share = flight.share) rfl (fun _ => rfl)
    fun flight _ => same flight) fun _ _ => id

theorem shares_setStage (world : World) (share : ℕ) (stage : Stage) :
    (world.setStage share stage).shares = world.shares :=
  shares_update world share (fun flight => { flight with stage }) fun _ => rfl

theorem finishShareProcessing_shares (moment : Moment) (share : ℕ) (outcome : Option Bool) (world : World) :
    (finishShareProcessing moment share outcome world).shares = world.shares :=
  (finishShareProcessing_moves moment share outcome world).1.shares fun _ _ ended => ended.share

theorem verifyShareCB_shares (share : ℕ) (verified : Verified) (world : World) :
    (verifyShareCB moment share verified world).shares = world.shares := by
  cases found : world.flights[share]? with
  | none => simp only [verifyShareCB,found]
  | some flight =>
    obtain ⟨blocks,credits,⟨_,same⟩ | ⟨shareAccepted,same⟩⟩ := verifyShareCB_cases found moment verified <;> rw [same]
    · exact shares_setStage _ share _
    · exact finishShareProcessing_shares moment share shareAccepted _

private theorem startAsyncVerification_shares (share : ℕ) (world : World) :
    (startAsyncVerification share world).shares = world.shares :=
  (startAsyncVerification_moves share world).shares fun flight next started => by rcases started with rfl | rfl <;> rfl

theorem carryOut_shares (share : ℕ) (plan : Plan) (world : World) :
    (carryOut moment share plan world).shares = world.shares := by
  cases plan with
  | finish outcome => exact finishShareProcessing_shares moment share outcome world
  | accept verified => exact verifyShareCB_shares share verified world
  | enqueue =>
    simp only [carryOut,enqueueTrustedShare]
    split
    · rfl
    next flight _ =>
      have gated : (getTrustVerificationGate flight.share.trustKey flight.share.payout world).shares =
          world.shares := by
        unfold World.shares
        rw [getTrustVerificationGate_flights]
      split
      · exact (finishShareProcessing_shares moment share none _).trans gated
      · refine ((pushEntry_moves ..).shares fun flight next queued => ?_).trans gated
        rcases queued with rfl | ⟨_,rfl⟩ <;> rfl
  | trust verified =>
    simp only [carryOut]
    split
    · exact shares_setStage world share _
    · exact verifyShareCB_shares share verified world
  | hash check retries | submit hash trusted =>
    exact (shares_setStage _ share _).trans (startAsyncVerification_shares share world)

private theorem resumeShareProcessing_shares (share : ℕ) (world : World) :
    (resumeShareProcessing baseDiff moment share world).shares = world.shares := by
  unfold resumeShareProcessing
  split
  · rfl
  · exact (carryOut_shares share _ _).trans (shares_update world share _ fun _ => rfl)

def Label.arriving : Label → List Share
  | .submit _ share => [share]
  | _ => []

theorem step_shares {label : Label} (moved : step baseDiff slowHash world label = some after) :
    after.shares = world.shares ++ label.arriving := by
  have still {passed : World} (same : passed.shares = world.shares) : passed.shares = world.shares ++ [] := by
    rw [same,List.append_nil]
  have arrived (arriving : Share) : (world.arrive arriving).shares = world.shares ++ [arriving] := List.map_append
  have heard (share : ℕ) (reply : SubmitReply) : (world.hear share reply).shares = world.shares :=
    shares_update world share _ fun _ => rfl
  cases step_moved moved with
  | rejects moment arriving => exact (finishShareProcessing_shares moment _ none _).trans (arrived arriving)
  | begins moment arriving => exact (resumeShareProcessing_shares _ _).trans (arrived arriving)
  | retries | asks => exact still (shares_setStage world _ _)
  | answers => exact still (carryOut_shares _ _ world)
  | resubmits | retests => exact still ((shares_setStage _ _ _).trans (heard ..))
  | submitted => exact still ((carryOut_shares _ _ _).trans (heard ..))
  | tested => exact still ((finishShareProcessing_shares _ _ _ _).trans (heard ..))
  | delivers => exact still (verifyShareCB_shares _ _ world)
  | drains => exact still ((resumeShareProcessing_shares _ _).trans (shares_update _ _ _ fun _ => rfl))

end Sharing

end NodejsPool.Pool.ShareProcessing
