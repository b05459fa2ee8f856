import NodejsPool.Pool.CoinChoice
import NodejsPool.Pool.JobIdentity
import Mathlib.Tactic.Positivity

/-! The jobs that a miner is sent, against the coins they are of. -/
namespace NodejsPool.Pool.CoinChoice
open Async Option
open JobIds (Miner MinerJob Offer PoolSettings ensureEthExtranonce prepare coinDiff jobOf knowsJob)

variable (profiles : Profiles)

section Statements

variable (world : World) (session : Session)

def scaledDifficulty (active : ActiveTemplate) (coin : String) : ℚ :=
  let difficulty :=
    min (max (session.miner.difficulty / (world.factorOf coin * profiles.getPoolHashesPerDifficulty active.port))
      (profiles.getCoinMinDifficulty coin)) active.bt.difficulty
  if (profiles.poolSettings active.port).any fun settings =>
    settings.integerDifficulty then ⌊difficulty⌋ else difficulty

structure JobSound (active : ActiveTemplate) (job : MinerJob) : Prop where
  template : world.activeBlockTemplates job.coin = some active
  supported : isMinerSupportAlgo profiles (profiles.algoShortTypeStr active.port) session.algos = true
  factor : 0 < world.factorOf job.coin
  difficulty : job.difficulty = scaledDifficulty profiles world session active job.coin
  positive : 0 < job.difficulty
  normDiff : job.normDiff =
    job.difficulty * (world.factorOf job.coin * profiles.getPoolHashesPerDifficulty active.port)
  rewarded : 0 < job.normDiff

/-- A coin is chosen where one qualifies, and a current coin that is still good is kept for its time. -/
structure ChoiceSound : Prop where
  found : (selectBestCoin profiles world session).1 = none →
    ∀ coin ∈ ""::profiles.coins, qualifies profiles world session coin = false
  kept : ∀ coin, session.currCoin = .coin coin → currentCoinSupported profiles world session coin = true →
    session.currCoinTime ≠ 0 → (world.now : ℚ) - session.currCoinTime < session.algoMinTime * 1000 →
    selectBestCoin profiles world session = (some coin,session)

structure Sound : Prop where
  sent : ∀ job, world.sent = some job → ∃ session active, world.session = some session ∧
    JobSound profiles world session active job
  chosen : ∀ session, world.session = some session → ChoiceSound profiles world session

def Ample (coin : String) (active : ActiveTemplate) : Prop :=
  0 < active.bt.difficulty ∧ 0 < profiles.getCoinMinDifficulty coin ∧
    ∀ settings, profiles.poolSettings active.port = some settings → settings.integerDifficulty = true →
      1 ≤ active.bt.difficulty ∧ 1 ≤ profiles.getCoinMinDifficulty coin

def Gives (miner : Miner) (coin : String) (delivery : Delivery) : Prop :=
  ∃ offer, getCoinJobParams profiles world coin delivery = some offer ∧ JobIds.knowsJob miner offer.bt = false ∧
    (JobIds.prepare miner offer).2.isSome = true ∧ delivery.payloadThrows = false

def DefaultsToMain : Prop :=
  keptCoin profiles world session = none ∧ 0 ≤ basePerf session ∧
    ∀ coin ∈ profiles.coins, ∀ perf, candidatePerf profiles world session coin = some perf → perf ≤ basePerf session

end Statements

def Label.Ample : Label → Prop
  | .template coin active => CoinChoice.Ample profiles coin active
  | _ => True

def Checks (world : World) : Label → Prop
  | .sendSameCoinJob delivery => ∀ session coin, world.session = some session → session.currCoin = .coin coin →
      Gives profiles world session.miner coin delivery → checked profiles world session coin = true
  | .notifySameCoinMiners coin delivery => ∀ session, world.session = some session → session.currCoin = .coin coin →
      Gives profiles world session.miner coin delivery → checked profiles world session coin = true
  | .sendBestCoinJob delivery => ∀ session, world.session = some session → DefaultsToMain profiles world session →
      Gives profiles world (moveTo profiles world session "").miner "" delivery →
      checked profiles world session "" = true
  | .notifyBestCoinMiners coin delivery => ∀ session active, world.session = some session →
      world.activeBlockTemplates coin = some active →
      isMinerSupportAlgo profiles (profiles.algoShortTypeStr active.port) session.algos = true →
      DefaultsToMain profiles world session →
      Gives profiles world (moveTo profiles world session "").miner "" delivery →
      checked profiles world session "" = true
  | _ => True

section Choice

variable {profiles} {world : World} {session : Session} {coin : String}

private theorem foldl_considerCoin (profiles : Profiles) (world : World) (session : Session) (coins : List String)
    (best : String × ℚ) :
    (coins.foldl (considerCoin profiles world session) best = best ∧
      ∀ coin ∈ coins, ∀ perf, candidatePerf profiles world session coin = some perf → perf ≤ best.2) ∨
    ∃ coin ∈ coins, ∃ perf, candidatePerf profiles world session coin = some perf ∧ best.2 < perf ∧
      coins.foldl (considerCoin profiles world session) best = (coin,perf) := by
  induction coins generalizing best with
  | nil => exact .inl ⟨rfl,by simp⟩
  | cons first coins ih =>
    rw [List.foldl_cons]
    cases candidate : candidatePerf profiles world session first with
    | none =>
      have same : considerCoin profiles world session best first = best := by simp [considerCoin,candidate]
      rw [same]
      obtain ⟨ends,least⟩ | ⟨coin,member,found⟩ := ih best
      · refine .inl ⟨ends,List.forall_mem_cons.mpr ⟨?_,least⟩⟩
        simp [candidate]
      · exact .inr ⟨coin,List.mem_cons_of_mem _ member,found⟩
    | some perf =>
      by_cases less : best.2 < perf
      · have better : considerCoin profiles world session best first = (first,perf) := by
          simp [considerCoin,candidate,less]
        rw [better]
        obtain ⟨ends,_⟩ | ⟨coin,member,perf',found,more,ends⟩ := ih (first,perf)
        · exact .inr ⟨first,List.mem_cons_self,perf,candidate,less,ends⟩
        · exact .inr ⟨coin,List.mem_cons_of_mem _ member,perf',found,less.trans more,ends⟩
      · have same : considerCoin profiles world session best first = best := by simp [considerCoin,candidate,less]
        rw [same]
        obtain ⟨ends,least⟩ | ⟨coin,member,found⟩ := ih best
        · refine .inl ⟨ends,List.forall_mem_cons.mpr ⟨?_,least⟩⟩
          intro perf' found
          cases candidate.symm.trans found
          exact not_lt.mp less
        · exact .inr ⟨coin,List.mem_cons_of_mem _ member,found⟩

private theorem qualifies_checked (ready : qualifies profiles world session coin = true) :
    checked profiles world session coin = true := (Bool.and_eq_true_iff.mp ready).1

private theorem candidate_qualifies {perf : ℚ} (found : candidatePerf profiles world session coin = some perf) :
    qualifies profiles world session coin = true := by
  unfold candidatePerf at found
  split at found
  · contradiction
  · exact (ite_none_right_eq_some.mp found).1

theorem keptCoin_some (kept : keptCoin profiles world session = some coin) :
    session.currCoin = .coin coin ∧ checked profiles world session coin = true := by
  unfold keptCoin at kept
  split at kept
  next current same =>
    obtain ⟨early,⟨⟩⟩ := ite_none_right_eq_some.mp kept
    simp only [Bool.and_eq_true,currentCoinSupported] at early
    exact ⟨same,early.1.1.2⟩
  · contradiction

theorem bestCoin_cases (free : keptCoin profiles world session = none) :
    (DefaultsToMain profiles world session ∧ bestCoin profiles world session = some "") ∨
      (¬ DefaultsToMain profiles world session ∧
        ((∃ coin, bestCoin profiles world session = some coin ∧ checked profiles world session coin = true) ∨
          (bestCoin profiles world session = none ∧
            ∀ coin ∈ ""::profiles.coins, qualifies profiles world session coin = false))) := by
  have fallback : (∃ coin, (""::profiles.coins).find? (qualifies profiles world session) = some coin ∧
        checked profiles world session coin = true) ∨
      ((""::profiles.coins).find? (qualifies profiles world session) = none ∧
        ∀ coin ∈ ""::profiles.coins, qualifies profiles world session coin = false) := by
    cases found : (""::profiles.coins).find? (qualifies profiles world session) with
    | some coin => exact .inl ⟨coin,rfl,qualifies_checked (List.find?_some found)⟩
    | none => exact .inr ⟨rfl,fun coin member => Bool.eq_false_iff.mpr (List.find?_eq_none.mp found coin member)⟩
  unfold bestCoin
  obtain ⟨ends,least⟩ | ⟨coin,member,perf,found,more,ends⟩ :=
    foldl_considerCoin profiles world session profiles.coins ("",basePerf session)
  · rw [ends]
    by_cases low : basePerf session < 0
    · refine .inr ⟨fun defaults => absurd defaults.2.1 (not_le.mpr low),?_⟩
      simpa [low] using fallback
    · exact .inl ⟨⟨free,not_lt.mp low,least⟩,by simp [low]⟩
  · rw [ends]
    refine .inr ⟨fun defaults => absurd (defaults.2.2 coin member perf found) (not_le.mpr more),?_⟩
    by_cases low : perf < 0
    · simpa [low] using fallback
    · exact .inl ⟨coin,by simp [low],qualifies_checked (candidate_qualifies found)⟩

theorem choice_sound (profiles : Profiles) (world : World) (session : Session) :
    ChoiceSound profiles world session := by
  constructor
  · intro none
    unfold selectBestCoin at none
    split at none
    · contradiction
    next free =>
      obtain ⟨_,main⟩ | ⟨_,⟨coin,chosen,_⟩ | ⟨_,no⟩⟩ := bestCoin_cases free
      · rw [main] at none
        contradiction
      · rw [chosen] at none
        contradiction
      · exact no
  · intro coin current supported timed early
    have kept : keptCoin profiles world session = some coin := by
      simp [keptCoin,current,supported,timed,early]
    simp [selectBestCoin,kept]

end Choice

section Jobs

variable {profiles : Profiles} {world : World} {session : Session} {miner : Miner} {coin : String} {delivery : Delivery}
  {offer : Offer} {settings : PoolSettings} {draft : JobIds.Draft} {active : ActiveTemplate}

structure Coherent (profiles : Profiles) (session : Session) : Prop where
  set : session.currCoin ≠ .unset
  least : ∀ coin, session.currCoin = .coin coin → session.miner.currCoinMinDiff = profiles.getCoinMinDifficulty coin

private theorem factorOf_nonneg (world : World) (coin : String) : 0 ≤ world.factorOf coin := by
  unfold World.factorOf
  split
  · exact le_rfl
  next factor _ => exact factor.property

theorem checked_iff (active : ActiveTemplate) (found : world.activeBlockTemplates coin = some active) :
    checked profiles world session coin = true ↔
      0 < world.factorOf coin ∧ isMinerSupportAlgo profiles (profiles.algoShortTypeStr active.port) session.algos =
        true := by
  have positive : world.factorOf coin ≠ 0 ↔ 0 < world.factorOf coin :=
    ⟨fun apart => (factorOf_nonneg world coin).lt_of_ne apart.symm,fun positive => positive.ne'⟩
  simp [checked,found,positive]

theorem ensureEthExtranonce_difficulty (miner : Miner) (offer : Offer) (settings : PoolSettings) :
    (ensureEthExtranonce miner offer settings).difficulty = miner.difficulty ∧
      (ensureEthExtranonce miner offer settings).currCoinMinDiff = miner.currCoinMinDiff := by
  unfold ensureEthExtranonce
  split <;> exact ⟨rfl,rfl⟩

private theorem takeDifficulty_currCoinMinDiff (miner : Miner) :
    (JobIds.takeDifficulty miner).currCoinMinDiff = miner.currCoinMinDiff := by
  unfold JobIds.takeDifficulty
  split <;> rfl

theorem prepare_currCoinMinDiff (miner : Miner) (offer : Offer) :
    (prepare miner offer).1.currCoinMinDiff = miner.currCoinMinDiff := by
  unfold prepare
  dsimp only
  split
  next settings _ _ _ =>
    exact (ensureEthExtranonce_difficulty _ offer settings).2.trans (takeDifficulty_currCoinMinDiff _)
  · exact takeDifficulty_currCoinMinDiff _

private theorem draft_coinDiff {blobTypeNum : ℕ} {coinDiff : ℚ}
    (drafted : JobIds.draft miner offer settings blobTypeNum coinDiff = some draft) : draft.coinDiff = coinDiff := by
  unfold JobIds.draft at drafted
  split at drafted
  · contradiction
  · split at drafted
    · obtain ⟨blobHex,_,drafted⟩ := bind_eq_some_iff.mp drafted
      split at drafted
      · contradiction
      · cases drafted
        rfl
    · cases drafted
      rfl

private theorem prepare_coinDiff {after : Miner} (prepared : prepare miner offer = (after,some draft)) :
    ∃ settings, offer.poolSettings = some settings ∧ draft.coinDiff = coinDiff after offer settings := by
  unfold prepare at prepared
  dsimp only at prepared
  split at prepared
  next settings blobTypeNum known _ =>
    obtain ⟨rfl,drafted⟩ := Prod.mk.inj prepared
    refine ⟨settings,known,?_⟩
    rw [draft_coinDiff drafted]
    unfold coinDiff
    rw [(ensureEthExtranonce_difficulty _ offer settings).1,(ensureEthExtranonce_difficulty _ offer settings).2]
  · cases (Prod.mk.inj prepared).2

theorem getCoinJobParams_some (offered : getCoinJobParams profiles world coin delivery = some offer) :
    ∃ active, world.activeBlockTemplates coin = some active ∧ offer.coin = coin ∧
      offer.bt.difficulty = active.bt.difficulty ∧ offer.coinHashFactor = world.factorOf coin ∧
      offer.hashesPerDifficulty.getD 1 = profiles.getPoolHashesPerDifficulty active.port ∧
      offer.poolSettings = profiles.poolSettings active.port ∧ offer.payloadThrows = delivery.payloadThrows := by
  obtain ⟨active,found,rfl⟩ := map_eq_some_iff.mp offered
  refine ⟨active,found,rfl,rfl,rfl,?_,rfl,rfl⟩
  dsimp only
  split
  next one => exact one.symm
  · rfl

theorem getCoinJob_cases (miner : Miner) (offer : Offer) (id : String) :
    (getCoinJob miner offer id).1.currCoinMinDiff = miner.currCoinMinDiff ∧
      ∀ job, (getCoinJob miner offer id).2 = some job →
        ∃ settings draft, offer.poolSettings = some settings ∧ job = jobOf id offer draft ∧
          draft.coinDiff = coinDiff (getCoinJob miner offer id).1 offer settings := by
  have least := prepare_currCoinMinDiff miner offer
  unfold getCoinJob
  split
  · exact ⟨rfl,fun job sent => nomatch sent⟩
  · cases prepared : prepare miner offer with
    | mk after drafted =>
      rw [prepared] at least
      cases drafted with
      | none => exact ⟨least,fun job sent => nomatch sent⟩
      | some draft =>
        obtain ⟨settings,known,same⟩ := prepare_coinDiff prepared
        dsimp only
        split
        · exact ⟨least,fun job sent => nomatch sent⟩
        · refine ⟨least,fun job sent => ⟨settings,draft,known,(some.inj sent).symm,?_⟩⟩
          exact same

theorem getCoinJob_sends {id : String} : (getCoinJob miner offer id).2.isSome = true ↔ knowsJob miner offer.bt = false ∧
      (prepare miner offer).2.isSome = true ∧ offer.payloadThrows = false := by
  unfold getCoinJob
  cases known : knowsJob miner offer.bt with
  | true => simp
  | false =>
    cases prepared : prepare miner offer with
    | mk after drafted =>
      cases drafted with
      | none => simp
      | some draft => cases throws : offer.payloadThrows <;> simp

private theorem scaledDifficulty_pos (ample : Ample profiles coin active) :
    0 < scaledDifficulty profiles world session active coin := by
  obtain ⟨positive,least,whole⟩ := ample
  unfold scaledDifficulty
  dsimp only
  split
  next integer =>
    obtain ⟨settings,known,floors⟩ := (any_eq_true _ _).mp integer
    obtain ⟨high,one⟩ := whole settings known floors
    have floor : 1 ≤ ⌊min (max (session.miner.difficulty /
        (world.factorOf coin * profiles.getPoolHashesPerDifficulty active.port))
          (profiles.getCoinMinDifficulty coin)) active.bt.difficulty⌋ := by
      rw [Int.le_floor,Int.cast_one]
      exact le_min (one.trans (le_max_right _ _)) high
    exact_mod_cast Int.lt_of_lt_of_le Int.zero_lt_one floor
  · exact lt_min (least.trans_le (le_max_right _ _)) positive

variable (ample : ∀ coin active, world.activeBlockTemplates coin = some active → Ample profiles coin active)

section Offered

variable (found : world.activeBlockTemplates coin = some active)
  (offered : getCoinJobParams profiles world coin delivery = some offer) (known : offer.poolSettings = some settings)
  (least : miner.currCoinMinDiff = profiles.getCoinMinDifficulty coin)

include found offered known least

private theorem coinDiff_scaled (factor : 0 < world.factorOf coin) : coinDiff miner offer settings =
      scaledDifficulty profiles world { session with miner := miner } active coin := by
  obtain ⟨other,same,_,difficulty,factored,scale,pool,_⟩ := getCoinJobParams_some offered
  cases same.symm.trans found
  have scaled : world.factorOf coin * profiles.getPoolHashesPerDifficulty active.port ≠ 0 :=
    (mul_pos factor (profiles.hashesPerDifficulty_pos active.port)).ne'
  unfold coinDiff scaledDifficulty
  rw [difficulty,factored,scale,← pool,known,least]
  simp only [if_neg scaled,any_some]

include ample in
theorem job_sound_iff (session : Session) (id : String) (drafted : draft.coinDiff = coinDiff miner offer settings) :
    JobSound profiles world { session with miner := miner } active (jobOf id offer draft) ↔
      checked profiles world session coin = true := by
  obtain ⟨other,same,named,_,factored,scale,_,_⟩ := getCoinJobParams_some offered
  cases same.symm.trans found
  have coinOf : (jobOf id offer draft).coin = coin := named
  have norm : (jobOf id offer draft).normDiff =
      draft.coinDiff * (world.factorOf coin * profiles.getPoolHashesPerDifficulty active.port) := by
    rw [← factored,← scale]
    rfl
  rw [checked_iff active found]
  constructor
  · intro sound
    have factor := sound.factor
    rw [coinOf] at factor
    exact ⟨factor,sound.supported⟩
  · rintro ⟨factor,supported⟩
    have difficulty : draft.coinDiff = scaledDifficulty profiles world { session with miner := miner } active coin :=
      drafted.trans (coinDiff_scaled found offered known least factor)
    have positive : 0 < draft.coinDiff := by
      rw [difficulty]
      exact scaledDifficulty_pos (ample coin active found)
    have scaled := mul_pos factor (profiles.hashesPerDifficulty_pos active.port)
    refine ⟨?_,supported,?_,?_,positive,?_,?_⟩
    · rw [coinOf]
      exact found
    · rw [coinOf]
      exact factor
    · rw [coinOf]
      exact difficulty
    · rw [coinOf]
      exact norm
    · rw [norm]
      exact mul_pos positive scaled

end Offered

structure Sent (world : World) (session : Session) (after : World) : Prop where
  templates : after.activeBlockTemplates = world.activeBlockTemplates
  session : ∃ next, after.session = some next ∧ next.currCoin = session.currCoin ∧
    next.miner.currCoinMinDiff = session.miner.currCoinMinDiff

def SentSound (profiles : Profiles) (world : World) : Prop :=
  ∀ job, world.sent = some job → ∃ session active, world.session = some session ∧
    JobSound profiles world session active job

theorem sendCoinJob_some (offered : getCoinJobParams profiles world coin delivery = some offer) :
    sendCoinJob profiles world session coin delivery =
      { world with
        session := some { session with miner := (getCoinJob session.miner offer delivery.id).1 }
        sent := (getCoinJob session.miner offer delivery.id).2 } := by
  unfold sendCoinJob
  rw [offered]

theorem sendCoinJob_none (offered : getCoinJobParams profiles world coin delivery = none) :
    sendCoinJob profiles world session coin delivery = { world with session := some session } := by
  unfold sendCoinJob
  rw [offered]

theorem sendCoinJob_sent : Sent world session (sendCoinJob profiles world session coin delivery) := by
  cases offered : getCoinJobParams profiles world coin delivery with
  | none =>
    rw [sendCoinJob_none offered]
    exact ⟨rfl,session,rfl,rfl,rfl⟩
  | some offer =>
    rw [sendCoinJob_some offered]
    exact ⟨rfl,_,rfl,rfl,(getCoinJob_cases session.miner offer delivery.id).1⟩

private theorem gives_iff (offered : getCoinJobParams profiles world coin delivery = some offer) :
    Gives profiles world miner coin delivery ↔ (getCoinJob miner offer delivery.id).2.isSome = true := by
  obtain ⟨_,_,_,_,_,_,_,throws⟩ := getCoinJobParams_some offered
  rw [getCoinJob_sends,throws]
  constructor
  · rintro ⟨other,same,gives⟩
    cases offered.symm.trans same
    exact gives
  · exact fun gives => ⟨offer,offered,gives⟩

include ample in
theorem sendCoinJob_sound (quiet : world.sent = none)
    (least : session.miner.currCoinMinDiff = profiles.getCoinMinDifficulty coin) :
    SentSound profiles (sendCoinJob profiles world session coin delivery) ↔
      (Gives profiles world session.miner coin delivery → checked profiles world session coin = true) := by
  cases offered : getCoinJobParams profiles world coin delivery with
  | none =>
    rw [sendCoinJob_none offered]
    refine iff_of_true (fun job sent => ?_) ?_
    · cases quiet.symm.trans sent
    · rintro ⟨offer,found,_⟩
      cases offered.symm.trans found
  | some offer =>
    obtain ⟨active,found,named,_⟩ := getCoinJobParams_some offered
    obtain ⟨kept,built⟩ := getCoinJob_cases session.miner offer delivery.id
    rw [gives_iff offered,sendCoinJob_some offered]
    unfold SentSound
    dsimp only
    cases asked : (getCoinJob session.miner offer delivery.id).2 with
    | none => exact iff_of_true (fun job sent => nomatch sent) (fun gives => nomatch gives)
    | some job =>
      obtain ⟨settings,draft,known,rfl,drafted⟩ := built job asked
      have iff := job_sound_iff ample found offered known (kept.trans least) session delivery.id drafted
      rw [imp_iff_right isSome_some,← iff]
      constructor
      · intro sound
        obtain ⟨next,other,same,template,supported,factor,difficulty,positive,norm,rewarded⟩ := sound _ rfl
        cases some.inj same
        have here : world.activeBlockTemplates coin = some other := named ▸ template
        cases here.symm.trans found
        exact ⟨template,supported,factor,difficulty,positive,norm,rewarded⟩
      · intro good job same
        cases some.inj same
        exact ⟨_,active,rfl,good.template,good.supported,good.factor,good.difficulty,good.positive,good.normDiff,
          good.rewarded⟩

end Jobs

section Steps

variable {profiles : Profiles} {world : World} {session : Session} {coin : String} {delivery : Delivery}
  {after : World} {label : Label}

theorem moveTo_currCoin : (moveTo profiles world session coin).currCoin = .coin coin := by
  unfold moveTo
  split
  next same => exact same
  · rfl

theorem moveTo_algos : (moveTo profiles world session coin).algos = session.algos := by
  unfold moveTo
  split <;> rfl

theorem moveTo_coherent (world : World) (coin : String) (coherent : Coherent profiles session) :
    Coherent profiles (moveTo profiles world session coin) := by
  unfold moveTo
  split
  · exact coherent
  · refine ⟨nofun,fun other same => ?_⟩
    cases same
    cases session.currCoin.isCoin <;> rfl

theorem checked_algos {other : Session} (same : other.algos = session.algos) (coin : String) :
    checked profiles world other coin = checked profiles world session coin := by
  unfold checked
  rw [same]

theorem Sent.coherent (sent : Sent world session after) (coherent : Coherent profiles session) :
    ∀ next, after.session = some next → Coherent profiles next := by
  obtain ⟨next,found,coin,least⟩ := sent.session
  intro other same
  cases found.symm.trans same
  refine ⟨coin ▸ coherent.set,fun name current => ?_⟩
  rw [least]
  exact coherent.least name (coin ▸ current)

def TemplatesAmple (profiles : Profiles) (world : World) : Prop :=
  ∀ coin active, world.activeBlockTemplates coin = some active → Ample profiles coin active

theorem sentSound_quiet {condition : Prop} (quiet : after.sent = none) (holds : condition) :
    SentSound profiles after ↔ condition := iff_of_true (fun _ sent => nomatch quiet.symm.trans sent) holds

private theorem selectBestCoin_coherent (world : World) (coherent : Coherent profiles session) :
    Coherent profiles (selectBestCoin profiles world session).2 := by
  unfold selectBestCoin
  split
  · exact coherent
  · split
    · exact coherent
    · exact moveTo_coherent world _ coherent

theorem sendBestCoinJob_coherent (coherent : Coherent profiles session) :
    ∀ next, (sendBestCoinJob profiles world session delivery).session = some next → Coherent profiles next := by
  have selected := selectBestCoin_coherent world coherent
  unfold sendBestCoinJob
  cases chosen : selectBestCoin profiles world session with
  | mk coin next =>
    rw [chosen] at selected
    cases coin with
    | none =>
      intro other same
      cases some.inj same
      exact selected
    | some coin => exact sendCoinJob_sent.coherent selected

theorem sendBestCoinJob_templates (world : World) (session : Session) (delivery : Delivery) :
    (sendBestCoinJob profiles world session delivery).activeBlockTemplates = world.activeBlockTemplates := by
  unfold sendBestCoinJob
  split
  · rfl
  · exact sendCoinJob_sent.templates

theorem sendBestCoinJob_sound (ample : TemplatesAmple profiles world) (quiet : world.sent = none)
    (coherent : Coherent profiles session) : SentSound profiles (sendBestCoinJob profiles world session delivery) ↔
      (DefaultsToMain profiles world session →
        Gives profiles world (moveTo profiles world session "").miner "" delivery →
          checked profiles world session "" = true) := by
  have passes {next : Session} {chosen : String} (coherent : Coherent profiles next)
      (current : next.currCoin = .coin chosen) (ready : checked profiles world next chosen = true)
      (apart : ¬ DefaultsToMain profiles world session) :
      SentSound profiles (sendCoinJob profiles world next chosen delivery) ↔
        (DefaultsToMain profiles world session →
          Gives profiles world (moveTo profiles world session "").miner "" delivery →
            checked profiles world session "" = true) := by
    rw [sendCoinJob_sound ample quiet (coherent.least chosen current)]
    exact iff_of_true (fun _ => ready) fun defaults => absurd defaults apart
  unfold sendBestCoinJob selectBestCoin
  cases free : keptCoin profiles world session with
  | some chosen =>
    obtain ⟨current,ready⟩ := keptCoin_some free
    refine passes coherent current ready fun defaults => ?_
    cases free.symm.trans defaults.1
  | none =>
    obtain ⟨defaults,main⟩ | ⟨apart,⟨chosen,best,ready⟩ | ⟨best,_⟩⟩ := bestCoin_cases free
    · rw [main]
      have moved := moveTo_coherent world "" coherent
      rw [sendCoinJob_sound ample quiet (moved.least "" moveTo_currCoin),checked_algos moveTo_algos,
        imp_iff_right defaults]
    · rw [best]
      refine passes (moveTo_coherent world _ coherent) moveTo_currCoin ?_ apart
      rw [checked_algos moveTo_algos]
      exact ready
    · rw [best]
      exact sentSound_quiet quiet fun defaults => absurd defaults apart

theorem change_coherent {change : JobIds.Change} (coherent : Coherent profiles session)
    (least : ((session.change change).miner).currCoinMinDiff = session.miner.currCoinMinDiff) :
    Coherent profiles (session.change change) :=
    ⟨coherent.set,fun coin current => least.trans (coherent.least coin current)⟩

theorem setAlgos_kept (profiles : Profiles) (session : Session) (advertised : Advertised) :
    (setAlgos profiles session advertised).2.currCoin = session.currCoin ∧
      (setAlgos profiles session advertised).2.miner.currCoinMinDiff = session.miner.currCoinMinDiff := by
  unfold setAlgos
  dsimp only
  split
  · exact ⟨rfl,rfl⟩
  · split
    · split <;> split <;> exact ⟨rfl,rfl⟩
    · exact ⟨rfl,rfl⟩

theorem setAlgos_coherent {advertised : Advertised} (coherent : Coherent profiles session) :
    Coherent profiles (setAlgos profiles session advertised).2 := by
  obtain ⟨same,least⟩ := setAlgos_kept profiles session advertised
  refine ⟨same ▸ coherent.set,fun coin current => ?_⟩
  rw [least]
  exact coherent.least coin (same ▸ current)

private theorem applyNiceHashDiff_coherent {niceHash : Bool} (coherent : Coherent profiles session) :
    Coherent profiles (applyNiceHashDiff profiles session niceHash) := by
  unfold applyNiceHashDiff
  split
  · split <;> exact ⟨coherent.set,coherent.least⟩
  · exact coherent

private theorem keptCoin_unset (world : World) (session : Session) (unset : session.currCoin = .unset) :
    keptCoin profiles world session = none := by
  unfold keptCoin
  rw [unset]

theorem moveTo_first (unset : session.currCoin = .unset) : Coherent profiles (moveTo profiles world session coin) := by
  unfold moveTo
  rw [if_neg (by rw [unset]; exact nofun)]
  refine ⟨nofun,fun other same => ?_⟩
  cases same
  cases session.currCoin.isCoin <;> rfl

theorem login_coherent {request : Login} (coherent : ∀ next, world.session = some next → Coherent profiles next) :
    ∀ next, (login profiles world request).session = some next → Coherent profiles next := by
  unfold login
  split
  · exact coherent
  · have unset := (setAlgos_kept profiles (createMiner request.proxy request.moNative request.difficulty)
      request.advertised).1
    cases set : setAlgos profiles (createMiner request.proxy request.moNative request.difficulty)
      request.advertised with
    | mk ok session =>
      rw [set] at unset
      cases ok with
      | false => exact coherent
      | true =>
        intro next same
        cases some.inj same
        refine applyNiceHashDiff_coherent ?_
        unfold selectBestCoin
        rw [keptCoin_unset world
          { session with miner := session.miner.change (.selectCoin profiles.minDifficulty false) } unset]
        dsimp only
        cases bestCoin profiles world _ with
        | none => exact ⟨nofun,nofun⟩
        | some coin => exact moveTo_first unset

theorem step_coherent (coherent : ∀ next, world.session = some next → Coherent profiles next)
    (moved : step profiles world label = some after) : ∀ next, after.session = some next → Coherent profiles next := by
  have changes {next : Session} (made : Coherent profiles next) :
      ∀ other, some next = some other → Coherent profiles other := by
    rintro other ⟨⟩
    exact made
  cases label with
  | template | hashFactor | clock =>
    cases moved
    exact coherent
  | login request =>
    cases moved
    exact login_coherent coherent
  | setAlgos advertised =>
    obtain ⟨session,found,rfl⟩ := map_eq_some_iff.mp moved
    exact changes (setAlgos_coherent (coherent session found))
  | setNewDiff | dropLastBlockHash | extranonce =>
    obtain ⟨session,found,rfl⟩ := map_eq_some_iff.mp moved
    exact changes (change_coherent (coherent session found) rfl)
  | sendBestCoinJob delivery =>
    obtain ⟨session,found,rfl⟩ := map_eq_some_iff.mp moved
    exact sendBestCoinJob_coherent (coherent session found)
  | sendSameCoinJob delivery =>
    obtain ⟨session,found,rfl⟩ := map_eq_some_iff.mp moved
    have good := coherent session found
    unfold sendSameCoinJob
    split
    · exact sendBestCoinJob_coherent good
    · exact coherent
    · exact sendCoinJob_sent.coherent good
  | notifyBestCoinMiners coin delivery =>
    obtain ⟨session,found,rfl⟩ := map_eq_some_iff.mp moved
    unfold notifyBestCoinMiners
    split
    · exact coherent
    · split
      · exact sendBestCoinJob_coherent (coherent session found)
      · exact coherent
  | notifySameCoinMiners coin delivery =>
    obtain ⟨session,found,rfl⟩ := map_eq_some_iff.mp moved
    unfold notifySameCoinMiners
    split
    · exact sendCoinJob_sent.coherent (coherent session found)
    · exact coherent

theorem step_ample (ample : TemplatesAmple profiles world) (usual : label.Ample profiles)
    (moved : step profiles world label = some after) : TemplatesAmple profiles after := by
  have still {other : World} (same : other.activeBlockTemplates = world.activeBlockTemplates) :
      TemplatesAmple profiles other := fun coin active found => ample coin active (same ▸ found)
  cases label with
  | template coin active =>
    cases moved
    intro other active' found
    by_cases here : other = coin
    · subst here
      cases (Function.update_self ..).symm.trans found
      exact usual
    · exact ample other active' ((Function.update_of_ne here ..).symm.trans found)
  | hashFactor | clock =>
    cases moved
    exact still rfl
  | login request =>
    cases moved
    refine still ?_
    unfold login
    split
    · rfl
    · split <;> rfl
  | setAlgos | setNewDiff | dropLastBlockHash | extranonce =>
    obtain ⟨session,_,rfl⟩ := map_eq_some_iff.mp moved
    exact still rfl
  | sendBestCoinJob delivery =>
    obtain ⟨session,_,rfl⟩ := map_eq_some_iff.mp moved
    exact still (sendBestCoinJob_templates _ session delivery)
  | sendSameCoinJob delivery =>
    obtain ⟨session,_,rfl⟩ := map_eq_some_iff.mp moved
    refine still ?_
    unfold sendSameCoinJob
    split
    · exact sendBestCoinJob_templates _ session delivery
    · rfl
    · exact sendCoinJob_sent.templates
  | notifyBestCoinMiners coin delivery =>
    obtain ⟨session,_,rfl⟩ := map_eq_some_iff.mp moved
    refine still ?_
    unfold notifyBestCoinMiners
    split
    · rfl
    · split
      · exact sendBestCoinJob_templates _ session delivery
      · rfl
  | notifySameCoinMiners coin delivery =>
    obtain ⟨session,_,rfl⟩ := map_eq_some_iff.mp moved
    refine still ?_
    unfold notifySameCoinMiners
    split
    · exact sendCoinJob_sent.templates
    · rfl

theorem step_sound (coherent : ∀ next, world.session = some next → Coherent profiles next)
    (ample : TemplatesAmple profiles world) (moved : step profiles world label = some after) :
    SentSound profiles after ↔ Checks profiles world label := by
  let quiet : World := { world with sent := none }
  cases label with
  | template | hashFactor | clock =>
    cases moved
    exact sentSound_quiet rfl trivial
  | login request =>
    cases moved
    refine sentSound_quiet ?_ trivial
    unfold login
    split
    · rfl
    · split <;> rfl
  | setAlgos | setNewDiff | dropLastBlockHash | extranonce =>
    obtain ⟨session,found,rfl⟩ := map_eq_some_iff.mp moved
    exact sentSound_quiet rfl trivial
  | sendBestCoinJob delivery =>
    obtain ⟨session,found,rfl⟩ := map_eq_some_iff.mp moved
    refine (@sendBestCoinJob_sound profiles quiet _ _ ample rfl (coherent session found)).trans
      ⟨?_,fun meets => meets session found⟩
    rintro meets other same
    cases found.symm.trans same
    exact meets
  | sendSameCoinJob delivery =>
    obtain ⟨session,found,rfl⟩ := map_eq_some_iff.mp moved
    have good := coherent session found
    unfold sendSameCoinJob
    cases current : session.currCoin with
    | unset => exact absurd current good.set
    | no =>
      refine sentSound_quiet rfl ?_
      intro other coin same currentCoin
      cases found.symm.trans same
      cases current.symm.trans currentCoin
    | coin coin =>
      refine (@sendCoinJob_sound profiles quiet _ _ _ ample rfl (good.least coin current)).trans
        ⟨?_,fun meets => meets session coin found current⟩
      intro meets other name same currentCoin
      cases found.symm.trans same
      cases current.symm.trans currentCoin
      exact meets
  | notifyBestCoinMiners coin delivery =>
    obtain ⟨session,found,rfl⟩ := map_eq_some_iff.mp moved
    unfold notifyBestCoinMiners
    cases template : world.activeBlockTemplates coin with
    | none =>
      refine sentSound_quiet rfl ?_
      intro other active _ here
      cases template.symm.trans here
    | some active =>
      dsimp only
      split
      next supported =>
        refine (@sendBestCoinJob_sound profiles quiet _ _ ample rfl (coherent session found)).trans
          ⟨?_,fun meets => meets session active found template supported⟩
        intro meets other active' same _ _
        cases found.symm.trans same
        exact meets
      next unsupported =>
        refine sentSound_quiet rfl ?_
        intro other active' same here supported
        cases found.symm.trans same
        cases template.symm.trans here
        exact absurd supported unsupported
  | notifySameCoinMiners coin delivery =>
    obtain ⟨session,found,rfl⟩ := map_eq_some_iff.mp moved
    have good := coherent session found
    unfold notifySameCoinMiners
    split
    next current =>
      refine (@sendCoinJob_sound profiles quiet _ _ _ ample rfl (good.least coin current)).trans
        ⟨?_,fun meets => meets session found current⟩
      intro meets other same _
      cases found.symm.trans same
      exact meets
    next other =>
      refine sentSound_quiet rfl ?_
      intro next same current
      cases found.symm.trans same
      exact absurd current other

end Steps

structure Ready (profiles : Profiles) (world : World) : Prop where
  coherent : ∀ next, world.session = some next → Coherent profiles next
  ample : TemplatesAmple profiles world

private theorem start_ready : Ready profiles start where
  coherent next found := (some_ne_none next found.symm).elim
  ample _ active found := (some_ne_none active found.symm).elim

/-- In a run of ample templates every job sent is sound, and so is every choice of a coin, exactly where
the coins taken unchecked would pass. -/
theorem sent_jobs_sound {labels : List Label} {last : World} (ran : (pool profiles).run start labels = some last)
    (ample : ∀ label ∈ labels, label.Ample profiles) :
    (∀ front world, front <+: labels → (pool profiles).run start front = some world → Sound profiles world) ↔
      (pool profiles).Along (Checks profiles) start labels := by
  have sound (world : World) : Sound profiles world ↔ SentSound profiles world :=
    ⟨fun sound => sound.sent,fun sent => ⟨sent,fun session _ => choice_sound profiles world session⟩⟩
  simp only [sound]
  refine Machine.always_iff_along_of ?_ ample (start_ready profiles)
    (fun job sent => (Option.some_ne_none job sent.symm).elim) ran
  intro world after label usual ready moved
  exact ⟨⟨step_coherent ready.coherent moved,step_ample ready.ample usual moved⟩,
    fun _ => step_sound ready.coherent ready.ample moved⟩

section Runs

def sampleProfiles : Profiles where
  coins := ["RVN"]
  mainAlgos := ["rx/0"]
  allAlgos := ["rx/0","kawpow"]
  algoShortTypeStr port := if port = 8766 then "kawpow" else "rx/0"
  minerAlgoAliases _ := []
  getPoolHashesPerDifficulty port := if port = 8766 then 4294967296 else 1
  hashesPerDifficulty_pos port := by split <;> norm_num
  minDifficulty := 10000
  getCoinMinDifficulty coin := if coin = "RVN" then 1/100 else 10000
  getNiceHashMinimumDifficulty _ := 400000
  poolSettings _ := some ⟨false,false,false,false,false⟩
  blobTypeNum _ := some 0

def sampleTemplate (port : ℕ) (idHash : String) (difficulty : ℚ) : ActiveTemplate :=
  ⟨port,⟨idHash,7,difficulty,none,none,none,none,false,none,none⟩⟩

def sampleDelivery (id : String) : Delivery := ⟨some "00",none,none,none,false,id⟩

def sampleRun : List Label :=
  [.template "" (sampleTemplate 18081 "xmr" 300000000000),.template "RVN" (sampleTemplate 8766 "rvn" 50000),
    .hashFactor "RVN" ⟨1/2,by norm_num⟩,.clock 1000,
    .login ⟨false,false,100000000,false,⟨["kawpow"],some [("RVN",20000000)],some 60⟩⟩,
      .sendBestCoinJob (sampleDelivery "1")]

def disabledRun : List Label :=
  sampleRun ++ [.hashFactor "RVN" ⟨0,le_rfl⟩,.notifyBestCoinMiners "RVN" (sampleDelivery "2"),
    .setNewDiff (some 200000000) (some 200000000),.sendSameCoinJob (sampleDelivery "2")]

theorem sampleTemplate_ample (coin : String) (port : ℕ) (idHash : String) {difficulty : ℚ} (positive : 0 < difficulty) :
    Ample sampleProfiles coin (sampleTemplate port idHash difficulty) := by
  refine ⟨positive,?_,?_⟩
  · unfold sampleProfiles
    dsimp only
    split <;> norm_num
  · rintro settings ⟨⟩ integer
    contradiction

theorem sent_jobs_sound_sample : ∃ last, (pool sampleProfiles).run start sampleRun = some last ∧
    last.sent.map (fun job => (job.coin,job.normDiff)) = some ("RVN",100000000) ∧
    ((∀ front world, front <+: sampleRun → (pool sampleProfiles).run start front = some world →
        Sound sampleProfiles world) ↔ (pool sampleProfiles).Along (Checks sampleProfiles) start sampleRun) := by
  have runs : ((pool sampleProfiles).run start sampleRun).map (fun last =>
      last.sent.map fun job => (job.coin,job.normDiff)) = some (some ("RVN",100000000)) := by decide +kernel
  obtain ⟨last,ran,sent⟩ := Option.map_eq_some_iff.mp runs
  refine ⟨last,ran,sent,sent_jobs_sound sampleProfiles ran ?_⟩
  intro label member
  simp only [sampleRun,List.mem_cons,List.not_mem_nil,or_false] at member
  rcases member with rfl | rfl | rfl | rfl | rfl | rfl
  · exact sampleTemplate_ample "" 18081 "xmr" (by norm_num)
  · exact sampleTemplate_ample "RVN" 8766 "rvn" (by norm_num)
  all_goals exact trivial

/-- The job of a coin without a factor is worth nothing. -/
theorem disabled_coin_mined : ∃ last, (pool sampleProfiles).run start disabledRun = some last ∧
    ¬ Sound sampleProfiles last := by
  have runs : ((pool sampleProfiles).run start disabledRun).map (fun last =>
      last.sent.map fun job => job.normDiff) = some (some 0) := by decide +kernel
  obtain ⟨last,ran,sent⟩ := Option.map_eq_some_iff.mp runs
  obtain ⟨job,sent,worthless⟩ := Option.map_eq_some_iff.mp sent
  refine ⟨last,ran,fun sound => ?_⟩
  obtain ⟨_,_,_,good⟩ := sound.sent job sent
  exact good.rewarded.ne' worthless

end Runs
end NodejsPool.Pool.CoinChoice
