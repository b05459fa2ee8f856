import NodejsPool.Pool.JobIdentity

/-! What a job that cannot be built leaves of its miner, and whether it is asked for again. -/
namespace NodejsPool.Pool.JobIds

variable {miner after : Miner} {offer : Offer} {world : World} {conn : ℕ}

def Fails (miner : Miner) (offer : Offer) : Prop :=
  knowsJob miner offer.bt = false ∧ offer.poolSettings.isSome = true ∧ offer.blobTypeNum.isSome = true ∧
    ((prepare miner offer).2 = none ∨ offer.payloadThrows = true)

structure Restored (before after : Miner) : Prop where
  difficulty : after.difficulty = before.difficulty
  newDiffToSet : after.newDiffToSet = before.newDiffToSet
  newDiffRecommendation : after.newDiffRecommendation = before.newDiffRecommendation
  cachedJob : after.cachedJob = before.cachedJob
  jobLastBlockHash : after.jobLastBlockHash = before.jobLastBlockHash
  validJobs : after.validJobs = before.validJobs

structure Repeats (miner : Miner) (offer : Offer) : Prop where
  jobLastBlockHash : miner.jobLastBlockHash = some offer.bt.idHash
  newDiffToSet : miner.newDiffToSet = none
  newDiffRecommendation : miner.newDiffRecommendation = none

theorem enq_ne {α : Type} (ring : Ring α) {capacity : ℕ} (positive : 1 < capacity) (value : α) :
    ring.enq capacity value ≠ ring := by
  intro same
  unfold Ring.enq at same
  split at same
  · have size := congrArg Ring.size same
    exact Nat.succ_ne_self _ size
  · have head : (ring.head + 1) % capacity = ring.head := congrArg Ring.head same
    have below : ring.head < capacity := by
      rw [← head]
      exact Nat.mod_lt _ (Nat.zero_lt_of_lt positive)
    rcases (Nat.succ_le_of_lt below).lt_or_eq with less | last
    · rw [Nat.mod_eq_of_lt less] at head
      exact Nat.succ_ne_self _ head
    · rw [show ring.head + 1 = capacity from last,Nat.mod_self] at head
      omega

private theorem takeDifficulty_taken (miner : Miner) : (takeDifficulty miner).newDiffToSet = none ∧
    (takeDifficulty miner).newDiffRecommendation = none ∧ (takeDifficulty miner).cachedJob = miner.cachedJob ∧
    (takeDifficulty miner).jobLastBlockHash = miner.jobLastBlockHash := by
  unfold takeDifficulty
  split
  · exact ⟨rfl,rfl,rfl,rfl⟩
  next toSet _ => exact ⟨toSet,rfl,rfl,rfl⟩
  next toSet recommendation => exact ⟨toSet,recommendation,rfl,rfl⟩

private theorem prepare_restored : Restored miner (prepare miner offer).1 ↔ Repeats miner offer := by
  have ensured (miner : Miner) (settings : PoolSettings) :
      let after := ensureEthExtranonce miner offer settings
      after.difficulty = miner.difficulty ∧ after.newDiffToSet = miner.newDiffToSet ∧
        after.newDiffRecommendation = miner.newDiffRecommendation ∧ after.cachedJob = miner.cachedJob ∧
          after.jobLastBlockHash = miner.jobLastBlockHash := by
    intro after
    simp only [after,ensureEthExtranonce]
    split <;> exact ⟨rfl,rfl,rfl,rfl,rfl⟩
  let hashed := { miner with jobLastBlockHash := some offer.bt.idHash }
  have taken := takeDifficulty_taken hashed
  have fields : let after := (prepare miner offer).1
      after.difficulty = (takeDifficulty hashed).difficulty ∧ after.newDiffToSet = none ∧
        after.newDiffRecommendation = none ∧ after.cachedJob = miner.cachedJob ∧
          after.jobLastBlockHash = some offer.bt.idHash := by
    unfold prepare
    dsimp only
    split
    next settings _ _ _ =>
      obtain ⟨difficulty,toSet,recommendation,cached,hash⟩ := ensured (takeDifficulty hashed) settings
      exact ⟨difficulty,toSet.trans taken.1,recommendation.trans taken.2.1,cached.trans taken.2.2.1,
        hash.trans taken.2.2.2⟩
    · exact ⟨rfl,taken.1,taken.2.1,taken.2.2.1,taken.2.2.2⟩
  obtain ⟨difficulty,toSet,recommendation,cached,hash⟩ := fields
  constructor
  · intro restored
    exact ⟨restored.jobLastBlockHash.symm.trans hash,restored.newDiffToSet.symm.trans toSet,
      restored.newDiffRecommendation.symm.trans recommendation⟩
  · intro repeats
    refine ⟨difficulty.trans ?_,toSet.trans repeats.newDiffToSet.symm,
      recommendation.trans repeats.newDiffRecommendation.symm,cached,hash.trans repeats.jobLastBlockHash.symm,
      prepare_validJobs miner offer⟩
    unfold takeDifficulty
    rw [repeats.newDiffToSet,repeats.newDiffRecommendation]

/-- A call that fails restores its miner exactly where the miner has nothing to take, and no job is
enqueued. -/
theorem failed_job_restored (world : World) (conn : ℕ) (miner : Miner) (offer : Offer) :
    (Fails miner offer → ∃ after, (getCoinJob world conn miner offer).miners conn = some after ∧ Restored miner after) ↔
      (Fails miner offer → Repeats miner offer ∧ (prepare miner offer).2 = none) := by
  refine imp_congr_right fun fails => ?_
  unfold getCoinJob
  rw [fails.1,if_neg Bool.false_ne_true]
  have restored : Restored miner (prepare miner offer).1 ↔ Repeats miner offer := prepare_restored
  cases prepared : prepare miner offer with
  | mk before drafted =>
    rw [prepared] at restored
    cases drafted with
    | none =>
      have kept : (world.setMiner conn before).miners conn = some before := Function.update_self ..
      constructor
      · rintro ⟨after,same,restores⟩
        cases kept.symm.trans same
        exact ⟨restored.mp restores,rfl⟩
      · exact fun repeats => ⟨before,kept,restored.mpr repeats.1⟩
    | some draft =>
      refine iff_of_false ?_ (fun repeats => nomatch repeats.2)
      rintro ⟨after,same,restores⟩
      have ring := buildJob_miner same
      have ringBefore := prepare_validJobs miner offer
      rw [prepared] at ringBefore
      rw [ringBefore] at ring
      exact enq_ne miner.validJobs (by decide) _ (ring.symm.trans restores.validJobs)

section Runs

def olderJob : Miner :=
  { createMiner false false 1000 with jobLastBlockHash := some "old",cachedJob := some ⟨"1","00",1000⟩ }

def blobless : Offer where
  coin := ""
  bt := ⟨"new",7,5000,none,none,none,none,false,none,none⟩
  coinHashFactor := 1
  hashesPerDifficulty := none
  poolSettings := some ⟨false,false,false,false,false⟩
  blobTypeNum := some 0
  ensured := none
  payloadThrows := false

/-- The template that has its blob is refused: the miner keeps the job of the older one. -/
theorem job_never_retried : ∃ after, (getCoinJob start 0 olderJob blobless).miners 0 = some after ∧
    after.cachedJob = olderJob.cachedJob ∧ ¬ Restored olderJob after ∧
      knowsJob after { blobless.bt with nextBlobHex := some "01" } = true := by
  refine ⟨_,rfl,rfl,?_,by decide +kernel⟩
  intro restored
  have hash := restored.jobLastBlockHash
  revert hash
  decide +kernel

end Runs
end NodejsPool.Pool.JobIds
