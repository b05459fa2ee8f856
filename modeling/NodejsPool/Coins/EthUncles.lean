import Mathlib.Tactic.NormNum
import NodejsPool.Coins.EthRaces

/-! The reward that is called back for an uncle: both heights of its formula are the uncle's own. -/
namespace NodejsPool.Coins.Eth
open Async Payments
open Pool.Templates (Number)

variable {chain : Chain} {ctx : Context} {world : World}

/-- The numbers of a chain: a block's is its height, and the record of the uncle is that of the block. -/
structure Numbered (chain : Chain) (ctx : Context) : Prop where
  blockAt : ∀ height block, chain.blockAt height = some block → parseEthBlockNumber block.number = some (height : ℚ)
  uncleAt : ∀ nearby index including number own, chain.blockAt nearby = some including →
    uncleIndex ctx including.uncles = some index → chain.uncleAt nearby index = some number →
    chain.blockOf ctx.uncleText = some own → parseEthBlockNumber number = parseEthBlockNumber own.number

def uncleBaseAt (config : RpcSettings) (height : ℕ) : Option ℚ :=
  match config.baseReward with
  | .ofHeight value => value (some height)
  | .number _ => config.uncleBaseReward

/-- The reward of the uncle at a height that the block at `including` includes: less than a block's. -/
def UncleRewarded (config : RpcSettings) (height including : ℕ) (value : Number) : Prop :=
  ∃ baseReward rewardMultiplier : ℚ, uncleBaseAt config height = some baseReward ∧
    config.rewardMultiplier = some rewardMultiplier ∧
    value = some (baseReward * (8 - ((including : ℚ) - height)) / 8 * rewardMultiplier) ∧
    baseReward * (8 - ((including : ℚ) - height)) / 8 * rewardMultiplier < baseReward * rewardMultiplier

private theorem uncle_value (numbered : Numbered chain ctx) (free : ctx.config.fixedUncleReward = false)
    {block : EthRewardBlock} {value : Number} {height : ℕ} (uncle : UncleOf chain ctx block value)
    (at_height : block.height = some height) : ∃ baseReward rewardMultiplier : ℚ,
      uncleBaseAt ctx.config height = some baseReward ∧ ctx.config.rewardMultiplier = some rewardMultiplier ∧
        value = some (baseReward * rewardMultiplier) := by
  obtain ⟨other,nearby,canonical,including,index,uncleNumber,same,⟨own,of_hash,ownHeight⟩,at_other,_,
    at_nearby,listed,record,rewarded⟩ := uncle
  cases at_height.symm.trans same
  have uncleHeight := (numbered.uncleAt nearby index including uncleNumber own at_nearby listed record of_hash).trans
    ownHeight
  have canonicalHeight := numbered.blockAt height canonical at_other
  have base : uncleBase ctx.config uncleNumber = uncleBaseAt ctx.config height := by
    unfold uncleBase uncleBaseAt
    cases ctx.config.baseReward with
    | ofHeight value => exact congrArg value uncleHeight
    | number _ => rfl
  obtain ⟨rewardMultiplier,multiplier,rewarded⟩ := Option.bind_eq_some_iff.mp rewarded
  obtain ⟨baseReward,found,rewarded⟩ := Option.bind_eq_some_iff.mp rewarded
  rw [free,if_neg Bool.false_ne_true,canonicalHeight,uncleHeight] at rewarded
  refine ⟨baseReward,rewardMultiplier,base.symm.trans found,multiplier,?_⟩
  have value_eq : some (baseReward * (8 - ((height : ℚ) - height)) / 8 * rewardMultiplier) = value :=
    Option.some.inj rewarded
  rw [← value_eq]
  ring_nf

/-- No uncle is called back with the reward of its delay, whatever block includes it. -/
theorem uncle_overpaid (numbered : Numbered chain ctx) (free : ctx.config.fixedUncleReward = false)
    (reached : (blockHeaderByHash ctx).ReachableBy (Faithfully chain) world) {block : EthRewardBlock} {value : Number}
    (called : ⟨false,.block block⟩ ∈ world.callbacks) (uncle : block.reward = some (.uncle value)) {height : ℕ}
    (at_height : block.height = some height) (including : ℕ) : ¬ UncleRewarded ctx.config height including value := by
  obtain ⟨baseReward,rewardMultiplier,base,multiplier,paid⟩ :=
    uncle_value numbered free (((reachable_kept reached).verdict called).uncle value uncle) at_height
  rintro ⟨otherBase,otherMultiplier,same,one,formula,less⟩
  cases base.symm.trans same
  cases multiplier.symm.trans one
  rw [← Option.some.inj (paid.symm.trans formula)] at less
  exact lt_irrefl _ less

section Runs

private theorem uncleChain_numbered : Numbered uncleChain poolBlock where
  blockAt height block found := by
    have numbers : ∀ height < 25, (uncleChain.blockAt height).all fun block =>
        parseEthBlockNumber block.number = some (height : ℚ) := by decide +kernel
    rcases Nat.lt_or_ge height 25 with told | above
    · have number := numbers height told
      rw [found] at number
      exact of_decide_eq_true number
    · have none : uncleReply height = .null := if_neg (Nat.not_lt.mpr above)
      simp only [uncleChain,none] at found
      cases found
  uncleAt nearby index including number own _ _ record of_hash := by
    have same : (uncleChain.blockOf poolBlock.uncleText).all fun own => own.number = "0x10" := by decide +kernel
    rw [of_hash] at same
    rw [show own.number = "0x10" from of_decide_eq_true same]
    cases record
    rfl

def uncleCalled (world : World) : Option (ℕ × ℚ) :=
  match world.callbacks with
  | [⟨false,.block block⟩] =>
    match block.height,block.reward with
    | some height,some (.uncle (some value)) => some (height,value)
    | _,_ => none
  | _ => none

theorem uncleCalled_block {height : ℕ} {value : ℚ} (called : uncleCalled world = some (height,value)) :
    ∃ block, ⟨false,.block block⟩ ∈ world.callbacks ∧ block.reward = some (.uncle (some value)) ∧
    block.height = some height := by
  unfold uncleCalled at called
  split at called
  next block one =>
    split at called
    next at_height reward =>
      cases called
      exact ⟨block,by rw [one]; exact List.mem_singleton_self _,reward,at_height⟩
    · cases called
  · cases called

theorem uncle_ran : ∃ world, ((blockHeaderByHash poolBlock).guarded repliesOf).run (started poolBlock)
    ((uncleRun uncleRecord).take 12) = some world ∧ uncleCalled world = some (16,2 * 10^18) := by
  refine Option.map_eq_some_iff.mp ?_
  decide +kernel

theorem uncle_overpaid_next : ∃ (world : World) (block : EthRewardBlock), ⟨false,.block block⟩ ∈ world.callbacks ∧
    block.reward = some (.uncle (some (2 * 10^18))) ∧ ¬ UncleRewarded createEthRpc 16 17 (some (2 * 10^18)) := by
  obtain ⟨world,ran,called⟩ := uncle_ran
  obtain ⟨block,member,reward,at_height⟩ := uncleCalled_block called
  exact ⟨world,block,member,reward,
    uncle_overpaid uncleChain_numbered rfl (reached_replies ran) member reward at_height 17⟩

/-- The pool's block at height 16 is an uncle of the block at height 17, whose reward is seven eighths of the base. -/
theorem uncle_full_reward : ∃ (world : World) (block : EthRewardBlock), (blockHeaderByHash poolBlock).ReachableBy
    (Faithfully uncleChain) world ∧
    ⟨false,.block block⟩ ∈ world.callbacks ∧ block.height = some 16 ∧ block.reward = some (.uncle (some (2 * 10^18))) ∧
      ¬ UncleRewarded createEthRpc 16 17 (some (2 * 10^18)) := by
  obtain ⟨world,ran,called⟩ := uncle_ran
  obtain ⟨block,member,reward,at_height⟩ := uncleCalled_block called
  refine ⟨world,block,reached_replies ran,member,at_height,reward,?_⟩
  rintro ⟨baseReward,rewardMultiplier,base,multiplier,formula,_⟩
  cases base
  cases multiplier
  have same := Option.some.inj formula
  norm_num at same

end Runs
end NodejsPool.Coins.Eth
