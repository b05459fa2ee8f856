import NodejsPool.Coins.EthBlocks

/-! What a lookup by hash tells of a block of a static chain, whatever of its requests fail. -/
namespace NodejsPool.Coins.Eth
open Async Payments
open Program (Returns)
open Pool.Templates (Number)

structure Chain where
  blockOf : String → Option EthRewardBlock
  blockAt : ℕ → Option EthRewardBlock
  uncleAt : ℕ → ℕ → Option String

def Faithful (chain : Chain) : Request → Json → Prop
  | .blockByHash hash,body => ∀ block, normalizeEthRewardBlock (rpcResultRecord body) none = some block →
    chain.blockOf hash = some block
  | .blockByNumber height,body => ∀ block, normalizeEthRewardBlock (rpcResultRecord body) (some height) = some block →
    chain.blockAt height = some block
  | .receipts _,_ => True
  | .uncle height index,body => ∀ uncle number, rpcResultRecord body = some uncle → text uncle "number" = some number →
    chain.uncleAt height index = some number

def FaithfulHeader (chain : Chain) (height : ℤ) (result : Result) : Prop :=
  result.err = false → ∃ canonical found, 0 ≤ height ∧ chain.blockAt height.toNat = some canonical ∧
    result.body = .block found ∧ found.hash = canonical.hash ∧ found.number = canonical.number ∧
    found.uncles = canonical.uncles

def daemonContract (chain : Chain) : Contract Daemon where
  allowed _ _ := True
  expected _ request
    | .ok body => Faithful chain request body
    | .error _ => True

def lookupContract (chain : Chain) : Contract Lookups where
  allowed _ _ := True
  expected _
    | .rpc request,.ok body => Faithful chain request body
    | .header height,.ok result => FaithfulHeader chain height result
    | _,.error _ => True

section Judgements

variable (chain : Chain) (ctx : Context)

def Canonical (block : EthRewardBlock) : Prop :=
  ∃ height own canonical, block.height = some height ∧ chain.blockOf ctx.uncleText = some own ∧
    chain.blockAt height = some canonical ∧ own.hash = block.hash ∧ canonical.hash = block.hash

def Receipted (history : History Lookups) (block : EthRewardBlock) : Prop :=
  block.transactions ≠ [] → ∃ body receipts,
    ⟨Call.rpc (.receipts (block.transactions.map Transaction.hash)),.ok body⟩ ∈ history ∧
    readReceipts (block.transactions.map Transaction.hash) body = some receipts ∧
    ∀ transaction ∈ block.transactions, (receipts.map Receipt.transactionHash).count transaction.hash = 1

def UncleOf (block : EthRewardBlock) (value : Number) : Prop :=
  ∃ (height nearby : ℕ) (canonical including : EthRewardBlock) (index : ℕ)
    (uncleNumber : String), block.height = some height ∧
    (∃ own, chain.blockOf ctx.uncleText = some own ∧ parseEthBlockNumber own.number = some (height : ℚ)) ∧
    chain.blockAt height = some canonical ∧ (nearby : ℤ) ∈ nearbyHeights height ∧
    chain.blockAt nearby = some including ∧ uncleIndex ctx including.uncles = some index ∧
    chain.uncleAt nearby index = some uncleNumber ∧
    createEthUncleReward ctx.config canonical.number uncleNumber = some value

def Unlisted (block : EthRewardBlock) : Prop :=
  ∀ (height nearby : ℕ) other, block.height = some height → (height : ℤ) - 7 ≤ nearby → (nearby : ℤ) ≤ height + 8 →
    chain.blockAt nearby = some other → uncleIndex ctx other.uncles = none

def Readable (body : Json) : Prop :=
  ∃ uncle uncleNumber, rpcResultRecord body = some uncle ∧ text uncle "number" = some uncleNumber ∧
    (uncleBase ctx.config uncleNumber).isSome = true ∧ ctx.config.rewardMultiplier.isSome = true

def Failed : Event Lookups → Prop
  | ⟨.rpc (.blockByHash _),.ok body⟩ => normalizeEthRewardBlock (rpcResultRecord body) none = none
  | ⟨.rpc (.uncle _ _),.ok body⟩ => ¬ Readable ctx body
  | ⟨.rpc (.receipts hashes),.ok body⟩ => readReceipts hashes body = none
  | ⟨.header _,.ok result⟩ => result.err = true
  | _ => False

def scanned (history : History Lookups) : History Lookups := history.take (history.length - 2)

/-- No lookup of the scan fails at a block that lists the hash: its record of the uncle is readable,
and where the block of the hash is not the pool's own the listing block is found. -/
def Answered : Event Lookups → Prop
  | ⟨.rpc (.uncle _ _),.ok body⟩ => Readable ctx body
  | ⟨.header height,.ok result⟩ => ctx.isOurBlock = true ∨ result.err = false ∨ height < 0 ∨
    ∀ other, chain.blockAt height.toNat = some other → uncleIndex ctx other.uncles = none
  | _ => True

structure Verdict (history : History Lookups) (block : EthRewardBlock) : Prop where
  full : ∀ value, block.reward = some (.block value) → Canonical chain ctx block ∧ Receipted history block
  uncle : ∀ value, block.reward = some (.uncle value) → UncleOf chain ctx block value
  orphan : block.confirmations = some (-1) → (∀ event ∈ scanned history, Answered chain ctx event) →
    block.reward = none ∧ Unlisted chain ctx block ∧ (ctx.isOurBlock = true → ∀ event ∈ history, ¬ Failed ctx event)

def Judged (history : History Lookups) (result : Result) : Prop :=
  ∀ block, result = ⟨false,.block block⟩ → Verdict chain ctx history block

end Judgements

section Lookups

variable {chain : Chain} {ctx : Context} {history : History Lookups}
  {good : History Lookups → Result → Prop} {height : ℤ} {body : Json} {nearby : ℕ} {canonical : EthRewardBlock}
    {first second : Event Lookups}

theorem returns_ask {request : Request} {f : Json → Program Lookups Result}
    (next : ∀ body, Faithful chain request body →
      (f body).Meets (lookupContract chain) (⟨.rpc request,.ok body⟩::history) (Returns good)) :
    (ask request >>= f).Meets (lookupContract chain) history (Returns good) :=
  Program.returns_await trivial next

theorem returns_header {f : Result → Program Lookups Result} (next : ∀ result, FaithfulHeader chain height result →
      (f result).Meets (lookupContract chain) (⟨.header height,.ok result⟩::history) (Returns good)) :
    (getPortBlockHeaderByID height >>= f).Meets (lookupContract chain) history (Returns good) :=
  Program.returns_await trivial next

theorem judged_err {body : Body} : Judged chain ctx history ⟨true,body⟩ := by
  intro block same
  cases same

theorem normalize_fields {value : Option Json} {height : Option ℕ}
    (normalized : normalizeEthRewardBlock value height = some block) :
    block.height = height ∧ block.reward = none ∧ block.confirmations = none := by
  simp only [normalizeEthRewardBlock,Option.bind_eq_bind,Option.bind_eq_some_iff] at normalized
  obtain ⟨_,_,_,_,_,_,_,_,_,_,_,_,_,_,same⟩ := normalized
  cases same
  exact ⟨rfl,rfl,rfl⟩

theorem getBlockHeaderById_meets (height : ℤ) (history : History Daemon) :
    (getBlockHeaderById ctx height).Meets (daemonContract chain) history
      (Returns fun _ result => FaithfulHeader chain height result) := by
  have failed (body : Body) : FaithfulHeader chain height ⟨true,body⟩ := by
    intro same
    cases same
  unfold getBlockHeaderById
  split
  · exact failed _
  next safe =>
    refine Program.returns_await trivial fun body faithful => ?_
    cases normalized : normalizeEthRewardBlock (rpcResultRecord body) (some height.toNat) with
    | none => exact failed _
    | some block =>
      have rewarded (receipts : List Receipt) (baseReward : ℚ) :
          FaithfulHeader chain height ⟨false,.block (block.rewarded receipts baseReward)⟩ := by
        intro _
        exact ⟨block,_,by omega,faithful block normalized,rfl,rfl,rfl,rfl⟩
      dsimp only
      unfold loadEthBlockReward
      split
      · exact failed _
      · split
        · exact rewarded _ _
        · refine Program.returns_await trivial fun reply _ => ?_
          show FaithfulHeader chain height (onReceipts _ _ reply)
          unfold onReceipts
          split
          · exact rewarded _ _
          · exact failed _

variable {block : EthRewardBlock}

theorem loadEthBlockReward_judged (canonical : Canonical chain ctx block) (plain : block.confirmations = none) :
    (loadEthBlockReward ask ctx.config block).Meets (lookupContract chain) history (Returns (Judged chain ctx)) := by
  have verdict {after : History Lookups} {receipts : List Receipt} {baseReward : ℚ}
    (receipted : Receipted after block) :
      Judged chain ctx after ⟨false,.block (block.rewarded receipts baseReward)⟩ := by
    intro other same
    cases same
    refine ⟨fun value _ => ⟨canonical,receipted⟩,nofun,?_⟩
    intro marked
    rw [show (block.rewarded receipts baseReward).confirmations = block.confirmations from rfl,plain] at marked
    cases marked
  unfold loadEthBlockReward
  split
  · exact judged_err
  · split
    next none =>
      apply verdict
      intro some
      exact absurd (List.isEmpty_iff.mp none) some
    · refine returns_ask fun body _ => ?_
      show Judged chain ctx _ (onReceipts _ _ body)
      unfold onReceipts
      split
      next receipts read =>
        apply verdict
        intro _
        refine ⟨body,receipts,List.mem_cons_self,read,?_⟩
        intro transaction member
        exact readReceipts_once read transaction.hash (List.mem_map_of_mem member)
      · exact judged_err

def Seen (chain : Chain) (ctx : Context) (scans : History Lookups) (height : ℤ) : Prop :=
  (∃ result, ⟨Call.header height,.ok result⟩ ∈ scans ∧ result.err = true) ∨
  (0 ≤ height ∧ ∃ other, chain.blockAt height.toNat = some other ∧ (uncleIndex ctx other.uncles = none ∨
    ∃ nearby index body, ⟨Call.rpc (.uncle nearby index),.ok body⟩ ∈ scans ∧ ¬ Readable ctx body))

structure Scans (chain : Chain) (ctx : Context) (scans : History Lookups) (left : List ℤ) : Prop where
  seen : ∀ height ∈ left, Seen chain ctx scans height
  kinds : ∀ event ∈ scans, (∃ height result, event = ⟨.header height,.ok result⟩) ∨
    ∃ nearby index body, event = ⟨.rpc (.uncle nearby index),.ok body⟩
  own : ctx.isOurBlock = true → ∀ height result, ⟨Call.header height,.ok result⟩ ∈ scans → result.err = false

theorem Seen.mono {more : History Lookups} (seen : Seen chain ctx scans height) (sub : scans ⊆ more) :
    Seen chain ctx more height := by
  rcases seen with ⟨result,member,err⟩ | ⟨positive,other,at_height,none | ⟨nearby,index,body,member,unreadable⟩⟩
  · exact .inl ⟨result,sub member,err⟩
  · exact .inr ⟨positive,other,at_height,.inl none⟩
  · exact .inr ⟨positive,other,at_height,.inr ⟨nearby,index,body,sub member,unreadable⟩⟩

variable {scans : History Lookups} {left : List ℤ}

theorem Scans.header (scan : Scans chain ctx scans left) {result : Result}
    (own : ctx.isOurBlock = true → result.err = false) : Scans chain ctx (⟨.header height,.ok result⟩::scans) left where
  seen other member := (scan.seen other member).mono (List.subset_cons_self _ _)
  kinds event member := by
    rcases List.mem_cons.mp member with rfl | before
    · exact .inl ⟨height,result,rfl⟩
    · exact scan.kinds event before
  own ours other value member := by
    rcases List.mem_cons.mp member with same | before
    · cases same
      exact own ours
    · exact scan.own ours other value before

theorem Scans.uncle (scan : Scans chain ctx scans left) {index : ℕ} :
    Scans chain ctx (⟨.rpc (.uncle nearby index),.ok body⟩::scans) left where
  seen other member := (scan.seen other member).mono (List.subset_cons_self _ _)
  kinds event member := by
    rcases List.mem_cons.mp member with rfl | before
    · exact .inr ⟨nearby,index,body,rfl⟩
    · exact scan.kinds event before
  own ours other value member := by
    rcases List.mem_cons.mp member with same | before
    · cases same
    · exact scan.own ours other value before

theorem Scans.leave (scan : Scans chain ctx scans left) (seen : Seen chain ctx scans height) :
    Scans chain ctx scans (left ++ [height]) where
  seen other member := by
    rcases List.mem_append.mp member with before | last
    · exact scan.seen other before
    · obtain rfl := List.mem_singleton.mp last
      exact seen
  kinds := scan.kinds
  own := scan.own

private theorem mem_nearbyHeights {height : ℕ} (low : (height : ℤ) - 7 ≤ nearby) (high : (nearby : ℤ) ≤ height + 8) :
    (nearby : ℤ) ∈ nearbyHeights height := by
  have index : nearby + 7 - height < 16 := by omega
  refine List.mem_map.mpr ⟨nearby + 7 - height,List.mem_range.mpr index,?_⟩
  omega

theorem onUncle_readable (canonical : EthRewardBlock) (readable : Readable ctx body) :
    (onUncle ctx canonical body).isSome = true := by
  obtain ⟨uncle,uncleNumber,record,number,base,multiplier⟩ := readable
  obtain ⟨baseReward,base⟩ := Option.isSome_iff_exists.mp base
  obtain ⟨rewardMultiplier,multiplier⟩ := Option.isSome_iff_exists.mp multiplier
  simp only [onUncle,createEthUncleReward,record,number,base,multiplier,Option.bind_eq_bind,Option.bind_some]
  split <;> rfl

structure OffChain (chain : Chain) (ctx : Context) (block canonical : EthRewardBlock) (height : ℕ) : Prop where
  own : ∃ own, chain.blockOf ctx.uncleText = some own ∧ parseEthBlockNumber own.number = some (height : ℚ)
  at_height : block.height = some height
  reward : block.reward = none
  confirmations : block.confirmations = none
  number : ∃ found, chain.blockAt height = some found ∧ canonical.number = found.number

private theorem orphan_judged {height : ℕ} (off : OffChain chain ctx block canonical height)
    (scan : Scans chain ctx scans (nearbyHeights height)) (plain : ¬ Failed ctx first ∧ ¬ Failed ctx second) :
    Judged chain ctx (scans ++ [first,second]) ⟨false,.block block.orphan⟩ := by
  intro other same
  cases same
  refine ⟨nofun,nofun,fun _ answered => ?_⟩
  have taken : scanned (scans ++ [first,second]) = scans := by
    unfold scanned
    rw [List.length_append]
    exact List.take_left
  rw [taken] at answered
  refine ⟨rfl,?_,?_⟩
  · intro own nearby including at_own low high at_nearby
    have same : own = height := Option.some.inj (at_own.symm.trans off.at_height)
    subst same
    rcases scan.seen nearby (mem_nearbyHeights low high) with ⟨result,member,err⟩ | ⟨_,found,at_height,
      none | ⟨_,_,body,member,unreadable⟩⟩
    · rcases answered _ member with ours | right | negative | unlisted
      · rw [scan.own ours _ _ member] at err
        cases err
      · rw [right] at err
        cases err
      · omega
      · exact unlisted including at_nearby
    · rw [Int.toNat_natCast,at_nearby] at at_height
      cases at_height
      exact none
    · exact absurd (answered _ member) unreadable
  · intro ours event member
    rcases List.mem_append.mp member with scanned | base
    · rcases scan.kinds event scanned with ⟨nearby,result,rfl⟩ | ⟨nearby,index,body,rfl⟩
      · intro failed
        exact Bool.false_ne_true ((scan.own ours nearby result scanned).symm.trans failed)
      · exact fun failed => failed (answered _ scanned)
    · rcases List.mem_cons.mp base with rfl | last
      · exact plain.1
      · obtain rfl := List.mem_singleton.mp last
        exact plain.2

private theorem uncle_judged {found : EthRewardBlock} {height index : ℕ} {uncleReward : Number}
    (off : OffChain chain ctx block canonical height) (window : (nearby : ℤ) ∈ nearbyHeights height)
    (at_nearby : chain.blockAt nearby = some found) (listed : uncleIndex ctx found.uncles = some index)
    (faithful : Faithful chain (.uncle nearby index) body) (rewarded : onUncle ctx canonical body = some uncleReward) :
    Judged chain ctx history ⟨false,.block { block with reward := some (.uncle uncleReward) }⟩ := by
  intro other same
  cases same
  refine ⟨nofun,?_,?_⟩
  · intro value same
    cases same
    obtain ⟨uncle,record,rewarded⟩ := Option.bind_eq_some_iff.mp rewarded
    obtain ⟨uncleNumber,number,rewarded⟩ := Option.bind_eq_some_iff.mp rewarded
    obtain ⟨own,at_own,same⟩ := off.number
    rw [same] at rewarded
    exact ⟨height,nearby,own,found,index,uncleNumber,off.at_height,off.own,at_own,window,at_nearby,listed,
      faithful uncle uncleNumber record number,rewarded⟩
  · intro marked
    rw [show ({ block with reward := some (.uncle uncleReward) } : EthRewardBlock).confirmations =
      block.confirmations from rfl,off.confirmations] at marked
    cases marked

private theorem scanNearbyHeight_judged {height : ℕ} (body : Json) (off : OffChain chain ctx block canonical height)
    (plain : ¬ Failed ctx first ∧ ¬ Failed ctx second) (rest : List ℤ) (scan : Scans chain ctx scans left)
    (split : nearbyHeights height = left ++ rest) :
    (scanNearbyHeight ctx block canonical body rest).Meets (lookupContract chain) (scans ++ [first,second])
      (Returns (Judged chain ctx)) := by
  induction rest generalizing scans left with
  | nil =>
    rw [List.append_nil] at split
    rw [← split] at scan
    exact orphan_judged off scan plain
  | cons nearby rest ih =>
    have split : nearbyHeights height = left ++ [nearby] ++ rest := by rw [split,List.append_cons]
    refine returns_header fun result faithful => ?_
    obtain ⟨err,answer⟩ := result
    cases err with
    | true =>
      show Program.Meets _ (if ctx.isOurBlock = true then _ else _) _ _
      split
      · exact judged_err
      next foreign =>
        have header : Scans chain ctx (⟨.header nearby,.ok ⟨true,answer⟩⟩::scans) left :=
          scan.header fun ours => absurd ours foreign
        exact ih (header.leave (.inl ⟨⟨true,answer⟩,List.mem_cons_self,rfl⟩)) split
    | false =>
      obtain ⟨own,found,positive,at_nearby,same,_,_,uncles⟩ := faithful rfl
      cases same
      have header : Scans chain ctx (⟨.header nearby,.ok ⟨false,.block found⟩⟩::scans) left := scan.header fun _ => rfl
      dsimp only
      rw [uncles]
      cases listed : uncleIndex ctx own.uncles with
      | none =>
        exact ih (header.leave (.inr ⟨positive,own,at_nearby,.inl listed⟩)) split
      | some index =>
        refine returns_ask fun bodyUncle faithful => ?_
        cases rewarded : onUncle ctx canonical bodyUncle with
        | none =>
          have unreadable : ¬ Readable ctx bodyUncle := by
            intro readable
            have some := onUncle_readable canonical readable
            rw [rewarded] at some
            cases some
          refine ih (header.uncle.leave (.inr ⟨positive,own,at_nearby,.inr ?_⟩)) split
          exact ⟨_,_,bodyUncle,List.mem_cons_self,unreadable⟩
        | some uncleReward =>
          have whole : ((nearby.toNat : ℕ) : ℤ) = nearby := Int.toNat_of_nonneg positive
          refine uncle_judged off ?_ at_nearby listed faithful rewarded
          rw [whole,split]
          simp

theorem getAnyBlockHeaderByHash_judged (chain : Chain) (ctx : Context) :
    (getAnyBlockHeaderByHash ctx).Meets (lookupContract chain) [] (Returns (Judged chain ctx)) := by
  refine returns_ask fun body faithful => ?_
  cases normalized : normalizeEthRewardBlock (rpcResultRecord body) none with
  | none => exact judged_err
  | some block =>
    dsimp only
    cases safe : safeHeight (parseEthBlockNumber block.number) with
    | none => exact judged_err
    | some blockHeight =>
      refine returns_header fun result found => ?_
      obtain ⟨_,reward,confirmations⟩ := normalize_fields normalized
      obtain ⟨err,answer⟩ := result
      cases err with
      | true => exact judged_err
      | false =>
        obtain ⟨own,canonical,_,at_height,same,hash,number,_⟩ := found rfl
        cases same
        rw [Int.toNat_natCast] at at_height
        show Program.Meets _ (if block.hash = canonical.hash then _ else _) _ _
        split
        next same =>
          refine loadEthBlockReward_judged ?_ confirmations
          exact ⟨blockHeight,block,own,rfl,faithful block normalized,at_height,rfl,(same.trans hash).symm⟩
        · have off : OffChain chain ctx { block with height := some blockHeight } canonical blockHeight :=
            ⟨⟨block,faithful block normalized,safeHeight_eq safe⟩,rfl,reward,confirmations,own,at_height,number⟩
          have nothing : Scans chain ctx [] [] := ⟨nofun,nofun,nofun⟩
          have first : ¬ Failed ctx ⟨.rpc (.blockByHash ctx.uncleText),.ok body⟩ := by
            intro failed
            rw [show normalizeEthRewardBlock (rpcResultRecord body) none = none from failed] at normalized
            cases normalized
          have second : ¬ Failed ctx ⟨.header blockHeight,.ok ⟨false,.block canonical⟩⟩ := Bool.false_ne_true
          exact scanNearbyHeight_judged body off ⟨second,first⟩ _ nothing rfl

end Lookups
end NodejsPool.Coins.Eth
