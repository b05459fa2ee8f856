import Mathlib.Data.List.Dedup
import NodejsPool.Async.Program
import NodejsPool.Payments.Json
import NodejsPool.Pool.BlockTemplates

/-! The replies of an ETH-family daemon and the rewards that are computed from them. Amounts are
exact; one that is not a finite number is none. -/
namespace NodejsPool.Coins.Eth
open Async Payments
open Pool.Templates (Number parseInt)

section Records

def text (value : Json) (key : String) : Option String :=
  match value.field key with
  | some (.str text) => some text
  | _ => none

def list (value : Json) (key : String) : Option (List Json) :=
  match value.field key with
  | some (.arr values) => some values
  | _ => none

def rpcResultRecord (body : Json) : Option Json := body.record "result"

def amountText (text : String) : Bool := (readNumber text).any fun amount => 0 ≤ amount

end Records

structure Transaction where
  hash : String
  gasPrice : String

/-- The value of `block.reward`, by what it is computed for. -/
inductive Reward where
  | block (value : Number)
  | uncle (value : Number)

structure EthRewardBlock where
  hash : String
  number : String
  gasUsed : String
  transactions : List Transaction
  uncles : List Json
  baseFeePerGas : Option String
  height : Option ℕ
  reward : Option Reward
  confirmations : Option ℤ

def normalizeTransaction (raw : Json) : Option Transaction := do
  let hash ← text raw "hash"
  let gasPrice ← text raw "gasPrice"
  guard (amountText gasPrice)
  some ⟨hash,gasPrice⟩

def normalizeEthRewardBlock (value : Option Json) (height : Option ℕ) : Option EthRewardBlock := do
  let block ← value
  let rawTransactions ← list block "transactions"
  let rawUncles ← list block "uncles"
  let number ← text block "number"
  let hash ← text block "hash"
  let gasUsed := text block "gasUsed"
  guard (rawTransactions.isEmpty || gasUsed.any amountText)
  let transactions ← rawTransactions.mapM normalizeTransaction
  some
    { hash := hash
      number := number
      gasUsed := gasUsed.getD "0x0"
      transactions := transactions
      uncles := rawUncles
      baseFeePerGas := text block "baseFeePerGas"
      height := height
      reward := none
      confirmations := none }

def parseEthBlockNumber (number : String) : Number := parseInt 16 number

def safeHeight (number : Number) : Option ℕ :=
  (number.filter fun height => height.den = 1 && 0 ≤ height && height < 2^53).map fun height => height.num.toNat

/-- `config.baseReward`: a number, where it is finite, or a function of the height. -/
inductive BaseReward where
  | number (value : Option ℚ)
  | ofHeight (value : Number → Option ℚ)

structure RpcSettings where
  rewardMultiplier : Option ℚ
  baseReward : BaseReward
  uncleBaseReward : Option ℚ
  fixedUncleReward : Bool

def getEthBaseReward (config : RpcSettings) (block : EthRewardBlock) : Option ℚ :=
  match config.baseReward with
  | .number value => value
  | .ofHeight value => value (parseEthBlockNumber block.number)

structure Receipt where
  gasUsed : String
  transactionHash : String

/-- `isEthReceipt`, with the fields that it checks. -/
def ethReceipt (value : Json) : Option Receipt := do
  let result ← value.record "result"
  let gasUsed ← text result "gasUsed"
  let transactionHash ← text result "transactionHash"
  guard (trim gasUsed ≠ "" ∧ amountText gasUsed = true)
  some ⟨gasUsed,transactionHash⟩

/-- `parseInt(text)`. -/
def parsePrice (text : String) : Number :=
  match text.toList.dropWhile Char.isWhitespace with
  | '0' :: 'x' :: _ => parseInt 16 text
  | '0' :: 'X' :: _ => parseInt 16 text
  | _ => parseInt 10 text

def ETH_MULTIPLIER : ℚ := 10^18

def gasPrice (transactions : List Transaction) (hash : String) : Number :=
  (transactions.reverse.find? fun transaction => transaction.hash = hash).bind fun transaction =>
    parsePrice transaction.gasPrice

def collectedFee (block : EthRewardBlock) (receipts : List Receipt) : Number :=
  receipts.foldl (fun fee receipt => do
    let fee ← fee
    if receipt.gasUsed = "" then some fee
    else some (fee + (← parsePrice receipt.gasUsed) * (← gasPrice block.transactions receipt.transactionHash))) (some 0)

def calcEthReward (block : EthRewardBlock) (receipts : List Receipt) (baseReward : ℚ) : Number := do
  let fee ← collectedFee block receipts
  let burned ← match block.baseFeePerGas.filter (· ≠ "") with
    | some baseFeePerGas => do some ((← parsePrice baseFeePerGas) * (← parsePrice block.gasUsed))
    | none => some 0
  some ((baseReward + baseReward * (block.uncles.length / 32)) * ETH_MULTIPLIER + (fee - burned))

def uncleBase (config : RpcSettings) (uncleNumber : String) : Option ℚ :=
  match config.baseReward with
  | .ofHeight value => value (parseEthBlockNumber uncleNumber)
  | .number _ => config.uncleBaseReward

/-- `null` is none, `NaN` is some none. -/
def createEthUncleReward (config : RpcSettings) (canonicalNumber uncleNumber : String) : Option Number := do
  let rewardMultiplier ← config.rewardMultiplier
  let baseReward ← uncleBase config uncleNumber
  if config.fixedUncleReward then some (some (baseReward / 32 * rewardMultiplier))
  else some (do
    let canonical ← parseEthBlockNumber canonicalNumber
    let uncle ← parseEthBlockNumber uncleNumber
    some (baseReward * (8 - (canonical - uncle)) / 8 * rewardMultiplier))

inductive Request where
  | blockByHash (hash : String)
  | blockByNumber (height : ℕ)
  | receipts (hashes : List String)
  | uncle (height index : ℕ)

inductive Body where
  | reply (body : Json)
  | error (message : String)
  | block (block : EthRewardBlock)

structure Result where
  err : Bool
  body : Body

/-- `pending.delete` of each hash. -/
def deleteAll : List String → List String → Option (List String)
  | [],pending => some pending
  | hash::hashes,pending => if hash ∈ pending then deleteAll hashes (pending.erase hash) else none

def readReceipts (hashes : List String) (body : Json) : Option (List Receipt) :=
  match body with
  | .arr values => do
    guard (values.length = hashes.length)
    let receipts ← values.mapM ethReceipt
    let pending ← deleteAll (receipts.map Receipt.transactionHash) hashes.dedup
    guard pending.isEmpty
    some receipts
  | _ => none

def EthRewardBlock.rewarded (block : EthRewardBlock) (receipts : List Receipt) (baseReward : ℚ) : EthRewardBlock :=
  { block with reward := some (.block (calcEthReward block receipts baseReward)) }

def onReceipts (block : EthRewardBlock) (baseReward : ℚ) (body : Json) : Result :=
  match readReceipts (block.transactions.map Transaction.hash) body with
  | some receipts => ⟨false,.block (block.rewarded receipts baseReward)⟩
  | none => ⟨true,.reply body⟩

def loadEthBlockReward {S : Signature} (rpc : Request → Program S Json) (config : RpcSettings)
    (block : EthRewardBlock) :
    Program S Result :=
  match (getEthBaseReward config block).filter fun baseReward => 0 < baseReward with
  | none => .done ⟨true,.error "invalid ETH-family base reward"⟩
  | some baseReward =>
    if block.transactions.isEmpty then .done ⟨false,.block (block.rewarded [] baseReward)⟩
    else do
      let body ← rpc (.receipts (block.transactions.map Transaction.hash))
      pure (onReceipts block baseReward body)

theorem safeHeight_eq {number : Number} {height : ℕ} (safe : safeHeight number = some height) :
    number = some (height : ℚ) := by
  obtain ⟨value,kept,same⟩ := Option.map_eq_some_iff.mp safe
  obtain ⟨rfl,checked⟩ := Option.filter_eq_some_iff.mp kept
  simp only [Bool.and_eq_true,decide_eq_true_eq] at checked
  obtain ⟨⟨whole,positive⟩,_⟩ := checked
  have num : ((value.num.toNat : ℕ) : ℤ) = value.num := Int.toNat_of_nonneg (Rat.num_nonneg.mpr positive)
  have cast : ((value.num : ℤ) : ℚ) = value := Rat.coe_int_num_of_den_eq_one whole
  rw [← same,← cast,← num]
  rfl

private theorem deleteAll_perm {hashes pending rest : List String} (deleted : deleteAll hashes pending = some rest) :
    pending.Perm (hashes ++ rest) := by
  induction hashes generalizing pending with
  | nil =>
    cases deleted
    exact .refl _
  | cons hash hashes ih =>
    obtain ⟨member,deleted⟩ := Option.ite_none_right_eq_some.mp deleted
    exact (List.perm_cons_erase member).trans ((ih deleted).cons hash)

theorem readReceipts_once {hashes : List String} {body : Json} {receipts : List Receipt}
    (read : readReceipts hashes body = some receipts) :
    ∀ hash ∈ hashes, (receipts.map Receipt.transactionHash).count hash = 1 := by
  intro hash member
  unfold readReceipts at read
  split at read
  · obtain ⟨_,_,read⟩ := Option.bind_eq_some_iff.mp read
    obtain ⟨found,_,read⟩ := Option.bind_eq_some_iff.mp read
    obtain ⟨pending,deleted,read⟩ := Option.bind_eq_some_iff.mp read
    obtain ⟨_,checked,same⟩ := Option.bind_eq_some_iff.mp read
    have empty : pending = [] := List.isEmpty_iff.mp ((Option.guard_eq_some' _).mp checked)
    cases same
    have perm := deleteAll_perm deleted
    rw [empty,List.append_nil] at perm
    rw [← perm.count_eq]
    exact List.count_eq_one_of_mem (List.nodup_dedup hashes) (List.mem_dedup.mpr member)
  · cases read

end NodejsPool.Coins.Eth
