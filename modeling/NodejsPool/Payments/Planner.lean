import NodejsPool.Payments.Calls
import NodejsPool.Payments.Matching

/-! The payout planner: which balances are paid, in which batches, at which fee. -/
namespace NodejsPool.Payments
open Async

structure Config where
  walletMin : ℕ
  feeSlewAmount : ℕ
  feeSlewEnd : ℕ
  defaultPay : ℕ
  exchangeMin : ℕ
  feesForTXN : ℕ
  denom : ℕ
  safeWalletFee : ℕ
  maxPaymentTxns : ℤ
  feeAddress : String

variable (config : Config)

/-- The full fee up to `walletMin`, then a linear taper that ends at `feeSlewEnd`. -/
def calculateChargeFee (grossAmount : ℤ) : ℤ :=
  let fee : ℚ :=
    if grossAmount ≤ config.walletMin then config.feeSlewAmount
    else if grossAmount ≤ config.feeSlewEnd ∧ config.walletMin < config.feeSlewEnd then
      let feeValue : ℚ := config.feeSlewAmount / (config.feeSlewEnd - config.walletMin)
      config.feeSlewAmount - (grossAmount - config.walletMin) * feeValue
    else 0
  max 0 ⌊fee⌋

structure Payout where
  item : PayoutItem
  threshold : ℤ
  customThreshold : Bool

/-- The amount that can be paid: the fee address keeps a reserve, and the rest is cut
to the denomination. -/
def payableAmount (row : PayoutRow) : ℤ :=
  let available :=
    if row.pool_type = "fees" ∧ row.payment_address = config.feeAddress then
      if (config.feesForTXN : ℤ) + config.exchangeMin ≤ row.amount then row.amount - config.feesForTXN else 0
    else row.amount
  if config.denom = 0 then available else available - available.tmod config.denom

def buildPayoutItem (row : PayoutRow) : Option Payout :=
  let configuredThreshold := row.payout_threshold.getD 0
  let threshold := if configuredThreshold = 0 then (config.defaultPay : ℤ) else configuredThreshold
  let grossAmount := payableAmount config row
  if grossAmount ≤ 0 then none
  else
    let feeAmount := calculateChargeFee config grossAmount
    let netAmount := grossAmount - feeAmount
    if netAmount ≤ 0 then none
    else some ⟨⟨row.id,row.pool_type,row.payment_address,grossAmount,netAmount,feeAmount⟩,
      threshold,0 < configuredThreshold⟩

def shouldSkipPayoutRow (row : PayoutRow) (seenRecipients : List String) : Bool :=
  row.payment_id.isSome || row.payment_address ∈ seenRecipients

def integratedBatchFor (payout : Payout) : Option BatchPlan :=
  let grossAmount := payout.item.grossAmount
  if grossAmount < payout.threshold then none
  else if grossAmount < config.exchangeMin ∧ (payout.customThreshold = false ∨ grossAmount ≤ payout.threshold) then
    none
  else some ⟨.integrated,[payout.item],grossAmount,payout.item.netAmount,payout.item.feeAmount⟩

structure Planned where
  seenRecipients : List String := []
  bulkItems : List PayoutItem := []
  integratedBatches : List BatchPlan := []

def planRow (planned : Planned) (row : PayoutRow) : Planned :=
  if shouldSkipPayoutRow row planned.seenRecipients then planned
  else
    match buildPayoutItem config row with
    | none => planned
    | some payout =>
      if isIntegratedAddress row.payment_address then
        match integratedBatchFor config payout with
        | none => planned
        | some batch => {planned with
          integratedBatches := planned.integratedBatches ++ [batch]
          seenRecipients := planned.seenRecipients ++ [row.payment_address]}
      else if payout.threshold ≤ payout.item.grossAmount then {planned with
        bulkItems := planned.bulkItems ++ [payout.item]
        seenRecipients := planned.seenRecipients ++ [row.payment_address]}
      else planned

def bulkBatch (items : List PayoutItem) : BatchPlan where
  batchType := .bulk
  items := items
  totalGross := (items.map PayoutItem.grossAmount).sum
  totalNet := (items.map PayoutItem.netAmount).sum
  totalFee := (items.map PayoutItem.feeAmount).sum

/-- `slice(index, index + size)` from `index` to the end; `steps` bounds the loop. -/
def bulkBatches (size : ℕ) : ℕ → List PayoutItem → List BatchPlan
  | 0,_ => []
  | steps + 1,items =>
    if items.isEmpty then [] else bulkBatch (items.take size) :: bulkBatches size steps (items.drop size)

def planRows (rows : List PayoutRow) : List BatchPlan :=
  let planned := rows.foldl (planRow config) {}
  bulkBatches config.maxPaymentTxns.toNat planned.bulkItems.length planned.bulkItems ++ planned.integratedBatches

/-- `Number.isSafeInteger(maxPaymentTxns)` and positive. -/
def validMaxPaymentTxns : Bool := 0 < config.maxPaymentTxns && config.maxPaymentTxns < 2 ^ 53

def planBatches : Task (List BatchPlan) := do
  if !validMaxPaymentTxns config then
    fail (.thrown "payout.maxPaymentTxns must be a positive safe integer")
  else
    let rows ← ask (.selectPayoutRows config.walletMin)
    return planRows config rows

inductive Preflight where
  | ok
  | failed (reason : String)

/-- The soft gate before the submit boundary: enough unlocked money for the batch
and the wallet's fee. -/
def preflightWalletBalance (totalNet : ℤ) : Task Preflight := do
  let reply ← callWallet .getbalance
  match reply.result with
  | none => return .failed s!"wallet getbalance failed: {reply.describeWalletReply}"
  | some result =>
    if totalNet < 0 then return .failed "invalid batch payout total"
    else
      match normalizeInteger (result.field "unlocked_balance") with
      | none => return .failed "wallet preflight insufficient balance"
      | some unlocked =>
        if unlocked < totalNet + config.safeWalletFee then return .failed "wallet preflight insufficient balance"
        else return .ok

end NodejsPool.Payments
