import Mathlib.Data.Int.ConditionallyCompleteOrder
import NodejsPool.Payments.Planning

/-! Which balances a payout plan pays, at which amounts and fees, and in which batches. -/
namespace NodejsPool.Payments
open List

variable (config : Config)

section Fees

variable {grossAmount : ℤ}

theorem chargeFee_low (low : grossAmount ≤ config.walletMin) :
    calculateChargeFee config grossAmount = config.feeSlewAmount := by
  unfold calculateChargeFee
  rw [if_pos low]
  simp

def taperedFee (grossAmount : ℤ) : ℚ :=
  config.feeSlewAmount - (grossAmount - config.walletMin) *
    (config.feeSlewAmount / (config.feeSlewEnd - config.walletMin))

theorem chargeFee_taper (high : config.walletMin < grossAmount) (low : grossAmount ≤ config.feeSlewEnd) :
    calculateChargeFee config grossAmount = max 0 ⌊taperedFee config grossAmount⌋ := by
  have ends : config.walletMin < config.feeSlewEnd := by omega
  unfold calculateChargeFee
  rw [if_neg (not_le.mpr high),if_pos ⟨low,ends⟩]
  rfl

theorem chargeFee_high (high : config.walletMin < grossAmount) (past : config.feeSlewEnd < grossAmount) :
    calculateChargeFee config grossAmount = 0 := by
  unfold calculateChargeFee
  rw [if_neg (not_le.mpr high),if_neg (fun taper => absurd taper.1 (not_le.mpr past))]
  simp

theorem chargeFee_nonneg (grossAmount : ℤ) : 0 ≤ calculateChargeFee config grossAmount := le_max_left _ _

theorem tapered_antitone {less more : ℤ} (le : less ≤ more) (ends : config.walletMin < config.feeSlewEnd) :
    taperedFee config more ≤ taperedFee config less := by
  have width : (0 : ℚ) < config.feeSlewEnd - config.walletMin := sub_pos.mpr (by exact_mod_cast ends)
  have slope : (0 : ℚ) ≤ config.feeSlewAmount / (config.feeSlewEnd - config.walletMin) :=
    div_nonneg (Nat.cast_nonneg _) width.le
  have scaled := mul_le_mul_of_nonneg_right (sub_le_sub_right (Int.cast_le (R := ℚ).mpr le)
    (config.walletMin : ℚ)) slope
  unfold taperedFee
  linarith

private theorem tapered_start : taperedFee config config.walletMin = config.feeSlewAmount := by
  simp [taperedFee]

theorem chargeFee_le (grossAmount : ℤ) : calculateChargeFee config grossAmount ≤ config.feeSlewAmount := by
  rcases le_or_gt grossAmount config.walletMin with low | high
  · exact (chargeFee_low config low).le
  · rcases le_or_gt grossAmount config.feeSlewEnd with taper | past
    · rw [chargeFee_taper config high taper]
      have below := tapered_antitone config high.le (by omega)
      rw [tapered_start] at below
      refine max_le (Int.natCast_nonneg _) (Int.floor_le_iff.mpr ?_)
      have cast : ((config.feeSlewAmount : ℤ) : ℚ) = config.feeSlewAmount := Int.cast_natCast _
      rw [cast]
      linarith
    · rw [chargeFee_high config high past]
      exact Int.natCast_nonneg _

theorem chargeFee_antitone : Antitone (calculateChargeFee config) := by
  intro less more le
  rcases le_or_gt less config.walletMin with low | high
  · rw [chargeFee_low config low]
    exact chargeFee_le config more
  · have higher : config.walletMin < more := high.trans_le le
    rcases le_or_gt more config.feeSlewEnd with taper | past
    · rw [chargeFee_taper config high (le.trans taper),chargeFee_taper config higher taper]
      exact max_le_max le_rfl (Int.floor_le_floor (tapered_antitone config le (by omega)))
    · rw [chargeFee_high config higher past]
      exact chargeFee_nonneg config less

end Fees

section Amounts

def availableAmount (row : PayoutRow) : ℤ :=
  if row.pool_type = "fees" ∧ row.payment_address = config.feeAddress then row.amount - config.feesForTXN
    else row.amount

def payoutUnit : ℤ := if config.denom = 0 then 1 else config.denom

theorem payoutUnit_pos : 0 < payoutUnit config := by
  unfold payoutUnit
  split
  · decide
  · omega

def ReserveMet (row : PayoutRow) : Prop :=
  row.pool_type = "fees" ∧ row.payment_address = config.feeAddress →
    (config.feesForTXN : ℤ) + config.exchangeMin ≤ row.amount

theorem payable_available {row : PayoutRow} (pays : 0 < payableAmount config row) :
    ReserveMet config row ∧ 0 < availableAmount config row ∧ payableAmount config row =
      availableAmount config row - availableAmount config row % payoutUnit config := by
  obtain ⟨positive,_⟩ := denominated_le pays
  have available : ReserveMet config row ∧ availableAmount config row =
      if row.pool_type = "fees" ∧ row.payment_address = config.feeAddress then
        if (config.feesForTXN : ℤ) + config.exchangeMin ≤ row.amount then row.amount - config.feesForTXN else 0
      else row.amount := by
    unfold ReserveMet availableAmount
    split at positive
    next reserve =>
      split at positive
      next enough => exact ⟨fun _ => enough,by rw [if_pos reserve,if_pos reserve,if_pos enough]⟩
      · cases positive
    next whole => exact ⟨fun fees => absurd fees whole,by rw [if_neg whole,if_neg whole]⟩
  refine ⟨available.1,available.2 ▸ positive,?_⟩
  unfold payableAmount payoutUnit
  rw [← available.2]
  have nonneg : 0 ≤ availableAmount config row := available.2 ▸ positive.le
  split
  · simp
  · dsimp only
    rw [Int.tmod_eq_emod_of_nonneg nonneg]

theorem payable_greatest {row : PayoutRow} (pays : 0 < payableAmount config row) :
    IsGreatest {gross | payoutUnit config ∣ gross ∧ gross ≤ availableAmount config row} (payableAmount config row) := by
  obtain ⟨_,_,same⟩ := payable_available config pays
  have unit := payoutUnit_pos config
  rw [same]
  refine ⟨⟨Int.dvd_self_sub_emod,?_⟩,?_⟩
  · have := Int.emod_nonneg (availableAmount config row) unit.ne'
    omega
  · rintro gross ⟨⟨count,rfl⟩,bound⟩
    have most : count ≤ availableAmount config row / payoutUnit config := by
      rw [Int.le_ediv_iff_mul_le unit,mul_comm]
      exact bound
    have split := Int.mul_ediv_add_emod (availableAmount config row) (payoutUnit config)
    have scaled := mul_le_mul_of_nonneg_left most unit.le
    linarith

def itemOf (row : PayoutRow) : PayoutItem where
  balanceId := row.id
  poolType := row.pool_type
  paymentAddress := row.payment_address
  grossAmount := payableAmount config row
  netAmount := payableAmount config row - calculateChargeFee config (payableAmount config row)
  feeAmount := calculateChargeFee config (payableAmount config row)

def customThreshold (row : PayoutRow) : ℤ := row.payout_threshold.getD 0

def thresholdOf (row : PayoutRow) : ℤ := if customThreshold row = 0 then config.defaultPay else customThreshold row

/-- What a row must meet to be paid: no payment id, an amount left after the fee, its threshold, and
for an integrated address the exchange minimum or more than a threshold of its own. -/
structure Eligible (row : PayoutRow) : Prop where
  unlabelled : row.payment_id = none
  pays : 0 < (itemOf config row).netAmount
  threshold : thresholdOf config row ≤ payableAmount config row
  integrated : isIntegratedAddress row.payment_address = true → (config.exchangeMin : ℤ) ≤ payableAmount config row ∨
    0 < customThreshold row ∧ thresholdOf config row < payableAmount config row

theorem buildPayoutItem_eq (row : PayoutRow) : buildPayoutItem config row =
    if 0 < (itemOf config row).netAmount then
      some ⟨itemOf config row,thresholdOf config row,0 < customThreshold row⟩
    else none := by
  have fee := chargeFee_nonneg config (payableAmount config row)
  unfold buildPayoutItem
  dsimp only
  split
  next small =>
    rw [if_neg]
    unfold itemOf
    dsimp only
    omega
  · split
    next small =>
      have none : ¬0 < (itemOf config row).netAmount := not_lt.mpr small
      rw [if_neg none]
    next pays =>
      have some : 0 < (itemOf config row).netAmount := not_le.mp pays
      rw [if_pos some]
      rfl

end Amounts

section Rows

variable {passed chosen : List PayoutRow} {planned : Planned}

def singleBatch (item : PayoutItem) : BatchPlan := ⟨.integrated,[item],item.grossAmount,item.netAmount,item.feeAmount⟩

private theorem integratedBatchFor_eq (row : PayoutRow) (pays : Payout)
    (built : pays = ⟨itemOf config row,thresholdOf config row,0 < customThreshold row⟩) :
    integratedBatchFor config pays =
      if thresholdOf config row ≤ payableAmount config row ∧ ((config.exchangeMin : ℤ) ≤ payableAmount config row ∨
        0 < customThreshold row ∧ thresholdOf config row < payableAmount config row) then
        some (singleBatch (itemOf config row))
      else none := by
  subst built
  have gross : (itemOf config row).grossAmount = payableAmount config row := rfl
  unfold integratedBatchFor
  dsimp only
  rw [gross]
  split
  next low =>
    rw [if_neg]
    rintro ⟨enough,_⟩
    omega
  next enough =>
    split
    next small =>
      rw [if_neg]
      simp only [decide_eq_false_iff_not] at small
      omega
    next large =>
      rw [if_pos]
      · rfl
      · simp only [decide_eq_false_iff_not] at large
        omega

private theorem planRow_cases (planned : Planned) (row : PayoutRow) : (planRow config planned row = planned ∧
      (Eligible config row → row.payment_address ∈ planned.seenRecipients)) ∨
    (Eligible config row ∧ row.payment_address ∉ planned.seenRecipients ∧
      planRow config planned row =
        if isIntegratedAddress row.payment_address then
          {planned with
            integratedBatches := planned.integratedBatches ++ [singleBatch (itemOf config row)]
            seenRecipients := planned.seenRecipients ++ [row.payment_address]}
        else
          {planned with
            bulkItems := planned.bulkItems ++ [itemOf config row]
            seenRecipients := planned.seenRecipients ++ [row.payment_address]}) := by
  unfold planRow
  split
  next skipped =>
    refine .inl ⟨rfl,?_⟩
    intro eligible
    simpa [shouldSkipPayoutRow,eligible.unlabelled] using skipped
  next kept =>
    simp only [shouldSkipPayoutRow,Bool.or_eq_true,decide_eq_true_eq,not_or,Bool.not_eq_true,
      Option.isSome_eq_false_iff,Option.isNone_iff_eq_none] at kept
    obtain ⟨unlabelled,fresh⟩ := kept
    rw [buildPayoutItem_eq]
    by_cases pays : 0 < (itemOf config row).netAmount
    · rw [if_pos pays]
      dsimp only
      by_cases integrated : isIntegratedAddress row.payment_address = true
      · rw [if_pos integrated,if_pos integrated,integratedBatchFor_eq config row _ rfl]
        by_cases meets : thresholdOf config row ≤ payableAmount config row ∧
            ((config.exchangeMin : ℤ) ≤ payableAmount config row ∨
              0 < customThreshold row ∧ thresholdOf config row < payableAmount config row)
        · rw [if_pos meets]
          exact .inr ⟨⟨unlabelled,pays,meets.1,fun _ => meets.2⟩,fresh,rfl⟩
        · rw [if_neg meets]
          exact .inl ⟨rfl,fun eligible => absurd ⟨eligible.threshold,eligible.integrated integrated⟩ meets⟩
      · rw [if_neg integrated,if_neg integrated]
        have gross : (itemOf config row).grossAmount = payableAmount config row := rfl
        rw [gross]
        by_cases enough : thresholdOf config row ≤ payableAmount config row
        · rw [if_pos enough]
          exact .inr ⟨⟨unlabelled,pays,enough,fun here => absurd here integrated⟩,fresh,rfl⟩
        · rw [if_neg enough]
          exact .inl ⟨rfl,fun eligible => absurd eligible.threshold enough⟩
    · rw [if_neg pays]
      exact .inl ⟨rfl,fun eligible => absurd eligible.pays pays⟩

/-- What the loop has chosen from the rows it has passed: the first eligible row of each recipient. -/
structure Chosen (passed chosen : List PayoutRow) (planned : Planned) : Prop where
  sublist : chosen.Sublist passed
  recipients : planned.seenRecipients = chosen.map PayoutRow.payment_address
  distinct : (chosen.map PayoutRow.payment_address).Nodup
  eligible : ∀ row ∈ chosen, Eligible config row
  bulk : planned.bulkItems =
    (chosen.filter fun row => !isIntegratedAddress row.payment_address).map (itemOf config)
  integrated : planned.integratedBatches =
    (chosen.filter fun row => isIntegratedAddress row.payment_address).map (singleBatch ∘ itemOf config)
  complete : ∀ before row after, passed = before ++ row::after → Eligible config row →
    ∃ other ∈ chosen, other ∈ before ++ [row] ∧ other.payment_address = row.payment_address

private theorem split_snoc {before after : List PayoutRow} {last row : PayoutRow}
    (split : passed ++ [last] = before ++ row::after) :
    (passed = before ∧ last = row) ∨ ∃ rest, passed = before ++ row::rest := by
  rcases eq_nil_or_concat after with rfl | ⟨rest,final,rfl⟩
  · obtain ⟨same,here⟩ := append_inj' split rfl
    exact .inl ⟨same,singleton_inj.mp here⟩
  · have shifted : passed ++ [last] = (before ++ row::rest) ++ [final] := by simpa using split
    exact .inr ⟨rest,(append_inj' shifted rfl).1⟩

private theorem planRow_chosen (choice : Chosen config passed chosen planned)
    (row : PayoutRow) : ∃ next, Chosen config (passed ++ [row]) next (planRow config planned row) := by
  rcases planRow_cases config planned row with ⟨same,seen⟩ | ⟨eligible,fresh,planned⟩
  · rw [same]
    refine ⟨chosen,choice.sublist.trans (sublist_append_left ..),choice.recipients,choice.distinct,choice.eligible,
      choice.bulk,choice.integrated,?_⟩
    intro before other after split eligible
    rcases split_snoc split with ⟨rfl,rfl⟩ | ⟨rest,earlier⟩
    · have again := seen eligible
      rw [choice.recipients] at again
      obtain ⟨first,member,address⟩ := mem_map.mp again
      exact ⟨first,member,mem_append_left _ (choice.sublist.subset member),address⟩
    · exact choice.complete before other rest earlier eligible
  · rw [planned]
    rw [choice.recipients] at fresh
    have apart : ((chosen ++ [row]).map PayoutRow.payment_address).Nodup := by
      rw [map_append,nodup_append]
      refine ⟨choice.distinct,by simp,?_⟩
      rintro address old other new rfl
      exact fresh (mem_singleton.mp new ▸ old)
    have complete : ∀ before other after, passed ++ [row] = before ++ other::after → Eligible config other →
        ∃ first ∈ chosen ++ [row], first ∈ before ++ [other] ∧ first.payment_address = other.payment_address := by
      intro before other after split eligible
      rcases split_snoc split with ⟨rfl,rfl⟩ | ⟨rest,earlier⟩
      · exact ⟨row,by simp,by simp,rfl⟩
      · obtain ⟨first,member,place,address⟩ := choice.complete before other rest earlier eligible
        exact ⟨first,mem_append_left _ member,place,address⟩
    have meets : ∀ other ∈ chosen ++ [row], Eligible config other := by
      intro other member
      rcases mem_append.mp member with old | new
      · exact choice.eligible other old
      · exact mem_singleton.mp new ▸ eligible
    have taken : (chosen ++ [row]).Sublist (passed ++ [row]) := choice.sublist.append (Sublist.refl _)
    split
    next integrated =>
      exact ⟨chosen ++ [row],taken,by simp [choice.recipients],apart,meets,by simp [choice.bulk,integrated],
        by simp [choice.integrated,integrated],complete⟩
    next plain =>
      exact ⟨chosen ++ [row],taken,by simp [choice.recipients],apart,meets,by simp [choice.bulk,plain],
        by simp [choice.integrated,plain],complete⟩

theorem planned_chosen (rows : List PayoutRow) (choice : Chosen config passed chosen planned) :
    ∃ next, Chosen config (passed ++ rows) next (rows.foldl (planRow config) planned) := by
  induction rows generalizing passed chosen planned with
  | nil => exact ⟨chosen,by simpa using choice⟩
  | cons row rows ih =>
    obtain ⟨next,chosen⟩ := planRow_chosen config choice row
    simpa using ih chosen

theorem chosen_none : Chosen config [] [] {} :=
  ⟨Sublist.refl _,rfl,nodup_nil,by simp,rfl,rfl,by simp⟩

end Rows

section Batches

theorem bulkBatches_spec {size : ℕ} (positive : 0 < size) (steps : ℕ) {items : List PayoutItem}
    (enough : items.length ≤ steps) : (bulkBatches size steps items).flatMap BatchPlan.items = items ∧
      ∀ plan ∈ bulkBatches size steps items, ∃ part, plan = bulkBatch part ∧ part ≠ [] ∧ part.length ≤ size := by
  induction steps generalizing items with
  | zero =>
    obtain rfl := length_eq_zero_iff.mp (Nat.le_zero.mp enough)
    exact ⟨rfl,by simp [bulkBatches]⟩
  | succ steps ih =>
    unfold bulkBatches
    split
    next empty => simpa using empty
    next filled =>
      have some : items ≠ [] := by simpa using filled
      have rest : (items.drop size).length ≤ steps := by
        rw [length_drop]
        omega
      obtain ⟨all,parts⟩ := ih rest
      refine ⟨?_,?_⟩
      · rw [flatMap_cons,all]
        exact take_append_drop ..
      · intro plan member
        rcases mem_cons.mp member with rfl | later
        · refine ⟨items.take size,rfl,?_,length_take_le ..⟩
          simp [some,positive.ne']
        · exact parts plan later

end Batches

section Statement

structure Amounts (row : PayoutRow) : Prop where
  gross : IsGreatest {gross | payoutUnit config ∣ gross ∧ gross ≤ availableAmount config row}
    (itemOf config row).grossAmount
  reserve : ReserveMet config row
  pays : 0 < (itemOf config row).netAmount
  net : (itemOf config row).netAmount ≤ (itemOf config row).grossAmount
  covered : (itemOf config row).grossAmount ≤ row.amount
  fee : (itemOf config row).feeAmount = (itemOf config row).grossAmount - (itemOf config row).netAmount
  charged : 0 ≤ (itemOf config row).feeAmount ∧ (itemOf config row).feeAmount ≤ config.feeSlewAmount

theorem eligible_amounts {row : PayoutRow} (eligible : Eligible config row) : Amounts config row := by
  have fee := chargeFee_nonneg config (payableAmount config row)
  have net : 0 < payableAmount config row - calculateChargeFee config (payableAmount config row) := eligible.pays
  have pays : 0 < payableAmount config row := by omega
  refine ⟨payable_greatest config pays,(payable_available config pays).1,eligible.pays,?_,
    payableAmount_le config row pays,?_,fee,chargeFee_le config _⟩
  · exact sub_le_self _ fee
  · exact (sub_sub_cancel _ _).symm

/-- A plan pays the first eligible row of every recipient once, in batches the wallet can take. -/
structure PlanCorrect (rows : List PayoutRow) (plans : List BatchPlan) : Prop where
  recipients : ((plans.flatMap BatchPlan.items).map PayoutItem.paymentAddress).Nodup
  drawn : ∃ chosen : List PayoutRow, chosen.Sublist rows ∧
    (plans.flatMap BatchPlan.items).Perm (chosen.map (itemOf config)) ∧ (∀ row ∈ chosen, Eligible config row) ∧
    ∀ before row after, rows = before ++ row::after → Eligible config row →
      ∃ other ∈ chosen, other ∈ before ++ [row] ∧ other.payment_address = row.payment_address
  bulk : ∀ plan ∈ plans, plan.batchType = .bulk → plan.items ≠ [] ∧ (plan.items.length : ℤ) ≤ config.maxPaymentTxns ∧
    ∀ item ∈ plan.items, isIntegratedAddress item.paymentAddress = false
  integrated : ∀ plan ∈ plans, plan.batchType = .integrated →
    ∃ item, plan.items = [item] ∧ isIntegratedAddress item.paymentAddress = true
  totals : ∀ plan ∈ plans, plan.totalGross = (plan.items.map PayoutItem.grossAmount).sum ∧
    plan.totalNet = (plan.items.map PayoutItem.netAmount).sum ∧
    plan.totalFee = (plan.items.map PayoutItem.feeAmount).sum

private theorem planRows_correct (valid : validMaxPaymentTxns config = true) (rows : List PayoutRow) :
    PlanCorrect config rows (planRows config rows) := by
  have size : 0 < config.maxPaymentTxns.toNat := by
    simp only [validMaxPaymentTxns,Bool.and_eq_true,decide_eq_true_eq] at valid
    omega
  obtain ⟨chosen,choice⟩ := planned_chosen config rows (chosen_none config)
  rw [nil_append] at choice
  obtain ⟨all,parts⟩ := bulkBatches_spec size _ (le_refl (rows.foldl (planRow config) {}).bulkItems.length)
  have singles : (rows.foldl (planRow config) {}).integratedBatches.flatMap BatchPlan.items =
      (chosen.filter fun row => isIntegratedAddress row.payment_address).map (itemOf config) := by
    rw [choice.integrated,flatMap_map]
    exact map_eq_flatMap.symm
  have drawn : ((planRows config rows).flatMap BatchPlan.items).Perm (chosen.map (itemOf config)) := by
    unfold planRows
    rw [flatMap_append,all,choice.bulk,singles,← map_append]
    refine Perm.map _ (perm_append_comm.trans ?_)
    exact filter_append_perm ..
  have cases : ∀ plan ∈ planRows config rows,
      (∃ part, plan = bulkBatch part ∧ part ≠ [] ∧ part.length ≤ config.maxPaymentTxns.toNat ∧
        ∀ item ∈ part, isIntegratedAddress item.paymentAddress = false) ∨
      ∃ item, plan = singleBatch item ∧ isIntegratedAddress item.paymentAddress = true := by
    intro plan member
    rcases mem_append.mp member with bulk | single
    · obtain ⟨part,rfl,filled,bound⟩ := parts plan bulk
      refine .inl ⟨part,rfl,filled,bound,?_⟩
      intro item inside
      have collected : item ∈ (rows.foldl (planRow config) {}).bulkItems := by
        rw [← all]
        exact mem_flatMap.mpr ⟨_,bulk,inside⟩
      rw [choice.bulk] at collected
      obtain ⟨row,kept,rfl⟩ := mem_map.mp collected
      simpa [itemOf] using (mem_filter.mp kept).2
    · rw [choice.integrated] at single
      obtain ⟨row,kept,rfl⟩ := mem_map.mp single
      exact .inr ⟨itemOf config row,rfl,(mem_filter.mp kept).2⟩
  refine ⟨?_,⟨chosen,choice.sublist,drawn,choice.eligible,choice.complete⟩,?_,?_,?_⟩
  · rw [(drawn.map _).nodup_iff,map_map]
    exact choice.distinct
  · intro plan member kind
    rcases cases plan member with ⟨part,rfl,filled,bound,plain⟩ | ⟨item,rfl,_⟩
    · refine ⟨filled,?_,plain⟩
      have most : (part.length : ℤ) ≤ config.maxPaymentTxns.toNat := by exact_mod_cast bound
      change (part.length : ℤ) ≤ _
      omega
    · cases kind
  · intro plan member kind
    rcases cases plan member with ⟨part,rfl,_⟩ | ⟨item,rfl,integrated⟩
    · cases kind
    · exact ⟨item,rfl,integrated⟩
  · intro plan member
    rcases cases plan member with ⟨part,rfl,_⟩ | ⟨item,rfl,_⟩
    · exact ⟨rfl,rfl,rfl⟩
    · simp [singleBatch]

private theorem selectPayoutRows_ids {db : Db} (keys : (db.balance.map BalanceRow.id).Nodup) (walletMin : ℕ) :
    ((selectPayoutRows db walletMin).map PayoutRow.id).Nodup := by
  unfold selectPayoutRows
  rw [map_map]
  have sorted := perm_insertionSort (fun left right : BalanceRow => left.id ≤ right.id)
    (db.balance.filter fun row => (walletMin : ℤ) ≤ row.amount && row.pending_batch_id.isNone)
  change (map BalanceRow.id _).Nodup
  rw [(sorted.map BalanceRow.id).nodup_iff]
  exact keys.sublist (filter_sublist.map _)

/-- The plan of every balance table is correct: no row and no recipient is paid twice, every item has
the exact amounts, and every eligible row is paid or has the recipient of one before it that is. -/
theorem plan_correct (valid : validMaxPaymentTxns config = true) (db : Db) :
    PlanCorrect config (selectPayoutRows db config.walletMin) (planRows config (selectPayoutRows db config.walletMin)) ∧
    (∀ row, Eligible config row → Amounts config row) ∧ Antitone (calculateChargeFee config) ∧
    ((db.balance.map BalanceRow.id).Nodup →
      (((planRows config (selectPayoutRows db config.walletMin)).flatMap BatchPlan.items).map
        PayoutItem.balanceId).Nodup) := by
  have plan := planRows_correct config valid (selectPayoutRows db config.walletMin)
  refine ⟨plan,fun _ => eligible_amounts config,chargeFee_antitone config,?_⟩
  intro keys
  obtain ⟨chosen,sublist,same,_⟩ := plan.drawn
  rw [(same.map _).nodup_iff,List.map_map]
  exact (selectPayoutRows_ids keys config.walletMin).sublist (sublist.map _)

def plannerConfig : Config where
  walletMin := 100
  feeSlewAmount := 10
  feeSlewEnd := 2000
  defaultPay := 500
  exchangeMin := 700
  feesForTXN := 0
  denom := 100
  safeWalletFee := 0
  maxPaymentTxns := 1
  feeAddress := "F"

def plannerDb : Db where
  balance := [⟨1,"A",none,"pplns",1050,none⟩,⟨2,"A",none,"pps",2000,none⟩,⟨3,"B",some "p","pplns",3000,none⟩]
  users := []
  payment_batches := []
  payment_batch_items := []
  transactions := []
  payments := []
  nextBatchId := 1
  nextTransactionId := 1

/-- A balance with a payment id is in no batch, however much it holds. -/
theorem labelled_balance_unpaid : ¬∀ (config : Config) (db : Db), validMaxPaymentTxns config = true →
    ∀ row ∈ selectPayoutRows db config.walletMin, Eligible config {row with payment_id := none} →
      ∃ plan ∈ planRows config (selectPayoutRows db config.walletMin), ∃ item ∈ plan.items,
        item.paymentAddress = row.payment_address := by
  intro planned
  have rows : (⟨3,"B",some "p","pplns",3000,none⟩ :
      PayoutRow) ∈ selectPayoutRows plannerDb plannerConfig.walletMin := by
    have sorted := List.mem_insertionSort (fun left right : BalanceRow => left.id ≤ right.id)
      (x := ⟨3,"B",some "p","pplns",3000,none⟩)
      (l := plannerDb.balance.filter fun row => (plannerConfig.walletMin : ℤ) ≤ row.amount &&
        row.pending_batch_id.isNone)
    exact List.mem_map.mpr ⟨_,sorted.mpr (by decide),rfl⟩
  have eligible : Eligible plannerConfig ⟨3,"B",none,"pplns",3000,none⟩ :=
    ⟨rfl,by decide +kernel,by decide,fun integrated => absurd integrated (by decide)⟩
  obtain ⟨plan,member,item,inside,address⟩ := planned plannerConfig plannerDb (by decide) _ rows eligible
  have others : ∀ plan ∈ planRows plannerConfig (selectPayoutRows plannerDb plannerConfig.walletMin),
      ∀ item ∈ plan.items, item.paymentAddress = "A" := by decide +kernel
  have other := others plan member item inside
  rw [address] at other
  exact absurd other (by decide)

theorem plan_correct_twice : (planRows plannerConfig (selectPayoutRows plannerDb plannerConfig.walletMin)).map
      (fun plan => plan.items.map PayoutItem.grossAmount) = [[1000]] ∧
    PlanCorrect plannerConfig (selectPayoutRows plannerDb plannerConfig.walletMin)
      (planRows plannerConfig (selectPayoutRows plannerDb plannerConfig.walletMin)) :=
  ⟨by decide +kernel,(plan_correct plannerConfig (by decide) plannerDb).1⟩

end Statement
end NodejsPool.Payments
