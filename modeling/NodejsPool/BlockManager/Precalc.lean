import Mathlib.Algebra.Order.BigOperators.Group.List
import Mathlib.Algebra.Order.Group.MinMax
import NodejsPool.Common.Arithmetic

/-! The PPLNS precalculation of the block manager: the walk over stored shares from the anchor
height down, the payment rows it fills, and the window correction. Amounts are rounded by the
arithmetic at hand; the theorems of this file are about the exact one. -/
namespace NodejsPool.BlockManager
open Arithmetic

variable {paymentData : PaymentData} {shareDB : ShareDB} {payout : Payout} {blockDifficulty : ℚ}

inductive PoolType where
  | PPLNS
  | PPS
  | PROP
  | SOLO
  deriving DecidableEq

structure Share where
  paymentAddress : String
  paymentID : Option String
  poolType : PoolType
  timestamp : Int
  port : Option Int
  shares2 : Option ℚ
  shares2_nonneg : ∀ work ∈ shares2, 0 ≤ work

/-- The duplicates stored at each height, in cursor order; `none` is a record
that does not decode. -/
abbrev ShareDB := Nat → List (Option Share)

/-- `config.payout` and `config.pplns`, with the percentages the configuration
table documents, and the two donation addresses of the coin. -/
structure Config where
  feeAddress : String
  coinDevAddress : String
  poolDevAddress : String
  pplnsFee : ℚ
  devDonation : ℚ
  poolDevDonation : ℚ
  shareMulti : ℚ
  anchorRound : Nat
  pplnsFee_nonneg : 0 ≤ pplnsFee
  pplnsFee_le : pplnsFee ≤ 100
  devDonation_nonneg : 0 ≤ devDonation
  poolDevDonation_nonneg : 0 ≤ poolDevDonation
  donations_le : devDonation + poolDevDonation ≤ 100
  shareMulti_pos : 0 < shareMulti
  anchorRound_pos : 0 < anchorRound

structure PaymentRow where
  pool_type : String
  payment_address : String
  payment_id : Option String
  amount : ℚ

abbrev PaymentData := List (String × PaymentRow)

structure State where
  totalPaid : ℚ
  totalShares : ℚ
  paymentData : PaymentData
  portShares : List (Int × ℚ)
  firstShareTime : Option Int
  lastShareTime : Option Int

def rewardTotal : ℚ := 1

def ensurePaymentRow (paymentData : PaymentData) (key : String) (row : PaymentRow) : PaymentData :=
  if key ∈ paymentData.map Prod.fst then paymentData else paymentData ++ [(key,row)]

/-- Rewrite the amount of one payment row; `none` when the row is missing. -/
def modifyPayment (key : String) (change : ℚ → ℚ) : PaymentData → Option PaymentData
  | [] => none
  | (other,row)::rest =>
    if other = key then some ((other,{row with amount := change row.amount})::rest)
    else (modifyPayment key change rest).map ((other,row)::·)

def createPplnsPaymentData (config : Config) : PaymentData :=
  [config.feeAddress,config.coinDevAddress,config.poolDevAddress].foldl
    (fun data address => ensurePaymentRow data address ⟨"fees",address,none,0⟩) []

def userIdentifier (share : Share) : String :=
  match share.paymentID with
  | none => share.paymentAddress
  | some paymentId =>
    if paymentId = "" then share.paymentAddress else share.paymentAddress ++ "." ++ paymentId

def ensurePplnsPaymentRow (paymentData : PaymentData) (share : Share) : PaymentData :=
  ensurePaymentRow paymentData (userIdentifier share) ⟨"pplns",share.paymentAddress,share.paymentID,0⟩

section Walk

variable [Arithmetic]

def addPayment (window : ℚ) (s : State) (key : String) (amount : ℚ) : Except String State :=
  if amount = 0 ∨ rewardTotal ≤ s.totalPaid then .ok s
  else
    let totalShares := nearest (s.totalShares + amount)
    let totalPaidAfter := nearest (totalShares / window) * rewardTotal
    if rewardTotal < totalPaidAfter then
      let extra := nearest (nearest (totalPaidAfter - rewardTotal) / rewardTotal * window)
      match modifyPayment key (fun paid => nearest (nearest (paid + amount) - extra)) s.paymentData with
      | none => .error s!"Missing payment row for {key}"
      | some paymentData =>
        .ok {s with totalShares := totalShares, paymentData := paymentData, totalPaid := rewardTotal}
    else
      match modifyPayment key (fun paid => nearest (paid + amount)) s.paymentData with
      | none => .error s!"Missing payment row for {key}"
      | some paymentData =>
        .ok {s with totalShares := totalShares, paymentData := paymentData, totalPaid := totalPaidAfter}

def addPplnsSharePayments (config : Config) (window : ℚ) (s : State) (key : String)
    (amountToPay : ℚ) : Except String State := do
  let feesToPay := nearest (amountToPay * nearest (config.pplnsFee / 100))
  let devDonation := nearest (feesToPay * nearest (config.devDonation / 100))
  let poolDevDonation := nearest (feesToPay * nearest (config.poolDevDonation / 100))
  let amountToPayAfterFees := nearest (amountToPay - feesToPay)
  let s ← addPayment window s key amountToPayAfterFees
  let s ← addPayment window s config.feeAddress (nearest (nearest (feesToPay - devDonation) - poolDevDonation))
  let s ← addPayment window s config.poolDevAddress poolDevDonation
  addPayment window s config.coinDevAddress devDonation

def addPortShares (portShares : List (Int × ℚ)) (port : Option Int) (amount : ℚ) : List (Int × ℚ) :=
  match port with
  | none => portShares
  | some port =>
    if port ∈ portShares.map Prod.fst then
      portShares.map fun entry => if entry.1 = port then (entry.1,nearest (entry.2 + amount)) else entry
    else portShares ++ [(port,amount)]

/-- The weight the walk counts for a record: none for undecodable records, other
pool types and weights that are not positive. -/
def Share.weight (share : Share) : Option ℚ :=
  if share.poolType = .PPLNS then share.shares2.filter (0 < ·) else none

def visitShare (config : Config) (window : ℚ) (s : State) : Option Share → Except String State
  | none => .ok s
  | some share =>
    if share.poolType ≠ .PPLNS then .ok s
    else do
      let s := {s with paymentData := ensurePplnsPaymentRow s.paymentData share}
      match share.shares2 with
      | none => .ok s
      | some amountToPay =>
        if amountToPay ≤ 0 then .ok s
        else do
          let s := {s with
            firstShareTime := some (s.firstShareTime.getD share.timestamp)
            lastShareTime := if s.totalPaid < rewardTotal then some share.timestamp else s.lastShareTime}
          let s ← addPplnsSharePayments config window s (userIdentifier share) amountToPay
          .ok {s with portShares := addPortShares s.portShares share.port amountToPay}

def collectPplnsSharePayments (config : Config) (window : ℚ) (shareDB : ShareDB) :
    Nat → State → Except String State
  | 0,s => .ok s
  | currentHeight + 1,s =>
    if s.totalPaid < rewardTotal then do
      let s ← (shareDB (currentHeight + 1)).foldlM (visitShare config window) s
      collectPplnsSharePayments config window shareDB currentHeight s
    else .ok s

def startState (config : Config) : State :=
  ⟨0,0,createPplnsPaymentData config,[],none,none⟩

def totalPayments (paymentData : PaymentData) : ℚ := gather 0 (paymentData.map (·.2.amount))

/-- A `block_balance` row of one block. -/
structure BlockBalanceRow where
  payment_address : String
  payment_id : Option String
  amount : ℚ

def isNeedCorrection (total defaultWindow : ℚ) : Bool :=
  nearest (1/10000) < |nearest (nearest (total / defaultWindow) - 1)|

def payWindow (total defaultWindow : ℚ) : ℚ :=
  if isNeedCorrection total defaultWindow then total else defaultWindow

def blockBalanceRows (paymentData : PaymentData) (window : ℚ) : List BlockBalanceRow :=
  (paymentData.filter fun entry => entry.2.amount ≠ 0).map fun entry =>
    ⟨entry.2.payment_address,entry.2.payment_id,nearest (entry.2.amount / window)⟩

def pplnsPortShares (portShares : List (Int × ℚ)) : List (Int × ℚ) :=
  let sumAllPorts := gather 0 (portShares.map Prod.snd)
  if 0 < sumAllPorts then portShares.map fun entry => (entry.1,nearest (entry.2 / sumAllPorts)) else []

/-- What one precalculation stores: the rows of the block and the two cache
entries, with the state and height they were computed from. -/
structure Payout where
  anchorHeight : Nat
  state : State
  rows : List BlockBalanceRow
  pplns_port_shares : List (Int × ℚ)
  pplns_window_time : ℚ

/-- The span of the window is kept as the quotient it is. -/
def payoutOf (windowPPLNS : ℚ) (blockHeight : Nat) (s : State) : Option Payout := do
  let firstShareTime ← s.firstShareTime
  let lastShareTime ← s.lastShareTime
  some ⟨blockHeight,s,
    blockBalanceRows s.paymentData (payWindow (totalPayments s.paymentData) windowPPLNS),
    pplnsPortShares s.portShares,(firstShareTime - lastShareTime) / 1000⟩

/-- Without shares the precalculation starts again from the top height. `retries` holds the replies of
`getTopBlockHeight` and the database each new walk reads. -/
def preCalculatePPLNSPayments (config : Config) (blockDifficulty : ℚ) (shareDB : ShareDB)
    (blockHeight : Nat) (retries : List (Option Nat × ShareDB)) : Except String (Option Payout) := do
  let windowPPLNS := nearest (blockDifficulty * config.shareMulti)
  let s ← collectPplnsSharePayments config windowPPLNS shareDB blockHeight (startState config)
  if totalPayments s.paymentData = 0 then
    match retries with
    | [] => .ok none
    | (none,_)::_ => .ok none
    | (some topBlockHeight,shareDB)::retries =>
      if topBlockHeight = blockHeight then .ok none
      else preCalculatePPLNSPayments config blockDifficulty shareDB topBlockHeight retries
  else .ok (payoutOf windowPPLNS blockHeight s)
termination_by structural retries

end Walk

/-- The credits `doPPLNSPayments` makes from the stored rows. -/
def blockCredits (rows : List BlockBalanceRow) (blockReward : ℕ) : List ℤ :=
  (rows.map fun row => ⌊row.amount * (blockReward : ℚ)⌋).filter (· ≠ 0)

@[simp] theorem totalPayments_nil : totalPayments [] = 0 := rfl

@[simp] theorem totalPayments_cons (key : String) (row : PaymentRow) (rest : PaymentData) :
    totalPayments ((key,row)::rest) = row.amount + totalPayments rest := by
  simp [totalPayments]

theorem ensure_total (paymentData : PaymentData) (key : String) (row : PaymentRow) (empty : row.amount = 0) :
    totalPayments (ensurePaymentRow paymentData key row) = totalPayments paymentData := by
  unfold ensurePaymentRow
  split
  next => rfl
  next => simp [totalPayments,empty]

theorem ensure_member (paymentData : PaymentData) (key : String) (row : PaymentRow) :
    key ∈ (ensurePaymentRow paymentData key row).map Prod.fst := by
  unfold ensurePaymentRow
  split
  next present => exact present
  next => simp

theorem ensure_keeps {other : String} (present : other ∈ paymentData.map Prod.fst) (key : String) (row : PaymentRow) :
    other ∈ (ensurePaymentRow paymentData key row).map Prod.fst := by
  unfold ensurePaymentRow
  split
  next => exact present
  next => simp [present]

theorem ensure_nonneg (nonneg : ∀ entry ∈ paymentData, 0 ≤ entry.2.amount)
    (key : String) (row : PaymentRow) (empty : row.amount = 0) :
    ∀ entry ∈ ensurePaymentRow paymentData key row, 0 ≤ entry.2.amount := by
  unfold ensurePaymentRow
  split
  next => exact nonneg
  next =>
    intro entry member
    rcases List.mem_append.mp member with old | new
    · exact nonneg entry old
    · obtain rfl := List.mem_singleton.mp new
      exact empty.ge

theorem modifyPayment_adds (key : String) (change : ℚ → ℚ) (delta : ℚ) (adds : ∀ paid, change paid = paid + delta)
    (present : key ∈ paymentData.map Prod.fst) : ∃ changed, modifyPayment key change paymentData = some changed ∧
      totalPayments changed = totalPayments paymentData + delta ∧
      changed.map Prod.fst = paymentData.map Prod.fst ∧
      (0 ≤ delta → (∀ entry ∈ paymentData, 0 ≤ entry.2.amount) → ∀ entry ∈ changed, 0 ≤ entry.2.amount) := by
  induction paymentData with
  | nil => simp at present
  | cons entry rest ih =>
    obtain ⟨other,row⟩ := entry
    by_cases same : other = key
    · refine ⟨(other,{row with amount := change row.amount})::rest,by simp [modifyPayment,same],?_,rfl,?_⟩
      · simp only [totalPayments_cons,adds]
        ring
      · intro positive nonneg
        obtain ⟨head,tail⟩ := List.forall_mem_cons.mp nonneg
        refine List.forall_mem_cons.mpr ⟨?_,tail⟩
        simp only [adds]
        exact add_nonneg head positive
    · have below : key ∈ rest.map Prod.fst := by simpa [Ne.symm same] using present
      obtain ⟨changed,modified,total,keys,signs⟩ := ih below
      refine ⟨(other,row)::changed,by simp [modifyPayment,same,modified],?_,by simp [keys],?_⟩
      · simp only [totalPayments_cons,total]
        ring
      · intro positive nonneg
        obtain ⟨head,tail⟩ := List.forall_mem_cons.mp nonneg
        exact List.forall_mem_cons.mpr ⟨head,signs positive tail⟩

variable {config : Config} {window walked : ℚ} {s : State}

/-- The state after the walk has met shares of total weight `walked`: the payment
rows hold that weight up to the window. -/
structure Balanced (config : Config) (window walked : ℚ) (s : State) : Prop where
  feeAddress : config.feeAddress ∈ s.paymentData.map Prod.fst
  coinDevAddress : config.coinDevAddress ∈ s.paymentData.map Prod.fst
  poolDevAddress : config.poolDevAddress ∈ s.paymentData.map Prod.fst
  nonneg : ∀ entry ∈ s.paymentData, 0 ≤ entry.2.amount
  total : totalPayments s.paymentData = min window walked
  paid : s.totalPaid * window = min window walked
  shares : s.totalPaid < rewardTotal → s.totalShares = walked

section

variable (balanced : Balanced config window walked s)
include balanced

theorem Balanced.full (positive : 0 < window) (full : rewardTotal ≤ s.totalPaid) : window ≤ walked := by
  have paid := balanced.paid
  have : window ≤ s.totalPaid * window := le_mul_of_one_le_left positive.le full
  exact min_eq_left_iff.mp (le_antisymm (min_le_left _ _) (paid ▸ this))

theorem Balanced.below (positive : 0 < window) (unpaid : s.totalPaid < rewardTotal) : walked < window := by
  have paid := balanced.paid
  have : s.totalPaid * window < window := mul_lt_of_lt_one_left positive unpaid
  rw [paid] at this
  exact (min_lt_iff.mp this).resolve_left (lt_irrefl _)

theorem Balanced.extend (positive : 0 < window) (full : rewardTotal ≤ s.totalPaid) {more : ℚ} (nonneg : 0 ≤ more) :
    Balanced config window (walked + more) s := by
  have reached := balanced.full positive full
  have same : min window (walked + more) = min window walked := by
    rw [min_eq_left reached,min_eq_left (by linarith)]
  exact {balanced with
    total := balanced.total.trans same.symm
    paid := balanced.paid.trans same.symm
    shares := fun unpaid => absurd unpaid (not_lt.mpr full)}

private theorem addPayment_balanced (positive : 0 < window)
    {key : String} (present : key ∈ s.paymentData.map Prod.fst) {amount : ℚ} (nonneg : 0 ≤ amount) :
    ∃ t, addPayment window s key amount = .ok t ∧ Balanced config window (walked + amount) t ∧
      t.paymentData.map Prod.fst = s.paymentData.map Prod.fst ∧
      t.firstShareTime = s.firstShareTime ∧ t.lastShareTime = s.lastShareTime := by
  by_cases skipped : amount = 0 ∨ rewardTotal ≤ s.totalPaid
  · refine ⟨s,by simp [addPayment,skipped],?_,rfl,rfl,rfl⟩
    rcases skipped with zero | full
    · simpa [zero] using balanced
    · exact balanced.extend positive full nonneg
  · obtain ⟨_,unpaid⟩ := not_or.mp skipped
    have below := balanced.below positive (not_le.mp unpaid)
    have shares := balanced.shares (not_le.mp unpaid)
    have total : totalPayments s.paymentData = walked := by
      rw [balanced.total,min_eq_right below.le]
    rw [addPayment,if_neg skipped]
    simp only [shares,rewardTotal,mul_one,div_one,nearest_exact]
    by_cases crosses : 1 < (walked + amount) / window
    · have crossed : window < walked + amount := by rwa [one_lt_div positive] at crosses
      have extra : ((walked + amount) / window - 1) * window = walked + amount - window := by
        field_simp
      obtain ⟨changed,modified,sum,keys,signs⟩ := modifyPayment_adds key
        (fun paid => paid + amount - ((walked + amount) / window - 1) * window)
        (window - walked) (fun paid => by rw [extra]; ring) present
      rw [if_pos crosses,modified]
      refine ⟨_,rfl,?_,keys,rfl,rfl⟩
      have full : min window (walked + amount) = window := min_eq_left crossed.le
      exact {
        feeAddress := keys ▸ balanced.feeAddress
        coinDevAddress := keys ▸ balanced.coinDevAddress
        poolDevAddress := keys ▸ balanced.poolDevAddress
        nonneg := signs (by linarith) balanced.nonneg
        total := by rw [full,sum,total]; ring
        paid := by rw [full,one_mul]
        shares := fun unpaid => absurd unpaid (lt_irrefl _)}
    · have inside : walked + amount ≤ window := by
        rwa [not_lt,div_le_one positive] at crosses
      obtain ⟨changed,modified,sum,keys,signs⟩ := modifyPayment_adds key (· + amount) amount
        (fun _ => rfl) present
      rw [if_neg crosses,modified]
      refine ⟨_,rfl,?_,keys,rfl,rfl⟩
      have within : min window (walked + amount) = walked + amount := min_eq_right inside
      exact {
        feeAddress := keys ▸ balanced.feeAddress
        coinDevAddress := keys ▸ balanced.coinDevAddress
        poolDevAddress := keys ▸ balanced.poolDevAddress
        nonneg := signs nonneg balanced.nonneg
        total := by rw [within,sum,total]
        paid := by rw [within,div_mul_cancel₀ _ positive.ne']
        shares := fun _ => rfl}

theorem addPplnsSharePayments_balanced (positive : 0 < window) {key : String}
    (present : key ∈ s.paymentData.map Prod.fst) {amount : ℚ}
    (nonneg : 0 ≤ amount) : ∃ t, addPplnsSharePayments config window s key amount = .ok t ∧
      Balanced config window (walked + amount) t ∧
      t.firstShareTime = s.firstShareTime ∧ t.lastShareTime = s.lastShareTime := by
  have fee : 0 ≤ config.pplnsFee / 100 := div_nonneg config.pplnsFee_nonneg (by norm_num)
  have most : config.pplnsFee / 100 ≤ 1 := (div_le_one (by norm_num)).mpr config.pplnsFee_le
  have fees : 0 ≤ amount * (config.pplnsFee / 100) := mul_nonneg nonneg fee
  have kept : 0 ≤ amount - amount * (config.pplnsFee / 100) := by
    have := mul_le_of_le_one_right nonneg most
    linarith
  have dev : 0 ≤ amount * (config.pplnsFee / 100) * (config.devDonation / 100) :=
    mul_nonneg fees (div_nonneg config.devDonation_nonneg (by norm_num))
  have poolDev : 0 ≤ amount * (config.pplnsFee / 100) * (config.poolDevDonation / 100) :=
    mul_nonneg fees (div_nonneg config.poolDevDonation_nonneg (by norm_num))
  have pool : 0 ≤ amount * (config.pplnsFee / 100) - amount * (config.pplnsFee / 100) * (config.devDonation / 100)
      - amount * (config.pplnsFee / 100) * (config.poolDevDonation / 100) := by
    have share : (config.devDonation + config.poolDevDonation) / 100 ≤ 1 :=
      (div_le_one (by norm_num)).mpr config.donations_le
    have := mul_le_of_le_one_right fees share
    linarith
  obtain ⟨s₁,paid₁,balanced₁,keys₁,first₁,last₁⟩ := addPayment_balanced balanced positive present kept
  obtain ⟨s₂,paid₂,balanced₂,_,first₂,last₂⟩ :=
    addPayment_balanced balanced₁ positive balanced₁.feeAddress pool
  obtain ⟨s₃,paid₃,balanced₃,_,first₃,last₃⟩ :=
    addPayment_balanced balanced₂ positive balanced₂.poolDevAddress poolDev
  obtain ⟨s₄,paid₄,balanced₄,_,first₄,last₄⟩ :=
    addPayment_balanced balanced₃ positive balanced₃.coinDevAddress dev
  refine ⟨s₄,?_,?_,by rw [first₄,first₃,first₂,first₁],by rw [last₄,last₃,last₂,last₁]⟩
  · simp only [addPplnsSharePayments,nearest_exact,paid₁,paid₂,paid₃,paid₄,bind,Except.bind]
  · have whole : walked + (amount - amount * (config.pplnsFee / 100)) +
        (amount * (config.pplnsFee / 100) - amount * (config.pplnsFee / 100) * (config.devDonation / 100)
          - amount * (config.pplnsFee / 100) * (config.poolDevDonation / 100)) +
        amount * (config.pplnsFee / 100) * (config.poolDevDonation / 100) +
        amount * (config.pplnsFee / 100) * (config.devDonation / 100) = walked + amount := by ring
    rwa [whole] at balanced₄

theorem Balanced.ensure (share : Share) :
    Balanced config window walked {s with paymentData := ensurePplnsPaymentRow s.paymentData share} := by
  constructor
  · exact ensure_keeps balanced.feeAddress _ _
  · exact ensure_keeps balanced.coinDevAddress _ _
  · exact ensure_keeps balanced.poolDevAddress _ _
  · exact ensure_nonneg balanced.nonneg _ _ rfl
  · exact (ensure_total _ _ _ rfl).trans balanced.total
  · exact balanced.paid
  · exact balanced.shares

theorem Balanced.retime {t : State}
    (paymentData : t.paymentData = s.paymentData) (totalPaid : t.totalPaid = s.totalPaid)
    (totalShares : t.totalShares = s.totalShares) : Balanced config window walked t := by
  constructor
  · exact paymentData ▸ balanced.feeAddress
  · exact paymentData ▸ balanced.coinDevAddress
  · exact paymentData ▸ balanced.poolDevAddress
  · exact paymentData ▸ balanced.nonneg
  · exact paymentData ▸ balanced.total
  · exact totalPaid ▸ balanced.paid
  · exact totalPaid ▸ totalShares ▸ balanced.shares

end

def recordWeight (record : Option Share) : ℚ := (record.bind Share.weight).getD 0

def heightShares (records : List (Option Share)) : ℚ := (records.map recordWeight).sum

def walkedShares (shareDB : ShareDB) : Nat → ℚ
  | 0 => 0
  | height + 1 => heightShares (shareDB (height + 1)) + walkedShares shareDB height

theorem weight_pos {share : Share} {weight : ℚ} (weighs : share.weight = some weight) : 0 < weight := by
  unfold Share.weight at weighs
  split at weighs
  next => simpa using (Option.filter_eq_some_iff.mp weighs).2
  next => cases weighs

theorem recordWeight_nonneg (record : Option Share) : 0 ≤ recordWeight record := by
  unfold recordWeight
  cases weighs : record.bind Share.weight with
  | none => exact le_rfl
  | some weight =>
    obtain ⟨share,_,weighs⟩ := Option.bind_eq_some_iff.mp weighs
    exact (weight_pos weighs).le

private theorem heightShares_nonneg (records : List (Option Share)) : 0 ≤ heightShares records :=
  List.sum_nonneg fun weight member => by
    obtain ⟨record,_,rfl⟩ := List.mem_map.mp member
    exact recordWeight_nonneg record

theorem walkedShares_nonneg (shareDB : ShareDB) (height : Nat) : 0 ≤ walkedShares shareDB height := by
  induction height with
  | zero => exact le_rfl
  | succ height ih => exact add_nonneg (heightShares_nonneg _) ih

def Timed (walked : ℚ) (s : State) : Prop :=
  0 < walked → s.firstShareTime.isSome ∧ s.lastShareTime.isSome

private theorem weight_some {share : Share} {weight : ℚ} (weighs : share.weight = some weight) :
    share.poolType = .PPLNS ∧ share.shares2 = some weight ∧ 0 < weight := by
  have heavy := weight_pos weighs
  unfold Share.weight at weighs
  split at weighs
  next pplns => exact ⟨pplns,(Option.filter_eq_some_iff.mp weighs).1,heavy⟩
  · cases weighs

theorem visitShare_cases (balanced : Balanced config window walked s) (positive : 0 < window) (record : Option Share) :
    ∃ t, visitShare config window s record = .ok t ∧ Balanced config window (walked + recordWeight record) t ∧
      ((record.bind Share.weight = none ∧ t.firstShareTime = s.firstShareTime ∧ t.lastShareTime = s.lastShareTime) ∨
        ∃ share weight, record = some share ∧ share.weight = some weight ∧
          t.firstShareTime = some (s.firstShareTime.getD share.timestamp) ∧
          t.lastShareTime = if s.totalPaid < rewardTotal then some share.timestamp else s.lastShareTime) := by
  cases record with
  | none => exact ⟨s,rfl,by simpa [recordWeight] using balanced,.inl ⟨rfl,rfl,rfl⟩⟩
  | some share =>
    have ensured := balanced.ensure share
    cases weighs : share.weight with
    | none =>
      have light : recordWeight (some share) = 0 := by simp [recordWeight,weighs]
      rw [light,add_zero]
      unfold visitShare
      dsimp only
      split
      · exact ⟨s,rfl,balanced,.inl ⟨weighs,rfl,rfl⟩⟩
      next pplns =>
        have filtered : share.shares2.filter (0 < ·) = none := by
          simpa [Share.weight,not_not.mp pplns] using weighs
        cases amount : share.shares2 with
        | none => exact ⟨_,rfl,ensured,.inl ⟨weighs,rfl,rfl⟩⟩
        | some work =>
          have small : work ≤ 0 := by simpa [amount,Option.filter] using filtered
          exact ⟨_,by dsimp only; rw [if_pos small],ensured,.inl ⟨weighs,rfl,rfl⟩⟩
    | some weight =>
      obtain ⟨pplns,amount,heavy⟩ := weight_some weighs
      have weigh : recordWeight (some share) = weight := by simp [recordWeight,weighs]
      rw [weigh]
      let met := {s with
        paymentData := ensurePplnsPaymentRow s.paymentData share
        firstShareTime := some (s.firstShareTime.getD share.timestamp)
        lastShareTime := if s.totalPaid < rewardTotal then some share.timestamp else s.lastShareTime}
      have here : Balanced config window walked met := ensured.retime rfl rfl rfl
      obtain ⟨t,paid,after,first,last⟩ := addPplnsSharePayments_balanced here positive (ensure_member _ _ _) heavy.le
      refine ⟨{t with portShares := addPortShares t.portShares share.port weight},?_,after.retime rfl rfl rfl,
        .inr ⟨share,weight,rfl,weighs,first,last⟩⟩
      simp only [visitShare,pplns,amount,if_neg (not_le.mpr heavy),ne_eq,not_true_eq_false,if_false]
      change addPplnsSharePayments config window met _ _ >>= _ = _
      rw [paid]
      rfl

theorem visitShare_balanced (balanced : Balanced config window walked s) (timed : Timed walked s)
    (positive : 0 < window) (record : Option Share) : ∃ t, visitShare config window s record = .ok t ∧
      Balanced config window (walked + recordWeight record) t ∧ Timed (walked + recordWeight record) t := by
  obtain ⟨t,visited,after,⟨weightless,first,last⟩ | ⟨share,weight,rfl,weighs,first,last⟩⟩ :=
    visitShare_cases balanced positive record
  · refine ⟨t,visited,after,?_⟩
    have light : recordWeight record = 0 := by rw [recordWeight,weightless]; rfl
    rw [light,add_zero,Timed,first,last]
    exact timed
  · refine ⟨t,visited,after,fun _ => ⟨by rw [first]; rfl,?_⟩⟩
    rw [last]
    split
    · rfl
    next full => exact (timed (positive.trans_le (balanced.full positive (not_lt.mp full)))).2

theorem visitShares_balanced (positive : 0 < window) (records : List (Option Share))
    (balanced : Balanced config window walked s) (timed : Timed walked s) :
    ∃ t, records.foldlM (visitShare config window) s = .ok t ∧
      Balanced config window (walked + heightShares records) t ∧ Timed (walked + heightShares records) t := by
  induction records generalizing walked s with
  | nil => exact ⟨s,rfl,by simpa [heightShares] using balanced,by simpa [heightShares] using timed⟩
  | cons record records ih =>
    obtain ⟨next,visited,balanced,timed⟩ := visitShare_balanced balanced timed positive record
    obtain ⟨t,rest,balanced,timed⟩ := ih balanced timed
    refine ⟨t,?_,?_,?_⟩
    · rw [List.foldlM_cons,visited]
      exact rest
    · simpa [heightShares,add_assoc] using balanced
    · simpa [heightShares,add_assoc] using timed

theorem collect_balanced (positive : 0 < window) (shareDB : ShareDB) (height : Nat)
    (balanced : Balanced config window walked s) (timed : Timed walked s) :
    ∃ t, collectPplnsSharePayments config window shareDB height s = .ok t ∧
      Balanced config window (walked + walkedShares shareDB height) t ∧
      Timed (walked + walkedShares shareDB height) t := by
  induction height generalizing walked s with
  | zero => exact ⟨s,rfl,by simpa [walkedShares] using balanced,by simpa [walkedShares] using timed⟩
  | succ height ih =>
    by_cases unpaid : s.totalPaid < rewardTotal
    · obtain ⟨next,visited,balanced,timed⟩ :=
        visitShares_balanced positive (shareDB (height + 1)) balanced timed
      obtain ⟨t,rest,balanced,timed⟩ := ih balanced timed
      refine ⟨t,?_,by simpa [walkedShares,add_assoc] using balanced,
        by simpa [walkedShares,add_assoc] using timed⟩
      rw [collectPplnsSharePayments,if_pos unpaid,visited]
      exact rest
    · have full := not_lt.mp unpaid
      refine ⟨s,by rw [collectPplnsSharePayments,if_neg unpaid],
        balanced.extend positive full (walkedShares_nonneg _ _),fun _ => timed ?_⟩
      exact positive.trans_le (balanced.full positive full)

theorem start_balanced (config : Config) (positive : 0 < window) : Balanced config window 0 (startState config) := by
  constructor
  · exact ensure_keeps (ensure_keeps (ensure_member [] _ _) _ _) _ _
  · exact ensure_keeps (ensure_member _ _ _) _ _
  · exact ensure_member _ _ _
  · exact ensure_nonneg (ensure_nonneg (ensure_nonneg (by simp) _ _ rfl) _ _ rfl) _ _ rfl
  · rw [min_eq_right positive.le]
    refine (ensure_total _ _ _ rfl).trans ?_
    exact (ensure_total _ _ _ rfl).trans (ensure_total [] _ _ rfl)
  · rw [min_eq_right positive.le]
    exact zero_mul _
  · exact fun _ => rfl

theorem start_timed (config : Config) : Timed 0 (startState config) := fun impossible =>
  absurd impossible (lt_irrefl _)

theorem blockBalanceRows_sum (paymentData : PaymentData) (window : ℚ) :
    ((blockBalanceRows paymentData window).map (·.amount)).sum = totalPayments paymentData / window := by
  induction paymentData with
  | nil => simp [blockBalanceRows]
  | cons entry rest ih =>
    obtain ⟨key,row⟩ := entry
    simp only [blockBalanceRows,List.map_map,ne_eq,decide_not,nearest_exact] at ih
    by_cases empty : row.amount = 0
    · simp [blockBalanceRows,empty,ih]
    · simp [blockBalanceRows,empty,ih,add_div]

theorem blockBalanceRows_nonneg (nonneg : ∀ entry ∈ paymentData, 0 ≤ entry.2.amount) (positive : 0 ≤ window) :
    ∀ row ∈ blockBalanceRows paymentData window, 0 ≤ row.amount := by
  intro row member
  obtain ⟨entry,inside,rfl⟩ := List.mem_map.mp member
  exact div_nonneg (nonneg entry (List.mem_filter.mp inside).1) positive

theorem uncorrected_share {total : ℚ} (uncorrected : isNeedCorrection total window = false) :
    9999/10000 ≤ total / window := by
  have close : |total / window - 1| ≤ 1/10000 := by simpa [isNeedCorrection] using uncorrected
  have := (abs_le.mp close).1
  linarith

theorem blockCredits_sum (rows : List BlockBalanceRow) (blockReward : ℕ) :
    (blockCredits rows blockReward).sum = (rows.map fun row => ⌊row.amount * (blockReward : ℚ)⌋).sum := by
  unfold blockCredits
  generalize rows.map (fun row => ⌊row.amount * (blockReward : ℚ)⌋) = credits
  induction credits with
  | nil => rfl
  | cons credit credits ih =>
    by_cases zero : credit = 0
    · simpa [zero] using ih
    · simpa [zero] using ih

theorem floored_credits (rows : List BlockBalanceRow) (blockReward : ℕ) :
    ((rows.map fun row => ⌊row.amount * (blockReward : ℚ)⌋).sum : ℚ) ≤
        (rows.map (·.amount)).sum * blockReward ∧
      (rows.map (·.amount)).sum * blockReward - rows.length ≤
        ((rows.map fun row => ⌊row.amount * (blockReward : ℚ)⌋).sum : ℚ) := by
  induction rows with
  | nil => simp
  | cons row rows ih =>
    have floor := Int.floor_le (row.amount * (blockReward : ℚ))
    have next := (Int.lt_floor_add_one (row.amount * (blockReward : ℚ))).le
    simp only [List.map_cons,List.sum_cons,List.length_cons,Int.cast_add,Nat.cast_add,Nat.cast_one,add_mul]
    constructor
    · linarith [ih.1]
    · linarith [ih.2]

/-- What `preCalculatePPLNSPayments` promises of a payout and the database its walk
read. -/
structure Walked (config : Config) (window : ℚ) (shareDB : ShareDB) (payout : Payout) : Prop where
  balanced : Balanced config window (walkedShares shareDB payout.anchorHeight) payout.state
  shares : totalPayments payout.state.paymentData ≠ 0
  rows : payout.rows = blockBalanceRows payout.state.paymentData
    (payWindow (totalPayments payout.state.paymentData) window)

theorem payoutOf_walked {blockHeight : Nat} (balanced : Balanced config window (walkedShares shareDB blockHeight) s)
    (shares : totalPayments s.paymentData ≠ 0)
    (stored : payoutOf window blockHeight s = some payout) : Walked config window shareDB payout := by
  obtain ⟨first,_,stored⟩ := Option.bind_eq_some_iff.mp stored
  obtain ⟨last,_,stored⟩ := Option.bind_eq_some_iff.mp stored
  cases stored
  exact ⟨balanced,shares,rfl⟩

theorem payoutOf_stored (times : s.firstShareTime.isSome ∧ s.lastShareTime.isSome) (window : ℚ)
    (blockHeight : Nat) : ∃ payout, payoutOf window blockHeight s = some payout ∧
      payout.anchorHeight = blockHeight := by
  obtain ⟨first,firstTime⟩ := Option.isSome_iff_exists.mp times.1
  obtain ⟨last,lastTime⟩ := Option.isSome_iff_exists.mp times.2
  exact ⟨_,by rw [payoutOf,firstTime,lastTime]; rfl,rfl⟩

theorem preCalculate_walked (config : Config) (positive : 0 < blockDifficulty)
    (shareDB : ShareDB) (blockHeight : Nat) (retries : List (Option Nat × ShareDB)) :
    ∃ result, preCalculatePPLNSPayments config blockDifficulty shareDB blockHeight retries = .ok result ∧
      ∀ payout, result = some payout → ∃ db ∈ shareDB::retries.map Prod.snd,
        Walked config (blockDifficulty * config.shareMulti) db payout := by
  have wide := mul_pos positive config.shareMulti_pos
  induction retries generalizing shareDB blockHeight with
  | nil =>
    obtain ⟨s,collected,balanced,_⟩ :=
      collect_balanced wide shareDB blockHeight (start_balanced config wide) (start_timed config)
    rw [zero_add] at balanced
    simp only [preCalculatePPLNSPayments,nearest_exact,collected,bind,Except.bind]
    split
    next => exact ⟨_,rfl,by simp⟩
    next shares =>
      exact ⟨_,rfl,fun payout stored => ⟨shareDB,by simp,payoutOf_walked balanced shares stored⟩⟩
  | cons retry retries ih =>
    obtain ⟨s,collected,balanced,_⟩ :=
      collect_balanced wide shareDB blockHeight (start_balanced config wide) (start_timed config)
    rw [zero_add] at balanced
    obtain ⟨topBlockHeight,topDB⟩ := retry
    cases topBlockHeight with
    | none =>
      simp only [preCalculatePPLNSPayments,nearest_exact,collected,bind,Except.bind]
      split
      next => exact ⟨_,rfl,by simp⟩
      next shares =>
        exact ⟨_,rfl,fun payout stored => ⟨shareDB,by simp,payoutOf_walked balanced shares stored⟩⟩
    | some topBlockHeight =>
      simp only [preCalculatePPLNSPayments,nearest_exact,collected,bind,Except.bind]
      split
      next =>
        split
        next => exact ⟨_,rfl,by simp⟩
        next =>
          obtain ⟨result,ended,stored⟩ := ih topDB topBlockHeight
          refine ⟨result,ended,fun payout same => ?_⟩
          obtain ⟨db,member,walked⟩ := stored payout same
          exact ⟨db,List.mem_cons_of_mem _ member,walked⟩
      next shares =>
        exact ⟨_,rfl,fun payout stored => ⟨shareDB,by simp,payoutOf_walked balanced shares stored⟩⟩

theorem preCalculate_anchor (config : Config) (positive : 0 < blockDifficulty)
    (shareDB : ShareDB) (blockHeight : Nat) (retries : List (Option Nat × ShareDB))
    (shares : 0 < walkedShares shareDB blockHeight) :
    ∃ payout, preCalculatePPLNSPayments config blockDifficulty shareDB blockHeight retries = .ok (some payout) ∧
      payout.anchorHeight = blockHeight ∧ Walked config (blockDifficulty * config.shareMulti) shareDB payout := by
  have wide := mul_pos positive config.shareMulti_pos
  obtain ⟨s,collected,balanced,timed⟩ :=
    collect_balanced wide shareDB blockHeight (start_balanced config wide) (start_timed config)
  rw [zero_add] at balanced timed
  have paid : totalPayments s.paymentData ≠ 0 := by
    rw [balanced.total]
    exact (lt_min wide shares).ne'
  obtain ⟨payout,stored,anchor⟩ := payoutOf_stored (timed shares) (blockDifficulty * config.shareMulti) blockHeight
  refine ⟨payout,?_,anchor,payoutOf_walked balanced paid stored⟩
  rw [← stored]
  rcases retries with _ | ⟨⟨_ | top,db⟩,retries⟩ <;>
    simp [preCalculatePPLNSPayments,collected,bind,Except.bind,paid]

theorem share_trimmed (config : Config) (positive : 0 < window) (records : List (Option Share))
    (share : Share) {weight : ℚ} (weighs : share.weight = some weight) : ∃ s t,
      records.foldlM (visitShare config window) (startState config) = .ok s ∧
      visitShare config window s (some share) = .ok t ∧
      totalPayments t.paymentData - totalPayments s.paymentData =
        min weight (window - totalPayments s.paymentData) := by
  obtain ⟨s,visited,balanced,timed⟩ :=
    visitShares_balanced positive records (start_balanced config positive) (start_timed config)
  obtain ⟨t,last,after,_⟩ := visitShare_balanced balanced timed positive (some share)
  have added : recordWeight (some share) = weight := by simp [recordWeight,weighs]
  refine ⟨s,t,visited,last,?_⟩
  rw [after.total,balanced.total,added]
  have := weight_pos weighs
  rcases le_total window (0 + heightShares records) with full | open_
  · rw [min_eq_left full,min_eq_left (by linarith),sub_self,min_eq_right this.le]
  · rw [min_eq_right open_,← min_sub_sub_right,min_comm,add_sub_cancel_left]

theorem Walked.fractions (walked : Walked config window shareDB payout)
    (positive : 0 < window) : (∀ row ∈ payout.rows, 0 ≤ row.amount) ∧
      9999/10000 ≤ (payout.rows.map (·.amount)).sum ∧ (payout.rows.map (·.amount)).sum ≤ 1 ∧
      (isNeedCorrection (totalPayments payout.state.paymentData) window = true →
        (payout.rows.map (·.amount)).sum = 1) := by
  have total := walked.balanced.total
  have nonneg : 0 ≤ totalPayments payout.state.paymentData := by
    rw [total]
    exact le_min positive.le (walkedShares_nonneg _ _)
  have shares := lt_of_le_of_ne nonneg walked.shares.symm
  rw [walked.rows,blockBalanceRows_sum]
  unfold payWindow
  cases correction : isNeedCorrection (totalPayments payout.state.paymentData) window with
  | true =>
    rw [if_pos rfl,div_self walked.shares]
    exact ⟨blockBalanceRows_nonneg walked.balanced.nonneg nonneg,by norm_num,le_rfl,fun _ => rfl⟩
  | false =>
    rw [if_neg Bool.false_ne_true]
    refine ⟨blockBalanceRows_nonneg walked.balanced.nonneg positive.le,uncorrected_share correction,?_,
      fun corrected => absurd corrected Bool.false_ne_true⟩
    rw [div_le_one positive,total]
    exact min_le_left _ _

theorem Walked.credits (walked : Walked config window shareDB payout) (positive : 0 < window) (blockReward : ℕ) :
    (blockCredits payout.rows blockReward).sum ≤ (blockReward : ℤ) ∧
      (blockReward : ℚ) * (9999/10000) - payout.rows.length ≤ ((blockCredits payout.rows blockReward).sum : ℚ) := by
  obtain ⟨_,least,most,_⟩ := walked.fractions positive
  obtain ⟨above,below⟩ := floored_credits payout.rows blockReward
  have reward : (0 : ℚ) ≤ blockReward := Nat.cast_nonneg _
  rw [blockCredits_sum]
  constructor
  · have : (payout.rows.map (·.amount)).sum * (blockReward : ℚ) ≤ blockReward :=
      mul_le_of_le_one_left reward most
    exact_mod_cast above.trans this
  · have : (9999/10000 : ℚ) * blockReward ≤ (payout.rows.map (·.amount)).sum * blockReward :=
      mul_le_mul_of_nonneg_right least reward
    linarith

/-- PPLNS payouts are exact: the walk pays nonnegative amounts of total weight `min window shares`,
trims the crossing share, and what a precalculation stores are fractions of total at most one, just
one when the window is corrected, whose floored credits stay within the reward and lose at most a
ten-thousandth of it and one atomic unit a row. -/
theorem pplns_payout_exact (config : Config) (blockDifficulty : ℚ) (positive : 0 < blockDifficulty)
    (shareDB : ShareDB) (blockHeight : Nat) (retries : List (Option Nat × ShareDB)) :
    (∃ s, collectPplnsSharePayments config (blockDifficulty * config.shareMulti) shareDB blockHeight
        (startState config) = .ok s ∧
      (∀ entry ∈ s.paymentData, 0 ≤ entry.2.amount) ∧
      totalPayments s.paymentData =
        min (blockDifficulty * config.shareMulti) (walkedShares shareDB blockHeight)) ∧
    (∀ (records : List (Option Share)) share weight, Share.weight share = some weight → ∃ s t,
      records.foldlM (visitShare config (blockDifficulty * config.shareMulti)) (startState config) = .ok s ∧
      visitShare config (blockDifficulty * config.shareMulti) s (some share) = .ok t ∧
      totalPayments t.paymentData - totalPayments s.paymentData =
        min weight (blockDifficulty * config.shareMulti - totalPayments s.paymentData)) ∧
    (0 < walkedShares shareDB blockHeight → ∃ payout,
      preCalculatePPLNSPayments config blockDifficulty shareDB blockHeight retries = .ok (some payout) ∧
      payout.anchorHeight = blockHeight) ∧
    ∃ result, preCalculatePPLNSPayments config blockDifficulty shareDB blockHeight retries = .ok result ∧
      ∀ payout, result = some payout →
        (∃ db ∈ shareDB::retries.map Prod.snd, totalPayments payout.state.paymentData =
          min (blockDifficulty * config.shareMulti) (walkedShares db payout.anchorHeight)) ∧
        (∀ row ∈ payout.rows, 0 ≤ row.amount) ∧
        (payout.rows.map (·.amount)).sum ≤ 1 ∧
        (isNeedCorrection (totalPayments payout.state.paymentData) (blockDifficulty * config.shareMulti) = true →
          (payout.rows.map (·.amount)).sum = 1) ∧
        ∀ blockReward : ℕ, (blockCredits payout.rows blockReward).sum ≤ (blockReward : ℤ) ∧
          (blockReward : ℚ) * (9999/10000) - payout.rows.length ≤
            ((blockCredits payout.rows blockReward).sum : ℚ) := by
  have wide := mul_pos positive config.shareMulti_pos
  refine ⟨?_,?_,?_,?_⟩
  · obtain ⟨s,collected,balanced,_⟩ :=
      collect_balanced wide shareDB blockHeight (start_balanced config wide) (start_timed config)
    exact ⟨s,collected,balanced.nonneg,by rw [balanced.total,zero_add]⟩
  · intro records share weight weighs
    exact share_trimmed config wide records share weighs
  · intro shares
    obtain ⟨payout,stored,anchor,_⟩ := preCalculate_anchor config positive shareDB blockHeight retries shares
    exact ⟨payout,stored,anchor⟩
  · obtain ⟨result,ended,stored⟩ := preCalculate_walked config positive shareDB blockHeight retries
    refine ⟨result,ended,fun payout same => ?_⟩
    obtain ⟨db,member,walked⟩ := stored payout same
    obtain ⟨nonneg,_,most,exactly⟩ := walked.fractions wide
    exact ⟨⟨db,member,walked.balanced.total⟩,nonneg,most,exactly,walked.credits wide⟩

def defaultConfig : Config where
  feeAddress := "fee"
  coinDevAddress := "coin"
  poolDevAddress := "pool"
  pplnsFee := 6/10
  devDonation := 3
  poolDevDonation := 3
  shareMulti := 2
  anchorRound := 1
  pplnsFee_nonneg := by norm_num
  pplnsFee_le := by norm_num
  devDonation_nonneg := by norm_num
  poolDevDonation_nonneg := by norm_num
  donations_le := by norm_num
  shareMulti_pos := by norm_num
  anchorRound_pos := by norm_num

def minedShare (timestamp : Int) (weight : ℕ) : Share :=
  ⟨"miner",none,.PPLNS,timestamp,some 18081,some weight,fun work member => by
    obtain rfl := Option.mem_some_iff.mp member
    exact Nat.cast_nonneg _⟩

def twoShares : ShareDB := fun height =>
  if height = 4 ∨ height = 5 then [some (minedShare height 15)] else []

theorem pplns_payout_exact_trimmed : ∃ s,
    collectPplnsSharePayments defaultConfig (10 * 2) twoShares 5 (startState defaultConfig) = .ok s ∧
      totalPayments s.paymentData = 20 := by
  obtain ⟨⟨s,collected,_,total⟩,_⟩ := pplns_payout_exact defaultConfig 10 (by norm_num) twoShares 5 []
  refine ⟨s,collected,total.trans ?_⟩
  have walked : walkedShares twoShares 5 = 30 := by
    norm_num [walkedShares,heightShares,twoShares,minedShare,recordWeight,Share.weight,Option.filter]
  rw [walked]
  norm_num [defaultConfig]

end NodejsPool.BlockManager
