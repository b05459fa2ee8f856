import NodejsPool.BlockManager.Precalc

/-! The window time a precalculation caches: the time between the first and the last share it
counts, in the order of the walk, whatever the arithmetic of its sums. -/
namespace NodejsPool.BlockManager
open List Arithmetic

variable {config : Config} {window : ℚ} {s t : State}

section Counted

variable [Arithmetic]

/-- The sums of the walk that decide when the window is full. -/
structure Meter where
  totalShares : ℚ
  totalPaid : ℚ

def Meter.empty : Meter := ⟨0,0⟩

def State.meter (s : State) : Meter := ⟨s.totalShares,s.totalPaid⟩

def Meter.add (window : ℚ) (meter : Meter) (amount : ℚ) : Meter :=
  if amount = 0 ∨ rewardTotal ≤ meter.totalPaid then meter
  else
    let totalShares := nearest (meter.totalShares + amount)
    ⟨totalShares,min rewardTotal (nearest (totalShares / window) * rewardTotal)⟩

/-- What a share pays: its miner, and of its fees the pool's, the pool developer's and the coin's. -/
def paidAmounts (config : Config) (amountToPay : ℚ) : List ℚ :=
  let feesToPay := nearest (amountToPay * nearest (config.pplnsFee / 100))
  let devDonation := nearest (feesToPay * nearest (config.devDonation / 100))
  let poolDevDonation := nearest (feesToPay * nearest (config.poolDevDonation / 100))
  [nearest (amountToPay - feesToPay),nearest (nearest (feesToPay - devDonation) - poolDevDonation),poolDevDonation,
    devDonation]

def Meter.share (config : Config) (window : ℚ) (meter : Meter) (weight : ℚ) : Meter :=
  (paidAmounts config weight).foldl (Meter.add window) meter

def Meter.shares (config : Config) (window : ℚ) (meter : Meter) (shares : List (Share × ℚ)) : Meter :=
  shares.foldl (fun meter share => meter.share config window share.2) meter

def weighted (records : List (Option Share)) : List (Share × ℚ) :=
  records.filterMap fun record => record.bind fun share => share.weight.map (share,·)

def weightedBelow (shareDB : ShareDB) : Nat → List (Share × ℚ)
  | 0 => []
  | height + 1 => weighted (shareDB (height + 1)) ++ weightedBelow shareDB height

/-- The shares met before the window is full. -/
def countedFrom (config : Config) (window : ℚ) : Meter → List (Share × ℚ) → List Share
  | _,[] => []
  | meter,(share,weight)::shares =>
    if meter.totalPaid < rewardTotal then share :: countedFrom config window (meter.share config window weight) shares
    else []

def countedShares (config : Config) (window : ℚ) (shareDB : ShareDB) (anchorHeight : Nat) : List Share :=
  countedFrom config window .empty (weightedBelow shareDB anchorHeight)

variable {meter : Meter}

private theorem Meter.add_full (full : rewardTotal ≤ meter.totalPaid) (amount : ℚ) : meter.add window amount = meter :=
  if_pos (.inr full)

private theorem Meter.share_full (full : rewardTotal ≤ meter.totalPaid) (weight : ℚ) :
    meter.share config window weight = meter := by
  simp only [Meter.share,paidAmounts,foldl_cons,foldl_nil,Meter.add_full full]

theorem Meter.shares_full (full : rewardTotal ≤ meter.totalPaid) (shares : List (Share × ℚ)) :
    meter.shares config window shares = meter := by
  induction shares with
  | nil => rfl
  | cons share shares ih =>
    change (meter.share config window share.2).shares config window shares = meter
    rw [Meter.share_full full,ih]

theorem countedFrom_full (full : rewardTotal ≤ meter.totalPaid) (shares : List (Share × ℚ)) :
    countedFrom config window meter shares = [] := by
  cases shares with
  | nil => rfl
  | cons share shares => rw [countedFrom,if_neg (not_lt.mpr full)]

theorem countedFrom_append (left right : List (Share × ℚ)) : countedFrom config window meter (left ++ right) =
    countedFrom config window meter left ++ countedFrom config window (meter.shares config window left) right := by
  induction left generalizing meter with
  | nil => rfl
  | cons share left ih =>
    obtain ⟨share,weight⟩ := share
    rw [cons_append,countedFrom,countedFrom]
    split
    · rw [ih,cons_append]
      rfl
    next full => rw [Meter.shares_full (not_lt.mp full),countedFrom_full (not_lt.mp full),nil_append]

end Counted

section Times

theorem bound_ok {A B : Type} {ran : Except String A} {next : A → Except String B} {value : B}
    (same : ran >>= next = .ok value) : ∃ middle, ran = .ok middle ∧ next middle = .ok value := by
  cases ran with
  | error _ => cases same
  | ok middle => exact ⟨middle,rfl,same⟩

variable {counted : List Share} {shares : List (Share × ℚ)} {key : String} {amount : ℚ}

structure TimedBy (counted : List Share) (s : State) : Prop where
  first : s.firstShareTime = counted.head?.map Share.timestamp
  last : s.lastShareTime = counted.getLast?.map Share.timestamp

theorem TimedBy.met (timed : TimedBy counted s) (share : Share)
    (first : t.firstShareTime = some (s.firstShareTime.getD share.timestamp))
    (last : t.lastShareTime = some share.timestamp) : TimedBy (counted ++ [share]) t := by
  refine ⟨?_,by rw [last,getLast?_concat]; rfl⟩
  rw [first,timed.first]
  cases counted <;> rfl

variable [Arithmetic]

/-- A payment moves the sums and keeps the times. -/
structure Metered (s : State) (meter : Meter) (t : State) : Prop where
  meter : t.meter = meter
  first : t.firstShareTime = s.firstShareTime
  last : t.lastShareTime = s.lastShareTime

private theorem addPayment_metered (paid : addPayment window s key amount = .ok t) :
    Metered s (s.meter.add window amount) t := by
  unfold addPayment at paid
  split at paid
  next skipped =>
    obtain rfl := Except.ok.inj paid
    exact ⟨(if_pos skipped).symm,rfl,rfl⟩
  next counts =>
    dsimp only at paid
    rw [Meter.add,State.meter,if_neg counts]
    split at paid
    next crosses =>
      split at paid
      · cases paid
      · obtain rfl := Except.ok.inj paid
        exact ⟨congrArg (Meter.mk _) (min_eq_left crosses.le).symm,rfl,rfl⟩
    next inside =>
      split at paid
      · cases paid
      · obtain rfl := Except.ok.inj paid
        exact ⟨congrArg (Meter.mk _) (min_eq_right (not_lt.mp inside)).symm,rfl,rfl⟩

private theorem addPplnsSharePayments_metered (paid : addPplnsSharePayments config window s key amount = .ok t) :
    Metered s (s.meter.share config window amount) t := by
  unfold addPplnsSharePayments at paid
  obtain ⟨miner,first,paid⟩ := bound_ok paid
  obtain ⟨fees,second,paid⟩ := bound_ok paid
  obtain ⟨pool,third,fourth⟩ := bound_ok paid
  have first := addPayment_metered first
  have second := addPayment_metered second
  have third := addPayment_metered third
  have fourth := addPayment_metered fourth
  refine ⟨?_,?_,?_⟩
  · rw [fourth.meter,third.meter,second.meter,first.meter]
    rfl
  · rw [fourth.first,third.first,second.first,first.first]
  · rw [fourth.last,third.last,second.last,first.last]

private theorem visitShare_cases_ok (record : Option Share) (visited : visitShare config window s record = .ok t) :
    (record.bind Share.weight = none ∧ Metered s s.meter t) ∨
      ∃ share weight, record = some share ∧ share.weight = some weight ∧
        t.meter = s.meter.share config window weight ∧
        t.firstShareTime = some (s.firstShareTime.getD share.timestamp) ∧
        t.lastShareTime = if s.totalPaid < rewardTotal then some share.timestamp else s.lastShareTime := by
  cases record with
  | none =>
    obtain rfl := Except.ok.inj visited
    exact .inl ⟨rfl,rfl,rfl,rfl⟩
  | some share =>
    unfold visitShare at visited
    dsimp only at visited
    split at visited
    next other =>
      obtain rfl := Except.ok.inj visited
      exact .inl ⟨if_neg other,rfl,rfl,rfl⟩
    next pplns =>
      have weight : share.weight = share.shares2.filter (0 < ·) := if_pos (not_not.mp pplns)
      split at visited
      next none =>
        obtain rfl := Except.ok.inj visited
        exact .inl ⟨by rw [Option.bind_some,weight,none]; rfl,rfl,rfl,rfl⟩
      next work some =>
        split at visited
        next small =>
          obtain rfl := Except.ok.inj visited
          refine .inl ⟨?_,rfl,rfl,rfl⟩
          rw [Option.bind_some,weight,some]
          exact if_neg (by simpa using small)
        next heavy =>
          obtain ⟨next,paid,visited⟩ := bound_ok visited
          obtain rfl := Except.ok.inj visited
          have metered := addPplnsSharePayments_metered paid
          refine .inr ⟨share,work,rfl,?_,metered.meter,metered.first,metered.last⟩
          rw [weight,some]
          exact if_pos (by simpa using heavy)

/-- The walk has met `shares`, and knows the times of those it counted. -/
structure Met (config : Config) (window : ℚ) (shares : List (Share × ℚ)) (s : State) : Prop where
  meter : s.meter = Meter.empty.shares config window shares
  timed : TimedBy (countedFrom config window .empty shares) s

theorem Met.filled (met : Met config window shares s) (full : rewardTotal ≤ s.totalPaid) :
    countedFrom config window .empty shares ≠ [] := by
  have unpaid : Meter.empty.totalPaid < rewardTotal := by decide +kernel
  cases shares with
  | nil =>
    have start : s.totalPaid = 0 := congrArg Meter.totalPaid met.meter
    exact absurd full (not_le.mpr (start ▸ unpaid))
  | cons share shares =>
    rw [countedFrom,if_pos unpaid]
    exact cons_ne_nil _ _

theorem Met.extend {more : List (Share × ℚ)} (met : Met config window shares s)
    (meter : t.meter = s.meter.shares config window more)
    (timed : TimedBy (countedFrom config window .empty shares ++ countedFrom config window s.meter more) t) :
    Met config window (shares ++ more) t := by
  constructor
  · rw [meter,met.meter,Meter.shares,Meter.shares,Meter.shares,foldl_append]
  · rw [countedFrom_append,← met.meter]
    exact timed

private theorem visitShare_met (met : Met config window shares s) (record : Option Share)
    (visited : visitShare config window s record = .ok t) : Met config window (shares ++ weighted [record]) t := by
  rcases visitShare_cases_ok record visited with ⟨weightless,metered⟩ | ⟨share,weight,rfl,weighs,meter,first,last⟩
  · have nothing : weighted [record] = [] := by simpa [weighted] using weightless
    rw [nothing]
    apply met.extend metered.meter
    rw [countedFrom,append_nil]
    exact ⟨metered.first.trans met.timed.first,metered.last.trans met.timed.last⟩
  · have single : weighted [some share] = [(share,weight)] := by simp [weighted,weighs]
    rw [single]
    apply met.extend meter
    rw [countedFrom]
    by_cases unpaid : s.totalPaid < rewardTotal
    · rw [if_pos (show s.meter.totalPaid < rewardTotal from unpaid)]
      exact met.timed.met share first (last.trans (if_pos unpaid))
    · rw [if_neg (show ¬s.meter.totalPaid < rewardTotal from unpaid),append_nil]
      -- a full window has counted a share, whose time stays the first
      obtain ⟨earlier,rest,counted⟩ := exists_cons_of_ne_nil (met.filled (not_lt.mp unpaid))
      have timed := met.timed
      rw [counted] at timed ⊢
      refine ⟨?_,last.trans ((if_neg unpaid).trans timed.last)⟩
      rw [first,timed.first]
      rfl

private theorem visitShares_met (records : List (Option Share)) (met : Met config window shares s)
    (visited : records.foldlM (visitShare config window) s = .ok t) :
    Met config window (shares ++ weighted records) t := by
  induction records generalizing shares s with
  | nil =>
    obtain rfl := Except.ok.inj visited
    simpa [weighted] using met
  | cons record records ih =>
    rw [foldlM_cons] at visited
    obtain ⟨next,here,rest⟩ := bound_ok visited
    have split : weighted (record::records) = weighted [record] ++ weighted records := by
      rw [weighted,← singleton_append,filterMap_append]
      rfl
    rw [split,← append_assoc]
    exact ih (visitShare_met met record here) rest

theorem collect_met (shareDB : ShareDB) (height : Nat) (met : Met config window shares s)
    (collected : collectPplnsSharePayments config window shareDB height s = .ok t) :
    Met config window (shares ++ weightedBelow shareDB height) t := by
  induction height generalizing shares s with
  | zero =>
    obtain rfl := Except.ok.inj collected
    simpa [weightedBelow] using met
  | succ height ih =>
    rw [collectPplnsSharePayments] at collected
    split at collected
    · obtain ⟨next,here,rest⟩ := bound_ok collected
      rw [weightedBelow,← append_assoc]
      exact ih (visitShares_met _ met here) rest
    next paid =>
      obtain rfl := Except.ok.inj collected
      have full : rewardTotal ≤ s.meter.totalPaid := not_lt.mp paid
      apply met.extend (Meter.shares_full full _).symm
      rw [countedFrom_full full,append_nil]
      exact met.timed

theorem start_met (config : Config) (window : ℚ) : Met config window [] (startState config) := ⟨rfl,rfl,rfl⟩

end Times

section Window

variable {counted : List Share} {shareDB : ShareDB} {payout : Payout}

structure NewestFirst (counted : List Share) : Prop where
  newest : ∀ first ∈ counted.head?, ∀ share ∈ counted, share.timestamp ≤ first.timestamp
  oldest : ∀ last ∈ counted.getLast?, ∀ share ∈ counted, last.timestamp ≤ share.timestamp

def SpansWindow (counted : List Share) (seconds : ℚ) : Prop :=
  ∃ newest oldest : ℤ, IsGreatest {time | ∃ share ∈ counted, share.timestamp = time} newest ∧
    IsLeast {time | ∃ share ∈ counted, share.timestamp = time} oldest ∧ seconds = (newest - oldest) / 1000

theorem spansWindow_iff {first last : Share} (head : counted.head? = some first)
    (final : counted.getLast? = some last) :
    SpansWindow counted ((first.timestamp - last.timestamp) / 1000) ↔ NewestFirst counted := by
  have firstIn : first ∈ counted := mem_of_mem_head? head
  have lastIn : last ∈ counted := mem_of_getLast? final
  constructor
  · rintro ⟨newest,oldest,⟨_,above⟩,⟨_,below⟩,same⟩
    have high : first.timestamp ≤ newest := above ⟨first,firstIn,rfl⟩
    have low : oldest ≤ last.timestamp := below ⟨last,lastIn,rfl⟩
    have equal : first.timestamp - last.timestamp = newest - oldest := by
      have scaled : (first.timestamp - last.timestamp : ℚ) = newest - oldest := by linarith
      exact_mod_cast scaled
    have top : first.timestamp = newest := by omega
    have bottom : last.timestamp = oldest := by omega
    refine ⟨?_,?_⟩
    · intro other same share member
      cases head.symm.trans same
      exact top ▸ above ⟨share,member,rfl⟩
    · intro other same share member
      cases final.symm.trans same
      exact bottom ▸ below ⟨share,member,rfl⟩
  · intro ordered
    refine ⟨first.timestamp,last.timestamp,⟨⟨first,firstIn,rfl⟩,?_⟩,⟨⟨last,lastIn,rfl⟩,?_⟩,rfl⟩
    · rintro time ⟨share,member,rfl⟩
      exact ordered.newest first head share member
    · rintro time ⟨share,member,rfl⟩
      exact ordered.oldest last final share member

theorem SpansWindow.nonneg {seconds : ℚ} (spans : SpansWindow counted seconds) : 0 ≤ seconds := by
  obtain ⟨newest,oldest,⟨⟨share,member,rfl⟩,_⟩,⟨_,below⟩,rfl⟩ := spans
  have ordered : oldest ≤ share.timestamp := below ⟨share,member,rfl⟩
  have cast : (oldest : ℚ) ≤ share.timestamp := by exact_mod_cast ordered
  exact div_nonneg (by linarith) (by norm_num)

variable [Arithmetic]

def WalkedOver (config : Config) (window : ℚ) (shareDB : ShareDB) (payout : Payout) : Prop :=
  collectPplnsSharePayments config window shareDB payout.anchorHeight (startState config) = .ok payout.state ∧
    payoutOf window payout.anchorHeight payout.state = some payout

private theorem payoutOf_walkedOver {blockHeight : Nat}
    (collected : collectPplnsSharePayments config window shareDB blockHeight (startState config) = .ok s)
    (stored : payoutOf window blockHeight s = some payout) : WalkedOver config window shareDB payout := by
  obtain ⟨first,_,made⟩ := Option.bind_eq_some_iff.mp stored
  obtain ⟨last,_,made⟩ := Option.bind_eq_some_iff.mp made
  cases made
  exact ⟨collected,stored⟩

private theorem preCalculate_walkedOver (config : Config) {blockDifficulty : ℚ}
    (shareDB : ShareDB) (blockHeight : Nat) (retries : List (Option Nat × ShareDB))
    (stored : preCalculatePPLNSPayments config blockDifficulty shareDB blockHeight retries = .ok (some payout)) :
    ∃ db ∈ shareDB::retries.map Prod.snd, WalkedOver config (nearest (blockDifficulty * config.shareMulti)) db
    payout := by
  induction retries generalizing shareDB blockHeight with
  | nil =>
    unfold preCalculatePPLNSPayments at stored
    obtain ⟨s,collected,stored⟩ := bound_ok stored
    split at stored
    · cases stored
    · exact ⟨shareDB,by simp,payoutOf_walkedOver collected (Except.ok.inj stored)⟩
  | cons retry retries ih =>
    unfold preCalculatePPLNSPayments at stored
    obtain ⟨s,collected,stored⟩ := bound_ok stored
    obtain ⟨topBlockHeight,topDB⟩ := retry
    split at stored
    · cases topBlockHeight with
      | none => cases stored
      | some topBlockHeight =>
        dsimp only at stored
        split at stored
        · cases stored
        · obtain ⟨db,member,walked⟩ := ih topDB topBlockHeight stored
          exact ⟨db,mem_cons_of_mem _ member,walked⟩
    · exact ⟨shareDB,by simp,payoutOf_walkedOver collected (Except.ok.inj stored)⟩

private theorem WalkedOver.window_time (walked : WalkedOver config window shareDB payout) :
    ∃ first last, (countedShares config window shareDB payout.anchorHeight).head? = some first ∧
      (countedShares config window shareDB payout.anchorHeight).getLast? = some last ∧
      payout.pplns_window_time = (first.timestamp - last.timestamp) / 1000 := by
  have met := collect_met shareDB payout.anchorHeight (start_met config window) walked.1
  obtain ⟨firstTime,first,made⟩ := Option.bind_eq_some_iff.mp walked.2
  obtain ⟨lastTime,last,made⟩ := Option.bind_eq_some_iff.mp made
  have time := congrArg Payout.pplns_window_time (Option.some.inj made)
  rw [met.timed.first] at first
  rw [met.timed.last] at last
  obtain ⟨newest,head,rfl⟩ := Option.map_eq_some_iff.mp first
  obtain ⟨oldest,final,rfl⟩ := Option.map_eq_some_iff.mp last
  exact ⟨newest,oldest,head,final,time.symm⟩

/-- The cached window time spans the counted shares just when the walk meets a newest one first and an
oldest one last. -/
theorem window_time_spans (config : Config) (blockDifficulty : ℚ) (shareDB : ShareDB) (blockHeight : Nat)
    (retries : List (Option Nat × ShareDB)) {payout : Payout}
    (stored : preCalculatePPLNSPayments config blockDifficulty shareDB blockHeight retries = .ok (some payout)) :
    ∃ db ∈ shareDB::retries.map Prod.snd, WalkedOver config (nearest (blockDifficulty * config.shareMulti)) db payout ∧
      (SpansWindow (countedShares config (nearest (blockDifficulty * config.shareMulti)) db payout.anchorHeight)
          payout.pplns_window_time ∧ 0 ≤ payout.pplns_window_time ↔
        NewestFirst (countedShares config (nearest (blockDifficulty * config.shareMulti)) db payout.anchorHeight)) := by
  obtain ⟨db,member,walked⟩ := preCalculate_walkedOver config shareDB blockHeight retries stored
  refine ⟨db,member,walked,?_⟩
  obtain ⟨first,last,head,final,time⟩ := walked.window_time
  rw [time,← spansWindow_iff head final]
  exact ⟨fun both => both.1,fun spans => ⟨spans,spans.nonneg⟩⟩

end Window

section Doubles
open Arithmetic.Rounded

def roundedConfig : Config := {defaultConfig with
  pplnsFee := nearest (6/10)
  pplnsFee_nonneg := by decide +kernel
  pplnsFee_le := by decide +kernel}

def heightFive (records : List Share) : ShareDB := fun height => if height = 5 then records.map some else []

-- the fees of a share that fills the window leave 0.9999999999999998 of it, and the walk goes on
example : (countedShares roundedConfig 10 (heightFive [minedShare 1000 10,minedShare 5000 10]) 5).map Share.timestamp =
    [1000,5000] := by decide +kernel

theorem precalculated {A : Type} {ran : Except String (Option Payout)} {reading : Payout → A} {value : A}
    (seen : ran.toOption.join.map reading = some value) : ∃ payout, ran = .ok (some payout) ∧
    reading payout = value := by
  obtain ⟨payout,made,same⟩ := Option.map_eq_some_iff.mp seen
  refine ⟨payout,?_,same⟩
  cases ran with
  | error _ => cases made
  | ok result => exact congrArg Except.ok made

theorem older_share_first : ¬∀ (config : Config) (blockDifficulty : ℚ), 0 < blockDifficulty →
    ∀ shareDB blockHeight retries payout,
      preCalculatePPLNSPayments config blockDifficulty shareDB blockHeight retries = .ok (some payout) →
      ∃ db ∈ shareDB::retries.map Prod.snd, WalkedOver config (nearest (blockDifficulty * config.shareMulti)) db
      payout ∧
        SpansWindow (countedShares config (nearest (blockDifficulty * config.shareMulti)) db payout.anchorHeight)
          payout.pplns_window_time ∧
        0 ≤ payout.pplns_window_time := by
  intro spans
  have seen : (preCalculatePPLNSPayments roundedConfig 10 (heightFive [minedShare 1000 5,minedShare 5000 5]) 5
      []).toOption.join.map Payout.pplns_window_time = some (-4) := by decide +kernel
  obtain ⟨payout,stored,time⟩ := precalculated seen
  obtain ⟨_,_,_,_,nonneg⟩ := spans roundedConfig 10 (by norm_num) _ 5 [] payout stored
  rw [time] at nonneg
  norm_num at nonneg

theorem window_time_spans_two : ∃ payout,
    preCalculatePPLNSPayments roundedConfig 10 twoShares 5 [] = .ok (some payout) ∧
      SpansWindow (countedShares roundedConfig (nearest (10 * 2)) twoShares payout.anchorHeight)
      payout.pplns_window_time := by
  have seen : (preCalculatePPLNSPayments roundedConfig 10 twoShares 5 []).toOption.join.map Payout.anchorHeight =
      some 5 := by
    decide +kernel
  obtain ⟨payout,stored,anchor⟩ := precalculated seen
  obtain ⟨db,member,_,spans⟩ := window_time_spans roundedConfig 10 twoShares 5 [] stored
  obtain rfl : db = twoShares := mem_singleton.mp member
  refine ⟨payout,stored,(spans.mpr ?_).1⟩
  rw [anchor]
  exact ⟨by decide +kernel,by decide +kernel⟩

end Doubles
end NodejsPool.BlockManager
