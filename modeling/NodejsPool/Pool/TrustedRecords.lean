import NodejsPool.Pool.ShareConservation

/-! Which shares a stored record was made of, and when the flag it carries is theirs: a record that is
trusted holds trusted shares only, unless a trusted share made an accumulator with others start over. -/
namespace NodejsPool.Pool.TrustedRecords
open Async Entries ShareAccumulator Arithmetic Arithmetic.Rounded Option

def liveWorker (state : State) (key : String × String) : Option ShareWorker :=
  (get state.walletAcc key.1).bind fun wallet => get wallet key.2

def shareKey (miner : Miner) (blockTemplate : BlockTemplate) (state : State) : String × String :=
  let walletKey := getWalletKey miner blockTemplate
  let opened := openWallet walletKey state
  (walletKey,chooseWorker miner ((get opened.walletAcc walletKey).getD []) (workerCount opened walletKey))

def startsOver (settings : Settings) (worker : ShareWorker) : Bool :=
  !decide (settings.timeNow - worker.time ≤ getShareAccTimeMs settings ∧ worker.acc < maxAcc)

def expired (settings : Settings) (wallet : Wallet) : Wallet :=
  wallet.filter fun entry => getShareAccTimeMs settings < settings.timeNow - entry.2.time

def removedRecords (settings : Settings) (miner : Miner) (btPort : ℕ) (entry : String × ShareWorker) :
    List ShareRecord :=
  if entry.2.acc ≠ 0 then storeShareDiv settings miner entry.2 entry.1 btPort entry.2.trustedShare else []

section Records

variable {settings : Settings} {miner : Miner} {worker : ShareWorker} {workerName : String} {btPort : ℕ}
    {trusted : Bool}

def hasPayee (miner : Miner) : Bool := miner.payout_div.elim true fun payout_div => payout_div.any
    fun leg => leg.2.isSome

theorem mem_storeShareDiv {record : ShareRecord}
    (member : record ∈ storeShareDiv settings miner worker workerName btPort trusted) :
    record.share_num = worker.share_num ∧ record.trustedShare = trusted ∧ record.shares = worker.shares := by
  unfold storeShareDiv at member
  split at member
  · rw [List.mem_singleton.mp member]
    exact ⟨rfl,rfl,rfl⟩
  · obtain ⟨⟨payout,payoutPercent⟩,-,made⟩ := List.mem_filterMap.mp member
    obtain ⟨percent,-,rfl⟩ := map_eq_some_iff.mp made
    exact ⟨rfl,rfl,rfl⟩

theorem storeShareDiv_nonempty : (∃ record, record ∈ storeShareDiv settings miner worker workerName btPort trusted) ↔
    hasPayee miner = true := by
  unfold storeShareDiv hasPayee
  cases miner.payout_div with
  | none => simp
  | some payout_div =>
    simp only [elim_some,List.mem_filterMap,List.any_eq_true,map_eq_some_iff]
    constructor
    · rintro ⟨record,leg,member,percent,some,-⟩
      exact ⟨leg,member,by rw [some]; rfl⟩
    · rintro ⟨leg,member,some⟩
      obtain ⟨percent,some⟩ := isSome_iff_exists.mp some
      exact ⟨_,leg,member,percent,some,rfl⟩

theorem getShareAccTimeMs_nonneg (settings : Settings) : 0 ≤ getShareAccTimeMs settings := by
  unfold getShareAccTimeMs
  split
  · norm_num
  · split
    · norm_num
    · next configured => linarith [not_lt.mp configured]

end Records

section Accepting

variable (settings : Settings) (miner : Miner) (job : ShareJob) (trusted : Bool) (blockTemplate : BlockTemplate)
    (state : State)

def emptyWorker : ShareWorker :=
  ⟨getDbJobHeight settings blockTemplate,blockTemplate.difficulty,settings.timeNow,0,0,0,0,trusted,[]⟩

theorem openWallet_live (walletKey : String) (key : String × String) :
    liveWorker (openWallet walletKey state) key = liveWorker state key := by
  unfold openWallet
  cases known : get state.walletAcc walletKey with
  | some wallet => rfl
  | none =>
    unfold liveWorker
    by_cases same : key.1 = walletKey
    · rw [same,get_put_self,known]
      rfl
    · rw [get_put_other same]

theorem openWallet_known (walletKey : String) : ∃ wallet, get (openWallet walletKey state).walletAcc walletKey =
    some wallet := by
  unfold openWallet
  cases known : get state.walletAcc walletKey with
  | some wallet => exact ⟨wallet,known⟩
  | none => exact ⟨[],get_put_self⟩

theorem openWallet_records (walletKey : String) : (openWallet walletKey state).records = state.records := by
  unfold openWallet
  split <;> rfl

def Distinct (state : State) : Prop :=
  ∀ walletKey wallet, get state.walletAcc walletKey = some wallet → (wallet.map Prod.fst).Nodup

theorem Distinct.put {state after : State} {walletKey : String} {wallet : Wallet} (distinct : Distinct state)
    (wallets : after.walletAcc = put state.walletAcc walletKey wallet) (own : (wallet.map Prod.fst).Nodup) :
    Distinct after := by
  intro other found entry
  rw [wallets] at entry
  by_cases same : other = walletKey
  · rw [same,get_put_self] at entry
    cases entry
    exact own
  · rw [get_put_other same] at entry
    exact distinct other found entry

theorem openWallet_distinct {state : State} (walletKey : String) (distinct : Distinct state) :
    Distinct (openWallet walletKey state) := by
  unfold openWallet
  cases known : get state.walletAcc walletKey with
  | some wallet => exact distinct
  | none => exact distinct.put rfl List.nodup_nil

theorem creditWorker_spec (walletKey : String) (wallet : Wallet) :
    let workerName := chooseWorker miner wallet (workerCount state walletKey)
    let updated := updateShareWorker settings miner job
      ((get wallet workerName).getD (emptyWorker settings trusted blockTemplate)) workerName blockTemplate
      (getDbJobHeight settings blockTemplate) trusted
    ∃ entered : Wallet, (∀ other, other ≠ workerName → get entered other = get wallet other) ∧
      ((wallet.map Prod.fst).Nodup → (entered.map Prod.fst).Nodup) ∧
      (creditWorker settings miner job trusted blockTemplate walletKey wallet state).walletAcc =
        put state.walletAcc walletKey (put entered workerName updated.1) ∧
      (creditWorker settings miner job trusted blockTemplate walletKey wallet state).records =
        state.records ++ updated.2 := by
  intro workerName updated
  unfold creditWorker
  cases found : get wallet workerName with
  | some worker =>
    have same : updated = updateShareWorker settings miner job worker workerName blockTemplate
        (getDbJobHeight settings blockTemplate) trusted := by
      simp only [updated,found,getD_some]
    refine ⟨wallet,fun _ _ => rfl,id,?_,?_⟩ <;> simp only [found,workerName,isSome_some,if_true] at found ⊢ <;>
      simp only [same,armFinalizer_walletAcc,armFinalizer_records] <;> rfl
  | none =>
    have same : updated = updateShareWorker settings miner job (emptyWorker settings trusted blockTemplate)
      workerName blockTemplate (getDbJobHeight settings blockTemplate) trusted := by
      simp only [updated,found,getD_none]
    refine ⟨put wallet workerName (emptyWorker settings trusted blockTemplate),fun _ apart =>
      get_put_other apart,put_distinct,?_,?_⟩ <;>
      simp only [found,workerName,isSome_none,Bool.false_eq_true,if_false,addShareWorker,get_put_self] at found ⊢ <;>
      simp only [same,armFinalizer_walletAcc,armFinalizer_records] <;> rfl

theorem recordShareData_spec : let key := shareKey miner blockTemplate state
    let after := recordShareData settings miner job trusted blockTemplate state
    let updated := updateShareWorker settings miner job
      ((liveWorker state key).getD (emptyWorker settings trusted blockTemplate)) key.2 blockTemplate
      (getDbJobHeight settings blockTemplate) trusted
    (Distinct state → Distinct after) ∧ (∀ other, other ≠ key → liveWorker after other = liveWorker state other) ∧
      liveWorker after key = some updated.1 ∧ after.records = state.records ++ updated.2 := by
  intro key after updated
  -- touching the miner's activity moves no accumulator
  obtain ⟨touched,touch⟩ : ∃ touched, touched =
    { state with activity := touchMiner settings miner job state.activity } := ⟨_,rfl⟩
  have live : ∀ other, liveWorker (openWallet key.1 touched) other = liveWorker state other := by
    intro other
    rw [openWallet_live,touch]
    rfl
  obtain ⟨wallet,known⟩ := openWallet_known touched key.1
  have count : workerCount (openWallet key.1 touched) key.1 = workerCount (openWallet key.1 state) key.1 := by
    rw [touch]
    unfold openWallet
    cases get state.walletAcc key.1 <;> rfl
  have opened : (openWallet key.1 touched).walletAcc = (openWallet key.1 state).walletAcc := by
    rw [touch]
    unfold openWallet
    cases get state.walletAcc key.1 <;> rfl
  have name : chooseWorker miner wallet (workerCount (openWallet key.1 touched) key.1) = key.2 := by
    rw [count]
    change _ = chooseWorker miner ((get (openWallet key.1 state).walletAcc key.1).getD []) _
    rw [← opened,known]
    rfl
  have here : get wallet key.2 = liveWorker state key := by
    rw [← live key]
    unfold liveWorker
    rw [known]
    rfl
  have made : after = creditWorker settings miner job trusted blockTemplate key.1 wallet
      (openWallet key.1 touched) := by
    subst touch
    let state' : State := { state with activity := touchMiner settings miner job state.activity }
    change get (openWallet (getWalletKey miner blockTemplate) state').walletAcc (getWalletKey miner blockTemplate) =
      _ at known
    change recordShareData settings miner job trusted blockTemplate state = _
    rw [recordShareData]
    dsimp only [state'] at known ⊢
    rw [known]
    rfl
  obtain ⟨entered,others,distinct,wallets,records⟩ :=
    creditWorker_spec settings miner job trusted blockTemplate (openWallet key.1 touched) key.1 wallet
  rw [name,here] at wallets records
  rw [name] at others
  rw [made]
  refine ⟨?_,?_,?_,?_⟩
  · intro apart
    have openedDistinct : Distinct (openWallet key.1 touched) := by
      apply openWallet_distinct
      rw [touch]
      exact apart
    exact openedDistinct.put wallets (put_distinct (distinct (openedDistinct _ _ known)))
  · intro other apart
    rw [← live other]
    unfold liveWorker
    rw [wallets]
    by_cases same : other.1 = key.1
    · have names : other.2 ≠ key.2 := fun equal => apart (Prod.ext same equal)
      rw [same,get_put_self,known,bind_some,bind_some,get_put_other names,others _ names]
    · rw [get_put_other same]
  · unfold liveWorker
    rw [wallets,get_put_self,bind_some,get_put_self]
  · rw [records,openWallet_records,touch]

end Accepting

section Finalizing

variable (settings : Settings) (miner : Miner) (btPort : ℕ)

theorem scanWorkers_expired (workers : Wallet) (scan : Scan) : (scanWorkers settings miner btPort workers scan).wallet =
        scan.wallet.filter (fun entry => !decide (entry.1 ∈ (expired settings workers).map Prod.fst)) ∧
      (scanWorkers settings miner btPort workers scan).records =
        scan.records ++ (expired settings workers).flatMap (removedRecords settings miner btPort) := by
  induction workers generalizing scan with
  | nil => simp [scanWorkers,expired]
  | cons entry workers ih =>
    obtain ⟨workerName,worker⟩ := entry
    rw [scanWorkers]
    by_cases old : getShareAccTimeMs settings < settings.timeNow - worker.time
    · have more : expired settings ((workerName,worker)::workers) = (workerName,worker)::expired settings workers := by
        unfold expired
        rw [List.filter_cons_of_pos (by simpa using old)]
      obtain ⟨wallet,records⟩ := ih (removeWorker settings miner btPort scan workerName worker)
      rw [if_pos old,more,wallet,records]
      refine ⟨?_,?_⟩
      · simp only [removeWorker,erase,List.filter_filter,List.map_cons]
        congr 1
        funext entry
        by_cases same : entry.1 = workerName <;> simp [same]
      · simp only [removeWorker,removedRecords,List.flatMap_cons,List.append_assoc]
    · have less : expired settings ((workerName,worker)::workers) = expired settings workers := by
        unfold expired
        rw [List.filter_cons_of_neg (by simpa using old)]
      obtain ⟨wallet,records⟩ := ih { scan with isSomethingLeft := true }
      rw [if_neg old,less,wallet,records]
      exact ⟨rfl,rfl⟩

theorem walletAccFinalizer_spec (walletKey : String) (state : State) :
    let removed := expired settings ((get state.walletAcc walletKey).getD [])
    let after := walletAccFinalizer settings walletKey miner btPort state
    (Distinct state → Distinct after) ∧
      (∀ key, liveWorker after key = if key.1 = walletKey ∧
      key.2 ∈ removed.map Prod.fst then none else liveWorker state key) ∧
      after.records = state.records ++ removed.flatMap (removedRecords settings miner btPort) := by
  intro removed after
  cases known : get state.walletAcc walletKey with
  | none =>
    have nothing : removed = [] := by simp only [removed,known,getD_none]; rfl
    have made : after = { state with isWalletAccFinalizer := put state.isWalletAccFinalizer walletKey false } := by
      simp only [after,walletAccFinalizer,known]
    rw [made,nothing]
    refine ⟨fun distinct => distinct,fun key => ?_,?_⟩
    · rw [if_neg (fun gone => List.not_mem_nil gone.2)]
      rfl
    · simp
  | some wallet =>
    have gone : removed = expired settings wallet := by simp only [removed,known,getD_some]
    obtain ⟨left,records⟩ := scanWorkers_expired settings miner btPort wallet ⟨wallet,workerCount state walletKey,[],
      false⟩
    rw [← gone,List.nil_append] at records
    rw [← gone] at left
    have made : after.walletAcc = put state.walletAcc walletKey
          (scanWorkers settings miner btPort wallet ⟨wallet,workerCount state walletKey,[],false⟩).wallet ∧
        after.records = state.records ++
          (scanWorkers settings miner btPort wallet ⟨wallet,workerCount state walletKey,[],false⟩).records := by
      simp only [after,walletAccFinalizer,known]
      split <;> exact ⟨rfl,rfl⟩
    rw [left,records] at made
    refine ⟨?_,?_,made.2⟩
    · exact fun distinct => distinct.put made.1 ((distinct _ _ known).sublist (List.filter_sublist.map Prod.fst))
    · intro key
      unfold liveWorker
      rw [made.1]
      by_cases same : key.1 = walletKey
      · rw [same,get_put_self,known,bind_some,bind_some,
          get_filter fun name => !decide (name ∈ removed.map Prod.fst)]
        by_cases out : key.2 ∈ removed.map Prod.fst
        · simp [out]
        · simp [out]
      · rw [get_put_other same,if_neg fun both => same both.1]

end Finalizing

section Flags

def Counted (record : ShareRecord) : Prop := record.share_num = record.shares.length

def Faithful (record : ShareRecord) : Prop := record.trustedShare = true → ∀ share ∈ record.shares, share.2 = true

structure Steady (worker : ShareWorker) : Prop where
  positive : 0 < worker.acc
  number : worker.share_num = worker.shares.length
  flag : worker.trustedShare = worker.shares.all Prod.snd

structure Tracked (state : State) : Prop where
  distinct : Distinct state
  steady : ∀ key worker, liveWorker state key = some worker → Steady worker
  counted : ∀ record ∈ state.records, Counted record

/-- What a label must not do: let a trusted share flush an accumulator that holds one which is not. -/
def Fair (state : State) : Label → Prop
  | .accept settings miner _ isTrustedShare blockTemplate =>
    ¬(isTrustedShare = true ∧ hasPayee miner = true ∧ ∃ worker, liveWorker state (shareKey miner blockTemplate state) =
      some worker ∧
      startsOver settings worker = true ∧ ∃ share ∈ worker.shares, share.2 = false)
  | .fire _ _ => True

theorem tracked_initial {state : State} (start : shareAccumulator.initial state) :
    Tracked state ∧ ∀ record ∈ state.records, Faithful record := by
  obtain ⟨wallets,-,-,-,records,-⟩ := start
  rw [records]
  refine ⟨⟨?_,?_,?_⟩,List.forall_mem_nil _⟩
  · intro walletKey wallet found
    rw [wallets] at found
    cases found
  · intro key worker found
    unfold liveWorker at found
    rw [wallets] at found
    cases found
  · rw [records]
    exact List.forall_mem_nil _

end Flags

section Steps

variable {settings : Settings} {miner : Miner} {job : ShareJob} {trusted : Bool} {blockTemplate : BlockTemplate}
  {worker : ShareWorker} {workerName : String} {state : State}

theorem updateShareWorker_kept (dbJobHeight : Option ℕ) (kept : startsOver settings worker = false) :
    updateShareWorker settings miner job worker workerName blockTemplate dbJobHeight trusted =
      ({ worker with
        acc := nearest (worker.acc + job.rewarded_difficulty)
        raw_acc := nearest (worker.raw_acc + getRawShareReward job)
        acc2 := nearest (worker.acc2 + job.rewarded_difficulty2)
        share_num := worker.share_num + 1
        trustedShare := worker.trustedShare && trusted
        shares := worker.shares ++ [(job,trusted)] },[]) := by
  unfold startsOver at kept
  exact if_pos (of_decide_eq_true (by simpa only [Bool.not_eq_false'] using kept))

theorem updateShareWorker_over (dbJobHeight : Option ℕ)
    (restarts : startsOver settings worker = true) (positive : 0 < worker.acc) :
    updateShareWorker settings miner job worker workerName blockTemplate dbJobHeight trusted =
      (⟨dbJobHeight,blockTemplate.difficulty,settings.timeNow,job.rewarded_difficulty,getRawShareReward job,
        job.rewarded_difficulty2,1,trusted,[(job,trusted)]⟩,
        storeShareDiv settings miner worker workerName blockTemplate.port trusted) := by
  unfold startsOver at restarts
  unfold updateShareWorker
  rw [if_neg (of_decide_eq_false (by simpa only [Bool.not_eq_true'] using restarts)),if_pos positive.ne']

theorem emptyWorker_kept : startsOver settings (emptyWorker settings trusted blockTemplate) = false := by
  unfold startsOver emptyWorker
  have small : (0 : ℚ) < maxAcc := by norm_num [maxAcc]
  simp [getShareAccTimeMs_nonneg,small]

theorem stored_faithful {btPort : ℕ} :
    (∀ record ∈ storeShareDiv settings miner worker workerName btPort trusted, Faithful record) ↔
      ¬(trusted = true ∧ hasPayee miner = true ∧ ∃ share ∈ worker.shares, share.2 = false) := by
  constructor
  · rintro faithful ⟨isTrusted,payee,share,inside,untrusted⟩
    obtain ⟨record,member⟩ : ∃ record, record ∈ storeShareDiv settings miner worker workerName btPort trusted :=
      storeShareDiv_nonempty.mpr payee
    obtain ⟨-,flag,shares⟩ := mem_storeShareDiv member
    have all := faithful record member (flag.trans isTrusted) share (shares ▸ inside)
    rw [untrusted] at all
    cases all
  · intro fair record member flag share inside
    by_contra untrusted
    obtain ⟨-,same,shares⟩ := mem_storeShareDiv member
    exact fair ⟨same.symm.trans flag,storeShareDiv_nonempty.mp ⟨record,member⟩,share,shares ▸ inside,
      Bool.eq_false_iff.mpr untrusted⟩

theorem stored_counted {btPort : ℕ} (steady : Steady worker) :
    ∀ record ∈ storeShareDiv settings miner worker workerName btPort trusted, Counted record := by
  intro record member
  obtain ⟨number,-,shares⟩ := mem_storeShareDiv member
  rw [Counted,number,shares]
  exact steady.number

theorem Steady.kept (steady : Steady worker) (height : Option ℕ) (difficulty : ℚ) (time : ℤ) :
    Steady ⟨height,difficulty,time,nearest (worker.acc + job.rewarded_difficulty),
      nearest (worker.raw_acc + getRawShareReward job),
      nearest (worker.acc2 + job.rewarded_difficulty2),worker.share_num + 1,worker.trustedShare && trusted,
      worker.shares ++ [(job,trusted)]⟩ := by
  refine ⟨nearest_pos (job.rewarded.trans (le_add_of_nonneg_left steady.positive.le)),?_,?_⟩
  · simp [steady.number]
  · simp [steady.flag]

theorem Tracked.replace (tracked : Tracked state) (next : State) {key : String × String} {updated : ShareWorker}
    {stored : List ShareRecord} (distinct : Distinct next)
    (others : ∀ other, other ≠ key → liveWorker next other = liveWorker state other)
    (here : liveWorker next key = some updated) (records : next.records = state.records ++ stored)
    (steady : Steady updated) (counted : ∀ record ∈ stored, Counted record) :
    Tracked next ∧ ((∀ record ∈ next.records, Faithful record) ↔
      (∀ record ∈ state.records, Faithful record) ∧ ∀ record ∈ stored, Faithful record) := by
  rw [records,List.forall_mem_append]
  refine ⟨⟨distinct,?_,?_⟩,Iff.rfl⟩
  · intro other worker found
    by_cases same : other = key
    · rw [same,here] at found
      cases found
      exact steady
    · exact tracked.steady other worker ((others other same).symm.trans found)
  · rw [records]
    exact List.forall_mem_append.mpr ⟨tracked.counted,counted⟩

theorem accept_step (tracked : Tracked state) {next : State}
    (stepped : shareAccumulator.step state (.accept settings miner job trusted blockTemplate) = some next) :
    Tracked next ∧ ((∀ record ∈ next.records, Faithful record) ↔ (∀ record ∈ state.records, Faithful record) ∧
      Fair state (.accept settings miner job trusted blockTemplate)) := by
  cases stepped
  obtain ⟨distinct,others,here,records⟩ := recordShareData_spec settings miner job trusted blockTemplate state
  generalize recordShareData settings miner job trusted blockTemplate state = recorded at distinct others here records ⊢
  let next : State := { recorded with credited := recorded.credited ++ [job] }
  unfold Fair
  cases found : liveWorker state (shareKey miner blockTemplate state) with
  | none =>
    rw [found,getD_none,updateShareWorker_kept _ emptyWorker_kept] at here records
    obtain ⟨tracked,sound⟩ := tracked.replace next (distinct tracked.distinct) others here records
      ⟨nearest_pos (by simpa [emptyWorker] using job.rewarded),rfl,by simp [emptyWorker]⟩ (List.forall_mem_nil _)
    refine ⟨tracked,sound.trans (and_congr_right fun _ => ?_)⟩
    simp [found]
  | some worker =>
    have steady := tracked.steady _ worker found
    rw [found,getD_some] at here records
    cases restarts : startsOver settings worker with
    | false =>
      rw [updateShareWorker_kept _ restarts] at here records
      obtain ⟨tracked,sound⟩ := tracked.replace next (distinct tracked.distinct) others here records (steady.kept _ _ _)
        (List.forall_mem_nil _)
      refine ⟨tracked,sound.trans (and_congr_right fun _ => ?_)⟩
      simp [found,restarts]
    | true =>
      rw [updateShareWorker_over _ restarts steady.positive] at here records
      obtain ⟨tracked,sound⟩ := tracked.replace next (distinct tracked.distinct) others here records
        ⟨least_pos.trans_le job.rewarded,rfl,by simp⟩ (stored_counted steady)
      refine ⟨tracked,sound.trans (and_congr_right fun _ => ?_)⟩
      rw [stored_faithful]
      simp [found,restarts]

private theorem fire_step (tracked : Tracked state) {index : ℕ} {next : State}
    (stepped : shareAccumulator.step state (.fire settings index) = some next) :
    Tracked next ∧ ((∀ record ∈ next.records, Faithful record) ↔ ∀ record ∈ state.records, Faithful record) := by
  obtain ⟨timer,-,stepped⟩ := bind_eq_some_iff.mp stepped
  obtain ⟨distinct,live,records⟩ := walletAccFinalizer_spec settings timer.miner timer.btPort timer.walletKey
    { state with timers := state.timers.eraseIdx index }
  rw [some.inj stepped] at distinct live records
  dsimp only at live records
  have removed : ∀ entry ∈ expired settings ((get state.walletAcc timer.walletKey).getD []), Steady entry.2 := by
    intro entry member
    have inside := (List.mem_filter.mp member).1
    refine tracked.steady (timer.walletKey,entry.1) entry.2 ?_
    unfold liveWorker
    cases known : get state.walletAcc timer.walletKey with
    | none =>
      rw [known] at inside
      cases inside
    | some wallet =>
      rw [known] at inside
      exact get_of_mem (tracked.distinct _ _ known) inside
  have stored : ∀ record ∈ (expired settings ((get state.walletAcc timer.walletKey).getD [])).flatMap
      (removedRecords settings timer.miner timer.btPort), Counted record ∧ Faithful record := by
    intro record member
    obtain ⟨entry,inside,member⟩ := List.mem_flatMap.mp member
    have steady := removed entry inside
    rw [removedRecords,if_pos steady.positive.ne'] at member
    obtain ⟨-,flag,shares⟩ := mem_storeShareDiv member
    refine ⟨stored_counted steady record member,fun trusted share held => ?_⟩
    rw [flag,steady.flag] at trusted
    exact List.all_eq_true.mp trusted share (shares ▸ held)
  rw [records,List.forall_mem_append]
  refine ⟨⟨distinct tracked.distinct,?_,?_⟩,and_iff_left fun record new => (stored record new).2⟩
  · intro key worker here
    rw [live] at here
    split at here
    · cases here
    · exact tracked.steady key worker here
  · rw [records]
    exact List.forall_mem_append.mpr ⟨tracked.counted,fun record new => (stored record new).1⟩

private theorem tracked_step {after : State} {label : Label} (tracked : Tracked state)
    (moved : shareAccumulator.step state label = some after) :
    Tracked after ∧ ((∀ record ∈ after.records, Faithful record) ↔ (∀ record ∈ state.records, Faithful record) ∧
      Fair state label) := by
  cases label with
  | accept settings miner job trusted blockTemplate => exact accept_step tracked moved
  | fire settings index =>
    obtain ⟨tracked,sound⟩ := fire_step tracked moved
    exact ⟨tracked,sound.trans (and_iff_left trivial).symm⟩

end Steps

/-- Every record counts the shares it was made of, and those of a run are faithful exactly when every step was fair. -/
theorem records_trusted {start after : State} {labels : List Label} (fresh : shareAccumulator.initial start)
    (ran : shareAccumulator.run start labels = some after) : (∀ record ∈ after.records, Counted record) ∧
      ((∀ record ∈ after.records, Faithful record) ↔ shareAccumulator.Along Fair start labels) := by
  obtain ⟨tracked,sound⟩ := tracked_initial fresh
  obtain ⟨last,along⟩ := Machine.run_iff_along (M := shareAccumulator) (fun _ _ _ => tracked_step) tracked ran
  exact ⟨last.counted,along.trans (and_iff_right sound)⟩

section Samples

/-- A share that was verified, and a trusted one of the same worker after the time of its accumulator is over. -/
def lateTrusted : List Label :=
  [.accept (sampleSettings 0) sampleMiner sampleJob false sampleTemplate,
   .accept (sampleSettings 60001) sampleMiner sampleJob true sampleTemplate]

theorem records_trusted_sample : ∃ after, shareAccumulator.run sampleStart sampleRun = some after ∧
    after.records.map ShareRecord.trustedShare = [false] ∧
    (∀ record ∈ after.records, Counted record) ∧
    ((∀ record ∈ after.records, Faithful record) ↔ shareAccumulator.Along Fair sampleStart sampleRun) := by
  have ends : (shareAccumulator.run sampleStart sampleRun).map (fun state =>
    state.records.map ShareRecord.trustedShare) =
      some [false] := by decide +kernel
  obtain ⟨after,ran,flags⟩ := Option.map_eq_some_iff.mp ends
  obtain ⟨counted,faithful⟩ := records_trusted ⟨rfl,rfl,rfl,rfl,rfl,rfl⟩ ran
  exact ⟨after,ran,flags,counted,faithful⟩

/-- The record of a share that was not trusted carries the flag of the one that made it leave. -/
theorem flush_flag_borrowed : shareAccumulator.initial sampleStart ∧
    ∃ after, shareAccumulator.run sampleStart lateTrusted = some after ∧
    ∃ record ∈ after.records, record.trustedShare = true ∧ record.shares.map Prod.snd = [false] := by
  have ends : (shareAccumulator.run sampleStart lateTrusted).map (fun state =>
      state.records.map fun record => (record.trustedShare,record.shares.map Prod.snd)) = some [(true,[false])] := by
    decide +kernel
  obtain ⟨after,ran,seen⟩ := Option.map_eq_some_iff.mp ends
  refine ⟨⟨rfl,rfl,rfl,rfl,rfl,rfl⟩,after,ran,?_⟩
  have member : (true,[false]) ∈ after.records.map fun record => (record.trustedShare,record.shares.map Prod.snd) := by
    rw [seen]
    exact List.mem_singleton_self _
  obtain ⟨record,inside,equal⟩ := List.mem_map.mp member
  exact ⟨record,inside,(Prod.ext_iff.mp equal).1,(Prod.ext_iff.mp equal).2⟩

end Samples

end NodejsPool.Pool.TrustedRecords
