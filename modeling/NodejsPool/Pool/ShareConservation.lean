import Mathlib.Algebra.BigOperators.Ring.Finset
import Mathlib.Data.List.Count
import NodejsPool.Pool.ShareAccumulator

/-! No credit is lost or stored twice: in every run each accepted share is in one record or in one live
accumulator, which are what its shares add up to, and whatever is live has a finalizer on its way. -/
namespace NodejsPool.Pool.ShareAccumulator
open Async Entries Arithmetic Arithmetic.Rounded Wire
open List (mem_singleton mem_map_of_mem forall_mem_append mem_map forall_mem_nil mem_singleton_self map_cons sum_cons
  sum map_append sum_append map_map)

variable {state : State} {key : String} {wallet : Wallet}

/-- A sum in doubles of the shares' amounts, one after the other, from nothing or from the first. -/
inductive Gathers (amount : AcceptedShare → ℚ) : List AcceptedShare → ℚ → Prop
  | none : Gathers amount [] 0
  | first (share : AcceptedShare) : Gathers amount [share] (amount share)
  | next {shares : List AcceptedShare} {total : ℚ} (share : AcceptedShare) (gathers : Gathers amount shares total) :
    Gathers amount (shares ++ [share]) (nearest (total + amount share))

structure Gathered (shares : List AcceptedShare) (raw shares2 : ℚ) (share_num : ℕ) : Prop where
  raw : Gathers (fun share => getRawShareReward share.1) shares raw
  shares2 : Gathers (fun share => share.1.rewarded_difficulty2) shares shares2
  count : share_num = shares.length

def ShareWorker.gathered (worker : ShareWorker) : Prop :=
  Gathered worker.shares worker.raw_acc worker.acc2 worker.share_num

def ShareRecord.gathered (record : ShareRecord) : Prop :=
  Gathered record.shares record.raw_shares record.shares2 record.share_num

/-- How often each job was accepted. -/
abbrev Tally := ShareJob → ℤ

def tally (shares : List AcceptedShare) : Tally := fun job => (shares.map Prod.fst).count job

def recorded (records : List ShareRecord) : Tally := (records.map fun record => tally record.shares).sum

def held (wallet : Wallet) : Tally := total (fun worker => tally worker.shares) wallet

def State.tallied (state : State) : Tally := recorded state.records + total held state.walletAcc

def State.recordedShares (state : State) : List AcceptedShare := state.records.flatMap ShareRecord.shares

def State.liveShares (state : State) : List AcceptedShare :=
  state.walletAcc.flatMap fun entry => entry.2.flatMap fun worker => worker.2.shares

def State.credits (state : State) : Tally := fun job => state.credited.count job

abbrev Amount := ℚ × ℚ × ℤ

/-- What the stored row keeps of the amounts: `raw_shares` is a float, the others are integers. -/
def ShareRecord.encoded (record : ShareRecord) : Amount :=
  (Format.single.nearest record.raw_shares,(⌊record.shares2⌋ : ℤ),record.share_num)

def ShareWorker.amount (worker : ShareWorker) : Amount := (worker.raw_acc,worker.acc2,worker.share_num)

def ShareJob.amount (job : ShareJob) : Amount := (getRawShareReward job,job.rewarded_difficulty2,1)

def State.emitted (state : State) : Amount := (state.records.map ShareRecord.encoded).sum

def State.live (state : State) : Amount := total (total ShareWorker.amount) state.walletAcc

def State.shareCount (state : State) : ℤ :=
  (state.records.map fun record => (record.share_num : ℤ)).sum +
    total (total fun worker => (worker.share_num : ℤ)) state.walletAcc

def State.accepted (state : State) : Amount := (state.credited.map ShareJob.amount).sum

/-- Whole amounts that no sum of them is rounded for. -/
def Whole (jobs : List ShareJob) : Prop := ∃ raw shares2 : ShareJob → ℕ,
  (∀ job ∈ jobs, getRawShareReward job = raw job ∧ job.rewarded_difficulty2 = shares2 job) ∧
    (jobs.map raw).sum < 2^24 ∧ (jobs.map shares2).sum < 2^53

def named (wallet : Wallet) : ℕ := (wallet.map Prod.fst).countP fun name => name ≠ all_other_workers

structure ShareWorker.Sound (worker : ShareWorker) : Prop where
  positive : 0 < worker.acc
  gathered : worker.gathered

structure Good (wallet : Wallet) (count : ℕ) : Prop where
  distinct : (wallet.map Prod.fst).Nodup
  sound : ∀ entry ∈ wallet, entry.2.Sound
  counted : named wallet = count
  bounded : count ≤ workerLimit

structure Shaped (state : State) : Prop where
  distinct : (state.walletAcc.map Prod.fst).Nodup
  wallets : ∀ key wallet, get state.walletAcc key = some wallet → Good wallet (workerCount state key)
  flagged : ∀ key wallet, get state.walletAcc key = some wallet →
    get state.isWalletAccFinalizer key = some false ∧ wallet = [] ∨ get state.isWalletAccFinalizer key = some true
  unsplit : ∀ timer ∈ state.timers, timer.miner.payout_div = none
  gathered : ∀ record ∈ state.records, record.gathered

def Timed (state : State) : Prop :=
  ∀ key, get state.isWalletAccFinalizer key = some true → ∃ timer ∈ state.timers, timer.walletKey = key

@[simp] theorem tally_nil : tally [] = 0 := rfl

@[simp] theorem tally_append (shares more : List AcceptedShare) :
    tally (shares ++ more) = tally shares + tally more := by
  funext job
  simp [tally]

@[simp] theorem recorded_nil : recorded [] = 0 := rfl

@[simp] theorem recorded_append (records more : List ShareRecord) :
    recorded (records ++ more) = recorded records + recorded more := by simp [recorded]

section Storing

variable (settings : Settings) (btPort : ℕ) {miner : Miner} {worker : ShareWorker} {workerName : String}
    {trusted : Bool}

theorem recorded_storeShareDiv (unsplit : miner.payout_div = none) :
    recorded (storeShareDiv settings miner worker workerName btPort trusted) = tally worker.shares := by
  simp [storeShareDiv,unsplit,recorded,shareRecord]

theorem gathered_storeShareDiv (unsplit : miner.payout_div = none) (gathered : worker.gathered) :
    ∀ record ∈ storeShareDiv settings miner worker workerName btPort trusted, record.gathered := by
  intro record member
  rw [storeShareDiv,unsplit] at member
  rw [mem_singleton.mp member]
  exact gathered

/-- What a scan leaves of a wallet and stores of it. -/
structure Follows (before after : Scan) : Prop where
  good : Good after.wallet after.count
  gathered : (∀ record ∈ before.records, record.gathered) → ∀ record ∈ after.records, record.gathered
  balanced : recorded after.records + held after.wallet = recorded before.records + held before.wallet

private theorem removeWorker_spec {scan : Scan} (unsplit : miner.payout_div = none) (good : Good scan.wallet scan.count)
    (found : get scan.wallet workerName = some worker) :
    Follows scan (removeWorker settings miner btPort scan workerName worker) := by
  have member := mem_of_get found
  have sound := good.sound _ member
  refine ⟨⟨erase_distinct good.distinct,?_,?_,?_⟩,?_,?_⟩
  · intro entry kept
    exact good.sound entry (List.mem_filter.mp kept).1
  · have inside : workerName ∈ scan.wallet.map Prod.fst := mem_map_of_mem member
    have counted := good.counted
    unfold named at counted ⊢
    simp only [removeWorker]
    rw [keys_erase good.distinct,List.countP_erase,counted]
    by_cases overflow : workerName = all_other_workers <;> simp [overflow,inside]
  · have bounded := good.bounded
    simp only [removeWorker]
    split <;> omega
  · simp only [removeWorker,if_pos sound.positive.ne']
    intro stored
    exact forall_mem_append.mpr ⟨stored,gathered_storeShareDiv settings btPort unsplit sound.gathered⟩
  · simp only [removeWorker,if_pos sound.positive.ne',recorded_append,recorded_storeShareDiv _ _ unsplit,held]
    rw [total_erase _ good.distinct,found,Option.map_some,Option.getD_some]
    abel

theorem scanWorkers_spec (scan : Scan) (unsplit : miner.payout_div = none) {workers : Wallet}
    (good : Good scan.wallet scan.count) (distinct : (workers.map Prod.fst).Nodup)
    (inside : ∀ entry ∈ workers, get scan.wallet entry.1 = some entry.2)
    (covered : scan.isSomethingLeft = false → ∀ entry ∈ scan.wallet, entry ∈ workers) :
    Follows scan (scanWorkers settings miner btPort workers scan) ∧
      ((scanWorkers settings miner btPort workers scan).isSomethingLeft = false →
        (scanWorkers settings miner btPort workers scan).wallet = []) := by
  induction workers generalizing scan with
  | nil =>
    refine ⟨⟨good,id,rfl⟩,fun nothing => ?_⟩
    apply List.eq_nil_iff_forall_not_mem.mpr
    intro entry member
    cases covered nothing entry member
  | cons entry workers ih =>
    obtain ⟨workerName,worker⟩ := entry
    obtain ⟨fresh,distinct⟩ := List.nodup_cons.mp distinct
    obtain ⟨found,inside⟩ := List.forall_mem_cons.mp inside
    rw [scanWorkers]
    split
    · have removed := removeWorker_spec settings btPort unsplit good found
      obtain ⟨kept,nothing⟩ := ih _ removed.good distinct
        (by
          intro entry member
          have apart : entry.1 ≠ workerName := fun same => fresh (mem_map.mpr ⟨entry,member,same⟩)
          exact (get_erase_other apart).trans (inside entry member))
        (by
          intro left entry member
          obtain ⟨before,apart⟩ := List.mem_filter.mp member
          rcases List.mem_cons.mp (covered left entry before) with rfl | later
          · simp at apart
          · exact later)
      exact ⟨⟨kept.good,fun stored => kept.gathered (removed.gathered stored),kept.balanced.trans removed.balanced⟩,
        nothing⟩
    · obtain ⟨kept,nothing⟩ := ih { scan with isSomethingLeft := true } good distinct inside nofun
      exact ⟨⟨kept.good,kept.gathered,kept.balanced⟩,nothing⟩

end Storing

theorem Shaped.replace {after : State} {count : ℕ} (shaped : Shaped state)
    (wallets : after.walletAcc = put state.walletAcc key wallet)
    (counts : after.walletWorkerCount = put state.walletWorkerCount key count)
    (flags : ∀ other, other ≠ key → get after.isWalletAccFinalizer other = get state.isWalletAccFinalizer other)
    (good : Good wallet count) (flag : get after.isWalletAccFinalizer key = some false ∧ wallet = [] ∨
      get after.isWalletAccFinalizer key = some true)
    (unsplit : ∀ timer ∈ after.timers, timer.miner.payout_div = none)
    (gathered : ∀ record ∈ after.records, record.gathered) : Shaped after := by
  refine ⟨?_,?_,?_,unsplit,gathered⟩
  · rw [wallets]
    exact put_distinct shaped.distinct
  · intro other found known
    unfold workerCount
    rw [wallets] at known
    rw [counts]
    by_cases same : other = key
    · subst same
      rw [get_put_self] at known ⊢
      exact Option.some.inj known ▸ good
    · rw [get_put_other same] at known ⊢
      exact shaped.wallets other found known
  · intro other found known
    rw [wallets] at known
    by_cases same : other = key
    · subst same
      rw [get_put_self] at known
      exact Option.some.inj known ▸ flag
    · rw [get_put_other same] at known
      rw [flags other same]
      exact shaped.flagged other found known

theorem live_put {next : Wallet} (known : get state.walletAcc key = some wallet) :
    total held (put state.walletAcc key next) = total held state.walletAcc - held wallet + held next := by
  rw [total_put,known]
  rfl

/-- What a step on the accumulators does: it keeps their shape, and adds the credit to what is recorded and held. -/
structure Credits (credit : Tally) (before after : State) : Prop where
  shaped : Shaped after
  timed : Timed after
  tallied : after.tallied = before.tallied + credit
  credited : after.credited = before.credited

section Finalizing

variable (settings : Settings) (btPort : ℕ) {walletKey : String} {miner : Miner} {state : State}

private theorem walletAccFinalizer_some {wallet : Wallet} (unsplit : miner.payout_div = none)
    (known : get state.walletAcc walletKey = some wallet) (good : Good wallet (workerCount state walletKey)) :
    ∃ scan : Scan, Follows ⟨wallet,workerCount state walletKey,[],false⟩ scan ∧
      (scan.isSomethingLeft = false → scan.wallet = []) ∧ (wallet = [] → scan.isSomethingLeft = false) ∧
      walletAccFinalizer settings walletKey miner btPort state =
        let scanned := { state with
          walletAcc := put state.walletAcc walletKey scan.wallet
          walletWorkerCount := put state.walletWorkerCount walletKey scan.count
          records := state.records ++ scan.records }
        if scan.isSomethingLeft then
          { scanned with timers := state.timers ++ [⟨getShareAccTimeMs settings,walletKey,miner,btPort⟩] }
        else { scanned with isWalletAccFinalizer := put state.isWalletAccFinalizer walletKey false } := by
  obtain ⟨follows,nothing⟩ := scanWorkers_spec settings btPort ⟨wallet,workerCount state walletKey,[],false⟩ unsplit
    good good.distinct (fun entry member => get_of_mem good.distinct member) (fun _ _ member => member)
  refine ⟨_,follows,nothing,?_,?_⟩
  · rintro rfl
    rfl
  · rw [walletAccFinalizer,known]

theorem walletAccFinalizer_spec (shaped : Shaped state) (unsplit : miner.payout_div = none)
    (timed : ∀ key, key ≠ walletKey → get state.isWalletAccFinalizer key = some true →
      ∃ timer ∈ state.timers, timer.walletKey = key) :
    Credits 0 state (walletAccFinalizer settings walletKey miner btPort state) := by
  have unflagged : ∀ key, get (put state.isWalletAccFinalizer walletKey false) key = some true →
      ∃ timer ∈ state.timers, timer.walletKey = key := by
    intro key flag
    have apart : key ≠ walletKey := by
      rintro rfl
      simp at flag
    exact timed key apart (by rwa [get_put_other apart] at flag)
  cases known : get state.walletAcc walletKey with
  | none =>
    rw [walletAccFinalizer,known]
    refine ⟨⟨shaped.distinct,shaped.wallets,?_,shaped.unsplit,shaped.gathered⟩,unflagged,(add_zero _).symm,rfl⟩
    intro key wallet found
    have apart : key ≠ walletKey := by
      rintro rfl
      simp [known] at found
    simpa [get_put_other apart] using shaped.flagged key wallet found
  | some wallet =>
    obtain ⟨scan,follows,nothing,empty,result⟩ :=
      walletAccFinalizer_some settings btPort unsplit known (shaped.wallets walletKey wallet known)
    have conserved : recorded (state.records ++ scan.records) + total held (put state.walletAcc walletKey scan.wallet) =
        state.tallied + 0 := by
      have balanced : recorded scan.records + held scan.wallet = held wallet := follows.balanced.trans (zero_add _)
      rw [recorded_append,live_put known,← balanced]
      unfold State.tallied
      abel
    have gathered : ∀ record ∈ state.records ++ scan.records, record.gathered :=
      forall_mem_append.mpr ⟨shaped.gathered,follows.gathered (forall_mem_nil _)⟩
    rw [result]
    cases left : scan.isSomethingLeft with
    | true =>
      have flag : get state.isWalletAccFinalizer walletKey = some true := by
        rcases shaped.flagged walletKey wallet known with ⟨_,nobody⟩ | flag
        · simp [left] at empty
          exact absurd nobody empty
        · exact flag
      simp only [if_true]
      refine ⟨shaped.replace rfl rfl (fun _ _ => rfl) follows.good (.inr flag) ?_ gathered,?_,conserved,rfl⟩
      · intro timer member
        rcases List.mem_append.mp member with old | new
        · exact shaped.unsplit timer old
        · rwa [mem_singleton.mp new]
      · intro key raised
        by_cases same : key = walletKey
        · exact ⟨_,List.mem_append_right _ (mem_singleton_self _),same.symm⟩
        · obtain ⟨timer,member,belongs⟩ := timed key same raised
          exact ⟨timer,List.mem_append_left _ member,belongs⟩
    | false =>
      simp only [Bool.false_eq_true,if_false]
      refine ⟨shaped.replace rfl rfl (fun _ apart => get_put_other apart) follows.good ?_ shaped.unsplit gathered,
        unflagged,conserved,rfl⟩
      exact .inl ⟨get_put_self,nothing left⟩

end Finalizing

section Accepting

variable (settings : Settings) (job : ShareJob) (trusted : Bool) (blockTemplate : BlockTemplate) {miner : Miner}
  {walletKey : String} {state : State}
  {worker : ShareWorker} {btPort count : ℕ} {wallet : Wallet} {workerName : String}

theorem openWallet_spec (walletKey : String) (shaped : Shaped state) (timed : Timed state) :
    Credits 0 state (openWallet walletKey state) ∧ ∃ wallet, get (openWallet walletKey state).walletAcc walletKey =
      some wallet := by
  unfold openWallet
  cases known : get state.walletAcc walletKey with
  | some wallet => exact ⟨⟨shaped,timed,(add_zero _).symm,rfl⟩,wallet,known⟩
  | none =>
    refine ⟨⟨shaped.replace rfl rfl (fun _ apart => get_put_other apart) ?_ ?_ shaped.unsplit shaped.gathered,?_,?_,
      rfl⟩,[],get_put_self⟩
    · exact ⟨List.nodup_nil,forall_mem_nil _,rfl,Nat.zero_le _⟩
    · exact .inl ⟨get_put_self,rfl⟩
    · intro key flag
      have apart : key ≠ walletKey := by
        rintro rfl
        simp at flag
      exact timed key (by rwa [get_put_other apart] at flag)
    · simp only [State.tallied]
      rw [total_put,known]
      simp [held]

theorem updateShareWorker_spec (workerName : String) (dbJobHeight : Option ℕ)
    (unsplit : miner.payout_div = none) (nonneg : 0 ≤ worker.acc) (idle : worker.acc = 0 → worker.shares = [])
    (gathered : worker.gathered) : ∃ updated stored,
      updateShareWorker settings miner job worker workerName blockTemplate dbJobHeight trusted = (updated,stored) ∧
      updated.Sound ∧ (∀ record ∈ stored, record.gathered) ∧
      recorded stored + tally updated.shares = tally worker.shares + tally [(job,trusted)] := by
  unfold updateShareWorker
  split
  · refine ⟨_,_,rfl,⟨nearest_pos (job.rewarded.trans (le_add_of_nonneg_left nonneg)),?_⟩,forall_mem_nil _,?_⟩
    · refine ⟨gathered.raw.next (job,trusted),gathered.shares2.next (job,trusted),?_⟩
      rw [List.length_append,← gathered.count]
      rfl
    · rw [recorded_nil,zero_add,tally_append]
  · refine ⟨_,_,rfl,⟨least_pos.trans_le job.rewarded,⟨.first (job,trusted),.first (job,trusted),rfl⟩⟩,?_,?_⟩
    · split
      · exact gathered_storeShareDiv settings blockTemplate.port unsplit gathered
      · exact forall_mem_nil _
    · by_cases nothing : worker.acc = 0
      · rw [if_neg (not_not.mpr nothing),idle nothing,recorded_nil,tally_nil]
      · rw [if_pos nothing,recorded_storeShareDiv _ _ unsplit]

theorem armFinalizer_spec (btPort : ℕ) {flag : Bool} (unsplit : miner.payout_div = none)
    (timed : Timed state) (known : get state.isWalletAccFinalizer walletKey = some flag) :
    Timed (armFinalizer settings walletKey miner btPort state) ∧
    get (armFinalizer settings walletKey miner btPort state).isWalletAccFinalizer walletKey = some true ∧
    (∀ other, other ≠ walletKey →
      get (armFinalizer settings walletKey miner btPort state).isWalletAccFinalizer other =
        get state.isWalletAccFinalizer other) ∧
    ∀ timer ∈ (armFinalizer settings walletKey miner btPort state).timers, timer ∈ state.timers ∨
    timer.miner.payout_div = none := by
  unfold armFinalizer
  cases flag with
  | true =>
    rw [if_neg (by simp [known])]
    exact ⟨timed,known,fun _ _ => rfl,fun _ member => .inl member⟩
  | false =>
    rw [if_pos known]
    refine ⟨?_,get_put_self,fun _ apart => get_put_other apart,?_⟩
    · intro key raised
      by_cases same : key = walletKey
      · exact ⟨_,List.mem_append_right _ (mem_singleton_self _),same.symm⟩
      · obtain ⟨timer,member,belongs⟩ := timed key (by rwa [get_put_other same] at raised)
        exact ⟨timer,List.mem_append_left _ member,belongs⟩
    · intro timer member
      rcases List.mem_append.mp member with old | new
      · exact .inl old
      · exact .inr (mem_singleton.mp new ▸ unsplit)

@[simp] theorem armFinalizer_walletAcc :
    (armFinalizer settings walletKey miner btPort state).walletAcc = state.walletAcc := by
  unfold armFinalizer
  split <;> rfl

@[simp] theorem armFinalizer_walletWorkerCount :
    (armFinalizer settings walletKey miner btPort state).walletWorkerCount = state.walletWorkerCount := by
  unfold armFinalizer
  split <;> rfl

@[simp] theorem armFinalizer_records :
    (armFinalizer settings walletKey miner btPort state).records = state.records := by
  unfold armFinalizer
  split <;> rfl

@[simp] theorem armFinalizer_credited :
    (armFinalizer settings walletKey miner btPort state).credited = state.credited := by
  unfold armFinalizer
  split <;> rfl

structure Opened (wallet : Wallet) (count : ℕ) (workerName : String) (worker : ShareWorker) : Prop where
  distinct : (wallet.map Prod.fst).Nodup
  found : get wallet workerName = some worker
  nonneg : 0 ≤ worker.acc
  idle : worker.acc = 0 → worker.shares = []
  gathered : worker.gathered
  others : ∀ entry ∈ wallet, entry.1 ≠ workerName → entry.2.Sound
  counted : named wallet = count
  bounded : count ≤ workerLimit

theorem Opened.credit {updated : ShareWorker} (opened : Opened wallet count workerName worker) (sound : updated.Sound) :
    Good (put wallet workerName updated) count ∧
      held (put wallet workerName updated) = held wallet - tally worker.shares + tally updated.shares := by
  have member := mem_of_get opened.found
  refine ⟨⟨put_distinct opened.distinct,?_,?_,opened.bounded⟩,?_⟩
  · intro entry inside
    have here := get_of_mem (put_distinct opened.distinct) inside
    by_cases same : entry.1 = workerName
    · rw [same,get_put_self] at here
      exact Option.some.inj here ▸ sound
    · rw [get_put_other same] at here
      exact opened.others (entry.1,entry.2) (mem_of_get here) same
  · have inside : workerName ∈ wallet.map Prod.fst := mem_map_of_mem member
    unfold named
    rw [keys_put,if_pos inside]
    exact opened.counted
  · rw [held,total_put,opened.found]
    rfl

theorem Good.opened (good : Good wallet count)
    (found : get wallet workerName = some worker) : Opened wallet count workerName worker := by
  obtain ⟨positive,gathered⟩ := good.sound _ (mem_of_get found)
  exact ⟨good.distinct,found,positive.le,fun nothing => absurd nothing positive.ne',gathered,
    fun entry inside _ => good.sound entry inside,good.counted,good.bounded⟩

theorem chooseWorker_new (absent : get wallet (chooseWorker miner wallet count) = none)
    (own : chooseWorker miner wallet count ≠ all_other_workers) : count < workerLimit := by
  unfold chooseWorker at absent own
  split at absent
  next room =>
    rcases room with known | room
    · simp [absent] at known
    · exact room
  next full => exact absurd (if_neg full) own

private theorem addShareWorker_spec (dbJobHeight : Option ℕ) (timeNow : ℤ)
    (good : Good wallet count) (absent : get wallet workerName = none)
    (room : workerName ≠ all_other_workers → count < workerLimit) :
    ∃ worker, Opened (addShareWorker workerName dbJobHeight blockTemplate timeNow trusted wallet count).1
        (addShareWorker workerName dbJobHeight blockTemplate timeNow trusted wallet count).2 workerName worker ∧
      held (addShareWorker workerName dbJobHeight blockTemplate timeNow trusted wallet count).1 = held wallet := by
  have fresh : workerName ∉ wallet.map Prod.fst := by
    intro inside
    obtain ⟨entry,member,rfl⟩ := mem_map.mp inside
    simp [get_of_mem good.distinct (show (entry.1,entry.2) ∈ wallet from member)] at absent
  refine ⟨⟨dbJobHeight,blockTemplate.difficulty,timeNow,0,0,0,0,trusted,[]⟩,
    ⟨put_distinct good.distinct,get_put_self,le_refl _,fun _ => rfl,⟨.none,.none,rfl⟩,?_,?_,?_⟩,?_⟩
  · intro entry inside apart
    rcases mem_put inside with old | rfl
    · exact good.sound entry old
    · exact absurd rfl apart
  · have counted := good.counted
    unfold named at counted ⊢
    simp only [addShareWorker]
    rw [keys_put,if_neg fresh,List.countP_append,counted]
    by_cases overflow : workerName = all_other_workers <;> simp [overflow]
  · have bounded := good.bounded
    simp only [addShareWorker]
    split
    next own => exact room own
    · exact bounded
  · simp only [addShareWorker,held]
    rw [total_put,absent]
    simp

private theorem entered_spec (miner : Miner) (dbJobHeight : Option ℕ) (timeNow : ℤ) (good : Good wallet count) :
    ∃ entered worker,
      (if (get wallet (chooseWorker miner wallet count)).isSome then (wallet,count)
        else addShareWorker (chooseWorker miner wallet count) dbJobHeight blockTemplate timeNow trusted wallet count) =
          entered ∧
      Opened entered.1 entered.2 (chooseWorker miner wallet count) worker ∧ held entered.1 = held wallet := by
  cases found : get wallet (chooseWorker miner wallet count) with
  | some worker => exact ⟨_,worker,rfl,good.opened found,rfl⟩
  | none =>
    obtain ⟨worker,opened,same⟩ := addShareWorker_spec trusted blockTemplate dbJobHeight timeNow
      good found (chooseWorker_new found)
    exact ⟨_,worker,rfl,opened,same⟩

theorem creditWorker_some (unsplit : miner.payout_div = none) (good : Good wallet (workerCount state walletKey)) :
    ∃ (next : Wallet) (count : ℕ) (stored : List ShareRecord) (messages : List Message),
      Good next count ∧ (∀ record ∈ stored, record.gathered) ∧
      recorded stored + held next = held wallet + tally [(job,trusted)] ∧
      creditWorker settings miner job trusted blockTemplate walletKey wallet state =
        armFinalizer settings walletKey miner blockTemplate.port { state with
          walletAcc := put state.walletAcc walletKey next
          walletWorkerCount := put state.walletWorkerCount walletKey count
          records := state.records ++ stored
          messages := messages } := by
  obtain ⟨⟨entered,count⟩,worker,entry,opened,same⟩ := entered_spec trusted blockTemplate miner
    (getDbJobHeight settings blockTemplate) settings.timeNow good
  obtain ⟨updated,stored,ended,sound,made,balanced⟩ := updateShareWorker_spec settings job trusted blockTemplate
    (chooseWorker miner wallet (workerCount state walletKey)) (getDbJobHeight settings blockTemplate) unsplit
    opened.nonneg opened.idle opened.gathered
  obtain ⟨kept,moved⟩ := opened.credit sound
  refine ⟨_,count,stored,state.messages ++ sendAccepted settings job trusted blockTemplate,kept,made,?_,?_⟩
  · rw [moved,same,← add_sub_cancel_left (tally worker.shares) (tally [(job,trusted)]),← balanced]
    abel
  · unfold creditWorker
    simp only [entry,opened.found,ended]

theorem creditWorker_spec (shaped : Shaped state) (timed : Timed state) (unsplit : miner.payout_div = none)
    (known : get state.walletAcc walletKey = some wallet) :
    Credits (tally [(job,trusted)]) state (creditWorker settings miner job trusted blockTemplate walletKey
      wallet state) := by
  obtain ⟨flag,raised⟩ : ∃ flag, get state.isWalletAccFinalizer walletKey = some flag := by
    rcases shaped.flagged walletKey wallet known with ⟨lowered,_⟩ | raised
    · exact ⟨false,lowered⟩
    · exact ⟨true,raised⟩
  obtain ⟨next,count,stored,messages,good,made,balanced,result⟩ := creditWorker_some settings job
    trusted blockTemplate unsplit (shaped.wallets walletKey wallet known)
  rw [result]
  generalize before : ({ state with
    walletAcc := put state.walletAcc walletKey next, walletWorkerCount := put state.walletWorkerCount walletKey count,
    records := state.records ++ stored, messages := messages } : State) = credited
  have timed : Timed credited := before ▸ timed
  obtain ⟨timed,armed,others,timers⟩ := armFinalizer_spec settings blockTemplate.port unsplit timed
    (show get credited.isWalletAccFinalizer walletKey = some flag from before ▸ raised)
  refine ⟨shaped.replace ?_ ?_ ?_ good (.inr armed) ?_ ?_,timed,?_,?_⟩
  · rw [armFinalizer_walletAcc,← before]
  · rw [armFinalizer_walletWorkerCount,← before]
  · intro other apart
    rw [others other apart,← before]
  · intro timer member
    rcases timers timer member with old | new
    · exact shaped.unsplit timer (by rwa [← before] at old)
    · exact new
  · rw [armFinalizer_records,← before]
    exact forall_mem_append.mpr ⟨shaped.gathered,made⟩
  · unfold State.tallied
    rw [armFinalizer_records,armFinalizer_walletAcc,← before,recorded_append,live_put known,
      ← add_sub_cancel_left (held wallet) (tally [(job,trusted)]),← balanced]
    abel
  · rw [armFinalizer_credited,← before]

theorem recordShareData_spec (shaped : Shaped state) (timed : Timed state) (unsplit : miner.payout_div = none) :
    Credits (tally [(job,trusted)]) state (recordShareData settings miner job trusted blockTemplate state) := by
  let touched : State := { state with activity := touchMiner settings miner job state.activity }
  have shaped' : Shaped touched := ⟨shaped.distinct,shaped.wallets,shaped.flagged,shaped.unsplit,shaped.gathered⟩
  have timed' : Timed touched := timed
  obtain ⟨opened,wallet,known⟩ := openWallet_spec (getWalletKey miner blockTemplate) shaped' timed'
  have credits := creditWorker_spec settings job trusted blockTemplate opened.shaped opened.timed unsplit known
  rw [recordShareData]
  simp only [touched] at known
  simp only [known]
  refine ⟨credits.shaped,credits.timed,credits.tallied.trans ?_,credits.credited.trans opened.credited⟩
  rw [opened.tallied,add_zero]
  rfl

end Accepting

def Unsplit (_ : State) : Label → Prop
  | .accept _ miner _ _ _ => miner.payout_div = none
  | .fire _ _ => True

structure Invariant (state : State) : Prop where
  shaped : Shaped state
  timed : Timed state
  conserved : state.tallied = state.credits

theorem invariant_initial (start : shareAccumulator.initial state) : Invariant state := by
  obtain ⟨walletAcc,walletWorkerCount,flags,timers,records,credited⟩ := start
  refine ⟨⟨?_,?_,?_,?_,?_⟩,?_,?_⟩
  · simp [walletAcc]
  · simp [walletAcc]
  · simp [walletAcc]
  · simp [timers]
  · simp [records]
  · intro key flag
    simp [flags] at flag
  · funext job
    simp [State.tallied,State.credits,walletAcc,records,credited]

private theorem timed_eraseIdx {index : ℕ} {timer : Timer} (timed : Timed state)
    (found : state.timers[index]? = some timer) (apart : key ≠ timer.walletKey)
    (flag : get state.isWalletAccFinalizer key = some true) :
    ∃ other ∈ state.timers.eraseIdx index, other.walletKey = key := by
  obtain ⟨other,member,belongs⟩ := timed key flag
  refine ⟨other,?_,belongs⟩
  obtain ⟨place,here⟩ := List.mem_iff_getElem?.mp member
  have elsewhere : place ≠ index := by
    rintro rfl
    cases here.symm.trans found
    exact apart belongs.symm
  exact List.mem_eraseIdx_iff_getElem?.mpr ⟨place,elsewhere,here⟩

theorem invariant_step {after : State} {label : Label} (invariant : Invariant state) (unsplit : Unsplit state label)
    (moved : step state label = some after) : Invariant after := by
  obtain ⟨shaped,timed,conserved⟩ := invariant
  cases label with
  | accept settings miner job trusted blockTemplate =>
    cases moved
    obtain ⟨shaped,timed,balanced,credited⟩ :=
      recordShareData_spec settings job trusted blockTemplate shaped timed unsplit
    refine ⟨⟨shaped.distinct,shaped.wallets,shaped.flagged,shaped.unsplit,shaped.gathered⟩,timed,?_⟩
    refine balanced.trans ?_
    funext other
    simp [conserved,State.credits,credited,tally]
  | fire settings index =>
    obtain ⟨timer,found,moved⟩ := Option.bind_eq_some_iff.mp moved
    cases moved
    let fired : State := { state with timers := state.timers.eraseIdx index }
    have ready : Shaped fired :=
      ⟨shaped.distinct,shaped.wallets,shaped.flagged,fun timer member =>
        shaped.unsplit timer (List.mem_of_mem_eraseIdx member),shaped.gathered⟩
    obtain ⟨shaped,timed,balanced,credited⟩ := walletAccFinalizer_spec settings timer.btPort ready
      (shaped.unsplit timer (List.mem_of_getElem? found)) fun key apart flag => timed_eraseIdx timed found apart flag
    refine ⟨shaped,timed,balanced.trans ?_⟩
    unfold State.credits
    rw [add_zero,credited]
    exact conserved

theorem invariant_of_reachable (reachable : shareAccumulator.ReachableBy Unsplit state) : Invariant state :=
  reachable.invariant Invariant (fun _ => invariant_initial) fun _ _ _ invariant unsplit moved =>
    invariant_step invariant unsplit moved

theorem length_le_named (distinct : (wallet.map Prod.fst).Nodup) : wallet.length ≤ named wallet + 1 := by
  have split := List.length_eq_countP_add_countP (fun name => decide (name ≠ all_other_workers))
    (l := wallet.map Prod.fst)
  have overflow : (wallet.map Prod.fst).countP (fun name => ¬decide (name ≠ all_other_workers)) ≤ 1 := by
    have once := List.nodup_iff_count_le_one.mp distinct all_other_workers
    rw [List.count] at once
    convert once using 2
    ext name
    by_cases same : name = all_other_workers <;> simp [same]
  rw [List.length_map] at split
  unfold named
  omega

section Totals

private theorem tally_flatMap {Holder : Type} (shares : Holder → List AcceptedShare) (holders : List Holder) :
    tally (holders.flatMap shares) = (holders.map fun holder => tally (shares holder)).sum := by
  induction holders with
  | nil => rfl
  | cons holder holders ih => rw [List.flatMap_cons,tally_append,ih,map_cons,sum_cons]

theorem Invariant.once (invariant : Invariant state) :
    ((state.recordedShares ++ state.liveShares).map Prod.fst).Perm state.credited := by
  have live : tally state.liveShares = total held state.walletAcc := by
    rw [State.liveShares,tally_flatMap]
    exact congrArg sum (List.map_congr_left fun entry _ => tally_flatMap _ _)
  have whole : tally (state.recordedShares ++ state.liveShares) = state.credits := by
    rw [tally_append,State.recordedShares,tally_flatMap,live]
    exact invariant.conserved
  exact List.perm_iff_count.mpr fun job => Nat.cast_injective (congrFun whole job)

private theorem sum_flatMap {Holder Sum : Type} [AddCommMonoid Sum] {shares : Holder → List AcceptedShare}
    {holders : List Holder} {measure : Holder → Sum} {worth : ShareJob → Sum}
    (measures : ∀ holder ∈ holders, measure holder = ((shares holder).map fun share => worth share.1).sum) :
    (holders.map measure).sum = ((holders.flatMap shares).map fun share => worth share.1).sum := by
  induction holders with
  | nil => rfl
  | cons holder holders ih =>
    obtain ⟨here,measures⟩ := List.forall_mem_cons.mp measures
    rw [List.flatMap_cons,map_append,sum_append,map_cons,sum_cons,here,ih measures]

/-- Where records and accumulators are worth their shares, nothing that was accepted is missing. -/
theorem Invariant.totals {Sum : Type} [AddCommGroup Sum] (worth : ShareJob → Sum) (ofRecord : ShareRecord → Sum)
    (ofWorker : ShareWorker → Sum) (invariant : Invariant state)
    (records : ∀ record ∈ state.records, ofRecord record = (record.shares.map fun share => worth share.1).sum)
    (workers : ∀ entry ∈ state.walletAcc, ∀ worker ∈ entry.2,
      ofWorker worker.2 = (worker.2.shares.map fun share => worth share.1).sum) :
    (state.records.map ofRecord).sum + total (total ofWorker) state.walletAcc = (state.credited.map worth).sum := by
  have live : total (total ofWorker) state.walletAcc = (state.liveShares.map fun share => worth share.1).sum :=
    sum_flatMap fun entry member => sum_flatMap (workers entry member)
  rw [sum_flatMap records,live,← (invariant.once.map worth).sum_eq,map_append,map_append,sum_append,map_map,
    map_map]
  rfl

theorem Invariant.worker_gathered (invariant : Invariant state) :
    ∀ entry ∈ state.walletAcc, ∀ worker ∈ entry.2, worker.2.gathered := fun entry member worker inside =>
  ((invariant.shaped.wallets entry.1 entry.2 (get_of_mem invariant.shaped.distinct member)).sound worker
    inside).gathered

theorem Gathers.whole {amount : AcceptedShare → ℚ} {shares : List AcceptedShare} {sum : ℚ} {whole : AcceptedShare → ℕ}
    (gathers : Gathers amount shares sum) (same : ∀ share ∈ shares, amount share = whole share)
    (small : (shares.map whole).sum < 2^53) : sum = (shares.map whole).sum := by
  induction gathers with
  | none => rfl
  | first share => simpa using same share (mem_singleton_self _)
  | next share _ ih =>
    obtain ⟨before,here⟩ := forall_mem_append.mp same
    rw [map_append,sum_append] at small ⊢
    rw [ih before (by omega),here share (mem_singleton_self _)]
    simp only [List.map_singleton,List.sum_singleton] at small ⊢
    rw [← Nat.cast_add]
    exact nearest_doubles (Format.holds_natCast small)

theorem Invariant.counts (invariant : Invariant state) : state.shareCount = state.credited.length := by
  have counted := invariant.totals (fun _ => (1 : ℤ)) (fun record => record.share_num) (fun worker => worker.share_num)
    (fun record member => by simp [(invariant.shaped.gathered record member).count])
    (fun entry member worker inside => by simp [(invariant.worker_gathered entry member worker inside).count])
  rw [State.shareCount,counted]
  simp

private theorem sum_amount (shares : List AcceptedShare) : (shares.map fun share => share.1.amount).sum =
    ((shares.map fun share => getRawShareReward share.1).sum,(shares.map fun share => share.1.rewarded_difficulty2).sum,
      (shares.length : ℤ)) := by
  induction shares with
  | nil => rfl
  | cons share shares ih =>
    rw [map_cons,sum_cons,ih]
    simp [ShareJob.amount,add_comm]

/-- Whole amounts are gathered and encoded as they are. -/
theorem Gathered.amounts {shares : List AcceptedShare} {raw shares2 : ℚ} {share_num : ℕ}
    (gathered : Gathered shares raw shares2 share_num) (whole : Whole (shares.map Prod.fst)) :
    Format.single.nearest raw = raw ∧ ((⌊shares2⌋ : ℤ) : ℚ) = shares2 ∧
      (raw,shares2,(share_num : ℤ)) = (shares.map fun share => share.1.amount).sum := by
  obtain ⟨wholeRaw,whole2,same,smallRaw,small2⟩ := whole
  rw [map_map] at smallRaw small2
  have sameRaw : ∀ share ∈ shares, getRawShareReward share.1 = wholeRaw share.1 := fun share member =>
    (same share.1 (mem_map_of_mem member)).1
  have same2 : ∀ share ∈ shares, share.1.rewarded_difficulty2 = whole2 share.1 := fun share member =>
    (same share.1 (mem_map_of_mem member)).2
  have sumRaw := gathered.raw.whole sameRaw (smallRaw.trans (by decide))
  have sum2 := gathered.shares2.whole same2 small2
  refine ⟨?_,?_,?_⟩
  · rw [sumRaw]
    exact Format.nearest_of_holds (Format.holds_whole (by decide) (by decide) smallRaw)
  · rw [sum2,Int.floor_natCast,Int.cast_natCast]
  · rw [sum_amount,List.map_congr_left sameRaw,List.map_congr_left same2,sumRaw,sum2,gathered.count,Nat.cast_list_sum,
      Nat.cast_list_sum,map_map,map_map]
    rfl

theorem Whole.part {jobs placed whole : List ShareJob} (part : jobs.Sublist placed) (once : placed.Perm whole) :
    Whole whole → Whole jobs := by
  rintro ⟨raw,shares2,same,smallRaw,small2⟩
  obtain ⟨rest,together⟩ := part.exists_perm_append
  have less (measure : ShareJob → ℕ) : (jobs.map measure).sum ≤ (whole.map measure).sum := by
    rw [← (once.map measure).sum_eq,(together.map measure).sum_eq,map_append,sum_append]
    exact Nat.le_add_right _ _
  exact ⟨raw,shares2,fun job member => same job (once.subset (part.subset member)),(less raw).trans_lt smallRaw,
    (less shares2).trans_lt small2⟩

theorem Invariant.amounts (invariant : Invariant state) (whole : Whole state.credited) :
    state.emitted + state.live = state.accepted := by
  have part {shares : List AcceptedShare} (inside : shares.Sublist (state.recordedShares ++ state.liveShares)) :
      Whole (shares.map Prod.fst) := Whole.part (inside.map Prod.fst) invariant.once whole
  refine invariant.totals ShareJob.amount ShareRecord.encoded ShareWorker.amount (fun record member => ?_)
    fun entry member worker inside => ?_
  · have stored : record.shares.Sublist state.recordedShares := List.sublist_flatten_of_mem (mem_map_of_mem member)
    obtain ⟨raw,shares2,amount⟩ := (invariant.shaped.gathered record member).amounts
      (part (stored.trans (List.sublist_append_left _ _)))
    rw [ShareRecord.encoded,raw,shares2]
    exact amount
  · have own : worker.2.shares.Sublist (entry.2.flatMap fun worker => worker.2.shares) :=
      List.sublist_flatten_of_mem (mem_map_of_mem inside)
    have live : worker.2.shares.Sublist state.liveShares :=
      own.trans (List.sublist_flatten_of_mem (mem_map_of_mem member))
    exact ((invariant.worker_gathered entry member worker inside).amounts
      (part (live.trans (List.sublist_append_right _ _)))).2.2

end Totals

/-- Each accepted share is in one record or one live accumulator, which are the sums of their shares, so the
shares are counted and whole amounts are conserved; what is live has a finalizer on its way, and a wallet keeps
at most its limit of named workers and the shared one. -/
theorem credit_conserved {state : State} (reachable : shareAccumulator.ReachableBy Unsplit state) :
    ((state.recordedShares ++ state.liveShares).map Prod.fst).Perm state.credited ∧
    (∀ record ∈ state.records, record.gathered) ∧
    (∀ entry ∈ state.walletAcc, ∀ worker ∈ entry.2, worker.2.gathered) ∧
    state.shareCount = state.credited.length ∧
    (Whole state.credited → state.emitted + state.live = state.accepted) ∧
    (∀ walletKey wallet, get state.walletAcc walletKey = some wallet → wallet ≠ [] →
      ∃ timer ∈ state.timers, timer.walletKey = walletKey) ∧
    ∀ walletKey wallet, get state.walletAcc walletKey = some wallet →
      (wallet.map Prod.fst).Nodup ∧ named wallet = workerCount state walletKey ∧
      workerCount state walletKey ≤ workerLimit ∧ wallet.length ≤ workerLimit + 1 := by
  have invariant := invariant_of_reachable reachable
  have shaped := invariant.shaped
  refine ⟨invariant.once,shaped.gathered,invariant.worker_gathered,invariant.counts,invariant.amounts,?_,?_⟩
  · intro walletKey wallet known nonempty
    rcases shaped.flagged walletKey wallet known with ⟨_,empty⟩ | flag
    · exact absurd empty nonempty
    · exact invariant.timed walletKey flag
  · intro walletKey wallet known
    obtain ⟨distinct,_,counted,bounded⟩ := shaped.wallets walletKey wallet known
    have length := length_le_named distinct
    exact ⟨distinct,counted,bounded,by omega⟩

section Sample

def sampleMiner : Miner := ⟨1,"4address",none,"4address 0 null ","rig","4address",none,.PPLNS,none⟩

def sampleJob : ShareJob := ⟨"",1000,none,1000,1000,least_le_one.trans (by norm_num)⟩

def sampleTemplate : BlockTemplate := ⟨18081,some 3000000,500000,"a1"⟩

def sampleSettings (timeNow : ℤ) : Settings := ⟨timeNow,some 60,18081,some 3000000,7,[("",sampleTemplate)]⟩

def sampleStart : State := ⟨[],[],[],[],[],[],⟨[],[],[],[]⟩,[]⟩

def sampleRun : List Label :=
  [.accept (sampleSettings 0) sampleMiner sampleJob true sampleTemplate,
   .accept (sampleSettings 1000) sampleMiner sampleJob false sampleTemplate,
   .fire (sampleSettings 60001) 0,
   .accept (sampleSettings 60002) sampleMiner sampleJob true sampleTemplate]

/-- A late share of a job whose difficulties a float or an integer does not hold. -/
def oddJob : ShareJob := ⟨"",1000,none,40000001,2001 / 2,least_le_one.trans (by norm_num)⟩

def oddRun : List Label :=
  [.accept (sampleSettings 0) sampleMiner oddJob true sampleTemplate,.fire (sampleSettings 60001) 0]

theorem sample_reachable {labels : List Label} {state : State}
    (ran : shareAccumulator.run sampleStart labels = some state)
    (unsplit : ∀ label ∈ labels, ∀ state, Unsplit state label) : shareAccumulator.ReachableBy Unsplit state :=
  .run (.initial ⟨rfl,rfl,rfl,rfl,rfl,rfl⟩) (fun label member state => unsplit label member state) ran

theorem sampleRun_conserved : ∃ state, shareAccumulator.run sampleStart sampleRun = some state ∧
    state.records.map ShareRecord.encoded = [(2000,2000,2)] ∧ state.live = (1000,1000,1) ∧
    state.emitted + state.live = state.accepted ∧
    ∀ walletKey wallet, get state.walletAcc walletKey = some wallet → wallet ≠ [] →
      ∃ timer ∈ state.timers, timer.walletKey = walletKey := by
  have ends : (shareAccumulator.run sampleStart sampleRun).map (fun state =>
      (state.records.map ShareRecord.encoded,state.live,state.credited)) =
        some ([(2000,2000,2)],(1000,1000,1),List.replicate 3 sampleJob) := by decide +kernel
  obtain ⟨state,ran,seen⟩ := Option.map_eq_some_iff.mp ends
  simp only [Prod.mk.injEq] at seen
  obtain ⟨records,live,credited⟩ := seen
  obtain ⟨_,_,_,_,amounts,pending,_⟩ := credit_conserved (sample_reachable ran (by
    simp only [sampleRun,List.forall_mem_cons]
    exact ⟨fun _ => rfl,fun _ => rfl,fun _ => trivial,fun _ => rfl,List.forall_mem_nil _⟩))
  refine ⟨state,ran,records,live,amounts ?_,pending⟩
  rw [credited]
  refine ⟨fun _ => 1000,fun _ => 1000,fun job member => ?_,by decide,by decide⟩
  rw [List.eq_of_mem_replicate member]
  decide +kernel

/-- The row of a late share holds less than was credited. -/
theorem stored_amounts_cut : ∃ state, shareAccumulator.ReachableBy Unsplit state ∧
    state.emitted = (40000000,1000,1) ∧ state.live = 0 ∧ state.accepted = (40000001,2001 / 2,1) ∧
    state.emitted + state.live ≠ state.accepted := by
  have ends : (shareAccumulator.run sampleStart oddRun).map (fun state => (state.emitted,state.live,state.accepted)) =
      some ((40000000,1000,1),0,40000001,2001 / 2,1) := by decide +kernel
  obtain ⟨state,ran,seen⟩ := Option.map_eq_some_iff.mp ends
  simp only [Prod.mk.injEq] at seen
  obtain ⟨emitted,live,accepted⟩ := seen
  refine ⟨state,sample_reachable ran ?_,emitted,live,accepted,?_⟩
  · simp only [oddRun,List.forall_mem_cons]
    exact ⟨fun _ => rfl,fun _ => trivial,forall_mem_nil _⟩
  · rw [emitted,live,accepted]
    decide +kernel

end Sample

end NodejsPool.Pool.ShareAccumulator
