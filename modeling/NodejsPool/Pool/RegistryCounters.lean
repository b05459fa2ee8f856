import NodejsPool.Pool.MinerRegistry

/-! The counters of the registry: what a removal and a login do to them, and the runs in which they
count the active miners. -/
namespace NodejsPool.Pool.MinerRegistry
open Async Entries Option

def underWallet (wallet : String) (miner : Miner) : Bool := miner.payout = wallet && miner.walletCounted

def underProxy (name : String) (miner : Miner) : Bool := miner.proxyMinerName = some name

def Tallies (exact : Bool) (counts : List (String × ℕ)) (key : String) (number : ℕ) : Prop :=
  get counts key ≠ some 0 ∧ (get counts key).getD 0 ≤ number ∧ (exact = true → (get counts key).getD 0 = number)

/-- The registry's books; those of one wallet may count too little while its miners are removed. -/
structure Square (loose : Option String) (registry : Registry) : Prop where
  distinct : (registry.activeMiners.map Prod.fst).Nodup
  ids : ∀ id miner, get registry.activeMiners id = some miner → miner.id = id
  named : ∀ id miner, get registry.activeMiners id = some miner → ∀ name ∈ miner.proxyMinerName, name = miner.payout
  wallets : ∀ wallet, Tallies (loose ≠ some wallet) registry.minerWallets wallet
    (count (underWallet wallet) registry.activeMiners)
  proxies : ∀ name, Tallies (loose ≠ some name) registry.proxyMiners name
    (count (underProxy name) registry.activeMiners)
  filled : ∀ payout ids, get registry.activeMinersByPayout payout = some ids → ids ≠ [] ∧ ids.Nodup
  payouts : ∀ payout id, id ∈ (get registry.activeMinersByPayout payout).getD [] ↔
    ∃ miner, get registry.activeMiners id = some miner ∧ miner.payout = payout
  sockets : ∀ id, (get registry.activeMinerSockets id).isSome = true ↔ (get registry.activeMiners id).isSome = true

section Releasing

variable {counts : List (String × ℕ)} {key other : String} {number : ℕ} {exact : Bool}

theorem release_other (apart : other ≠ key) : get (release counts key) other = get counts other := by
  unfold release
  split
  · rfl
  · split
    · exact get_erase_other apart
    · exact get_put_other apart

private theorem release_self (counts : List (String × ℕ)) (key : String) : get (release counts key) key ≠ some 0 ∧
    (get (release counts key) key).getD 0 = (get counts key).getD 0 - 1 := by
  unfold release
  cases found : get counts key with
  | none => simp [found]
  | some count =>
    simp only
    split
    next last =>
      rw [get_erase_self]
      exact ⟨by simp,by simp [last]⟩
    next more =>
      rw [get_put_self]
      exact ⟨fun zero => more (some.inj zero),rfl⟩

theorem Tallies.release (counted : Bool) {less : ℕ} (tallies : Tallies exact counts key number)
    (fewer : less + (if counted then 1 else 0) = number)
    (fair : exact = true → counted = true ∨ get counts key = none) : Tallies exact (release counts key) key less := by
  obtain ⟨positive,same⟩ := release_self counts key
  obtain ⟨_,within,equal⟩ := tallies
  refine ⟨positive,?_,fun demands => ?_⟩
  · rw [same]
    split at fewer <;> omega
  · rw [same,equal demands]
    rcases fair demands with counts | absent
    · rw [if_pos counts] at fewer
      omega
    · have nothing := equal demands
      rw [absent,getD_none] at nothing
      omega

end Releasing

section Withdrawing

variable {payouts : List (String × List ℕ)} {payout other : String} {id : ℕ}

theorem withdraw_other (apart : other ≠ payout) : get (withdraw payouts payout id) other = get payouts other := by
  unfold withdraw
  split
  · rfl
  · split
    · exact get_erase_other apart
    · exact get_put_other apart

theorem withdraw_self : (get (withdraw payouts payout id) payout).getD [] =
    ((get payouts payout).getD []).erase id := by
  unfold withdraw
  cases found : get payouts payout with
  | none => rw [found]; rfl
  | some ids =>
    simp only
    split
    next none_left => rw [get_erase_self,getD_none,getD_some,none_left]
    · rw [get_put_self]
      rfl

theorem withdraw_filled (filled : ∀ payout ids, get payouts payout = some ids → ids ≠ [] ∧ ids.Nodup) (ids : List ℕ)
    (found : get (withdraw payouts payout id) other = some ids) : ids ≠ [] ∧ ids.Nodup := by
  by_cases same : other = payout
  · subst same
    unfold withdraw at found
    cases before : get payouts other with
    | none =>
      rw [before] at found
      simp only at found
      rw [before] at found
      cases found
    | some members =>
      rw [before] at found
      simp only at found
      split at found
      · rw [get_erase_self] at found
        cases found
      next left =>
        rw [get_put_self] at found
        cases found
        exact ⟨left,(filled other members before).2.erase id⟩
  · rw [withdraw_other same] at found
    exact filled other ids found

end Withdrawing

section Removing

variable {loose : Option String} {registry : Registry} {id : ℕ} {miner : Miner}

theorem removeMiner_spec (found : get registry.activeMiners id = some miner) (destroySocket : Bool) :
    (removeMiner id destroySocket registry).activeMiners = erase registry.activeMiners id ∧
    (removeMiner id destroySocket registry).minerWallets = release registry.minerWallets miner.payout ∧
    (removeMiner id destroySocket registry).proxyMiners = (match miner.proxyMinerName with
      | none => registry.proxyMiners
      | some proxyMinerName => release registry.proxyMiners proxyMinerName) ∧
    (removeMiner id destroySocket registry).activeMinersByPayout = withdraw registry.activeMinersByPayout
    miner.payout id ∧
    ∀ other, (get (removeMiner id destroySocket registry).activeMinerSockets other).isSome =
      if other = id then false else (get registry.activeMinerSockets other).isSome := by
  have erased (other : ℕ) : (get (erase registry.activeMinerSockets id) other).isSome =
      if other = id then false else (get registry.activeMinerSockets other).isSome := by
    split
    next same => rw [same,get_erase_self]; rfl
    next apart => rw [get_erase_other apart]
  simp only [removeMiner,found]
  cases destroySocket with
  | false => exact ⟨rfl,rfl,rfl,rfl,erased⟩
  | true =>
    simp only [if_true,destroyMinerSocket]
    cases held : get registry.activeMinerSockets id with
    | some socket => exact ⟨rfl,rfl,rfl,rfl,erased⟩
    | none =>
      refine ⟨rfl,rfl,rfl,rfl,fun other => ?_⟩
      simp only
      split
      next same => rw [same,held]; rfl
      · rfl

theorem Square.remove (square : Square loose registry) (found : get registry.activeMiners id = some miner)
    (destroySocket : Bool)
    (fair : loose = some miner.payout ∨ miner.walletCounted = true ∨ get registry.minerWallets miner.payout = none) :
    Square loose (removeMiner id destroySocket registry) := by
  obtain ⟨active,wallets,proxies,payouts,sockets⟩ := removeMiner_spec found destroySocket
  generalize removeMiner id destroySocket registry = removed at active wallets proxies payouts sockets
  have fewer (p : Miner → Bool) : count p removed.activeMiners + (if p miner then 1 else 0) =
      count p registry.activeMiners := by
    have erased := count_erase p id square.distinct
    rwa [found,any_some,← active] at erased
  have still (p : Miner → Bool) (other : p miner = false) :
      count p removed.activeMiners = count p registry.activeMiners := by
    have same := fewer p
    rwa [other,if_neg Bool.false_ne_true,Nat.add_zero] at same
  have kept {other : ℕ} {miner : Miner} (there : get removed.activeMiners other = some miner) :
      other ≠ id ∧ get registry.activeMiners other = some miner := by
    rw [active] at there
    by_cases same : other = id
    · rw [same,get_erase_self] at there
      cases there
    · rw [get_erase_other same] at there
      exact ⟨same,there⟩
  refine ⟨?_,fun other miner there => square.ids other miner (kept there).2,
    fun other miner there => square.named other miner (kept there).2,fun wallet => ?_,fun name =>
    ?_,fun payout ids => ?_,
    fun payout other => ?_,fun other => ?_⟩
  · rw [active]
    exact erase_distinct square.distinct
  · rw [wallets]
    by_cases own : wallet = miner.payout
    · subst own
      refine (square.wallets miner.payout).release miner.walletCounted ?_ fun demands => ?_
      · have less := fewer (underWallet miner.payout)
        rwa [underWallet,decide_eq_true rfl,Bool.true_and] at less
      · rcases fair with slack | counted
        · rw [slack] at demands
          simp at demands
        · exact counted
    · have outside : underWallet wallet miner = false := by simp [underWallet,Ne.symm own]
      rw [Tallies,release_other own,still _ outside]
      exact square.wallets wallet
  · rw [proxies]
    cases named : miner.proxyMinerName with
    | none =>
      rw [still _ (by simp [underProxy,named])]
      exact square.proxies name
    | some proxyMinerName =>
      simp only
      by_cases own : name = proxyMinerName
      · subst own
        refine (square.proxies name).release true ?_ fun _ => .inl rfl
        have less := fewer (underProxy name)
        rwa [underProxy,named,decide_eq_true rfl] at less
      · rw [Tallies,release_other own,still _ (by simp [underProxy,named,Ne.symm own])]
        exact square.proxies name
  · rw [payouts]
    exact withdraw_filled square.filled ids
  · rw [payouts]
    by_cases own : payout = miner.payout
    · subst own
      have members : ((get registry.activeMinersByPayout miner.payout).getD []).Nodup := by
        cases listed : get registry.activeMinersByPayout miner.payout with
        | none => exact List.nodup_nil
        | some ids => exact (square.filled _ ids listed).2
      rw [withdraw_self,members.mem_erase_iff,square.payouts]
      constructor
      · rintro ⟨apart,other,there,same⟩
        exact ⟨other,by rw [active,get_erase_other apart,there],same⟩
      · rintro ⟨other,there,same⟩
        exact ⟨(kept there).1,other,(kept there).2,same⟩
    · rw [withdraw_other own,square.payouts]
      constructor
      · rintro ⟨other',there,same⟩
        refine ⟨other',?_,same⟩
        rw [active,get_erase_other,there]
        rintro rfl
        rw [found] at there
        cases there
        exact own same.symm
      · rintro ⟨other',there,same⟩
        exact ⟨other',(kept there).2,same⟩
  · rw [sockets,active]
    by_cases same : other = id
    · rw [if_pos same,same,get_erase_self]
      simp
    · rw [if_neg same,get_erase_other same]
      exact square.sockets other

theorem Square.removed {wallet : String} (square : Square (some wallet) registry) (ids : List ℕ)
    (belong : ∀ id ∈ ids, ∀ miner, get registry.activeMiners id = some miner → miner.payout = wallet) :
    Square (some wallet) (removeMiners ids registry) ∧
    ∀ id miner, get (removeMiners ids registry).activeMiners id = some miner →
      id ∉ ids ∧ get registry.activeMiners id = some miner := by
  induction ids generalizing registry with
  | nil => exact ⟨square,fun id miner found => ⟨List.not_mem_nil,found⟩⟩
  | cons first ids ih =>
    cases found : get registry.activeMiners first with
    | none =>
      have same : removeMiner first true registry = registry := by simp only [removeMiner,found]
      obtain ⟨kept,left⟩ := ih square fun id member => belong id (List.mem_cons_of_mem _ member)
      rw [MinerRegistry.removeMiners,List.foldl_cons,same]
      refine ⟨kept,fun id miner there => ?_⟩
      obtain ⟨outside,before⟩ := left id miner there
      refine ⟨fun member => ?_,before⟩
      rcases List.mem_cons.mp member with rfl | later
      · rw [found] at before
        cases before
      · exact outside later
    | some miner =>
      have removed := square.remove found true (.inl (by rw [belong first List.mem_cons_self miner found]))
      have active := (removeMiner_spec found true).1
      obtain ⟨kept,left⟩ := ih removed fun id member other there => by
        rw [active] at there
        by_cases same : id = first
        · rw [same,get_erase_self] at there
          cases there
        · rw [get_erase_other same] at there
          exact belong id (List.mem_cons_of_mem _ member) other there
      rw [MinerRegistry.removeMiners,List.foldl_cons]
      refine ⟨kept,fun id other there => ?_⟩
      obtain ⟨outside,before⟩ := left id other there
      rw [active] at before
      by_cases same : id = first
      · rw [same,get_erase_self] at before
        cases before
      · rw [get_erase_other same] at before
        exact ⟨by simpa [same] using outside,before⟩

theorem Square.tighten {wallet : String} (square : Square (some wallet) registry)
    (nobody : ∀ id miner, get registry.activeMiners id = some miner → miner.payout ≠ wallet) :
    Square none registry := by
  have exact {counts : List (String × ℕ)} {key : String} {p : Miner → Bool}
      (tallies : Tallies (some wallet ≠ some key) counts key (count p registry.activeMiners))
      (uncounted : key = wallet → ∀ id miner, get registry.activeMiners id = some miner → p miner = false) :
      Tallies (none ≠ some key) counts key (count p registry.activeMiners) := by
    obtain ⟨positive,within,equal⟩ := tallies
    refine ⟨positive,within,fun _ => ?_⟩
    by_cases own : key = wallet
    · have nothing := count_eq_zero p square.distinct (uncounted own)
      omega
    · exact equal (by simpa using Ne.symm own)
  refine { square with
    wallets := fun key => exact (square.wallets key) ?_
    proxies := fun name => exact (square.proxies name) ?_ }
  · rintro rfl id miner found
    simp [underWallet,nobody id miner found]
  · rintro rfl id miner found
    have other : ¬miner.proxyMinerName = some name :=
      fun same => nobody id miner found (square.named id miner found name same).symm
    simp [underProxy,other]

theorem Square.loosen (square : Square none registry) (loose : Option String) : Square loose registry := by
  refine { square with wallets := fun key => ?_, proxies := fun name => ?_ }
  · obtain ⟨positive,within,equal⟩ := square.wallets key
    exact ⟨positive,within,fun _ => equal rfl⟩
  · obtain ⟨positive,within,equal⟩ := square.proxies name
    exact ⟨positive,within,fun _ => equal rfl⟩

end Removing
/-! Adding. -/

section Adding

variable {loose : Option String} {registry : Registry} {id socket : ℕ} {miner : Miner} {wallet : String}

theorem Tallies.add {counts : List (String × ℕ)} {number : String → ℕ}
    (tallies : ∀ key, Tallies true counts key (number key)) (wallet : String) (key : String) :
    Tallies true (put counts wallet ((get counts wallet).getD 0 + 1)) key (number key + if key =
      wallet then 1 else 0) := by
  obtain ⟨positive,within,equal⟩ := tallies key
  by_cases own : key = wallet
  · subst own
    rw [Tallies,get_put_self,getD_some,if_pos rfl,equal rfl]
    exact ⟨by simp,le_rfl,fun _ => rfl⟩
  · rw [Tallies,get_put_other own,if_neg own]
    exact ⟨positive,within,equal⟩

def Miner.asProxy (miner : Miner) : Miner := { miner with proxyMinerName := some miner.payout }

theorem Square.rename (square : Square none registry) (found : get registry.activeMiners id = some miner)
    (unnamed : miner.proxyMinerName = none) {proxyMiners : List (String × ℕ)}
    (proxies : ∀ name, Tallies (loose ≠ some name) proxyMiners name
      (count (underProxy name) registry.activeMiners + if name = miner.payout then 1 else 0)) :
    Square loose { registry with activeMiners := put registry.activeMiners id miner.asProxy, proxyMiners } := by
  have square' := square.loosen loose
  have still (p : Miner → Bool) : count p (put registry.activeMiners id miner.asProxy) + (if p miner then 1 else 0) =
      count p registry.activeMiners + if p miner.asProxy then 1 else 0 := by
    have put := count_put p registry.activeMiners id miner.asProxy
    rwa [found,any_some] at put
  have back {other : ℕ} {next : Miner} (there : get (put registry.activeMiners id miner.asProxy) other = some next) :
      ∃ before, get registry.activeMiners other = some before ∧ next.id = before.id ∧ next.payout = before.payout ∧
        (next = before ∨ next = miner.asProxy) := by
    by_cases same : other = id
    · subst same
      rw [get_put_self] at there
      cases there
      exact ⟨miner,found,rfl,rfl,.inr rfl⟩
    · rw [get_put_other same] at there
      exact ⟨next,there,rfl,rfl,.inl rfl⟩
  refine ⟨put_distinct square.distinct,fun other next there => ?_,fun other next there name named => ?_,fun key =>
    ?_,fun name => ?_,square.filled,fun payout other => ?_,fun other => ?_⟩
  · obtain ⟨before,here,sameId,_⟩ := back there
    rw [sameId]
    exact square.ids other before here
  · obtain ⟨before,here,_,_,rfl | rfl⟩ := back there
    · exact square.named other next here name named
    · exact (some.inj named).symm
  · have same : count (underWallet key) (put registry.activeMiners id miner.asProxy) =
        count (underWallet key) registry.activeMiners := by
      have kept := still (underWallet key)
      have equal : underWallet key miner.asProxy = underWallet key miner := rfl
      rw [equal] at kept
      omega
    have counted := square'.wallets key
    rw [← same] at counted
    exact counted
  · have more : count (underProxy name) (put registry.activeMiners id miner.asProxy) =
        count (underProxy name) registry.activeMiners + if name = miner.payout then 1 else 0 := by
      have kept := still (underProxy name)
      have before : underProxy name miner = false := by simp [underProxy,unnamed]
      rw [before,if_neg Bool.false_ne_true,Nat.add_zero] at kept
      rw [kept]
      simp [underProxy,Miner.asProxy,eq_comm]
    have counted := proxies name
    rw [← more] at counted
    exact counted
  · rw [square.payouts]
    constructor
    · rintro ⟨before,here,same⟩
      by_cases own : other = id
      · subst own
        cases found.symm.trans here
        exact ⟨_,get_put_self,same⟩
      · exact ⟨before,by rw [get_put_other own,here],same⟩
    · rintro ⟨next,there,same⟩
      obtain ⟨before,here,_,samePayout,_⟩ := back there
      exact ⟨before,here,samePayout ▸ same⟩
  · rw [square.sockets]
    by_cases own : other = id
    · rw [own,get_put_self,found]
      simp
    · rw [get_put_other own]

theorem Square.enter (square : Square none registry) (fresh : get registry.activeMiners miner.id = none)
    (named : ∀ name ∈ miner.proxyMinerName, name = miner.payout) {minerWallets proxyMiners : List (String × ℕ)}
    (wallets : ∀ key, Tallies true minerWallets key
      (count (underWallet key) registry.activeMiners + if underWallet key miner then 1 else 0))
    (proxies : ∀ name, Tallies true proxyMiners name
      (count (underProxy name) registry.activeMiners + if underProxy name miner then 1 else 0)) (socket : ℕ) :
    Square none (finishLogin miner socket { registry with minerWallets, proxyMiners }) := by
  have more (p : Miner → Bool) : count p (put registry.activeMiners miner.id miner) =
      count p registry.activeMiners + if p miner then 1 else 0 := by
    have put := count_put p registry.activeMiners miner.id miner
    rwa [fresh] at put
  have back {other : ℕ} {next : Miner} (there : get (put registry.activeMiners miner.id miner) other = some next) :
      get registry.activeMiners other = some next ∨ other = miner.id ∧ next = miner := by
    by_cases same : other = miner.id
    · rw [same,get_put_self] at there
      exact .inr ⟨same,(some.inj there).symm⟩
    · rw [get_put_other same] at there
      exact .inl there
  have outside : miner.id ∉ (get registry.activeMinersByPayout miner.payout).getD [] := fun member => by
    obtain ⟨other,there,_⟩ := (square.payouts _ _).mp member
    rw [fresh] at there
    cases there
  have listed : (finishLogin miner socket { registry with minerWallets, proxyMiners }).activeMinersByPayout =
      put registry.activeMinersByPayout miner.payout
        ((get registry.activeMinersByPayout miner.payout).getD [] ++ [miner.id]) := by
    simp only [finishLogin,addActiveMiner,if_neg outside]
  refine ⟨put_distinct square.distinct,fun other next there => ?_,fun other next there => ?_,fun key =>
    ?_,fun name => ?_,fun payout ids there => ?_,fun payout other => ?_,fun other => ?_⟩
  · rcases back there with before | ⟨rfl,rfl⟩
    · exact square.ids other next before
    · rfl
  · rcases back there with before | ⟨rfl,rfl⟩
    · exact square.named other next before
    · exact named
  · have counted := wallets key
    rw [← more (underWallet key)] at counted
    exact counted
  · have counted := proxies name
    rw [← more (underProxy name)] at counted
    exact counted
  · rw [listed] at there
    by_cases own : payout = miner.payout
    · rw [own,get_put_self] at there
      cases there
      refine ⟨by simp,List.nodup_append.mpr ⟨?_,List.nodup_singleton _,?_⟩⟩
      · cases before : get registry.activeMinersByPayout miner.payout with
        | none => exact List.nodup_nil
        | some ids => exact (square.filled _ ids before).2
      · intro first member last single same
        obtain rfl := List.mem_singleton.mp single
        exact outside (same ▸ member)
    · rw [get_put_other own] at there
      exact square.filled payout ids there
  · rw [listed]
    change _ ↔ ∃ next, get (put registry.activeMiners miner.id miner) other = some next ∧ next.payout = payout
    have members : (get (put registry.activeMinersByPayout miner.payout
        ((get registry.activeMinersByPayout miner.payout).getD [] ++ [miner.id])) payout).getD [] =
        (get registry.activeMinersByPayout payout).getD [] ++ if payout = miner.payout then [miner.id] else [] := by
      by_cases own : payout = miner.payout
      · rw [own,get_put_self,if_pos rfl]
        rfl
      · rw [get_put_other own,if_neg own,List.append_nil]
    rw [members,List.mem_append,square.payouts]
    constructor
    · rintro (⟨before,here,same⟩ | new)
      · refine ⟨before,?_,same⟩
        rw [get_put_other,here]
        rintro rfl
        rw [fresh] at here
        cases here
      · split at new
        next own =>
          rw [List.mem_singleton.mp new]
          exact ⟨miner,get_put_self,own.symm⟩
        · cases new
    · rintro ⟨next,there,same⟩
      rcases back there with before | ⟨rfl,rfl⟩
      · exact .inl ⟨next,before,same⟩
      · exact .inr (by rw [if_pos same.symm]; exact List.mem_singleton_self _)
  · change (get (put registry.activeMinerSockets miner.id socket) other).isSome = true ↔
      (get (put registry.activeMiners miner.id miner) other).isSome = true
    by_cases own : other = miner.id
    · rw [own,get_put_self,get_put_self]
      simp
    · rw [get_put_other own,get_put_other own]
      exact square.sockets other

end Adding

/-! Steps. -/

section Stepping

variable {registry after : Registry} {config : Config} {id : ℕ} {miner : Miner}

theorem Square.removeAll {wallet : String} (square : Square (some wallet) registry)
    (bannedBigTmpWallets : List String) :
    Square none (removeMiners ((get registry.activeMinersByPayout wallet).getD [])
      { registry with bannedBigTmpWallets }) := by
  have banned : Square (some wallet) { registry with bannedBigTmpWallets } :=
    ⟨square.distinct,square.ids,square.named,square.wallets,square.proxies,square.filled,square.payouts,square.sockets⟩
  obtain ⟨removed,left⟩ := banned.removed ((get registry.activeMinersByPayout wallet).getD [])
    fun id member miner found => by
    obtain ⟨other,there,same⟩ := (square.payouts wallet id).mp member
    cases found.symm.trans there
    exact same
  refine removed.tighten fun id miner found same => ?_
  obtain ⟨outside,before⟩ := left id miner found
  exact outside ((square.payouts wallet id).mpr ⟨miner,before,same⟩)

theorem Square.throttle (square : Square none registry) (found : get registry.activeMiners id = some miner) :
    Square none (addProxyMiner config true miner registry).2.2 := by
  unfold addProxyMiner
  split
  · exact square
  next untracked =>
    have own := square.ids id miner found
    have unnamed : miner.proxyMinerName = none := by
      cases named : miner.proxyMinerName with
      | none => rfl
      | some name =>
        obtain ⟨_,_,equal⟩ := square.proxies name
        have counted := count_pos (underProxy name) found (by simp [underProxy,named])
        cases tracked : get registry.proxyMiners name with
        | none =>
          rw [tracked] at equal
          have nothing := equal rfl
          rw [getD_none] at nothing
          omega
        | some amount => simp [named,tracked] at untracked
    have renamed (proxyMiners : List (String × ℕ)) (loose : Option String) :
      (∀ name, Tallies (loose ≠ some name) proxyMiners name
        (count (underProxy name) registry.activeMiners + if name = miner.payout then 1 else 0)) →
        Square loose { registry with activeMiners := put registry.activeMiners miner.id miner.asProxy, proxyMiners } :=
      fun proxies => own ▸ square.rename found unnamed proxies
    have more := Tallies.add (fun name => square.proxies name) miner.payout
    simp only [if_true]
    cases tracked : get registry.proxyMiners miner.payout with
    | none =>
      rw [tracked] at more
      exact renamed _ none more
    | some amount =>
      simp only
      split
      · have loose := renamed registry.proxyMiners (some miner.payout) fun name => by
          obtain ⟨positive,within,equal⟩ := square.proxies name
          refine ⟨positive,within.trans (Nat.le_add_right _ _),fun demands => ?_⟩
          have other : ¬name = miner.payout := fun same => of_decide_eq_true demands (by rw [same])
          rw [if_neg other]
          exact equal rfl
        exact loose.removeAll _
      · rw [tracked] at more
        exact renamed _ none more

def newcomer (id : ℕ) (login : Login) : Miner := ⟨id,login.payout,login.isNodeProxy,none,false⟩

theorem Square.register (square : Square none registry) {login : Login} (fresh : get registry.activeMiners id = none)
    (socket : ℕ) :
    Square none (match registerMinerWallet config login.agentIsProxy (newcomer id login) registry with
      | (true,miner,registered) => finishLogin miner socket registered
      | (false,_,registered) => registered) := by
  have wallets := fun key => square.wallets key
  have proxies := fun name => square.proxies name
  have unchanged {counts : List (String × ℕ)} {number : String → ℕ}
    (tallies : ∀ key, Tallies true counts key (number key))
      {p : String → Miner → Bool} {miner : Miner} (other : ∀ key, p key miner = false) (key : String) :
      Tallies true counts key (number key + if p key miner then 1 else 0) := by
    rw [other key]
    exact tallies key
  have walletUncounted {miner : Miner} (outside : miner.walletCounted = false) (key : String) :
      underWallet key miner = false := by
    simp [underWallet,outside]
  unfold registerMinerWallet
  by_cases node : (newcomer id login).proxy = true
  · rw [if_pos node]
    exact square.enter fresh (fun _ named => by cases named) (unchanged wallets (walletUncounted rfl))
      (unchanged proxies fun _ => by simp [underProxy,newcomer]) socket
  · rw [if_neg node]
    have more := Tallies.add proxies (newcomer id login).payout
    have named (proxyMiners : List (String × ℕ)) (counted : ∀ name, Tallies true proxyMiners name
        (count (underProxy name) registry.activeMiners + if name = (newcomer id login).payout then 1 else 0)) :
        Square none (finishLogin (newcomer id login).asProxy socket { registry with proxyMiners }) := by
      refine square.enter fresh (fun name own => (some.inj own).symm) (unchanged wallets (walletUncounted rfl))
        (fun name => ?_) socket
      have same : underProxy name (newcomer id login).asProxy = decide (name = (newcomer id login).payout) := by
        simp [underProxy,Miner.asProxy,eq_comm]
      rw [same]
      simpa using counted name
    by_cases tracks : (login.agentIsProxy || (get registry.proxyMiners (newcomer id login).payout).isSome) = true
    · rw [if_pos tracks,addProxyMiner,if_neg (by simp [newcomer])]
      simp only [Bool.false_eq_true,if_false]
      cases tracked : get registry.proxyMiners (newcomer id login).payout with
      | none =>
        rw [tracked] at more
        exact named _ more
      | some amount =>
        rw [tracked] at more
        by_cases full : proxyLimit config ≤ amount
        · simp only [if_pos full]
          exact (square.loosen _).removeAll _
        · simp only [if_neg full]
          exact named _ more
    · rw [if_neg tracks]
      have counts := Tallies.add wallets (newcomer id login).payout
      have counted (minerWallets : List (String × ℕ)) (added : ∀ key, Tallies true minerWallets key
          (count (underWallet key) registry.activeMiners + if key = (newcomer id login).payout then 1 else 0)) :
          Square none (finishLogin { newcomer id login with walletCounted := true } socket
            { registry with minerWallets }) := by
        refine square.enter fresh (fun _ named => by cases named) (fun key => ?_)
          (unchanged proxies fun _ => by simp [underProxy,newcomer]) socket
        have same : underWallet key { newcomer id login with walletCounted := true } =
            decide (key = (newcomer id login).payout) := by simp [underWallet,eq_comm]
        rw [same]
        simpa using added key
      cases known : get registry.minerWallets (newcomer id login).payout with
      | none =>
        rw [known] at counts
        exact counted _ counts
      | some amount =>
        rw [known] at counts
        by_cases room : amount < config.workerMax
        · simp only [if_pos room]
          exact counted _ counts
        · simp only [if_neg room]
          exact ⟨square.distinct,square.ids,square.named,square.wallets,square.proxies,square.filled,
            square.payouts,square.sockets⟩

/-- The miner that a step removes is taken from the counters that counted it, and a login gets an
id that no active miner has. -/
def Fair (registry : Registry) : Label → Prop
  | .login _ _ login => login.accepted = true → get registry.activeMiners (getNewId registry).decId = none
  | .remove id _ => ∀ miner ∈ get registry.activeMiners id,
      miner.walletCounted = true ∨ get registry.minerWallets miner.payout = none
  | .close socket => ∀ id ∈ get registry.minerIds socket, ∀ miner ∈ get registry.activeMiners id,
      miner.walletCounted = true ∨ get registry.minerWallets miner.payout = none
  | _ => True

theorem Square.removes (square : Square none registry) (id : ℕ) (destroySocket : Bool)
    (fair : ∀ miner ∈ get registry.activeMiners id, miner.walletCounted = true ∨
      get registry.minerWallets miner.payout = none) :
    Square none (removeMiner id destroySocket registry) := by
  cases found : get registry.activeMiners id with
  | none => simpa only [removeMiner,found] using square
  | some miner => exact square.remove found destroySocket (.inr (fair miner found))

private theorem step_square {label : Label} (square : Square none registry) (fair : Fair registry label)
    (moved : step registry label = some after) : Square none after := by
  have same (other : Registry) (active : other.activeMiners = registry.activeMiners)
      (payouts : other.activeMinersByPayout = registry.activeMinersByPayout)
      (sockets : other.activeMinerSockets = registry.activeMinerSockets)
        (proxies : other.proxyMiners = registry.proxyMiners)
      (wallets : other.minerWallets = registry.minerWallets) : Square none other := by
    obtain ⟨distinct,ids,named,tallies,named',filled,listed,held⟩ := square
    refine ⟨?_,?_,?_,?_,?_,?_,?_,?_⟩
    all_goals simpa only [active,payouts,sockets,proxies,wallets]
  cases label with
  | login config socket login =>
    cases moved
    simp only [handleLoginRequest]
    split
    · exact square
    · split
      · exact same _ rfl rfl rfl rfl rfl
      next accepted =>
        have issued : Square none (getNewId { registry with minerIds := erase registry.minerIds socket }) :=
          same _ rfl rfl rfl rfl rfl
        exact issued.register (fair (by simpa using accepted)) socket
  | issueId =>
    cases moved
    exact same _ rfl rfl rfl rfl rfl
  | throttle config id =>
    cases moved
    simp only [throttleShare]
    split
    · exact square
    next miner found =>
      split
      · exact square.throttle found
      · exact square
  | remove id destroySocket =>
    cases moved
    exact square.removes id destroySocket fair
  | close socket =>
    cases moved
    simp only [onClose]
    split
    · exact square
    next id held => exact square.removes id false (fair id held)

end Stepping

theorem registry_counts {registry : Registry} (reachable : minerRegistry.ReachableBy Fair registry) :
    (∀ wallet, get registry.minerWallets wallet ≠ some 0 ∧
      (get registry.minerWallets wallet).getD 0 =
        (registry.activeMiners.filter fun entry => entry.2.payout = wallet && entry.2.walletCounted).length) ∧
    (∀ name, get registry.proxyMiners name ≠ some 0 ∧
      (get registry.proxyMiners name).getD 0 =
        (registry.activeMiners.filter fun entry => entry.2.proxyMinerName = some name).length) ∧
    (∀ payout id, id ∈ (get registry.activeMinersByPayout payout).getD [] ↔
      ∃ miner, get registry.activeMiners id = some miner ∧ miner.payout = payout) ∧
    (∀ payout, get registry.activeMinersByPayout payout ≠ some []) ∧
    ∀ id, (get registry.activeMinerSockets id).isSome = true ↔ (get registry.activeMiners id).isSome = true := by
  have square : Square none registry := by
    refine reachable.invariant (Square none) ?_ fun _ _ _ square fair moved => step_square square fair moved
    intro start initial
    cases initial
    refine ⟨List.nodup_nil,nofun,nofun,fun _ => ⟨nofun,le_rfl,fun _ => rfl⟩,fun _ =>
      ⟨nofun,le_rfl,fun _ => rfl⟩,nofun,?_,?_⟩
    · simp [empty]
    · simp [empty]
  refine ⟨fun wallet => ?_,fun name => ?_,square.payouts,fun payout listed =>
    (square.filled payout [] listed).1 rfl,square.sockets⟩
  · obtain ⟨positive,_,equal⟩ := square.wallets wallet
    exact ⟨positive,(equal rfl).trans List.countP_eq_length_filter⟩
  · obtain ⟨positive,_,equal⟩ := square.proxies name
    exact ⟨positive,(equal rfl).trans List.countP_eq_length_filter⟩

def sampleConfig : Config := ⟨2,2⟩

def sampleLogin : Login := ⟨"4address",false,false,true⟩

def proxyLogin (payout : String) : Login := ⟨payout,true,false,true⟩

theorem otherProxy_counts : ∃ registry, minerRegistry.ReachableBy Fair registry ∧
    get registry.minerWallets "4address" ≠ some 0 ∧ (get registry.minerWallets "4address").getD 0 =
      (registry.activeMiners.filter fun entry => entry.2.payout = "4address" && entry.2.walletCounted).length ∧
    registry.activeMiners.length = 1 := by
  obtain ⟨registry,reachable,one⟩ : ∃ registry, minerRegistry.ReachableBy Fair registry ∧
    registry.activeMiners.length = 1 := by
    have first : minerRegistry.ReachableBy Fair empty := .initial (rfl : minerRegistry.initial empty)
    have miner := first.step (by unfold Fair; decide)
      (rfl : minerRegistry.step _ (.login sampleConfig 0 sampleLogin) = some _)
    have proxy := miner.step (by unfold Fair; decide)
      (rfl : minerRegistry.step _ (.login sampleConfig 1 (proxyLogin "4proxy")) = some _)
    have gone := proxy.step (by unfold Fair; decide) (rfl : minerRegistry.step _ (.close 1) = some _)
    exact ⟨_,gone,by decide⟩
  obtain ⟨wallets,_⟩ := registry_counts reachable
  exact ⟨registry,reachable,(wallets "4address").1,(wallets "4address").2,one⟩

/-- A proxy of a miner's own wallet leaves, and takes the miner's count with it. -/
theorem proxy_takes_count : ¬∀ registry, minerRegistry.Reachable registry → ∀ wallet,
    (get registry.minerWallets wallet).getD 0 =
      (registry.activeMiners.filter fun entry => entry.2.payout = wallet && entry.2.walletCounted).length := by
  intro counts
  have reachable : minerRegistry.Reachable _ := Machine.reachable_run rfl (rfl : minerRegistry.run empty
    [.login sampleConfig 0 sampleLogin,.login sampleConfig 1 (proxyLogin "4address"),.close 1] = some _)
  exact absurd (counts _ reachable "4address") (by decide)

end NodejsPool.Pool.MinerRegistry
