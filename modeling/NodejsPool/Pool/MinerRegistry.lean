import NodejsPool.Async.Machine
import NodejsPool.Common.Entries

/-! The registry of active miners: logins on sockets, the counters of wallets and proxies, the
indexes by payout and by socket, and the removals. -/
namespace NodejsPool.Pool.MinerRegistry
open Async Entries

structure Login where
  payout : String
  /-- The agent calls itself a proxy. -/
  agentIsProxy : Bool
  /-- The agent is xmr-node-proxy. -/
  isNodeProxy : Bool
  /-- The miner was neither rejected nor only notified. -/
  accepted : Bool

/-- No step reads `walletCounted`: whether the login counted the miner in its wallet's entry. -/
structure Miner where
  id : ℕ
  payout : String
  proxy : Bool
  proxyMinerName : Option String
  walletCounted : Bool

structure Config where
  workerMax : ℕ
  proxyWorkerMax : ℕ

structure Registry where
  decId : ℕ
  activeMiners : List (ℕ × Miner)
  activeMinersByPayout : List (String × List ℕ)
  activeMinerSockets : List (ℕ × ℕ)
  proxyMiners : List (String × ℕ)
  minerWallets : List (String × ℕ)
  bannedBigTmpWallets : List String
  /-- `socket.miner_id`. -/
  minerIds : List (ℕ × ℕ)

def getNewId (registry : Registry) : Registry :=
  { registry with decId := if 999999999999999 < registry.decId + 1 then 0 else registry.decId + 1 }

def addActiveMiner (miner : Miner) (socket : ℕ) (registry : Registry) : Registry :=
  let payoutMiners := (get registry.activeMinersByPayout miner.payout).getD []
  { registry with
    activeMiners := put registry.activeMiners miner.id miner
    activeMinerSockets := put registry.activeMinerSockets miner.id socket
    activeMinersByPayout := put registry.activeMinersByPayout miner.payout
      (if miner.id ∈ payoutMiners then payoutMiners else payoutMiners ++ [miner.id]) }

/-- `--count <= 0` deletes the entry. -/
def release (counts : List (String × ℕ)) (key : String) : List (String × ℕ) :=
  match get counts key with
  | none => counts
  | some count => if count - 1 = 0 then erase counts key else put counts key (count - 1)

def withdraw (payouts : List (String × List ℕ)) (payout : String) (id : ℕ) : List (String × List ℕ) :=
  match get payouts payout with
  | none => payouts
  | some payoutMiners => if payoutMiners.erase id = [] then erase payouts payout else put payouts payout
    (payoutMiners.erase id)

def destroyMinerSocket (id : ℕ) (registry : Registry) : Registry :=
  match get registry.activeMinerSockets id with
  | none => registry
  | some socket => { registry with
      activeMinerSockets := erase registry.activeMinerSockets id
      minerIds := if get registry.minerIds socket = some id then erase registry.minerIds socket else registry.minerIds }

def removeMiner (id : ℕ) (destroySocket : Bool) (registry : Registry) : Registry :=
  match get registry.activeMiners id with
  | none => registry
  | some miner =>
    let removed := { registry with
      proxyMiners := match miner.proxyMinerName with
        | none => registry.proxyMiners
        | some proxyMinerName => release registry.proxyMiners proxyMinerName
      minerWallets := release registry.minerWallets miner.payout
      activeMinersByPayout := withdraw registry.activeMinersByPayout miner.payout id
      activeMiners := erase registry.activeMiners id }
    if destroySocket then destroyMinerSocket id removed
    else { removed with activeMinerSockets := erase removed.activeMinerSockets id }

def removeMiners (ids : List ℕ) (registry : Registry) : Registry :=
  ids.foldl (fun registry id => removeMiner id true registry) registry

def proxyLimit (config : Config) : ℕ := if config.proxyWorkerMax = 0 then config.workerMax else config.proxyWorkerMax

def addProxyMiner (config : Config) (active : Bool) (miner : Miner) (registry : Registry) : Bool × Miner × Registry :=
  if miner.proxyMinerName.any fun name => (get registry.proxyMiners name).isSome then (true,miner,registry)
  else
    let wallet := miner.payout
    let named := { miner with proxyMinerName := some wallet }
    let known := if active then { registry with activeMiners := put registry.activeMiners named.id named } else registry
    match get known.proxyMiners wallet with
    | none => (true,named,{ known with proxyMiners := put known.proxyMiners wallet 1 })
    | some count =>
      if proxyLimit config ≤ count then
        (false,named,removeMiners ((get known.activeMinersByPayout wallet).getD [])
          { known with bannedBigTmpWallets := known.bannedBigTmpWallets ++ [wallet] })
      else (true,named,{ known with proxyMiners := put known.proxyMiners wallet (count + 1) })

def registerMinerWallet (config : Config) (agentIsProxy : Bool) (miner : Miner) (registry : Registry) :
    Bool × Miner × Registry :=
  if miner.proxy then (true,miner,registry)
  else if agentIsProxy || (get registry.proxyMiners miner.payout).isSome then addProxyMiner config false miner registry
  else
    let counted := { miner with walletCounted := true }
    match get registry.minerWallets miner.payout with
    | none => (true,counted,{ registry with minerWallets := put registry.minerWallets miner.payout 1 })
    | some count =>
      if count < config.workerMax then
        (true,counted,{ registry with minerWallets := put registry.minerWallets miner.payout (count + 1) })
      else (false,miner,{ registry with bannedBigTmpWallets := registry.bannedBigTmpWallets ++ [miner.payout] })

def finishLogin (miner : Miner) (socket : ℕ) (registry : Registry) : Registry :=
  addActiveMiner miner socket { registry with minerIds := put registry.minerIds socket miner.id }

def handleLoginRequest (config : Config) (socket : ℕ) (login : Login) (registry : Registry) : Registry :=
  if (get registry.minerIds socket).any fun id => (get registry.activeMiners id).isSome then registry
  else
    let issued := getNewId { registry with minerIds := erase registry.minerIds socket }
    if !login.accepted then issued
    else
      match registerMinerWallet config login.agentIsProxy ⟨issued.decId,login.payout,login.isNodeProxy,none,
      false⟩ issued with
      | (true,miner,registered) => finishLogin miner socket registered
      | (false,_,registered) => registered

def throttleShare (config : Config) (id : ℕ) (registry : Registry) : Registry :=
  match get registry.activeMiners id with
  | none => registry
  | some miner =>
    if (get registry.minerWallets miner.payout).isSome then (addProxyMiner config true miner registry).2.2 else registry

def onClose (socket : ℕ) (registry : Registry) : Registry :=
  match get registry.minerIds socket with
  | none => registry
  | some id => removeMiner id false registry

/-- A removal is a timeout, a ban or a run of invalid jobs; ids are issued for jobs as well. -/
inductive Label where
  | login (config : Config) (socket : ℕ) (login : Login)
  | issueId
  | throttle (config : Config) (id : ℕ)
  | remove (id : ℕ) (destroySocket : Bool)
  | close (socket : ℕ)

def step (registry : Registry) : Label → Option Registry
  | .login config socket login => some (handleLoginRequest config socket login registry)
  | .issueId => some (getNewId registry)
  | .throttle config id => some (throttleShare config id registry)
  | .remove id destroySocket => some (removeMiner id destroySocket registry)
  | .close socket => some (onClose socket registry)

def empty : Registry := ⟨0,[],[],[],[],[],[],[]⟩

def minerRegistry : Machine Registry Label where
  initial registry := registry = empty
  step := step

end NodejsPool.Pool.MinerRegistry
