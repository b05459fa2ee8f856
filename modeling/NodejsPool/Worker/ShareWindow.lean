import NodejsPool.Common.Entries
import NodejsPool.Worker.MinerKeys
import Mathlib.Tactic.Linarith
import Mathlib.Tactic.Ring

/-! The shares of the last minutes, read back from the newest height, and what they add up to. -/
namespace NodejsPool.Worker.ShareWindow
open Entries List

def HASH_WINDOW_MS : ℤ := 10 * 60 * 1000
def IDENTIFIER_WINDOW_MS : ℤ := 20 * 60 * 1000

section Shares

structure ShareMessage where
  paymentAddress : String
  paymentID : Option String
  identifier : String
  pplns : Bool
  timestamp : ℤ
  port : Option ℤ
  shares2 : Option ℚ
  raw_shares : Option ℚ

def utf16Length (text : String) : ℕ := (text.toList.map fun char => if char.toNat < 0x10000 then 1 else 2).sum

def getMinerId (share : ShareMessage) : String :=
  match share.paymentID with
  | some paymentID =>
    if utf16Length paymentID > 10 then share.paymentAddress ++ "." ++ paymentID else share.paymentAddress
  | none => share.paymentAddress

def shares2Of (share : ShareMessage) : ℚ := share.shares2.getD 0

def rawSharesOf (share : ShareMessage) : ℚ := share.raw_shares.getD 0

def portOf (daemonPort : ℤ) (share : ShareMessage) : ℤ := (share.port.filter (· ≠ 0)).getD daemonPort

structure MinerSummary where
  rawShares : ℚ
  shares2 : ℚ
  lastHash : ℤ
  port : ℤ
  hasPplns : Bool

structure WindowBounds where
  currentTime : ℤ
  hashStart : ℤ
  identifierStart : ℤ

structure PoolTotals (Amount : Type) where
  pplns : Amount
  global : Amount

structure ShareSnapshot where
  identifiers : List (String × List String)
  minerStats : List (String × MinerSummary)
  portHashes : List (ℤ × ℚ)
  localStats : PoolTotals ℚ
  localTimes : PoolTotals ℤ

end Shares

section Snapshot

def mergeIdentifier (identifiers : List (String × List String)) (address identifier : String) :
    List (String × List String) :=
  if identifier = "" then identifiers
  else
    let identifierSet := (Entries.get identifiers address).getD []
    Entries.put identifiers address
      (if identifierSet.contains identifier then identifierSet else identifierSet ++ [identifier])

def mergeMinerSummary (minerStats : List (String × MinerSummary)) (miner : String) (rawShares shares2 : ℚ)
    (lastHash port : ℤ) (hasPplns : Bool) : List (String × MinerSummary) :=
  if shares2 = 0 then minerStats
  else
    let summary := (Entries.get minerStats miner).getD ⟨0,0,lastHash,port,hasPplns⟩
    let newer := summary.lastHash < lastHash
    Entries.put minerStats miner {
      rawShares := summary.rawShares + rawShares
      shares2 := summary.shares2 + shares2
      lastHash := if newer then lastHash else summary.lastHash
      port := if newer then port else summary.port
      hasPplns := summary.hasPplns || hasPplns }

def later (time timestamp : ℤ) : ℤ := if time < timestamp then timestamp else time

def applyShareToSnapshot (daemonPort : ℤ) (bounds : WindowBounds) (snapshot : ShareSnapshot) (share : ShareMessage) :
    ShareSnapshot :=
  if share.timestamp < bounds.identifierStart ∨ share.timestamp ≥ bounds.currentTime then snapshot
  else
    let minerID := getMinerId share
    let snapshot := { snapshot with identifiers := mergeIdentifier snapshot.identifiers minerID share.identifier }
    if share.timestamp < bounds.hashStart then snapshot
    else
      let shares2 := shares2Of share
      let rawShares := rawSharesOf share
      let port := portOf daemonPort share
      let own := mergeMinerSummary snapshot.minerStats minerID rawShares shares2 share.timestamp port share.pplns
      { identifiers := snapshot.identifiers
        minerStats :=
          if shares2 = 0 then snapshot.minerStats
          else if share.identifier = "" then own
          else mergeMinerSummary own (workerKey minerID share.identifier) rawShares shares2 share.timestamp
            port share.pplns
        portHashes :=
          Entries.put snapshot.portHashes port ((Entries.get snapshot.portHashes port).getD 0 + rawShares)
        localStats := {
          pplns := if share.pplns then snapshot.localStats.pplns + shares2 else snapshot.localStats.pplns
          global := snapshot.localStats.global + shares2 }
        localTimes := {
          pplns := if share.pplns then later snapshot.localTimes.pplns share.timestamp else snapshot.localTimes.pplns
          global := later snapshot.localTimes.global share.timestamp } }

end Snapshot

section Scan

variable {Binary : Type}

/-- One share of a height: the oldest time so far and the snapshot; one that does not decode is passed over. -/
def visit (decode : Binary → Option ShareMessage) (daemonPort : ℤ) (bounds : WindowBounds) (read : ℤ × ShareSnapshot)
    (share : Binary) : ℤ × ShareSnapshot :=
  match decode share with
  | none => read
  | some decodedShare =>
    (if decodedShare.timestamp < read.1 then decodedShare.timestamp else read.1,
      applyShareToSnapshot daemonPort bounds read.2 decodedShare)

/-- The heights from one down; `left` is how many more may be read. -/
def scanHeights (decode : Binary → Option ShareMessage) (shareDB : ℕ → List Binary) (daemonPort : ℤ)
    (bounds : WindowBounds) :
    ℕ → ℕ → ℤ × ShareSnapshot → ShareSnapshot
  | 0,currentHeight,read => ((shareDB currentHeight).foldl (visit decode daemonPort bounds) read).2
  | _,0,read => ((shareDB 0).foldl (visit decode daemonPort bounds) read).2
  | left+1,currentHeight+1,read =>
    let read := (shareDB (currentHeight + 1)).foldl (visit decode daemonPort bounds) read
    if read.1 > bounds.identifierStart then scanHeights decode shareDB daemonPort bounds left currentHeight
      read else read.2

def scanShareSnapshot (decode : Binary → Option ShareMessage) (shareDB : ℕ → List Binary) (daemonPort : ℤ) (height : ℕ)
    (bounds : WindowBounds) (snapshot : ShareSnapshot) : ShareSnapshot :=
  scanHeights decode shareDB daemonPort bounds 60 height (bounds.currentTime,snapshot)

def windowBounds (currentTime : ℤ) : WindowBounds where
  currentTime := currentTime
  hashStart := max 0 (currentTime - HASH_WINDOW_MS)
  identifierStart := max 0 (currentTime - IDENTIFIER_WINDOW_MS)

def emptySnapshot (bounds : WindowBounds) : ShareSnapshot where
  identifiers := []
  minerStats := []
  portHashes := []
  localStats := ⟨0,0⟩
  localTimes := ⟨bounds.hashStart,bounds.hashStart⟩

/-- The snapshot of `updateShareStats2`. -/
def shareSnapshot (decode : Binary → Option ShareMessage) (shareDB : ℕ → List Binary) (daemonPort : ℤ) (height : ℕ)
    (currentTime : ℤ) : ShareSnapshot :=
  scanShareSnapshot decode shareDB daemonPort height (windowBounds currentTime)
    (emptySnapshot (windowBounds currentTime))

end Scan
section Windows

variable {Binary : Type} (decode : Binary → Option ShareMessage) (shareDB : ℕ → List Binary) {daemonPort : ℤ}
  {bounds : WindowBounds}

/-- The heights from one down to `left` below it. -/
def heightsFrom (left height : ℕ) : List ℕ := (List.range (min height left + 1)).map fun down => height - down

def storedShares (heights : List ℕ) : List ShareMessage :=
  heights.flatMap fun height => (shareDB height).filterMap decode

def InWindow (bounds : WindowBounds) (share : ShareMessage) : Prop :=
  bounds.hashStart ≤ share.timestamp ∧ share.timestamp < bounds.currentTime

instance (bounds : WindowBounds) : DecidablePred (InWindow bounds) := fun _ => inferInstanceAs (Decidable (_ ∧ _))

theorem heightsFrom_succ (left height : ℕ) : heightsFrom (left + 1)
    (height + 1) = (height + 1)::heightsFrom left height := by
  unfold heightsFrom
  rw [Nat.add_min_add_right,range_succ_eq_map,map_cons,map_map]
  refine congrArg _ (map_congr_left fun down _ => ?_)
  rw [Function.comp_apply]
  omega

theorem heightsFrom_zero_left (height : ℕ) : heightsFrom 0 height = [height] := by
  simp [heightsFrom]

theorem heightsFrom_zero (left : ℕ) : heightsFrom left 0 = [0] := by
  simp [heightsFrom]

theorem mem_heightsFrom {left height other : ℕ} : other ∈ heightsFrom left height → other ≤ height := by
  intro held
  obtain ⟨down,_,rfl⟩ := mem_map.mp held
  omega

variable {decode shareDB}

variable (decode daemonPort bounds) in
theorem visits (read : ℤ × ShareSnapshot) (shares : List Binary) :
    (shares.foldl (visit decode daemonPort bounds) read).2 =
      (shares.filterMap decode).foldl (applyShareToSnapshot daemonPort bounds) read.2 ∧
    ((shares.foldl (visit decode daemonPort bounds) read).1 ≤ bounds.identifierStart → read.1 ≤ bounds.identifierStart ∨
      ∃ share ∈ shares.filterMap decode, share.timestamp ≤ bounds.identifierStart) := by
  induction shares generalizing read with
  | nil => exact ⟨rfl,.inl⟩
  | cons share shares ih =>
    obtain ⟨same,old⟩ := ih (visit decode daemonPort bounds read share)
    rw [foldl_cons]
    cases decoded : decode share with
    | none =>
      have passed : visit decode daemonPort bounds read share = read := by simp [visit,decoded]
      rw [filterMap_cons_none decoded]
      rw [passed] at same old ⊢
      exact ⟨same,old⟩
    | some decodedShare =>
      rw [filterMap_cons_some decoded]
      refine ⟨?_,fun reached => ?_⟩
      · rw [same]
        simp [visit,decoded]
      · rcases old reached with before | ⟨other,among,aged⟩
        · simp only [visit,decoded] at before
          split at before
          · exact .inr ⟨decodedShare,mem_cons_self,before⟩
          · exact .inl before
        · exact .inr ⟨other,mem_cons_of_mem _ among,aged⟩

private theorem visit_height (read : ℤ × ShareSnapshot) (height : ℕ) :
    ((shareDB height).foldl (visit decode daemonPort bounds) read).2 =
      (storedShares decode shareDB [height]).foldl (applyShareToSnapshot daemonPort bounds) read.2 := by
  rw [(visits decode daemonPort bounds read _).1,storedShares,flatMap_singleton]

variable (decode shareDB daemonPort bounds) in
theorem scanHeights_spec (left height : ℕ) (read : ℤ × ShareSnapshot) :
    ∃ front back, heightsFrom left height = front ++ back ∧
      scanHeights decode shareDB daemonPort bounds left height read =
        (storedShares decode shareDB front).foldl (applyShareToSnapshot daemonPort bounds) read.2 ∧
      ∀ low ∈ back, read.1 ≤ bounds.identifierStart ∨
        ∃ high ∈ front, low < high ∧ ∃ share ∈ (shareDB high).filterMap decode, share.timestamp ≤
          bounds.identifierStart := by
  induction left generalizing height read with
  | zero =>
    refine ⟨[height],[],by simp [heightsFrom_zero_left],?_,by simp⟩
    rw [← visit_height]
    unfold scanHeights
    rfl
  | succ left ih =>
    cases height with
    | zero =>
      refine ⟨[0],[],by simp [heightsFrom_zero],?_,by simp⟩
      rw [← visit_height]
      rfl
    | succ height =>
      rw [heightsFrom_succ]
      unfold scanHeights
      dsimp only
      obtain ⟨same,old⟩ := visits decode daemonPort bounds read (shareDB (height + 1))
      split
      next further =>
        obtain ⟨front,back,split,result,reached⟩ :=
          ih height ((shareDB (height + 1)).foldl (visit decode daemonPort bounds) read)
        refine ⟨(height + 1)::front,back,by rw [split,cons_append],?_,?_⟩
        · unfold storedShares at result ⊢
          rw [result,same,flatMap_cons,foldl_append]
        · intro low held
          rcases reached low held with stopped | ⟨high,highHeld,below,aged⟩
          · exact absurd stopped (not_le.mpr further)
          · exact .inr ⟨high,mem_cons_of_mem _ highHeld,below,aged⟩
      next stopped =>
        refine ⟨[height + 1],heightsFrom left height,rfl,visit_height read (height + 1),?_⟩
        intro low held
        rcases old (not_lt.mp stopped) with before | aged
        · exact .inl before
        · exact .inr ⟨height + 1,mem_cons_self,Nat.lt_succ_of_le (mem_heightsFrom held),aged⟩

end Windows
section Totals

variable {daemonPort : ℤ} {bounds : WindowBounds} {snapshot : ShareSnapshot} {share : ShareMessage}

def portTotal (snapshot : ShareSnapshot) (port : ℤ) : ℚ := (Entries.get snapshot.portHashes port).getD 0

def minerTotal (snapshot : ShareSnapshot) (miner : String) : ℚ :=
  ((Entries.get snapshot.minerStats miner).map MinerSummary.shares2).getD 0

def workersTotal (snapshot : ShareSnapshot) (account : String) : ℚ :=
  Entries.total MinerSummary.shares2
    (snapshot.minerStats.filter fun entry => isWorkerKey entry.1 && account == (getMinerParts entry.1).1)

theorem total_merge (minerStats : List (String × MinerSummary)) (miner : String) (rawShares shares2 : ℚ)
    (lastHash port : ℤ) (hasPplns : Bool) (key : String) :
    ((get (mergeMinerSummary minerStats miner rawShares shares2 lastHash port hasPplns) key).map
        MinerSummary.shares2).getD 0 =
      ((get minerStats key).map MinerSummary.shares2).getD 0 + if key = miner then shares2 else 0 := by
  unfold mergeMinerSummary
  split
  next none => simp [none]
  · dsimp only
    by_cases here : key = miner
    · subst here
      rw [get_put_self,if_pos rfl]
      cases get minerStats key <;> simp
    · rw [get_put_other here,if_neg here,add_zero]

theorem total_filter_merge (keep : String → Bool) (minerStats : List (String × MinerSummary)) (miner : String)
    (rawShares shares2 : ℚ) (lastHash port : ℤ) (hasPplns : Bool) : total MinerSummary.shares2
        ((mergeMinerSummary minerStats miner rawShares shares2 lastHash port hasPplns).filter
          fun entry => keep entry.1) =
      total MinerSummary.shares2 (minerStats.filter fun entry => keep entry.1) +
        if keep miner then shares2 else 0 := by
  unfold mergeMinerSummary
  split
  next none => simp [none]
  · dsimp only
    rw [filter_put]
    split
    next kept =>
      rw [total_put,get_filter,if_pos kept]
      cases get minerStats miner <;> simp
      ring
    · rw [add_zero]

variable (daemonPort snapshot) in
theorem apply_outside (out : ¬InWindow bounds share) :
    (applyShareToSnapshot daemonPort bounds snapshot share).minerStats = snapshot.minerStats ∧
    (applyShareToSnapshot daemonPort bounds snapshot share).portHashes = snapshot.portHashes ∧
    (applyShareToSnapshot daemonPort bounds snapshot share).localStats = snapshot.localStats := by
  unfold applyShareToSnapshot
  split
  · exact ⟨rfl,rfl,rfl⟩
  next inside =>
    dsimp only
    split
    · exact ⟨rfl,rfl,rfl⟩
    next fresh =>
      refine absurd ⟨not_lt.mp fresh,?_⟩ out
      exact not_le.mp fun late => inside (.inr late)

structure Counted (daemonPort : ℤ) (share : ShareMessage) (before after : ShareSnapshot) : Prop where
  global : after.localStats.global = before.localStats.global + shares2Of share
  port : ∀ port, portTotal after port = portTotal before port + if port = portOf daemonPort share
    then rawSharesOf share else 0
  miner : ∀ key, minerTotal after key = minerTotal before key +
    (if key = getMinerId share then shares2Of share else 0) +
    if share.identifier ≠ "" ∧ key = workerKey (getMinerId share) share.identifier then shares2Of share else 0
  workers : ∀ account, isWorkerKey (getMinerId share) = false →
    workersTotal after account = workersTotal before account +
    if share.identifier ≠ "" ∧ account = getMinerId share then shares2Of share else 0

variable (daemonPort snapshot) in
private theorem apply_inside (inside : InWindow bounds share) (ordered : bounds.identifierStart ≤ bounds.hashStart) :
    Counted daemonPort share snapshot (applyShareToSnapshot daemonPort bounds snapshot share) := by
  obtain ⟨fresh,soon⟩ := inside
  have known : ¬(share.timestamp < bounds.identifierStart ∨ share.timestamp ≥ bounds.currentTime) := by
    rintro (old | late)
    · exact absurd (ordered.trans fresh) (not_le.mpr old)
    · exact absurd soon (not_lt.mpr late)
  unfold applyShareToSnapshot
  rw [if_neg known]
  dsimp only
  rw [if_neg (not_lt.mpr fresh)]
  refine ⟨rfl,fun port => ?_,fun key => ?_,fun account plain => ?_⟩
  · unfold portTotal
    dsimp only
    by_cases here : port = portOf daemonPort share
    · subst here
      rw [get_put_self,if_pos rfl]
      rfl
    · rw [get_put_other here,if_neg here,add_zero]
  · unfold minerTotal
    dsimp only
    split
    next none => simp [none]
    · split
      next unnamed => simp [total_merge,unnamed]
      next named => simp [total_merge,named]
  · unfold workersTotal
    dsimp only
    have own : (isWorkerKey (getMinerId share) && account == (getMinerParts (getMinerId share)).1) = false := by
      rw [plain]
      rfl
    split
    next none => simp [none]
    · split
      next unnamed =>
        rw [total_filter_merge fun key => isWorkerKey key && account == (getMinerParts key).1,own]
        simp [unnamed]
      next named =>
        rw [total_filter_merge fun key => isWorkerKey key && account == (getMinerParts key).1,
          total_filter_merge fun key => isWorkerKey key && account == (getMinerParts key).1,own,
          getMinerParts_workerKey plain,isWorkerKey_workerKey]
        simp [named]

def workOf (kind : ShareMessage → Bool) (work : ShareMessage → ℚ) (shares : List ShareMessage) : ℚ :=
  ((shares.filter kind).map work).sum

theorem workOf_cons (kind : ShareMessage → Bool) (work : ShareMessage → ℚ) (share : ShareMessage)
    (shares : List ShareMessage) :
    workOf kind work (share::shares) = (if kind share then work share else 0) + workOf kind work shares := by
  unfold workOf
  rw [filter_cons]
  split <;> simp

theorem workOf_parts (kind part : ShareMessage → Bool) (work : ShareMessage → ℚ) (shares : List ShareMessage) :
    workOf kind work shares =
      workOf (fun share => kind share && !part share) work shares + workOf (fun share => kind share && part share)
      work shares := by
  induction shares with
  | nil => simp [workOf]
  | cons share shares ih =>
    rw [workOf_cons,workOf_cons,workOf_cons,ih]
    cases kind share <;> cases part share <;> simp [add_assoc,add_left_comm]

variable (daemonPort) in
theorem foldl_apply (ordered : bounds.identifierStart ≤ bounds.hashStart) (shares : List ShareMessage)
    (snapshot : ShareSnapshot) : let after := shares.foldl (applyShareToSnapshot daemonPort bounds) snapshot
    let counted := shares.filter fun share => InWindow bounds share
    after.localStats.global = snapshot.localStats.global + (counted.map shares2Of).sum ∧
    (∀ port, portTotal after port = portTotal snapshot port +
      workOf (fun share => port == portOf daemonPort share) rawSharesOf counted) ∧
    (∀ account, isWorkerKey account = false → minerTotal after account = minerTotal snapshot account +
      workOf (fun share => account == getMinerId share) shares2Of counted) ∧
    ((∀ share ∈ counted, isWorkerKey (getMinerId share) = false) → ∀ account, workersTotal after account =
      workersTotal snapshot account +
        workOf (fun share => account == getMinerId share && share.identifier != "") shares2Of counted) := by
  induction shares generalizing snapshot with
  | nil => simp [workOf]
  | cons share shares ih =>
    obtain ⟨global,ports,miners,workers⟩ := ih (applyShareToSnapshot daemonPort bounds snapshot share)
    dsimp only at *
    rw [foldl_cons]
    by_cases inside : InWindow bounds share
    · have counted := apply_inside daemonPort snapshot inside ordered
      rw [filter_cons_of_pos (by simpa using inside)]
      refine ⟨?_,fun port => ?_,fun account plain => ?_,fun plain account => ?_⟩
      · rw [global,counted.global,map_cons,sum_cons,add_assoc]
      · rw [ports,counted.port,workOf_cons,add_assoc]
        simp
      · rw [miners account plain,counted.miner,workOf_cons]
        have apart : account ≠ workerKey (getMinerId share) share.identifier := by
          intro same
          rw [same,isWorkerKey_workerKey] at plain
          cases plain
        simp [apart,add_assoc]
      · obtain ⟨own,others⟩ := forall_mem_cons.mp plain
        rw [workers others,counted.workers account own,workOf_cons,add_assoc]
        congr 2
        simp [and_comm]
    · obtain ⟨stats,hashes,local_⟩ := apply_outside daemonPort snapshot inside
      rw [filter_cons_of_neg (by simpa using inside)]
      unfold portTotal minerTotal workersTotal at *
      rw [local_] at global
      rw [hashes] at ports
      rw [stats] at miners workers
      exact ⟨global,ports,miners,workers⟩

end Totals
section Complete

variable {Binary : Type} {decode : Binary → Option ShareMessage} {shareDB : ℕ → List Binary} {daemonPort : ℤ}

/-- A share at a lower height is less than the hash window newer than one at a higher height. -/
def Orderly (decode : Binary → Option ShareMessage) (shareDB : ℕ → List Binary) : Prop :=
  ∀ low high, low < high → ∀ lower ∈ (shareDB low).filterMap decode, ∀ higher ∈ (shareDB high).filterMap decode,
    lower.timestamp < higher.timestamp + HASH_WINDOW_MS

def countedShares (decode : Binary → Option ShareMessage) (shareDB : ℕ → List Binary) (height : ℕ) (currentTime : ℤ) :
    List ShareMessage :=
  (storedShares decode shareDB (heightsFrom 60 height)).filter fun share => InWindow (windowBounds currentTime) share

theorem windowBounds_ordered (currentTime : ℤ) :
    (windowBounds currentTime).identifierStart ≤ (windowBounds currentTime).hashStart := by
  simp only [windowBounds,HASH_WINDOW_MS,IDENTIFIER_WINDOW_MS]
  omega

variable (daemonPort) in
private theorem scan_complete (height : ℕ) {currentTime : ℤ} (orderly : Orderly decode shareDB)
    (clock : IDENTIFIER_WINDOW_MS ≤ currentTime ∨ ∀ height, ∀ share ∈ (shareDB height).filterMap decode, 0 <
      share.timestamp) :
    ∃ read : List ShareMessage, read.filter (fun share => InWindow (windowBounds currentTime) share) =
        countedShares decode shareDB height currentTime ∧
      shareSnapshot decode shareDB daemonPort height currentTime =
        read.foldl (applyShareToSnapshot daemonPort (windowBounds currentTime))
        (emptySnapshot (windowBounds currentTime)) := by
  obtain ⟨front,back,split,result,unread⟩ := scanHeights_spec decode shareDB daemonPort
    (windowBounds currentTime) 60 height ((windowBounds currentTime).currentTime,
    emptySnapshot (windowBounds currentTime))
  refine ⟨storedShares decode shareDB front,?_,result⟩
  have old : (storedShares decode shareDB back).filter (fun share => InWindow (windowBounds currentTime) share) =
      [] := by
    refine filter_eq_nil_iff.mpr fun share among => ?_
    obtain ⟨low,held,stored⟩ := mem_flatMap.mp among
    rw [decide_eq_true_eq]
    intro inside
    obtain ⟨fresh,soon⟩ := inside
    simp only [windowBounds] at fresh soon
    rcases unread low held with started | ⟨high,_,below,other,otherStored,aged⟩
    · simp only [windowBounds,IDENTIFIER_WINDOW_MS] at started
      omega
    · have near := orderly low high below share stored other otherStored
      simp only [windowBounds] at aged
      rcases clock with late | positive
      · simp only [HASH_WINDOW_MS,IDENTIFIER_WINDOW_MS] at *
        omega
      · have after := positive high other otherStored
        simp only [HASH_WINDOW_MS,IDENTIFIER_WINDOW_MS] at *
        omega
  unfold countedShares
  rw [split,storedShares,storedShares,flatMap_append,filter_append]
  exact (append_right_eq_self.mpr old).symm

/-- The totals are those of all shares of the window, each counted once; an account has what its workers have and what
its shares without a worker add. -/
theorem window_complete (decode : Binary → Option ShareMessage) (shareDB : ℕ → List Binary)
    (daemonPort : ℤ) (height : ℕ) (currentTime : ℤ) (orderly : Orderly decode shareDB)
    (clock : IDENTIFIER_WINDOW_MS ≤ currentTime ∨ ∀ height, ∀ share ∈ (shareDB height).filterMap decode, 0 <
      share.timestamp) :
    let snapshot := shareSnapshot decode shareDB daemonPort height currentTime
    let counted := countedShares decode shareDB height currentTime
    snapshot.localStats.global = (counted.map shares2Of).sum ∧
    (∀ port, portTotal snapshot port = workOf (fun share => port == portOf daemonPort share) rawSharesOf counted) ∧
    ((∀ share ∈ counted, isWorkerKey (getMinerId share) = false) → ∀ account, isWorkerKey account = false →
      minerTotal snapshot account = workOf (fun share => account == getMinerId share) shares2Of counted ∧
      minerTotal snapshot account = workersTotal snapshot account +
        workOf (fun share => account == getMinerId share && share.identifier == "") shares2Of counted) := by
  obtain ⟨read,same,result⟩ := scan_complete daemonPort height orderly clock
  obtain ⟨global,ports,miners,workers⟩ := foldl_apply daemonPort (windowBounds_ordered currentTime) read
    (emptySnapshot (windowBounds currentTime))
  dsimp only at *
  rw [← result,same] at global ports miners workers
  refine ⟨?_,fun port => ?_,fun plain account named => ⟨?_,?_⟩⟩
  · rw [global]
    exact zero_add _
  · rw [ports]
    exact zero_add _
  · rw [miners account named]
    exact zero_add _
  · have own := miners account named
    have theirs := workers plain account
    have parts := workOf_parts (fun share => account == getMinerId share)
      (fun share => share.identifier == "") shares2Of (countedShares decode shareDB height currentTime)
    rw [own,theirs,parts,← add_assoc]
    rfl

def aShare (timestamp : ℤ) (identifier : String) (shares2 : ℚ) : ShareMessage :=
  ⟨"4abc",none,identifier,true,timestamp,some 18081,some shares2,some 1⟩

def stored (rows : List (ℕ × ShareMessage)) (height : ℕ) : List ShareMessage :=
  (rows.filter fun row => row.1 = height).map Prod.snd

theorem orderly_stored {rows : List (ℕ × ShareMessage)} (orderly : ∀ lower ∈ rows, ∀ higher ∈ rows, lower.1 < higher.1 →
    lower.2.timestamp < higher.2.timestamp + HASH_WINDOW_MS) : Orderly some (stored rows) := by
  intro low high below lower lowerStored higher higherStored
  rw [filterMap_some] at lowerStored higherStored
  obtain ⟨first,firstHeld,rfl⟩ := mem_map.mp lowerStored
  obtain ⟨second,secondHeld,rfl⟩ := mem_map.mp higherStored
  obtain ⟨firstHeld,firstHeight⟩ := mem_filter.mp firstHeld
  obtain ⟨secondHeld,secondHeight⟩ := mem_filter.mp secondHeld
  refine orderly first firstHeld second secondHeld ?_
  rw [of_decide_eq_true firstHeight,of_decide_eq_true secondHeight]
  exact below

def someRows : List (ℕ × ShareMessage) := [(7,aShare 1700000001000 "rig" 5),(7,aShare 1700000000000 "" 2),
  (6,aShare 1699998000000 "rig" 11),(6,aShare 1699999900000 "rig" 3),(5,aShare 1699998500000 "rig" 13)]

theorem window_complete_rows : let snapshot := shareSnapshot some (stored someRows) 18081 7 1700000002000
    let counted := countedShares some (stored someRows) 7 1700000002000
    snapshot.localStats.global = 10 ∧ snapshot.localStats.global = (counted.map shares2Of).sum ∧
    minerTotal snapshot "4abc" = workersTotal snapshot "4abc" +
      workOf (fun share => "4abc" == getMinerId share && share.identifier == "") shares2Of counted := by
  have orderly : Orderly some (stored someRows) := orderly_stored (by decide +kernel)
  obtain ⟨global,_,accounts⟩ := window_complete some (stored someRows) 18081 7 1700000002000 orderly (.inl (by decide))
  exact ⟨by decide +kernel,global,(accounts (by decide +kernel) "4abc" (by decide +kernel)).2⟩

/-- Soon after the epoch the scan stops at a share of time zero, and a lower one is still in the window. -/
theorem early_share_missed : ¬∀ (decode : ShareMessage → Option ShareMessage) (shareDB : ℕ → List ShareMessage)
    (daemonPort : ℤ) (height : ℕ) (currentTime : ℤ), 0 ≤ currentTime → Orderly decode shareDB →
    (shareSnapshot decode shareDB daemonPort height currentTime).localStats.global =
      ((countedShares decode shareDB height currentTime).map shares2Of).sum := by
  intro complete
  have counted := complete some (stored [(7,aShare 0 "" 2),(6,aShare 1000 "" 3)]) 18081 7 300000 (by decide)
    (orderly_stored (by decide +kernel))
  revert counted
  decide +kernel

end Complete
end NodejsPool.Worker.ShareWindow
