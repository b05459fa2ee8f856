import Mathlib.Data.Rat.Floor
import NodejsPool.Common.Cascade
import NodejsPool.Common.Ring

/-! The tiered history of a worker's hashrate: the layout of the tiers, the rings of points and the
appending of samples. Hashrates are exact. -/
namespace NodejsPool.WorkerHistory
open Cascade

variable {tierCount maxPoints tierRatio : ℕ}

def uint32Max : ℕ := 0xFFFFFFFF
def defaultBaseIntervalSec : ℕ := 120
def defaultTierRatio : ℕ := 3

/-- A number is `none` where `Number(value)` is not finite. -/
def normalizePositiveInteger (value : Option ℚ) (fallback : ℕ) : ℕ :=
  match value with
  | some value => if 0 < ⌊value⌋ then ⌊value⌋.toNat else fallback
  | none => fallback

/-- `Math.round`. -/
def round (value : ℚ) : ℤ := ⌊value + 1 / 2⌋

def normalizeTimestampMs (value : Option ℚ) : ℕ :=
  let timestampMs := round (value.getD 0)
  let timestampSec := round (timestampMs / 1000)
  (max 0 (min (uint32Max : ℤ) timestampSec)).toNat * 1000

def distributeCapacity (totalPoints tierCount : ℕ) : List ℕ :=
  (List.range tierCount).map fun index => totalPoints / tierCount + if index < totalPoints % tierCount then 1 else 0

def calculateCoverage (capacities : List ℕ) (baseIntervalSec tierRatio : ℕ) : ℕ :=
  (capacities.zipIdx.map fun (capacity,index) => capacity * baseIntervalSec * tierRatio ^ index).sum

def searchTiers (maxPoints baseIntervalSec tierRatio targetSpanSec : ℕ) : ℕ → ℕ → List ℕ → List ℕ
  | 0,_,capacities => capacities
  | remaining + 1,tierCount,_ =>
    let candidate := distributeCapacity maxPoints tierCount
    if targetSpanSec ≤ calculateCoverage candidate baseIntervalSec tierRatio then candidate
    else searchTiers maxPoints baseIntervalSec tierRatio targetSpanSec remaining (tierCount + 1) candidate

def maxTierCount (maxPoints tierRatio : ℕ) : ℕ := max 1 (maxPoints / tierRatio)

structure Layout where
  maxPoints : ℕ
  targetSpanSec : ℕ
  baseIntervalSec : ℕ
  tierRatio : ℕ
  capacities : List ℕ
  intervalsSec : List ℕ
  interval_pos : 0 < baseIntervalSec
  ratio_pos : 0 < tierRatio
  some_tier : capacities ≠ []
  capacity_pos : ∀ capacity ∈ capacities, 0 < capacity
  fits : 1 < capacities.length → ∀ capacity ∈ capacities, tierRatio ≤ capacity

theorem normalizePositiveInteger_pos {value : Option ℚ} {fallback : ℕ} (positive : 0 < fallback) :
    0 < normalizePositiveInteger value fallback := by
  unfold normalizePositiveInteger
  split
  · split
    next large => exact Int.lt_toNat.mpr large
    · exact positive
  · exact positive

theorem distributeCapacity_ge {totalPoints capacity : ℕ}
    (member : capacity ∈ distributeCapacity totalPoints tierCount) :
    totalPoints / tierCount ≤ capacity := by
  obtain ⟨index,_,rfl⟩ := List.mem_map.mp member
  exact Nat.le_add_right _ _

def Fitting (tierRatio : ℕ) (capacities : List ℕ) : Prop :=
  capacities ≠ [] ∧ (∀ capacity ∈ capacities, 0 < capacity) ∧
    (1 < capacities.length → ∀ capacity ∈ capacities, tierRatio ≤ capacity)

theorem distributeCapacity_fitting (points : 0 < maxPoints) (ratio : 0 < tierRatio)
    (some_tier : 0 < tierCount) (within : tierCount ≤ maxTierCount maxPoints tierRatio) :
    Fitting tierRatio (distributeCapacity maxPoints tierCount) := by
  have length : (distributeCapacity maxPoints tierCount).length = tierCount := by simp [distributeCapacity]
  have below : tierCount = 1 ∨ tierCount ≤ maxPoints / tierRatio := by
    unfold maxTierCount at within
    omega
  refine ⟨?_,?_,?_⟩
  · intro none
    rw [none] at length
    exact some_tier.ne length
  · intro capacity member
    refine Nat.lt_of_lt_of_le ?_ (distributeCapacity_ge member)
    rcases below with rfl | below
    · rwa [Nat.div_one]
    · exact Nat.div_pos (below.trans (Nat.div_le_self _ _)) some_tier
  · intro several capacity member
    refine le_trans ?_ (distributeCapacity_ge member)
    rw [length] at several
    rcases below with rfl | below
    · exact absurd several (lt_irrefl 1)
    · have product : tierCount * tierRatio ≤ maxPoints := (Nat.le_div_iff_mul_le ratio).mp below
      exact (Nat.le_div_iff_mul_le some_tier).mpr (by rwa [Nat.mul_comm])

theorem searchTiers_fitting {baseIntervalSec targetSpanSec remaining : ℕ} {capacities : List ℕ}
    (points : 0 < maxPoints) (ratio : 0 < tierRatio) (some_tier : 0 < tierCount)
    (within : tierCount + remaining ≤ maxTierCount maxPoints tierRatio + 1) (fitting : Fitting tierRatio capacities) :
    Fitting tierRatio (searchTiers maxPoints baseIntervalSec tierRatio targetSpanSec remaining tierCount
      capacities) := by
  induction remaining generalizing tierCount capacities with
  | zero => exact fitting
  | succ remaining ih =>
    have candidate : Fitting tierRatio (distributeCapacity maxPoints tierCount) :=
      distributeCapacity_fitting points ratio some_tier (by omega)
    simp only [searchTiers]
    split
    · exact candidate
    · exact ih (by omega) (by omega) candidate

theorem single_fitting (points : 0 < maxPoints) : Fitting tierRatio [maxPoints] := by
  refine ⟨nofun,?_,fun several => absurd several (lt_irrefl 1)⟩
  intro capacity member
  rwa [List.mem_singleton.mp member]

def buildTierLayout (statsBufferLength statsBufferHours baseInterval ratio : Option ℚ) : Layout :=
  let maxPoints := normalizePositiveInteger statsBufferLength 1
  let baseIntervalSec := normalizePositiveInteger baseInterval defaultBaseIntervalSec
  let tierRatio := normalizePositiveInteger ratio defaultTierRatio
  let targetSpanSec := max baseIntervalSec ⌊statsBufferHours.getD 1 * 60 * 60⌋.toNat
  let capacities := searchTiers maxPoints baseIntervalSec tierRatio targetSpanSec (maxTierCount maxPoints tierRatio) 1
    [maxPoints]
  have points : 0 < maxPoints := normalizePositiveInteger_pos Nat.one_pos
  have positive : 0 < tierRatio := normalizePositiveInteger_pos (by decide)
  have fitting : Fitting tierRatio capacities :=
    searchTiers_fitting points positive Nat.one_pos (Nat.add_comm _ _).le (single_fitting points)
  { maxPoints, targetSpanSec, baseIntervalSec, tierRatio, capacities
    intervalsSec := capacities.zipIdx.map fun (_,index) => baseIntervalSec * tierRatio ^ index
    interval_pos := normalizePositiveInteger_pos (by decide)
    ratio_pos := positive
    some_tier := fitting.1
    capacity_pos := fitting.2.1
    fits := fitting.2.2 }

/-- `ts` is in milliseconds. -/
structure Point where
  ts : ℕ
  hs : ℚ
  hs2 : ℚ

structure Sample where
  ts : Option ℚ
  hs : Option ℚ
  hs2 : Option ℚ

structure Record where
  seconds : ℕ
  hs : ℚ
  hs2 : ℚ

abbrev Tier := Ring Record

structure History where
  baseIntervalSec : ℕ
  tierRatio : ℕ
  capacities : List ℕ
  tiers : List Tier

def zero : Record := ⟨0,0,0⟩

def createEmptyTier (capacity : ℕ) : Tier := ⟨0,0,List.replicate capacity zero⟩

def createEmptyHistory (layout : Layout) : History :=
  ⟨layout.baseIntervalSec,layout.tierRatio,layout.capacities,layout.capacities.map createEmptyTier⟩

def readPoint (record : Record) : Point := ⟨record.seconds * 1000,record.hs,record.hs2⟩

def writePoint (point : Point) : Record :=
    ⟨(round ((normalizeTimestampMs (some point.ts) : ℚ) / 1000)).toNat,point.hs,point.hs2⟩

def getPoint (tier : Tier) (capacity logicalIndex : ℕ) : Point := readPoint (tier.get capacity zero logicalIndex)

def normalizePoint (sample : Sample) : Option Point :=
  sample.hs.map fun hs => ⟨normalizeTimestampMs sample.ts,hs,sample.hs2.getD 0⟩

def average (bucketSize : ℕ) (points : List Point) : Point :=
  let totals := points.foldl (fun (_,totalHs,totalHs2) point => (point.ts,totalHs + point.hs,totalHs2 + point.hs2))
    (0,0,0)
  ⟨totals.1,totals.2.1 / bucketSize,totals.2.2 / bucketSize⟩

def compactOldestBucket (tier : Tier) (capacity bucketSize : ℕ) : Point × Tier :=
  (average bucketSize ((List.range bucketSize).map (getPoint tier capacity)),tier.dropOldest capacity bucketSize)

def appendToTier (tierRatio : ℕ) : List ℕ → List Tier → Point → List Tier
  | capacity::capacities,tier::tiers,point =>
    if tiers = [] then
      [(if tier.size = capacity then tier.dropOldest capacity 1 else tier).push capacity (writePoint point)]
    else if tier.size = capacity then
      let (bucket,compacted) := compactOldestBucket tier capacity tierRatio
      compacted.push capacity (writePoint point)::appendToTier tierRatio capacities tiers bucket
    else tier.push capacity (writePoint point)::tiers
  | _,tiers,_ => tiers

def History.append (history : History) (point : Point) : History :=
  { history with tiers := appendToTier history.tierRatio history.capacities history.tiers point }

def normalizeBinaryTier (capacity : ℕ) (tier : Tier) : Option Tier :=
  let size := min tier.size capacity
  let head := if size = 0 then 0 else tier.head % capacity
  if tier.buffer.length = capacity then some ⟨head,size,tier.buffer⟩ else none

def normalizeTieredHistoryPayload (payload : History) : Option History :=
  let capacities := payload.capacities.filter fun capacity => 0 < capacity
  if capacities = [] ∨ capacities.length ≠ payload.tiers.length then none
  else
    (List.zipWith normalizeBinaryTier capacities payload.tiers).mapM id |>.map fun tiers =>
      ⟨if payload.baseIntervalSec = 0 then defaultBaseIntervalSec else payload.baseIntervalSec,
        if payload.tierRatio = 0 then defaultTierRatio else payload.tierRatio,capacities,tiers⟩

def layoutsMatch (history : History) (layout : Layout) : Bool :=
  history.baseIntervalSec = layout.baseIntervalSec && history.tierRatio = layout.tierRatio && history.capacities =
    layout.capacities

def tierPoints (capacity : ℕ) (tier : Tier) : List Point :=
    ((List.range tier.size).map (getPoint tier capacity)).reverse

def historyPoints (history : History) (maxPoints : Option ℕ) : List Point :=
  let points := (List.zipWith tierPoints history.capacities history.tiers).flatten
  match maxPoints with
  | some maxPoints => points.take (max 1 maxPoints)
  | none => points

def importHistoryPoints (points : List Sample) (layout : Layout) : History :=
  points.reverse.foldl (fun history point => (normalizePoint point).elim history history.append)
    (createEmptyHistory layout)

def getWorkerHistoryState (payload : Option History) (layout : Layout) : History :=
  match payload.bind normalizeTieredHistoryPayload with
  | some normalized =>
    if layoutsMatch normalized layout then normalized
    else importHistoryPoints ((historyPoints normalized none).map fun point =>
      ⟨some point.ts,some point.hs,some point.hs2⟩) layout
  | none => createEmptyHistory layout

def appendHistorySample (payload : Option History) (layout : Layout) (sample : Sample) : History :=
  (normalizePoint sample).elim (getWorkerHistoryState payload layout) (getWorkerHistoryState payload layout).append

def queues (history : History) : List (ℕ × List Point) :=
  List.zipWith (fun capacity tier => (capacity,(tier.contents capacity zero).map readPoint))
    history.capacities history.tiers

structure Run where
  payload : Option History
  evicted : List Point

def Run.append (layout : Layout) (run : Run) (sample : Sample) : Run where
  payload := some (appendHistorySample run.payload layout sample)
  evicted := run.evicted ++ (normalizePoint sample).elim [] fun _ =>
    gone (queues (getWorkerHistoryState run.payload layout))

def Run.history (layout : Layout) (run : Run) : History := getWorkerHistoryState run.payload layout

def appendSamples (layout : Layout) (samples : List Sample) : Run := samples.foldl (Run.append layout) ⟨none,[]⟩

end NodejsPool.WorkerHistory
