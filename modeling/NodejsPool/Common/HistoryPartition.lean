import Mathlib.Data.List.Induction
import NodejsPool.Common.RingCascade
import NodejsPool.Common.WorkerHistory

/-! What the points of a worker's history stand for: consecutive samples, cut without gap or overlap. -/
namespace NodejsPool.WorkerHistory
open Cascade RingCascade List

section Timestamps

theorem round_natCast (value : ℕ) : round value = value := by
  rw [round,Int.floor_eq_iff]
  constructor <;> push_cast <;> linarith

theorem round_mono {first second : ℚ} (le : first ≤ second) : round first ≤ round second := Int.floor_mono (by linarith)

theorem normalizeTimestampMs_mono {first second : Option ℚ} (le : first.getD 0 ≤ second.getD 0) :
    normalizeTimestampMs first ≤ normalizeTimestampMs second := by
  have milliseconds : ((round (first.getD 0) : ℚ)) ≤ round (second.getD 0) := Int.cast_le.mpr (round_mono le)
  have seconds : round (round (first.getD 0) / 1000) ≤ round (round (second.getD 0) / 1000) :=
    round_mono (div_le_div_of_nonneg_right milliseconds (by norm_num))
  refine Nat.mul_le_mul_right 1000 (Int.toNat_le_toNat ?_)
  omega

def Stamped (ts : ℕ) : Prop := ∃ seconds ≤ uint32Max, ts = seconds * 1000

theorem stamped_normalizeTimestampMs (value : Option ℚ) : Stamped (normalizeTimestampMs value) :=
  ⟨_,by omega,rfl⟩

theorem normalizeTimestampMs_stamped {ts : ℕ} (stamped : Stamped ts) : normalizeTimestampMs (some (ts : ℚ)) = ts := by
  obtain ⟨seconds,within,rfl⟩ := stamped
  have whole : round (((seconds * 1000 : ℕ) : ℤ) / 1000 : ℚ) = seconds := by
    rw [← round_natCast seconds]
    congr 1
    push_cast
    ring
  simp only [normalizeTimestampMs,Option.getD_some,round_natCast,whole]
  congr 1
  omega

theorem readPoint_writePoint {point : Point} (stamped : Stamped point.ts) : readPoint (writePoint point) = point := by
  have same := normalizeTimestampMs_stamped stamped
  obtain ⟨seconds,_,whole⟩ := stamped
  have back : round (((seconds * 1000 : ℕ) : ℚ) / 1000) = seconds := by
    rw [← round_natCast seconds]
    congr 1
    push_cast
    ring
  have read : (writePoint point).seconds * 1000 = point.ts := by
    rw [writePoint,same,whole,back,Int.toNat_natCast]
  rw [readPoint,read]
  rfl

theorem stamped_write (point : Point) : (writePoint point).seconds ≤ uint32Max := by
  obtain ⟨seconds,within,whole⟩ := stamped_normalizeTimestampMs (some (point.ts : ℚ))
  have back : round (((seconds * 1000 : ℕ) : ℚ) / 1000) = seconds := by
    rw [← round_natCast seconds]
    congr 1
    push_cast
    ring
  rw [writePoint,whole,back,Int.toNat_natCast]
  exact within

end Timestamps

section Averages

/-- A point stands for consecutive samples: their mean, with the timestamp of the newest. -/
structure Summarises (point : Point) (samples : List Point) : Prop where
  newest : samples.getLast?.map Point.ts = some point.ts
  hs : point.hs = (samples.map Point.hs).sum / samples.length
  hs2 : point.hs2 = (samples.map Point.hs2).sum / samples.length

theorem Summarises.ne_nil {point : Point} {samples : List Point} (summarises : Summarises point samples) :
    samples ≠ [] := by
  rintro rfl
  have newest := summarises.newest
  cases newest

theorem summarises_self (point : Point) : Summarises point [point] := by
  constructor <;> simp

theorem fold_totals (points : List Point) (ts : ℕ) (hs hs2 : ℚ) :
    points.foldl (fun (_,totalHs,totalHs2) point => (point.ts,totalHs + point.hs,totalHs2 + point.hs2)) (ts,hs,hs2) =
      ((points.getLast?.map Point.ts).getD ts,hs + (points.map Point.hs).sum,hs2 + (points.map Point.hs2).sum) := by
  induction points generalizing ts hs hs2 with
  | nil => simp
  | cons point points ih =>
    rw [foldl_cons,ih,getLast?_cons]
    cases points.getLast? <;> simp [add_assoc]

theorem average_eq (bucketSize : ℕ) (points : List Point) : average bucketSize points =
    ⟨(points.getLast?.map Point.ts).getD 0,(points.map Point.hs).sum / bucketSize,
      (points.map Point.hs2).sum / bucketSize⟩ := by
  simp only [average,fold_totals,zero_add]

theorem total_chunks {size : ℕ} {points samples : List Point} (chunks : Chunks Summarises size points samples)
    (value : Point → ℚ)
    (mean : ∀ point chunk, Summarises point chunk → value point = (chunk.map value).sum / chunk.length) :
    (samples.map value).sum = size * (points.map value).sum := by
  induction chunks with
  | nil => simp
  | @cons point points chunk rest stand length _ ih =>
    have positive : (chunk.length : ℚ) ≠ 0 := by
      rw [Nat.cast_ne_zero,Ne,length_eq_zero_iff]
      exact stand.ne_nil
    have own : (chunk.map value).sum = size * value point := by
      rw [mean point chunk stand,← length]
      field_simp
    rw [map_append,sum_append,own,ih,map_cons,sum_cons]
    ring

theorem average_combines {ratio : ℕ} (positive : 0 < ratio) : Combines Summarises ratio (average ratio) := by
  intro size points samples group chunks
  have length : (samples.length : ℚ) = size * ratio := by rw [chunks.length,group,Nat.cast_mul]
  have some_points : points ≠ [] := by
    rintro rfl
    exact positive.ne group
  obtain ⟨last,newest⟩ : ∃ last, points.getLast? = some last := ⟨_,getLast?_eq_some_getLast some_points⟩
  have size_ne : (size : ℚ) ≠ 0 := by
    cases chunks with
    | nil => exact absurd rfl some_points
    | cons stand own _ =>
      rw [Nat.cast_ne_zero,← own,Ne,length_eq_zero_iff]
      exact stand.ne_nil
  have ratio_ne : (ratio : ℚ) ≠ 0 := Nat.cast_ne_zero.mpr positive.ne'
  rw [average_eq]
  refine ⟨?_,?_,?_⟩
  · rw [chunks.getLast_map fun _ _ stand => stand.newest,newest]
    rfl
  · rw [total_chunks chunks Point.hs fun _ _ stand => stand.hs,length]
    field_simp
  · rw [total_chunks chunks Point.hs2 fun _ _ stand => stand.hs2,length]
    field_simp

end Averages

section Tiers

structure Tier.Sound (capacity : ℕ) (tier : Tier) : Prop where
  wellFormed : tier.WellFormed capacity
  stamped : ∀ record ∈ tier.contents capacity zero, record.seconds ≤ uint32Max
  empty : tier.size = 0 → tier.head = 0

def cells : Cells Record Point := ⟨zero,readPoint,writePoint⟩

variable {capacity ratio : ℕ} {capacities : List ℕ} {tier : Tier} {tiers : List Tier} {point : Point}
    {history : History} {layout : Layout}

theorem stamped_points (sound : tier.Sound capacity) (member : point ∈ points cells capacity tier) :
    Stamped point.ts := by
  obtain ⟨record,inside,rfl⟩ := mem_map.mp member
  exact ⟨record.seconds,sound.stamped record inside,rfl⟩

theorem push_sound (count : ℕ) (sound : tier.Sound capacity) (room : (tier.dropOldest capacity count).size < capacity)
    (point : Point) : Tier.Sound capacity ((tier.dropOldest capacity count).push capacity (writePoint point)) := by
  have wellFormed := Ring.dropOldest_wellFormed sound.wellFormed count
  refine ⟨Ring.push_wellFormed wellFormed room _,?_,fun none => absurd none (Nat.succ_ne_zero _)⟩
  intro record member
  rw [Ring.contents_push wellFormed room,Ring.contents_dropOldest] at member
  rcases mem_append.mp member with before | new
  · exact sound.stamped record (mem_of_mem_drop before)
  · rw [mem_singleton.mp new]
    exact stamped_write point

theorem stamped_average (positive : 0 < ratio) (sound : tier.Sound capacity) (within : ratio ≤ tier.size) :
    Stamped (average ratio (oldest cells capacity ratio tier)).ts := by
  rw [oldest_eq within]
  have length : ((points cells capacity tier).take ratio).length = ratio := by
    rw [length_take,length_points,Nat.min_eq_left within]
  have some_points : (points cells capacity tier).take ratio ≠ [] := by
    intro none
    rw [none] at length
    exact positive.ne length
  have newest := stamped_points sound (mem_of_mem_take (getLast_mem some_points))
  rwa [average_eq,getLast?_eq_some_getLast some_points]

theorem cells_lawful (positive : 0 < ratio) :
    Lawful cells ratio (average ratio) Tier.Sound (fun point => Stamped point.ts) fun point => point where
  positive := positive
  wellFormed sound := sound.wellFormed
  pushed count sound room _ := push_sound count sound room _
  back stamped := readPoint_writePoint stamped
  combined sound within := stamped_average positive sound within

theorem appendToTier_eq (ratio : ℕ) (capacities : List ℕ) (tiers : List Tier) (point : Point) :
    appendToTier ratio capacities tiers point = append cells ratio (average ratio) capacities tiers point := by
  induction capacities generalizing tiers point with
  | nil => cases tiers <;> rfl
  | cons capacity capacities ih =>
    cases tiers with
    | nil => rfl
    | cons tier tiers =>
      rw [appendToTier,append]
      split
      · rfl
      · split
        · exact congrArg _ (ih tiers _)
        · rfl

end Tiers

section Runs

variable {layout : Layout} {history : History} {point : Point} {capacities : List ℕ} {tiers : List Tier}
    {samples : List Sample}

structure Kept (layout : Layout) (history : History) : Prop where
  interval : history.baseIntervalSec = layout.baseIntervalSec
  ratio : history.tierRatio = layout.tierRatio
  capacities : history.capacities = layout.capacities
  sound : List.Forall₂ Tier.Sound layout.capacities history.tiers

theorem queues_kept (kept : Kept layout history) : queues history = queuesOf cells layout.capacities history.tiers := by
  rw [← kept.capacities]
  rfl

theorem Layout.fits_dropLast (layout : Layout) :
    ∀ capacity ∈ layout.capacities.dropLast, layout.tierRatio ≤ capacity := by
  intro capacity member
  refine layout.fits ?_ capacity (dropLast_subset _ member)
  have some_dropped := length_pos_of_mem member
  rw [length_dropLast] at some_dropped
  omega

theorem Kept.roomy (kept : Kept layout history) : Roomy layout.tierRatio (queues history) := by
  rw [queues_kept kept]
  refine roomy_zipWith (kept.sound.imp fun _ _ own => ?_) layout.capacity_pos layout.fits_dropLast
  exact length_points.le.trans own.wellFormed.size_le

theorem createEmptyTier_sound {capacity : ℕ} (positive : 0 < capacity) :
    Tier.Sound capacity (createEmptyTier capacity) :=
  ⟨⟨positive,Nat.zero_le _,length_replicate⟩,nofun,fun _ => rfl⟩

theorem createEmptyHistory_kept (layout : Layout) : Kept layout (createEmptyHistory layout) := by
  refine ⟨rfl,rfl,rfl,?_⟩
  show Forall₂ Tier.Sound layout.capacities (layout.capacities.map createEmptyTier)
  rw [forall₂_map_right_iff,forall₂_same]
  intro capacity member
  exact createEmptyTier_sound (layout.capacity_pos capacity member)

theorem append_kept (kept : Kept layout history) (stamped : Stamped point.ts) : Kept layout (history.append point) ∧
    queues (history.append point) = push layout.tierRatio (average layout.tierRatio) (queues history) point := by
  have roomy := kept.roomy
  rw [queues_kept kept] at roomy ⊢
  obtain ⟨sound,pushed⟩ := append_push (cells_lawful layout.ratio_pos) kept.sound roomy point stamped
  have appended : (history.append point).tiers = appendToTier layout.tierRatio layout.capacities
      history.tiers point := by
    rw [History.append,kept.ratio,kept.capacities]
  rw [← appendToTier_eq] at sound pushed
  have still : Kept layout (history.append point) := ⟨kept.interval,kept.ratio,kept.capacities,appended ▸ sound⟩
  rw [queues_kept still,appended]
  exact ⟨still,pushed⟩

theorem normalizeBinaryTier_sound {capacity : ℕ} {tier : Tier} (sound : tier.Sound capacity) :
    normalizeBinaryTier capacity tier = some tier := by
  have size : min tier.size capacity = tier.size := Nat.min_eq_left sound.wellFormed.size_le
  have head : (if tier.size = 0 then 0 else tier.head % capacity) = tier.head := by
    split
    next none => exact (sound.empty none).symm
    · exact Nat.mod_eq_of_lt sound.wellFormed.head_lt
  simp only [normalizeBinaryTier,size,head,sound.wellFormed.slots,if_true]

theorem normalizeBinaryTiers_sound (sound : Forall₂ Tier.Sound capacities tiers) :
    (zipWith normalizeBinaryTier capacities tiers).mapM id = some tiers := by
  induction sound with
  | nil => rfl
  | cons own _ ih =>
    rw [zipWith_cons_cons,normalizeBinaryTier_sound own,mapM_cons,ih]
    rfl

theorem getWorkerHistoryState_kept (kept : Kept layout history) :
    getWorkerHistoryState (some history) layout = history := by
  have whole : history.capacities.filter (fun capacity => 0 < capacity) = history.capacities := by
    refine filter_eq_self.mpr fun capacity member => ?_
    exact decide_eq_true (layout.capacity_pos capacity (kept.capacities ▸ member))
  have some_tier : history.capacities ≠ [] := kept.capacities ▸ layout.some_tier
  have sound : Forall₂ Tier.Sound history.capacities history.tiers := kept.capacities.symm ▸ kept.sound
  have interval : history.baseIntervalSec ≠ 0 := kept.interval ▸ layout.interval_pos.ne'
  have ratio : history.tierRatio ≠ 0 := kept.ratio ▸ layout.ratio_pos.ne'
  have normalized : normalizeTieredHistoryPayload history = some history := by
    have valid : ¬ (history.capacities = [] ∨ history.capacities.length ≠ history.tiers.length) := by
      rintro (none | different)
      · exact some_tier none
      · exact different sound.length_eq
    simp only [normalizeTieredHistoryPayload,whole,if_neg valid,normalizeBinaryTiers_sound sound,Option.map_some,
      if_neg interval,if_neg ratio]
  have same : layoutsMatch history layout = true := by simp [layoutsMatch,kept.interval,kept.ratio,kept.capacities]
  simp only [getWorkerHistoryState,Option.bind_some,normalized,same,if_true]

/-- What a run of appends keeps: its history has the layout, and its points and those given up cover the stream. -/
structure Run.Covered (layout : Layout) (run : Run) (stream : List Point) : Prop where
  kept : Kept layout (run.history layout)
  covers : Covers Summarises layout.tierRatio 0 (queues (run.history layout)) run.evicted stream

theorem Run.Covered.append {run : Run} {stream : List Point} (covered : run.Covered layout stream) (sample : Sample) :
    (run.append layout sample).Covered layout (stream ++ (normalizePoint sample).toList) := by
  have kept := covered.kept
  cases valid : normalizePoint sample with
  | none =>
    have stored : (run.append layout sample).payload = some (run.history layout) := by
      rw [Run.append,appendHistorySample,valid]
      rfl
    have evicted : (run.append layout sample).evicted = run.evicted := by
      rw [Run.append,valid]
      exact append_nil _
    have same : (run.append layout sample).history layout = run.history layout := by
      rw [Run.history,stored,getWorkerHistoryState_kept kept]
    refine ⟨same.symm ▸ kept,?_⟩
    rw [same,evicted,Option.toList_none,append_nil]
    exact covered.covers
  | some point =>
    have stamped : Stamped point.ts := by
      obtain ⟨hs,_,rfl⟩ := Option.map_eq_some_iff.mp valid
      exact stamped_normalizeTimestampMs _
    obtain ⟨still,pushed⟩ := append_kept kept stamped
    have stored : (run.append layout sample).payload = some ((run.history layout).append point) := by
      rw [Run.append,appendHistorySample,valid]
      rfl
    have evicted : (run.append layout sample).evicted = run.evicted ++ gone (queues (run.history layout)) := by
      rw [Run.append,valid]
      rfl
    have next : (run.append layout sample).history layout = (run.history layout).append point := by
      rw [Run.history,stored,getWorkerHistoryState_kept still]
    refine ⟨next.symm ▸ still,?_⟩
    rw [next,evicted,pushed]
    exact covered.covers.push (average_combines layout.ratio_pos) kept.roomy (summarises_self point) (pow_zero _).symm

theorem appendSamples_covered (layout : Layout) (samples : List Sample) :
    (appendSamples layout samples).Covered layout (samples.filterMap normalizePoint) := by
  induction samples using reverseRecOn with
  | nil =>
    refine ⟨createEmptyHistory_kept layout,?_⟩
    show Covers _ _ _ (queues (createEmptyHistory layout)) _ _
    rw [queues_kept (createEmptyHistory_kept layout)]
    have empty : queuesOf cells layout.capacities (layout.capacities.map createEmptyTier) = empties layout.capacities :=
      zipWith_empties _ fun _ => rfl
    exact empty.symm ▸ covers_empties layout.some_tier
  | append_singleton samples sample ih =>
    have last : [sample].filterMap normalizePoint = (normalizePoint sample).toList := by
      cases valid : normalizePoint sample <;> simp [valid]
    rw [filterMap_append,last,appendSamples,foldl_append]
    exact ih.append sample

theorem historyPoints_oldestFirst (kept : Kept layout history) (maxPoints : Option ℕ) :
    (historyPoints history maxPoints).Sublist (oldestFirst (queues history)).reverse := by
  have whole : ∀ capacities tiers, (zipWith tierPoints capacities tiers).flatten =
      (oldestFirst (queuesOf cells capacities tiers)).reverse := by
    intro capacities
    induction capacities with
    | nil =>
      intro tiers
      rfl
    | cons capacity capacities ih =>
      intro tiers
      cases tiers with
      | nil => rfl
      | cons tier tiers =>
        have here : tierPoints capacity tier = (points cells capacity tier).reverse := by
          rw [tierPoints,points,Ring.contents,map_map]
          rfl
        rw [zipWith_cons_cons,flatten_cons,ih,here,queuesOf_cons,oldestFirst,reverse_append]
  have same := whole history.capacities history.tiers
  rw [kept.capacities] at same
  rw [queues_kept kept,← same,← kept.capacities]
  cases maxPoints with
  | none => exact Sublist.refl _
  | some maxPoints => exact take_sublist _ _

theorem Summarises.ts_mem {older : List Point} (summarises : Summarises point older) :
    ∃ sample ∈ older, sample.ts = point.ts := by
  obtain ⟨sample,last,same⟩ := Option.map_eq_some_iff.mp summarises.newest
  exact ⟨sample,mem_of_getLast? last,same⟩

/-- The rings stay within their capacities; the samples are those that the last tier has given up and then, from the
oldest tier on, those that the points stand for, `tierRatio ^ k` consecutive ones each in tier `k`. -/
theorem history_partitions (statsBufferLength statsBufferHours baseInterval ratio : Option ℚ) (samples : List Sample) :
    let layout := buildTierLayout statsBufferLength statsBufferHours baseInterval ratio
    let run := appendSamples layout samples
    let history := run.history layout
    List.Forall₂ (fun capacity tier => tier.size ≤ capacity ∧ tier.head < capacity) layout.capacities history.tiers ∧
    (∃ lost kept, samples.filterMap normalizePoint = lost ++ kept ∧
      Chunks Summarises (layout.tierRatio ^ (layout.capacities.length - 1)) run.evicted lost ∧
      Covers Summarises layout.tierRatio 0 (queues history) [] kept) ∧
    ((samples.Pairwise fun first second => first.ts.getD 0 ≤ second.ts.getD 0) → ∀ maxPoints,
      (historyPoints history maxPoints).Pairwise fun newer older => older.ts ≤ newer.ts) := by
  intro layout run history
  have covered := appendSamples_covered layout samples
  have kept := covered.kept
  refine ⟨kept.sound.imp fun _ _ sound => ⟨sound.wellFormed.size_le,sound.wellFormed.head_lt⟩,?_,?_⟩
  · obtain ⟨lost,rest,whole,evicted,covers⟩ := covered.covers.split
    have tiers : (queues history).length = layout.capacities.length := by
      rw [queues_kept kept,queuesOf,List.length_zipWith,← kept.sound.length_eq,Nat.min_self]
    rw [tiers,Nat.zero_add] at evicted
    exact ⟨lost,rest,whole,evicted,covers⟩
  · intro sorted maxPoints
    have stream : (samples.filterMap normalizePoint).Pairwise fun first second => first.ts ≤ second.ts := by
      refine List.pairwise_filterMap.mpr (sorted.imp ?_)
      intro first second le one found two beside
      obtain ⟨_,_,rfl⟩ := Option.map_eq_some_iff.mp found
      obtain ⟨_,_,rfl⟩ := Option.map_eq_some_iff.mp beside
      exact normalizeTimestampMs_mono le
    have ordered : (run.evicted ++ oldestFirst (queues history)).Pairwise fun first second => first.ts ≤ second.ts := by
      refine covered.covers.ordered stream ?_
      intro first second older newer stands beside apart
      obtain ⟨sample,member,same⟩ := stands.ts_mem
      obtain ⟨other,inside,same_other⟩ := beside.ts_mem
      exact same ▸ same_other ▸ apart sample member other inside
    have listed := (List.pairwise_append.mp ordered).2.1
    exact (List.pairwise_reverse.mpr listed).sublist (historyPoints_oldestFirst kept maxPoints)

/-- Two tiers of two points: the newest samples, then means of two. -/
example :
    let layout := buildTierLayout (some 4) (some 1) (some 600) (some 2)
    let samples : List Sample := (List.range 8).map fun second => ⟨some (1000 * second),some second,none⟩
    (historyPoints ((appendSamples layout samples).history layout) none).map (fun point => (point.ts,point.hs)) =
      [(7000,7),(6000,6),(5000,9 / 2),(3000,5 / 2)] := by
  decide +kernel

end Runs
end NodejsPool.WorkerHistory
