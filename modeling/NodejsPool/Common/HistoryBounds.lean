import NodejsPool.Common.HistoryPartition
import NodejsPool.Common.HistoryPayload

/-! Appends to a stored history and reads of it: within the buffers, and as a cascade of points. -/
namespace NodejsPool.HistoryPayload
open Cascade RingCascade Wire List
open WorkerHistory (Layout Stamped normalizeTimestampMs uint32Max)

section Words

theorem ofNat_wordBytes (word : UInt32) : UInt32.ofNat ((UInt8.ofNat word.toNat).toNat +
      2^8 * (UInt8.ofNat (word.toNat / 2^8)).toNat +
    2^16 * (UInt8.ofNat (word.toNat / 2^16)).toNat + 2^24 * (UInt8.ofNat (word.toNat / 2^24)).toNat) = word := by
  have bound := word.toNat_lt
  have whole : (UInt8.ofNat word.toNat).toNat + 2^8 * (UInt8.ofNat (word.toNat / 2^8)).toNat +
      2^16 * (UInt8.ofNat (word.toNat / 2^16)).toNat + 2^24 * (UInt8.ofNat (word.toNat / 2^24)).toNat = word.toNat := by
    simp only [UInt8.toNat_ofNat']
    omega
  rw [whole,UInt32.ofNat_toNat]

theorem slotAt_bytes (slot : Slot) (rest : List UInt8) : slotAt (slot.bytes ++ rest) = slot := by
  obtain ⟨seconds,hs,hs2⟩ := slot
  rw [slotAt,Slot.mk.injEq]
  exact ⟨ofNat_wordBytes seconds,ofNat_wordBytes hs,ofNat_wordBytes hs2⟩

@[simp] theorem length_bytes (slot : Slot) : slot.bytes.length = pointBytes := rfl

theorem slotsOf_bytes (slots : List Slot) : slotsOf slots.length (slots.flatMap Slot.bytes) = slots := by
  induction slots with
  | nil => rfl
  | cons slot slots ih =>
    rw [length_cons,flatMap_cons,slotsOf,slotAt_bytes,drop_left' (length_bytes slot),ih]

theorem length_slotBytes (slots : List Slot) : (slots.flatMap Slot.bytes).length = slots.length * pointBytes := by
  induction slots with
  | nil => rfl
  | cons slot slots ih => rw [flatMap_cons,length_append,ih,length_bytes,length_cons,Nat.succ_mul,Nat.add_comm]

@[simp] theorem length_slotsOf (capacity : ℕ) (buffer : List UInt8) : (slotsOf capacity buffer).length = capacity := by
  induction capacity generalizing buffer with
  | zero => rfl
  | succ capacity ih => rw [slotsOf,length_cons,ih]

end Words

section Hashrates

theorem holds_single_zero : Format.single.Holds 0 := Format.holds_zero (by decide)

theorem normalizeHashrate_none : normalizeHashrate none = some 0 := Format.round_of_holds holds_single_zero

theorem normalizeHashrate_again (value : Option ℚ) :
    normalizeHashrate (normalizeHashrate value) = some ((normalizeHashrate value).getD 0) := by
  cases rounded : normalizeHashrate value with
  | none => exact normalizeHashrate_none
  | some hashrate => exact Format.round_of_holds (Format.holds_round (by decide) rounded)

theorem readFloat_floatWord {value : ℚ} (holds : Format.single.Holds value) :
    readFloat (floatWord (some value)) = some value := by
  have wide : 2 ≤ Format.single.exponent := by decide
  have bound : Format.single.word value < 2^32 := (Format.readWord_word wide holds).1
  rw [readFloat,floatWord,Option.elim_some,UInt32.toNat_ofNat_of_lt' bound,Format.readFinite_word wide holds]

theorem readFloat_normalized (value : Option ℚ) :
    readFloat (floatWord (normalizeHashrate (normalizeHashrate value))) = some ((normalizeHashrate value).getD 0) := by
  have again := normalizeHashrate_again value
  rw [again]
  exact readFloat_floatWord (Format.holds_round (by decide) again)

end Hashrates

section Points

def stored (point : Point) : Point := readSlot (writeSlot point)

theorem stored_ts {point : Point} (stamped : Stamped point.ts) : (stored point).ts = point.ts := by
  have written := WorkerHistory.stamped_write ⟨point.ts,0,0⟩
  have back := congrArg WorkerHistory.Point.ts (@WorkerHistory.readPoint_writePoint ⟨point.ts,0,0⟩ stamped)
  have small : (WorkerHistory.writePoint ⟨point.ts,0,0⟩).seconds < 2^32 := Nat.lt_succ_of_le written
  have seconds : (writeSlot point).seconds.toNat = (WorkerHistory.writePoint ⟨point.ts,0,0⟩).seconds :=
    UInt32.toNat_ofNat_of_lt' small
  show (writeSlot point).seconds.toNat * 1000 = point.ts
  rw [seconds]
  exact back

structure Normal (point : Point) : Prop where
  stamped : Stamped point.ts
  hs : ∃ value, point.hs = normalizeHashrate value
  hs2 : ∃ value, point.hs2 = normalizeHashrate value

theorem stored_normal {point : Point} (normal : Normal point) :
    stored point = ⟨point.ts,some (point.hs.getD 0),some (point.hs2.getD 0)⟩ := by
  have ts := stored_ts normal.stamped
  obtain ⟨first,hs⟩ := normal.hs
  obtain ⟨second,hs2⟩ := normal.hs2
  have rate : (stored point).hs = some (point.hs.getD 0) := by
    rw [hs,← readFloat_normalized,← hs]
    rfl
  have rate2 : (stored point).hs2 = some (point.hs2.getD 0) := by
    rw [hs2,← readFloat_normalized,← hs2]
    rfl
  rw [← ts,← rate,← rate2]

theorem average_ts (bucketSize : ℕ) (points : List Point) :
    (average bucketSize points).ts = (points.getLast?.map Point.ts).getD 0 := by
  have newest (points : List Point) (ts : ℕ) (hs hs2 : Option ℚ) :
      (points.foldl (fun totals point => (point.ts,plus totals.2.1 point.hs,plus totals.2.2 point.hs2)) (ts,hs,hs2)).1 =
        (points.getLast?.map Point.ts).getD ts := by
    induction points generalizing ts hs hs2 with
    | nil => rfl
    | cons point points ih =>
      rw [foldl_cons,ih,getLast?_cons]
      cases points.getLast? <;> rfl
  exact newest points 0 (some 0) (some 0)

end Points

section Tiers

structure Tier.Valid (capacity : ℕ) (tier : Tier) : Prop where
  wellFormed : tier.WellFormed capacity
  empty : tier.size = 0 → tier.head = 0

def cells : Cells Slot Point := ⟨blank,readSlot,writeSlot⟩

variable {capacity ratio : ℕ} {capacities : List ℕ} {tier : Tier} {tiers : List Tier} {point : Point}

theorem getPoint_eq (wellFormed : tier.WellFormed capacity) (index : ℕ) :
    getPoint tier capacity index = .ok (readSlot (tier.get capacity blank index)) := by
  have inside : tier.slot capacity index < tier.buffer.length := wellFormed.slots ▸ Ring.slot_lt wellFormed index
  have read : tier.get capacity blank index = tier.buffer[tier.slot capacity index] := getD_eq_getElem _ _ inside
  rw [getPoint,getElem?_eq_getElem inside,read]

theorem addPoint_eq (wellFormed : tier.WellFormed capacity) (point : Point) :
    addPoint tier capacity point = .ok (tier.push capacity (writeSlot point)) := by
  have inside : tier.slot capacity tier.size < tier.buffer.length :=
    wellFormed.slots ▸ Ring.slot_lt wellFormed tier.size
  rw [addPoint,setPoint,if_pos inside]
  rfl

theorem mapM_ok {A B : Type} {read : A → Except Failure B} {value : A → B} {items : List A}
    (reads : ∀ item ∈ items, read item = .ok (value item)) : items.mapM read = .ok (items.map value) := by
  induction items with
  | nil => rfl
  | cons item items ih =>
    obtain ⟨here,reads⟩ := forall_mem_cons.mp reads
    rw [mapM_cons,here,ih reads]
    rfl

theorem compactOldestBucket_eq (wellFormed : tier.WellFormed capacity) : compactOldestBucket tier capacity ratio =
      .ok (average ratio (oldest cells capacity ratio tier),tier.dropOldest capacity ratio) := by
  rw [compactOldestBucket,mapM_ok fun index _ => getPoint_eq wellFormed index]
  rfl

theorem cells_lawful (positive : 0 < ratio) : Lawful cells ratio (average ratio) Tier.Valid (fun _ => True) stored where
  positive := positive
  wellFormed valid := valid.wellFormed
  pushed count valid room _ := ⟨Ring.push_wellFormed (Ring.dropOldest_wellFormed valid.wellFormed count) room _,
    fun none => absurd none (Nat.succ_ne_zero _)⟩
  back _ := rfl
  combined _ _ := trivial

def combine (ratio : ℕ) (bucket : List Point) : Point := stored (average ratio bucket)

theorem appendToTier_eq (ratio : ℕ) (valid : Forall₂ Tier.Valid capacities tiers) (point : Point) :
    appendToTier ratio capacities tiers point = .ok (append cells ratio (average ratio) capacities tiers point) := by
  induction valid generalizing point with
  | nil => rfl
  | cons own others ih =>
    rw [appendToTier,append]
    split
    · rw [← Ring.spare,addPoint_eq (Ring.spare_wellFormed own.wellFormed)]
      rfl
    · split
      · rw [compactOldestBucket_eq own.wellFormed]
        show (appendToTier ratio _ _ _ >>= fun coarser => addPoint _ _ _ >>= fun appended => _) = _
        rw [ih,addPoint_eq (Ring.dropOldest_wellFormed own.wellFormed ratio)]
        rfl
      · rw [addPoint_eq own.wellFormed]
        rfl

theorem appendToTier_push (valid : Forall₂ Tier.Valid capacities tiers) (positive : 0 < ratio)
    (roomy : Roomy ratio (queuesOf cells capacities tiers)) :
    ∃ next, appendToTier ratio capacities tiers point = .ok next ∧ Forall₂ Tier.Valid capacities next ∧
      queuesOf cells capacities next = push ratio (combine ratio) (queuesOf cells capacities tiers) (stored point) := by
  obtain ⟨still,pushed⟩ := append_push (cells_lawful positive) valid roomy point trivial
  exact ⟨_,appendToTier_eq ratio valid point,still,pushed⟩

end Tiers

section Histories

variable {layout : Layout} {history : History} {point : Point} {capacities : List ℕ} {tiers : List Tier}

structure Valid (layout : Layout) (history : History) : Prop where
  interval : history.baseIntervalSec = layout.baseIntervalSec
  ratio : history.tierRatio = layout.tierRatio
  capacities : history.capacities = layout.capacities
  tiers : List.Forall₂ Tier.Valid layout.capacities history.tiers

def queues (history : History) : List (ℕ × List Point) := queuesOf cells history.capacities history.tiers

theorem queues_valid (valid : Valid layout history) :
    queues history = queuesOf cells layout.capacities history.tiers := by
  rw [queues,valid.capacities]

theorem Valid.roomy (valid : Valid layout history) : Roomy layout.tierRatio (queues history) := by
  rw [queues_valid valid]
  refine roomy_zipWith (valid.tiers.imp fun _ _ own => ?_) layout.capacity_pos layout.fits_dropLast
  exact length_points.le.trans own.wellFormed.size_le

theorem append_valid (valid : Valid layout history) (point : Point) :
    ∃ next, history.append point = .ok next ∧ Valid layout next ∧
      queues next = push layout.tierRatio (combine layout.tierRatio) (queues history) (stored point) := by
  have roomy := valid.roomy
  rw [queues_valid valid] at roomy ⊢
  obtain ⟨tiers,appended,sound,pushed⟩ := appendToTier_push valid.tiers layout.ratio_pos roomy
  refine ⟨{ history with tiers },?_,⟨valid.interval,valid.ratio,valid.capacities,sound⟩,?_⟩
  · rw [History.append,valid.ratio,valid.capacities,appended]
    rfl
  · rw [← pushed,queues]
    show queuesOf cells history.capacities tiers = _
    rw [valid.capacities]

theorem createEmptyTier_valid {capacity : ℕ} (positive : 0 < capacity) :
    Tier.Valid capacity (createEmptyTier capacity) :=
  ⟨⟨positive,Nat.zero_le _,length_replicate⟩,fun _ => rfl⟩

theorem createEmptyHistory_valid (layout : Layout) : Valid layout (createEmptyHistory layout) := by
  refine ⟨rfl,rfl,rfl,?_⟩
  show Forall₂ Tier.Valid layout.capacities (layout.capacities.map createEmptyTier)
  rw [forall₂_map_right_iff,forall₂_same]
  intro capacity member
  exact createEmptyTier_valid (layout.capacity_pos capacity member)

theorem queues_empty (layout : Layout) : queues (createEmptyHistory layout) = empties layout.capacities :=
  zipWith_empties _ fun _ => rfl

theorem mapM_reads {reads : List (Except Failure Point)} (succeed : ∀ read ∈ reads, ∃ point, read = .ok point) :
    ∃ points, reads.mapM id = .ok points := by
  induction reads with
  | nil => exact ⟨[],rfl⟩
  | cons read reads ih =>
    obtain ⟨⟨point,rfl⟩,others⟩ := forall_mem_cons.mp succeed
    obtain ⟨points,rest⟩ := ih others
    rw [mapM_cons,rest]
    exact ⟨_,rfl⟩

theorem tierPoints_ok (valid : Forall₂ Tier.Valid capacities tiers) :
    ∀ read ∈ (zipWith tierPoints capacities tiers).flatten, ∃ point, read = .ok point := by
  induction valid with
  | nil => nofun
  | cons own _ ih =>
    rw [zipWith_cons_cons,flatten_cons]
    intro read member
    rcases mem_append.mp member with here | later
    · obtain ⟨index,_,rfl⟩ := mem_map.mp (mem_reverse.mp here)
      exact ⟨_,getPoint_eq own.wellFormed index⟩
    · exact ih read later

theorem historyPoints_ok (valid : Forall₂ Tier.Valid history.capacities history.tiers) (maxPoints : Option ℕ) :
    ∃ points, historyPoints history maxPoints = .ok points := by
  have succeed := tierPoints_ok valid
  unfold historyPoints
  cases maxPoints with
  | none => exact mapM_reads succeed
  | some maxPoints => exact mapM_reads fun read member => succeed read (mem_of_mem_take member)

theorem Valid.own (valid : Valid layout history) : Forall₂ Tier.Valid history.capacities history.tiers := by
  rw [valid.capacities]
  exact valid.tiers

theorem appends_valid (valid : Valid layout history) (points : List Point) :
    ∃ last, points.foldlM History.append history = .ok last ∧ Valid layout last := by
  induction points generalizing history with
  | nil => exact ⟨history,rfl,valid⟩
  | cons point points ih =>
    obtain ⟨next,appended,still,_⟩ := append_valid valid point
    obtain ⟨last,rest,kept⟩ := ih still
    rw [foldlM_cons,appended]
    exact ⟨last,rest,kept⟩

end Histories
end NodejsPool.HistoryPayload
