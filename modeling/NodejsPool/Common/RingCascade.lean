import NodejsPool.Common.Cascade
import NodejsPool.Common.Ring

/-! Tiers of ring buffers as the queues of a cascade: an append to the buffers is a push to the
queues of what they contain. -/
namespace NodejsPool.RingCascade
open Cascade List

variable {Slot Value : Type}

structure Cells (Slot Value : Type) where
  blank : Slot
  read : Slot → Value
  write : Value → Slot

def points (cells : Cells Slot Value) (capacity : ℕ) (ring : Ring Slot) : List Value :=
  (ring.contents capacity cells.blank).map cells.read

def queuesOf (cells : Cells Slot Value) (capacities : List ℕ) (rings : List (Ring Slot)) : List (ℕ × List Value) :=
  zipWith (fun capacity ring => (capacity,points cells capacity ring)) capacities rings

def oldest (cells : Cells Slot Value) (capacity ratio : ℕ) (ring : Ring Slot) : List Value :=
  (range ratio).map fun index => cells.read (ring.get capacity cells.blank index)

def append (cells : Cells Slot Value) (ratio : ℕ) (combine : List Value → Value) :
    List ℕ → List (Ring Slot) → Value → List (Ring Slot)
  | capacity::capacities,ring::rings,value =>
    if rings = [] then [(ring.spare capacity).push capacity (cells.write value)]
    else if ring.size = capacity then
      (ring.dropOldest capacity ratio).push capacity (cells.write value)::
        append cells ratio combine capacities rings (combine (oldest cells capacity ratio ring))
    else ring.push capacity (cells.write value)::rings
  | _,rings,_ => rings

section

variable {cells : Cells Slot Value} {capacity ratio : ℕ} {ring : Ring Slot} {value : Value}

@[simp] theorem length_points : (points cells capacity ring).length = ring.size := by simp [points]

theorem points_push (wellFormed : ring.WellFormed capacity) (room : ring.size < capacity) :
    points cells capacity (ring.push capacity (cells.write value)) =
      points cells capacity ring ++ [cells.read (cells.write value)] := by
  rw [points,Ring.contents_push wellFormed room,map_append,map_singleton]
  rfl

theorem points_dropOldest (count : ℕ) :
    points cells capacity (ring.dropOldest capacity count) = (points cells capacity ring).drop count := by
  rw [points,Ring.contents_dropOldest,map_drop]
  rfl

theorem points_spare : points cells capacity (ring.spare capacity) =
    if ring.size = capacity then (points cells capacity ring).drop 1 else points cells capacity ring := by
  rw [points,Ring.contents_spare,apply_ite (map cells.read),map_drop]
  rfl

theorem oldest_eq (within : ratio ≤ ring.size) :
    oldest cells capacity ratio ring = (points cells capacity ring).take ratio := by
  rw [points,← map_take,← Ring.map_get_range within,map_map]
  rfl

theorem queuesOf_cons (capacities : List ℕ) (rings : List (Ring Slot)) :
    queuesOf cells (capacity::capacities) (ring::rings) =
      (capacity,points cells capacity ring)::queuesOf cells capacities rings := rfl

end

/-- A value that `fits` is written and read back as `stored`, and so are those that a tier combines. -/
structure Lawful (cells : Cells Slot Value) (ratio : ℕ) (combine : List Value → Value) (Sound : ℕ → Ring Slot → Prop)
    (fits : Value → Prop) (stored : Value → Value) : Prop where
  positive : 0 < ratio
  wellFormed : ∀ {capacity : ℕ} {ring : Ring Slot}, Sound capacity ring → ring.WellFormed capacity
  pushed : ∀ {capacity : ℕ} {ring : Ring Slot} {value : Value} (count : ℕ), Sound capacity ring →
    (ring.dropOldest capacity count).size < capacity → fits value →
      Sound capacity ((ring.dropOldest capacity count).push capacity (cells.write value))
  back : ∀ {value : Value}, fits value → cells.read (cells.write value) = stored value
  combined : ∀ {capacity : ℕ} {ring : Ring Slot}, Sound capacity ring → ratio ≤ ring.size →
    fits (combine (oldest cells capacity ratio ring))

variable {cells : Cells Slot Value} {ratio : ℕ} {combine : List Value → Value} {Sound : ℕ → Ring Slot → Prop}
  {fits : Value → Prop} {stored : Value → Value}

theorem append_push (lawful : Lawful cells ratio combine Sound fits stored) {capacities : List ℕ}
    {rings : List (Ring Slot)}
    (sound : Forall₂ Sound capacities rings) (roomy : Roomy ratio (queuesOf cells capacities rings)) (value : Value)
    (fit : fits value) : Forall₂ Sound capacities (append cells ratio combine capacities rings value) ∧
      queuesOf cells capacities (append cells ratio combine capacities rings value) =
        push ratio (fun bucket => stored (combine bucket)) (queuesOf cells capacities rings) (stored value) := by
  induction sound generalizing value with
  | nil => exact ⟨.nil,rfl⟩
  | @cons capacity ring capacities rings own others ih =>
    have size : (points cells capacity ring).length = ring.size := length_points
    have wellFormed := lawful.wellFormed own
    cases others with
    | nil =>
      have free := Ring.size_spare wellFormed
      have kept : Sound capacity ((ring.spare capacity).push capacity (cells.write value)) := by
        unfold Ring.spare at free ⊢
        split at free
        next full => exact if_pos full ▸ lawful.pushed 1 own free fit
        next room => exact if_neg room ▸ lawful.pushed 0 own free fit
      rw [append,if_pos rfl]
      refine ⟨.cons kept .nil,?_⟩
      rw [queuesOf_cons,points_push (Ring.spare_wellFormed wellFormed) free,points_spare,lawful.back fit,← size]
      rfl
    | @cons next beside rest behind sound others =>
      obtain ⟨enough,within,roomy⟩ := roomy
      rw [size] at within
      rw [append,if_neg (cons_ne_nil _ _)]
      split
      next full =>
        have free : (ring.dropOldest capacity ratio).size < capacity := by
          have positive := lawful.positive
          rw [Ring.size_dropOldest]
          omega
        obtain ⟨deeper,pushed⟩ := ih roomy _ (lawful.combined own (full ▸ enough))
        refine ⟨.cons (lawful.pushed ratio own free fit) deeper,?_⟩
        rw [queuesOf_cons,points_push (Ring.dropOldest_wellFormed wellFormed ratio) free,points_dropOldest,pushed,
          oldest_eq (full ▸ enough),lawful.back fit]
        exact (if_pos (size.trans full)).symm
      next room =>
        have free : ring.size < capacity := by omega
        refine ⟨.cons (lawful.pushed 0 own free fit) (.cons sound others),?_⟩
        rw [queuesOf_cons,points_push wellFormed free,lawful.back fit]
        exact (if_neg fun full => room (size.symm.trans full)).symm

end NodejsPool.RingCascade
