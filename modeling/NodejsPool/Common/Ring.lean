import Mathlib.Data.List.GetD
import Mathlib.Data.Nat.ModEq

/-! Ring buffers: a head, a size and the slots of a fixed capacity, with what they contain from
oldest to newest. -/
namespace NodejsPool
open List

structure Ring (α : Type) where
  head : ℕ
  size : ℕ
  buffer : List α

namespace Ring

variable {α : Type} (ring : Ring α) (capacity : ℕ) (default : α)

def slot (index : ℕ) : ℕ := (ring.head + index) % capacity

def get (index : ℕ) : α := ring.buffer.getD (ring.slot capacity index) default

def set (index : ℕ) (value : α) : Ring α := { ring with buffer := ring.buffer.set (ring.slot capacity index) value }

def push (value : α) : Ring α := { ring.set capacity ring.size value with size := ring.size + 1 }

def dropOldest (count : ℕ) : Ring α :=
  if count ≤ 0 ∨ ring.size = 0 then ring
  else { ring with head := (ring.head + min count ring.size) % capacity, size := ring.size - min count ring.size }

def spare : Ring α := if ring.size = capacity then ring.dropOldest capacity 1 else ring

def enq (value : α) : Ring α :=
  if ring.size < capacity then ring.push capacity value
  else { ring.set capacity ring.size value with head := (ring.head + 1) % capacity }

def contents : List α := (List.range ring.size).map (ring.get capacity default)

structure WellFormed : Prop where
  head_lt : ring.head < capacity
  size_le : ring.size ≤ capacity
  slots : ring.buffer.length = capacity

variable {ring capacity default}

@[simp] theorem length_contents : (ring.contents capacity default).length = ring.size := by simp [contents]

theorem slot_lt (wellFormed : ring.WellFormed capacity) (index : ℕ) : ring.slot capacity index < capacity :=
  Nat.mod_lt _ (Nat.zero_lt_of_lt wellFormed.head_lt)

theorem slot_ne {first second : ℕ} (less : first < second) (within : second < capacity) :
    ring.slot capacity first ≠ ring.slot capacity second := by
  intro same
  have close : first ≡ second [MOD capacity] := Nat.ModEq.add_left_cancel' ring.head same
  exact less.ne (Nat.ModEq.eq_of_lt_of_lt close (less.trans within) within)

theorem get_set_self (wellFormed : ring.WellFormed capacity) {index : ℕ} {value : α} :
    (ring.set capacity index value).get capacity default index = value := by
  have inside : ring.slot capacity index < ring.buffer.length := wellFormed.slots ▸ slot_lt wellFormed index
  show (ring.buffer.set (ring.slot capacity index) value).getD (ring.slot capacity index) default = value
  simp [getD_eq_getElem?_getD,inside]

theorem get_set_apart {index other : ℕ} {value : α} (apart : ring.slot capacity index ≠ ring.slot capacity other) :
    (ring.set capacity index value).get capacity default other = ring.get capacity default other := by
  show (ring.buffer.set (ring.slot capacity index) value).getD (ring.slot capacity other) default = _
  rw [getD_eq_getElem?_getD,getElem?_set_ne apart,← getD_eq_getElem?_getD]
  rfl

theorem get_set_before {index other : ℕ} {value : α} (less : other < index) (within : index < capacity) :
    (ring.set capacity index value).get capacity default other = ring.get capacity default other :=
  get_set_apart (slot_ne less within).symm

theorem get_set_after {index other : ℕ} {value : α} (less : index < other) (within : other < capacity) :
    (ring.set capacity index value).get capacity default other = ring.get capacity default other :=
  get_set_apart (slot_ne less within)

section

variable (wellFormed : ring.WellFormed capacity)
include wellFormed

theorem set_wellFormed (index : ℕ) (value : α) : (ring.set capacity index value).WellFormed capacity :=
  ⟨wellFormed.head_lt,wellFormed.size_le,(length_set ..).trans wellFormed.slots⟩

theorem push_wellFormed (room : ring.size < capacity) (value : α) : (ring.push capacity value).WellFormed capacity :=
  ⟨wellFormed.head_lt,room,(length_set ..).trans wellFormed.slots⟩

theorem contents_push (room : ring.size < capacity) (value : α) :
    (ring.push capacity value).contents capacity default = ring.contents capacity default ++ [value] := by
  have before : ∀ index ∈ range ring.size,
      (ring.push capacity value).get capacity default index = ring.get capacity default index := fun index inside =>
    get_set_before (mem_range.mp inside) room
  have last : (ring.push capacity value).get capacity default ring.size = value := get_set_self wellFormed
  unfold contents
  rw [show (ring.push capacity value).size = ring.size + 1 from rfl,range_succ,map_append,map_singleton,last,
    map_congr_left before]

theorem dropOldest_wellFormed (count : ℕ) : (ring.dropOldest capacity count).WellFormed capacity := by
  unfold dropOldest
  split
  · exact wellFormed
  · refine ⟨Nat.mod_lt _ (Nat.zero_lt_of_lt wellFormed.head_lt),?_,wellFormed.slots⟩
    exact (Nat.sub_le _ _).trans wellFormed.size_le

end

theorem size_dropOldest (count : ℕ) : (ring.dropOldest capacity count).size = ring.size - count := by
  unfold dropOldest
  split
  next none => rcases none with none | none <;> omega
  · show ring.size - min count ring.size = ring.size - count
    omega

theorem contents_dropOldest (count : ℕ) :
    (ring.dropOldest capacity count).contents capacity default = (ring.contents capacity default).drop count := by
  by_cases none : count ≤ 0 ∨ ring.size = 0
  · have kept : ring.dropOldest capacity count = ring := if_pos none
    rw [kept]
    rcases none with none | none
    · rw [Nat.le_zero.mp none,drop_zero]
    · have empty : ring.contents capacity default = [] := length_eq_zero_iff.mp (length_contents.trans none)
      rw [empty,drop_nil]
  · have dropped : ring.dropOldest capacity count =
        { ring with head := (ring.head + min count ring.size) % capacity, size := ring.size - min count ring.size } :=
        if_neg none
    have shifted : ∀ index, (ring.dropOldest capacity count).get capacity default index =
        ring.get capacity default (min count ring.size + index) := by
      intro index
      rw [dropped]
      unfold get slot
      rw [Nat.mod_add_mod,Nat.add_assoc]
    apply ext_getElem
    · rw [length_contents,length_drop,length_contents,size_dropOldest]
    · intro index inside _
      rw [length_contents,size_dropOldest] at inside
      have least : min count ring.size = count := by omega
      simp only [contents,getElem_map,getElem_range,getElem_drop,shifted,least]

theorem contents_spare : (ring.spare capacity).contents capacity default =
    if ring.size = capacity then (ring.contents capacity default).drop 1 else ring.contents capacity default := by
  unfold spare
  split
  · exact contents_dropOldest 1
  · rfl

theorem spare_wellFormed (wellFormed : ring.WellFormed capacity) : (ring.spare capacity).WellFormed capacity := by
  unfold spare
  split
  · exact dropOldest_wellFormed wellFormed 1
  · exact wellFormed

theorem size_spare (wellFormed : ring.WellFormed capacity) : (ring.spare capacity).size < capacity := by
  have within := wellFormed.size_le
  have positive := Nat.zero_lt_of_lt wellFormed.head_lt
  unfold spare
  split
  · rw [size_dropOldest]
    omega
  · omega

section

variable (wellFormed : ring.WellFormed capacity)
include wellFormed

theorem enq_full (full : ¬ ring.size < capacity) (value : α) :
    ring.enq capacity value = (ring.dropOldest capacity 1).push capacity value := by
  have positive : 0 < capacity := Nat.zero_lt_of_lt wellFormed.head_lt
  have size : ring.size = capacity := le_antisymm wellFormed.size_le (not_lt.mp full)
  have least : min 1 ring.size = 1 := by omega
  have dropped : ring.dropOldest capacity 1 =
      { ring with head := (ring.head + 1) % capacity, size := ring.size - 1 } := by
    rw [dropOldest,if_neg (by omega),least]
  have restored : ring.size - 1 + 1 = ring.size := by omega
  have places : (ring.head + 1) % capacity + (ring.size - 1) ≡ ring.head + ring.size [MOD capacity] := by
    rw [Nat.ModEq,Nat.mod_add_mod,Nat.add_assoc,Nat.add_comm 1,restored]
  rw [enq,if_neg full,dropped]
  unfold push set slot
  dsimp only
  rw [places,restored]

theorem enq_wellFormed (value : α) : (ring.enq capacity value).WellFormed capacity := by
  by_cases room : ring.size < capacity
  · rw [enq,if_pos room]
    exact push_wellFormed wellFormed room value
  · have positive : 0 < capacity := Nat.zero_lt_of_lt wellFormed.head_lt
    rw [enq_full wellFormed room]
    refine push_wellFormed (dropOldest_wellFormed wellFormed 1) ?_ value
    rw [size_dropOldest]
    have within := wellFormed.size_le
    omega

theorem contents_enq (value : α) : (ring.enq capacity value).contents capacity default =
      (ring.contents capacity default ++ [value]).drop (ring.size + 1 - capacity) := by
  have within := wellFormed.size_le
  by_cases room : ring.size < capacity
  · rw [enq,if_pos room,contents_push wellFormed room,show ring.size + 1 - capacity = 0 by omega,drop_zero]
  · have positive : 0 < capacity := Nat.zero_lt_of_lt wellFormed.head_lt
    have fewer : (ring.dropOldest capacity 1).size < capacity := by
      rw [size_dropOldest]
      omega
    have first : 1 ≤ (ring.contents capacity default).length := by
      rw [length_contents]
      omega
    rw [enq_full wellFormed room,contents_push (dropOldest_wellFormed wellFormed 1) fewer,contents_dropOldest,
      show ring.size + 1 - capacity = 1 by omega,drop_append_of_le_length first]

theorem contents_set_tail (value : α) :
    ((ring.set capacity 0 value).contents capacity default).tail = (ring.contents capacity default).tail := by
  unfold contents
  rw [show (ring.set capacity 0 value).size = ring.size from rfl]
  cases size : ring.size with
  | zero => rfl
  | succ rest =>
    have within := wellFormed.size_le
    rw [range_succ_eq_map,map_cons,map_cons,tail_cons,tail_cons]
    refine map_congr_left fun index inside => ?_
    obtain ⟨before,listed,rfl⟩ := mem_map.mp inside
    have less := mem_range.mp listed
    exact get_set_after (Nat.succ_pos before) (by omega)

end

theorem map_get_range {count : ℕ} (within : count ≤ ring.size) :
    (range count).map (ring.get capacity default) = (ring.contents capacity default).take count := by
  rw [contents,← map_take,take_range,min_eq_left within]

end Ring
end NodejsPool
