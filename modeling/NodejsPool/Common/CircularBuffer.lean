import NodejsPool.Common.Ring

/-! The circular buffer and the list that it stands for. -/
namespace NodejsPool.CircularBuffer

variable {α : Type}

def circularBuffer (size : ℕ) : Ring (Option α) := ⟨0,0,List.replicate size none⟩

def deq (size : ℕ) (buffer : Ring (Option α)) : Option α × Ring (Option α) :=
  if buffer.size = 0 then (none,buffer)
  else
    (buffer.buffer.getD buffer.head none,
      { head := (buffer.head + 1) % size, size := buffer.size - 1, buffer := buffer.buffer.set buffer.head none })

def toarray (size : ℕ) (buffer : Ring (Option α)) : List α :=
  (List.range buffer.size).filterMap fun i => buffer.get size none i

def get (size : ℕ) (buffer : Ring (Option α)) (index : ℤ) : Option α :=
  if index < 0 ∨ index ≥ buffer.size then none else buffer.get size none index.toNat

inductive Call (α : Type) where
  | enq (value : α)
  | deq

def Call.run (size : ℕ) (buffer : Ring (Option α)) : Call α → Option α × Ring (Option α)
  | .enq value => (none,buffer.enq size (some value))
  | .deq => CircularBuffer.deq size buffer

/-- The list that appends at its end, drops its first value when it is too long and gives its first
value away. -/
def Call.list (size : ℕ) (values : List α) : Call α → Option α × List α
  | .enq value => (none,if size < (values ++ [value]).length then (values ++ [value]).tail else values ++ [value])
  | .deq => (values.head?,values.tail)

def runs {State : Type} (run : State → Call α → Option α × State) : State → List (Call α) → List (Option α) × State
  | state,[] => ([],state)
  | state,call::calls =>
    let (returned,next) := run state call
    let (others,last) := runs run next calls
    (returned::others,last)

structure Holds (size : ℕ) (buffer : Ring (Option α)) (values : List α) : Prop where
  wellFormed : buffer.WellFormed size
  contents : buffer.contents size none = values.map some

variable {size : ℕ} {buffer : Ring (Option α)} {values : List α}

theorem circularBuffer_holds (positive : 1 ≤ size) : Holds size (circularBuffer size) ([] : List α) :=
  ⟨⟨positive,Nat.zero_le size,List.length_replicate⟩,rfl⟩

theorem Holds.length (holds : Holds size buffer values) : buffer.size = values.length := by
  have length : (buffer.contents size none).length = buffer.size := Ring.length_contents
  rw [← length,holds.contents,List.length_map]

theorem Holds.slot (holds : Holds size buffer values) {index : ℕ} (inside : index < buffer.size) :
    buffer.get size none index = values[index]? := by
  have read : (buffer.contents size none)[index]? = some (buffer.get size none index) := by
    simp [Ring.contents,inside]
  have short : index < values.length := holds.length ▸ inside
  rw [holds.contents,List.getElem?_map,List.getElem?_eq_getElem short] at read
  rw [List.getElem?_eq_getElem short]
  exact (Option.some.inj read).symm

theorem Holds.enq (holds : Holds size buffer values) (value : α) :
    Holds size (buffer.enq size (some value)) (Call.list size values (.enq value)).2 := by
  refine ⟨Ring.enq_wellFormed holds.wellFormed _,?_⟩
  have within := holds.wellFormed.size_le
  rw [Ring.contents_enq holds.wellFormed,holds.contents,holds.length]
  rw [holds.length] at within
  simp only [Call.list,List.length_append,List.length_singleton]
  split
  next full =>
    rw [show values.length + 1 - size = 1 by omega,List.drop_one,List.map_tail,List.map_append,List.map_singleton]
  next room =>
    rw [show values.length + 1 - size = 0 by omega,List.drop_zero,List.map_append,List.map_singleton]

theorem deq_dropOldest (wellFormed : buffer.WellFormed size) (filled : buffer.size ≠ 0) :
    deq size buffer = (buffer.get size none 0,(buffer.set size 0 none).dropOldest size 1) := by
  have first : buffer.slot size 0 = buffer.head := Nat.mod_eq_of_lt wellFormed.head_lt
  have least : min 1 buffer.size = 1 := by omega
  have set : buffer.set size 0 none = { buffer with buffer := buffer.buffer.set buffer.head none } := by
    rw [Ring.set,first]
  rw [deq,if_neg filled,Ring.get,first,set,Ring.dropOldest,if_neg (not_or_intro (by decide) filled)]
  simp only [least]

theorem Holds.deq (holds : Holds size buffer values) :
    (CircularBuffer.deq size buffer).1 = values.head? ∧ Holds size (CircularBuffer.deq size buffer).2 values.tail := by
  by_cases empty : buffer.size = 0
  · have none : values = [] := List.length_eq_zero_iff.mp (holds.length ▸ empty)
    subst none
    rw [CircularBuffer.deq,if_pos empty]
    exact ⟨rfl,holds⟩
  · have cleared := Ring.set_wellFormed holds.wellFormed 0 none
    rw [deq_dropOldest holds.wellFormed empty]
    refine ⟨?_,Ring.dropOldest_wellFormed cleared 1,?_⟩
    · rw [holds.slot (Nat.pos_of_ne_zero empty),List.head?_eq_getElem?]
    · rw [Ring.contents_dropOldest,List.drop_one,Ring.contents_set_tail holds.wellFormed,holds.contents,List.map_tail]

theorem Holds.run (holds : Holds size buffer values) (call : Call α) :
    (call.run size buffer).1 = (call.list size values).1 ∧
      Holds size (call.run size buffer).2 (call.list size values).2 := by
  cases call with
  | enq value => exact ⟨rfl,holds.enq value⟩
  | deq => exact holds.deq

theorem Holds.runs (holds : Holds size buffer values) (calls : List (Call α)) :
    (CircularBuffer.runs (Call.run size) buffer calls).1 = (CircularBuffer.runs (Call.list size) values calls).1 ∧
      Holds size (CircularBuffer.runs (Call.run size) buffer calls).2
      (CircularBuffer.runs (Call.list size) values calls).2 := by
  induction calls generalizing buffer values with
  | nil => exact ⟨rfl,holds⟩
  | cons call calls ih =>
    obtain ⟨returned,next⟩ := holds.run call
    obtain ⟨others,last⟩ := ih next
    exact ⟨congrArg₂ List.cons returned others,last⟩

theorem toarray_contents : toarray size buffer = (buffer.contents size none).filterMap id := by
  rw [Ring.contents,List.filterMap_map]
  rfl

theorem Holds.toarray (holds : Holds size buffer values) : toarray size buffer = values := by
  rw [toarray_contents,holds.contents,List.filterMap_map]
  exact List.filterMap_some

theorem Holds.get (holds : Holds size buffer values) (index : ℤ) :
    get size buffer index = if 0 ≤ index then values[index.toNat]? else none := by
  unfold CircularBuffer.get
  by_cases outside : index < 0 ∨ index ≥ buffer.size
  · rw [if_pos outside]
    split
    next positive =>
      have length := holds.length
      exact (List.getElem?_eq_none (by omega)).symm
    next => rfl
  · rw [if_neg outside,if_pos (by omega),holds.slot (by omega)]

/-- What the buffer returns, its size, its places and its array are those of the list. -/
theorem circularBuffer_list (size : ℕ) (positive : 1 ≤ size) (calls : List (Call α)) :
    let buffer := runs (Call.run size) (circularBuffer size) calls
    let list := runs (Call.list size) [] calls
    buffer.1 = list.1 ∧ buffer.2.size = list.2.length ∧ toarray size buffer.2 = list.2 ∧
      ∀ index : ℤ, get size buffer.2 index = if 0 ≤ index then list.2[index.toNat]? else none := by
  obtain ⟨returned,last⟩ := (circularBuffer_holds positive).runs calls
  exact ⟨returned,last.length,last.toarray,last.get⟩

theorem circularBuffer_list_wrapped : let calls : List (Call ℕ) := [.enq 1,.enq 2,.enq 3,.deq,.enq 4,.enq 5]
    let buffer := runs (Call.run 2) (circularBuffer 2) calls
    1 ≤ 2 ∧ toarray 2 buffer.2 = [4,5] ∧ buffer.1 = [none,none,none,some 2,none,none] ∧
      ∀ index : ℤ, get 2 buffer.2 index = if 0 ≤ index then [4,5][index.toNat]? else none := by
  obtain ⟨returned,size,array,places⟩ := circularBuffer_list 2 (by decide)
    ([.enq 1,.enq 2,.enq 3,.deq,.enq 4,.enq 5] : List (Call ℕ))
  exact ⟨by decide,array,returned,places⟩

end NodejsPool.CircularBuffer
