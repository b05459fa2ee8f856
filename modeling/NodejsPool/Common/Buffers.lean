import Mathlib.Data.List.Basic

/-! Buffers of a fixed length: what a copy at an offset changes, and the agreement of two
buffers away from some positions. -/
namespace NodejsPool.Buffers

variable {Byte : Type*} {changed : ℕ → Prop} {left right : List Byte}

/-- `source.copy(buffer, offset)`: what does not fit is not copied. -/
def overlay (buffer : List Byte) (offset : ℕ) (source : List Byte) : List Byte :=
  buffer.mapIdx fun i byte => if offset ≤ i then (source[i - offset]?).getD byte else byte

def Within (offset size i : ℕ) : Prop := offset ≤ i ∧ i < offset + size

structure AgreeOff (changed : ℕ → Prop) (left right : List Byte) : Prop where
  length : left.length = right.length
  same : ∀ i, ¬changed i → left[i]? = right[i]?

@[simp] theorem length_overlay (buffer : List Byte) (offset : ℕ) (source : List Byte) :
    (overlay buffer offset source).length = buffer.length := by
  simp [overlay]

theorem getElem?_overlay (buffer : List Byte) (offset : ℕ) (source : List Byte) (i : ℕ) :
    (overlay buffer offset source)[i]? =
      buffer[i]?.map fun byte => if offset ≤ i then (source[i - offset]?).getD byte else byte := by
  simp [overlay]

theorem getElem?_overlay_off {buffer : List Byte} {offset : ℕ} {source : List Byte} {i : ℕ}
    (off : ¬Within offset source.length i) : (overlay buffer offset source)[i]? = buffer[i]? := by
  rw [getElem?_overlay]
  split
  next after =>
    have past : source.length ≤ i - offset := by
      unfold Within at off
      omega
    simp [List.getElem?_eq_none past]
  · simp

theorem overlay_overlay (buffer : List Byte) (offset : ℕ) {first second : List Byte}
    (same : first.length = second.length) :
    overlay (overlay buffer offset first) offset second = overlay buffer offset second := by
  apply List.ext_getElem?
  intro i
  by_cases inside : Within offset second.length i
  · have bound : i - offset < second.length := by
      unfold Within at inside
      omega
    rw [getElem?_overlay,getElem?_overlay,getElem?_overlay,Option.map_map]
    congr 1
    funext byte
    simp [inside.1,List.getElem?_eq_getElem bound]
  · rw [getElem?_overlay_off inside,getElem?_overlay_off (same ▸ inside),getElem?_overlay_off inside]

theorem agree_refl (changed : ℕ → Prop) (buffer : List Byte) : AgreeOff changed buffer buffer := ⟨rfl,fun _ _ => rfl⟩

theorem AgreeOff.symm (agree : AgreeOff changed left right) :
    AgreeOff changed right left := ⟨agree.length.symm,fun i away => (agree.same i away).symm⟩

theorem AgreeOff.trans {middle : List Byte} (first : AgreeOff changed left middle)
    (second : AgreeOff changed middle right) : AgreeOff changed left right :=
  ⟨first.length.trans second.length,fun i away => (first.same i away).trans (second.same i away)⟩

theorem AgreeOff.mono {more : ℕ → Prop} (agree : AgreeOff changed left right)
    (wider : ∀ i, changed i → more i) : AgreeOff more left right :=
  ⟨agree.length,fun i away => agree.same i fun here => away (wider i here)⟩

theorem agree_overlay (buffer : List Byte) (offset : ℕ) (source : List Byte) :
    AgreeOff (Within offset source.length) (overlay buffer offset source) buffer :=
  ⟨length_overlay ..,fun _ off => getElem?_overlay_off off⟩

end NodejsPool.Buffers
