import Mathlib.Algebra.BigOperators.Group.Finset.Basic
import Mathlib.Data.Fintype.Basic

/-! What the lists of a family hold together. -/
namespace NodejsPool.Families

variable {Index Item : Type} [Fintype Index] {family other : Index → List Item} {index : Index} {item : Item}

def gather (family : Index → List Item) : Multiset Item := ∑ index, (family index : Multiset Item)

theorem gather_congr (same : ∀ index, (other index).Perm (family index)) : gather other = gather family :=
  Finset.sum_congr rfl fun index _ => Multiset.coe_eq_coe.mpr (same index)

theorem gather_nil : gather (fun _ : Index => ([] : List Item)) = 0 := Finset.sum_eq_zero fun _ _ => rfl

theorem gather_cons (index : Index) (more : (other index).Perm (item::family index))
    (same : ∀ rest, rest ≠ index → other rest = family rest) : gather other = item ::ₘ gather family := by
  classical
  unfold gather
  rw [← Finset.add_sum_erase _ _ (Finset.mem_univ index),← Finset.add_sum_erase _ _ (Finset.mem_univ index),
    Multiset.coe_eq_coe.mpr more,← Multiset.cons_coe,Multiset.cons_add]
  congr 2
  refine Finset.sum_congr rfl fun rest inside => ?_
  rw [same rest (Finset.ne_of_mem_erase inside)]

end NodejsPool.Families
