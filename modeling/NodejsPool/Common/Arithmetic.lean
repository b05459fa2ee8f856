import NodejsPool.Wire.Rounding

/-! Arithmetic on rationals that rounds its results: exactly, which is not at all, or to the nearest
double, as JavaScript does. -/
namespace NodejsPool

class Arithmetic where
  nearest : ℚ → ℚ

namespace Arithmetic
open Wire

instance (priority := low) exact : Arithmetic := ⟨fun value => value⟩

@[simp] theorem nearest_exact (value : ℚ) : exact.nearest value = value := rfl

/-- The total after the terms are added to it one by one. -/
def gather [Arithmetic] (total : ℚ) (terms : List ℚ) : ℚ := terms.foldl (fun total term => nearest (total + term)) total

@[simp] theorem gather_exact (total : ℚ) (terms : List ℚ) : gather total terms = total + terms.sum := by
  induction terms generalizing total with
  | nil => exact (add_zero total).symm
  | cons term terms ih =>
    change gather (total + term) terms = _
    rw [ih,List.sum_cons,add_assoc]

/-- No sum of the terms is rounded on the way. -/
def Unrounded [Arithmetic] : ℚ → List ℚ → Prop
  | _,[] => True
  | total,term::terms => nearest (total + term) = total + term ∧ Unrounded (total + term) terms

section

variable [Arithmetic] {total : ℚ}

theorem gather_append (total : ℚ) (terms more : List ℚ) :
    gather total (terms ++ more) = gather (gather total terms) more :=
  List.foldl_append

theorem Unrounded.gather {terms : List ℚ} (unrounded : Unrounded total terms) :
    gather total terms = total + terms.sum := by
  induction terms generalizing total with
  | nil => exact (add_zero total).symm
  | cons term terms ih =>
    obtain ⟨here,rest⟩ := unrounded
    change Arithmetic.gather (nearest (total + term)) terms = _
    rw [here,ih rest,List.sum_cons,add_assoc]

end

namespace Rounded

/-- Doubles, short of an overflow. -/
scoped instance doubles : Arithmetic := ⟨Format.double.nearest⟩

theorem nearest_doubles {value : ℚ} (holds : Format.double.Holds value) : doubles.nearest value = value :=
  Format.nearest_of_holds holds

/-- The least positive double. -/
def least : ℚ := (2 : ℚ) ^ Format.double.least

theorem least_pos : 0 < least := zpow_pos (by norm_num) _

theorem least_le_one : least ≤ 1 := zpow_le_one_of_nonpos₀ (by norm_num) (by decide)

theorem nearest_pos {value : ℚ} (above : least ≤ value) : 0 < doubles.nearest value :=
  Format.nearest_pos (least_pos.trans_le above) above

theorem unrounded_whole {terms : List ℕ} {total : ℕ} (small : total + terms.sum < 2^53) :
    Unrounded (total : ℚ) (terms.map Nat.cast) := by
  induction terms generalizing total with
  | nil => trivial
  | cons term terms ih =>
    rw [List.sum_cons,← add_assoc] at small
    have here : nearest ((total + term : ℕ) : ℚ) = (total + term : ℕ) :=
      nearest_doubles (Format.holds_natCast (by omega))
    have rest := ih small
    rw [Nat.cast_add] at here rest
    exact ⟨here,rest⟩

end Rounded
end Arithmetic
end NodejsPool
