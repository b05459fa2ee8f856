import Mathlib.Algebra.BigOperators.Group.List.Basic
import Mathlib.Algebra.Ring.Int.Defs
import Mathlib.Data.List.Perm.Subperm

/-! Tables as lists of rows with a key: the sum of a column at a key, a `CASE` over the
key, and what an affected-rows count says about the rows it counted. -/
namespace NodejsPool.Sql

variable {Row : Type} (key : Row → ℕ) (value : Row → ℤ)

def sumAt (rows : List Row) (id : ℕ) : ℤ := ((rows.filter fun row => key row = id).map value).sum

/-- `CASE key WHEN … THEN value … ELSE 0 END`: the first matching branch. -/
def caseAt (rows : List Row) (id : ℕ) : ℤ := ((rows.find? fun row => key row = id).map value).getD 0

@[simp] theorem sumAt_nil (id : ℕ) : sumAt key value [] id = 0 := rfl

theorem sumAt_append (left right : List Row) (id : ℕ) :
    sumAt key value (left ++ right) id = sumAt key value left id + sumAt key value right id := by
  simp [sumAt]

theorem sumAt_cons (row : Row) (rows : List Row) (id : ℕ) :
    sumAt key value (row::rows) id = (if key row = id then value row else 0) + sumAt key value rows id := by
  unfold sumAt
  by_cases same : key row = id <;> simp [same]

theorem sumAt_perm {left right : List Row} (same : left.Perm right) (id : ℕ) :
    sumAt key value left id = sumAt key value right id :=
  ((same.filter _).map value).sum_eq

variable {key value} {rows : List Row}

theorem sumAt_absent {id : ℕ} (absent : id ∉ rows.map key) : sumAt key value rows id = 0 := by
  have none : rows.filter (fun row => key row = id) = [] := by
    apply List.filter_eq_nil_iff.mpr
    intro row member same
    exact absent (List.mem_map.mpr ⟨row,member,of_decide_eq_true same⟩)
  simp [sumAt,none]

theorem sumAt_mem (distinct : (rows.map key).Nodup) {row : Row} (member : row ∈ rows) :
    sumAt key value rows (key row) = value row := by
  induction rows with
  | nil => cases member
  | cons head tail ih =>
    obtain ⟨fresh,distinct⟩ := List.nodup_cons.mp distinct
    rw [sumAt_cons]
    rcases List.mem_cons.mp member with rfl | inside
    · rw [if_pos rfl,sumAt_absent fresh,add_zero]
    · have different : key head ≠ key row := by
        intro same
        exact fresh (same ▸ List.mem_map_of_mem inside)
      rw [if_neg different,ih distinct inside,zero_add]

theorem sumAt_either {left right : Row → Bool} (apart : ∀ row ∈ rows, left row = true → right row = false) (id : ℕ) :
    sumAt key value (rows.filter fun row => left row || right row) id =
      sumAt key value (rows.filter left) id + sumAt key value (rows.filter right) id := by
  induction rows with
  | nil => rfl
  | cons head tail ih =>
    obtain ⟨here,apart⟩ := List.forall_mem_cons.mp apart
    have rest := ih apart
    cases first : left head with
    | true => simp [first,here first,sumAt_cons,rest,add_assoc]
    | false =>
      cases second : right head with
      | true =>
        simp only [first,second,Bool.false_or,List.filter_cons,if_true,sumAt_cons,rest]
        simp [add_left_comm]
      | false => simpa [first,second] using rest

theorem caseAt_eq (distinct : (rows.map key).Nodup) (id : ℕ) : caseAt key value rows id = sumAt key value rows id := by
  unfold caseAt
  cases found : rows.find? fun row => key row = id with
  | none =>
    rw [sumAt_absent]
    · rfl
    · intro member
      obtain ⟨row,inside,same⟩ := List.mem_map.mp member
      simpa [same] using List.find?_eq_none.mp found row inside
  | some row =>
    have same : key row = id := by simpa using List.find?_some found
    subst same
    exact (sumAt_mem distinct (List.mem_of_find?_eq_some found)).symm

theorem all_counted {test : Row → Bool} {ids : List ℕ} (distinct : (rows.map key).Nodup)
    (inside : ∀ row ∈ rows, test row = true → key row ∈ ids) (count : rows.countP test = ids.length) :
    ∀ id ∈ ids, ∃ row ∈ rows, test row = true ∧ key row = id := by
  have nodup : ((rows.filter test).map key).Nodup := distinct.sublist (List.filter_sublist.map key)
  have within : (rows.filter test).map key ⊆ ids := by
    intro id member
    obtain ⟨row,kept,rfl⟩ := List.mem_map.mp member
    obtain ⟨row_mem,passes⟩ := List.mem_filter.mp kept
    exact inside row row_mem passes
  have size : ((rows.filter test).map key).length = ids.length := by
    rw [List.length_map,← List.countP_eq_length_filter]
    exact count
  have covered := (List.subperm_of_subset nodup within).perm_of_length_le (Nat.le_of_eq size.symm)
  intro id member
  obtain ⟨row,kept,same⟩ := List.mem_map.mp (covered.symm.subset member)
  obtain ⟨row_mem,passes⟩ := List.mem_filter.mp kept
  exact ⟨row,row_mem,passes,same⟩

end NodejsPool.Sql
