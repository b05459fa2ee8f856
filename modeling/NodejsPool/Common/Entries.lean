import Mathlib.Algebra.BigOperators.Group.List.Basic
import Mathlib.Data.List.Nodup
import Mathlib.Tactic.Abel

/-! Maps as lists of entries, in the order in which their keys came. -/
namespace NodejsPool.Entries

section Operations

variable {Key Value : Type} [DecidableEq Key]

def get (entries : List (Key × Value)) (key : Key) : Option Value :=
  (entries.find? fun entry => entry.1 = key).map Prod.snd

def put : List (Key × Value) → Key → Value → List (Key × Value)
  | [],key,value => [(key,value)]
  | entry::entries,key,value => if entry.1 = key then (key,value)::entries else entry::put entries key value

def erase (entries : List (Key × Value)) (key : Key) : List (Key × Value) := entries.filter fun entry => entry.1 ≠ key

variable {entries : List (Key × Value)} {key other : Key} {value : Value}

@[simp] theorem get_nil : get ([] : List (Key × Value)) key = none := rfl

theorem get_cons (entry : Key × Value) (entries : List (Key × Value)) (key : Key) :
    get (entry::entries) key = if entry.1 = key then some entry.2 else get entries key := by
  unfold get
  by_cases here : entry.1 = key <;> simp [here]

@[simp] theorem get_put_self : get (put entries key value) key = some value := by
  induction entries with
  | nil => simp [put,get_cons]
  | cons entry entries ih =>
    unfold put
    split
    · simp [get_cons]
    next apart => rw [get_cons,if_neg apart,ih]

theorem get_put_other (apart : other ≠ key) : get (put entries key value) other = get entries other := by
  induction entries with
  | nil => rw [put,get_cons,if_neg apart.symm]
  | cons entry entries ih =>
    unfold put
    split
    next here => rw [get_cons,get_cons,if_neg apart.symm,if_neg (here ▸ apart.symm)]
    · rw [get_cons,get_cons,ih]

@[simp] theorem get_erase_self : get (erase entries key) key = none := by
  unfold get erase
  rw [Option.map_eq_none_iff,List.find?_eq_none]
  intro entry member same
  have apart := (List.mem_filter.mp member).2
  simp_all

theorem get_erase_other (apart : other ≠ key) : get (erase entries key) other = get entries other := by
  induction entries with
  | nil => rfl
  | cons entry entries ih =>
    unfold erase at ih ⊢
    by_cases here : entry.1 = key
    · rw [List.filter_cons_of_neg (by simpa using here),ih,get_cons,if_neg (here ▸ apart.symm)]
    · rw [List.filter_cons_of_pos (by simpa using here),get_cons,get_cons,ih]

theorem get_filter (keep : Key → Bool) : get (entries.filter fun entry => keep entry.1) key = if keep key
    then get entries key else none := by
  induction entries with
  | nil => simp
  | cons entry entries ih =>
    by_cases kept : keep entry.1
    · rw [List.filter_cons_of_pos (p := fun entry : Key × Value => keep entry.1) kept,get_cons,get_cons,ih]
      by_cases here : entry.1 = key
      · rw [if_pos here,if_pos here,if_pos (here ▸ kept)]
      · rw [if_neg here,if_neg here]
    · rw [List.filter_cons_of_neg (p := fun entry : Key × Value => keep entry.1) kept,get_cons,ih]
      by_cases here : entry.1 = key
      · rw [if_neg (here ▸ kept),if_neg (here ▸ kept)]
      · rw [if_neg here]

theorem filter_put (keep : Key → Bool) (entries : List (Key × Value)) (key : Key) (value : Value) :
    (put entries key value).filter (fun entry => keep entry.1) =
      if keep key then put (entries.filter fun entry => keep entry.1) key value
      else entries.filter fun entry => keep entry.1 := by
  induction entries with
  | nil => simp [put,List.filter_cons]
  | cons entry entries ih =>
    rw [put]
    by_cases here : entry.1 = key
    · rw [if_pos here]
      by_cases kept : keep key
      · simp [kept,here,put]
      · simp [kept,here]
    · rw [if_neg here,List.filter_cons,ih]
      by_cases kept : keep key
      · rw [if_pos kept,if_pos kept]
        by_cases other : keep entry.1
        · rw [if_pos other,List.filter_cons_of_pos (p := fun entry : Key × Value => keep entry.1) other,put,if_neg here]
        · rw [if_neg other,List.filter_cons_of_neg (p := fun entry : Key × Value => keep entry.1) other]
      · rw [if_neg kept,if_neg kept,List.filter_cons]

theorem mem_of_get (found : get entries key = some value) : (key,value) ∈ entries := by
  obtain ⟨entry,here,rfl⟩ := Option.map_eq_some_iff.mp found
  obtain rfl : entry.1 = key := by simpa using List.find?_some here
  exact List.mem_of_find?_eq_some here

theorem get_of_mem (distinct : (entries.map Prod.fst).Nodup) (member : (key,value) ∈ entries) :
    get entries key = some value := by
  induction entries with
  | nil => cases member
  | cons entry entries ih =>
    obtain ⟨fresh,distinct⟩ := List.nodup_cons.mp distinct
    rw [get_cons]
    rcases List.mem_cons.mp member with rfl | later
    · rw [if_pos rfl]
    · have apart : entry.1 ≠ key := fun same => fresh (same ▸ List.mem_map_of_mem later)
      rw [if_neg apart,ih distinct later]

theorem put_absent (absent : get entries key = none) : put entries key value = entries ++ [(key,value)] := by
  induction entries with
  | nil => rfl
  | cons entry entries ih =>
    rw [get_cons] at absent
    split at absent
    · cases absent
    next apart => rw [put,if_neg apart,ih absent,List.cons_append]

theorem mem_put {entry : Key × Value} (member : entry ∈ put entries key value) : entry ∈ entries ∨
    entry = (key,value) := by
  induction entries with
  | nil => exact .inr (List.mem_singleton.mp member)
  | cons first entries ih =>
    unfold put at member
    split at member
    · rcases List.mem_cons.mp member with new | old
      · exact .inr new
      · exact .inl (List.mem_cons_of_mem _ old)
    · rcases List.mem_cons.mp member with rfl | later
      · exact .inl List.mem_cons_self
      · exact (ih later).imp (List.mem_cons_of_mem _) id

theorem keys_put : (put entries key value).map Prod.fst =
    if key ∈ entries.map Prod.fst then entries.map Prod.fst else entries.map Prod.fst ++ [key] := by
  induction entries with
  | nil => rfl
  | cons entry entries ih =>
    unfold put
    by_cases here : entry.1 = key
    · simp [here]
    · rw [if_neg here,List.map_cons,ih]
      by_cases later : key ∈ entries.map Prod.fst
      · have inside : key ∈ (entry::entries).map Prod.fst := by
          rw [List.map_cons]
          exact List.mem_cons_of_mem _ later
        rw [if_pos later,if_pos inside]
        rfl
      · have absent : key ∉ (entry::entries).map Prod.fst := by
          rw [List.map_cons,List.mem_cons]
          rintro (same | inside)
          · exact here same.symm
          · exact later inside
        rw [if_neg later,if_neg absent]
        rfl

theorem put_distinct (distinct : (entries.map Prod.fst).Nodup) : ((put entries key value).map Prod.fst).Nodup := by
  rw [keys_put]
  split
  · exact distinct
  next absent =>
    rw [List.nodup_append]
    refine ⟨distinct,List.nodup_singleton _,?_⟩
    intro first member last single same
    obtain rfl := List.mem_singleton.mp single
    exact absent (same ▸ member)

theorem erase_absent (absent : key ∉ entries.map Prod.fst) : erase entries key = entries := by
  apply List.filter_eq_self.mpr
  intro entry member
  have apart : entry.1 ≠ key := fun same => absent (same ▸ List.mem_map_of_mem member)
  simpa using apart

theorem erase_cons {entry : Key × Value} (distinct : ((entry::entries).map Prod.fst).Nodup) :
    erase (entry::entries) key = if entry.1 = key then entries else entry::erase entries key := by
  obtain ⟨fresh,_⟩ := List.nodup_cons.mp distinct
  split
  next here =>
    rw [erase,List.filter_cons_of_neg (by simpa using here)]
    exact erase_absent (here ▸ fresh)
  next apart => exact List.filter_cons_of_pos (by simpa using apart)

theorem keys_erase (distinct : (entries.map Prod.fst).Nodup) :
    (erase entries key).map Prod.fst = (entries.map Prod.fst).erase key := by
  rw [distinct.erase_eq_filter,List.filter_map]
  unfold erase
  congr 1
  apply List.filter_congr
  intro entry _
  simp [bne,beq_eq_decide]

theorem erase_distinct (distinct : (entries.map Prod.fst).Nodup) : ((erase entries key).map Prod.fst).Nodup :=
  distinct.sublist (List.filter_sublist.map _)

end Operations

section Counts

variable {Key Value : Type} (p : Value → Bool)

def count (entries : List (Key × Value)) : ℕ := entries.countP fun entry => p entry.2

theorem count_cons (entry : Key × Value) (entries : List (Key × Value)) :
    count p (entry::entries) = count p entries + if p entry.2 then 1 else 0 := List.countP_cons ..

variable [DecidableEq Key] {entries : List (Key × Value)} {key : Key} {value : Value}

theorem count_put (entries : List (Key × Value)) (key : Key) (value : Value) :
    count p (put entries key value) + (if (get entries key).any p then 1 else 0) =
      count p entries + if p value then 1 else 0 := by
  induction entries with
  | nil => simp [put,count]
  | cons entry entries ih =>
    unfold put
    rw [get_cons]
    split
    · simp only [count_cons,Option.any_some]
      omega
    · simp only [count_cons]
      omega

theorem count_erase (key : Key) (distinct : (entries.map Prod.fst).Nodup) :
    count p (erase entries key) + (if (get entries key).any p then 1 else 0) = count p entries := by
  induction entries with
  | nil => rfl
  | cons entry entries ih =>
    rw [erase_cons distinct,get_cons,count_cons]
    split
    · rfl
    · rw [count_cons,← ih (List.nodup_cons.mp distinct).2]
      omega

theorem count_eq_zero (distinct : (entries.map Prod.fst).Nodup) (nothing : ∀ key value, get entries key = some value →
      p value = false) :
    count p entries = 0 := by
  refine List.countP_eq_zero.mpr fun entry member => ?_
  rw [nothing entry.1 entry.2 (get_of_mem distinct member)]
  exact Bool.false_ne_true

theorem count_pos (found : get entries key = some value) (kind : p value = true) : 0 < count p entries :=
  List.countP_pos_iff.mpr ⟨(key,value),mem_of_get found,kind⟩

end Counts

section Totals

variable {Key Value Amount : Type} [AddCommGroup Amount] (amount : Value → Amount)

def total (entries : List (Key × Value)) : Amount := (entries.map fun entry => amount entry.2).sum

@[simp] theorem total_nil : total amount ([] : List (Key × Value)) = 0 := rfl

theorem total_cons (entry : Key × Value) (entries : List (Key × Value)) :
    total amount (entry::entries) = amount entry.2 + total amount entries := by simp [total]

variable [DecidableEq Key]

theorem total_put (entries : List (Key × Value)) (key : Key) (value : Value) : total amount (put entries key value) =
      total amount entries - ((get entries key).map amount).getD 0 + amount value := by
  induction entries with
  | nil => simp [put,total]
  | cons entry entries ih =>
    unfold put
    rw [get_cons]
    split
    next here =>
      simp only [total_cons,Option.map_some,Option.getD_some]
      abel
    next apart =>
      rw [total_cons,ih,total_cons]
      abel

theorem total_erase {entries : List (Key × Value)} {key : Key} (distinct : (entries.map Prod.fst).Nodup) :
    total amount (erase entries key) = total amount entries - ((get entries key).map amount).getD 0 := by
  induction entries with
  | nil => simp [erase,total]
  | cons entry entries ih =>
    rw [erase_cons distinct,get_cons,total_cons]
    split
    · rw [Option.map_some,Option.getD_some]
      abel
    · rw [total_cons,ih (List.nodup_cons.mp distinct).2]
      abel

end Totals
end NodejsPool.Entries
