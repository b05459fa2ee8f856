import Mathlib.Data.List.Sort

/-! Tables whose keys are in order, each once. -/
namespace NodejsPool

structure SortedStore (Key Value : Type*) [LinearOrder Key] where
  entries : List (Key × Value)
  sorted : entries.Pairwise fun left right => left.1 < right.1

namespace SortedStore

variable {Key Value : Type*} [LinearOrder Key]

def get (store : SortedStore Key Value) (key : Key) : Option Value :=
  (store.entries.find? fun entry => entry.1 = key).map Prod.snd

def erase (store : SortedStore Key Value) (key : Key) : SortedStore Key Value where
  entries := store.entries.filter fun entry => entry.1 ≠ key
  sorted := store.sorted.filter _

def put (store : SortedStore Key Value) (key : Key) (value : Value) : SortedStore Key Value where
  entries := (store.entries.filter fun entry => entry.1 < key) ++ (key,value) ::
    store.entries.filter fun entry => key < entry.1
  sorted := by
    refine List.pairwise_append.mpr ⟨store.sorted.filter _,List.pairwise_cons.mpr ⟨?_,store.sorted.filter _⟩,?_⟩
    · intro entry member
      exact of_decide_eq_true (List.mem_filter.mp member).2
    · intro entry low other member
      have below : entry.1 < key := of_decide_eq_true (List.mem_filter.mp low).2
      rcases List.mem_cons.mp member with rfl | high
      · exact below
      · exact lt_trans below (of_decide_eq_true (List.mem_filter.mp high).2)

def filter (store : SortedStore Key Value) (keep : Key × Value → Bool) : SortedStore Key Value where
  entries := store.entries.filter keep
  sorted := store.sorted.filter _

variable {store other : SortedStore Key Value} {key changed : Key} {value : Value}

theorem keys_nodup (store : SortedStore Key Value) : (store.entries.map Prod.fst).Nodup :=
  List.pairwise_map.mpr (store.sorted.imp fun less => ne_of_lt less)

theorem get_eq_some : store.get key = some value ↔ (key,value) ∈ store.entries := by
  unfold get
  rw [Option.map_eq_some_iff]
  constructor
  · intro found
    obtain ⟨⟨same,kept⟩,found,rfl⟩ := found
    have here : same = key := by simpa using List.find?_some found
    exact here ▸ List.mem_of_find?_eq_some found
  · intro member
    have some : (store.entries.find? fun entry => entry.1 = key).isSome := by
      rw [List.find?_isSome]
      exact ⟨(key,value),member,decide_eq_true rfl⟩
    obtain ⟨entry,found⟩ := Option.isSome_iff_exists.mp some
    have same : entry.1 = key := by simpa using List.find?_some found
    have one := List.inj_on_of_nodup_map store.keys_nodup (List.mem_of_find?_eq_some found) member same
    exact ⟨entry,found,by rw [one]⟩

theorem get_isSome : (store.get key).isSome ↔ ∃ value, (key,value) ∈ store.entries := by
  simp only [Option.isSome_iff_exists,get_eq_some]

theorem ext_get (same : ∀ key, store.get key = other.get key) : store = other := by
  have entries : store.entries = other.entries := by
    refine List.Pairwise.eq_of_mem_iff (r := fun left right => left.1 < right.1) store.sorted other.sorted ?_
    intro entry
    rw [← get_eq_some,← get_eq_some,same]
  cases store
  cases other
  cases entries
  rfl

@[simp] theorem get_erase : (store.erase changed).get key = if key = changed then none else store.get key := by
  refine Option.ext fun value => ?_
  rw [get_eq_some,erase,List.mem_filter,decide_eq_true_eq,← get_eq_some]
  split
  next same => simp [same]
  next apart => simp [apart]

@[simp] theorem get_put : (store.put changed value).get key = if key = changed then some value else store.get key := by
  refine Option.ext fun found => ?_
  rw [get_eq_some,put,List.mem_append,List.mem_cons,List.mem_filter,List.mem_filter,decide_eq_true_eq,decide_eq_true_eq,
    ← get_eq_some,Prod.mk.injEq]
  split
  next same => simp [same,eq_comm]
  next apart =>
    rcases lt_or_gt_of_ne apart with less | more
    · simp [less,apart,not_lt_of_gt less]
    · simp [more,apart,not_lt_of_gt more]

@[simp] theorem get_filter {keep : Key × Value → Bool} :
    (store.filter keep).get key = (store.get key).filter fun value => keep (key,value) := by
  refine Option.ext fun found => ?_
  rw [get_eq_some,filter,List.mem_filter,← get_eq_some,Option.filter_eq_some_iff]

end SortedStore
end NodejsPool
