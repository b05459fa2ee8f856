import Mathlib.Data.Finset.Card

/-! Keys that are reserved while a check runs: a set of keys against the items that hold one. -/
namespace NodejsPool.Reservations
open Function

variable {Item Key : Type} [DecidableEq Key]

def Reserved (holds : Item → Bool) (key : Item → Key) (items : List Item) (keys : Finset Key) : Prop :=
  ∀ found, items.countP (fun item => holds item && decide (key item = found)) = if found ∈ keys then 1 else 0

variable {holds : Item → Bool} {key : Item → Key} {items : List Item} {keys : Finset Key} {item : Item}

theorem reserved_start : Reserved holds key [] ∅ := by
  intro found
  simp

theorem Reserved.pass (reserved : Reserved holds key items keys) (idle : holds item = false) :
    Reserved holds key (items ++ [item]) keys := by
  intro found
  rw [List.countP_append,reserved found]
  simp [idle]

theorem Reserved.reserve (reserved : Reserved holds key items keys) (fresh : key item ∉ keys)
    (busy : holds item = true) : Reserved holds key (items ++ [item]) (insert (key item) keys) := by
  intro found
  rw [List.countP_append,reserved found,List.countP_singleton]
  by_cases same : key item = found
  · subst same
    simp [fresh,busy]
  · have other : found ≠ key item := fun equal => same equal.symm
    simp [same,other,busy]

theorem Reserved.keep (reserved : Reserved holds key items keys) {index : ℕ} {next : Item}
    (there : items[index]? = some item) (same : key next = key item) (kept : holds next = holds item) :
    Reserved holds key (items.set index next) keys := by
  obtain ⟨inside,rfl⟩ := List.getElem?_eq_some_iff.mp there
  intro found
  have before := reserved found
  have counted : (if (holds items[index] && decide (key items[index] = found)) = true then 1 else 0) ≤
      items.countP fun item => holds item && decide (key item = found) := by
    split
    · next hit => exact List.countP_pos_iff.mpr ⟨_,List.getElem_mem inside,hit⟩
    · exact Nat.zero_le _
  rw [List.countP_set inside,same,kept]
  omega

theorem Reserved.release (reserved : Reserved holds key items keys) {index : ℕ} {next : Item}
    (there : items[index]? = some item) (busy : holds item = true) (idle : holds next = false) :
    Reserved holds key (items.set index next) (keys.erase (key item)) := by
  obtain ⟨inside,rfl⟩ := List.getElem?_eq_some_iff.mp there
  intro found
  have before := reserved found
  rw [List.countP_set inside,before,idle,busy]
  by_cases same : key items[index] = found
  · subst same
    by_cases member : key items[index] ∈ keys <;> simp [member]
  · have other : found ≠ key items[index] := fun equal => same equal.symm
    simp [same,other]

theorem Reserved.at_most_once (reserved : Reserved holds key items keys) {chosen : Item → Bool}
    (only : ∀ item, chosen item = true → holds item = true) (found : Key) :
    items.countP (fun item => chosen item && decide (key item = found)) ≤ 1 := by
  have fewer : items.countP (fun item => chosen item && decide (key item = found)) ≤
      items.countP fun item => holds item && decide (key item = found) := by
    apply List.countP_mono_left
    intro item _ hit
    rw [Bool.and_eq_true] at hit ⊢
    exact ⟨only item hit.1,hit.2⟩
  have single := reserved found
  split at single <;> omega

section Groups

/-! One set of keys for each group: an item reserves in its own group only. -/

variable {Group : Type} [DecidableEq Group] {holdsIn : Group → Item → Bool} {sets : Group → Finset Key} {group : Group}

theorem reserve_in (reserved : ∀ found, Reserved (holdsIn found) key items (sets found))
    (fresh : key item ∉ sets group) (busy : holdsIn group item = true)
    (apart : ∀ found, found ≠ group → holdsIn found item = false) (found : Group) :
    Reserved (holdsIn found) key (items ++ [item]) (update sets group (insert (key item) (sets group)) found) := by
  by_cases same : found = group
  · subst same
    rw [update_self]
    exact (reserved found).reserve fresh busy
  · rw [update_of_ne same]
    exact (reserved found).pass (apart found same)

theorem release_in (group : Group) (reserved : ∀ found, Reserved (holdsIn found) key items (sets found)) {index : ℕ}
    (next : Item) (there : items[index]? = some item) (same : key next = key item) (busy : holdsIn group item = true)
    (idle : holdsIn group next = false) (apart : ∀ found, found ≠ group → holdsIn found next = holdsIn found item)
    (found : Group) : Reserved (holdsIn found) key (items.set index next)
      (update sets group ((sets group).erase (key item)) found) := by
  by_cases own : found = group
  · subst own
    rw [update_self]
    exact (reserved found).release there busy idle
  · rw [update_of_ne own]
    exact (reserved found).keep there same (apart found own)

end Groups

section Sizes

variable {Group : Type} [DecidableEq Group] {sets : Group → Finset Key} {limit : ℕ}

theorem card_erase_in (limited : ∀ group, (sets group).card ≤ limit) (group : Group) (gone : Key) (found : Group) :
    (update sets group ((sets group).erase gone) found).card ≤ limit := by
  by_cases same : found = group
  · subst same
    rw [update_self]
    exact Finset.card_erase_le.trans (limited found)
  · rw [update_of_ne same]
    exact limited found

theorem card_insert_in (limited : ∀ group, (sets group).card ≤ limit) {group : Group} (room : (sets group).card < limit)
    (taken : Key) (found : Group) : (update sets group (insert taken (sets group)) found).card ≤ limit := by
  by_cases same : found = group
  · subst same
    rw [update_self]
    exact (Finset.card_insert_le _ _).trans room
  · rw [update_of_ne same]
    exact limited found

end Sizes

end NodejsPool.Reservations
