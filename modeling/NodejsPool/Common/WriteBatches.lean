import NodejsPool.Common.SortedStore

/-! Deletes and puts that are collected and written to a store together, whenever it suits: what is left in the end is
told by what was asked for, not by when it was written. -/
namespace NodejsPool.WriteBatches
open List

variable {Key Value : Type*} [LinearOrder Key]

structure Batch (Key Value : Type*) [LinearOrder Key] where
  db : SortedStore Key Value
  deletes : List Key
  updates : List (Key × Value)

def eraseAll (keys : List Key) (db : SortedStore Key Value) : SortedStore Key Value :=
  keys.foldl SortedStore.erase db

def putAll (entries : List (Key × Value)) (db : SortedStore Key Value) : SortedStore Key Value :=
  entries.foldl (fun db entry => db.put entry.1 entry.2) db

def Batch.flush (batch : Batch Key Value) : Batch Key Value :=
  ⟨putAll batch.updates (eraseAll batch.deletes batch.db),[],[]⟩

structure Log (Key Value : Type*) where
  dels : List Key
  puts : List (Key × Value)

structure Log.Sound (log : Log Key Value) : Prop where
  apart : ∀ key ∈ log.dels, ∀ value, (key,value) ∉ log.puts
  single : ∀ key value other, (key,value) ∈ log.puts → (key,other) ∈ log.puts → value = other

/-- A batch that has been asked for what the log tells, some of it written already. -/
structure Agrees (start : SortedStore Key Value) (log : Log Key Value) (batch : Batch Key Value) : Prop where
  deletes : ∀ key ∈ batch.deletes, key ∈ log.dels
  updates : ∀ entry ∈ batch.updates, entry ∈ log.puts
  gone : ∀ key ∈ log.dels, key ∈ batch.deletes ∨ batch.db.get key = none
  there : ∀ entry ∈ log.puts, entry ∈ batch.updates ∨ batch.db.get entry.1 = some entry.2
  source : ∀ key, batch.db.get key = start.get key ∨ (key ∈ log.dels ∧ batch.db.get key = none) ∨
    ∃ value, (key,value) ∈ log.puts ∧ batch.db.get key = some value

variable {start db : SortedStore Key Value} {log : Log Key Value} {batch : Batch Key Value} {key : Key} {value : Value}

theorem get_eraseAll (keys : List Key) : (eraseAll keys db).get key = if key ∈ keys then none else db.get key := by
  unfold eraseAll
  induction keys generalizing db with
  | nil => simp
  | cons first keys ih =>
    rw [foldl_cons,ih,SortedStore.get_erase]
    by_cases here : key = first <;> simp [here]

variable (db) in
theorem get_putAll_of_not_mem {entries : List (Key × Value)} (absent : ∀ value, (key,value) ∉ entries) :
    (putAll entries db).get key = db.get key := by
  unfold putAll
  induction entries generalizing db with
  | nil => rfl
  | cons entry entries ih =>
    have apart : key ≠ entry.1 := fun same => absent entry.2 (by simp [same])
    rw [foldl_cons,ih _ fun value member => absent value (mem_cons_of_mem _ member),SortedStore.get_put,
      if_neg apart]

theorem get_putAll_of_mem {entries : List (Key × Value)} (member : (key,value) ∈ entries)
    (single : ∀ other, (key,other) ∈ entries → other = value) : (putAll entries db).get key = some value := by
  induction entries generalizing db with
  | nil => exact absurd member not_mem_nil
  | cons entry entries ih =>
    by_cases later : ∃ other, (key,other) ∈ entries
    · obtain ⟨other,later⟩ := later
      have same := single other (mem_cons_of_mem _ later)
      exact ih (same ▸ later) fun other member => single other (mem_cons_of_mem _ member)
    · rcases mem_cons.mp member with rfl | member
      · have rest := get_putAll_of_not_mem (db.put key value) fun other member => later ⟨other,member⟩
        exact rest.trans (by rw [SortedStore.get_put,if_pos rfl])
      · exact absurd ⟨value,member⟩ later

section Flush

variable (sound : log.Sound) (agrees : Agrees start log batch)

include agrees

theorem flush_untouched (kept : key ∉ log.dels) (absent : ∀ value, (key,value) ∉ log.puts) :
    batch.flush.db.get key = start.get key := by
  rw [Batch.flush,get_putAll_of_not_mem _ fun value found => absent value (agrees.updates _ found),get_eraseAll,
    if_neg fun found => kept (agrees.deletes key found)]
  rcases agrees.source key with same | ⟨deleted,_⟩ | ⟨value,put,_⟩
  · exact same
  · exact absurd deleted kept
  · exact absurd put (absent value)

theorem flush_isSome (there : (batch.flush.db.get key).isSome) :
    (batch.db.get key).isSome ∨ ∃ value, (key,value) ∈ log.puts := by
  by_cases put : ∃ value, (key,value) ∈ batch.updates
  · obtain ⟨value,put⟩ := put
    exact .inr ⟨value,agrees.updates _ put⟩
  · rw [Batch.flush,get_putAll_of_not_mem _ fun value found => put ⟨value,found⟩,get_eraseAll] at there
    split at there
    · cases there
    · exact .inl there

include sound

theorem flush_deleted (deleted : key ∈ log.dels) : batch.flush.db.get key = none := by
  have absent : ∀ value, (key,value) ∉ batch.updates := fun value found =>
    sound.apart key deleted value (agrees.updates _ found)
  rw [Batch.flush,get_putAll_of_not_mem _ absent,get_eraseAll]
  split
  · rfl
  next kept => exact (agrees.gone key deleted).resolve_left kept

theorem flush_put (put : (key,value) ∈ log.puts) : batch.flush.db.get key = some value := by
  by_cases pending : (key,value) ∈ batch.updates
  · exact get_putAll_of_mem pending fun other found =>
      sound.single key other value (agrees.updates _ found) put
  · have absent : ∀ value, (key,value) ∉ batch.updates := fun other found =>
      pending (sound.single key other value (agrees.updates _ found) put ▸ found)
    have kept : key ∉ batch.deletes := fun found => sound.apart key (agrees.deletes key found) value put
    rw [Batch.flush,get_putAll_of_not_mem _ absent,get_eraseAll,if_neg kept]
    exact (agrees.there _ put).resolve_left pending

theorem Agrees.flush : Agrees start log batch.flush where
  deletes _ member := absurd member not_mem_nil
  updates _ member := absurd member not_mem_nil
  gone _ deleted := .inr (flush_deleted sound agrees deleted)
  there _ put := .inr (flush_put sound agrees put)
  source key := by
    by_cases deleted : key ∈ log.dels
    · exact .inr (.inl ⟨deleted,flush_deleted sound agrees deleted⟩)
    by_cases put : ∃ value, (key,value) ∈ log.puts
    · obtain ⟨value,put⟩ := put
      exact .inr (.inr ⟨value,put,flush_put sound agrees put⟩)
    · exact .inl (flush_untouched agrees deleted fun value found => put ⟨value,found⟩)

end Flush

section Asking

theorem agrees_start (db : SortedStore Key Value) : Agrees db ⟨[],[]⟩ ⟨db,[],[]⟩ where
  deletes _ member := member
  updates _ member := member
  gone _ member := absurd member not_mem_nil
  there _ member := absurd member not_mem_nil
  source _ := .inl rfl

theorem Agrees.ask (agrees : Agrees start log batch) {key : Key} {deletes : List Key}
    (asked : ∀ other, other ∈ deletes ↔ other = key ∨ other ∈ batch.deletes) :
    Agrees start { log with dels := key::log.dels } { batch with deletes } where
  deletes other member := by
    rcases (asked other).mp member with rfl | member
    · exact mem_cons_self
    · exact mem_cons_of_mem _ (agrees.deletes other member)
  updates := agrees.updates
  gone other member := by
    rcases mem_cons.mp member with rfl | member
    · exact .inl ((asked other).mpr (.inl rfl))
    · exact (agrees.gone other member).imp (fun waiting => (asked other).mpr (.inr waiting)) id
  there := agrees.there
  source other := by
    rcases agrees.source other with same | ⟨deleted,none⟩ | put
    · exact .inl same
    · exact .inr (.inl ⟨mem_cons_of_mem _ deleted,none⟩)
    · exact .inr (.inr put)

theorem Agrees.delete (agrees : Agrees start log batch) (key : Key) :
    Agrees start { log with dels := key::log.dels } { batch with deletes := batch.deletes ++ [key] } :=
  agrees.ask (by simp [or_comm])

theorem Agrees.again (agrees : Agrees start log batch) (waiting : key ∈ batch.deletes) :
    Agrees start { log with dels := key::log.dels } batch := by
  refine agrees.ask fun other => ⟨.inr,?_⟩
  rintro (rfl | member)
  · exact waiting
  · exact member

theorem Agrees.put (agrees : Agrees start log batch) (key : Key) (value : Value) :
    Agrees start { log with puts := (key,value)::log.puts } { batch with updates := batch.updates ++
      [(key,value)] } where
  deletes := agrees.deletes
  updates entry member := by
    rcases mem_append.mp member with member | member
    · exact mem_cons_of_mem _ (agrees.updates entry member)
    · exact mem_cons.mpr (.inl (mem_singleton.mp member))
  gone := agrees.gone
  there entry member := by
    rcases mem_cons.mp member with rfl | member
    · exact .inl (mem_append_right _ (mem_singleton_self _))
    · exact (agrees.there entry member).imp (mem_append_left _) id
  source other := by
    rcases agrees.source other with same | deleted | ⟨found,put,there⟩
    · exact .inl same
    · exact .inr (.inl deleted)
    · exact .inr (.inr ⟨found,mem_cons_of_mem _ put,there⟩)

end Asking
end NodejsPool.WriteBatches
