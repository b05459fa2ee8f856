import NodejsPool.LongRunner.AltBlockCleanup
import NodejsPool.LongRunner.CacheRuns
import Mathlib.Data.List.Lex

/-! Scans by chunks against one pass, and what the two cleanups leave whatever their chunks and batches. -/
namespace NodejsPool.LongRunner.Cleanups
open Scans WriteBatches Payments AltBlockCleanup CacheCleanup CacheBooks CacheRuns

structure Agreed [LinearOrder CacheKey] (settings : Settings) (start : CacheDb) (left : CacheKey → Option Cached)
    (final : CacheDb) : Prop where
  same : ∀ key, ¬ IsIdentifiers key → final.get key = left key
  family : ∀ base, WorkerBase settings base → Complete settings final base ∨ ∀ key ∈ family base, final.get key = none

private theorem cache_agreed [LinearOrder CacheKey] (settings : Settings) {start : CacheDb} (plain : Plain start) :
    ∃ left, ∀ chunkSize batchSize fuel, 0 < chunkSize → start.entries.length < fuel →
      ∃ final, cleanCacheDB settings chunkSize batchSize fuel start = some final ∧
      Agreed settings start left final := by
  obtain ⟨first,_,one⟩ := cleanCacheDB_cleaned settings 1 plain Nat.one_pos (Nat.lt_succ_self _)
  refine ⟨first.get,fun chunkSize batchSize fuel some enough => ?_⟩
  obtain ⟨final,ran,two⟩ := cleanCacheDB_cleaned settings batchSize plain some enough
  exact ⟨final,ran,fun key identifiers => two.same one identifiers,fun base worker => two.family worker⟩

private theorem altBlocks_agreed {Key : Type} [LinearOrder Key] (now : ℤ) (start : SortedStore Key AltBlock) :
    ∃ final, (∀ chunkSize batchSize fuel, 0 < chunkSize → start.entries.length < fuel →
      cleanAltBlockDB now chunkSize batchSize fuel start = some final) ∧
      ∀ key block, start.get key = some block → block.unlocked = false → final.get key = some block := by
  refine ⟨_,fun chunkSize batchSize fuel some enough => cleanAltBlockDB_eq some enough,fun key block there locked => ?_⟩
  rw [SortedStore.get_filter,there,Option.filter_some,doomed,locked]
  rfl

/-- A scan by chunks ends and sees each key once, in order, as it was at its chunk: every key that stays, and every
key there was if visits delete only what was read. What the cleanups leave does not depend on chunks and batches, but
for lists of identifiers: every locked block, and workers that are complete and recent. -/
theorem chunked_scans : (∀ {Key Value World : Type} [LinearOrder Key] (visit : Key → Value → World → World)
      (db : World → SortedStore Key Value) (reverse : Bool) (chunkSize fuel : ℕ) (world : World),
      Shrinks visit db → 0 < chunkSize → (db world).entries.length < fuel →
      ∃ seen, scanDb visit db reverse chunkSize fuel none world = some (visitAll visit seen world) ∧
        Pass visit db reverse chunkSize none world seen ∧
        (DeletesRead visit db reverse chunkSize fuel none world →
          seen.map Prod.fst = (ordered reverse (db world).entries).map Prod.fst)) ∧
    (∀ {Key : Type} [LinearOrder Key] (now : ℤ) (start : SortedStore Key AltBlock),
      ∃ final, (∀ chunkSize batchSize fuel, 0 < chunkSize → start.entries.length < fuel →
        cleanAltBlockDB now chunkSize batchSize fuel start = some final) ∧
        ∀ key block, start.get key = some block → block.unlocked = false → final.get key = some block) ∧
    ∀ [LinearOrder CacheKey] (settings : Settings) (start : CacheDb), Plain start →
      ∃ left, ∀ chunkSize batchSize fuel, 0 < chunkSize → start.entries.length < fuel →
        ∃ final, cleanCacheDB settings chunkSize batchSize fuel start = some final ∧
          Agreed settings start left final := by
  refine ⟨?_,fun now start => altBlocks_agreed now start,fun settings start plain => cache_agreed settings plain⟩
  intro Key Value World _ visit db reverse chunkSize fuel world shrinks some enough
  have whole : remaining reverse none (db world) = ordered reverse (db world).entries :=
    List.filter_eq_self.mpr fun _ _ => rfl
  have length : (remaining reverse none (db world)).length < fuel := by
    rw [whole]
    unfold ordered
    cases reverse <;> simpa using enough
  obtain ⟨seen,ran,pass,same⟩ := scan_pass shrinks some length
  exact ⟨seen,ran,pass,fun reads => by rw [same reads,whole]⟩

section Samples

/-- Keys in the order of their units. -/
instance keyOrder : LinearOrder CacheKey :=
  LinearOrder.lift' (fun key => key.units.map UInt16.toNat) fun left right same => by
    have units : left.units = right.units := List.map_injective_iff.mpr (fun one two => UInt16.toNat_inj.mp) same
    cases left
    cases right
    exact congrArg CacheKey.mk units

def entry (value : Json) : Cached := some value

def statsAt (lastHash : ℚ) : Cached := some (.obj [("hash",.num 1),("lastHash",.num lastHash)])

def ofEntries (entries : List (CacheKey × Cached)) : CacheDb :=
  putAll entries ⟨[],List.Pairwise.nil⟩

def sampleSettings (minKeyLength : ℕ) : Settings := ⟨1000 * DAY_MS,minKeyLength⟩

def leaves (settings : Settings) (batchSize : ℕ) (entries : List (CacheKey × Cached)) (key : CacheKey) : Option Bool :=
  (cleanCacheDB settings 1 batchSize 10 (ofEntries entries)).map fun final => (final.get key).isSome

/-- The units of `a_b`. -/
def worker : Text := [97,95,98]

def listed : List (CacheKey × Cached) :=
  [(⟨worker⟩,entry (.num 1)),(statsKey worker,statsAt (1000 * DAY_MS)),(identifiersKey [97],entry (.arr [.str "b"]))]

def shadowed : List (CacheKey × Cached) :=
  [(⟨worker⟩,entry (.num 1)),(historyKey worker,entry (.num 1)),(statsKey worker,statsAt (1000 * DAY_MS)),
    (statsKey (historyKey worker).units,statsAt 1)]

/-- The size of a batch tells whether a list of identifiers stays; a worker with a name shorter than the pool's address
is left incomplete; and a worker that is named like the history of another takes that away. -/
theorem chunked_scans_lists : (leaves (sampleSettings 1) 1 listed (identifiersKey [97]) = some false ∧
      leaves (sampleSettings 1) 1000 listed (identifiersKey [97]) = some true) ∧
    (leaves (sampleSettings 4) 1 [(historyKey worker,entry (.num 1))] (historyKey worker) = some true ∧
      leaves (sampleSettings 4) 1 [(historyKey worker,entry (.num 1))] (statsKey worker) = some false) ∧
    leaves (sampleSettings 1) 1 shadowed (historyKey worker) = some false ∧
    leaves (sampleSettings 1) 1 shadowed (statsKey worker) = some true := by
  decide +kernel

private theorem listed_plain : Plain (ofEntries listed) := by
  have only : ∀ key, ((ofEntries listed).get key).isSome → key = ⟨worker⟩ ∨ key = statsKey worker ∨
      key = identifiersKey [97] := by
    intro key there
    by_contra apart
    rw [not_or,not_or] at apart
    have none : (ofEntries listed).get key = none := by
      refine (get_putAll_of_not_mem _ fun value member => ?_).trans rfl
      simp only [listed,List.mem_cons,Prod.mk.injEq,List.not_mem_nil,or_false] at member
      rcases member with ⟨same,_⟩ | ⟨same,_⟩ | ⟨same,_⟩
      · exact apart.1 same
      · exact apart.2.1 same
      · exact apart.2.2 same
    rw [none] at there
    cases there
  have plain : ¬ Prefixed worker := by
    unfold Prefixed
    decide
  intro base _ there
  rcases there with history | stats
  · rcases only _ history with same | same | same
    · cases congrArg CacheKey.units same
    · exact absurd same historyKey_ne_statsKey
    · cases congrArg CacheKey.units same
  · rcases only _ stats with same | same | same
    · cases congrArg CacheKey.units same
    · rw [statsKey_inj.mp same]
      exact plain
    · cases congrArg CacheKey.units same

theorem chunked_scans_sample : (∃ final, cleanCacheDB (sampleSettings 1) 1 500 10 (ofEntries listed) = some final ∧
      (Complete (sampleSettings 1) final worker ∨ ∀ key ∈ family worker, final.get key = none)) ∧
    (∃ seen, Pass (fun _ _ db => db) id true 1 none (ofEntries listed) seen) := by
  constructor
  · obtain ⟨left,each⟩ := chunked_scans.2.2 (sampleSettings 1) (ofEntries listed) listed_plain
    obtain ⟨final,ran,agreed⟩ := each 1 500 10 (by decide) (by decide +kernel)
    refine ⟨final,ran,agreed.family worker ⟨by decide,by decide,?_⟩⟩
    unfold Prefixed
    decide
  · obtain ⟨seen,_,pass,_⟩ := chunked_scans.1 (fun _ _ db => db) id true 1 10 (ofEntries listed)
      (fun _ _ _ _ there => there) (by decide) (by decide +kernel)
    exact ⟨seen,pass⟩

end Samples
end NodejsPool.LongRunner.Cleanups
