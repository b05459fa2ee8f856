import NodejsPool.LongRunner.CacheCleanup
import Mathlib.Algebra.Order.Ring.Unbundled.Rat

/-! Keys of a cleanup of the cache, the books of its queues, and what its visits ask for. -/
namespace NodejsPool.LongRunner.CacheBooks
open Scans WriteBatches Payments CacheCleanup List

section Keys

variable {settings : Settings} {base other : Text} {key : CacheKey}

theorem historyKey_inj : historyKey base = historyKey other ↔ base = other := by
  rw [historyKey,historyKey,CacheKey.mk.injEq,append_cancel_left_eq]

theorem statsKey_inj : statsKey base = statsKey other ↔ base = other := by
  rw [statsKey,statsKey,CacheKey.mk.injEq,append_cancel_left_eq]

theorem historyKey_ne_statsKey : historyKey base ≠ statsKey other := by
  simp [historyKey,statsKey,historyPrefix,statsPrefix]

theorem not_isIdentifiers_historyKey : ¬ IsIdentifiers (historyKey base) := by
  simp [IsIdentifiers,identifiersPrefix,historyKey,historyPrefix,cons_prefix_cons]

theorem not_isIdentifiers_statsKey : ¬ IsIdentifiers (statsKey base) := by
  simp [IsIdentifiers,identifiersPrefix,statsKey,statsPrefix,cons_prefix_cons]

theorem prefixed_historyKey : Prefixed (historyKey base).units := .inr (.inl (prefix_append _ _))

theorem prefixed_statsKey : Prefixed (statsKey base).units := .inr (.inr (prefix_append _ _))

theorem mem_family : key ∈ family base ↔ key = ⟨base⟩ ∨ key = historyKey base ∨ key = statsKey base := by
  simp [family]

theorem historyKey_mem_family (plain : ¬ Prefixed other) : historyKey base ∈ family other ↔ base = other := by
  rw [mem_family,historyKey_inj]
  refine ⟨fun member => ?_,fun same => .inr (.inl same)⟩
  rcases member with same | same | same
  · exact absurd (same ▸ prefixed_historyKey : Prefixed (CacheKey.mk other).units) plain
  · exact same
  · exact absurd same historyKey_ne_statsKey

theorem statsKey_mem_family (plain : ¬ Prefixed other) : statsKey base ∈ family other ↔ base = other := by
  rw [mem_family,statsKey_inj]
  refine ⟨fun member => ?_,fun same => .inr (.inr same)⟩
  rcases member with same | same | same
  · exact absurd (same ▸ prefixed_statsKey : Prefixed (CacheKey.mk other).units) plain
  · exact absurd same.symm historyKey_ne_statsKey
  · exact same

theorem mk_mem_family (plain : ¬ Prefixed base) : CacheKey.mk base ∈ family other ↔ base = other := by
  rw [mem_family,CacheKey.mk.injEq]
  refine ⟨fun member => ?_,fun same => .inl same⟩
  rcases member with same | same | same
  · exact same
  · have named : base = (historyKey other).units := congrArg CacheKey.units same
    exact absurd (named ▸ prefixed_historyKey) plain
  · have named : base = (statsKey other).units := congrArg CacheKey.units same
    exact absurd (named ▸ prefixed_statsKey) plain

theorem family_unique (one : WorkerBase settings base) (two : WorkerBase settings other) (here : key ∈ family base)
    (there : key ∈ family other) : base = other := by
  rcases mem_family.mp here with rfl | rfl | rfl
  · exact (mk_mem_family one.plain).mp there
  · exact (historyKey_mem_family two.plain).mp there
  · exact (statsKey_mem_family two.plain).mp there

theorem family_long (worker : WorkerBase settings base) (member : key ∈ family base) :
    key.units ≠ [] ∧ settings.minKeyLength ≤ key.units.length := by
  have long := worker.long
  have some : base ≠ [] := ne_nil_of_mem worker.named
  rcases mem_family.mp member with rfl | rfl | rfl
  · exact ⟨some,long⟩
  · exact ⟨by simp [historyKey,historyPrefix],by rw [historyKey,length_append]; omega⟩
  · exact ⟨by simp [statsKey,statsPrefix],by rw [statsKey,length_append]; omega⟩

theorem family_not_identifiers (worker : WorkerBase settings base) (member : key ∈ family base) :
    ¬ IsIdentifiers key := by
  rcases mem_family.mp member with rfl | rfl | rfl
  · exact fun same => worker.plain (.inl same)
  · exact not_isIdentifiers_historyKey
  · exact not_isIdentifiers_statsKey

end Keys

variable [LinearOrder CacheKey]

section Books

variable {settings : Settings} {batchSize : ℕ} {start : CacheDb} {log : Log CacheKey Cached} {promised : List CacheKey}
  {world : World} {key : CacheKey} {value : Cached} {base : Text}

structure Books (start : CacheDb) (log : Log CacheKey Cached) (promised : List CacheKey) (world : World) : Prop where
  sound : log.Sound
  agrees : Agrees start log world.batch
  scheduled : ∀ key ∈ world.scheduledDeletes, key ∈ world.deletes
  families : ∀ base ∈ world.deletedWorkerFamilies, ∀ key ∈ family base, key ∈ promised
  histories : ∀ base ∈ world.deletedAccountHistories, historyKey base ∈ promised

def Grows (log : Log CacheKey Cached) (before after : World) : Prop :=
  ∀ key, (after.db.get key).isSome → (before.db.get key).isSome ∨ ∃ value, (key,value) ∈ log.puts

theorem Grows.trans {first second third : World} (one : Grows log first second) (two : Grows log second third) :
    Grows log first third := fun key there => (two key there).elim (one key) .inr

variable (batchSize) in
theorem flushFull_books (books : Books start log promised world) :
    Books start log promised (flushFull batchSize world) ∧ Grows log world (flushFull batchSize world) := by
  unfold flushFull
  split
  · refine ⟨⟨books.sound,books.agrees.flush books.sound,?_,?_,?_⟩,fun key there => flush_isSome books.agrees there⟩
    · exact fun _ member => absurd member not_mem_nil
    · exact fun _ member => absurd member not_mem_nil
    · exact fun _ member => absurd member not_mem_nil
  · exact ⟨books,fun _ there => .inl there⟩

variable (batchSize) in
theorem queueDelete_books (books : Books start log promised world) (free : ∀ value, (key,value) ∉ log.puts) :
    Books start { log with dels := key::log.dels } promised (queueDelete batchSize key world) ∧
      Grows log world (queueDelete batchSize key world) := by
  have sound : ({ log with dels := key::log.dels } : Log CacheKey Cached).Sound := by
    refine ⟨fun other member => ?_,books.sound.single⟩
    rcases mem_cons.mp member with rfl | member
    · exact free
    · exact books.sound.apart other member
  unfold queueDelete
  split
  next waiting =>
    exact ⟨⟨sound,books.agrees.again (books.scheduled key waiting),books.scheduled,books.families,books.histories⟩,
      fun _ there => .inl there⟩
  next fresh =>
    have waiting : Books start { log with dels := key::log.dels } promised { world with
        scheduledDeletes := key::world.scheduledDeletes
        deletes := world.deletes ++ [key] } := by
      refine ⟨sound,books.agrees.delete key,fun other member => ?_,books.families,books.histories⟩
      rcases mem_cons.mp member with same | member
      · exact mem_append_right _ (mem_singleton.mpr same)
      · exact mem_append_left _ (books.scheduled other member)
    exact flushFull_books batchSize waiting

variable (batchSize value) in
theorem queueUpdate_books (books : Books start log promised world) (kept : key ∉ log.dels)
    (free : ∀ other, (key,other) ∉ log.puts) :
    Books start { log with puts := (key,value)::log.puts } promised (queueUpdate batchSize key value world) ∧
      Grows { log with puts := (key,value)::log.puts } world (queueUpdate batchSize key value world) := by
  have sound : ({ log with puts := (key,value)::log.puts } : Log CacheKey Cached).Sound := by
    refine ⟨fun other deleted found member => ?_,fun other one two first second => ?_⟩
    · rcases mem_cons.mp member with same | member
      · cases same
        exact kept deleted
      · exact books.sound.apart other deleted found member
    · rcases mem_cons.mp first with same | first <;> rcases mem_cons.mp second with again | second
      · cases same
        cases again
        rfl
      · cases same
        exact absurd second (free two)
      · cases again
        exact absurd first (free one)
      · exact books.sound.single other one two first second
  unfold queueUpdate
  exact flushFull_books batchSize ⟨sound,books.agrees.put key value,books.scheduled,books.families,books.histories⟩

structure Extends (before after : Log CacheKey Cached) (dels : List CacheKey)
  (puts : List (CacheKey × Cached)) : Prop where
  dels : ∀ key, key ∈ after.dels ↔ key ∈ before.dels ∨ key ∈ dels
  puts : ∀ entry, entry ∈ after.puts ↔ entry ∈ before.puts ∨ entry ∈ puts

theorem Books.widen {wider : List CacheKey} (books : Books start log promised world)
    (more : ∀ key ∈ promised, key ∈ wider) : Books start log wider world :=
  ⟨books.sound,books.agrees,books.scheduled,
    fun base member key among => more key (books.families base member key among),
    fun base member => more _ (books.histories base member)⟩

variable (batchSize) in
theorem family_books (books : Books start log log.dels world) (some : base ≠ [])
    (free : ∀ key ∈ family base, ∀ value, (key,value) ∉ log.puts) :
    ∃ after, Books start after after.dels (queueWorkerFamilyDelete batchSize base world) ∧
      Extends log after (family base) [] ∧ Grows after world (queueWorkerFamilyDelete batchSize base world) := by
  unfold queueWorkerFamilyDelete
  split
  next done =>
    have queued := books.families base (done.resolve_left some)
    refine ⟨log,books,⟨fun key => ?_,fun entry => by simp⟩,fun _ there => .inl there⟩
    exact ⟨.inl,fun member => member.elim id (queued key)⟩
  next fresh =>
    obtain ⟨wide,same⟩ : ∃ wide, wide = statsKey base::historyKey base::(⟨base⟩ : CacheKey)::log.dels := ⟨_,rfl⟩
    have more : ∀ key ∈ log.dels, key ∈ wide := fun key member => by simp [same,member]
    have begun : Books start log wide { world with deletedWorkerFamilies := base::world.deletedWorkerFamilies } := by
      have widened := books.widen more
      refine ⟨widened.sound,widened.agrees,widened.scheduled,fun other member key among => ?_,widened.histories⟩
      rcases mem_cons.mp member with rfl | member
      · rcases mem_family.mp among with rfl | rfl | rfl <;> simp [same]
      · exact widened.families other member key among
    obtain ⟨one,first⟩ := queueDelete_books batchSize begun (free ⟨base⟩ (by simp [family]))
    obtain ⟨two,second⟩ := queueDelete_books batchSize one (free (historyKey base) (by simp [family]))
    obtain ⟨three,third⟩ := queueDelete_books batchSize two (free (statsKey base) (by simp [family]))
    refine ⟨_,same ▸ three,⟨fun key => ?_,fun entry => by simp⟩,?_⟩
    · simp only [family,mem_cons,not_mem_nil,or_false]
      tauto
    · exact (Grows.trans (first : Grows log _ _) second).trans third

variable (batchSize) in
theorem history_books (books : Books start log log.dels world) (some : base ≠ [])
    (free : ∀ value, (historyKey base,value) ∉ log.puts) :
    ∃ after, Books start after after.dels (queueAccountHistoryDelete batchSize base world) ∧
      Extends log after [historyKey base] [] ∧ Grows after world (queueAccountHistoryDelete batchSize base world) := by
  unfold queueAccountHistoryDelete
  split
  next done =>
    have queued := books.histories base (done.resolve_left some)
    refine ⟨log,books,⟨fun key => ?_,fun entry => by simp⟩,fun _ there => .inl there⟩
    exact ⟨.inl,fun member => member.elim id fun member => mem_singleton.mp member ▸ queued⟩
  next fresh =>
    obtain ⟨wide,same⟩ : ∃ wide, wide = historyKey base::log.dels := ⟨_,rfl⟩
    have more : ∀ key ∈ log.dels, key ∈ wide := fun key member => by simp [same,member]
    have begun : Books start log wide
        { world with deletedAccountHistories := base::world.deletedAccountHistories } := by
      have widened := books.widen more
      refine ⟨widened.sound,widened.agrees,widened.scheduled,widened.families,fun other member => ?_⟩
      rcases mem_cons.mp member with rfl | member
      · simp [same]
      · exact widened.histories other member
    obtain ⟨one,first⟩ := queueDelete_books batchSize begun free
    refine ⟨{ log with dels := historyKey base::log.dels },same ▸ one,⟨fun key => ?_,fun entry => by simp⟩,first⟩
    simp only [mem_cons,not_mem_nil,or_false]
    tauto

theorem Books.there (books : Books start log promised world) (found : (start.get key).isSome)
    (kept : key ∉ log.dels) : (world.db.get key).isSome := by
  rcases books.agrees.source key with same | ⟨deleted,_⟩ | ⟨value,_,put⟩
  · change world.db.get key = _ at same
    rw [same]
    exact found
  · exact absurd deleted kept
  · change world.db.get key = _ at put
    rw [put]
    rfl

end Books
section Looks

variable {settings : Settings} {start db : CacheDb} {base : Text} {key : CacheKey} {data : Cached}

theorem truthy_getCache (found : truthy (getCache db key) = true) : (db.get key).isSome := by
  unfold getCache at found
  cases there : db.get key with
  | none => simp [there,truthy] at found
  | some value => rfl

omit [LinearOrder CacheKey] in
private theorem field_assignZero {name other : String} (apart : name ≠ other) (fields : List (String × Json)) :
    (Json.obj (assignZero name fields)).field other = (Json.obj fields).field other := by
  unfold assignZero Json.field
  dsimp only
  split
  · rw [find?_append]
    cases fields.find? fun entry => decide (entry.1 = other) <;> simp [apart]
  next there =>
    clear there
    congr 1
    induction fields with
    | nil => rfl
    | cons entry fields ih =>
      rw [map_cons,find?_cons,find?_cons,ih]
      by_cases here : entry.1 = name <;> simp [here,apart]

omit [LinearOrder CacheKey] in
theorem accountReset_reads {value : Cached} (reset : accountReset settings data = some value) :
    truthy value = truthy data ∧ getLastHashMs value = getLastHashMs data := by
  unfold accountReset at reset
  split at reset
  next fields =>
    obtain ⟨_,same⟩ := Option.ite_none_right_eq_some.mp reset
    cases same
    refine ⟨rfl,?_⟩
    unfold getLastHashMs
    dsimp only
    rw [field_assignZero (by decide),field_assignZero (by decide)]
  · cases reset

variable (settings db) in
theorem familyRequest_spec (parts : List CacheKey) (among : ∀ part ∈ parts, part = ⟨base⟩ ∨ part = historyKey base) :
    (familyRequest settings db base parts = .family base ∧ ¬ Complete settings db base) ∨
    (familyRequest settings db base parts = .keep ∧ (db.get (statsKey base)).isSome ∧
      (⟨base⟩ ∈ parts → historyKey base ∈ parts → Complete settings db base)) := by
  unfold familyRequest
  dsimp only
  split
  next lacking =>
    refine .inl ⟨rfl,fun complete => ?_⟩
    rw [Bool.or_eq_true,Bool.or_eq_true,any_eq_true,complete.stats,decide_eq_true_eq] at lacking
    rcases lacking with (⟨part,member,absent⟩ | absent) | old
    · rcases among part member with rfl | rfl
      · rw [complete.data] at absent
        cases absent
      · rw [complete.history] at absent
        cases absent
    · cases absent
    · exact absurd old (not_lt.mpr complete.recent)
  next whole =>
    rw [Bool.or_eq_true,Bool.or_eq_true,not_or,not_or,any_eq_true,decide_eq_true_eq,not_lt,Bool.not_eq_true',
      Bool.not_eq_false] at whole
    obtain ⟨⟨parts,stats⟩,recent⟩ := whole
    have there : ∀ part ∈ _, truthy (getCache db part) = true := fun part member => by
      by_contra absent
      exact parts ⟨part,member,by simpa using absent⟩
    exact .inr ⟨rfl,truthy_getCache stats,fun one two => ⟨there _ one,there _ two,stats,recent⟩⟩

end Looks

section Visits

variable {settings : Settings} {batchSize : ℕ} {base : Text} {key : CacheKey} {data : Cached} {world : World}

theorem visitKey_skipped (short : key.units = [] ∨ key.units.length < settings.minKeyLength) :
    visitKey settings batchSize key data world = world := if_pos short

theorem visitKey_identifiers (long : settings.minKeyLength ≤ key.units.length) (same : IsIdentifiers key) :
    visitKey settings batchSize key data world =
      perform batchSize (identifierRequest settings world.db key data) world := by
  have some : key.units ≠ [] := fun none => by
    rw [IsIdentifiers,none,prefix_nil] at same
    cases same
  rw [visitKey,if_neg (not_or.mpr ⟨some,not_lt.mpr long⟩),
    if_pos (show identifiersPrefix <+: key.units from same),processIdentifierKey_eq]

theorem visitKey_history (long : settings.minKeyLength ≤ (historyKey base).units.length) :
    visitKey settings batchSize (historyKey base) data world =
      perform batchSize (historyRequest settings world.db base) world := by
  have some : (historyKey base).units ≠ [] := by simp [historyKey,historyPrefix]
  rw [visitKey,if_neg (not_or.mpr ⟨some,not_lt.mpr long⟩),
    if_neg (show ¬ identifiersPrefix <+: (historyKey base).units from not_isIdentifiers_historyKey),
    if_pos (show historyPrefix <+: (historyKey base).units from prefix_append _ _),processHistoryKey_eq]

theorem visitKey_stats (long : settings.minKeyLength ≤ (statsKey base).units.length) :
    visitKey settings batchSize (statsKey base) data world =
      perform batchSize (statsRequest settings world.db base data) world := by
  have some : (statsKey base).units ≠ [] := by simp [statsKey,statsPrefix]
  have apart : ¬ historyPrefix <+: (statsKey base).units := by
    simp [historyPrefix,statsKey,statsPrefix,cons_prefix_cons]
  rw [visitKey,if_neg (not_or.mpr ⟨some,not_lt.mpr long⟩),
    if_neg (show ¬ identifiersPrefix <+: (statsKey base).units from not_isIdentifiers_statsKey),if_neg apart,
    if_pos (show statsPrefix <+: (statsKey base).units from prefix_append _ _),processStatsKey_eq]

theorem visitKey_plain (plain : ¬ Prefixed key.units) : visitKey settings batchSize key data world =
      if key.units = [] ∨ key.units.length < settings.minKeyLength ∨ underscore ∉ key.units then world
      else perform batchSize (familyRequest settings world.db key.units [historyKey key.units]) world := by
  obtain ⟨identifiers,history,stats⟩ : ¬ identifiersPrefix <+: key.units ∧ ¬ historyPrefix <+: key.units ∧
      ¬ statsPrefix <+: key.units := by
    unfold Prefixed at plain
    tauto
  have worker := processWorkerKey_eq settings batchSize key.units world
  rw [visitKey,if_neg identifiers,if_neg history,if_neg stats]
  by_cases short : key.units = [] ∨ key.units.length < settings.minKeyLength
  · rw [if_pos short,if_pos (by tauto)]
  · rw [if_neg short]
    by_cases unnamed : underscore ∉ key.units
    · rw [if_pos unnamed,if_pos (by tauto)]
    · rw [if_neg unnamed,if_neg (by tauto)]
      exact worker

end Visits

end NodejsPool.LongRunner.CacheBooks
