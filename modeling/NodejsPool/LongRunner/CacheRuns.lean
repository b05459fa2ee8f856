import NodejsPool.LongRunner.CacheBooks

/-! What a cleanup of the cache leaves, whatever its chunks and batches. -/
namespace NodejsPool.LongRunner.CacheRuns
open Scans WriteBatches Payments CacheCleanup CacheBooks List

variable [LinearOrder CacheKey]

section Halfway

variable {settings : Settings} {batchSize : ℕ} {start : CacheDb} {log : Log CacheKey Cached}
  {last : Option CacheKey} {world : World} {key : CacheKey} {data : Cached} {base : Text} {value : Cached}

/-- What a key that was seen and stays has shown: a worker that is complete, where the key or its lack of stats would
have told; no stale account; and a reset that was asked for. -/
structure Done (settings : Settings) (start : CacheDb) (log : Log CacheKey Cached) (key : CacheKey) : Prop where
  worker : ∀ base, WorkerBase settings base → key ∈ family base →
    key = statsKey base ∨ start.get (statsKey base) = none → Complete settings start base
  account : ∀ base, StaleAccount settings start base → key ≠ historyKey base
  reset : ∀ value, Reset settings start key value → (key,value) ∈ log.puts

/-- What has been asked for by a key: nothing but what one look at the first database finds, and all of that. -/
structure Asked (settings : Settings) (start : CacheDb) (last : Option CacheKey)
  (log : Log CacheKey Cached) : Prop where
  dels : ∀ key ∈ log.dels, (IsIdentifiers key ∧ beyond false last key = false) ∨ Doomed settings start key
  puts : ∀ key value, (key,value) ∈ log.puts → beyond false last key = false ∧ (start.get key).isSome ∧
    (IsIdentifiers key ∨ Reset settings start key value)
  families : ∀ base, WorkerBase settings base → ∀ key ∈ family base, key ∈ log.dels →
    ∀ other ∈ family base, other ∈ log.dels
  done : ∀ key, (start.get key).isSome → beyond false last key = false → key ∉ log.dels → Done settings start log key

def Halfway (settings : Settings) (start : CacheDb) (last : Option CacheKey) (world : World) : Prop :=
  ∃ log, Books start log log.dels world ∧ Asked settings start last log

theorem reset_not_family (reset : Reset settings start key value) (worker : WorkerBase settings base) :
    key ∉ family base := by
  obtain ⟨other,_,unnamed,rfl,_⟩ := reset
  intro member
  cases (statsKey_mem_family worker.plain).mp member
  exact unnamed worker.named

theorem doomed_family (worker : WorkerBase settings base) (member : key ∈ family base)
    (doomed : Doomed settings start key) : ¬ Complete settings start base := by
  rcases doomed with ⟨other,also,among,lacking⟩ | ⟨other,stale,rfl⟩
  · cases family_unique worker also member among
    exact lacking
  · cases (historyKey_mem_family worker.plain).mp member
    exact absurd worker.named stale.unnamed

theorem doomed_not_reset (doomed : Doomed settings start key) : ¬ Reset settings start key value := by
  intro reset
  rcases doomed with ⟨other,also,among,_⟩ | ⟨other,_,rfl⟩
  · exact reset_not_family reset also among
  · obtain ⟨_,_,_,same,_⟩ := reset
    exact historyKey_ne_statsKey same

theorem doomed_not_identifiers (doomed : Doomed settings start key) : ¬ IsIdentifiers key := by
  rcases doomed with ⟨other,also,among,_⟩ | ⟨other,_,rfl⟩
  · exact family_not_identifiers also among
  · exact not_isIdentifiers_historyKey

theorem reset_not_identifiers (reset : Reset settings start key value) : ¬ IsIdentifiers key := by
  obtain ⟨_,_,_,rfl,_⟩ := reset
  exact not_isIdentifiers_statsKey

theorem Asked.unseen (asked : Asked settings start last log) (past : beyond false last key = true) (value : Cached) :
    (key,value) ∉ log.puts := by
  intro put
  rw [(asked.puts key value put).1] at past
  cases past

theorem Halfway.ahead (halfway : Halfway settings start last world) (past : beyond false last key = true)
    (found : world.db.get key = some value) : start.get key = some value := by
  obtain ⟨log,books,asked⟩ := halfway
  rcases books.agrees.source key with same | ⟨_,none⟩ | ⟨other,put,_⟩
  · exact same.symm.trans found
  · cases none.symm.trans found
  · exact absurd put (asked.unseen past other)

section

variable (books : Books start log log.dels world) (asked : Asked settings start last log)
include books asked

theorem family_source (worker : WorkerBase settings base) (member : key ∈ family base) :
    (∀ value, (key,value) ∉ log.puts) ∧
      (world.db.get key = start.get key ∨ key ∈ log.dels ∧ world.db.get key = none) := by
  have free : ∀ value, (key,value) ∉ log.puts := by
    intro value put
    rcases (asked.puts key value put).2.2 with identifiers | reset
    · exact family_not_identifiers worker member identifiers
    · exact reset_not_family reset worker member
  refine ⟨free,?_⟩
  rcases books.agrees.source key with same | deleted | ⟨value,put,_⟩
  · exact .inl same
  · exact .inr deleted
  · exact absurd put (free value)

theorem complete_iff (worker : WorkerBase settings base) : Complete settings world.db base ↔
    Complete settings start base := by
  have among : ∀ key ∈ family base, world.db.get key = start.get key ∨ key ∈ log.dels ∧ world.db.get key = none :=
    fun key member => (family_source books asked worker member).2
  have same : (∀ key ∈ family base, world.db.get key = start.get key) →
      (Complete settings world.db base ↔ Complete settings start base) := by
    intro same
    have read : ∀ key ∈ family base, getCache world.db key = getCache start key := fun key member => by
      rw [getCache,same key member,getCache]
    have data := read ⟨base⟩ (by simp [family])
    have history := read (historyKey base) (by simp [family])
    have stats := read (statsKey base) (by simp [family])
    constructor
    · intro complete
      exact ⟨data ▸ complete.data,history ▸ complete.history,stats ▸ complete.stats,stats ▸ complete.recent⟩
    · intro complete
      exact ⟨data ▸ complete.data,history ▸ complete.history,stats ▸ complete.stats,stats ▸ complete.recent⟩
  by_cases complete : Complete settings start base
  · refine same fun key member => (among key member).resolve_right fun deleted => ?_
    rcases asked.dels key deleted.1 with ⟨identifiers,_⟩ | doomed
    · exact family_not_identifiers worker member identifiers
    · exact doomed_family worker member doomed complete
  · refine iff_of_false (fun whole => complete ((same fun key member => ?_).mp whole)) complete
    refine (among key member).resolve_right fun deleted => ?_
    have there : (world.db.get key).isSome := by
      rcases mem_family.mp member with rfl | rfl | rfl
      · exact truthy_getCache whole.data
      · exact truthy_getCache whole.history
      · exact truthy_getCache whole.stats
    rw [deleted.2] at there
    cases there

theorem account_reads (unnamed : underscore ∉ base) :
    truthy (getCache world.db (statsKey base)) = truthy (getCache start (statsKey base)) ∧
    getLastHashMs (getCache world.db (statsKey base)) = getLastHashMs (getCache start (statsKey base)) := by
  have kept : statsKey base ∉ log.dels := by
    intro deleted
    rcases asked.dels _ deleted with ⟨identifiers,_⟩ | ⟨other,worker,member,_⟩ | ⟨other,_,same⟩
    · exact not_isIdentifiers_statsKey identifiers
    · cases (statsKey_mem_family worker.plain).mp member
      exact unnamed worker.named
    · exact historyKey_ne_statsKey same.symm
  rcases books.agrees.source (statsKey base) with same | ⟨deleted,_⟩ | ⟨value,put,found⟩
  · change world.db.get (statsKey base) = _ at same
    rw [getCache,getCache,same]
    exact ⟨rfl,rfl⟩
  · exact absurd deleted kept
  · rcases (asked.puts _ value put).2.2 with identifiers | ⟨_,data,_,_,_,there,reset⟩
    · exact absurd identifiers not_isIdentifiers_statsKey
    · change world.db.get (statsKey base) = _ at found
      rw [getCache,getCache,found,there]
      exact accountReset_reads reset

end

end Halfway

section Steps

variable {settings : Settings} {batchSize : ℕ} {start : CacheDb} {log : Log CacheKey Cached}
  {last : Option CacheKey} {world : World} {key : CacheKey} {data : Cached} {base : Text} {next : Log CacheKey Cached}

structure Visited (settings : Settings) (start : CacheDb) (log : Log CacheKey Cached) (key : CacheKey)
    (world after : World) : Prop where
  exists_log : ∃ next dels puts, Books start next next.dels after ∧ Grows next world after ∧
    Extends log next dels puts ∧
    (∀ other ∈ dels, (IsIdentifiers other ∧ other = key) ∨ Doomed settings start other) ∧
    (∀ base, WorkerBase settings base → ∀ other ∈ family base, other ∈ dels → ∀ member ∈ family base, member ∈ dels) ∧
    (∀ other value, (other,value) ∈ puts → other = key ∧ (IsIdentifiers other ∨ Reset settings start other value)) ∧
    (key ∉ next.dels → Done settings start next key)

theorem visited_keep (books : Books start log log.dels world) (done : Done settings start log key) :
    Visited settings start log key world world :=
  ⟨log,[],[],books,fun _ there => .inl there,⟨by simp,by simp⟩,by simp,by simp,by simp,fun _ => done⟩

theorem visited_family (books : Books start log log.dels world) (asked : Asked settings start last log)
    (worker : WorkerBase settings base) (lacking : ¬ Complete settings start base) (member : key ∈ family base) :
    Visited settings start log key world (perform batchSize (.family base) world) := by
  obtain ⟨next,after,widens,grows⟩ := family_books batchSize books (ne_nil_of_mem worker.named)
    fun key member => (family_source books asked worker member).1
  refine ⟨next,family base,[],after,grows,widens,fun other among => .inr (.inl ⟨base,worker,among,lacking⟩),?_,
    fun _ _ none => absurd none not_mem_nil,fun kept => absurd ((widens.dels key).mpr (.inr member)) kept⟩
  intro other also some here there
  cases family_unique worker also there here
  exact fun member among => among

theorem visited_history (books : Books start log log.dels world) (asked : Asked settings start last log)
    (stale : StaleAccount settings start base) :
    Visited settings start log (historyKey base) world (perform batchSize (.accountHistory base) world) := by
  have free : ∀ value, (historyKey base,value) ∉ log.puts := by
    intro value put
    rcases (asked.puts _ value put).2.2 with identifiers | ⟨_,_,_,same,_⟩
    · exact not_isIdentifiers_historyKey identifiers
    · exact historyKey_ne_statsKey same
  obtain ⟨next,after,widens,grows⟩ := history_books batchSize books stale.some free
  refine ⟨next,[historyKey base],[],after,grows,widens,fun other among => ?_,fun other worker key member here => ?_,
    fun _ _ none => absurd none not_mem_nil,fun kept => absurd ((widens.dels _).mpr (.inr (by simp))) kept⟩
  · exact .inr (.inr ⟨base,stale,mem_singleton.mp among⟩)
  · cases mem_singleton.mp here
    cases (historyKey_mem_family worker.plain).mp member
    exact absurd worker.named stale.unnamed

private theorem done_of_identifiers (same : IsIdentifiers key) : Done settings start log key where
  worker _ worker member := absurd same (family_not_identifiers worker member)
  account _ _ history := not_isIdentifiers_historyKey (history ▸ same)
  reset _ reset := absurd same (reset_not_identifiers reset)

theorem visited_update {value : Cached} (books : Books start log log.dels world) (asked : Asked settings start last log)
    (past : beyond false last key = true) (kept : key ∉ log.dels)
    (update : IsIdentifiers key ∨ Reset settings start key value)
    (only : ∀ other, Reset settings start key other → other = value)
    (rest : ∀ next : Log CacheKey Cached, (∀ other, Reset settings start key other → (key,other) ∈ next.puts) →
      Done settings start next key) :
    Visited settings start log key world (perform batchSize (.update key value) world) := by
  obtain ⟨after,grows⟩ := queueUpdate_books batchSize value books kept (asked.unseen past)
  refine ⟨_,[],[(key,value)],after,grows,⟨by simp,fun entry => ?_⟩,by simp,by simp,fun other found member => ?_,
    fun _ => rest _ fun other reset => ?_⟩
  · rw [mem_cons,mem_singleton,or_comm]
  · cases mem_singleton.mp member
    exact ⟨rfl,update⟩
  · rw [only other reset]
    exact mem_cons_self

theorem visited_identifiers (books : Books start log log.dels world) (asked : Asked settings start last log)
    (past : beyond false last key = true) (same : IsIdentifiers key) : Visited settings start log key world
      (perform batchSize (identifierRequest settings world.db key data) world) := by
  have kept : key ∉ log.dels := by
    intro deleted
    rcases asked.dels key deleted with ⟨_,seen⟩ | doomed
    · rw [past] at seen
      cases seen
    · exact doomed_not_identifiers doomed same
  unfold identifierRequest
  split
  · dsimp only
    split
    · exact visited_keep books (done_of_identifiers same)
    · split
      · obtain ⟨after,grows⟩ := queueDelete_books batchSize books (asked.unseen past)
        refine ⟨_,[key],[],after.widen fun other member => mem_cons_of_mem _ member,grows,
          ⟨fun other => ?_,by simp⟩,
          fun other among => ?_,fun base worker other member among => ?_,by simp,fun _ => done_of_identifiers same⟩
        · rw [mem_cons,mem_singleton,or_comm]
        · cases mem_singleton.mp among
          exact .inl ⟨same,rfl⟩
        · cases mem_singleton.mp among
          exact absurd same (family_not_identifiers worker member)
      · exact visited_update books asked past kept (.inl same)
          (fun other reset => absurd same (reset_not_identifiers reset)) fun next _ => done_of_identifiers same
  · exact visited_keep books (done_of_identifiers same)

theorem done_history
    (worker : WorkerBase settings base → start.get (statsKey base) = none → Complete settings start base)
    (account : ¬ StaleAccount settings start base) : Done settings start next (historyKey base) where
  worker other also member decides := by
    cases (historyKey_mem_family also.plain).mp member
    exact worker also (decides.resolve_left historyKey_ne_statsKey)
  account other stale same := by
    cases historyKey_inj.mp same
    exact account stale
  reset _ reset := by
    obtain ⟨_,_,_,same,_⟩ := reset
    exact absurd same historyKey_ne_statsKey

theorem done_stats (worker : WorkerBase settings base → Complete settings start base)
    (reset : ∀ value, Reset settings start (statsKey base) value → (statsKey base,value) ∈ next.puts) :
    Done settings start next (statsKey base) where
  worker other also member _ := by
    cases (statsKey_mem_family also.plain).mp member
    exact worker also
  account _ _ same := historyKey_ne_statsKey same.symm
  reset := reset

theorem done_plain (plain : ¬ Prefixed key.units)
    (worker : WorkerBase settings key.units → start.get (statsKey key.units) = none →
      Complete settings start key.units) :
    Done settings start next key where
  worker other also member decides := by
    cases (mk_mem_family plain).mp member
    refine worker also (decides.resolve_left fun same => plain ?_)
    rw [same]
    exact prefixed_statsKey
  account _ _ same := plain (by rw [same]; exact prefixed_historyKey)
  reset _ reset := by
    obtain ⟨_,_,_,same,_⟩ := reset
    exact absurd (by rw [same]; exact prefixed_statsKey) plain

variable (books : Books start log log.dels world) (asked : Asked settings start last log)

include books asked

theorem visited_worker (worker : WorkerBase settings base) (member : key ∈ family base) (parts : List CacheKey)
    (among : ∀ part ∈ parts, part = ⟨base⟩ ∨ part = historyKey base)
    (done : (start.get (statsKey base)).isSome → (⟨base⟩ ∈ parts → historyKey base ∈ parts →
      Complete settings start base) → Done settings start log key) :
    Visited settings start log key world (perform batchSize (familyRequest settings world.db base parts) world) := by
  rcases familyRequest_spec settings world.db parts among with
    ⟨request,lacking⟩ | ⟨request,there,whole⟩
  · rw [request]
    exact visited_family books asked worker (fun complete => lacking ((complete_iff books asked worker).mpr complete))
      member
  · rw [request]
    refine visited_keep books (done ?_ fun one two => (complete_iff books asked worker).mp (whole one two))
    rcases (family_source books asked worker (by simp [family] : statsKey base ∈ family base)).2 with same | ⟨_,none⟩
    · exact same ▸ there
    · rw [none] at there
      cases there

theorem visited_stats (plain : Plain start) (past : beyond false last (statsKey base) = true)
    (found : start.get (statsKey base) = some data) (long : settings.minKeyLength ≤ (statsKey base).units.length) :
    Visited settings start log (statsKey base) world
      (perform batchSize (statsRequest settings world.db base data) world) := by
  unfold statsRequest
  by_cases unnamed : underscore ∉ base
  · rw [if_pos unnamed]
    have single : ∀ other, Reset settings start (statsKey base) other ↔ accountReset settings data = some other := by
      intro other
      constructor
      · intro reset
        obtain ⟨_,again,_,_,_,there,reset⟩ := reset
        cases found.symm.trans there
        exact reset
      · intro reset
        exact ⟨base,data,unnamed,rfl,long,found,reset⟩
    have worker : WorkerBase settings base → Complete settings start base := fun worker => absurd worker.named unnamed
    cases reset : accountReset settings data with
    | none =>
      refine visited_keep books (done_stats worker fun other wanted => ?_)
      cases reset.symm.trans ((single other).mp wanted)
    | some value =>
      refine visited_update books asked past (fun deleted => ?_) (.inr ((single value).mpr reset))
        (fun other wanted => (Option.some.inj (reset.symm.trans ((single other).mp wanted))).symm)
        fun next all => done_stats worker all
      rcases asked.dels _ deleted with ⟨identifiers,_⟩ | doomed
      · exact not_isIdentifiers_statsKey identifiers
      · exact doomed_not_reset doomed ((single value).mpr reset)
  · rw [if_neg unnamed]
    rw [not_not] at unnamed
    have noReset : ∀ next : Log CacheKey Cached, ∀ value, Reset settings start (statsKey base) value →
        (statsKey base,value) ∈ next.puts := by
      intro next value reset
      obtain ⟨other,_,apart,same,_⟩ := reset
      cases statsKey_inj.mp same
      exact absurd unnamed apart
    split
    next short =>
      refine visited_keep books (done_stats (fun worker => ?_) (noReset log))
      rcases short with none | short
      · exact absurd unnamed (none ▸ not_mem_nil)
      · exact absurd worker.long (not_le.mpr short)
    next whole =>
      have worker : WorkerBase settings base :=
        ⟨unnamed,not_lt.mp (not_or.mp whole).2,plain base unnamed (.inr (by rw [found]; rfl))⟩
      refine visited_worker books asked worker (by simp [family]) [⟨base⟩,historyKey base] (by simp) fun _ complete =>
        ?_
      exact done_stats (fun _ => complete (by simp) (by simp)) (noReset log)

private theorem visited_historyKey (plain : Plain start) (found : start.get (historyKey base) = some data) :
    Visited settings start log (historyKey base) world
      (perform batchSize (historyRequest settings world.db base) world) := by
  unfold historyRequest
  split
  next short =>
    refine visited_keep books (done_history (fun worker _ => ?_) fun stale => ?_)
    · rcases short with none | short
      · exact absurd worker.named (none ▸ not_mem_nil)
      · exact absurd worker.long (not_le.mpr short)
    · rcases short with none | short
      · exact stale.some none
      · exact absurd stale.long (not_le.mpr short)
  next whole =>
  obtain ⟨some,long⟩ := not_or.mp whole
  rw [not_lt] at long
  split
  next unnamed =>
    obtain ⟨there,lastHash⟩ := account_reads books asked unnamed
    dsimp only
    rw [there,lastHash]
    split
    next old =>
      refine visited_history books asked ⟨unnamed,some,long,?_⟩
      simpa using old
    next recent =>
      refine visited_keep books (done_history (fun worker _ => absurd worker.named unnamed) fun stale => recent ?_)
      simpa using stale.stale
  next named =>
    rw [not_not] at named
    have worker : WorkerBase settings base := ⟨named,long,plain base named (.inl (by rw [found]; rfl))⟩
    refine visited_worker books asked worker (by simp [family]) [⟨base⟩] (by simp) fun stats _ => ?_
    refine done_history (fun _ none => ?_) fun stale => stale.unnamed named
    rw [none] at stats
    cases stats

private theorem visitKey_visited (plain : Plain start) (past : beyond false last key = true)
    (found : start.get key = some data) :
    Visited settings start log key world (visitKey settings batchSize key data world) := by
  cases kind settings key with
  | skipped short =>
    have apart : ∀ {units : Text}, units ≠ [] → settings.minKeyLength ≤ units.length → key.units ≠ units := by
      intro units some long same
      rcases short with none | less
      · exact some (same.symm.trans none)
      · exact absurd long (not_le.mpr (same ▸ less))
    rw [visitKey_skipped short]
    refine visited_keep books ⟨fun base worker member => ?_,fun base stale same => ?_,fun value reset => ?_⟩
    · obtain ⟨some,long⟩ := family_long worker member
      exact absurd rfl (apart some long)
    · refine absurd (congrArg CacheKey.units same) (apart (by simp [historyKey,historyPrefix]) ?_)
      rw [historyKey,length_append]
      exact le_trans stale.long (Nat.le_add_left _ _)
    · obtain ⟨base,_,_,same,long,_⟩ := reset
      exact absurd (congrArg CacheKey.units same) (apart (by simp [statsKey,statsPrefix]) (same ▸ long))
  | identifiers long same =>
    rw [visitKey_identifiers long same]
    exact visited_identifiers books asked past same
  | history base long same =>
    cases same
    rw [visitKey_history long]
    exact visited_historyKey books asked plain found
  | stats base long same =>
    cases same
    rw [visitKey_stats long]
    exact visited_stats books asked plain past found long
  | account unnamed plainKey =>
    rw [visitKey_plain plainKey,if_pos (.inr (.inr unnamed))]
    exact visited_keep books (done_plain plainKey fun worker _ => absurd worker.named unnamed)
  | worker base worker same =>
    cases same
    rw [visitKey_plain worker.plain]
    split
    next off =>
      rcases off with none | short | unnamed
      · obtain rfl : base = [] := none
        exact absurd worker.named not_mem_nil
      · exact absurd worker.long (not_le.mpr short)
      · exact absurd worker.named unnamed
    · refine visited_worker books asked worker (by simp [family]) [historyKey base] (by simp) fun stats _ => ?_
      refine done_plain worker.plain fun _ none => ?_
      rw [none] at stats
      cases stats

end Steps

section Cleaned

variable {settings : Settings} {batchSize : ℕ} {start final : CacheDb} {log : Log CacheKey Cached}
  {last stop : Option CacheKey} {world : World} {key : CacheKey} {data : Cached} {base : Text}

theorem visit_rule (settings : Settings) (batchSize : ℕ) (plain : Plain start) :
    Rule (visitKey settings batchSize) World.db false (Halfway settings start) fun key data => start.get key =
      some data where
  told last world key data halfway past found := halfway.ahead past found
  kept last world key data halfway past found between := by
    obtain ⟨log,books,asked⟩ := halfway
    obtain ⟨next,dels,puts,after,grows,widens,newDels,newFamilies,newPuts,done⟩ :=
      (visitKey_visited books asked plain past found).exists_log
    have seen : ∀ other, beyond false last other = false → beyond false (some key) other = false := by
      intro other before
      rw [Bool.eq_false_iff]
      intro later
      rw [beyond_trans past later] at before
      cases before
    refine ⟨⟨next,after,⟨fun other deleted => ?_,fun other value put => ?_,fun base worker other member deleted => ?_,
      fun other there before kept => ?_⟩⟩,fun other far there => ?_⟩
    · rcases (widens.dels other).mp deleted with old | new
      · exact (asked.dels other old).imp (fun both => ⟨both.1,seen other both.2⟩) id
      · rcases newDels other new with ⟨identifiers,rfl⟩ | doomed
        · exact .inl ⟨identifiers,beyond_irrefl other⟩
        · exact .inr doomed
    · rcases (widens.puts _).mp put with old | new
      · obtain ⟨before,there,kind⟩ := asked.puts other value old
        exact ⟨seen other before,there,kind⟩
      · obtain ⟨rfl,kind⟩ := newPuts other value new
        exact ⟨beyond_irrefl other,by rw [found]; rfl,kind⟩
    · intro one among
      rcases (widens.dels other).mp deleted with old | new
      · exact (widens.dels one).mpr (.inl (asked.families base worker other member old one among))
      · exact (widens.dels one).mpr (.inr (newFamilies base worker other member new one among))
    · have stays : other ∉ log.dels := fun old => kept ((widens.dels other).mpr (.inl old))
      have here := books.there there stays
      rcases (seen_next past fun far => between other here far).mp before with before | rfl
      · have shown := asked.done other there before stays
        exact ⟨shown.worker,shown.account,fun value reset => (widens.puts _).mpr (.inl (shown.reset value reset))⟩
      · exact done kept
    · rcases grows other there with before | ⟨value,put⟩
      · exact before
      · rcases (widens.puts _).mp put with old | new
        · exact absurd old (asked.unseen (beyond_trans past far) value)
        · rw [(newPuts other value new).1,beyond_irrefl] at far
          cases far

/-- What a cleanup leaves, but for the lists of identifiers: what one look at the database tells. -/
structure Cleaned (settings : Settings) (start final : CacheDb) : Prop where
  doomed : ∀ key, Doomed settings start key → final.get key = none
  reset : ∀ key value, Reset settings start key value → final.get key = some value
  kept : ∀ key, ¬ IsIdentifiers key → ¬ Doomed settings start key → (∀ value, ¬ Reset settings start key value) →
    final.get key = start.get key

private theorem cleaned_of_halfway (halfway : Halfway settings start stop world)
    (none : ∀ other, (world.db.get other).isSome → beyond false stop other = false) :
    Cleaned settings start (flush world).db := by
  obtain ⟨log,books,asked⟩ := halfway
  have shown : ∀ key, (start.get key).isSome → key ∉ log.dels → Done settings start log key := fun key there kept =>
    asked.done key there (none key (books.there there kept)) kept
  have sure : ∀ key, Doomed settings start key → (start.get key).isSome → key ∈ log.dels := by
    intro key doomed there
    by_contra kept
    rcases doomed with ⟨base,worker,member,lacking⟩ | ⟨base,stale,same⟩
    · cases stats : start.get (statsKey base) with
      | none => exact lacking ((shown key there kept).worker base worker member (.inr stats))
      | some value =>
        have among : statsKey base ∈ family base := by simp [family]
        have stays : statsKey base ∉ log.dels := fun deleted =>
          kept (asked.families base worker _ among deleted key member)
        exact lacking ((shown _ (by rw [stats]; rfl) stays).worker base worker among (.inl rfl))
    · exact (shown key there kept).account base stale same
  change Cleaned settings start world.batch.flush.db
  refine ⟨fun key doomed => ?_,fun key value reset => ?_,fun key plain spared stays => ?_⟩
  · cases there : start.get key with
    | some value => exact flush_deleted books.sound books.agrees (sure key doomed (by rw [there]; rfl))
    | none =>
      by_cases deleted : key ∈ log.dels
      · exact flush_deleted books.sound books.agrees deleted
      · rw [flush_untouched books.agrees deleted fun value put => ?_,there]
        have some := (asked.puts key value put).2.1
        rw [there] at some
        cases some
  · have there : (start.get key).isSome := by
      obtain ⟨_,data,_,_,_,there,_⟩ := reset
      rw [there]
      rfl
    refine flush_put books.sound books.agrees ((shown key there fun deleted => ?_).reset value reset)
    rcases asked.dels key deleted with ⟨identifiers,_⟩ | doomed
    · exact reset_not_identifiers reset identifiers
    · exact doomed_not_reset doomed reset
  · refine flush_untouched books.agrees (fun deleted => ?_) fun value put => ?_
    · rcases asked.dels key deleted with ⟨identifiers,_⟩ | doomed
      · exact plain identifiers
      · exact spared doomed
    · rcases (asked.puts key value put).2.2 with identifiers | reset
      · exact plain identifiers
      · exact stays value reset

variable (settings) in
theorem cleanCacheDB_cleaned {chunkSize fuel : ℕ} (batchSize : ℕ) (plain : Plain start) (some : 0 < chunkSize)
    (enough : start.entries.length < fuel) :
    ∃ final, cleanCacheDB settings chunkSize batchSize fuel start = Option.some final ∧
      Cleaned settings start final := by
  have begun : Halfway settings start none ⟨start,[],[],[],[],[]⟩ := by
    refine ⟨⟨[],[]⟩,⟨⟨fun _ none => absurd none not_mem_nil,fun _ _ _ none => absurd none not_mem_nil⟩,
      agrees_start start,fun _ none => none,fun _ none => absurd none not_mem_nil,
      fun _ none => absurd none not_mem_nil⟩,?_⟩
    exact ⟨fun _ none => absurd none not_mem_nil,fun _ _ none => absurd none not_mem_nil,
      fun _ _ _ _ none => absurd none not_mem_nil,fun _ _ seen => by cases seen⟩
  have length : (remaining false none start).length < fuel := by
    refine lt_of_le_of_lt (length_filter_le _ _) ?_
    simpa [ordered] using enough
  obtain ⟨world,stop,ran,halfway,none⟩ := (visit_rule settings batchSize plain).scan some begun length
  exact ⟨_,by rw [cleanCacheDB,ran]; rfl,cleaned_of_halfway halfway none⟩

theorem Cleaned.same {other : CacheDb} (one : Cleaned settings start final) (two : Cleaned settings start other)
    (plain : ¬ IsIdentifiers key) : final.get key = other.get key := by
  by_cases doomed : Doomed settings start key
  · rw [one.doomed key doomed,two.doomed key doomed]
  by_cases reset : ∃ value, Reset settings start key value
  · obtain ⟨value,reset⟩ := reset
    rw [one.reset key value reset,two.reset key value reset]
  · have stays : ∀ value, ¬ Reset settings start key value := fun value found => reset ⟨value,found⟩
    rw [one.kept key plain doomed stays,two.kept key plain doomed stays]

theorem Cleaned.family (cleaned : Cleaned settings start final) (worker : WorkerBase settings base) :
    Complete settings final base ∨ ∀ key ∈ family base, final.get key = none := by
  by_cases complete : Complete settings start base
  · have read : ∀ key ∈ CacheCleanup.family base, getCache final key = getCache start key := by
      intro key member
      rw [getCache,cleaned.kept key (family_not_identifiers worker member)
        (fun doomed => doomed_family worker member doomed complete)
        (fun value reset => reset_not_family reset worker member),getCache]
    have data := read ⟨base⟩ (by simp [CacheCleanup.family])
    have history := read (historyKey base) (by simp [CacheCleanup.family])
    have stats := read (statsKey base) (by simp [CacheCleanup.family])
    exact .inl ⟨data ▸ complete.data,history ▸ complete.history,stats ▸ complete.stats,stats ▸ complete.recent⟩
  · exact .inr fun key member => cleaned.doomed key (.inl ⟨base,worker,member,complete⟩)

end Cleaned

end NodejsPool.LongRunner.CacheRuns
