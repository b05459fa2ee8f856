import NodejsPool.RemoteShare.ShareStore

/-! How a batch is split does not matter: what its parts gather adds up, and a batch is
written as a whole or not at all. -/
namespace NodejsPool.RemoteShare.ShareStore
open Async Arithmetic Function List

section Counters

variable {updates : CacheUpdates}

inductive Counter where
  | totalHashes
  | goodShares
  | roundHashes
  deriving DecidableEq

def CacheEntry.counts (entry : CacheEntry) : Counter → ℚ
  | .totalHashes => entry.totalHashes.getD 0
  | .goodShares => entry.goodShares.getD 0
  | .roundHashes => (entry.roundHashes.map RoundHashes.value).getD 0

def entryAt (updates : CacheUpdates) (key : String) : Option CacheEntry :=
  (updates.find? fun entry => entry.1 = key).map Prod.snd

def countsAt (updates : CacheUpdates) (key : String) : Counter → ℚ :=
  ((entryAt updates key).map CacheEntry.counts).getD 0

def Adding (change : CacheEntry → CacheEntry) (counts : Counter → ℚ) : Prop :=
  ∀ entry, (change entry).counts = entry.counts + counts

theorem adding_totalHashes (value : ℚ) : Adding (addTotalHashes value) (update 0 .totalHashes value) := by
  intro entry
  funext counter
  cases counter <;> simp [addTotalHashes,CacheEntry.counts,update]

theorem adding_goodShares (value : ℚ) : Adding (addGoodShares value) (update 0 .goodShares value) := by
  intro entry
  funext counter
  cases counter <;> simp [addGoodShares,CacheEntry.counts,update]

theorem adding_roundHashes (value : ℚ) : Adding (addRoundHashes value) (update 0 .roundHashes value) := by
  intro entry
  funext counter
  cases counter <;> simp [addRoundHashes,CacheEntry.counts,RoundHashes.value,update]

theorem counts_statsEntry : statsEntry.counts = 0 := by
  funext counter
  cases counter <;> rfl

theorem counts_minerEntry : minerEntry.counts = 0 := by
  funext counter
  cases counter <;> rfl

def keysOf (updates : CacheUpdates) : List String := updates.map Prod.fst

theorem entryAt_isSome {key : String} : (entryAt updates key).isSome ↔ key ∈ keysOf updates := by
  simp [entryAt,keysOf]

theorem entryAt_absent {key : String} (absent : key ∉ keysOf updates) : entryAt updates key = none := by
  rw [← entryAt_isSome] at absent
  simpa using absent

theorem entryAt_ensure (updates : CacheUpdates) (key : String) (factory : CacheEntry) (other : String) :
    entryAt (ensureCacheEntry updates key factory) other =
      if other = key then some ((entryAt updates key).getD factory) else entryAt updates other := by
  unfold ensureCacheEntry
  split
  next present =>
    split
    next same =>
      subst same
      obtain ⟨entry,found⟩ := Option.isSome_iff_exists.mp (entryAt_isSome.mpr present)
      rw [found]
      rfl
    · rfl
  next absent =>
    split
    next same =>
      subst same
      have nothing : entryAt updates other = none := entryAt_absent absent
      rw [nothing]
      unfold entryAt at nothing ⊢
      rw [find?_append,Option.map_eq_none_iff.mp nothing]
      simp
    next distinct =>
      unfold entryAt
      rw [find?_append]
      simp [Ne.symm distinct]

theorem entryAt_change (updates : CacheUpdates) (key : String) (change : CacheEntry → CacheEntry) (other : String) :
    entryAt (changeCacheEntry updates key change) other =
      if other = key then (entryAt updates key).map change else entryAt updates other := by
  induction updates with
  | nil => simp [entryAt,changeCacheEntry]
  | cons entry updates ih =>
    simp only [entryAt,changeCacheEntry,map_cons,find?_cons] at ih ⊢
    by_cases here : entry.1 = other <;> by_cases same : other = key <;> by_cases both : entry.1 = key <;>
      simp_all

theorem keys_ensure (updates : CacheUpdates) (key : String) (factory : CacheEntry) (other : String) :
    other ∈ keysOf (ensureCacheEntry updates key factory) ↔ other = key ∨ other ∈ keysOf updates := by
  rw [← entryAt_isSome,← entryAt_isSome,entryAt_ensure]
  split <;> simp [*]

theorem keys_change (updates : CacheUpdates) (key : String) (change : CacheEntry → CacheEntry) :
    keysOf (changeCacheEntry updates key change) = keysOf updates := by
  unfold keysOf changeCacheEntry
  rw [map_map]
  apply map_congr_left
  intro entry _
  simp only [comp_apply]
  split <;> rfl

end Counters

section Gathering

variable {old gathered total : CacheUpdates} {updates : CacheUpdates} {factory : CacheEntry}

/-- `total` is `old` with `gathered` added to it. -/
structure Gathers (old gathered total : CacheUpdates) : Prop where
  keys : ∀ key, key ∈ keysOf total ↔ key ∈ keysOf old ∨ key ∈ keysOf gathered
  counts : ∀ key, countsAt total key = countsAt old key + countsAt gathered key

theorem countsAt_ensure (empty : factory.counts = 0) (key : String) :
    countsAt (ensureCacheEntry updates key factory) = countsAt updates := by
  funext other
  simp only [countsAt,entryAt_ensure]
  split
  next same =>
    subst same
    cases entryAt updates other with
    | none => exact empty
    | some entry => rfl
  · rfl

theorem countsAt_change {change : CacheEntry → CacheEntry} {counts : Counter → ℚ}
    (adding : Adding change counts) {key : String} (present : key ∈ keysOf updates) (other : String) :
    countsAt (changeCacheEntry updates key change) other =
      countsAt updates other + if other = key then counts else 0 := by
  simp only [countsAt,entryAt_change]
  split
  next same =>
    subst same
    obtain ⟨entry,found⟩ := Option.isSome_iff_exists.mp (entryAt_isSome.mpr present)
    rw [found]
    exact adding entry
  · rw [add_zero]

theorem Gathers.ensure (gathers : Gathers old gathered total) (key : String) (empty : factory.counts = 0) :
    Gathers old (ensureCacheEntry gathered key factory) (ensureCacheEntry total key factory) := by
  constructor
  · intro other
    rw [keys_ensure,keys_ensure,gathers.keys]
    exact or_left_comm
  · rw [countsAt_ensure empty,countsAt_ensure empty]
    exact gathers.counts

theorem Gathers.change (gathers : Gathers old gathered total) (key : String) {change : CacheEntry → CacheEntry}
    {counts : Counter → ℚ} (adding : Adding change counts) (present : key ∈ keysOf gathered) :
    Gathers old (changeCacheEntry gathered key change) (changeCacheEntry total key change) := by
  constructor
  · intro other
    rw [keys_change,keys_change,gathers.keys]
  · intro other
    rw [countsAt_change adding present,countsAt_change adding ((gathers.keys key).mpr (.inr present)),gathers.counts,
      add_assoc]

theorem Gathers.hashes (gathers : Gathers old gathered total) (key : String) (present : key ∈ keysOf gathered)
    (value : ℚ) : Gathers old (addHashes gathered key value) (addHashes total key value) := by
  apply (gathers.change key (adding_totalHashes value) present).change key (adding_roundHashes value)
  rw [keys_change]
  exact present

theorem Gathers.shares (gathers : Gathers old gathered total) (key : String) (present : key ∈ keysOf gathered)
    (share : Share) : Gathers old (addShares gathered key share) (addShares total key share) := by
  apply (gathers.change key (adding_totalHashes share.raw_shares) present).change key
    (adding_goodShares (shareNumber share))
  rw [keys_change]
  exact present

theorem keys_hashes [Arithmetic] (updates : CacheUpdates) (key : String) (value : ℚ) :
    keysOf (addHashes updates key value) = keysOf updates := by
  rw [addHashes,keys_change,keys_change]

theorem keys_shares [Arithmetic] (updates : CacheUpdates) (key : String) (share : Share) :
    keysOf (addShares updates key share) = keysOf updates := by
  rw [addShares,keys_change,keys_change]

def shareKeys (share : Share) : List String := [globalStatsKey,getMinerId share,minerWorkerID share,statsTypeKey share]

theorem keys_entries (updates : CacheUpdates) (share : Share) (key : String) :
    key ∈ keysOf (ensureShareEntries updates share) ↔ key ∈ shareKeys share ∨ key ∈ keysOf updates := by
  simp only [ensureShareEntries,keys_ensure,shareKeys,mem_cons,not_mem_nil]
  tauto

theorem Gathers.entries (gathers : Gathers old gathered total) (share : Share) :
    Gathers old (ensureShareEntries gathered share) (ensureShareEntries total share) := by
  have stats := gathers.ensure globalStatsKey counts_statsEntry
  have miner := stats.ensure (getMinerId share) counts_minerEntry
  have worker := miner.ensure (minerWorkerID share) counts_minerEntry
  exact worker.ensure (statsTypeKey share) counts_statsEntry

theorem keys_port [Arithmetic] (updates : CacheUpdates) (share : Share) (portSuffix : String) (key : String) :
    key ∈ keysOf (addPortHashes updates share portSuffix) ↔
      key = statsTypeKey share ++ portSuffix ∨ key = globalStatsKey ++ portSuffix ∨ key ∈ keysOf updates := by
  simp only [addPortHashes,keys_hashes,keys_change,keys_ensure]

theorem Gathers.port (gathers : Gathers old gathered total) (share : Share)
    (present : ∀ key ∈ shareKeys share, key ∈ keysOf gathered) (portSuffix : String) :
    Gathers old (addPortHashes gathered share portSuffix) (addPortHashes total share portSuffix) := by
  have here : globalStatsKey ∈ keysOf gathered := present _ (by simp [shareKeys])
  have type : statsTypeKey share ∈ keysOf gathered := present _ (by simp [shareKeys])
  have adding := adding_totalHashes share.raw_shares
  have first := gathers.ensure (globalStatsKey ++ portSuffix) counts_statsEntry
  have second := first.ensure (statsTypeKey share ++ portSuffix) counts_statsEntry
  have all := second.change globalStatsKey adding (by simp [keys_ensure,here])
  have allPort := all.hashes (globalStatsKey ++ portSuffix) (by simp [keys_change,keys_ensure]) share.raw_shares
  have own := allPort.change (statsTypeKey share) adding (by simp [keys_hashes,keys_change,keys_ensure,type])
  exact own.hashes _ (by simp [keys_hashes,keys_change,keys_ensure]) share.raw_shares

theorem Gathers.share (gathers : Gathers old gathered total) (settings : Settings) (share : Share) :
    Gathers old (applyShareCacheUpdates settings gathered share) (applyShareCacheUpdates settings total share) := by
  have entries := gathers.entries share
  have present (key : String) (member : key ∈ shareKeys share) : key ∈ keysOf (ensureShareEntries gathered share) :=
    (keys_entries gathered share key).mpr (.inl member)
  have types := present (statsTypeKey share) (by simp [shareKeys])
  have miner := present (getMinerId share) (by simp [shareKeys])
  have worker := present (minerWorkerID share) (by simp [shareKeys])
  simp only [applyShareCacheUpdates]
  split
  · have stats := entries.hashes globalStatsKey (present globalStatsKey (by simp [shareKeys])) share.raw_shares
    have own := stats.hashes (statsTypeKey share) (by simp [keys_hashes,types]) share.raw_shares
    have port := own.port share (by simpa only [keys_hashes] using present)
      ("_" ++ toString (defaultStatsPort settings))
    apply (port.shares (getMinerId share) (by simp [keys_port,keys_hashes,miner]) share).shares
    simp [keys_shares,keys_port,keys_hashes,worker]
  · have port := entries.port share present (sharePortSuffix settings share)
    apply (port.shares (getMinerId share) (by simp [keys_port,miner]) share).shares
    simp [keys_shares,keys_port,worker]

theorem Gathers.batch (gathers : Gathers old gathered total) (settings : Settings) (shares : List Share) :
    Gathers old (shares.foldl (applyShareCacheUpdates settings) gathered)
      (shares.foldl (applyShareCacheUpdates settings) total) := by
  induction shares generalizing gathered total with
  | nil => exact gathers
  | cons share shares ih => exact ih (gathers.share settings share)

theorem countsAt_start (key : String) : countsAt [(globalStatsKey,statsEntry)] key = 0 := by
  unfold countsAt entryAt
  by_cases here : globalStatsKey = key <;> simp [here,counts_statsEntry]

private theorem global_touched (settings : Settings) (shares : List Share) :
    globalStatsKey ∈ keysOf (batchUpdates settings shares) := by
  have start : Gathers [(globalStatsKey,statsEntry)] [] [(globalStatsKey,statsEntry)] := by
    constructor
    · simp [keysOf]
    · intro key
      exact (add_zero _).symm
  exact ((start.batch settings shares).keys globalStatsKey).mpr (.inl (by simp [keysOf]))

theorem gathers_append (settings : Settings) (first second : List Share) :
    Gathers (batchUpdates settings first) (batchUpdates settings second) (batchUpdates settings (first ++ second)) := by
  rw [batchUpdates,batchUpdates,batchUpdates,foldl_append]
  apply Gathers.batch
  constructor
  · intro key
    have touched := global_touched settings first
    rw [batchUpdates] at touched
    constructor
    · exact .inl
    · rintro (member | start)
      · exact member
      · obtain rfl : key = globalStatsKey := by simpa [keysOf] using start
        exact touched
  · intro key
    rw [countsAt_start,add_zero]

end Gathering

section Batch

variable {updates : CacheUpdates} {key : String}

/-- A change that never restarts a round. -/
def Counting (change : CacheEntry → CacheEntry) : Prop :=
  ∀ entry, entry.roundHashes ≠ some .reset → (change entry).roundHashes ≠ some .reset

section

variable [Arithmetic]

theorem counting_totalHashes (value : ℚ) : Counting (addTotalHashes value) := fun _ counting => counting

theorem counting_goodShares (value : ℚ) : Counting (addGoodShares value) := fun _ counting => counting

theorem counting_roundHashes (value : ℚ) : Counting (addRoundHashes value) := by
  intro entry _
  simp [addRoundHashes]

end

structure Plain (updates : CacheUpdates) : Prop where
  distinct : (keysOf updates).Nodup
  counting : ∀ entry ∈ updates, entry.2.roundHashes ≠ some .reset

theorem Plain.ensure (plain : Plain updates) (key : String) {factory : CacheEntry}
    (counting : factory.roundHashes ≠ some .reset) : Plain (ensureCacheEntry updates key factory) := by
  unfold ensureCacheEntry
  split
  · exact plain
  next absent =>
    constructor
    · rw [keysOf,map_append]
      exact Nodup.append plain.distinct (nodup_singleton key) (disjoint_singleton.mpr absent)
    · intro entry member
      rcases mem_append.mp member with old | new
      · exact plain.counting entry old
      · rw [mem_singleton.mp new]
        exact counting

theorem Plain.change (plain : Plain updates) (key : String) {change : CacheEntry → CacheEntry}
    (counting : Counting change) : Plain (changeCacheEntry updates key change) := by
  constructor
  · rw [keys_change]
    exact plain.distinct
  · intro entry member
    obtain ⟨old,inside,rfl⟩ := mem_map.mp member
    have before := plain.counting old inside
    split
    · exact counting old.2 before
    · exact before

section

variable [Arithmetic]

theorem Plain.hashes (plain : Plain updates) (key : String) (value : ℚ) : Plain (addHashes updates key value) :=
  (plain.change key (counting_totalHashes value)).change key (counting_roundHashes value)

theorem Plain.shares (plain : Plain updates) (key : String) (share : Share) : Plain (addShares updates key share) :=
  (plain.change key (counting_totalHashes share.raw_shares)).change key (counting_goodShares (shareNumber share))

theorem Plain.port (plain : Plain updates) (share : Share) (portSuffix : String) :
    Plain (addPortHashes updates share portSuffix) := by
  apply Plain.hashes
  refine Plain.change ?_ _ (counting_totalHashes _)
  apply Plain.hashes
  refine Plain.change ?_ _ (counting_totalHashes _)
  exact (plain.ensure _ (by decide)).ensure _ (by decide)

theorem Plain.batch (plain : Plain updates) (settings : Settings) (shares : List Share) :
    Plain (shares.foldl (applyShareCacheUpdates settings) updates) := by
  induction shares generalizing updates with
  | nil => exact plain
  | cons share shares ih =>
    apply ih
    have stats : statsEntry.roundHashes ≠ some .reset := by decide
    have miner : minerEntry.roundHashes ≠ some .reset := by decide
    have entries := (((plain.ensure globalStatsKey stats).ensure (getMinerId share) miner).ensure (minerWorkerID share)
      miner).ensure (statsTypeKey share) stats
    simp only [applyShareCacheUpdates]
    apply Plain.shares
    apply Plain.shares
    split
    · apply Plain.port
      exact (entries.hashes _ _).hashes _ _
    · exact entries.port _ _

end

theorem plain_start : Plain [(globalStatsKey,statsEntry)] := by
  constructor
  · exact nodup_singleton _
  · intro entry member
    rw [mem_singleton.mp member]
    decide

/-- What merging the gathered entries makes of the row of a key. -/
def MergedAt [Arithmetic] (updates : CacheUpdates) (key : String) (before after : Option CacheRow) : Prop :=
  match entryAt updates key with
  | none => after = before
  | some entry => ∃ merged, mergedRow key before entry = .ok merged ∧ after = some merged

theorem mergedRow_ok [Arithmetic] (key : String) {row : Option CacheRow} (nextValue : CacheEntry)
    (sound : row ≠ some .malformed) : ∃ merged, mergedRow key row nextValue = .ok merged := by
  rcases row with _ | _ | ⟨cached,others⟩
  · exact ⟨_,rfl⟩
  · exact (sound rfl).elim
  · exact ⟨_,rfl⟩

def rowCounts : Option CacheRow → Counter → ℚ
  | some (.entry fields _) => fields.counts
  | _ => 0

def rowOthers : Option CacheRow → List (String × String)
  | some (.entry _ others) => others
  | _ => []

def readRow (row : Option CacheRow) : Option (Option ((Counter → ℚ) × List (String × String))) :=
  row.map fun
    | .malformed => none
    | .entry fields others => some (fields.counts,others)

def grown (row : Option CacheRow) (counts : Counter → ℚ) : Option (Option ((Counter → ℚ) × List (String × String))) :=
  some (some (rowCounts row + counts,rowOthers row))

private theorem mergedRow_reads {row : Option CacheRow} {nextValue : CacheEntry} {merged : CacheRow}
    (counting : nextValue.roundHashes ≠ some .reset) (made : mergedRow key row nextValue = .ok merged) :
    readRow (some merged) = grown row nextValue.counts := by
  obtain ⟨total,good,round⟩ := nextValue
  rcases row with _ | _ | ⟨cached,others⟩
  · obtain rfl := Except.ok.inj made
    simp [readRow,grown,rowCounts,rowOthers]
  · cases made
  · obtain rfl := Except.ok.inj made
    simp only [readRow,grown,rowCounts,rowOthers,Option.map_some,Option.some.injEq,Prod.mk.injEq,and_true]
    funext counter
    rcases round with _ | _ | _
    · cases total <;> cases good <;> cases counter <;> simp [CacheEntry.counts,addTotalHashes,addGoodShares]
    · cases total <;> cases good <;> cases counter <;>
        simp [CacheEntry.counts,addTotalHashes,addGoodShares,addRoundHashes,RoundHashes.value]
    · exact (counting rfl).elim

theorem MergedAt.reads {before after : Option CacheRow} (plain : Plain updates)
    (merged : MergedAt updates key before after) :
    readRow after = if key ∈ keysOf updates then grown before (countsAt updates key) else readRow before := by
  unfold MergedAt at merged
  cases found : entryAt updates key with
  | none =>
    have absent : key ∉ keysOf updates := by simp [← entryAt_isSome,found]
    rw [found] at merged
    rw [if_neg absent]
    exact congrArg readRow merged
  | some entry =>
    have present : key ∈ keysOf updates := by simp [← entryAt_isSome,found]
    obtain ⟨pair,inside,rfl⟩ := Option.map_eq_some_iff.mp found
    rw [found] at merged
    obtain ⟨row,made,rfl⟩ := merged
    rw [if_pos present,countsAt,found]
    exact mergedRow_reads (plain.counting pair (mem_of_find?_eq_some inside)) made

end Batch

section Writing

variable {Record : Type} {backend : Backend Record} {db : Db Record}
  {key : String} {updates : CacheUpdates} {first second : List Share}

def Admits (backend : Backend Record) (db : Db Record) (updates : CacheUpdates) : Prop :=
  ∀ key ∈ keysOf updates, backend.keyFits key = true ∧ db.cacheDB key ≠ some .malformed

def Encodes (backend : Backend Record) (shares : List Share) : Prop :=
  ∀ share ∈ shares, ∃ record, backend.encode share = some record ∧ backend.valueFits record = true

def recordsOf (backend : Backend Record) (shares : List Share) : List (ℕ × Record) :=
  shares.filterMap fun share => (backend.encode share).map fun record => (share.blockHeight,record)

theorem admits_update (absent : key ∉ keysOf updates) (row : CacheRow) :
    Admits backend (db.setRow key row) updates ↔ Admits backend db updates := by
  apply forall₂_congr
  intro other member
  have distinct : other ≠ key := by
    rintro rfl
    exact absent member
  rw [setRow_other db distinct]

section

variable [Arithmetic]

theorem merge_runs (nextValue : CacheEntry) (fits : backend.keyFits key = true)
    (sound : db.cacheDB key ≠ some .malformed) :
    ∃ merged, mergedRow key (db.cacheDB key) nextValue = .ok merged ∧
      mergeCacheEntry backend key nextValue (db,none) = .ok ((),db.setRow key merged,none) := by
  obtain ⟨merged,same⟩ := mergedRow_ok key nextValue sound
  refine ⟨merged,same,?_⟩
  have read : (statement (getString backend key) : StoreWork Record _) (db,none) = .ok (db.cacheDB key,db,none) := by
    simp [statement,Work.statement,getString,fits,Except.map]
  rw [mergeCacheEntry,run_bind read,same]
  rfl

theorem merge_fails (nextValue : CacheEntry)
    (refused : ¬(backend.keyFits key = true ∧ db.cacheDB key ≠ some .malformed)) :
    ∃ failure, mergeCacheEntry backend key nextValue (db,none) = .error failure := by
  by_cases fits : backend.keyFits key = true
  · have malformed : db.cacheDB key = some .malformed := by
      by_contra sound
      exact refused ⟨fits,sound⟩
    have read : (statement (getString backend key) : StoreWork Record _) (db,none) = .ok (db.cacheDB key,db,none) := by
      simp [statement,Work.statement,getString,fits,Except.map]
    refine ⟨.invalidCacheEntry key,?_⟩
    rw [mergeCacheEntry,run_bind read,malformed]
    rfl
  · refine ⟨.badValueSize,?_⟩
    rw [mergeCacheEntry]
    apply run_fails
    simp [statement,Work.statement,getString,fits,Except.map]

theorem merges_run (distinct : (keysOf updates).Nodup) (admits : Admits backend db updates) :
    ∃ cacheDB, mergeCacheEntries backend updates (db,none) = .ok ((),{db with cacheDB := cacheDB},none) ∧
      ∀ key, MergedAt updates key (db.cacheDB key) (cacheDB key) := by
  induction updates generalizing db with
  | nil => exact ⟨db.cacheDB,rfl,fun _ => rfl⟩
  | cons entry updates ih =>
    obtain ⟨key,next⟩ := entry
    obtain ⟨absent,distinct⟩ := nodup_cons.mp distinct
    obtain ⟨fits,sound⟩ := admits key mem_cons_self
    obtain ⟨merged,made,ran⟩ := merge_runs next fits sound
    obtain ⟨cacheDB,finished,rows⟩ := ih distinct ((admits_update absent merged).mpr
      fun other member => admits other (mem_cons_of_mem _ member))
    refine ⟨cacheDB,?_,?_⟩
    · rw [mergeCacheEntries,run_bind ran]
      exact finished
    · intro other
      have after := rows other
      unfold MergedAt at after ⊢
      by_cases here : other = key
      · subst here
        have first : entryAt ((other,next)::updates) other = some next := by simp [entryAt]
        rw [entryAt_absent absent] at after
        rw [first]
        exact ⟨merged,made,after.trans (setRow_self ..)⟩
      · have later : entryAt ((key,next)::updates) other = entryAt updates other := by simp [entryAt,Ne.symm here]
        rw [later]
        rwa [setRow_other db here] at after

theorem merges_fail (distinct : (keysOf updates).Nodup) (refused : ¬Admits backend db updates) :
    ∃ failure, mergeCacheEntries backend updates (db,none) = .error failure := by
  induction updates generalizing db with
  | nil => exact (refused fun _ member => (not_mem_nil member).elim).elim
  | cons entry updates ih =>
    obtain ⟨key,next⟩ := entry
    obtain ⟨absent,distinct⟩ := nodup_cons.mp distinct
    by_cases here : backend.keyFits key = true ∧ db.cacheDB key ≠ some .malformed
    · obtain ⟨merged,_,ran⟩ := merge_runs next here.1 here.2
      rw [mergeCacheEntries,run_bind ran]
      apply ih distinct
      rw [admits_update absent]
      intro admits
      apply refused
      intro other member
      rcases mem_cons.mp member with rfl | tail
      · exact here
      · exact admits other tail
    · obtain ⟨failure,failed⟩ := merge_fails next here
      exact ⟨failure,by rw [mergeCacheEntries]; exact run_fails failed⟩

end

theorem encodes_append :
    Encodes backend (first ++ second) ↔ Encodes backend first ∧ Encodes backend second := forall_mem_append

theorem recordsOf_append (backend : Backend Record) (first second : List Share) :
    recordsOf backend (first ++ second) = recordsOf backend first ++ recordsOf backend second := filterMap_append

structure SameStore (left right : Db Record) : Prop where
  records : left.shareDB = right.shareDB
  rows : ∀ key, readRow (left.cacheDB key) = readRow (right.cacheDB key)

theorem SameStore.rfl (db : Db Record) : SameStore db db := by
  constructor
  · trivial
  · intro key
    trivial

def Storable [Arithmetic] (backend : Backend Record) (settings : Settings) (shares : List Share) (db : Db Record) :
    Prop :=
  Admits backend db (batchUpdates settings shares) ∧ Encodes backend shares

theorem storable_left {settings : Settings} (storable : Storable backend settings (first ++ second) db) :
    Storable backend settings first db := by
  have gathers := gathers_append settings first second
  exact ⟨fun key member => storable.1 key ((gathers.keys key).mpr (.inl member)),
    fun share member => storable.2 share (mem_append_left _ member)⟩

end Writing

section Records

variable {Record : Type} {backend : Backend Record} {db : Db Record}

theorem puts_run {shares : List Share} (encodes : Encodes backend shares) : putShares backend shares (db,none) =
      .ok ((),{db with shareDB := db.shareDB + recordsOf backend shares},none) := by
  induction shares generalizing db with
  | nil => simp [putShares,recordsOf]; rfl
  | cons share shares ih =>
    obtain ⟨record,encoded,fits⟩ := encodes share mem_cons_self
    have put : putShare backend share (db,none) =
        .ok ((),{db with shareDB := (share.blockHeight,record) ::ₘ db.shareDB},none) := by
      simp [putShare,encoded,statement,Work.statement,putBinary,fits,Except.map]
    rw [putShares,run_bind put,ih fun share member => encodes share (mem_cons_of_mem _ member)]
    simp [recordsOf,encoded,← Multiset.cons_coe]

theorem puts_fail {shares : List Share} (refused : ¬Encodes backend shares) :
    ∃ failure, putShares backend shares (db,none) = .error failure := by
  induction shares generalizing db with
  | nil => exact (refused fun _ member => (not_mem_nil member).elim).elim
  | cons share shares ih =>
    cases encoded : backend.encode share with
    | none =>
      refine ⟨.encoding,?_⟩
      rw [putShares]
      apply run_fails
      rw [putShare,encoded]
      rfl
    | some record =>
      by_cases fits : backend.valueFits record = true
      · have put : putShare backend share (db,none) =
            .ok ((),{db with shareDB := (share.blockHeight,record) ::ₘ db.shareDB},none) := by
          simp [putShare,encoded,statement,Work.statement,putBinary,fits,Except.map]
        rw [putShares,run_bind put]
        apply ih
        intro encodes
        apply refused
        intro other member
        rcases mem_cons.mp member with rfl | tail
        · exact ⟨record,encoded,fits⟩
        · exact encodes other tail
      · refine ⟨.badValueSize,?_⟩
        rw [putShares]
        apply run_fails
        simp [putShare,encoded,statement,Work.statement,putBinary,fits,Except.map]

variable {settings : Settings} {first second : List Share} {middle after : Db Record}

section

variable [Arithmetic]

structure Stored (backend : Backend Record) (settings : Settings) (shares : List Share) (db after : Db Record) :
    Prop where
  records : after.shareDB = db.shareDB + recordsOf backend shares
  rows : ∀ key, MergedAt (batchUpdates settings shares) key (db.cacheDB key) (after.cacheDB key)

theorem plain_batch (settings : Settings) (shares : List Share) : Plain (batchUpdates settings shares) :=
  plain_start.batch settings shares

theorem storeShares_runs {shares : List Value} (some : shares ≠ [])
    (storable : Storable backend settings (shares.filterMap isStorableShare) db) :
    ∃ after, storeShares backend settings shares {} db = (.ok true,after) ∧
      Stored backend settings (shares.filterMap isStorableShare) db after := by
  obtain ⟨cacheDB,merged,rows⟩ :=
    merges_run (plain_batch settings (shares.filterMap isStorableShare)).distinct storable.1
  refine ⟨⟨db.shareDB + recordsOf backend (shares.filterMap isStorableShare),cacheDB⟩,?_,rfl,rows⟩
  have ran : storeWork backend settings (shares.filterMap isStorableShare) (db,none) =
      .ok (true,⟨db.shareDB + recordsOf backend (shares.filterMap isStorableShare),cacheDB⟩,none) := by
    rw [storeWork,run_bind merged,run_bind (puts_run storable.2)]
    rfl
  rw [storeShares,if_neg (by simpa using some)]
  exact transact_ok rfl rfl ran

theorem storeShares_fails {shares : List Value} (some : shares ≠ [])
    (refused : ¬Storable backend settings (shares.filterMap isStorableShare) db) :
    ∃ failure, storeShares backend settings shares {} db = (.error failure,db) := by
  have failed : ∃ failure, storeWork backend settings (shares.filterMap isStorableShare)
      (db,none) = .error failure := by
    have distinct := (plain_batch settings (shares.filterMap isStorableShare)).distinct
    by_cases admits : Admits backend db (batchUpdates settings (shares.filterMap isStorableShare))
    · obtain ⟨cacheDB,merged,rows⟩ := merges_run distinct admits
      have encodes : ¬Encodes backend (shares.filterMap isStorableShare) := fun encodes => refused ⟨admits,encodes⟩
      have failed : ∃ failure, putShares backend _ ({db with cacheDB := cacheDB},none) = .error failure :=
        puts_fail encodes
      obtain ⟨failure,failed⟩ := failed
      refine ⟨failure,?_⟩
      rw [storeWork,run_bind merged]
      exact run_fails failed
    · obtain ⟨failure,failed⟩ := merges_fail distinct admits
      exact ⟨failure,run_fails failed⟩
  obtain ⟨failure,failed⟩ := failed
  refine ⟨failure,?_⟩
  rw [storeShares,if_neg (by simpa using some)]
  exact transact_error rfl failed

end

theorem Stored.reads {shares : List Share} (stored : Stored backend settings shares db after) (key : String) :
    readRow (after.cacheDB key) = if key ∈ keysOf (batchUpdates settings shares) then
      grown (db.cacheDB key) (countsAt (batchUpdates settings shares) key) else readRow (db.cacheDB key) :=
  (stored.rows key).reads (plain_batch settings shares)

private theorem rowCounts_read {left right : Option CacheRow} (same : readRow left = readRow right) :
    rowCounts left = rowCounts right ∧ rowOthers left = rowOthers right := by
  rcases left with _ | _ | ⟨fields,others⟩ <;> rcases right with _ | _ | ⟨fields',others'⟩ <;>
    simp_all [readRow,rowCounts,rowOthers]

theorem grown_reads {row : Option CacheRow} {old : Option CacheRow} {counts : Counter → ℚ}
    (reads : readRow row = grown old counts) :
    rowCounts row = rowCounts old + counts ∧ rowOthers row = rowOthers old ∧ row ≠ some .malformed := by
  rcases row with _ | _ | ⟨fields,others⟩ <;> simp_all [readRow,grown,rowCounts,rowOthers]

theorem Stored.append {split whole : Db Record}
    (one : Stored backend settings first db middle) (two : Stored backend settings second middle split)
    (all : Stored backend settings (first ++ second) db whole) : SameStore whole split := by
  have gathers := gathers_append settings first second
  constructor
  · rw [all.records,two.records,one.records,recordsOf_append,← Multiset.coe_add,add_assoc]
  · intro key
    rw [all.reads,two.reads]
    have reads := one.reads key
    by_cases left : key ∈ keysOf (batchUpdates settings first) <;> by_cases right :
      key ∈ keysOf (batchUpdates settings second)
    · rw [if_pos left] at reads
      obtain ⟨counts,others,_⟩ := grown_reads reads
      rw [if_pos ((gathers.keys key).mpr (.inl left)),if_pos right,grown,grown,counts,others,gathers.counts,add_assoc]
    · have nothing : countsAt (batchUpdates settings second) key = 0 := by
        rw [countsAt,entryAt_absent right]
        rfl
      rw [if_pos left] at reads
      rw [if_pos ((gathers.keys key).mpr (.inl left)),if_neg right,reads,gathers.counts,nothing,add_zero]
    · have nothing : countsAt (batchUpdates settings first) key = 0 := by
        rw [countsAt,entryAt_absent left]
        rfl
      rw [if_neg left] at reads
      obtain ⟨counts,others⟩ := rowCounts_read reads
      rw [if_pos ((gathers.keys key).mpr (.inr right)),if_pos right,grown,grown,counts,others,gathers.counts,nothing,
        zero_add]
    · have untouched : key ∉ keysOf (batchUpdates settings (first ++ second)) := by
        rw [gathers.keys]
        exact not_or.mpr ⟨left,right⟩
      rw [if_neg left] at reads
      rw [if_neg untouched,if_neg right,reads]

theorem Stored.malformed {shares : List Share} (stored : Stored backend settings shares db after)
    (storable : Storable backend settings shares db) (key : String) :
    after.cacheDB key = some .malformed ↔ db.cacheDB key = some .malformed := by
  have reads := stored.reads key
  split at reads
  next touched =>
    have sound := (storable.1 key touched).2
    have grown := (grown_reads reads).2.2
    exact ⟨fun here => (grown here).elim,fun here => (sound here).elim⟩
  · rcases here : after.cacheDB key with _ | _ | _ <;> rcases there : db.cacheDB key with _ | _ | _ <;>
      simp_all [readRow]

private theorem storable_append (storable : Storable backend settings first db)
    (stored : Stored backend settings first db middle) :
    Storable backend settings (first ++ second) db ↔ Storable backend settings second middle := by
  have gathers := gathers_append settings first second
  constructor
  · intro both
    refine ⟨?_,fun share member => both.2 share (mem_append_right _ member)⟩
    intro key member
    obtain ⟨fits,sound⟩ := both.1 key ((gathers.keys key).mpr (.inr member))
    exact ⟨fits,fun malformed => sound ((stored.malformed storable key).mp malformed)⟩
  · intro later
    constructor
    · intro key member
      rcases (gathers.keys key).mp member with left | right
      · exact storable.1 key left
      · obtain ⟨fits,sound⟩ := later.1 key right
        exact ⟨fits,fun malformed => sound ((stored.malformed storable key).mpr malformed)⟩
    · intro share member
      rcases mem_append.mp member with left | right
      · exact storable.2 share left
      · exact later.2 share right

private theorem storeShares_append (first second : List Value) (db : Db Record) :
    let whole := storeShares backend settings (first ++ second) {} db
    let part := storeShares backend settings first {} db
    let rest := storeShares backend settings second {} part.2
    (whole.1.isOk = true ↔ part.1.isOk = true ∧ rest.1.isOk = true) ∧
      (whole.1.isOk = true → SameStore whole.2 rest.2) := by
  intro whole part rest
  by_cases left : first = []
  · subst left
    exact ⟨⟨fun ok => ⟨rfl,ok⟩,fun ok => ok.2⟩,fun _ => SameStore.rfl _⟩
  by_cases right : second = []
  · subst right
    have same : whole = part := by
      change storeShares backend settings (first ++ []) {} db = _
      rw [append_nil]
    rw [same]
    exact ⟨⟨fun ok => ⟨ok,rfl⟩,fun ok => ok.1⟩,fun _ => SameStore.rfl _⟩
  have both : first ++ second ≠ [] := by simp [left]
  have parts : (first ++ second).filterMap isStorableShare =
      first.filterMap isStorableShare ++ second.filterMap isStorableShare := filterMap_append
  by_cases storable : Storable backend settings (first.filterMap isStorableShare) db
  · obtain ⟨middle,ran,stored⟩ := storeShares_runs left storable
    have here : part = (.ok true,middle) := ran
    have next : rest = storeShares backend settings second {} middle := by
      change storeShares backend settings second {} part.2 = _
      rw [here]
    have split : Storable backend settings (first.filterMap isStorableShare ++ second.filterMap isStorableShare) db ↔
        Storable backend settings (second.filterMap isStorableShare) middle := storable_append storable stored
    by_cases later : Storable backend settings (second.filterMap isStorableShare) middle
    · obtain ⟨after,finished,last⟩ := storeShares_runs right later
      have all := split.mpr later
      rw [← parts] at all
      obtain ⟨after',finished',whole'⟩ := storeShares_runs both all
      rw [parts] at whole'
      have wholly : whole = (.ok true,after') := finished'
      rw [wholly,here,next,finished]
      exact ⟨⟨fun _ => ⟨rfl,rfl⟩,fun _ => rfl⟩,fun _ => stored.append last whole'⟩
    · obtain ⟨failure,failed⟩ := storeShares_fails right later
      have refused := mt split.mp later
      rw [← parts] at refused
      obtain ⟨failure',failed'⟩ := storeShares_fails both refused
      have wholly : whole = (.error failure',db) := failed'
      rw [wholly,next,failed]
      exact ⟨⟨nofun,fun ok => nomatch ok.2⟩,nofun⟩
  · obtain ⟨failure,failed⟩ := storeShares_fails left storable
    have here : part = (.error failure,db) := failed
    have refused : ¬Storable backend settings ((first ++ second).filterMap isStorableShare) db := by
      rw [parts]
      exact fun both => storable (storable_left both)
    obtain ⟨failure',failed'⟩ := storeShares_fails both refused
    have wholly : whole = (.error failure',db) := failed'
    rw [wholly,here]
    exact ⟨⟨nofun,fun ok => nomatch ok.1⟩,nofun⟩

theorem storeShares_atomic [Arithmetic] {shares : List Value} {faults : Faults} {failure : Failure}
    (ran : storeShares backend settings shares faults db = (.error failure,after)) : after = db := by
  unfold storeShares at ran
  split at ran
  · cases ran
  · have commit : faults.fate.commit ≠ .lost := by
      unfold Faults.fate
      split <;> simp
    unfold transact at ran
    split at ran
    · split at ran
      · exact (Prod.mk.inj ran).2.symm
      · split at ran
        · cases ran
        · exact (Prod.mk.inj ran).2.symm
        next lost => exact (commit lost).elim
    · exact (Prod.mk.inj ran).2.symm

end Records

section Claim

variable {Record : Type}

/-- A batch stores exactly when its parts do one after the other, and then leaves the same
records and counters; and a batch that throws, wherever it does, leaves everything as it was. -/
theorem batches_independent_atomic (backend : Backend Record) (settings : Settings) (db : Db Record) :
    (∀ first second : List Value,
      let whole := storeShares backend settings (first ++ second) {} db
      let part := storeShares backend settings first {} db
      let rest := storeShares backend settings second {} part.2
      (whole.1.isOk = true ↔ part.1.isOk = true ∧ rest.1.isOk = true) ∧
        (whole.1.isOk = true → SameStore whole.2 rest.2)) ∧
    ∀ shares faults failure after, storeShares backend settings shares faults db = (.error failure,after) →
      after = db := by
  refine ⟨fun first second => storeShares_append first second db,?_⟩
  intro shares faults failure after
  exact storeShares_atomic

def plainBackend : Backend Share := ⟨some,fun _ => true,fun _ => true⟩

def plainSettings : Settings := ⟨18081,none,fun _ => none⟩

def sampleFields (paymentAddress : String) (raw_shares : ℚ) : List (String × Value) :=
  [("paymentAddress",.string paymentAddress),("identifier",.string "rig"),("poolType",.number (.finite 0)),
    ("raw_shares",.number (.finite raw_shares)),("blockHeight",.number (.finite 5)),("foundBlock",.boolean false),
    ("trustedShare",.boolean false),("poolID",.number (.finite 1)),("blockDiff",.number (.finite 9)),
    ("timestamp",.number (.finite 3)),("shares2",.number (.finite 7))]

def sampleShare (paymentAddress : String) : Value := .record (sampleFields paymentAddress 7)

def portedShare (paymentAddress : String) (port raw_shares : ℚ) : Value :=
  .record (("port",.number (.finite port))::sampleFields paymentAddress raw_shares)

/-- The cached row of the second miner is no cache entry: its share stops the whole batch,
and not the share before it when that is a batch of its own. And a miner with the name of a
statistics row leaves that row without a round counter, which the next batch makes zero. -/
theorem malformed_row_splits : (¬∀ (db : Db Share) (first second : List Value),
      SameStore (storeShares plainBackend plainSettings (first ++ second) {} db).2
        (storeShares plainBackend plainSettings second {} (storeShares plainBackend plainSettings first {} db).2).2) ∧
    ¬∀ (db : Db Share) (first second : List Value),
      (storeShares plainBackend plainSettings (first ++ second) {} db).2.cacheDB =
        (storeShares plainBackend plainSettings second {}
          (storeShares plainBackend plainSettings first {} db).2).2.cacheDB := by
  constructor
  · intro independent
    let db : Db Share := ⟨0,fun key => if key = "B" then some .malformed else none⟩
    have same := congrArg Multiset.card (independent db [sampleShare "A"] [sampleShare "B"]).records
    revert same
    decide +kernel
  · intro same
    have rows := congrFun (same ⟨0,fun _ => none⟩ [portedShare "pplns_stats2" 18148 7] [portedShare "A" 18148 7])
      "pplns_stats2"
    revert rows
    decide +kernel

end Claim

end NodejsPool.RemoteShare.ShareStore
