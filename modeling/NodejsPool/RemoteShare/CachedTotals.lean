import NodejsPool.RemoteShare.CacheWriters
import Mathlib.Algebra.BigOperators.Pi

/-! The totals of a miner's or worker's entry are those of the shares stored for it, as long as no
share is stored for an entry between its read and its write by the worker's cycle. -/
namespace NodejsPool.RemoteShare.CacheTotals
open Async ShareStore List

section Keys

variable {key : String}

theorem hasPrefix_append {start rest : String} (same : key = start ++ rest) : hasPrefix key start = true := by
  subst same
  rw [hasPrefix,String.toList_append]
  exact isPrefixOf_iff_prefix.mpr (prefix_append _ _)

theorem account_ne {other : String} (account : isPoolKey key = false) (pool : isPoolKey other = true) :
    key ≠ other := by
  rintro rfl
  rw [pool] at account
  cases account

theorem isPoolKey_of_prefix {start : String}
    (known : start ∈ ["stats:","history:","identifiers:","global_stats2","pplns_stats2","legacy_stats2"])
    (begins : hasPrefix key start = true) : isPoolKey key = true := by
  rw [isPoolKey,Bool.or_eq_true]
  exact .inl (any_eq_true.mpr ⟨start,known,begins⟩)

theorem isPoolKey_global (suffix : String) : isPoolKey (globalStatsKey ++ suffix) = true :=
  isPoolKey_of_prefix (by simp) (hasPrefix_append rfl : hasPrefix _ "global_stats2" = true)

theorem isPoolKey_type (share : Share) (suffix : String) : isPoolKey (statsTypeKey share ++ suffix) = true := by
  unfold statsTypeKey poolTypeStr
  split
  · exact isPoolKey_of_prefix (by simp)
      (hasPrefix_append rfl : hasPrefix ("pplns_stats2" ++ suffix) "pplns_stats2" = true)
  · exact isPoolKey_of_prefix (by simp)
      (hasPrefix_append rfl : hasPrefix ("legacy_stats2" ++ suffix) "legacy_stats2" = true)

theorem isPoolKey_globalStats : isPoolKey globalStatsKey = true := by decide +kernel

theorem isPoolKey_statsType (share : Share) : isPoolKey (statsTypeKey share) = true := by
  have whole := isPoolKey_type share ""
  rwa [String.append_empty] at whole

end Keys

section Gathered

variable {updates : CacheUpdates} {key : String}

theorem countsAt_change_other {other : String} (apart : key ≠ other) (change : CacheEntry → CacheEntry) :
    countsAt (changeCacheEntry updates other change) key = countsAt updates key := by
  unfold countsAt
  rw [entryAt_change,if_neg apart]

theorem countsAt_hashes_other {other : String} (apart : key ≠ other) (value : ℚ) :
    countsAt (addHashes updates other value) key = countsAt updates key := by
  rw [addHashes,countsAt_change_other apart,countsAt_change_other apart]

theorem countsAt_entries (share : Share) : countsAt (ensureShareEntries updates share) = countsAt updates := by
  unfold ensureShareEntries
  rw [countsAt_ensure counts_statsEntry,countsAt_ensure counts_minerEntry,countsAt_ensure counts_minerEntry,
    countsAt_ensure counts_statsEntry]

theorem countsAt_port (share : Share) (suffix : String) (account : isPoolKey key = false) :
    countsAt (addPortHashes updates share suffix) key = countsAt updates key := by
  unfold addPortHashes
  rw [countsAt_hashes_other (account_ne account (isPoolKey_type share suffix)),
    countsAt_change_other (account_ne account (isPoolKey_statsType share)),
    countsAt_hashes_other (account_ne account (isPoolKey_global suffix)),
    countsAt_change_other (account_ne account isPoolKey_globalStats),
    countsAt_ensure counts_statsEntry,countsAt_ensure counts_statsEntry]

def shareCounts (share : Share) : Counter → ℚ :=
  Function.update (Function.update 0 .totalHashes share.raw_shares) .goodShares (shareNumber share)

theorem countsAt_addShares {own : String} (present : own ∈ keysOf updates) (share : Share) :
    countsAt (addShares updates own share) key = countsAt updates key + if key = own then shareCounts share else 0 := by
  have there : own ∈ keysOf (changeCacheEntry updates own (addTotalHashes share.raw_shares)) := by
    rw [keys_change]
    exact present
  unfold addShares
  rw [countsAt_change (adding_goodShares (shareNumber share)) there,
    countsAt_change (adding_totalHashes share.raw_shares) present,add_assoc]
  congr 1
  split
  · funext counter
    cases counter <;> simp [shareCounts,Function.update]
  · exact add_zero 0

theorem minerWorkerID_ne (share : Share) : getMinerId share ≠ minerWorkerID share := by
  intro same
  have lengths := congrArg String.length same
  unfold minerWorkerID at lengths
  rw [String.length_append,String.length_append] at lengths
  have one : "_".length = 1 := by decide
  omega

def portUpdates (settings : Settings) (updates : CacheUpdates) (share : Share) : CacheUpdates :=
  let updates := ensureShareEntries updates share
  let portSuffix := sharePortSuffix settings share
  if portSuffix = "" then
    let updates := addHashes (addHashes updates globalStatsKey share.raw_shares) (statsTypeKey share) share.raw_shares
    addPortHashes updates share ("_" ++ toString (defaultStatsPort settings))
  else addPortHashes updates share portSuffix

theorem applyShareCacheUpdates_eq (settings : Settings) (share : Share) :
    applyShareCacheUpdates settings updates share =
      addShares (addShares (portUpdates settings updates share) (getMinerId share) share) (minerWorkerID share) share :=
  rfl

private theorem countsAt_portUpdates (settings : Settings) (share : Share) (account : isPoolKey key = false) :
    countsAt (portUpdates settings updates share) key = countsAt updates key := by
  simp only [portUpdates]
  split
  · rw [countsAt_port share _ account,countsAt_hashes_other (account_ne account (isPoolKey_statsType share)),
      countsAt_hashes_other (account_ne account isPoolKey_globalStats),countsAt_entries]
  · rw [countsAt_port share _ account,countsAt_entries]

theorem keys_portUpdates (settings : Settings) (updates : CacheUpdates) (share : Share) :
    ∃ portSuffix, ∀ other, other ∈ keysOf (portUpdates settings updates share) ↔
      other = statsTypeKey share ++ portSuffix ∨ other = globalStatsKey ++ portSuffix ∨
        other ∈ shareKeys share ∨ other ∈ keysOf updates := by
  simp only [portUpdates]
  split
  · refine ⟨"_" ++ toString (defaultStatsPort settings),fun other => ?_⟩
    rw [keys_port,keys_hashes,keys_hashes,keys_entries]
  · refine ⟨sharePortSuffix settings share,fun other => ?_⟩
    rw [keys_port,keys_entries]

theorem keys_share (settings : Settings) (share : Share) (account : isPoolKey key = false) :
    key ∈ keysOf (applyShareCacheUpdates settings updates share) ↔
      key ∈ keysOf updates ∨ countsFor key share = true := by
  obtain ⟨portSuffix,members⟩ := keys_portUpdates settings updates share
  rw [applyShareCacheUpdates_eq,keys_shares,keys_shares,members]
  have type := account_ne account (isPoolKey_type share portSuffix)
  have all := account_ne account (isPoolKey_global portSuffix)
  have stats := account_ne account isPoolKey_globalStats
  have own := account_ne account (isPoolKey_statsType share)
  simp only [type,all,false_or,shareKeys,mem_cons,stats,own,not_mem_nil,or_false,countsFor,Bool.or_eq_true,
    decide_eq_true_eq]
  rw [or_comm,eq_comm,@eq_comm _ key (minerWorkerID share)]

private theorem countsAt_share (settings : Settings) (share : Share) (account : isPoolKey key = false) :
    countsAt (applyShareCacheUpdates settings updates share) key =
      countsAt updates key + if countsFor key share then shareCounts share else 0 := by
  obtain ⟨portSuffix,members⟩ := keys_portUpdates settings updates share
  have miner : getMinerId share ∈ keysOf (portUpdates settings updates share) :=
    (members _).mpr (.inr (.inr (.inl (by simp [shareKeys]))))
  have worker : minerWorkerID share ∈
      keysOf (addShares (portUpdates settings updates share) (getMinerId share) share) := by
    rw [keys_shares,members]
    exact .inr (.inr (.inl (by simp [shareKeys])))
  have distinct := minerWorkerID_ne share
  rw [applyShareCacheUpdates_eq,countsAt_addShares worker,countsAt_addShares miner,
    countsAt_portUpdates settings share account,add_assoc]
  congr 1
  by_cases first : key = getMinerId share
  · subst first
    simp [countsFor,distinct]
  · by_cases second : key = minerWorkerID share
    · subst second
      simp [countsFor,first]
    · simp [countsFor,first,second,Ne.symm first,Ne.symm second]

def sharesCounts (shares : List Share) : Counter → ℚ := (shares.map shareCounts).sum

private theorem batch_account (settings : Settings) (shares : List Share) (account : isPoolKey key = false)
    (updates : CacheUpdates) : (key ∈ keysOf (shares.foldl (applyShareCacheUpdates settings) updates) ↔
        key ∈ keysOf updates ∨ shares.filter (countsFor key) ≠ []) ∧
      countsAt (shares.foldl (applyShareCacheUpdates settings) updates) key =
        countsAt updates key + sharesCounts (shares.filter (countsFor key)) := by
  induction shares generalizing updates with
  | nil => simp [sharesCounts]
  | cons share shares ih =>
    obtain ⟨keys,counts⟩ := ih (applyShareCacheUpdates settings updates share)
    rw [foldl_cons,keys,counts,keys_share settings share account,countsAt_share settings share account]
    by_cases own : countsFor key share = true
    · rw [filter_cons_of_pos own]
      refine ⟨by simp [own],?_⟩
      rw [if_pos own,add_assoc,sharesCounts,sharesCounts,map_cons,sum_cons]
    · rw [filter_cons_of_neg own]
      refine ⟨by simp [own],?_⟩
      rw [if_neg own,add_zero]

theorem batchUpdates_account (settings : Settings) (shares : List Share) (account : isPoolKey key = false) :
    (key ∈ keysOf (batchUpdates settings shares) ↔ shares.filter (countsFor key) ≠ []) ∧
      countsAt (batchUpdates settings shares) key = sharesCounts (shares.filter (countsFor key)) := by
  obtain ⟨keys,counts⟩ := batch_account settings shares account [(globalStatsKey,statsEntry)]
  have apart := account_ne account isPoolKey_globalStats
  refine ⟨?_,?_⟩
  · rw [batchUpdates,keys]
    simp [keysOf,apart]
  · rw [batchUpdates,counts,countsAt_start,zero_add]

end Gathered

section Writers

variable {Record : Type} {key : String} {credited shares : List Share}

def Totals (credited : List Share) (row : Option CacheRow) : Prop :=
  ∀ fields others, row = some (.entry fields others) → fields.counts = sharesCounts credited

theorem sharesCounts_append (first second : List Share) :
    sharesCounts (first ++ second) = sharesCounts first + sharesCounts second := by
  rw [sharesCounts,map_append,sum_append]
  rfl

theorem sharesCounts_apply (shares : List Share) (counter : Counter) :
    sharesCounts shares counter = (shares.map (shareCounts · counter)).sum := by
  rw [sharesCounts,Pi.list_sum_apply,map_map]
  rfl

structure Sound (world : World Record) : Prop where
  rows : ∀ key, isPoolKey key = false → Totals (world.credited key) (world.db.cacheDB key)
  entries : ∀ entry ∈ world.entries, isPoolKey entry.1 = false → Totals (world.credited entry.1) (some entry.2)

theorem sound_empty : Sound (emptyWorld : World Record) where
  rows _ _ _ _ row := by cases row
  entries _ member := by cases member

theorem flushStringPuts_row (db : Db Record) (entries : List (String × CacheRow)) {row : CacheRow}
    (there : (flushStringPuts db entries).cacheDB key = some row) : db.cacheDB key = some row ∨
    (key,row) ∈ entries := by
  induction entries generalizing db with
  | nil => exact .inl there
  | cons entry entries ih =>
    rcases ih (db.setRow entry.1 entry.2) there with before | later
    · by_cases same : key = entry.1
      · subst same
        rw [setRow_self] at before
        cases before
        exact .inr mem_cons_self
      · rw [setRow_other db same] at before
        exact .inl before
    · exact .inr (mem_cons_of_mem _ later)

theorem stoppedRow_totals {row : Option CacheRow} (sound : Totals credited row) : Totals credited (stoppedRow row) := by
  intro fields others written
  rcases row with _ | _ | ⟨cached,known⟩
  · cases written
  · cases written
  · simp only [stoppedRow] at written
    split at written
    · cases written
    · cases written
      exact sound _ _ rfl

theorem incrementCacheData_totals {db : Db Record} {own : String} {count : ℤ}
    (sound : Totals credited (db.cacheDB key)) : Totals credited ((incrementCacheData db own count).cacheDB key) := by
  unfold incrementCacheData
  split
  · next fields others there =>
    by_cases same : key = own
    · subst same
      rw [setRow_self]
      intro after known written
      cases written
      exact sound _ _ there
    · rw [setRow_other db same]
      exact sound
  · exact sound

variable {world : World Record}

theorem Sound.puts (sound : Sound world) (entries : List (String × CacheRow))
    (fresh : ∀ entry ∈ entries, isPoolKey entry.1 = false → Totals (world.credited entry.1) (some entry.2))
    (key : String) (account : isPoolKey key = false) :
    Totals (world.credited key) ((flushStringPuts world.db entries).cacheDB key) := by
  intro fields others there
  rcases flushStringPuts_row world.db entries there with before | put
  · exact sound.rows key account fields others before
  · exact fresh _ put account fields others rfl

theorem Sound.queued (sound : Sound world) {queue : List Queued} (allowed : queue.all Queued.allowed = true)
    {entry : String × CacheRow} (member : entry ∈ queue.filterMap (queueCacheWrite world.db.cacheDB))
    (account : isPoolKey entry.1 = false) : Totals (world.credited entry.1) (some entry.2) := by
  obtain ⟨queued,inside,written⟩ := mem_filterMap.mp member
  cases queued with
  | own key row =>
    cases written
    have pool : isPoolKey key = true := all_eq_true.mp allowed _ inside
    rw [pool] at account
    cases account
  | stopped miner =>
    obtain ⟨row,cleared,rfl⟩ := Option.map_eq_some_iff.mp written
    rw [← cleared]
    exact stoppedRow_totals (sound.rows miner account)

variable {backend : Backend Record} {settings : Settings}

theorem Sound.stored (sound : Sound world) {after : Db Record}
    (storable : Storable backend settings shares world.db) (stored : Stored backend settings shares world.db after)
    (key : String) (account : isPoolKey key = false) :
    Totals (credit world.credited world.db.cacheDB shares key) (after.cacheDB key) := by
  obtain ⟨touched,counts⟩ := batchUpdates_account settings shares account
  have reads := stored.reads key
  intro fields others there
  rw [there] at reads
  simp only [credit]
  by_cases own : shares.filter (countsFor key) = []
  · rw [if_pos own]
    rw [if_neg (fun member => touched.mp member own)] at reads
    rcases before : world.db.cacheDB key with _ | _ | ⟨cached,known⟩
    · rw [before] at reads
      cases reads
    · rw [before] at reads
      cases reads
    · rw [before] at reads
      have same : fields.counts = cached.counts := (Prod.mk.inj (Option.some.inj (Option.some.inj reads))).1
      rw [same]
      exact sound.rows key account cached known before
  · rw [if_neg own]
    rw [if_pos (touched.mpr own)] at reads
    obtain ⟨grown,_⟩ := grown_reads reads
    have added : fields.counts = rowCounts (world.db.cacheDB key) + sharesCounts (shares.filter (countsFor key)) := by
      rw [← counts,← grown]
      rfl
    rw [added]
    rcases before : world.db.cacheDB key with _ | _ | ⟨cached,known⟩
    · rw [if_pos rfl]
      exact zero_add _
    · exact absurd before (storable.1 key (touched.mpr own)).2
    · rw [if_neg nofun,sharesCounts_append,← sound.rows key account cached known before]
      rfl

def undisturbed (world : World Record) : Label → Prop
  | .storeShares shares => ∀ share ∈ shares.filterMap isStorableShare, ∀ entry ∈ world.entries,
      isPoolKey entry.1 = false → countsFor entry.1 share = false
  | _ => True

private theorem credit_apart {credited : String → List Share} {rows : String → Option CacheRow}
    (apart : ∀ share ∈ shares, countsFor key share = false) : credit credited rows shares key = credited key := by
  have none : shares.filter (countsFor key) = [] := by
    rw [filter_eq_nil_iff]
    intro share member
    rw [apart share member]
    exact Bool.false_ne_true
  simp only [credit]
  rw [if_pos none]

theorem Sound.step (sound : Sound world) {label : Label} {next : World Record} (may : undisturbed world label)
    (moved : step backend settings world label = some next) : Sound next := by
  cases label with
  | storeShares shares =>
    by_cases empty : shares = []
    · subst empty
      cases moved
      exact ⟨sound.rows,sound.entries⟩
    by_cases storable : Storable backend settings (shares.filterMap isStorableShare) world.db
    · obtain ⟨after,ran,stored⟩ := storeShares_runs empty storable
      simp only [CacheTotals.step,ran] at moved
      cases moved
      refine ⟨sound.stored storable stored,fun entry member account => ?_⟩
      have same : credit world.credited world.db.cacheDB (shares.filterMap isStorableShare) entry.1 =
          world.credited entry.1 := credit_apart fun share stored => may share stored entry member account
      change Totals (credit world.credited world.db.cacheDB (shares.filterMap isStorableShare) entry.1) _
      rw [same]
      exact sound.entries entry member account
    · obtain ⟨failure,ran⟩ := storeShares_fails empty storable
      simp only [CacheTotals.step,ran] at moved
      cases moved
      exact sound
  | storeInvalidShare key count =>
    cases moved
    exact ⟨fun other account => incrementCacheData_totals (sound.rows other account),sound.entries⟩
  | readSnapshot queue =>
    simp only [CacheTotals.step] at moved
    split at moved
    · next ready =>
      cases moved
      exact ⟨sound.rows,fun entry member account => sound.queued ready.2 member account⟩
    · cases moved
  | flush =>
    cases moved
    refine ⟨sound.puts _ fun entry member => sound.entries entry (mem_of_mem_take member),?_⟩
    intro entry member
    exact sound.entries entry (mem_of_mem_drop member)
  | abort =>
    cases moved
    exact ⟨sound.rows,fun entry member => by cases member⟩
  | flushDeletes keys =>
    simp only [CacheTotals.step] at moved
    split at moved
    · cases moved
      refine ⟨fun key account fields others there => ?_,sound.entries⟩
      simp only [flushDeletes] at there
      split at there
      · cases there
      · exact sound.rows key account fields others there
    · cases moved
  | flushStringPuts entries =>
    simp only [CacheTotals.step] at moved
    split at moved
    · next pools =>
      cases moved
      refine ⟨sound.puts entries fun entry member account => ?_,sound.entries⟩
      have pool := all_eq_true.mp pools entry member
      rw [pool] at account
      cases account
    · cases moved

/-- As long as no share comes between a read and a write of its entry, the totals of every entry are
those of the shares stored for it. -/
theorem cached_totals (backend : Backend Record) (settings : Settings)
    (reached : (machine backend settings).ReachableBy undisturbed world) {key : String}
    (account : isPoolKey key = false) {fields : CacheEntry} {others : List (String × String)}
    (there : world.db.cacheDB key = some (.entry fields others)) :
    fields.totalHashes.getD 0 = ((world.credited key).map Share.raw_shares).sum ∧
      fields.goodShares.getD 0 = ((world.credited key).map shareNumber).sum := by
  have sound : Sound world := by
    apply reached.invariant Sound
    · rintro _ rfl
      exact sound_empty
    · intro before after label sound may moved
      exact sound.step may moved
  have counts := sound.rows key account fields others there
  exact ⟨(congrFun counts .totalHashes).trans (sharesCounts_apply ..),
    (congrFun counts .goodShares).trans (sharesCounts_apply ..)⟩

end Writers

section Runs

def plainBackend : Backend Share := ⟨some,fun _ => true,fun _ => true⟩

def plainSettings : Settings := ⟨18081,none,fun _ => none⟩

def rigShare (raw_shares timestamp : ℚ) : Value :=
  .record [("paymentAddress",.string "4miner"),("identifier",.string "rig"),("poolType",.number (.finite 0)),
    ("raw_shares",.number (.finite raw_shares)),("blockHeight",.number (.finite 10)),("foundBlock",.boolean false),
    ("trustedShare",.boolean false),("poolID",.number (.finite 1)),("blockDiff",.number (.finite 1)),
    ("timestamp",.number (.finite timestamp))]

def rigStopped : Label := .readSnapshot [.stopped "4miner",.stopped "4miner_rig"]

def cachedTotal (world : World Share) (key : String) : Option (ℚ × List (String × String)) :=
  match world.db.cacheDB key with
  | some (.entry fields others) => some (fields.totalHashes.getD 0,others)
  | _ => none

theorem entry_of_cachedTotal {world : World Share} {key : String} {total : ℚ} {others : List (String × String)}
    (seen : cachedTotal world key = some (total,others)) :
    ∃ fields, world.db.cacheDB key = some (.entry fields others) ∧ fields.totalHashes.getD 0 = total := by
  unfold cachedTotal at seen
  split at seen
  · next fields known there =>
    cases seen
    exact ⟨fields,there,rfl⟩
  · cases seen

theorem cached_totals_rig : ∃ world fields others, (machine plainBackend plainSettings).ReachableBy undisturbed world ∧
      world.db.cacheDB "4miner_rig" = some (.entry fields others) ∧ others = [("hash","0")] ∧
      fields.totalHashes.getD 0 = ((world.credited "4miner_rig").map Share.raw_shares).sum ∧
      fields.goodShares.getD 0 = ((world.credited "4miner_rig").map shareNumber).sum := by
  have ran : ((machine plainBackend plainSettings).run emptyWorld [.storeShares [rigShare 100 1],
    rigStopped,.flush]).bind
      (fun quiet => (step plainBackend plainSettings quiet (.storeShares [rigShare 50 2])).map fun world =>
        (quiet.entries.isEmpty,cachedTotal world "4miner_rig")) = some (true,some (150,[("hash","0")])) := by
    decide +kernel
  obtain ⟨quiet,ran,last⟩ := Option.bind_eq_some_iff.mp ran
  obtain ⟨world,moved,seen⟩ := Option.map_eq_some_iff.mp last
  obtain ⟨flushed,seen⟩ := Prod.ext_iff.mp seen
  obtain ⟨first,stored,rest⟩ := Option.bind_eq_some_iff.mp ran
  have idle : undisturbed (emptyWorld : World Share) (.storeShares [rigShare 100 1]) := by
    intro share _ entry member
    cases member
  have began : (machine plainBackend plainSettings).ReachableBy undisturbed first := .step (.initial rfl) idle stored
  have early : (machine plainBackend plainSettings).ReachableBy undisturbed quiet := by
    apply began.run _ rest
    simp [undisturbed,rigStopped]
  have may : undisturbed quiet (.storeShares [rigShare 50 2]) := by
    intro share _ entry member
    rw [List.isEmpty_iff.mp flushed] at member
    cases member
  have reached := early.step may moved
  obtain ⟨fields,there,_⟩ := entry_of_cachedTotal seen
  exact ⟨world,fields,_,reached,there,rfl,cached_totals plainBackend plainSettings reached (by decide +kernel) there⟩

/-- A share that is stored after the worker's read and before its write is lost from the totals. -/
theorem stored_share_lost :
    ∃ world fields others, (machine plainBackend plainSettings).Reachable world ∧ isPoolKey "4miner_rig" = false ∧
      world.db.cacheDB "4miner_rig" = some (.entry fields others) ∧ fields.totalHashes.getD 0 = 100 ∧
      ((world.credited "4miner_rig").map Share.raw_shares).sum = 150 := by
  have ran : ((machine plainBackend plainSettings).run emptyWorld
      [.storeShares [rigShare 100 1],rigStopped,.storeShares [rigShare 50 2],.flush]).map
        (fun world => (cachedTotal world "4miner_rig",((world.credited "4miner_rig").map Share.raw_shares).sum)) =
          some (some (100,[("hash","0")]),150) := by
    decide +kernel
  obtain ⟨world,ran,seen⟩ := Option.map_eq_some_iff.mp ran
  obtain ⟨cached,stored⟩ := Prod.ext_iff.mp seen
  obtain ⟨fields,there,total⟩ := entry_of_cachedTotal cached
  exact ⟨world,fields,_,Machine.reachable_run rfl ran,by decide +kernel,there,total,stored⟩

end Runs

end NodejsPool.RemoteShare.CacheTotals
