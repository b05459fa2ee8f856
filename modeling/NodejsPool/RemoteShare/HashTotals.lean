import Mathlib
import NodejsPool.RemoteShare.BatchStoring

/-! The total hashes a batch adds: those of the pool and those of each port, whatever the
arithmetic of their sums. -/
namespace NodejsPool.RemoteShare.HashTotals
open Async Arithmetic ShareStore Finset

section Keys

variable {key : String}

def portKey (port : ℤ) : String := globalStatsKey ++ ("_" ++ toString port)

def isTotalsKey (key : String) : Prop := key = globalStatsKey ∨ ∃ port, key = portKey port

theorem portKey_injective : Function.Injective portKey := by
  intro left right same
  have texts : toString left = toString right :=
    String.append_right_inj _ |>.mp (String.append_right_inj _ |>.mp same)
  rw [Int.toString_eq_repr,Int.toString_eq_repr] at texts
  exact Int.repr_injective texts

theorem portKey_ne (port : ℤ) : globalStatsKey ≠ portKey port := by
  intro same
  have lengths := congrArg String.length same
  unfold portKey at lengths
  rw [String.length_append,String.length_append] at lengths
  have one : "_".length = 1 := by decide
  omega

theorem totalsKey_begins (totals : isTotalsKey key) : ∃ rest, key = globalStatsKey ++ rest := by
  rcases totals with rfl | ⟨port,rfl⟩
  · exact ⟨"",String.append_empty.symm⟩
  · exact ⟨_,rfl⟩

theorem statsType_ne (totals : isTotalsKey key) (share : Share) (suffix : String) :
    key ≠ statsTypeKey share ++ suffix := by
  obtain ⟨rest,rfl⟩ := totalsKey_begins totals
  intro same
  have heads := congrArg (fun text => text.toList.head?) same
  unfold statsTypeKey poolTypeStr globalStatsKey at heads
  split at heads <;> simp [String.toList_append] at heads

theorem not_totalsKey (head : key.toList.head? ≠ some 'g') : ¬isTotalsKey key := by
  intro totals
  obtain ⟨rest,rfl⟩ := totalsKey_begins totals
  apply head
  simp [globalStatsKey,String.toList_append]

theorem statsType_ne_whole (totals : isTotalsKey key) (share : Share) : key ≠ statsTypeKey share := by
  have apart := statsType_ne totals share ""
  rwa [String.append_empty] at apart

end Keys

section Gathered

variable {updates : CacheUpdates} {key : String} {own : String}

def totalAt (updates : CacheUpdates) (key : String) : ℚ := ((entryAt updates key).bind CacheEntry.totalHashes).getD 0

def hit (key own : String) (value : ℚ) : List ℚ := if key = own then [value] else []

theorem hit_sum (key own : String) (value : ℚ) : (hit key own value).sum = if key = own then value else 0 := by
  unfold hit
  split <;> simp

theorem hit_other {own : String} (other : key ≠ own) (value : ℚ) : hit key own value = [] := if_neg other

theorem totalAt_kept {change : CacheEntry → CacheEntry}
    (keeps : ∀ entry, (change entry).totalHashes = entry.totalHashes)
    (own : String) : totalAt (changeCacheEntry updates own change) key = totalAt updates key := by
  unfold totalAt
  rw [entryAt_change]
  split
  next same =>
    subst same
    cases entryAt updates key with
    | none => rfl
    | some entry => exact congrArg (Option.getD · 0) (keeps entry)
  · rfl

theorem totalAt_ensure {factory : CacheEntry} (empty : factory.totalHashes = some 0) (own : String) :
    totalAt (ensureCacheEntry updates own factory) key = totalAt updates key := by
  unfold totalAt
  rw [entryAt_ensure]
  split
  next same =>
    subst same
    cases entryAt updates key with
    | none => simp [empty]
    | some entry => rfl
  · rfl

theorem totalAt_entries (share : Share) : totalAt (ensureShareEntries updates share) key = totalAt updates key := by
  unfold ensureShareEntries
  rw [totalAt_ensure rfl,totalAt_ensure rfl,totalAt_ensure rfl,totalAt_ensure rfl]

section

variable [Arithmetic]

private theorem addGoodShares_total (value : ℚ) (entry : CacheEntry) :
    (addGoodShares value entry).totalHashes = entry.totalHashes := rfl

private theorem addRoundHashes_total (value : ℚ) (entry : CacheEntry) :
    (addRoundHashes value entry).totalHashes = entry.totalHashes := rfl

theorem totalAt_add (present : own ∈ keysOf updates) (value : ℚ) :
    totalAt (changeCacheEntry updates own (addTotalHashes value)) key = gather (totalAt updates key)
    (hit key own value) := by
  unfold totalAt hit
  rw [entryAt_change]
  split
  next same =>
    subst same
    obtain ⟨entry,found⟩ := Option.isSome_iff_exists.mp (entryAt_isSome.mpr present)
    rw [found]
    rfl
  · rfl

theorem totalAt_hashes (present : own ∈ keysOf updates) (value : ℚ) :
    totalAt (addHashes updates own value) key = gather (totalAt updates key) (hit key own value) := by
  rw [← totalAt_add present,addHashes]
  exact totalAt_kept (addRoundHashes_total value) own

theorem totalAt_shares (present : own ∈ keysOf updates) (share : Share) :
    totalAt (addShares updates own share) key = gather (totalAt updates key) (hit key own share.raw_shares) := by
  rw [← totalAt_add present,addShares]
  exact totalAt_kept (addGoodShares_total _) own

theorem totalAt_port (totals : isTotalsKey key) (share : Share) (suffix : String)
    (present : ∀ own ∈ shareKeys share, own ∈ keysOf updates) :
    totalAt (addPortHashes updates share suffix) key = gather (totalAt updates key)
      (hit key globalStatsKey share.raw_shares ++ hit key (globalStatsKey ++ suffix) share.raw_shares) := by
  have pool : globalStatsKey ∈ keysOf updates := present _ (by simp [shareKeys])
  have type : statsTypeKey share ∈ keysOf updates := present _ (by simp [shareKeys])
  have apart := hit_other (statsType_ne totals share suffix) share.raw_shares
  have other := hit_other (statsType_ne_whole totals share) share.raw_shares
  unfold addPortHashes
  dsimp only
  rw [totalAt_hashes (by simp [keys_hashes,keys_change,keys_ensure]),apart,
    totalAt_add (by simp [keys_hashes,keys_change,keys_ensure,type]),other,
    totalAt_hashes (by simp [keys_change,keys_ensure]),totalAt_add (by simp [keys_ensure,pool]),
    totalAt_ensure rfl,totalAt_ensure rfl,gather_append]
  rfl

end

variable (settings : Settings)

def portOf (share : Share) : ℤ := share.port.getD settings.daemonPort

/-- What a share of the daemon's port adds: it goes to the pool's total before its suffix is
that of the default port, and to the totals of that suffix after. -/
def daemonAdditions (share : Share) (key : String) : List ℚ :=
  hit key globalStatsKey share.raw_shares ++ (hit key globalStatsKey share.raw_shares ++
    hit key (portKey (defaultStatsPort settings)) share.raw_shares)

def portAdditions (share : Share) (key : String) : List ℚ :=
  hit key globalStatsKey share.raw_shares ++ hit key (portKey (portOf settings share)) share.raw_shares

def ownAdditions (share : Share) (key : String) : List ℚ :=
  hit key (getMinerId share) share.raw_shares ++ hit key (minerWorkerID share) share.raw_shares

def additionsAt (share : Share) (key : String) : List ℚ :=
  (if portOf settings share = settings.daemonPort then daemonAdditions settings share key
    else portAdditions settings share key) ++ ownAdditions share key

def batchAdditions (shares : List Share) (key : String) : List ℚ :=
    shares.flatMap fun share => additionsAt settings share key

section

variable (settings : Settings) (share : Share) (key : String)

def daemonHashes : ℚ :=
  (if key = globalStatsKey then share.raw_shares else 0) + (if key = globalStatsKey then share.raw_shares else 0) +
    if key = portKey (defaultStatsPort settings) then share.raw_shares else 0

def portHashes : ℚ :=
  (if key = globalStatsKey then share.raw_shares else 0) + if key = portKey (portOf settings share)
    then share.raw_shares else 0

def ownHashes : ℚ :=
  (if key = getMinerId share then share.raw_shares else 0) + if key = minerWorkerID share then share.raw_shares else 0

def hashesAt : ℚ :=
  (if portOf settings share = settings.daemonPort then daemonHashes settings share key
    else portHashes settings share key) +
    ownHashes share key

private theorem additionsAt_sum : (additionsAt settings share key).sum = hashesAt settings share key := by
  unfold additionsAt hashesAt
  split <;> simp [daemonAdditions,portAdditions,ownAdditions,daemonHashes,portHashes,ownHashes,hit_sum,add_assoc]

theorem batchAdditions_sum (shares : List Share) :
    (batchAdditions settings shares key).sum = (shares.map fun share => hashesAt settings share key).sum := by
  induction shares with
  | nil => rfl
  | cons share shares ih =>
    rw [List.map_cons,List.sum_cons,← ih,← additionsAt_sum,batchAdditions,List.flatMap_cons,List.sum_append]
    rfl

end

private theorem sharePortSuffix_eq (share : Share) : sharePortSuffix settings share =
    if portOf settings share = settings.daemonPort then "" else "_" ++ toString (portOf settings share) := by
  unfold sharePortSuffix portOf
  cases share.port with
  | none => simp
  | some port => rfl

variable [Arithmetic]

private theorem totalAt_share (totals : isTotalsKey key) (share : Share) :
    totalAt (applyShareCacheUpdates settings updates share) key =
    gather (totalAt updates key) (additionsAt settings share key) := by
  have present (own : String) (member : own ∈ shareKeys share) : own ∈ keysOf (ensureShareEntries updates share) :=
    (keys_entries updates share own).mpr (.inl member)
  have pool := present globalStatsKey (by simp [shareKeys])
  have type := present (statsTypeKey share) (by simp [shareKeys])
  have miner := present (getMinerId share) (by simp [shareKeys])
  have worker := present (minerWorkerID share) (by simp [shareKeys])
  unfold applyShareCacheUpdates additionsAt ownAdditions
  rw [sharePortSuffix_eq]
  dsimp only
  by_cases daemon : portOf settings share = settings.daemonPort
  · rw [if_pos daemon,if_pos rfl,if_pos daemon]
    rw [totalAt_shares (by simp [keys_shares,keys_port,keys_hashes,worker]),
      totalAt_shares (by simp [keys_port,keys_hashes,miner]),
      totalAt_port totals share _ (by simpa only [keys_hashes] using present),
      totalAt_hashes (by simp [keys_hashes,type]),hit_other (statsType_ne_whole totals share),totalAt_hashes pool,
      totalAt_entries]
    simp only [daemonAdditions,portKey,gather_append]
    rfl
  · have suffix : "_" ++ toString (portOf settings share) ≠ "" := by
      intro empty
      have lengths := congrArg String.length empty
      rw [String.length_append] at lengths
      have one : "_".length = 1 := by decide
      have none : "".length = 0 := by decide
      omega
    rw [if_neg daemon,if_neg suffix,if_neg daemon]
    rw [totalAt_shares (by simp [keys_shares,keys_port,worker]),totalAt_shares (by simp [keys_port,miner]),
      totalAt_port totals share _ present,totalAt_entries]
    simp only [portAdditions,portKey,gather_append]

private theorem totalAt_batch (totals : isTotalsKey key) (shares : List Share) (updates : CacheUpdates) :
    totalAt (shares.foldl (applyShareCacheUpdates settings) updates) key =
      gather (totalAt updates key) (batchAdditions settings shares key) := by
  induction shares generalizing updates with
  | nil => rfl
  | cons share shares ih =>
    rw [List.foldl_cons,ih,totalAt_share settings totals,batchAdditions,batchAdditions,List.flatMap_cons,gather_append]

theorem totalAt_batchUpdates (totals : isTotalsKey key) (shares : List Share) :
    totalAt (batchUpdates settings shares) key = gather 0 (batchAdditions settings shares key) := by
  have empty : totalAt [(globalStatsKey,statsEntry)] key = 0 := by
    unfold totalAt entryAt
    by_cases here : globalStatsKey = key <;> simp [here,statsEntry]
  rw [batchUpdates,totalAt_batch settings totals,empty]

end Gathered

section Storing

variable {Record : Type} {backend : Backend Record} {settings : Settings} {db after : Db Record}
  {shares : List Share} {key : String}

theorem steady_putShares (backend : Backend Record) (shares : List Share) : (putShares backend shares).Steady := by
  induction shares with
  | nil => exact Work.steady_pure ()
  | cons share shares ih =>
    apply Work.steady_bind
    · unfold putShare
      split
      · exact Work.steady_throw _
      · exact Work.steady_statement _ _
    · exact fun _ => ih

section

variable [Arithmetic]

private theorem steady_mergeCacheEntries (backend : Backend Record) (updates : CacheUpdates) :
    (mergeCacheEntries backend updates).Steady := by
  induction updates with
  | nil => exact Work.steady_pure ()
  | cons entry updates ih =>
    obtain ⟨key,cacheEntry⟩ := entry
    apply Work.steady_bind
    · unfold mergeCacheEntry
      apply Work.steady_bind (Work.steady_statement _ _)
      intro cacheStore
      split
      · exact Work.steady_throw _
      · exact Work.steady_statement _ _
    · exact fun _ => ih

theorem steady_storeWork (backend : Backend Record) (settings : Settings) (shares : List Share) :
    (storeWork backend settings shares).Steady := by
  apply Work.steady_bind (steady_mergeCacheEntries backend _)
  intro _
  apply Work.steady_bind (steady_putShares backend shares)
  exact fun _ => Work.steady_pure true

theorem storeShares_stored {shares : List Value} {faults : Faults}
    (ran : storeShares backend settings shares faults db = (.ok true,after)) :
    Stored backend settings (shares.filterMap isStorableShare) db after := by
  have some : shares ≠ [] := by
    rintro rfl
    cases ran
  rw [storeShares,if_neg (by simpa using some)] at ran
  rcases transact_cases ran with ⟨_,error,failed⟩ | ⟨value,worked,done | ⟨error,failed⟩⟩
  · cases failed
  · cases done
    have plain := steady_storeWork backend settings _ db true after worked
    have whole : storeShares backend settings shares {} db = (.ok true,after) := by
      rw [storeShares,if_neg (by simpa using some)]
      exact transact_ok rfl rfl plain
    by_cases storable : Storable backend settings (shares.filterMap isStorableShare) db
    · obtain ⟨result,stored,written⟩ := storeShares_runs some storable
      rw [whole] at stored
      cases stored
      exact written
    · obtain ⟨failure,failed⟩ := storeShares_fails some storable
      rw [whole] at failed
      cases failed
  · cases failed

end

def rowTotal : Option CacheRow → ℚ
  | some (.entry fields _) => fields.totalHashes.getD 0
  | _ => 0

def totalHashes (db : Db Record) (key : String) : ℚ := rowTotal (db.cacheDB key)

private theorem mergedRow_total [Arithmetic] {row : Option CacheRow} {next : CacheEntry} {merged : CacheRow}
    (made : mergedRow key row next = .ok merged)
    (whole : nearest (rowTotal row + next.totalHashes.getD 0) = rowTotal row + next.totalHashes.getD 0) :
    rowTotal (some merged) = rowTotal row + next.totalHashes.getD 0 := by
  obtain ⟨total,good,round⟩ := next
  rcases row with _ | _ | ⟨cached,others⟩
  · obtain rfl := Except.ok.inj made
    exact (zero_add _).symm
  · cases made
  · obtain rfl := Except.ok.inj made
    cases total with
    | none => rcases round with _ | _ | _ <;> cases good <;> exact (add_zero _).symm
    | some value => rcases round with _ | _ | _ <;> cases good <;> exact whole

/-- No total is rounded on the way: not while the batch is gathered, nor when it is merged into the cache. -/
def Whole [Arithmetic] (settings : Settings) (shares : List Share) (db : Db Record) : Prop :=
  ∀ key, isTotalsKey key → Unrounded 0 (batchAdditions settings shares key) ∧
    nearest (totalHashes db key + (batchAdditions settings shares key).sum) =
      totalHashes db key + (batchAdditions settings shares key).sum

theorem stored_total [Arithmetic] (stored : Stored backend settings shares db after) (whole : Whole settings shares db)
    (totals : isTotalsKey key) :
    totalHashes after key = totalHashes db key + (shares.map fun share => hashesAt settings share key).sum := by
  obtain ⟨unrounded,merges⟩ := whole key totals
  have gathered := totalAt_batchUpdates settings totals shares
  rw [unrounded.gather,zero_add] at gathered
  rw [← batchAdditions_sum settings key shares]
  have row := stored.rows key
  unfold MergedAt at row
  unfold totalAt at gathered
  unfold totalHashes at merges ⊢
  cases found : entryAt (batchUpdates settings shares) key with
  | none =>
    rw [found] at row gathered
    rw [← gathered,row]
    exact (add_zero _).symm
  | some entry =>
    rw [found] at row gathered
    obtain ⟨merged,made,row⟩ := row
    rw [← gathered] at merges ⊢
    rw [row]
    exact mergedRow_total made merges

def Balanced (db : Db Record) : Prop :=
  ∃ ports : Finset ℤ, (∀ port ∉ ports, totalHashes db (portKey port) = 0) ∧
    totalHashes db globalStatsKey = ∑ port ∈ ports, totalHashes db (portKey port)

def portShares (settings : Settings) (shares : List Share) (port : ℤ) : List Share :=
  shares.filter fun share => portOf settings share = port

def rawSum (shares : List Share) : ℚ := (shares.map Share.raw_shares).sum

structure Exact (settings : Settings) (shares : List Share) (db after : Db Record) : Prop where
  pool : totalHashes after globalStatsKey = totalHashes db globalStatsKey + rawSum shares
  ports : ∀ port, totalHashes after (portKey port) = totalHashes db (portKey port) +
    rawSum (portShares settings shares port)
  balanced : Balanced db → Balanced after

/-- A share without hashes, or one of another port than the daemon's whose miner and worker
have entries of their own. -/
def CountedOnce (settings : Settings) (share : Share) : Prop :=
  share.raw_shares = 0 ∨ (∃ port, share.port = some port ∧ port ≠ settings.daemonPort) ∧
    ¬isTotalsKey (getMinerId share) ∧ ¬isTotalsKey (minerWorkerID share)

theorem portOf_ne :
    portOf settings share ≠ settings.daemonPort ↔ ∃ port, share.port = some port ∧ port ≠ settings.daemonPort := by
  unfold portOf
  cases share.port <;> simp

theorem rawSum_cons (share : Share) (shares : List Share) : rawSum (share::shares) = share.raw_shares + rawSum shares :=
  List.sum_cons

theorem rawSum_portShares_cons (share : Share) (shares : List Share) (port : ℤ) :
    rawSum (portShares settings (share::shares) port) =
      (if portOf settings share = port then share.raw_shares else 0) + rawSum (portShares settings shares port) := by
  unfold portShares
  by_cases own : portOf settings share = port
  · rw [List.filter_cons_of_pos (by simpa using own),rawSum_cons,if_pos own]
  · rw [List.filter_cons_of_neg (by simpa using own),if_neg own,zero_add]

theorem hashesAt_pool (share : Share) : hashesAt settings share globalStatsKey =
    share.raw_shares + ((if portOf settings share = settings.daemonPort then share.raw_shares else 0) +
      ownHashes share globalStatsKey) := by
  unfold hashesAt daemonHashes portHashes
  split
  · rw [if_pos rfl,if_neg (portKey_ne _)]
    ring
  · rw [if_pos rfl,if_neg (portKey_ne _)]
    ring

theorem hashesAt_port (other : portOf settings share ≠ settings.daemonPort) (port : ℤ) :
    hashesAt settings share (portKey port) =
      (if portOf settings share = port then share.raw_shares else 0) + ownHashes share (portKey port) := by
  unfold hashesAt portHashes
  rw [if_neg other,if_neg (portKey_ne port).symm,zero_add]
  simp only [portKey_injective.eq_iff,eq_comm]

theorem hashesAt_none (none : share.raw_shares = 0) (key : String) : hashesAt settings share key = 0 := by
  simp [hashesAt,daemonHashes,portHashes,ownHashes,none]

theorem ownHashes_nonneg (sound : 0 ≤ share.raw_shares) (key : String) : 0 ≤ ownHashes share key := by
  unfold ownHashes
  split <;> split <;> linarith

theorem ownHashes_eq_zero (sound : 0 ≤ share.raw_shares) (zero : ownHashes share key = 0) :
    share.raw_shares = 0 ∨ (getMinerId share ≠ key ∧ minerWorkerID share ≠ key) := by
  unfold ownHashes at zero
  by_cases miner : key = getMinerId share
  · rw [if_pos miner] at zero
    left
    split at zero <;> linarith
  · by_cases worker : key = minerWorkerID share
    · rw [if_neg miner,if_pos worker,zero_add] at zero
      exact .inl zero
    · exact .inr ⟨Ne.symm miner,Ne.symm worker⟩

theorem ownHashes_apart (totals : isTotalsKey key) (miner : ¬isTotalsKey (getMinerId share))
    (worker : ¬isTotalsKey (minerWorkerID share)) : ownHashes share key = 0 := by
  unfold ownHashes
  rw [if_neg,if_neg,add_zero]
  · rintro rfl
    exact worker totals
  · rintro rfl
    exact miner totals

variable {share : Share}

theorem CountedOnce.pool (once : CountedOnce settings share) :
    hashesAt settings share globalStatsKey = share.raw_shares := by
  rcases once with none | ⟨other,miner,worker⟩
  · rw [hashesAt_none none,none]
  · rw [hashesAt_pool,if_neg (portOf_ne.mpr other),ownHashes_apart (.inl rfl) miner worker,add_zero,add_zero]

theorem CountedOnce.port (once : CountedOnce settings share) (port : ℤ) : hashesAt settings share (portKey port) =
    if portOf settings share = port then share.raw_shares else 0 := by
  rcases once with none | ⟨other,miner,worker⟩
  · rw [hashesAt_none none,none,ite_self]
  · rw [hashesAt_port (portOf_ne.mpr other),ownHashes_apart (.inr ⟨port,rfl⟩) miner worker,add_zero]

theorem poolHashes_sum (once : ∀ share ∈ shares, CountedOnce settings share) :
    (shares.map fun share => hashesAt settings share globalStatsKey).sum = rawSum shares := by
  rw [rawSum]
  congr 1
  exact List.map_congr_left fun share member => (once share member).pool

theorem portHashes_sum (once : ∀ share ∈ shares, CountedOnce settings share) (port : ℤ) :
    (shares.map fun share => hashesAt settings share (portKey port)).sum =
      rawSum (portShares settings shares port) := by
  induction shares with
  | nil => rfl
  | cons share shares ih =>
    rw [List.map_cons,List.sum_cons,(once share List.mem_cons_self).port,rawSum_portShares_cons,
      ih fun other member => once other (List.mem_cons_of_mem _ member)]

theorem rawSum_ports (shares : List Share) {ports : Finset ℤ} (all : ∀ share ∈ shares, portOf settings share ∈ ports) :
    ∑ port ∈ ports, rawSum (portShares settings shares port) = rawSum shares := by
  induction shares with
  | nil => exact sum_eq_zero fun _ _ => rfl
  | cons share shares ih =>
    simp only [rawSum_portShares_cons]
    rw [sum_add_distrib,ih fun other member => all other (List.mem_cons_of_mem _ member),sum_ite_eq,
      if_pos (all share List.mem_cons_self),rawSum_cons]

private theorem balanced_grows (balanced : Balanced db)
    (pool : totalHashes after globalStatsKey = totalHashes db globalStatsKey + rawSum shares)
    (ports : ∀ port, totalHashes after (portKey port) =
      totalHashes db (portKey port) + rawSum (portShares settings shares port)) : Balanced after := by
  obtain ⟨known,outside,total⟩ := balanced
  have added (port : ℤ) (fresh : port ∉ known ∪ (shares.map (portOf settings)).toFinset) :
      rawSum (portShares settings shares port) = 0 := by
    have none : portShares settings shares port = [] := by
      rw [portShares,List.filter_eq_nil_iff]
      intro share member same
      apply fresh
      rw [mem_union,List.mem_toFinset]
      exact .inr (List.mem_map.mpr ⟨share,member,of_decide_eq_true same⟩)
    rw [none]
    rfl
  have before : ∑ port ∈ known, totalHashes db (portKey port) =
      ∑ port ∈ known ∪ (shares.map (portOf settings)).toFinset, totalHashes db (portKey port) :=
    sum_subset subset_union_left fun port _ absent => outside port absent
  refine ⟨known ∪ (shares.map (portOf settings)).toFinset,?_,?_⟩
  · intro port fresh
    rw [ports,added port fresh,add_zero]
    exact outside port fun member => fresh (mem_union_left _ member)
  · simp only [ports]
    rw [sum_add_distrib,← before,← total,rawSum_ports,pool]
    intro share member
    exact mem_union_right _ (List.mem_toFinset.mpr (List.mem_map_of_mem member))

theorem Exact.of_once [Arithmetic] (stored : Stored backend settings shares db after) (whole : Whole settings shares db)
    (once : ∀ share ∈ shares, CountedOnce settings share) : Exact settings shares db after := by
  have pool : totalHashes after globalStatsKey = totalHashes db globalStatsKey + rawSum shares := by
    rw [stored_total stored whole (.inl rfl),poolHashes_sum once]
  have ports (port : ℤ) : totalHashes after (portKey port) =
      totalHashes db (portKey port) + rawSum (portShares settings shares port) := by
    rw [stored_total stored whole (.inr ⟨port,rfl⟩),portHashes_sum once]
  exact ⟨pool,ports,fun balanced => balanced_grows balanced pool ports⟩

theorem terms_agree {A : Type} {low high : A → ℚ} {items : List A} (bound : ∀ item ∈ items, low item ≤ high item)
    (agree : (items.map high).sum = (items.map low).sum) : ∀ item ∈ items, high item = low item := by
  induction items with
  | nil => nofun
  | cons item items ih =>
    rw [List.map_cons,List.map_cons,List.sum_cons,List.sum_cons] at agree
    have here := bound item List.mem_cons_self
    have rest : (items.map low).sum ≤ (items.map high).sum :=
      List.sum_le_sum fun other member => bound other (List.mem_cons_of_mem _ member)
    intro other member
    rcases List.mem_cons.mp member with rfl | tail
    · linarith
    · exact ih (fun item member => bound item (List.mem_cons_of_mem _ member)) (by linarith) other tail

section

variable [Arithmetic] (exact : Exact settings shares db after) (stored : Stored backend settings shares db after)
  (whole : Whole settings shares db) (sound : ∀ share ∈ shares, 0 ≤ share.raw_shares)
include exact stored whole sound

theorem Exact.pool_terms : ∀ share ∈ shares, share.raw_shares = 0 ∨ portOf settings share ≠ settings.daemonPort ∧
      getMinerId share ≠ globalStatsKey ∧ minerWorkerID share ≠ globalStatsKey := by
  have sums : (shares.map fun share => hashesAt settings share globalStatsKey).sum =
      (shares.map Share.raw_shares).sum := by
    have total := exact.pool
    rw [stored_total stored whole (.inl rfl)] at total
    exact add_left_cancel total
  have extra (share : Share) (member : share ∈ shares) : 0 ≤ (if portOf settings share = settings.daemonPort then
      share.raw_shares else 0) := by
    have nonneg := sound share member
    split <;> linarith
  intro share member
  have same := terms_agree (fun share member => by
    rw [hashesAt_pool]
    have own := ownHashes_nonneg (sound share member) globalStatsKey
    have more := extra share member
    linarith) sums share member
  rw [hashesAt_pool] at same
  have own := ownHashes_nonneg (sound share member) globalStatsKey
  have more := extra share member
  rcases ownHashes_eq_zero (sound share member) (by linarith : ownHashes share globalStatsKey = 0) with none | apart
  · exact .inl none
  · by_cases daemon : portOf settings share = settings.daemonPort
    · rw [if_pos daemon] at same more
      left
      linarith
    · exact .inr ⟨daemon,apart⟩

theorem Exact.once : ∀ share ∈ shares, CountedOnce settings share := by
  have terms := exact.pool_terms stored whole sound
  have ports (port : ℤ) : ∀ share ∈ shares, hashesAt settings share (portKey port) =
      if portOf settings share = port then share.raw_shares else 0 := by
    have sums : (shares.map fun share => hashesAt settings share (portKey port)).sum =
        (shares.map fun share => if portOf settings share = port then share.raw_shares else 0).sum := by
      have total := exact.ports port
      rw [stored_total stored whole (.inr ⟨port,rfl⟩)] at total
      rw [add_left_cancel total]
      clear total terms exact stored whole sound
      induction shares with
      | nil => rfl
      | cons share shares ih => rw [rawSum_portShares_cons,ih,List.map_cons,List.sum_cons]
    apply terms_agree _ sums
    intro share member
    rcases terms share member with none | ⟨other,_⟩
    · rw [hashesAt_none none,none,ite_self]
    · rw [hashesAt_port other]
      have own := ownHashes_nonneg (sound share member) (portKey port)
      linarith
  intro share member
  rcases terms share member with none | ⟨other,miner,worker⟩
  · exact .inl none
  by_cases none : share.raw_shares = 0
  · exact .inl none
  have apart (port : ℤ) : getMinerId share ≠ portKey port ∧ minerWorkerID share ≠ portKey port := by
    have same := ports port share member
    rw [hashesAt_port other] at same
    have zero : ownHashes share (portKey port) = 0 := by linarith
    exact (ownHashes_eq_zero (sound share member) zero).resolve_left none
  refine .inr ⟨portOf_ne.mp other,?_,?_⟩
  · rintro (same | ⟨port,same⟩)
    · exact miner same
    · exact (apart port).1 same
  · rintro (same | ⟨port,same⟩)
    · exact worker same
    · exact (apart port).2 same

end

theorem storable_nonneg {value : Value} (storable : isStorableShare value = some share) : 0 ≤ share.raw_shares := by
  unfold isStorableShare at storable
  iterate 3 obtain ⟨_,_,storable⟩ := Option.bind_eq_some_iff.mp storable
  obtain ⟨work,filtered,storable⟩ := Option.bind_eq_some_iff.mp storable
  have nonneg : 0 ≤ work := of_decide_eq_true (Option.filter_eq_some_iff.mp filtered).2
  iterate 11 obtain ⟨_,_,storable⟩ := Option.bind_eq_some_iff.mp storable
  cases storable
  exact nonneg

end Storing

section Runs

variable {Record : Type} [Arithmetic]

def storeBatches (backend : Backend Record) (settings : Settings) (batches : List (List Value × Faults))
    (db : Db Record) :
    Db Record :=
  batches.foldl (fun db batch => (storeShares backend settings batch.1 batch.2 db).2) db

def CountsOnce (settings : Settings) (shares : List Share) (db : Db Record) : Prop :=
  (∀ share ∈ shares, CountedOnce settings share) ∧ Whole settings shares db

/-- Every batch of a run counts its shares once, on the database it meets. -/
def Meets (backend : Backend Record) (settings : Settings) : List (List Value × Faults) → Db Record → Prop
  | [],_ => True
  | batch::batches,db => CountsOnce settings (batch.1.filterMap isStorableShare) db ∧
      Meets backend settings batches (storeShares backend settings batch.1 batch.2 db).2

private theorem balanced_step {backend : Backend Record} {settings : Settings} {db : Db Record} (balanced : Balanced db)
    (shares : List Value) (faults : Faults) (once : CountsOnce settings (shares.filterMap isStorableShare) db) :
    Balanced (storeShares backend settings shares faults db).2 := by
  rcases ran : storeShares backend settings shares faults db with ⟨_ | stored,after⟩
  · rw [storeShares_atomic ran]
    exact balanced
  · cases stored with
    | false =>
      unfold storeShares at ran
      split at ran
      · cases ran
        exact balanced
      · rcases transact_cases ran with ⟨_,_,failed⟩ | ⟨value,worked,done | ⟨_,failed⟩⟩
        · cases failed
        · cases done
          have plain := steady_storeWork backend settings _ db false after worked
          obtain ⟨_,_,_,worked⟩ := Work.yields_bind worked
          obtain ⟨_,_,_,worked⟩ := Work.yields_bind worked
          exact nomatch (Work.yields_pure worked).1
        · cases failed
    | true => exact (Exact.of_once (storeShares_stored ran) once.2 once.1).balanced balanced

/-- Where no total is rounded, the totals grow exactly when every share with hashes is of a port
other than the daemon's and its own entries are apart from the totals; and as long as that holds
of every share they balance. -/
theorem hash_totals (backend : Backend Record) (settings : Settings) :
    (∀ shares faults db after, storeShares backend settings shares faults db = (.ok true,after) →
      Whole settings (shares.filterMap isStorableShare) db →
        (Exact settings (shares.filterMap isStorableShare) db after ↔
          ∀ share ∈ shares.filterMap isStorableShare, CountedOnce settings share)) ∧
    ∀ (batches : List (List Value × Faults)) (db : Db Record), Balanced db → Meets backend settings batches db →
      Balanced (storeBatches backend settings batches db) := by
  constructor
  · intro shares faults db after ran whole
    have stored := storeShares_stored ran
    constructor
    · intro exact
      apply exact.once stored whole
      intro share member
      obtain ⟨value,_,storable⟩ := List.mem_filterMap.mp member
      exact storable_nonneg storable
    · exact Exact.of_once stored whole
  · intro batches
    induction batches with
    | nil => exact fun _ balanced _ => balanced
    | cons batch batches ih =>
      intro db balanced meets
      exact ih _ (balanced_step balanced batch.1 batch.2 meets.1) meets.2

end Runs

section Doubles
open Arithmetic.Rounded

/-- Whole terms of bounded sum. -/
def Small (bound : ℚ) (terms : List ℚ) : Prop :=
  ∃ naturals : List ℕ, terms = naturals.map Nat.cast ∧ (naturals.sum : ℚ) ≤ bound

theorem Small.append {bound more : ℚ} {terms others : List ℚ} (small : Small bound terms) (rest : Small more others) :
    Small (bound + more) (terms ++ others) := by
  obtain ⟨naturals,rfl,within⟩ := small
  obtain ⟨naturals',rfl,within'⟩ := rest
  refine ⟨naturals ++ naturals',by rw [List.map_append],?_⟩
  rw [List.sum_append,Nat.cast_add]
  exact add_le_add within within'

private theorem hit_small (key own : String) (raw : ℕ) : Small raw (hit key own raw) := by
  unfold hit
  split
  · exact ⟨[raw],rfl,by simp⟩
  · exact ⟨[],rfl,by simp⟩

variable {settings : Settings} {shares : List Share} {Record : Type} {db : Db Record}

private theorem additionsAt_small {share : Share} {raw : ℕ} (whole : share.raw_shares = raw) (key : String) :
    Small (5 * raw) (additionsAt settings share key) := by
  have own := (hit_small key (getMinerId share) raw).append (hit_small key (minerWorkerID share) raw)
  unfold additionsAt daemonAdditions portAdditions ownAdditions
  rw [whole]
  split
  · obtain ⟨naturals,same,within⟩ :=
      ((hit_small key globalStatsKey raw).append ((hit_small key globalStatsKey raw).append
      (hit_small key (portKey (defaultStatsPort settings)) raw))).append own
    exact ⟨naturals,same,by linarith⟩
  · obtain ⟨naturals,same,within⟩ := ((hit_small key globalStatsKey raw).append
      (hit_small key (portKey (portOf settings share)) raw)).append own
    exact ⟨naturals,same,by linarith [show (0 : ℚ) ≤ raw from Nat.cast_nonneg raw]⟩

/-- Whole hashes whose totals stay below the 2^53 of a double are counted without rounding. -/
theorem whole_small (raws : ∀ share ∈ shares, ∃ raw : ℕ, share.raw_shares = raw)
    (cached : ∀ key, isTotalsKey key → ∃ total : ℕ, totalHashes db key = total ∧ total + 5 * rawSum shares < 2^53) :
    Whole settings shares db := by
  intro key totals
  obtain ⟨total,same,bound⟩ := cached key totals
  have small : Small (5 * rawSum shares) (batchAdditions settings shares key) := by
    clear cached bound
    induction shares with
    | nil => exact ⟨[],rfl,by simp [rawSum]⟩
    | cons share shares ih =>
      obtain ⟨raw,whole⟩ := raws share List.mem_cons_self
      have rest := ih fun other member => raws other (List.mem_cons_of_mem _ member)
      rw [rawSum_cons,whole,mul_add]
      exact (additionsAt_small whole key).append rest
  obtain ⟨naturals,terms,within⟩ := small
  have below : total + naturals.sum < 2^53 := by
    have less : (total : ℚ) + naturals.sum < 2^53 := by linarith
    exact_mod_cast less
  have sum : (naturals.map (Nat.cast : ℕ → ℚ)).sum = (naturals.sum : ℕ) := by push_cast; rfl
  rw [terms,same,sum]
  refine ⟨?_,?_⟩
  · exact_mod_cast unrounded_whole (show 0 + naturals.sum < 2^53 by omega)
  · exact_mod_cast nearest_doubles (Wire.Format.holds_natCast below)

def emptyDb : Db Share := ⟨∅,fun _ => none⟩

private theorem balanced_empty : Balanced emptyDb := ⟨∅,fun _ _ => rfl,rfl⟩

def portShare (port raw_shares : ℚ) : Value := portedShare "4miner" port raw_shares

def portBatch : List Value := [portShare 18148 5,portShare 12211 3,portShare 18148 4]

private theorem portBatch_once : ∀ share ∈ portBatch.filterMap isStorableShare, CountedOnce plainSettings share := by
  have apart : ∀ share ∈ portBatch.filterMap isStorableShare, share.port.any (· ≠ plainSettings.daemonPort) = true ∧
      (getMinerId share).toList.head? ≠ some 'g' ∧ (minerWorkerID share).toList.head? ≠ some 'g' := by
    decide +kernel
  intro share member
  obtain ⟨other,miner,worker⟩ := apart share member
  obtain ⟨port,given,differs⟩ := (Option.any_eq_true _ _).mp other
  exact .inr ⟨⟨port,given,of_decide_eq_true differs⟩,not_totalsKey miner,not_totalsKey worker⟩

private theorem portBatch_whole : Whole plainSettings (portBatch.filterMap isStorableShare) emptyDb := by
  have raws : ∀ share ∈ portBatch.filterMap isStorableShare, share.raw_shares =
    share.raw_shares.num.toNat := by decide +kernel
  apply whole_small fun share member => ⟨_,raws share member⟩
  intro key _
  refine ⟨0,rfl,?_⟩
  have sum : rawSum (portBatch.filterMap isStorableShare) = 12 := by decide +kernel
  rw [sum]
  norm_num

theorem hash_totals_two_ports :
    (∃ after, storeShares plainBackend plainSettings portBatch {} emptyDb = (.ok true,after) ∧
      Exact plainSettings (portBatch.filterMap isStorableShare) emptyDb after ∧ totalHashes after globalStatsKey = 12) ∧
    Balanced (storeBatches plainBackend plainSettings [(portBatch,{committed := false}),(portBatch,{})] emptyDb) := by
  obtain ⟨batch,run⟩ := hash_totals plainBackend plainSettings
  constructor
  · have seen : (storeShares plainBackend plainSettings portBatch {} emptyDb).1.toOption = some true ∧
        totalHashes (storeShares plainBackend plainSettings portBatch {} emptyDb).2 globalStatsKey = 12 := by
      decide +kernel
    rcases ran : storeShares plainBackend plainSettings portBatch {} emptyDb with ⟨_ | stored,after⟩
    · rw [ran] at seen
      cases seen.1
    · rw [ran] at seen
      cases seen.1
      exact ⟨after,rfl,(batch _ _ _ _ ran portBatch_whole).mpr portBatch_once,seen.2⟩
  · apply run _ _ balanced_empty
    exact ⟨⟨portBatch_once,portBatch_whole⟩,⟨portBatch_once,portBatch_whole⟩,trivial⟩

/-- A share without a port is added to the pool's total twice. -/
theorem daemon_share_doubled : ¬∀ (shares : List Value) (faults : Faults) (db after : Db Share),
    storeShares plainBackend plainSettings shares faults db = (.ok true,after) →
      Exact plainSettings (shares.filterMap isStorableShare) db after := by
  intro exact
  have seen : (storeShares plainBackend plainSettings [sampleShare "4miner"] {} emptyDb).1.toOption = some true ∧
      totalHashes (storeShares plainBackend plainSettings [sampleShare "4miner"] {} emptyDb).2 globalStatsKey ≠
        totalHashes emptyDb globalStatsKey + rawSum ([sampleShare "4miner"].filterMap isStorableShare) := by
    decide +kernel
  rcases ran : storeShares plainBackend plainSettings [sampleShare "4miner"] {} emptyDb with ⟨_ | stored,after⟩
  · rw [ran] at seen
    cases seen.1
  · rw [ran] at seen
    cases seen.1
    exact seen.2 (exact _ _ _ _ ran).pool

end Doubles

end NodejsPool.RemoteShare.HashTotals
