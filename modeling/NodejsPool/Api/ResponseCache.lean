import NodejsPool.Common.Entries
import Mathlib.Algebra.Order.Ring.Int

/-! The cache of the api's responses: bodies by their keys, the key used last at the end, within a limit on
their number and on their bytes. -/
namespace NodejsPool.Api.ResponseCache
open List
open Entries (erase put erase_absent erase_distinct put_absent put_distinct mem_of_get get_of_mem)

structure CacheEntry where
  body : String
  size : ℕ
  expiresAt : ℤ
  deriving DecidableEq

structure Options where
  maxEntries : ℕ
  maxBytes : ℕ

structure Cache where
  entries : List (String × CacheEntry)
  totalBytes : ℤ

namespace Cache

def deleteKey (cache : Cache) (key : String) : Cache :=
  match Entries.get cache.entries key with
  | none => cache
  | some entry => { entries := Entries.erase cache.entries key,totalBytes := cache.totalBytes - entry.size }

def pruneExpired (cache : Cache) (timeNow : ℤ) : Cache :=
  cache.entries.foldl (fun kept entry => if entry.2.expiresAt ≤ timeNow then kept.deleteKey entry.1 else kept) cache

def get (cache : Cache) (key : String) (timeNow : ℤ) : Option String × Cache :=
  match Entries.get cache.entries key with
  | none => (none,cache)
  | some entry =>
    if entry.expiresAt ≤ timeNow then (none,cache.deleteKey key)
    else (some entry.body,{ cache with entries := Entries.put (Entries.erase cache.entries key) key entry })

def Full (cache : Cache) (options : Options) (size : ℕ) : Prop :=
  options.maxEntries ≤ cache.entries.length ∨ options.maxBytes < cache.totalBytes + size

instance (cache : Cache) (options : Options) (size : ℕ) : Decidable (cache.Full options size) :=
  inferInstanceAs (Decidable (_ ∨ _))

/-- The oldest keys go until there is room: the keys that went, and what is left after as many rounds. -/
def evict (options : Options) (size : ℕ) : ℕ → Cache → List String × Cache
  | 0,cache => ([],cache)
  | rounds+1,cache =>
    if cache.Full options size then
      match cache.entries with
      | [] => ([],cache)
      | oldest::_ =>
        let rest := evict options size rounds (cache.deleteKey oldest.1)
        (oldest.1::rest.1,rest.2)
    else ([],cache)

structure Stored where
  done : Bool
  evicted : List String
  cache : Cache

def set (options : Options) (cache : Cache) (key : String) (ttlMs : ℤ) (body : Option String) (timeNow : ℤ) : Stored :=
  match body with
  | none => ⟨false,[],cache⟩
  | some body =>
    if options.maxEntries ≤ 0 ∨ options.maxBytes ≤ 0 then ⟨false,[],cache⟩
    else
      let size := body.utf8ByteSize
      let pruned := (cache.deleteKey key).pruneExpired timeNow
      if size > options.maxBytes then ⟨false,[],pruned⟩
      else
        -- a round deletes a key, so there are no more rounds than keys
        let room := evict options size pruned.entries.length pruned
        if room.2.Full options size then ⟨false,room.1,room.2⟩
        else ⟨true,room.1,{
          entries := Entries.put room.2.entries key { body := body,size := size,expiresAt := timeNow + ttlMs }
          totalBytes := room.2.totalBytes + size }⟩

def clear (_ : Cache) : Cache := { entries := [],totalBytes := 0 }

end Cache

section Operations

variable {cache : Cache} {options : Options} {key other : String} {entry : CacheEntry} {time : ℤ} {size : ℕ}

def sizes (entries : List (String × CacheEntry)) : ℤ := (entries.map fun entry => (entry.2.size : ℤ)).sum

theorem sizes_cons (entry : String × CacheEntry) (entries : List (String × CacheEntry)) :
    sizes (entry::entries) = entry.2.size + sizes entries := sum_cons

theorem sizes_append (front back : List (String × CacheEntry)) : sizes (front ++ back) = sizes front + sizes back := by
  unfold sizes
  rw [map_append,sum_append]

structure Balanced (cache : Cache) : Prop where
  distinct : (cache.entries.map Prod.fst).Nodup
  counted : cache.totalBytes = sizes cache.entries

theorem deleteKey_entries : (cache.deleteKey key).entries = erase cache.entries key := by
  unfold Cache.deleteKey
  split
  next absent =>
    refine (erase_absent fun member => ?_).symm
    obtain ⟨found,inside,rfl⟩ := mem_map.mp member
    exact absurd (find?_eq_none.mp (Option.map_eq_none_iff.mp absent) found inside) (by simp)
  · rfl

theorem sizes_erase {entries : List (String × CacheEntry)} (distinct : (entries.map Prod.fst).Nodup)
    (found : Entries.get entries key = some entry) : sizes entries = entry.size +
      sizes (erase entries key) := by
  induction entries with
  | nil => cases found
  | cons first entries ih =>
    obtain ⟨fresh,distinct⟩ := nodup_cons.mp distinct
    rw [Entries.get_cons] at found
    unfold erase at ih ⊢
    split at found
    next here =>
      cases found
      rw [filter_cons_of_neg (by simpa using here),sizes_cons]
      exact congrArg _ (congrArg sizes (erase_absent (here ▸ fresh)).symm)
    next apart =>
      rw [filter_cons_of_pos (by simpa using apart),sizes_cons,sizes_cons,ih distinct found]
      omega

theorem Balanced.deleteKey (balanced : Balanced cache) (key : String) : Balanced (cache.deleteKey key) := by
  refine ⟨?_,?_⟩
  · rw [deleteKey_entries]
    exact erase_distinct balanced.distinct
  · unfold Cache.deleteKey
    split
    · exact balanced.counted
    next found =>
      have whole := sizes_erase balanced.distinct found
      have counted := balanced.counted
      show cache.totalBytes - _ = sizes (erase cache.entries key)
      omega

private theorem foldl_deleteKey (time : ℤ) (listed : List (String × CacheEntry)) (balanced : Balanced cache) :
    let left := listed.foldl (fun kept entry => if entry.2.expiresAt ≤ time then kept.deleteKey entry.1 else kept) cache
    Balanced left ∧ left.entries = cache.entries.filter fun entry =>
      listed.all fun expired => time < expired.2.expiresAt || expired.1 ≠ entry.1 := by
  induction listed generalizing cache with
  | nil => exact ⟨balanced,(filter_eq_self.mpr fun _ _ => rfl).symm⟩
  | cons first listed ih =>
    dsimp only [foldl_cons]
    split
    next expired =>
      obtain ⟨kept,left⟩ := ih (balanced.deleteKey first.1)
      refine ⟨kept,left.trans ?_⟩
      rw [deleteKey_entries,erase,filter_filter]
      refine filter_congr fun entry _ => ?_
      rw [all_cons,decide_eq_false (not_lt.mpr expired),Bool.false_or,Bool.and_comm]
      exact congrArg (· && _) (decide_eq_decide.mpr ne_comm)
    next unexpired =>
      obtain ⟨kept,left⟩ := ih balanced
      refine ⟨kept,left.trans (filter_congr fun entry _ => ?_)⟩
      rw [all_cons,decide_eq_true (not_le.mp unexpired),Bool.true_or,Bool.true_and]

theorem Balanced.pruneExpired (balanced : Balanced cache) (time : ℤ) : Balanced (cache.pruneExpired time) ∧
    (cache.pruneExpired time).entries = cache.entries.filter fun entry => time < entry.2.expiresAt := by
  obtain ⟨kept,left⟩ := foldl_deleteKey time cache.entries balanced
  refine ⟨kept,left.trans (filter_congr fun entry member => ?_)⟩
  rw [Bool.eq_iff_iff,all_eq_true,decide_eq_true_eq]
  constructor
  · intro every
    simpa using every entry member
  · intro unexpired expired inside
    by_cases same : expired.1 = entry.1
    · have equal : expired = entry := inj_on_of_nodup_map balanced.distinct inside member same
      simpa [equal] using unexpired
    · simp [same]

private theorem erase_head {first : String × CacheEntry} {entries : List (String × CacheEntry)}
    (distinct : ((first::entries).map Prod.fst).Nodup) : erase (first::entries) first.1 = entries := by
  obtain ⟨fresh,_⟩ := nodup_cons.mp distinct
  unfold erase
  rw [filter_cons_of_neg (by simp)]
  exact erase_absent fresh

private theorem evict_spec (options : Options) (size : ℕ) (balanced : Balanced cache) {rounds : ℕ}
    (enough : cache.entries.length ≤ rounds) :
    ∃ front back, cache.entries = front ++ back ∧ (Cache.evict options size rounds cache).1 = front.map Prod.fst ∧
      (Cache.evict options size rounds cache).2.entries = back ∧ Balanced (Cache.evict options size rounds cache).2 ∧
      ((Cache.evict options size rounds cache).2.Full options size → back = []) := by
  induction rounds generalizing cache with
  | zero =>
    have empty : cache.entries = [] := eq_nil_of_length_eq_zero (by omega)
    exact ⟨[],[],empty,rfl,empty,balanced,fun _ => rfl⟩
  | succ rounds ih =>
    unfold Cache.evict
    split
    next full =>
      split
      next empty => exact ⟨[],[],empty,rfl,empty,balanced,fun _ => rfl⟩
      next oldest rest listed =>
        have shorter : (cache.deleteKey oldest.1).entries = rest := by
          rw [deleteKey_entries,listed]
          exact erase_head (listed ▸ balanced.distinct)
        rw [listed,length_cons] at enough
        obtain ⟨front,back,split,gone,left,kept,room⟩ :=
          ih (balanced.deleteKey oldest.1) (by rw [shorter]; omega)
        rw [shorter] at split
        refine ⟨oldest::front,back,by rw [listed,split,cons_append],?_,left,kept,room⟩
        rw [map_cons,← gone]
    next room => exact ⟨[],cache.entries,rfl,rfl,rfl,balanced,fun full => absurd full room⟩

def current (entries : List (String × CacheEntry)) (key : String) (time : ℤ) : List (String × CacheEntry) :=
  (Entries.erase entries key).filter fun entry => time < entry.2.expiresAt

theorem set_cases (options : Options) (balanced : Balanced cache) (key : String) (ttlMs : ℤ)
    (body : Option String) (time : ℤ) :
    let stored := Cache.set options cache key ttlMs body time
    (stored = ⟨false,[],cache⟩ ∧ (body = none ∨ options.maxEntries = 0 ∨ options.maxBytes = 0)) ∨
    (∃ text, body = some text ∧ stored.done = false ∧ stored.evicted = [] ∧ Balanced stored.cache ∧
      stored.cache.entries = current cache.entries key time ∧ options.maxBytes < text.utf8ByteSize) ∨
    ∃ text front back, body = some text ∧ stored.done = true ∧ current cache.entries key time = front ++ back ∧
      stored.evicted = front.map Prod.fst ∧ Balanced stored.cache ∧
      stored.cache.entries = back ++ [(key,{ body := text,size := text.utf8ByteSize,expiresAt := time + ttlMs })] ∧
      stored.cache.entries.length ≤ options.maxEntries ∧ stored.cache.totalBytes ≤ options.maxBytes ∧
      0 < options.maxEntries ∧ 0 < options.maxBytes := by
  unfold Cache.set
  cases body with
  | none => exact .inl ⟨rfl,.inl rfl⟩
  | some text =>
    dsimp only
    split
    next closed => exact .inl ⟨rfl,.inr (closed.imp Nat.le_zero.mp Nat.le_zero.mp)⟩
    next opened =>
    obtain ⟨pruned,listed⟩ := (balanced.deleteKey key).pruneExpired time
    rw [deleteKey_entries] at listed
    split
    next large => exact .inr (.inl ⟨text,rfl,rfl,rfl,pruned,listed,large⟩)
    next small =>
    obtain ⟨front,back,split,gone,left,kept,room⟩ :=
      evict_spec options text.utf8ByteSize pruned le_rfl
    have free : ¬ (Cache.evict options text.utf8ByteSize ((cache.deleteKey key).pruneExpired time).entries.length
        ((cache.deleteKey key).pruneExpired time)).2.Full options text.utf8ByteSize := by
      intro full
      have counted := kept.counted
      have empty := room full
      rw [left,empty] at counted
      change _ = (0 : ℤ) at counted
      rcases full with many | wide
      · rw [left,empty,length_nil] at many
        omega
      · omega
    have absent : Entries.get back key = none := by
      have member : ∀ entry ∈ back, entry.1 ≠ key := by
        intro entry inside
        have found : entry ∈ (erase cache.entries key).filter fun entry => time < entry.2.expiresAt := by
          rw [← listed,split]
          exact mem_append_right _ inside
        simpa using (mem_filter.mp (mem_filter.mp found).1).2
      unfold Entries.get
      rw [Option.map_eq_none_iff,find?_eq_none]
      exact fun entry inside => by simpa using member entry inside
    rw [if_neg free,left,put_absent absent]
    refine .inr (.inr ⟨text,front,back,rfl,rfl,listed.symm.trans split,gone,⟨?_,?_⟩,rfl,?_,?_,by omega,by omega⟩)
    · have distinct := kept.distinct
      rw [left] at distinct
      have put : ((put back key ⟨text,text.utf8ByteSize,time + ttlMs⟩).map Prod.fst).Nodup :=
        put_distinct distinct
      rwa [put_absent absent] at put
    · have counted := kept.counted
      rw [left] at counted
      rw [sizes_append,counted]
      simp [sizes]
    · unfold Cache.Full at free
      rw [left] at free
      rw [length_append,length_singleton]
      omega
    · unfold Cache.Full at free
      show _ + _ ≤ _
      omega

theorem get_cases (balanced : Balanced cache) (key : String) (time : ℤ) :
    (cache.get key time = (none,cache) ∧ Entries.get cache.entries key = none) ∨
    (∃ entry, Entries.get cache.entries key = some entry ∧ entry.expiresAt ≤ time ∧
      cache.get key time = (none,cache.deleteKey key)) ∨
    ∃ entry, Entries.get cache.entries key = some entry ∧ time < entry.expiresAt ∧
      cache.get key time =
        (some entry.body,{ cache with entries := erase cache.entries key ++ [(key,entry)] }) ∧
      Balanced { cache with entries := erase cache.entries key ++ [(key,entry)] } := by
  unfold Cache.get
  split
  next absent => exact .inl ⟨rfl,absent⟩
  next entry found =>
    split
    next expired => exact .inr (.inl ⟨entry,found,expired,rfl⟩)
    next unexpired =>
      have absent : Entries.get (erase cache.entries key) key = none := Entries.get_erase_self
      have put : ((put (erase cache.entries key) key entry).map Prod.fst).Nodup :=
        put_distinct (erase_distinct balanced.distinct)
      rw [put_absent absent] at put ⊢
      refine .inr (.inr ⟨entry,found,not_le.mp unexpired,rfl,put,?_⟩)
      have whole := sizes_erase balanced.distinct found
      have counted := balanced.counted
      show cache.totalBytes = _
      rw [sizes_append,counted,whole]
      simp only [sizes,map_cons,map_nil,sum_cons,sum_nil]
      omega

end Operations

section Entries

variable {entries front back : List (String × CacheEntry)} {key other : String} {entry : CacheEntry} {time : ℤ}

theorem get_append : Entries.get (front ++ back) key = (Entries.get front key).or (Entries.get back key) := by
  unfold Entries.get
  rw [find?_append]
  cases front.find? fun entry => entry.1 = key <;> rfl

theorem get_absent (absent : key ∉ entries.map Prod.fst) : Entries.get entries key = none := by
  cases found : Entries.get entries key with
  | none => rfl
  | some entry => exact absurd (mem_map_of_mem (mem_of_get found)) absent

theorem get_current (distinct : (entries.map Prod.fst).Nodup) (apart : other ≠ key) :
    Entries.get (current entries key time) other = (Entries.get entries other).filter fun entry => time <
      entry.expiresAt := by
  have erased : Entries.get (erase entries key) other = Entries.get entries other :=
    Entries.get_erase_other apart
  have listed : ((current entries key time).map Prod.fst).Nodup :=
    (erase_distinct distinct).sublist (filter_sublist.map _)
  cases found : Entries.get entries other with
  | none =>
    refine get_absent fun member => ?_
    obtain ⟨kept,inside,rfl⟩ := mem_map.mp member
    have before := (mem_filter.mp inside).1
    rw [← erased,get_of_mem (erase_distinct distinct) before] at found
    cases found
  | some entry =>
    have before := mem_of_get (erased.trans found)
    rw [Option.filter_some]
    split
    next unexpired => exact get_of_mem listed (mem_filter.mpr ⟨before,unexpired⟩)
    next expired =>
      refine get_absent fun member => ?_
      obtain ⟨⟨_,kept⟩,inside,rfl⟩ := mem_map.mp member
      obtain ⟨also,unexpired⟩ := mem_filter.mp inside
      have same := get_of_mem (erase_distinct distinct) also
      rw [erased,found] at same
      cases same
      exact expired unexpired

theorem current_sublist (entries : List (String × CacheEntry)) (key : String) (time : ℤ) :
    (current entries key time).Sublist entries := filter_sublist.trans filter_sublist

end Entries

end NodejsPool.Api.ResponseCache
