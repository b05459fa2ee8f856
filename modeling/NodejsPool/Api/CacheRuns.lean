import NodejsPool.Api.ResponseCache
import NodejsPool.Async.Machine

/-! Runs of the cache: the log of what was asked of it, and what holds of the two after every run. -/
namespace NodejsPool.Api.ResponseCache
open Async List

section Runs

inductive Operation
  | get (key : String)
  | set (key : String) (ttlMs : ℤ) (body : Option String)
  | clear

inductive Outcome
  | got (body : Option String)
  | stored (done : Bool) (evicted : List String)
  | cleared
  deriving DecidableEq

structure Record where
  time : ℤ
  operation : Operation
  outcome : Outcome

/-- `log` has the newest record first. -/
structure World where
  cache : Cache
  clock : ℤ
  log : List Record

def perform (options : Options) (cache : Cache) (time : ℤ) : Operation → Outcome × Cache
  | .get key =>
    let answer := cache.get key time
    (.got answer.1,answer.2)
  | .set key ttlMs body =>
    let stored := Cache.set options cache key ttlMs body time
    (.stored stored.done stored.evicted,stored.cache)
  | .clear => (.cleared,cache.clear)

def step (options : Options) (world : World) (label : ℤ × Operation) : Option World :=
  if world.clock ≤ label.1 then
    let performed := perform options world.cache label.1 label.2
    some { cache := performed.2,clock := label.1,log := ⟨label.1,label.2,performed.1⟩::world.log }
  else none

def machine (options : Options) : Machine World (ℤ × Operation) where
  initial world := world.cache = { entries := [],totalBytes := 0 } ∧ world.log = []
  step := step options

/-- The body and the expiry that the last successful set of a key gave it, unless it was evicted, cleared or dropped
by a set that failed since. -/
def live (key : String) : List Record → Option (String × ℤ)
  | [] => none
  | record::older =>
    match record.operation,record.outcome with
    | .clear,_ => none
    | .set other ttlMs (some body),.stored done evicted =>
      if other = key then if done then some (body,record.time + ttlMs) else none
      else if key ∈ evicted then none
      else live key older
    | _,_ => live key older

def Record.Uses (record : Record) (key : String) : Prop :=
  match record.operation,record.outcome with
  | .get other,.got (some _) => other = key
  | .set other _ _,.stored true _ => other = key
  | _,_ => False

instance (record : Record) (key : String) : Decidable (record.Uses key) := by
  unfold Record.Uses
  split <;> infer_instance

def lastUse (key : String) : List Record → ℕ
  | [] => 0
  | record::older => if record.Uses key then older.length + 1 else lastUse key older

end Runs

section Log

variable {record : Record} {log : List Record} {key : String}

theorem lastUse_le (key : String) (log : List Record) : lastUse key log ≤ log.length := by
  induction log with
  | nil => exact le_rfl
  | cons record log ih =>
    unfold lastUse
    rw [length_cons]
    split
    · exact le_rfl
    · exact ih.trans (Nat.le_succ _)

theorem lastUse_used (used : record.Uses key) : lastUse key (record::log) = log.length + 1 := if_pos used

theorem lastUse_unused (unused : ¬ record.Uses key) : lastUse key (record::log) = lastUse key log := if_neg unused

variable {other body : String} {time ttlMs : ℤ} {done : Bool} {evicted : List String}

theorem live_stored_self : live key (⟨time,.set key ttlMs (some body),.stored done evicted⟩::log) =
    if done then some (body,time + ttlMs) else none := if_pos rfl

theorem live_stored_other (apart : other ≠ key) (kept : other ∉ evicted) :
    live other (⟨time,.set key ttlMs (some body),.stored done evicted⟩::log) = live other log :=
  (if_neg (Ne.symm apart)).trans (if_neg kept)

theorem live_evicted (apart : other ≠ key) (gone : other ∈ evicted) :
    live other (⟨time,.set key ttlMs (some body),.stored done evicted⟩::log) = none :=
  (if_neg (Ne.symm apart)).trans (if_pos gone)

end Log

section Invariant

structure Sound (options : Options) (world : World) : Prop where
  balanced : Balanced world.cache
  texts : ∀ entry ∈ world.cache.entries, entry.2.size = entry.2.body.utf8ByteSize
  count : world.cache.entries.length ≤ options.maxEntries
  bytes : world.cache.totalBytes ≤ options.maxBytes
  closed : options.maxEntries = 0 ∨ options.maxBytes = 0 → world.cache.entries = []
  ordered : world.cache.entries.Pairwise fun older newer => lastUse older.1 world.log < lastUse newer.1 world.log
  known : ∀ key entry, Entries.get world.cache.entries key = some entry →
    live key world.log = some (entry.body,entry.expiresAt)
  gone : ∀ key body expiresAt, Entries.get world.cache.entries key = none → live key world.log = some (body,expiresAt) →
    expiresAt ≤ world.clock

variable {options : Options} {world : World} {time : ℤ}

theorem current_self (entries : List (String × CacheEntry)) (key : String) (time : ℤ) :
    Entries.get (current entries key time) key = none := by
  refine get_absent fun member => ?_
  obtain ⟨entry,inside,same⟩ := mem_map.mp member
  have apart := (mem_filter.mp (mem_filter.mp inside).1).2
  simp [same] at apart

/-- The entries after a set that drops the first ones of those there are. -/
theorem get_stored {key : String} {entry : CacheEntry} {front back : List (String × CacheEntry)}
    (distinct : ((front ++ back).map Prod.fst).Nodup) (absent : Entries.get (front ++ back) key = none)
    (other : String) : Entries.get (back ++ [(key,entry)]) other = if other = key then some entry
      else if other ∈ front.map Prod.fst then none else Entries.get (front ++ back) other := by
  rw [map_append,nodup_append] at distinct
  rw [get_append,Option.or_eq_none_iff] at absent
  rw [get_append,get_append,Entries.get_cons,Entries.get_nil]
  by_cases same : other = key
  · rw [if_pos same.symm,if_pos same,same,absent.2,Option.none_or]
  · rw [if_neg (Ne.symm same),if_neg same,Option.or_none]
    split
    next gone => exact get_absent fun inside => distinct.2.2 other gone other inside rfl
    next stays => rw [get_absent stays,Option.none_or]

private theorem sizes_sublist {fewer more : List (String × CacheEntry)} (sublist : fewer.Sublist more) :
    sizes fewer ≤ sizes more := by
  induction sublist with
  | slnil => exact le_rfl
  | cons entry _ ih =>
    rw [sizes_cons]
    omega
  | cons_cons entry _ ih =>
    rw [sizes_cons,sizes_cons]
    omega

section

variable (sound : Sound options world)
include sound

section Changes

variable {cache : Cache} {record : Record} (balanced : Balanced cache)
  (known : ∀ key entry, Entries.get cache.entries key = some entry →
    live key (record::world.log) = some (entry.body,entry.expiresAt))
  (gone : ∀ key body expiresAt, Entries.get cache.entries key = none →
    live key (record::world.log) = some (body,expiresAt) → expiresAt ≤ time)

include balanced known gone

theorem Sound.drop (sublist : cache.entries.Sublist world.cache.entries) (unused : ∀ key, ¬ record.Uses key) :
    Sound options { cache := cache,clock := time,log := record::world.log } where
  balanced := balanced
  texts entry member := sound.texts entry (sublist.subset member)
  count := sublist.length_le.trans sound.count
  bytes := by
    have less := sizes_sublist sublist
    have one := balanced.counted
    have two := sound.balanced.counted
    have bound := sound.bytes
    show cache.totalBytes ≤ _
    omega
  closed zero := sublist_nil.mp (sound.closed zero ▸ sublist)
  ordered := by
    refine (sound.ordered.sublist sublist).imp fun {older newer} less => ?_
    rwa [lastUse_unused (unused _),lastUse_unused (unused _)]
  known := known
  gone := gone

theorem Sound.use {rest : List (String × CacheEntry)} (sublist : rest.Sublist world.cache.entries)
    {key : String} {entry : CacheEntry} (listed : cache.entries = rest ++ [(key,entry)])
    (text : entry.size = entry.body.utf8ByteSize)
    (used : ∀ other, record.Uses other ↔ key = other) (count : cache.entries.length ≤ options.maxEntries)
    (bytes : cache.totalBytes ≤ options.maxBytes) (opened : ¬ (options.maxEntries = 0 ∨ options.maxBytes = 0)) :
    Sound options { cache := cache,clock := time,log := record::world.log } where
  balanced := balanced
  texts found member := by
    rw [listed,mem_append,mem_singleton] at member
    rcases member with old | rfl
    · exact sound.texts found (sublist.subset old)
    · exact text
  count := count
  bytes := bytes
  closed zero := absurd zero opened
  ordered := by
    have distinct := balanced.distinct
    show cache.entries.Pairwise _
    rw [listed,map_append,nodup_append] at distinct
    rw [listed,pairwise_append]
    have others : ∀ older ∈ rest, ¬ record.Uses older.1 := fun older member uses =>
      distinct.2.2 older.1 (mem_map_of_mem member) key (by simp) ((used _).mp uses).symm
    refine ⟨?_,pairwise_singleton _ _,?_⟩
    · refine (sound.ordered.sublist sublist).imp_of_mem fun {older newer} first second less => ?_
      rwa [lastUse_unused (others _ first),lastUse_unused (others _ second)]
    · intro older member newer last
      obtain rfl := mem_singleton.mp last
      rw [lastUse_unused (others _ member),lastUse_used ((used key).mpr rfl)]
      exact Nat.lt_succ_of_le (lastUse_le _ _)
  known := known
  gone := gone

end Changes

theorem Sound.get (later : world.clock ≤ time) (key : String) :
    Sound options { cache := (world.cache.get key time).2,clock := time,
                    log := ⟨time,.get key,.got (world.cache.get key time).1⟩::world.log } := by
  rcases get_cases sound.balanced key time with ⟨answer,absent⟩ | ⟨entry,found,expired,answer⟩ |
    ⟨entry,found,unexpired,answer,balanced⟩
  · rw [answer]
    refine sound.drop sound.balanced sound.known (fun key body expiresAt none held => ?_)
      (Sublist.refl _) fun _ => not_false
    exact (sound.gone key body expiresAt none held).trans later
  · rw [answer]
    refine sound.drop (sound.balanced.deleteKey key) ?_ ?_ (by rw [deleteKey_entries]; exact filter_sublist)
      fun _ => not_false
    · intro other kept inside
      rw [deleteKey_entries] at inside
      by_cases same : other = key
      · rw [same,Entries.get_erase_self] at inside
        cases inside
      · rw [Entries.get_erase_other same] at inside
        exact sound.known other kept inside
    · intro other body expiresAt none held
      rw [deleteKey_entries] at none
      by_cases same : other = key
      · have known := sound.known key entry found
        rw [same] at held
        cases known.symm.trans held
        exact expired
      · rw [Entries.get_erase_other same] at none
        exact (sound.gone other body expiresAt none held).trans later
  · rw [answer]
    have opened : ¬ (options.maxEntries = 0 ∨ options.maxBytes = 0) := by
      intro zero
      rw [sound.closed zero] at found
      cases found
    have member := Entries.mem_of_get found
    have lookup : ∀ other, Entries.get (Entries.erase world.cache.entries key ++ [(key,entry)]) other =
        Entries.get world.cache.entries other := by
      intro other
      rw [get_append,Entries.get_cons]
      by_cases same : other = key
      · rw [same,Entries.get_erase_self,Option.none_or,if_pos rfl,found]
      · rw [Entries.get_erase_other same,if_neg (Ne.symm same),Entries.get_nil,Option.or_none]
    have count : (Entries.erase world.cache.entries key ++ [(key,entry)]).length ≤ options.maxEntries := by
      have distinct := sound.balanced.distinct
      have erased : (Entries.erase world.cache.entries key).map Prod.fst =
          (world.cache.entries.map Prod.fst).erase key :=
        Entries.keys_erase distinct
      have keys := congrArg length erased
      rw [length_map,length_erase_of_mem (mem_map_of_mem member),length_map] at keys
      have some := length_pos_of_mem member
      have count := sound.count
      rw [length_append,length_singleton]
      omega
    refine sound.use balanced ?_ ?_ filter_sublist rfl (sound.texts _ member) (fun other => Iff.rfl) count
      sound.bytes opened
    · intro other kept inside
      exact sound.known other kept ((lookup other).symm.trans inside)
    · intro other body expiresAt none held
      exact (sound.gone other body expiresAt ((lookup other).symm.trans none) held).trans later

section

variable {key other : String} (apart : other ≠ key)
include sound apart

private theorem Sound.gone_current (later : world.clock ≤ time) {body : String} {expiresAt : ℤ}
    (none : Entries.get (current world.cache.entries key time) other = none)
    (held : live other world.log = some (body,expiresAt)) : expiresAt ≤ time := by
  rw [get_current sound.balanced.distinct apart,Option.filter_eq_none_iff] at none
  cases found : Entries.get world.cache.entries other with
  | none => exact (sound.gone other body expiresAt found held).trans later
  | some entry =>
    cases (sound.known other entry found).symm.trans held
    simpa using none entry found

private theorem Sound.known_current {entry : CacheEntry}
    (found : Entries.get (current world.cache.entries key time) other = some entry) :
    live other world.log = some (entry.body,entry.expiresAt) := by
  rw [get_current sound.balanced.distinct apart] at found
  exact sound.known other entry (Option.filter_eq_some_iff.mp found).1

end

theorem Sound.set (later : world.clock ≤ time) (key : String) (ttlMs : ℤ) (body : Option String) :
    let stored := Cache.set options world.cache key ttlMs body time
    Sound options { cache := stored.cache,clock := time,
                    log := ⟨time,.set key ttlMs body,.stored stored.done stored.evicted⟩::world.log } := by
  dsimp only
  have without := current_self world.cache.entries key time
  rcases set_cases options sound.balanced key ttlMs body time with ⟨same,closed⟩ |
    ⟨text,rfl,failed,unmoved,balanced,listed,_⟩ |
    ⟨text,front,back,rfl,done,split,evicted,balanced,listed,count,bytes,some,wide⟩
  · rw [same]
    have before : ∀ other, live other (⟨time,.set key ttlMs body,.stored false []⟩::world.log) = live other world.log ∨
        live other (⟨time,.set key ttlMs body,.stored false []⟩::world.log) = none := by
      intro other
      cases body with
      | none => exact .inl rfl
      | some text =>
        by_cases equal : other = key
        · exact .inr (equal ▸ live_stored_self)
        · exact .inl (live_stored_other equal not_mem_nil)
    refine sound.drop sound.balanced ?_ ?_ (Sublist.refl _) fun _ => not_false
    · intro other entry found
      rcases closed with rfl | zero
      · exact sound.known other entry found
      · rw [sound.closed zero] at found
        cases found
    · intro other body expiresAt none held
      rcases before other with old | lost
      · exact (sound.gone other body expiresAt none (old.symm.trans held)).trans later
      · cases lost.symm.trans held
  · rw [failed,unmoved]
    refine sound.drop balanced ?_ ?_ (listed ▸ current_sublist _ key time) fun _ => not_false
    · intro other entry found
      rw [listed] at found
      by_cases equal : other = key
      · rw [equal,without] at found
        cases found
      · rw [live_stored_other equal not_mem_nil]
        exact sound.known_current equal found
    · intro other body expiresAt none held
      rw [listed] at none
      by_cases equal : other = key
      · rw [equal,live_stored_self] at held
        cases held
      · rw [live_stored_other equal not_mem_nil] at held
        exact sound.gone_current equal later none held
  · rw [done,evicted]
    have distinct : ((current world.cache.entries key time).map Prod.fst).Nodup :=
      (Entries.erase_distinct sound.balanced.distinct).sublist (filter_sublist.map Prod.fst)
    have lookup := @get_stored key ⟨text,text.utf8ByteSize,time + ttlMs⟩ front back (split ▸ distinct) (split ▸ without)
    rw [← split] at lookup
    refine sound.use balanced ?_ ?_ ((sublist_append_right front back).trans (split ▸ current_sublist _ key time))
      listed rfl (fun other => Iff.rfl) count bytes (by omega)
    · intro other entry found
      rw [listed,lookup] at found
      split_ifs at found with equal gone
      · cases found
        exact equal ▸ live_stored_self
      · rw [live_stored_other equal gone]
        exact sound.known_current equal found
    · intro other body expiresAt none held
      rw [listed,lookup] at none
      split_ifs at none with equal gone
      · rw [live_evicted equal gone] at held
        cases held
      · rw [live_stored_other equal gone] at held
        exact sound.gone_current equal later none held

theorem Sound.clear :
    Sound options { cache := world.cache.clear,clock := time,log := ⟨time,.clear,.cleared⟩::world.log } := by
  have empty : Balanced world.cache.clear := ⟨nodup_nil,rfl⟩
  refine sound.drop empty ?_ ?_ (nil_sublist _) fun _ => not_false
  · intro key entry found
    cases found
  · intro key body expiresAt none held
    cases held

end

theorem Sound.step (sound : Sound options world) {label : ℤ × Operation} {next : World}
    (moved : step options world label = some next) : Sound options next := by
  obtain ⟨later,same⟩ := Option.ite_none_right_eq_some.mp moved
  cases same
  obtain ⟨time,operation⟩ := label
  cases operation with
  | get key => exact sound.get later key
  | set key ttlMs body => exact sound.set later key ttlMs body
  | clear => exact sound.clear

theorem sound_reachable (reachable : (machine options).Reachable world) : Sound options world := by
  refine reachable.invariant (Sound options) ?_ fun _ _ _ sound _ moved => sound.step moved
  rintro start ⟨empty,unlogged⟩
  obtain ⟨cache,clock,log⟩ := start
  cases empty
  cases unlogged
  refine ⟨⟨nodup_nil,rfl⟩,?_,Nat.zero_le _,Int.natCast_nonneg _,fun _ => rfl,Pairwise.nil,?_,?_⟩
  · intro entry member
    cases member
  · intro key entry found
    cases found
  · intro key body expiresAt _ held
    cases held

theorem Sound.answer (sound : Sound options world) (later : world.clock ≤ time) (key : String) :
    (world.cache.get key time).1 = ((live key world.log).filter fun kept => time < kept.2).map Prod.fst := by
  rcases get_cases sound.balanced key time with ⟨answer,absent⟩ | ⟨entry,found,expired,answer⟩ |
    ⟨entry,found,unexpired,answer,_⟩
  · rw [answer]
    cases held : live key world.log with
    | none => rfl
    | some kept =>
      have past := (sound.gone key kept.1 kept.2 absent held).trans later
      rw [Option.filter_some,if_neg (by simpa using past)]
      rfl
  · rw [answer,sound.known key entry found,Option.filter_some,if_neg (by simpa using expired)]
    rfl
  · rw [answer,sound.known key entry found,Option.filter_some,if_pos (by simpa using unexpired)]
    rfl

theorem Sound.evicted (sound : Sound options world) (key : String) (ttlMs : ℤ) (body : Option String) (time : ℤ) :
    let stored := Cache.set options world.cache key ttlMs body time
    ∀ lost ∈ stored.evicted, (∃ entry, Entries.get world.cache.entries lost = some entry ∧ time < entry.expiresAt) ∧
      ∀ kept ∈ stored.cache.entries, kept.1 ≠ key → lastUse lost world.log < lastUse kept.1 world.log := by
  dsimp only
  intro lost member
  rcases set_cases options sound.balanced key ttlMs body time with ⟨same,_⟩ | ⟨_,_,_,unmoved,_⟩ |
    ⟨text,front,back,rfl,_,split,evicted,_,listed,_⟩
  · rw [same] at member
    cases member
  · rw [unmoved] at member
    cases member
  · rw [evicted] at member
    obtain ⟨entry,first,rfl⟩ := mem_map.mp member
    have ordered := sound.ordered.sublist (current_sublist world.cache.entries key time)
    have inside : entry ∈ current world.cache.entries key time := split ▸ mem_append_left _ first
    rw [split,pairwise_append] at ordered
    refine ⟨⟨entry.2,Entries.get_of_mem sound.balanced.distinct ((current_sublist _ key time).subset inside),?_⟩,?_⟩
    · simpa using (mem_filter.mp inside).2
    · intro kept stays apart
      rw [listed,mem_append,mem_singleton] at stays
      rcases stays with later | rfl
      · exact ordered.2.2 entry first kept later
      · exact absurd rfl apart

end Invariant

section Results

/-- After every run the counter is right, both limits hold, a get finds the last body stored under its key unless it
has expired or was evicted, cleared or replaced in vain, and a set evicts what was used least recently. -/
theorem cache_reachable (options : Options) {world : World} (reachable : (machine options).Reachable world) :
    world.cache.totalBytes = (world.cache.entries.map fun entry => (entry.2.body.utf8ByteSize : ℤ)).sum ∧
    world.cache.totalBytes ≤ options.maxBytes ∧ world.cache.entries.length ≤ options.maxEntries ∧
    (∀ key time, world.clock ≤ time →
      (world.cache.get key time).1 = ((live key world.log).filter fun kept => time < kept.2).map Prod.fst) ∧
    ∀ key ttlMs body time, ∀ lost ∈ (Cache.set options world.cache key ttlMs body time).evicted,
      (∃ entry, Entries.get world.cache.entries lost = some entry ∧ time < entry.expiresAt) ∧
      ∀ kept ∈ (Cache.set options world.cache key ttlMs body time).cache.entries, kept.1 ≠ key →
        lastUse lost world.log < lastUse kept.1 world.log := by
  have sound := sound_reachable reachable
  refine ⟨sound.balanced.counted.trans (congrArg List.sum ?_),sound.bytes,sound.count,fun key time later =>
    sound.answer later key,fun key ttlMs body time => sound.evicted key ttlMs body time⟩
  exact List.map_congr_left fun entry member => congrArg Nat.cast (sound.texts entry member)

def emptyWorld : World := { cache := { entries := [],totalBytes := 0 },clock := 0,log := [] }

theorem cache_reachable_evicts : ∃ world,
    (machine ⟨2,10⟩).run emptyWorld
      [(0,.set "a" 50 (some "xx")),(1,.set "b" 50 (some "yy")),(2,.get "a")] = some world ∧
    (Cache.set ⟨2,10⟩ world.cache "c" 50 (some "zz") 3).evicted = ["b"] ∧
    lastUse "b" world.log < lastUse "a" world.log := by
  refine ⟨_,rfl,by decide +kernel,?_⟩
  have reachable := Machine.reachable_run (M := machine ⟨2,10⟩) ⟨rfl,rfl⟩
    (rfl : (machine ⟨2,10⟩).run emptyWorld [(0,.set "a" 50 (some "xx")),(1,.set "b" 50 (some "yy")),(2,.get "a")] = _)
  have least := (cache_reachable ⟨2,10⟩ reachable).2.2.2.2 "c" 50 (some "zz") 3 "b" (by decide +kernel)
  exact least.2 ("a",⟨"xx",2,50⟩) (by decide +kernel) (by decide)

/-- A body that is too large leaves the key without the body it had, though that was neither expired nor evicted. -/
theorem replaced_in_vain : ∃ world,
    (machine ⟨2,4⟩).run emptyWorld [(0,.set "a" 50 (some "xx")),(1,.set "a" 50 (some "xxxxx"))] = some world ∧
    world.log.map Record.outcome = [.stored false [],.stored true []] ∧ (world.cache.get "a" 2).1 = none :=
  ⟨_,rfl,by decide +kernel,by decide +kernel⟩

end Results

end NodejsPool.Api.ResponseCache
