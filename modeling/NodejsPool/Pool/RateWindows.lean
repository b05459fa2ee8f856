import Mathlib.Data.List.Induction
import NodejsPool.Pool.RateLimits

/-! The rate limits over any run of requests: no window of time lets through more than the burst and its refill. -/
namespace NodejsPool.Pool.RateLimits
open Entries TokenBucket List

section Pruning

variable {now : ℚ} {config : SecurityConfig}

def fresh (now : ℚ) (config : SecurityConfig) (entry : String × RateBucket) : Bool :=
  now - entry.2.lastRefillAt ≤ config.rpcRateLimitBucketIdleMs

def Sorted (rateBuckets : RateBuckets) : Prop :=
  rateBuckets.Pairwise fun earlier later => earlier.2.lastRefillAt ≤ later.2.lastRefillAt

def pruned (now : ℚ) (config : SecurityConfig) (rateBuckets : RateBuckets) : RateBuckets :=
  let kept := rateBuckets.filter (fresh now config)
  kept.drop (kept.length - ⌊config.rpcRateLimitBucketMaxEntries⌋₊)

theorem prune_suffix (now : ℚ) (config : SecurityConfig) (rateBuckets : RateBuckets) :
    pruneRateBuckets now config rateBuckets <:+ rateBuckets := by
  induction rateBuckets with
  | nil => exact suffix_rfl
  | cons oldest rest ih =>
    rw [pruneRateBuckets]
    split
    · exact suffix_rfl
    · exact ih.trans (suffix_cons _ _)

theorem prune_length (now : ℚ) (config : SecurityConfig) (rateBuckets : RateBuckets) :
    (pruneRateBuckets now config rateBuckets).length ≤ ⌊config.rpcRateLimitBucketMaxEntries⌋₊ := by
  induction rateBuckets with
  | nil => exact Nat.zero_le _
  | cons oldest rest ih =>
    rw [pruneRateBuckets]
    split
    next room => exact Nat.le_floor room.2
    · exact ih

private theorem filter_fresh {oldest : String × RateBucket} {rest : RateBuckets} (sorted : Sorted (oldest::rest))
    (used : fresh now config oldest = true) : (oldest::rest).filter (fresh now config) = oldest::rest := by
  refine filter_eq_self.mpr (forall_mem_cons.mpr ⟨used,?_⟩)
  intro entry inside
  have order := (pairwise_cons.mp sorted).1 entry inside
  simp only [fresh,decide_eq_true_eq] at used ⊢
  linarith

theorem prune_sorted {rateBuckets : RateBuckets} (sorted : Sorted rateBuckets) :
    pruneRateBuckets now config rateBuckets = pruned now config rateBuckets := by
  induction rateBuckets with
  | nil => simp [pruneRateBuckets,pruned]
  | cons oldest rest ih =>
    have others := ih (pairwise_cons.mp sorted).2
    rw [pruneRateBuckets]
    by_cases used : fresh now config oldest = true
    · have kept := filter_fresh sorted used
      have unexpired : ¬config.rpcRateLimitBucketIdleMs < now - oldest.2.lastRefillAt := by
        simpa only [fresh,decide_eq_true_eq,not_lt] using used
      rw [pruned,kept]
      split
      next room =>
        have fits := Nat.le_floor room.2
        rw [Nat.sub_eq_zero_of_le fits,drop_zero]
      next crowded =>
        have exceeded : config.rpcRateLimitBucketMaxEntries < ((oldest::rest).length : ℚ) :=
          not_le.mp fun fits => crowded ⟨unexpired,fits⟩
        have more : ⌊config.rpcRateLimitBucketMaxEntries⌋₊ < (oldest::rest).length :=
          (Nat.floor_lt' (Nat.succ_ne_zero _)).mpr exceeded
        have restKept : rest.filter (fresh now config) = rest := by
          rw [filter_cons_of_pos used] at kept
          exact (cons.inj kept).2
        rw [others,pruned,restKept]
        rw [length_cons] at more ⊢
        rw [Nat.succ_sub (Nat.le_of_lt_succ more),drop_succ_cons]
    · have expired : config.rpcRateLimitBucketIdleMs < now - oldest.2.lastRefillAt := by
        simpa only [fresh,decide_eq_true_eq,not_le] using used
      rw [if_neg (fun room => room.1 expired),others,pruned,pruned,filter_cons_of_neg used]

end Pruning

section Refills

variable {rateBuckets : RateBuckets} {key : String} {perSecond burst timeNow : ℚ} {config : SecurityConfig}

def RateBucket.bucket (rateBucket : RateBucket) : Bucket ℚ := ⟨rateBucket.tokens,rateBucket.lastRefillAt⟩

def potential (perSecond burst : ℚ) (rateBuckets : RateBuckets) (key : String) (time : ℚ) : ℚ :=
  match get rateBuckets key with
  | none => burst
  | some rateBucket => level (perSecond / 1000) burst rateBucket.bucket time

theorem potential_le (perSecond burst : ℚ) (rateBuckets : RateBuckets) (key : String) (time : ℚ) :
    potential perSecond burst rateBuckets key time ≤ burst := by
  unfold potential
  split
  · exact le_rfl
  · exact level_le_burst _ _ _ _

private theorem refill_scale (elapsed perSecond : ℚ) :
    max 0 (elapsed / 1000) * perSecond = max 0 elapsed * (perSecond / 1000) := by
  rcases le_total 0 elapsed with past | future
  · rw [max_eq_right past,max_eq_right (by positivity)]
    ring
  · rw [max_eq_left future,max_eq_left (by linarith),zero_mul,zero_mul]

structure Refilled (rateBuckets : RateBuckets) (key : String) (perSecond burst timeNow : ℚ) (config : SecurityConfig)
    (others : RateBuckets) : Prop where
  sublist : others.Sublist rateBuckets
  absent : key ∉ others.map Prod.fst
  kept : ∀ other, other ≠ key → get others other = get rateBuckets other
  suffix : (refill rateBuckets key perSecond burst timeNow config).1 <:+
    others ++ [(key,(refill rateBuckets key perSecond burst timeNow config).2)]
  time : (refill rateBuckets key perSecond burst timeNow config).2.lastRefillAt = timeNow
  tokens : (refill rateBuckets key perSecond burst timeNow config).2.tokens =
    potential perSecond burst rateBuckets key timeNow
  bounded : rateBuckets.length ≤ ⌊config.rpcRateLimitBucketMaxEntries⌋₊ →
    (refill rateBuckets key perSecond burst timeNow config).1.length ≤ ⌊config.rpcRateLimitBucketMaxEntries⌋₊

private theorem absent_of_get (absent : get rateBuckets key = none) : key ∉ rateBuckets.map Prod.fst := by
  intro inside
  obtain ⟨entry,member,rfl⟩ := mem_map.mp inside
  unfold Entries.get at absent
  rw [Option.map_eq_none_iff,find?_eq_none] at absent
  simpa using absent entry member

private theorem absent_erase (key : String) : key ∉ (erase rateBuckets key).map Prod.fst := by
  intro inside
  obtain ⟨entry,member,rfl⟩ := mem_map.mp inside
  simpa using (mem_filter.mp member).2

theorem refill_refilled (rateBuckets : RateBuckets) (key : String) (perSecond burst timeNow : ℚ)
    (config : SecurityConfig) :
    ∃ others, Refilled rateBuckets key perSecond burst timeNow config others := by
  cases found : get rateBuckets key with
  | none =>
    have filled : refill rateBuckets key perSecond burst timeNow config =
        (if config.rpcRateLimitBucketMaxEntries < (rateBuckets ++ [(key,(⟨burst,timeNow⟩ : RateBucket))]).length then
          pruneRateBuckets timeNow config (rateBuckets ++ [(key,⟨burst,timeNow⟩)])
        else rateBuckets ++ [(key,⟨burst,timeNow⟩)],⟨burst,timeNow⟩) := by
      unfold refill
      rw [found]
      dsimp only
      rw [put_absent found]
    refine ⟨rateBuckets,Sublist.refl _,absent_of_get found,fun _ _ => rfl,?_,?_,?_,?_⟩
    · rw [filled]
      dsimp only
      split
      · exact prune_suffix _ _ _
      · exact suffix_rfl
    · rw [filled]
    · rw [filled,potential,found]
    · intro _
      rw [filled]
      dsimp only
      split
      · exact prune_length _ _ _
      next room => exact Nat.le_floor (not_lt.mp room)
  | some bucket =>
    have filled : refill rateBuckets key perSecond burst timeNow config =
        (erase rateBuckets key ++ [(key,⟨level (perSecond / 1000) burst bucket.bucket timeNow,timeNow⟩)],
          ⟨level (perSecond / 1000) burst bucket.bucket timeNow,timeNow⟩) := by
      unfold refill
      rw [found]
      dsimp only
      rw [put_absent get_erase_self,refill_scale]
      rfl
    refine ⟨erase rateBuckets key,filter_sublist,absent_erase key,fun other apart => get_erase_other apart,?_,?_,?_,?_⟩
    · simp only [filled,suffix_rfl]
    · rw [filled]
    · rw [filled,potential,found]
    · intro bounded
      have fewer : (erase rateBuckets key).length < rateBuckets.length := by
        apply length_filter_lt_length_iff_exists.mpr
        exact ⟨_,mem_of_get found,by simp⟩
      rw [filled]
      simp only [length_append,length_singleton]
      omega

end Refills

section Steps

variable {limits : String → Limit} {config : SecurityConfig} {rateBuckets : RateBuckets} {now : ℚ}
  {key : String} {others : RateBuckets} {request : Request}

structure Orderly (limits : String → Limit) (config : SecurityConfig) (now : ℚ) (rateBuckets : RateBuckets) : Prop where
  distinct : (rateBuckets.map Prod.fst).Nodup
  sorted : Sorted rateBuckets
  past : ∀ entry ∈ rateBuckets, entry.2.lastRefillAt ≤ now
  filled : ∀ entry ∈ rateBuckets, 0 ≤ entry.2.tokens ∧ entry.2.tokens ≤ (limits entry.1).burst
  bounded : rateBuckets.length ≤ ⌊config.rpcRateLimitBucketMaxEntries⌋₊

theorem orderly_nil (limits : String → Limit) (config : SecurityConfig) (now : ℚ) : Orderly limits config now [] where
  distinct := nodup_nil
  sorted := Pairwise.nil
  past _ member := by cases member
  filled _ member := by cases member
  bounded := Nat.zero_le _

theorem Orderly.later {later : ℚ} (orderly : Orderly limits config now rateBuckets) (order : now ≤ later) :
    Orderly limits config later rateBuckets :=
  {orderly with past := fun entry member => (orderly.past entry member).trans order}

private theorem keys_spend (key : String) (bucket : RateBucket) (rateBuckets : RateBuckets) :
    (spend key bucket rateBuckets).map Prod.fst = rateBuckets.map Prod.fst := by
  unfold spend
  rw [map_map]
  apply map_congr_left
  intro entry _
  dsimp only [Function.comp]
  split
  next same => exact same.symm
  · rfl

theorem get_spend (key other : String) (bucket : RateBucket) (rateBuckets : RateBuckets) :
    Entries.get (spend key bucket rateBuckets) other =
      (Entries.get rateBuckets other).map fun old => if other = key then bucket else old := by
  induction rateBuckets with
  | nil => rfl
  | cons entry rest ih =>
    have unfolded : spend key bucket (entry::rest) =
        (if entry.1 = key then (key,bucket) else entry)::spend key bucket rest := rfl
    rw [unfolded,get_cons,get_cons,ih]
    by_cases own : entry.1 = key
    · rw [if_pos own]
      by_cases here : key = other
      · rw [if_pos here,if_pos (own.trans here),Option.map_some,if_pos here.symm]
      · rw [if_neg here,if_neg (fun same => here (own.symm.trans same))]
    · rw [if_neg own]
      by_cases here : entry.1 = other
      · rw [if_pos here,if_pos here,Option.map_some,if_neg (fun same => own (here.trans same))]
      · rw [if_neg here,if_neg here]

theorem Orderly.spend {bucket : RateBucket} (orderly : Orderly limits config now rateBuckets)
    (recent : ∀ old, Entries.get rateBuckets key = some old → bucket.lastRefillAt = old.lastRefillAt)
    (filled : 0 ≤ bucket.tokens ∧ bucket.tokens ≤ (limits key).burst) :
    Orderly limits config now (spend key bucket rateBuckets) := by
  have same : ∀ entry ∈ rateBuckets,
      (if entry.1 = key then (key,bucket) else entry).2.lastRefillAt = entry.2.lastRefillAt := by
    intro entry member
    split
    next own => exact recent entry.2 (get_of_mem orderly.distinct (own ▸ member))
    · rfl
  constructor
  · rw [keys_spend]
    exact orderly.distinct
  · refine pairwise_map.mpr (orderly.sorted.imp_of_mem ?_)
    intro earlier later first second order
    rw [same earlier first,same later second]
    exact order
  · intro entry member
    obtain ⟨old,inside,rfl⟩ := mem_map.mp member
    rw [same old inside]
    exact orderly.past old inside
  · intro entry member
    obtain ⟨old,inside,rfl⟩ := mem_map.mp member
    split
    · exact filled
    · exact orderly.filled old inside
  · exact (length_map _).trans_le orderly.bounded

theorem Orderly.potential_nonneg (orderly : Orderly limits config now rateBuckets) {time : ℚ}
    (enabled : 0 < (limits key).perSecond ∧ 0 < (limits key).burst) :
    0 ≤ potential (limits key).perSecond (limits key).burst rateBuckets key time := by
  unfold potential
  split
  · exact enabled.2.le
  next bucket found =>
    apply level_nonneg (by have := enabled.1; positivity) enabled.2.le
    exact (orderly.filled _ (mem_of_get found)).1

theorem Orderly.refill {timeNow : ℚ} (orderly : Orderly limits config now rateBuckets) (order : now ≤ timeNow)
    (enabled : 0 < (limits key).perSecond ∧ 0 < (limits key).burst)
    (refilled : Refilled rateBuckets key (limits key).perSecond (limits key).burst timeNow config others) :
    Orderly limits config timeNow (refill rateBuckets key (limits key).perSecond (limits key).burst
      timeNow config).1 := by
  have older : ∀ entry ∈ others, entry.2.lastRefillAt ≤ timeNow := fun entry member =>
    (orderly.past entry (refilled.sublist.subset member)).trans order
  constructor
  · apply Nodup.sublist (refilled.suffix.sublist.map Prod.fst)
    rw [map_append,nodup_append]
    refine ⟨orderly.distinct.sublist (refilled.sublist.map _),nodup_singleton _,?_⟩
    intro first member last single same
    obtain rfl := mem_singleton.mp single
    exact refilled.absent (same ▸ member)
  · refine Pairwise.sublist refilled.suffix.sublist (pairwise_append.mpr ⟨?_,pairwise_singleton _ _,?_⟩)
    · exact orderly.sorted.sublist refilled.sublist
    · intro entry member last single
      obtain rfl := mem_singleton.mp single
      rw [refilled.time]
      exact older entry member
  · intro entry member
    rcases mem_append.mp (refilled.suffix.subset member) with old | new
    · exact older entry old
    · obtain rfl := mem_singleton.mp new
      exact refilled.time.le
  · intro entry member
    rcases mem_append.mp (refilled.suffix.subset member) with old | new
    · exact orderly.filled entry (refilled.sublist.subset old)
    · obtain rfl := mem_singleton.mp new
      dsimp only
      rw [refilled.tokens]
      exact ⟨orderly.potential_nonneg enabled,potential_le _ _ _ _ _⟩
  · exact refilled.bounded orderly.bounded

theorem Refilled.get_self {perSecond burst timeNow : ℚ} {bucket : RateBucket}
    (refilled : Refilled rateBuckets key perSecond burst timeNow config others)
    (found : Entries.get (RateLimits.refill rateBuckets key perSecond burst timeNow config).1 key = some bucket) :
    bucket = (RateLimits.refill rateBuckets key perSecond burst timeNow config).2 := by
  rcases mem_append.mp (refilled.suffix.subset (mem_of_get found)) with old | new
  · exact absurd (mem_map_of_mem old) refilled.absent
  · exact congrArg Prod.snd (mem_singleton.mp new)

theorem handle_disabled (disabled : ¬(0 < (limits request.key).perSecond ∧ 0 < (limits request.key).burst)) :
    handle limits config rateBuckets request = (rateBuckets,true) := by
  unfold handle consumeRateLimitToken
  rw [if_pos]
  rw [not_and_or,not_lt,not_lt] at disabled
  exact disabled

def refillFor (limits : String → Limit) (config : SecurityConfig) (rateBuckets : RateBuckets) (request : Request) :
    RateBuckets × RateBucket :=
  refill rateBuckets request.key (limits request.key).perSecond (limits request.key).burst request.now config

theorem handle_enabled (enabled : 0 < (limits request.key).perSecond ∧ 0 < (limits request.key).burst) :
    handle limits config rateBuckets request =
      if (refillFor limits config rateBuckets request).2.tokens < 1 then
        ((refillFor limits config rateBuckets request).1,false)
      else (RateLimits.spend request.key
        {(refillFor limits config rateBuckets request).2
          with tokens := (refillFor limits config rateBuckets request).2.tokens - 1}
        (refillFor limits config rateBuckets request).1,true) := by
  have limited : ¬((limits request.key).perSecond ≤ 0 ∨ (limits request.key).burst ≤ 0) := by
    rintro (slow | empty)
    · exact absurd enabled.1 (not_lt.mpr slow)
    · exact absurd enabled.2 (not_lt.mpr empty)
  unfold handle consumeRateLimitToken
  rw [if_neg limited]
  rfl

theorem Orderly.handle (orderly : Orderly limits config now rateBuckets) (order : now ≤ request.now) :
    Orderly limits config request.now (handle limits config rateBuckets request).1 := by
  by_cases enabled : 0 < (limits request.key).perSecond ∧ 0 < (limits request.key).burst
  · obtain ⟨others,refilled⟩ := refill_refilled rateBuckets request.key (limits request.key).perSecond
      (limits request.key).burst request.now config
    have next := orderly.refill order enabled refilled
    have capacity := potential_le (limits request.key).perSecond (limits request.key).burst rateBuckets
      request.key request.now
    have tokens : (refillFor limits config rateBuckets request).2.tokens = _ := refilled.tokens
    rw [handle_enabled enabled]
    split
    · exact next
    next enough =>
      apply next.spend
      · intro old found
        rw [refilled.get_self found]
        rfl
      · dsimp only
        rw [tokens] at enough ⊢
        exact ⟨by linarith,by linarith⟩
  · rw [handle_disabled enabled]
    exact orderly.later order

end Steps

section Windows

variable {limits : String → Limit} {config : SecurityConfig} {rateBuckets : RateBuckets} {now : ℚ} {request : Request}
  {key : String} {requests : List Request}

theorem handle_other (orderly : Orderly limits config now rateBuckets) (apart : key ≠ request.key) {bucket : RateBucket}
    (found : Entries.get (handle limits config rateBuckets request).1 key = some bucket) :
    Entries.get rateBuckets key = some bucket := by
  by_cases enabled : 0 < (limits request.key).perSecond ∧ 0 < (limits request.key).burst
  · obtain ⟨others,refilled⟩ := refill_refilled rateBuckets request.key (limits request.key).perSecond
      (limits request.key).burst request.now config
    have before : Entries.get (refill rateBuckets request.key (limits request.key).perSecond (limits request.key).burst
        request.now config).1 key = some bucket := by
      rw [handle_enabled enabled] at found
      split at found
      · exact found
      · rw [get_spend,Option.map_eq_some_iff] at found
        obtain ⟨old,there,same⟩ := found
        rw [if_neg apart] at same
        exact there.trans (congrArg some same)
    rw [← refilled.kept key apart]
    rcases mem_append.mp (refilled.suffix.subset (mem_of_get before)) with old | new
    · exact get_of_mem (orderly.distinct.sublist (refilled.sublist.map _)) old
    · exact absurd (congrArg Prod.fst (mem_singleton.mp new)) apart
  · rw [handle_disabled enabled] at found
    exact found

private theorem handle_own (enabled : 0 < (limits request.key).perSecond ∧ 0 < (limits request.key).burst)
    (held : Entries.get (handle limits config rateBuckets request).1 request.key ≠ none) :
    (if (handle limits config rateBuckets request).2 = true then 1 else 0) +
        potential (limits request.key).perSecond (limits request.key).burst (handle limits config rateBuckets request).1
          request.key request.now =
      potential (limits request.key).perSecond (limits request.key).burst rateBuckets request.key request.now := by
  obtain ⟨others,refilled⟩ := refill_refilled rateBuckets request.key (limits request.key).perSecond
    (limits request.key).burst request.now config
  have capacity := potential_le (limits request.key).perSecond (limits request.key).burst rateBuckets
    request.key request.now
  have time : (refillFor limits config rateBuckets request).2.lastRefillAt = request.now := refilled.time
  have tokens : (refillFor limits config rateBuckets request).2.tokens = _ := refilled.tokens
  obtain ⟨bucket,found⟩ := Option.ne_none_iff_exists'.mp held
  rw [potential,found]
  dsimp only
  by_cases short : (refillFor limits config rateBuckets request).2.tokens < 1
  · have handled := (handle_enabled enabled).trans (if_pos short)
    rw [handled] at found ⊢
    obtain rfl := refilled.get_self found
    change (if false = true then 1 else 0) + level _ _ (refillFor limits config rateBuckets request).2.bucket _ = _
    rw [if_neg Bool.false_ne_true,zero_add,RateBucket.bucket,time,level_now _ _ (by rw [tokens]; exact capacity),tokens]
  · have handled := (handle_enabled enabled).trans (if_neg short)
    rw [handled] at found ⊢
    rw [get_spend,Option.map_eq_some_iff] at found
    obtain ⟨old,_,same⟩ := found
    rw [if_pos rfl] at same
    subst same
    dsimp only [RateBucket.bucket]
    rw [if_pos rfl,time,level_now _ _ (by rw [tokens]; linarith),tokens]
    ring

/-- The bucket of a key stays once it is there, and each of its own requests leaves one. -/
def Unevicted (limits : String → Limit) (config : SecurityConfig) (key : String) : RateBuckets → List Request → Prop
  | _,[] => True
  | rateBuckets,request::requests =>
    (Entries.get rateBuckets key ≠ none ∨ request.key = key →
      Entries.get (handle limits config rateBuckets request).1 key ≠ none) ∧
    Unevicted limits config key (handle limits config rateBuckets request).1 requests

private theorem potential_grows {perSecond earlier later : ℚ} (burst : ℚ) (rateBuckets : RateBuckets) (key : String)
    (positive : 0 ≤ perSecond) (order : earlier ≤ later) :
    potential perSecond burst rateBuckets key later ≤
      potential perSecond burst rateBuckets key earlier + perSecond * (later - earlier) / 1000 := by
  unfold potential
  split
  · have gained : 0 ≤ perSecond * (later - earlier) / 1000 :=
      div_nonneg (mul_nonneg positive (sub_nonneg.mpr order)) (by norm_num)
    linarith
  · refine (level_grows (by positivity) order).trans (le_of_eq ?_)
    ring

private theorem handle_potential (orderly : Orderly limits config now rateBuckets)
    (enabled : 0 < (limits key).perSecond ∧ 0 < (limits key).burst)
    (held : Entries.get rateBuckets key ≠ none ∨ request.key = key →
      Entries.get (handle limits config rateBuckets request).1 key ≠ none) :
    (if request.key = key ∧ (handle limits config rateBuckets request).2 = true then 1 else 0) +
        potential (limits key).perSecond (limits key).burst (handle limits config rateBuckets request).1
        key request.now =
      potential (limits key).perSecond (limits key).burst rateBuckets key request.now := by
  by_cases own : request.key = key
  · subst own
    simp only [true_and]
    exact handle_own enabled (held (.inr rfl))
  · have same : Entries.get (handle limits config rateBuckets request).1 key = Entries.get rateBuckets key := by
      cases found : Entries.get (handle limits config rateBuckets request).1 key with
      | some bucket => exact (handle_other orderly (Ne.symm own) found).symm
      | none =>
        by_contra there
        exact held (.inl (Ne.symm there)) found
    rw [if_neg (fun both => own both.1),zero_add,potential,potential,same]

theorem accepted_le {start stop : ℚ} (orderly : Orderly limits config now rateBuckets)
    (enabled : 0 < (limits key).perSecond ∧ 0 < (limits key).burst)
    (ordered : (requests.map Request.now).Pairwise (· ≤ ·)) (later : ∀ request ∈ requests, now ≤ request.now)
    (inside : ∀ request ∈ requests, start ≤ request.now ∧ request.now ≤ stop) (span : start ≤ stop)
    (unevicted : Unevicted limits config key rateBuckets requests) :
    (accepted limits config key rateBuckets requests : ℚ) ≤
      potential (limits key).perSecond (limits key).burst rateBuckets key start +
        (limits key).perSecond * (stop - start) / 1000 := by
  induction requests generalizing rateBuckets now start with
  | nil =>
    have nonneg : 0 ≤ potential (limits key).perSecond (limits key).burst rateBuckets key start :=
      orderly.potential_nonneg enabled
    have gained : 0 ≤ (limits key).perSecond * (stop - start) / 1000 :=
      div_nonneg (mul_nonneg enabled.1.le (sub_nonneg.mpr span)) (by norm_num)
    rw [accepted,Nat.cast_zero]
    linarith
  | cons request requests ih =>
    obtain ⟨first,ordered⟩ := pairwise_cons.mp ordered
    obtain ⟨began,ended⟩ := inside request mem_cons_self
    have step := handle_potential orderly enabled unevicted.1
    have grown := potential_grows (limits key).burst rateBuckets key enabled.1.le began
    have rest := ih (orderly.handle (later request mem_cons_self)) ordered
      (fun next member => first _ (mem_map_of_mem member))
      (fun next member => ⟨first _ (mem_map_of_mem member),(inside next (mem_cons_of_mem _ member)).2⟩) ended
      unevicted.2
    rw [accepted,Nat.cast_add,Nat.cast_ite,Nat.cast_one,Nat.cast_zero]
    calc
      _ ≤ (if request.key = key ∧ (handle limits config rateBuckets request).2 = true then 1 else 0) +
          (potential (limits key).perSecond (limits key).burst (handle limits config rateBuckets request).1
          key request.now +
            (limits key).perSecond * (stop - request.now) / 1000) := by linarith
      _ = potential (limits key).perSecond (limits key).burst rateBuckets key request.now +
          (limits key).perSecond * (stop - request.now) / 1000 := by rw [← add_assoc,step]
      _ ≤ potential (limits key).perSecond (limits key).burst rateBuckets key start +
          (limits key).perSecond * (request.now - start) / 1000 +
          (limits key).perSecond * (stop - request.now) / 1000 := by
        linarith
      _ = _ := by ring

private theorem served_append (rateBuckets : RateBuckets) (requests : List Request) (request : Request) :
    served limits config rateBuckets (requests ++ [request]) =
      (handle limits config (served limits config rateBuckets requests) request).1 := by
  unfold served
  rw [foldl_append]
  rfl

private theorem served_orderly (limits : String → Limit) (config : SecurityConfig)
    (ordered : (requests.map Request.now).Pairwise (· ≤ ·)) {later : ℚ}
    (past : ∀ request ∈ requests, request.now ≤ later) :
    Orderly limits config later (served limits config [] requests) := by
  induction requests using reverseRecOn generalizing later with
  | nil => exact orderly_nil limits config later
  | append_singleton requests request ih =>
    rw [map_append,pairwise_append] at ordered
    obtain ⟨before,_,last⟩ := ordered
    have orderly := ih before fun earlier member =>
      last _ (mem_map_of_mem member) _ (mem_singleton_self _)
    rw [served_append]
    exact (orderly.handle le_rfl).later (past request (mem_append_right _ (mem_singleton_self _)))

private theorem exists_later (requests : List Request) : ∃ later, ∀ request ∈ requests, request.now ≤ later := by
  induction requests with
  | nil => exact ⟨0,fun _ member => by cases member⟩
  | cons request requests ih =>
    obtain ⟨later,past⟩ := ih
    refine ⟨max request.now later,forall_mem_cons.mpr ⟨le_max_left _ _,?_⟩⟩
    exact fun other member => (past other member).trans (le_max_right _ _)

/-- Every bucket stays within its burst, the map within its size and in the order of the last refills, so
that a prune takes the stale and then the oldest buckets; and a window of time lets through at most the
burst and what is refilled in it. -/
theorem rate_limits_hold (limits : String → Limit) (config : SecurityConfig) (earlier window : List Request)
    (ordered : ((earlier ++ window).map Request.now).Pairwise (· ≤ ·)) :
    (∀ entry ∈ served limits config [] earlier, 0 ≤ entry.2.tokens ∧ entry.2.tokens ≤ (limits entry.1).burst) ∧
    Sorted (served limits config [] earlier) ∧
    (∀ request : Request, (∀ before ∈ earlier, before.now ≤ request.now) →
      pruneRateBuckets request.now config
          (served limits config [] earlier ++ [(request.key,⟨(limits request.key).burst,request.now⟩)]) =
        pruned request.now config
          (served limits config [] earlier ++ [(request.key,⟨(limits request.key).burst,request.now⟩)])) ∧
    (served limits config [] earlier).length ≤ ⌊config.rpcRateLimitBucketMaxEntries⌋₊ ∧
    ∀ key start stop, 0 < (limits key).perSecond ∧ 0 < (limits key).burst → start ≤ stop →
      (∀ request ∈ window, start ≤ request.now ∧ request.now ≤ stop) →
      Unevicted limits config key (served limits config [] earlier) window →
      (accepted limits config key (served limits config [] earlier) window : ℚ) ≤
        (limits key).burst + (limits key).perSecond * (stop - start) / 1000 := by
  rw [List.map_append,List.pairwise_append] at ordered
  obtain ⟨before,during,across⟩ := ordered
  obtain ⟨later,past⟩ := exists_later earlier
  have orderly := served_orderly limits config before past
  refine ⟨orderly.filled,orderly.sorted,?_,orderly.bounded,?_⟩
  · intro request past
    have orderly := served_orderly limits config before past
    apply prune_sorted
    refine List.pairwise_append.mpr ⟨orderly.sorted,List.pairwise_singleton _ _,?_⟩
    intro entry member last single
    obtain rfl := List.mem_singleton.mp single
    exact orderly.past entry member
  · intro key start stop enabled span inside unevicted
    cases window with
    | nil =>
      have gained : 0 ≤ (limits key).perSecond * (stop - start) / 1000 :=
        div_nonneg (mul_nonneg enabled.1.le (sub_nonneg.mpr span)) (by norm_num)
      rw [accepted,Nat.cast_zero]
      linarith [enabled.2]
    | cons request requests =>
      have started := served_orderly limits config before fun earlier member =>
        across _ (List.mem_map_of_mem member) request.now List.mem_cons_self
      have following : ∀ next ∈ request::requests, request.now ≤ next.now := by
        refine List.forall_mem_cons.mpr ⟨le_rfl,?_⟩
        intro next member
        exact (List.pairwise_cons.mp during).1 _ (List.mem_map_of_mem member)
      have bound := accepted_le started enabled during following inside span unevicted
      have capacity := potential_le (limits key).perSecond (limits key).burst (served limits config [] earlier) key
        start
      linarith

theorem rate_limits_hold_login : accepted (fun _ => ⟨1,2⟩) ⟨600000,2⟩ "login:10.0.0.1"
      (served (fun _ => ⟨1,2⟩) ⟨600000,2⟩ [] [⟨"login:10.0.0.2",0⟩,⟨"login:10.0.0.3",0⟩])
      [⟨"login:10.0.0.1",5⟩,⟨"login:10.0.0.1",5⟩,⟨"login:10.0.0.1",5⟩,⟨"login:10.0.0.1",1005⟩] = 3 ∧
    ((3 : ℕ) : ℚ) ≤ 2 + 1 * (1005 - 5) / 1000 := by
  have holds := rate_limits_hold (fun _ => ⟨1,2⟩) ⟨600000,2⟩ [⟨"login:10.0.0.2",0⟩,⟨"login:10.0.0.3",0⟩]
    [⟨"login:10.0.0.1",5⟩,⟨"login:10.0.0.1",5⟩,⟨"login:10.0.0.1",5⟩,⟨"login:10.0.0.1",1005⟩] (by decide +kernel)
  have three : accepted (fun _ => ⟨1,2⟩) ⟨600000,2⟩ "login:10.0.0.1"
      (served (fun _ => ⟨1,2⟩) ⟨600000,2⟩ [] [⟨"login:10.0.0.2",0⟩,⟨"login:10.0.0.3",0⟩])
      [⟨"login:10.0.0.1",5⟩,⟨"login:10.0.0.1",5⟩,⟨"login:10.0.0.1",5⟩,⟨"login:10.0.0.1",1005⟩] = 3 := by
    decide +kernel
  have bound := holds.2.2.2.2 "login:10.0.0.1" 5 1005 (by decide +kernel) (by decide +kernel) (by decide +kernel)
    ⟨by decide +kernel,by decide +kernel,by decide +kernel,by decide +kernel,trivial⟩
  rw [three] at bound
  exact ⟨three,bound⟩

end Windows

end NodejsPool.Pool.RateLimits
