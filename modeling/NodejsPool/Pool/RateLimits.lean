import Mathlib.Data.Rat.Floor
import NodejsPool.Common.Entries
import NodejsPool.Common.TokenBucket

/-! The pool's rate limits: a bucket for each method and source, the least recently used of them
evicted when there are too many. -/
namespace NodejsPool.Pool.RateLimits
open Entries

section Buckets

structure RateBucket where
  tokens : ℚ
  lastRefillAt : ℚ

abbrev RateBuckets := List (String × RateBucket)

structure SecurityConfig where
  rpcRateLimitBucketIdleMs : ℚ
  rpcRateLimitBucketMaxEntries : ℚ

def pruneRateBuckets (now : ℚ) (config : SecurityConfig) : RateBuckets → RateBuckets
  | [] => []
  | oldest::rest =>
    let expired := config.rpcRateLimitBucketIdleMs < now - oldest.2.lastRefillAt
    if ¬expired ∧ ((oldest::rest).length : ℚ) ≤ config.rpcRateLimitBucketMaxEntries then oldest::rest
    else pruneRateBuckets now config rest

def spend (key : String) (bucket : RateBucket) (rateBuckets : RateBuckets) : RateBuckets :=
  rateBuckets.map fun entry => if entry.1 = key then (key,bucket) else entry

def refill (rateBuckets : RateBuckets) (key : String) (perSecond burst timeNow : ℚ) (config : SecurityConfig) :
    RateBuckets × RateBucket :=
  match get rateBuckets key with
  | none =>
    let bucket := ⟨burst,timeNow⟩
    let added := put rateBuckets key bucket
    (if config.rpcRateLimitBucketMaxEntries < added.length then pruneRateBuckets timeNow config added else added,bucket)
  | some bucket =>
    let elapsedSeconds := max 0 ((timeNow - bucket.lastRefillAt) / 1000)
    let bucket := ⟨min burst (bucket.tokens + elapsedSeconds * perSecond),timeNow⟩
    (put (erase rateBuckets key) key bucket,bucket)

def consumeRateLimitToken (rateBuckets : RateBuckets) (key : String) (perSecond burst timeNow : ℚ)
    (config : SecurityConfig) : RateBuckets × Bool :=
  if perSecond ≤ 0 ∨ burst ≤ 0 then (rateBuckets,true)
  else
    let (rateBuckets,bucket) := refill rateBuckets key perSecond burst timeNow config
    if bucket.tokens < 1 then (rateBuckets,false)
    else (spend key {bucket with tokens := bucket.tokens - 1} rateBuckets,true)

end Buckets

section Requests

structure Limit where
  perSecond : ℚ
  burst : ℚ

structure Request where
  key : String
  now : ℚ

variable (limits : String → Limit) (config : SecurityConfig)

def handle (rateBuckets : RateBuckets) (request : Request) : RateBuckets × Bool :=
  consumeRateLimitToken rateBuckets request.key (limits request.key).perSecond (limits request.key).burst
    request.now config

def served (rateBuckets : RateBuckets) (requests : List Request) : RateBuckets :=
  requests.foldl (fun rateBuckets request => (handle limits config rateBuckets request).1) rateBuckets

def accepted (key : String) : RateBuckets → List Request → ℕ
  | _,[] => 0
  | rateBuckets,request::requests =>
    (if request.key = key ∧ (handle limits config rateBuckets request).2 = true then 1 else 0) +
      accepted key (handle limits config rateBuckets request).1 requests

end Requests

end NodejsPool.Pool.RateLimits
