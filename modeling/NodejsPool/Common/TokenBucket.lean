import Mathlib.Algebra.Order.Field.Basic
import Mathlib.Tactic.Linarith

/-! A bucket that is refilled at a constant rate up to its burst. Its level is a potential: it grows no
faster than the rate, and what is taken comes out of it. -/
namespace NodejsPool.TokenBucket

variable {K : Type*} [Field K] [LinearOrder K]

structure Bucket (K : Type*) where
  tokens : K
  last : K

variable (rate burst : K)

def level (bucket : Bucket K) (time : K) : K := min burst (bucket.tokens + max 0 (time - bucket.last) * rate)

variable {rate burst} {bucket : Bucket K} {time later : K}

theorem level_le_burst (rate burst : K) (bucket : Bucket K) (time : K) : level rate burst bucket time ≤ burst :=
  min_le_left _ _

theorem level_now (tokens time : K) (bounded : tokens ≤ burst) : level rate burst ⟨tokens,time⟩ time = tokens := by
  unfold level
  rw [sub_self,max_self,zero_mul,add_zero,min_eq_right bounded]

variable [IsStrictOrderedRing K]

theorem level_nonneg (positive : 0 ≤ rate) (capacity : 0 ≤ burst) (filled : 0 ≤ bucket.tokens) :
    0 ≤ level rate burst bucket time := by
  have refilled : 0 ≤ max 0 (time - bucket.last) * rate := mul_nonneg (le_max_left _ _) positive
  exact le_min capacity (by linarith)

theorem level_grows (positive : 0 ≤ rate) (order : time ≤ later) :
    level rate burst bucket later ≤ level rate burst bucket time + rate * (later - time) := by
  have step : max 0 (later - bucket.last) ≤ max 0 (time - bucket.last) + (later - time) := by
    rcases le_total 0 (time - bucket.last) with past | future
    · rw [max_eq_right past,max_eq_right (by linarith)]
      linarith
    · rw [max_eq_left future]
      exact max_le (by linarith) (by linarith)
  have refilled : max 0 (later - bucket.last) * rate ≤ (max 0 (time - bucket.last) + (later - time)) * rate :=
    mul_le_mul_of_nonneg_right step positive
  have gained : 0 ≤ rate * (later - time) := mul_nonneg positive (by linarith)
  unfold level
  rcases min_choice burst (bucket.tokens + max 0 (time - bucket.last) * rate) with full | partly
  · rw [full]
    exact (min_le_left _ _).trans (by linarith)
  · rw [partly]
    exact (min_le_right _ _).trans (by linarith)

end NodejsPool.TokenBucket
