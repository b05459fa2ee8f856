import Mathlib.Data.List.Basic

/-! Counts kept in a record: a key whose count is zero is absent from it. -/
namespace NodejsPool.Counters
open Function

variable {Key : Type} {target other : Key → Option ℕ} {live : Key → ℕ}

def Tallies (target : Key → Option ℕ) (live : Key → ℕ) : Prop :=
  ∀ key, target key = if live key = 0 then none else some (live key)

theorem Tallies.getD (tallies : Tallies target live) (key : Key) : (target key).getD 0 = live key := by
  rw [tallies key]
  split
  · next zero => exact zero.symm
  · rfl

theorem Tallies.unique (tallies : Tallies target live) (same : Tallies other live) : target = other := by
  funext key
  rw [tallies key,same key]

variable [DecidableEq Key]

def increment (target : Key → Option ℕ) (key : Key) : ℕ × (Key → Option ℕ) :=
  ((target key).getD 0 + 1,Function.update target key (some ((target key).getD 0 + 1)))

def lowered (count : ℕ) : Option ℕ := if count ≤ 1 then none else some (count - 1)

def decrement (target : Key → Option ℕ) (key : Key) : Key → Option ℕ :=
  match target key with
  | none => target
  | some count => Function.update target key (lowered count)

section

variable (tallies : Tallies target live) (key : Key)
include tallies key

theorem Tallies.count : (Counters.increment target key).1 = live key + 1 := by
  rw [Counters.increment,tallies.getD]

theorem Tallies.increment : Tallies (Counters.increment target key).2 (update live key (live key + 1)) := by
  intro other
  rw [Counters.increment,tallies.getD]
  dsimp only
  by_cases same : other = key
  · subst same
    rw [update_self,update_self,if_neg (Nat.succ_ne_zero _)]
  · rw [update_of_ne same,update_of_ne same]
    exact tallies other

theorem Tallies.decrement : Tallies (Counters.decrement target key) (update live key (live key - 1)) := by
  intro other
  unfold Counters.decrement
  have here := tallies key
  by_cases zero : live key = 0
  · rw [if_pos zero] at here
    rw [here,zero,show update live key (0 - 1) = live from by rw [Nat.zero_sub,← zero,update_eq_self]]
    exact tallies other
  · rw [if_neg zero] at here
    rw [here]
    by_cases same : other = key
    · subst same
      dsimp only [lowered]
      rw [update_self,update_self]
      split
      · rw [if_pos (by omega)]
      · rw [if_neg (by omega)]
    · dsimp only
      rw [update_of_ne same,update_of_ne same]
      exact tallies other

theorem Tallies.replace (count : ℕ) :
    Tallies (update target key (if count = 0 then none else some count)) (update live key count) := by
  intro other
  by_cases same : other = key
  · subst same
    rw [update_self,update_self]
  · rw [update_of_ne same,update_of_ne same]
    exact tallies other

theorem Tallies.undo : Counters.decrement (Counters.increment target key).2 key = target := by
  have back := (tallies.increment key).decrement key
  rw [update_self,Nat.add_sub_cancel,update_idem,update_eq_self] at back
  exact back.unique tallies

end

end NodejsPool.Counters
