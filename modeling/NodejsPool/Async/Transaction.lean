import Mathlib.Logic.Basic

/-! Transactions as sequences of statements on a working copy of a database. Any statement may fail,
and the commit may be refused, or succeed with its acknowledgement lost. -/
namespace NodejsPool.Async

/-- The statements of a transaction on a working copy. The counter, when there is
one, is the number of statements that still succeed. -/
abbrev Work (Db E : Type) := StateT (Db × Option Nat) (Except E)

inductive Commit where
  | done
  | refused
  | lost

/-- How the surroundings treat a transaction: whether it begins, which statement
loses the connection, and what becomes of the commit. -/
structure Fate where
  begun : Bool := true
  fault : Option Nat := none
  commit : Commit := .done

variable {Db E A B : Type} {lost : E} {fate : Fate} {work : Work Db E A}

namespace Work

variable {before after : Db} {value : A} {next : A → Work Db E B}

/-- One statement: it may fail with its own error, or with `lost` by a fault. -/
def statement (lost : E) (run : Db → Except E (A × Db)) : Work Db E A := fun (db,fault) =>
  match fault with
  | some 0 => .error lost
  | some (left + 1) => (run db).map fun (value,db) => (value,db,some left)
  | none => (run db).map fun (value,db) => (value,db,none)

def Yields (work : Work Db E A) (before : Db) (value : A) (after : Db) : Prop :=
  ∃ fault left, work (before,fault) = .ok (value,after,left)

theorem yields_statement {run : Db → Except E (A × Db)}
    (yields : (statement lost run).Yields before value after) : run before = .ok (value,after) := by
  obtain ⟨fault,left,ran⟩ := yields
  cases result : run before with
  | error error =>
    rcases fault with _ | _ | rest <;> simp [statement,result,Except.map] at ran
  | ok pair =>
    obtain ⟨other,db⟩ := pair
    rcases fault with _ | _ | rest <;> simp [statement,result,Except.map] at ran
    all_goals
      obtain ⟨rfl,rfl,_⟩ := ran
      rfl

theorem yields_bind {value : B} (yields : (work >>= next).Yields before value after) :
    ∃ middle db, work.Yields before middle db ∧ (next middle).Yields db value after := by
  obtain ⟨fault,left,ran⟩ := yields
  cases first : work (before,fault) with
  | error error =>
    change (work (before,fault) >>= _) = _ at ran
    rw [first] at ran
    cases ran
  | ok result =>
    obtain ⟨middle,db,rest⟩ := result
    change (work (before,fault) >>= _) = _ at ran
    rw [first] at ran
    exact ⟨middle,db,⟨fault,rest,first⟩,⟨rest,left,ran⟩⟩

theorem yields_pure {result : A}
    (yields : (pure value : Work Db E A).Yields before result after) : result = value ∧ after = before := by
  obtain ⟨fault,left,ran⟩ := yields
  cases ran
  exact ⟨rfl,rfl⟩

theorem yields_throw {error : E} (yields : (throw error : Work Db E A).Yields before value after) : False := by
  obtain ⟨fault,left,ran⟩ := yields
  cases ran

def Steady (work : Work Db E A) : Prop :=
  ∀ before value after, work.Yields before value after → work (before,none) = .ok (value,after,none)

theorem steady_statement (lost : E) (run : Db → Except E (A × Db)) : Steady (statement lost run) := by
  intro before value after yields
  have ran := yields_statement yields
  simp only [statement,ran,Except.map]

theorem steady_bind (first : work.Steady) (second : ∀ value, (next value).Steady) : (work >>= next).Steady := by
  intro before value after yields
  obtain ⟨middle,db,began,ended⟩ := yields_bind yields
  change (work (before,none) >>= fun pair => next pair.1 pair.2) = _
  rw [first before middle db began]
  exact second middle db value after ended

theorem steady_pure (value : A) : (pure value : Work Db E A).Steady := by
  intro before result after yields
  obtain ⟨rfl,rfl⟩ := yields_pure yields
  rfl

theorem steady_throw (error : E) : (throw error : Work Db E A).Steady := by
  intro before value after yields
  exact (yields_throw yields).elim

end Work

def transact (lost : E) (fate : Fate) (work : Work Db E A) (db : Db) : Except E A × Db :=
  if fate.begun then
    match work (db,fate.fault) with
    | .error error => (.error error,db)
    | .ok (value,after,_) =>
      match fate.commit with
      | .done => (.ok value,after)
      | .refused => (.error lost,db)
      | .lost => (.error lost,after)
  else (.error lost,db)

theorem transact_ok {db after : Db} {value : A} {left : Option Nat}
    (begun : fate.begun = true) (done : fate.commit = .done) (worked : work (db,fate.fault) = .ok (value,after,left)) :
    transact lost fate work db = (.ok value,after) := by
  rw [transact,if_pos begun,worked]
  simp only [done]

theorem transact_error {db : Db} {error : E} (begun : fate.begun = true)
    (failed : work (db,fate.fault) = .error error) : transact lost fate work db = (.error error,db) := by
  rw [transact,if_pos begun,failed]

/-- A transaction is all or nothing: it leaves the database and reports an error, or
it commits its whole work, which the client may not learn. -/
theorem transact_cases {before after : Db}
    {outcome : Except E A} (ran : transact lost fate work before = (outcome,after)) :
    (after = before ∧ ∃ error, outcome = .error error) ∨
      ∃ value, work.Yields before value after ∧ (outcome = .ok value ∨ ∃ error, outcome = .error error) := by
  unfold transact at ran
  split at ran
  · split at ran
    next error _ =>
      cases ran
      exact .inl ⟨rfl,error,rfl⟩
    next value result left worked =>
      split at ran
      · cases ran
        exact .inr ⟨value,⟨_,_,worked⟩,.inl rfl⟩
      · cases ran
        exact .inl ⟨rfl,_,rfl⟩
      · cases ran
        exact .inr ⟨value,⟨_,_,worked⟩,.inr ⟨_,rfl⟩⟩
  · cases ran
    exact .inl ⟨rfl,_,rfl⟩

end NodejsPool.Async
