import NodejsPool.Async.Program

/-! A program that runs by itself: its calls are answered one after the other over a state. -/
namespace NodejsPool.Async.Program

variable {S : Signature} {A B State Answer : Type}
  {respond : (call : S.Call) → Answer → State → Option (S.Outcome call × State)}
  {answers : List Answer} {state after : State} {p : Program S A}

def solo (respond : (call : S.Call) → Answer → State → Option (S.Outcome call × State)) :
    Program S A → List Answer → State → Option (Except S.Error A × State)
  | .done value,[],state => some (.ok value,state)
  | .throw error,[],state => some (.error error,state)
  | .call request next,answer::answers,state => do
    let (outcome,after) ← respond request answer state
    solo respond (next outcome) answers after
  | _,_,_ => none

theorem solo_await {call : S.Call} {f : S.Reply call → Program S B} {reply : S.Reply call} {answer : Answer}
    (responds : respond call answer state = some (.ok reply,after)) :
    (perform call >>= f).solo respond (answer::answers) state = (f reply).solo respond answers after := by
  change (respond call answer state).bind _ = _
  rw [responds]
  rfl

theorem solo_bind {f : A → Program S B} {before : List Answer} {middle : State}
    {value : A} (first : p.solo respond before state = some (.ok value,middle)) :
    (p >>= f).solo respond (before ++ answers) state = (f value).solo respond answers middle := by
  change (p.bind f).solo respond (before ++ answers) state = _
  induction p generalizing before state with
  | done other =>
    cases before with
    | nil =>
      cases first
      rfl
    | cons answer before => cases first
  | throw error =>
    cases before with
    | nil | cons answer before => cases first
  | call request next ih =>
    cases before with
    | nil => cases first
    | cons answer before =>
      obtain ⟨⟨outcome,after⟩,responds,rest⟩ := Option.bind_eq_some_iff.mp first
      change (respond request answer state).bind _ = _
      rw [responds]
      exact ih outcome rest

theorem solo_tryCatch {handler : S.Error → Program S A}
    {value : A} (returned : p.solo respond answers state = some (.ok value,after)) :
    (p.tryCatch handler).solo respond answers state = some (.ok value,after) := by
  induction p generalizing answers state with
  | done other => exact returned
  | throw error =>
    cases answers with
    | nil | cons answer answers => cases returned
  | call request next ih =>
    cases answers with
    | nil => cases returned
    | cons answer answers =>
      obtain ⟨⟨outcome,middle⟩,responds,rest⟩ := Option.bind_eq_some_iff.mp returned
      change (respond request answer state).bind _ = _
      rw [responds]
      exact ih outcome rest

/-- A program that keeps a contract ends as it promises, over states whose answers the contract expects. -/
theorem Meets.solo {C : Contract S} {Inv : History S → State → Prop}
    (keeps : ∀ history call answer state outcome after, Inv history state → C.allowed history call →
      respond call answer state = some (outcome,after) →
        C.expected history call outcome ∧ Inv (⟨call,outcome⟩::history) after)
    {history : History S} {ends : History S → Except S.Error A → Prop}
    (meets : p.Meets C history ends) {result : Except S.Error A}
    (start : Inv history state) (ran : p.solo respond answers state = some (result,after)) :
    ∃ later, Inv later after ∧ ends later result := by
  induction p generalizing history answers state with
  | done value | throw error =>
    cases answers with
    | nil =>
      cases ran
      exact ⟨history,start,meets⟩
    | cons answer answers => cases ran
  | call request next ih =>
    cases answers with
    | nil => cases ran
    | cons answer answers =>
      obtain ⟨⟨outcome,middle⟩,responds,rest⟩ := Option.bind_eq_some_iff.mp ran
      obtain ⟨expected,kept⟩ := keeps history request answer state outcome middle start meets.1 responds
      exact ih outcome (meets.2 outcome expected) kept rest

end NodejsPool.Async.Program
