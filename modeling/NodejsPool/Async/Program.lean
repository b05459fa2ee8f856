import Mathlib.Data.List.Basic

/-! Asynchronous programs as trees of awaited calls, and contracts on the calls they issue. A
contract may inspect the whole history of the process. -/
namespace NodejsPool.Async

/-- The calls a process can await, the replies they resolve to and the errors
they reject with. -/
structure Signature where
  Call : Type
  Reply : Call → Type
  Error : Type

abbrev Signature.Outcome (S : Signature) (call : S.Call) := Except S.Error (S.Reply call)

inductive Program (S : Signature) (A : Type) where
  | done (value : A)
  | throw (error : S.Error)
  | call (request : S.Call) (next : S.Outcome request → Program S A)

variable {S : Signature} {A B : Type}

namespace Program

def perform (call : S.Call) : Program S (S.Reply call) :=
  .call call fun
    | .ok reply => .done reply
    | .error error => .throw error

def bind : Program S A → (A → Program S B) → Program S B
  | .done value,f => f value
  | .throw error,_ => .throw error
  | .call request next,f => .call request fun outcome => (next outcome).bind f

def tryCatch : Program S A → (S.Error → Program S A) → Program S A
  | .done value,_ => .done value
  | .throw error,handler => handler error
  | .call request next,handler => .call request fun outcome => (next outcome).tryCatch handler

instance : Monad (Program S) where
  pure := .done
  bind := bind

end Program

structure Event (S : Signature) where
  call : S.Call
  outcome : S.Outcome call

abbrev History (S : Signature) := List (Event S)

/-- A contract bounds the calls a process may issue after a history, given that
the outcomes it is handed are the expected ones. -/
structure Contract (S : Signature) where
  allowed : History S → S.Call → Prop
  expected : History S → (call : S.Call) → S.Outcome call → Prop

namespace Program

/-- Every call of the program is allowed, and every way it can end satisfies
`ends`, whatever expected outcomes it is handed. -/
def Meets (C : Contract S) : Program S A → History S → (History S → Except S.Error A → Prop) → Prop
  | .done value,history,ends => ends history (.ok value)
  | .throw error,history,ends => ends history (.error error)
  | .call request next,history,ends => C.allowed history request ∧
      ∀ outcome, C.expected history request outcome →
        (next outcome).Meets C (⟨request,outcome⟩::history) ends

variable (C : Contract S)
  {p : Program S A} {history : History S} {ends middle : History S → Except S.Error A → Prop} {f : A → Program S B}
    {good : History S → B → Prop}

/-- The postcondition of `p` under which `p` followed by `f` ends in `ends`. -/
def andThen (f : A → Program S B) (ends : History S → Except S.Error B → Prop) :
    History S → Except S.Error A → Prop
  | history,.ok value => (f value).Meets C history ends
  | history,.error error => ends history (.error error)

def orElse (handler : S.Error → Program S A) (ends : History S → Except S.Error A → Prop) :
    History S → Except S.Error A → Prop
  | history,.ok value => ends history (.ok value)
  | history,.error error => (handler error).Meets C history ends

theorem meets_bind (p : Program S A) (f : A → Program S B) (history : History S)
    (ends : History S → Except S.Error B → Prop) :
    (p >>= f).Meets C history ends ↔ p.Meets C history (andThen C f ends) := by
  change (p.bind f).Meets C history ends ↔ _
  induction p generalizing history with
  | done value | throw error => exact Iff.rfl
  | call request next ih =>
    exact and_congr_right fun _ => forall_congr' fun outcome => imp_congr_right fun _ => ih outcome _

theorem meets_map (f : A → B) (p : Program S A) (history : History S) (ends : History S → Except S.Error B → Prop) :
    (f <$> p).Meets C history ends ↔ p.Meets C history fun after result => ends after (result.map f) := by
  change (p >>= fun value => pure (f value)).Meets C history ends ↔ _
  rw [meets_bind]
  suffices same : (andThen C (fun value => pure (f value)) ends) = fun after result => ends after (result.map f) by
    rw [same]
  funext after result
  cases result <;> rfl

theorem meets_tryCatch (p : Program S A) (handler : S.Error → Program S A) (history : History S)
    (ends : History S → Except S.Error A → Prop) :
    (p.tryCatch handler).Meets C history ends ↔ p.Meets C history (orElse C handler ends) := by
  induction p generalizing history with
  | done value | throw error => exact Iff.rfl
  | call request next ih =>
    exact and_congr_right fun _ => forall_congr' fun outcome => imp_congr_right fun _ => ih outcome _

theorem meets_perform (call : S.Call) (history : History S) (ends : History S → Except S.Error (S.Reply call) → Prop) :
    (perform call).Meets C history ends ↔ C.allowed history call ∧
      ∀ outcome, C.expected history call outcome → ends (⟨call,outcome⟩::history) outcome := by
  refine and_congr_right fun _ => forall_congr' fun outcome => imp_congr_right fun _ => ?_
  cases outcome <;> exact Iff.rfl

theorem meets_await (call : S.Call) (f : S.Reply call → Program S B) (history : History S)
    (ends : History S → Except S.Error B → Prop) : (perform call >>= f).Meets C history ends ↔ C.allowed history call ∧
      (∀ reply, C.expected history call (.ok reply) → (f reply).Meets C (⟨call,.ok reply⟩::history) ends) ∧
      ∀ error, C.expected history call (.error error) → ends (⟨call,.error error⟩::history) (.error error) := by
  rw [meets_bind,meets_perform]
  refine and_congr_right fun _ => ?_
  constructor
  · intro resumes
    exact ⟨fun reply => resumes (.ok reply),fun error => resumes (.error error)⟩
  · intro resumes outcome expected
    cases outcome with
    | ok reply => exact resumes.1 reply expected
    | error error => exact resumes.2 error expected

theorem Meets.imp {C : Contract S}
    {before after : History S → Except S.Error A → Prop} (meets : p.Meets C history before)
    (weaker : ∀ history result, before history result → after history result) : p.Meets C history after := by
  induction p generalizing history with
  | done value | throw error => exact weaker _ _ meets
  | call request next ih =>
    exact ⟨meets.1,fun outcome expected => ih outcome (meets.2 outcome expected)⟩

theorem Meets.extends {C : Contract S} (meets : p.Meets C history ends) :
    p.Meets C history fun after result => history <:+ after ∧ ends after result := by
  induction p generalizing history with
  | done value | throw error => exact ⟨List.suffix_rfl,meets⟩
  | call request next ih =>
    refine ⟨meets.1,fun outcome expected => ?_⟩
    apply Meets.imp (ih outcome (meets.2 outcome expected))
    intro after result met
    exact ⟨(List.suffix_cons _ _).trans met.1,met.2⟩

/-- Sequencing by a middle assertion, which every way the first part ends satisfies. -/
theorem Meets.bind {C : Contract S} {ends : History S → Except S.Error B → Prop} (meets : p.Meets C history middle)
    (next : ∀ after value, history <:+ after → middle after (.ok value) → (f value).Meets C after ends)
    (fails : ∀ after error, history <:+ after → middle after (.error error) → ends after (.error error)) :
    (p >>= f).Meets C history ends := by
  rw [meets_bind]
  apply meets.extends.imp
  intro after result met
  cases result with
  | ok value => exact next after value met.1 met.2
  | error error => exact fails after error met.1 met.2

theorem Meets.tryCatch {C : Contract S} {handler : S.Error → Program S A} (meets : p.Meets C history middle)
    (returns : ∀ after value, history <:+ after → middle after (.ok value) → ends after (.ok value))
    (caught : ∀ after error, history <:+ after → middle after (.error error) →
      (handler error).Meets C after ends) : (p.tryCatch handler).Meets C history ends := by
  rw [meets_tryCatch]
  apply meets.extends.imp
  intro after result met
  cases result with
  | ok value => exact returns after value met.1 met.2
  | error error => exact caught after error met.1 met.2

/-- A program that keeps one contract keeps a wider one that promises at least as much. -/
theorem Meets.relax {C D : Contract S} (wider : ∀ history call, C.allowed history call → D.allowed history call)
    (promises : ∀ history call outcome, D.expected history call outcome → C.expected history call outcome)
    (meets : p.Meets C history ends) : p.Meets D history ends := by
  induction p generalizing history with
  | done value | throw error => exact meets
  | call request next ih =>
    refine ⟨wider _ _ meets.1,fun outcome expected => ?_⟩
    exact ih outcome (meets.2 outcome (promises _ _ _ expected))

/-- What no allowed call changes about the history is as it was when the program ends. -/
theorem Meets.keeps {C : Contract S} {X : Type} (view : History S → X)
    (same : ∀ history call outcome, C.allowed history call → view (⟨call,outcome⟩::history) = view history)
    (meets : p.Meets C history ends) :
    p.Meets C history fun after result => view after = view history ∧ ends after result := by
  induction p generalizing history with
  | done value | throw error => exact ⟨rfl,meets⟩
  | call request next ih =>
    refine ⟨meets.1,fun outcome expected => ?_⟩
    apply Meets.imp (ih outcome (meets.2 outcome expected))
    intro after result met
    exact ⟨met.1.trans (same _ _ _ meets.1),met.2⟩

def Returns (good : History S → A → Prop) : History S → Except S.Error A → Prop
  | history,.ok value => good history value
  | _,.error _ => True

theorem Meets.returns {C : Contract S} {before after : History S → A → Prop}
    (meets : p.Meets C history (Returns before)) (weaker : ∀ history value, before history value →
      after history value) :
    p.Meets C history (Returns after) := by
  apply meets.imp
  intro history result met
  cases result with
  | ok value => exact weaker history value met
  | error error => exact trivial

theorem Meets.andReturns {C : Contract S} {middle : History S → A → Prop} (meets : p.Meets C history (Returns middle))
    (next : ∀ after value, history <:+ after → middle after value → (f value).Meets C after (Returns good)) :
    (p >>= f).Meets C history (Returns good) :=
  meets.bind next fun _ _ _ _ => trivial

theorem returns_await {C : Contract S} {call : S.Call} {f : S.Reply call → Program S B}
    (allowed : C.allowed history call) (next : ∀ reply, C.expected history call (.ok reply) →
      (f reply).Meets C (⟨call,.ok reply⟩::history) (Returns good)) :
    (perform call >>= f).Meets C history (Returns good) :=
  (meets_await C call f history _).mpr ⟨allowed,next,fun _ _ => trivial⟩

theorem returns_perform {C : Contract S} {call : S.Call} {good : History S → S.Reply call → Prop}
    (allowed : C.allowed history call)
    (met : ∀ reply, C.expected history call (.ok reply) → good (⟨call,.ok reply⟩::history) reply) :
    (perform call).Meets C history (Returns good) := by
  rw [meets_perform]
  refine ⟨allowed,fun outcome expected => ?_⟩
  cases outcome with
  | ok reply => exact met reply expected
  | error error => exact trivial

end Program
end NodejsPool.Async
