import NodejsPool.Async.Machine
import NodejsPool.Async.Program

/-! Processes that run asynchronous programs over a shared state. Every await is one step, so any
interleaving and any crash is a run; the rule at the end reduces an invariant of all runs to the
calls the contracts allow. -/
namespace NodejsPool.Async

/-- `perform` answers a call of a process: an `Answer` picks among the outcomes, and is refused when it
cannot occur. `occur` is what happens to the shared state without any process. -/
structure System (S : Signature) where
  Shared : Type
  Job : Type
  Answer : Type
  Occurrence : Type
  program : Job → Program S Unit
  perform : Nat → (call : S.Call) → Answer → Shared → Option (S.Outcome call × Shared)
  occur : Occurrence → Shared → Option Shared

variable {S : Signature}

structure Past (Job : Type) (S : Signature) where
  job : Job
  history : History S

/-- `rest` is gone once the process has crashed. -/
structure Process (Job : Type) (S : Signature) where
  past : Past Job S
  rest : Option (Program S Unit)

namespace System

structure World (W : System S) where
  shared : W.Shared
  processes : List (Process W.Job S)

inductive Label (W : System S) where
  | start (job : W.Job)
  | act (process : Nat) (answer : W.Answer)
  | crash (process : Nat)
  | occur (occurrence : W.Occurrence)

variable (W : System S)

def World.pasts {W : System S} (world : World W) : List (Past W.Job S) := world.processes.map Process.past

def act (world : World W) (index : Nat) (answer : W.Answer) : Option (World W) := do
  let process ← world.processes[index]?
  match process.rest with
  | some (.call call next) => do
    let (outcome,shared) ← W.perform index call answer world.shared
    some ⟨shared,world.processes.set index
      ⟨⟨process.past.job,⟨call,outcome⟩::process.past.history⟩,some (next outcome)⟩⟩
  | _ => none

def step (world : World W) : Label W → Option (World W)
  | .start job => some {world with
      processes := world.processes ++ [⟨⟨job,[]⟩,some (W.program job)⟩]}
  | .act index answer => W.act world index answer
  | .crash index => do
      let process ← world.processes[index]?
      some {world with processes := world.processes.set index {process with rest := none}}
  | .occur occurrence => (W.occur occurrence world.shared).map fun shared => {world with shared := shared}

def machine (start : W.Shared → Prop) : Machine (World W) (Label W) where
  initial world := start world.shared ∧ world.processes = []
  step := W.step

def Past.add {Job : Type} (past : Past Job S) (call : S.Call) (outcome : S.Outcome call) : Past Job S :=
  ⟨past.job,⟨call,outcome⟩::past.history⟩

variable {W}

/-- The obligations of an invariant over shared state and pasts: programs keep their contract, and
allowed calls, new processes and occurrences keep the invariant. -/
structure Rule (W : System S) (start : W.Shared → Prop) (contract : W.Job → Contract S)
    (Inv : W.Shared → List (Past W.Job S) → Prop) : Prop where
  meets : ∀ job, (W.program job).Meets (contract job) [] fun _ _ => True
  initial : ∀ shared, start shared → Inv shared []
  started : ∀ shared pasts job, Inv shared pasts → Inv shared (pasts ++ [⟨job,[]⟩])
  performed : ∀ shared pasts index past call answer outcome next, Inv shared pasts →
    pasts[index]? = some past → (contract past.job).allowed past.history call →
    W.perform index call answer shared = some (outcome,next) →
      (contract past.job).expected past.history call outcome ∧
        Inv next (pasts.set index (Past.add past call outcome))
  occurred : ∀ shared pasts occurrence next, Inv shared pasts →
    W.occur occurrence shared = some next → Inv next pasts

structure Lawful (contract : W.Job → Contract S) (Inv : W.Shared → List (Past W.Job S) → Prop)
    (world : World W) : Prop where
  invariant : Inv world.shared world.pasts
  meets : ∀ process ∈ world.processes, ∀ rest, process.rest = some rest →
    rest.Meets (contract process.past.job) process.past.history fun _ _ => True

theorem getElem?_pasts (world : World W) (index : Nat) :
    world.pasts[index]? = (world.processes[index]?).map Process.past := List.getElem?_map

theorem act_some {world after : World W} {index : Nat} {answer : W.Answer}
    (moved : W.act world index answer = some after) : ∃ process call next outcome shared,
      world.processes[index]? = some process ∧ process.rest = some (.call call next) ∧
      W.perform index call answer world.shared = some (outcome,shared) ∧
      after = ⟨shared,world.processes.set index ⟨Past.add process.past call outcome,some (next outcome)⟩⟩ := by
  obtain ⟨process,found,moved⟩ := Option.bind_eq_some_iff.mp moved
  cases rest : process.rest with
  | none => simp [rest] at moved
  | some program =>
    cases program with
    | done value | throw error => simp [rest] at moved
    | call call next =>
      simp only [rest] at moved
      obtain ⟨⟨outcome,shared⟩,performed,moved⟩ := Option.bind_eq_some_iff.mp moved
      exact ⟨process,call,next,outcome,shared,found,rest,performed,(Option.some.inj moved).symm⟩

variable {start : W.Shared → Prop} {contract : W.Job → Contract S}
  {Inv : W.Shared → List (Past W.Job S) → Prop}

theorem lawful_act (rule : Rule W start contract Inv) {world after : World W}
    (lawful : Lawful contract Inv world) {index : Nat} {answer : W.Answer}
    (moved : W.act world index answer = some after) : Lawful contract Inv after := by
  obtain ⟨process,call,next,outcome,shared,found,rest,performed,rfl⟩ := act_some moved
  have inside := List.mem_of_getElem? found
  obtain ⟨allowed,resumes⟩ := lawful.meets process inside _ rest
  have past : world.pasts[index]? = some process.past := by rw [getElem?_pasts,found]; rfl
  obtain ⟨expected,kept⟩ := rule.performed _ _ _ _ _ _ _ _ lawful.invariant past allowed performed
  constructor
  · simpa [World.pasts,List.map_set] using kept
  · intro other member program runs
    rcases List.mem_or_eq_of_mem_set member with old | rfl
    · exact lawful.meets other old program runs
    · cases runs
      exact resumes outcome expected

/-- A rule's invariant holds in every reachable world, and every process stays
inside its contract. -/
theorem Rule.lawful (rule : Rule W start contract Inv) {world : World W}
    (reachable : (W.machine start).Reachable world) : Lawful contract Inv world := by
  refine reachable.invariant (Lawful contract Inv) ?_ ?_
  · intro world initial
    obtain ⟨fresh,empty⟩ := initial
    constructor
    · simpa [World.pasts,empty] using rule.initial _ fresh
    · simp [empty]
  · intro world after label lawful _ moved
    cases label with
    | start job =>
      cases moved
      constructor
      · simpa [World.pasts] using rule.started _ _ job lawful.invariant
      · intro process member program runs
        rcases List.mem_append.mp member with old | new
        · exact lawful.meets process old program runs
        · obtain rfl := List.mem_singleton.mp new
          cases runs
          exact rule.meets job
    | act index answer => exact lawful_act rule lawful moved
    | crash index =>
      obtain ⟨process,found,moved⟩ := Option.bind_eq_some_iff.mp moved
      cases moved
      constructor
      · have pasts : (world.processes.set index {process with rest := none}).map Process.past =
            world.processes.map Process.past := by
          apply List.ext_getElem?
          intro other
          by_cases same : index = other
          · subst same
            obtain ⟨bound,here⟩ := List.getElem?_eq_some_iff.mp found
            simp [bound,here]
          · simp [List.getElem?_set_ne same]
        simpa [World.pasts,pasts] using lawful.invariant
      · intro other member program runs
        rcases List.mem_or_eq_of_mem_set member with old | rfl
        · exact lawful.meets other old program runs
        · cases runs
    | occur occurrence =>
      obtain ⟨shared,occurred,rfl⟩ := Option.map_eq_some_iff.mp moved
      exact ⟨rule.occurred _ _ _ _ lawful.invariant occurred,lawful.meets⟩

structure Extension (W : System S) (start : W.Shared → Prop) (contract : W.Job → Contract S)
    (Inv More : W.Shared → List (Past W.Job S) → Prop) : Prop where
  initial : ∀ shared, start shared → More shared []
  started : ∀ shared pasts job, More shared pasts → More shared (pasts ++ [⟨job,[]⟩])
  performed : ∀ shared pasts index past call answer outcome next, Inv shared pasts → More shared pasts →
    pasts[index]? = some past → (contract past.job).allowed past.history call →
    W.perform index call answer shared = some (outcome,next) →
      More next (pasts.set index (Past.add past call outcome))
  occurred : ∀ shared pasts occurrence next, Inv shared pasts → More shared pasts →
    W.occur occurrence shared = some next → More next pasts

theorem Rule.extend {More : W.Shared → List (Past W.Job S) → Prop} (rule : Rule W start contract Inv)
    (extension : Extension W start contract Inv More) :
    Rule W start contract fun shared pasts => Inv shared pasts ∧ More shared pasts := by
  constructor
  · exact rule.meets
  · intro shared fresh
    exact ⟨rule.initial shared fresh,extension.initial shared fresh⟩
  · intro shared pasts job inv
    exact ⟨rule.started shared pasts job inv.1,extension.started shared pasts job inv.2⟩
  · intro shared pasts index past call answer outcome next inv found allowed performed
    obtain ⟨expected,kept⟩ := rule.performed _ _ _ _ _ _ _ _ inv.1 found allowed performed
    exact ⟨expected,kept,extension.performed _ _ _ _ _ _ _ _ inv.1 inv.2 found allowed performed⟩
  · intro shared pasts occurrence next inv occurred
    exact ⟨rule.occurred _ _ _ _ inv.1 occurred,extension.occurred _ _ _ _ inv.1 inv.2 occurred⟩

end System
end NodejsPool.Async
