import Mathlib.Logic.Basic

/-! Labelled state machines whose step is executable, their reachable states
and the induction rules over runs. -/
namespace NodejsPool.Async

structure Machine (State Label : Type*) where
  initial : State → Prop
  step : State → Label → Option State

namespace Machine

variable {State Label : Type*} (M : Machine State Label)

inductive ReachableBy (allowed : State → Label → Prop) : State → Prop
  | initial {s : State} (start : M.initial s) : ReachableBy allowed s
  | step {s t : State} {label : Label} (before : ReachableBy allowed s) (may : allowed s label)
      (moved : M.step s label = some t) : ReachableBy allowed t

abbrev Reachable : State → Prop := M.ReachableBy fun _ _ => True

def run : State → List Label → Option State
  | s,[] => some s
  | s,label::labels => (M.step s label).bind fun t => run t labels

variable {M} {allowed : State → Label → Prop} {s t : State} {labels front back : List Label} {Inv Good : State → Prop}

/-- What holds at the start and is kept by every allowed step holds in every
state reached by allowed steps. -/
theorem ReachableBy.invariant
    (reachable : M.ReachableBy allowed s) (Inv : State → Prop) (start : ∀ s, M.initial s → Inv s)
    (kept : ∀ s t label, Inv s → allowed s label → M.step s label = some t → Inv t) : Inv s := by
  induction reachable with
  | initial initial => exact start _ initial
  | step before may moved ih => exact kept _ _ _ ih may moved

theorem ReachableBy.run (reachable : M.ReachableBy allowed s) (may : ∀ label ∈ labels, ∀ s, allowed s label)
    (ran : M.run s labels = some t) : M.ReachableBy allowed t := by
  induction labels generalizing s with
  | nil =>
    cases ran
    exact reachable
  | cons label labels ih =>
    obtain ⟨next,moved,rest⟩ := Option.bind_eq_some_iff.mp ran
    obtain ⟨head,tail⟩ := List.forall_mem_cons.mp may
    exact ih (.step reachable (head s) moved) tail rest

theorem reachable_run (start : M.initial s) (ran : M.run s labels = some t) : M.Reachable t :=
  ReachableBy.run (.initial start) (fun _ _ _ => trivial) ran

variable (M) in
def Along (allowed : State → Label → Prop) : State → List Label → Prop
  | _,[] => True
  | s,label::labels => allowed s label ∧ ∀ t, M.step s label = some t → Along allowed t labels

instance decidableAlong {allowed : State → Label → Prop} [∀ s label, Decidable (allowed s label)] :
    ∀ s labels, Decidable (M.Along allowed s labels)
  | _,[] => isTrue trivial
  | s,label::labels =>
    have : ∀ t, Decidable (M.Along allowed t labels) := fun t => decidableAlong t labels
    inferInstanceAs (Decidable (_ ∧ ∀ t ∈ M.step s label, _))

theorem run_append : M.run s (front ++ back) = (M.run s front).bind fun t => M.run t back := by
  induction front generalizing s with
  | nil => rfl
  | cons label front ih =>
    simp only [List.cons_append,run,Option.bind_assoc]
    exact Option.bind_congr fun t _ => ih

theorem run_front (ran : M.run s front = some t) : M.run s (front ++ back) = M.run t back := by
  rw [run_append,ran]
  rfl

/-- Where a step keeps a property exactly when it is allowed, so does a run. -/
theorem run_iff_along
    (kept : ∀ s t label, Inv s → M.step s label = some t → Inv t ∧ (Good t ↔ Good s ∧ allowed s label))
    (inv : Inv s) (ran : M.run s labels = some t) : Inv t ∧ (Good t ↔ Good s ∧ M.Along allowed s labels) := by
  induction labels generalizing s with
  | nil =>
    cases ran
    exact ⟨inv,Iff.symm (and_iff_left trivial)⟩
  | cons label labels ih =>
    obtain ⟨next,moved,rest⟩ := Option.bind_eq_some_iff.mp ran
    obtain ⟨invNext,one⟩ := kept s next label inv moved
    obtain ⟨invLast,more⟩ := ih invNext rest
    refine ⟨invLast,?_⟩
    rw [more,one,and_assoc]
    refine and_congr_right fun _ => and_congr_right fun _ => ⟨?_,fun along => along next moved⟩
    intro along other same
    cases moved.symm.trans same
    exact along

/-- Where the labels alone decide, a run's steps are allowed when its labels are. -/
theorem along_labels {allowed : Label → Prop} (ran : M.run s labels = some t) :
    M.Along (fun _ => allowed) s labels ↔ ∀ label ∈ labels, allowed label := by
  induction labels generalizing s with
  | nil => simp [Along]
  | cons label labels ih =>
    obtain ⟨next,moved,rest⟩ := Option.bind_eq_some_iff.mp ran
    rw [List.forall_mem_cons,← ih rest]
    refine and_congr_right fun _ => ⟨fun along => along next moved,fun along other same => ?_⟩
    cases moved.symm.trans same
    exact along

/-- A property that no earlier state had lost is kept by a step exactly when the step is allowed: it
holds all along a run of such labels exactly when the run's steps are allowed. -/
theorem always_iff_along_of {usual : Label → Prop}
    (kept : ∀ s t label, usual label → Inv s → M.step s label = some t → Inv t ∧ (Good s → (Good t ↔ allowed s label)))
    (may : ∀ label ∈ labels, usual label) (inv : Inv s) (good : Good s) (ran : M.run s labels = some t) :
    (∀ front u, front <+: labels → M.run s front = some u → Good u) ↔ M.Along allowed s labels := by
  induction labels generalizing s with
  | nil =>
    refine iff_of_true ?_ trivial
    intro front u before reached
    cases List.prefix_nil.mp before
    cases reached
    exact good
  | cons label labels ih =>
    obtain ⟨next,moved,rest⟩ := Option.bind_eq_some_iff.mp ran
    obtain ⟨head,tail⟩ := List.forall_mem_cons.mp may
    obtain ⟨invNext,one⟩ := kept s next label head inv moved
    constructor
    · intro always
      have goodNext : Good next := always [label] next (List.prefix_append _ labels) (by simp [run,moved])
      refine ⟨(one good).mp goodNext,fun other same => ?_⟩
      cases moved.symm.trans same
      refine (ih tail invNext goodNext rest).mp fun front u before reached => ?_
      exact always (label::front) u ((List.prefix_cons_inj label).mpr before) (by simp [run,moved,reached])
    · intro along front u before reached
      cases front with
      | nil =>
        cases reached
        exact good
      | cons first front =>
        obtain ⟨same,remaining⟩ := List.cons_prefix_cons.mp before
        subst same
        rw [run,moved] at reached
        exact (ih tail invNext ((one good).mpr along.1) rest).mpr (along.2 next moved) front u remaining reached

theorem always_iff_along
    (kept : ∀ s t label, Inv s → M.step s label = some t → Inv t ∧ (Good s → (Good t ↔ allowed s label)))
    (inv : Inv s) (good : Good s) (ran : M.run s labels = some t) :
    (∀ front u, front <+: labels → M.run s front = some u → Good u) ↔ M.Along allowed s labels :=
  always_iff_along_of (fun s t label _ => kept s t label) (fun _ _ => trivial) inv good ran

def guarded (M : Machine State Label) (check : State → Label → Bool) : Machine State Label where
  initial := M.initial
  step s label := if check s label then M.step s label else none

/-- A run under a check takes only the steps that the check stands for. -/
theorem ReachableBy.run_guarded {check : State → Label → Bool}
    (sound : ∀ s label, check s label = true → allowed s label)
    (reachable : M.ReachableBy allowed s) (ran : (M.guarded check).run s labels = some t) :
    M.ReachableBy allowed t := by
  induction labels generalizing s with
  | nil =>
    cases ran
    exact reachable
  | cons label labels ih =>
    obtain ⟨next,moved,rest⟩ := Option.bind_eq_some_iff.mp ran
    obtain ⟨passed,moved⟩ := Option.ite_none_right_eq_some.mp moved
    exact ih (.step reachable (sound s label passed) moved) rest

end Machine
end NodejsPool.Async
