import Mathlib.Data.List.Basic
import Mathlib.Order.Basic

/-! Logs whose newest record comes first: what has been so since some record. -/
namespace NodejsPool.Common.Logs

variable {Event Time : Type*}

def Since (start stop : Event → Prop) (log : List Event) : Prop :=
  ∃ newer event older, log = newer ++ event::older ∧ start event ∧ ∀ later ∈ newer, ¬stop later

variable {start stop : Event → Prop} {event : Event} {log : List Event}

@[simp] theorem since_nil : ¬Since start stop [] := by
  intro since
  obtain ⟨newer,event,older,same,_⟩ := since
  simp at same

theorem since_cons : Since start stop (event::log) ↔ start event ∨ ¬stop event ∧ Since start stop log := by
  constructor
  · intro since
    obtain ⟨newer,first,older,same,starts,kept⟩ := since
    cases newer with
    | nil =>
      cases same
      exact .inl starts
    | cons head newer =>
      cases same
      obtain ⟨here,rest⟩ := List.forall_mem_cons.mp kept
      exact .inr ⟨here,newer,first,older,rfl,starts,rest⟩
  · intro either
    rcases either with starts | ⟨here,newer,first,older,rfl,starts,kept⟩
    · exact ⟨[],event,log,rfl,starts,by simp⟩
    · exact ⟨event::newer,first,older,rfl,starts,List.forall_mem_cons.mpr ⟨here,kept⟩⟩

theorem Since.later (since : Since start stop log) (kept : ¬stop event) : Since start stop (event::log) :=
  since_cons.mpr (.inr ⟨kept,since⟩)

theorem Since.append (since : Since start stop log) {newer : List Event} (kept : ∀ later ∈ newer, ¬stop later) :
    Since start stop (newer ++ log) := by
  induction newer with
  | nil => exact since
  | cons head newer ih =>
    obtain ⟨here,rest⟩ := List.forall_mem_cons.mp kept
    exact (ih rest).later here

theorem Since.mono {begins halts : Event → Prop} (since : Since start stop log)
    (starts : ∀ event ∈ log, start event → begins event)
    (stops : ∀ event, halts event → stop event) : Since begins halts log := by
  obtain ⟨newer,first,older,rfl,here,kept⟩ := since
  exact ⟨newer,first,older,rfl,starts first (by simp) here,fun later among halted =>
    kept later among (stops later halted)⟩

theorem Since.exists_mem (since : Since start stop log) : ∃ event ∈ log, start event := by
  obtain ⟨newer,first,older,rfl,here,_⟩ := since
  exact ⟨first,by simp,here⟩

theorem Since.before [Preorder Time] {time : Event → Time} {t : Time}
    (sorted : log.Pairwise fun later earlier => time earlier ≤ time later)
    (since : Since (fun event => start event ∧ time event = t) stop log) (among : event ∈ log) (stops : stop event) :
    time event ≤ t := by
  obtain ⟨newer,first,older,rfl,⟨_,rfl⟩,kept⟩ := since
  obtain ⟨_,rest,_⟩ := List.pairwise_append.mp sorted
  rcases List.mem_append.mp among with later | rest'
  · exact absurd stops (kept event later)
  · rcases List.mem_cons.mp rest' with rfl | earlier
    · exact le_rfl
    · exact (List.pairwise_cons.mp rest).1 event earlier

end NodejsPool.Common.Logs
