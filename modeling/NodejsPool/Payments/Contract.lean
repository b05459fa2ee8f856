import NodejsPool.Payments.Lifecycle
import NodejsPool.Payments.Runtime

/-! The contracts of the payment processes: the calls each may make after what it has
been told, read off the history of its awaits. -/
namespace NodejsPool.Payments
open Async

abbrev Log := History signature

section Told

variable {log after : Log} {items : List Item}

def rowsTold : Event signature → List Batch
  | ⟨.selectBatch _,.ok row⟩ => row.toList
  | ⟨.selectOpenBatches,.ok rows⟩ => rows
  | ⟨.reserve plan,.ok id⟩ => [reservedBatch id plan]
  | _ => []

def itemsTold : Event signature → Option (ℕ × List Item)
  | ⟨.selectItems id,.ok items⟩ => some (id,items)
  | ⟨.reserve plan,.ok id⟩ => some (id,buildItemRecords id plan.items)
  | _ => none

def transfersTold : Event signature → List Json
  | ⟨.wallet _,.ok reply⟩ => reply.result.toList.flatMap fun result => transfersOf result ++ transfersByTxid result
  | _ => []

def Known (log : Log) (id : ℕ) (gross : ℤ) : Prop :=
  ∃ event ∈ log, ∃ row ∈ rowsTold event, row.id = id ∧ row.total_gross = gross

def ItemsKnown (log : Log) (id : ℕ) (items : List Item) : Prop := ∃ event ∈ log, itemsTold event = some (id,items)

def Reported (log : Log) (transfer : Json) : Prop := ∃ event ∈ log, transfer ∈ transfersTold event

def Matched (log : Log) (items : List Item) (hash : String) : Prop :=
  ∃ transfer, Reported log transfer ∧ hasTxHash hash transfer = true ∧
    ∃ batch, transferMatchesBatch batch items transfer = .ok true

theorem Known.extend {id : ℕ} {gross : ℤ} (known : Known log id gross) (longer : log <:+ after) :
    Known after id gross := by
  obtain ⟨event,member,told⟩ := known
  exact ⟨event,longer.subset member,told⟩

theorem ItemsKnown.extend {id : ℕ} (known : ItemsKnown log id items)
    (longer : log <:+ after) : ItemsKnown after id items := by
  obtain ⟨event,member,told⟩ := known
  exact ⟨event,longer.subset member,told⟩

theorem Matched.extend {hash : String} (matched : Matched log items hash)
    (longer : log <:+ after) : Matched after items hash := by
  obtain ⟨transfer,⟨event,member,told⟩,found⟩ := matched
  exact ⟨transfer,⟨event,longer.subset member,told⟩,found⟩

end Told

section Standing

/-- What a process may rely on while it owns the lock: the plan in force and the rows it has reserved
from it, the batches reserved since it last asked for the lock, and those it has seen it for again. -/
structure Standing where
  rows : List PayoutRow := []
  drawn : List ℕ := []
  reserved : List ℕ := []
  cleared : List ℕ := []

def Standing.see (standing : Standing) : Event signature → Standing
  | ⟨.getLock,_⟩ => {cleared := standing.cleared}
  | ⟨.selectPayoutRows _,.ok rows⟩ => {standing with rows := rows, drawn := []}
  | ⟨.reserve plan,.ok id⟩ => {standing with
      drawn := plan.items.map PayoutItem.balanceId ++ standing.drawn
      reserved := id :: standing.reserved}
  | ⟨.isUsedLock,.ok true⟩ => {standing with cleared := standing.reserved ++ standing.cleared}
  | _ => standing

def standing : Log → Standing
  | [] => {}
  | event::log => (standing log).see event

theorem cleared_see (before : Standing) (event : Event signature) : before.cleared ⊆ (before.see event).cleared := by
  unfold Standing.see
  split
  · exact List.Subset.refl _
  · exact List.Subset.refl _
  · exact List.Subset.refl _
  · exact List.subset_append_right _ _
  · exact List.Subset.refl _

theorem cleared_extend {log after : Log} (longer : log <:+ after) :
    (standing log).cleared ⊆ (standing after).cleared := by
  obtain ⟨events,rfl⟩ := longer
  induction events with
  | nil => exact List.Subset.refl _
  | cons event events ih => exact List.Subset.trans ih (cleared_see _ event)

def JustClaimed (log : Log) (id : ℕ) : Prop :=
  ∃ fields guard rest, log = ⟨.updateBatch id fields guard,.ok true⟩::rest ∧ fields.status = some .submitting

end Standing

section Contracts

/-- A finalization settles a batch as it was told, with a hash the wallet matched to its items. -/
structure Finalizable (log : Log) (batch : Batch) (items : List Item) (hash : String) : Prop where
  known : Known log batch.id batch.total_gross
  told : ItemsKnown log batch.id items
  status : batch.status = .submitted
  canonical : Canonical hash
  matched : Matched log items hash

structure Updates (log : Log) (id : ℕ) (fields : Fields) (expected : Status) : Prop where
  permitted : Permitted fields expected
  cleared : expected = .reserved → fields.status ≠ none → id ∈ (standing log).cleared

def Drawn (log : Log) (plan : BatchPlan) : Prop :=
  ∀ item ∈ plan.items, item.balanceId ∉ (standing log).drawn ∧
    ∃ row ∈ (standing log).rows, row.id = item.balanceId ∧ item.grossAmount ≤ row.amount

def settling (log : Log) : Call → Prop
  | .wallet (.transfer batch _) => JustClaimed log batch
  | .updateBatch id fields guard => ∃ expected, guard.statuses = [expected] ∧ Updates log id fields expected
  | .finalize batch items hash _ _ => Finalizable log batch items hash
  | .release batch _ => batch.status = .reserved
  | .reserve _ => False
  | .unlock _ _ _ => False
  | .getLock => False
  | .selectPayoutRows _ => False
  | _ => True

def paying (log : Log) : Call → Prop
  | .reserve plan => PlanSound plan ∧ Drawn log plan
  | .getLock => True
  | .selectPayoutRows _ => True
  | call => settling log call

def unlocking : Call → Prop
  | .wallet (.transfer _ _) => False
  | .updateBatch _ _ _ => False
  | .reserve _ => False
  | .finalize _ _ _ _ _ => False
  | .release _ _ => False
  | _ => True

def tells : (call : Call) → signature.Outcome call → Prop
  | .selectOpenBatches,.ok rows => ∀ row ∈ rows, RowSound row
  | .selectPayoutRows _,.ok rows => (rows.map PayoutRow.id).Nodup
  | _,_ => True

@[reducible] def settlement : Contract signature := ⟨settling,fun _ => tells⟩

@[reducible] def payment : Contract signature := ⟨paying,fun _ => tells⟩

@[reducible] def unlockTool : Contract signature := ⟨fun _ => unlocking,fun _ => tells⟩

def contractOf : Job → Contract signature
  | .payments _ _ => payment
  | .unlock _ => unlockTool

theorem settling_paying (log : Log) (call : Call) (allowed : settling log call) : paying log call := by
  unfold paying
  split
  · exact allowed.elim
  · exact trivial
  · exact trivial
  · exact allowed

theorem settling_standing (log : Log) (call : Call) (outcome : signature.Outcome call) (allowed : settling log call) :
    ((standing log).see ⟨call,outcome⟩).rows = (standing log).rows ∧
      ((standing log).see ⟨call,outcome⟩).drawn = (standing log).drawn := by
  unfold Standing.see
  split
  next same =>
    obtain ⟨rfl,_⟩ := Event.mk.inj same
    exact allowed.elim
  next same =>
    obtain ⟨rfl,_⟩ := Event.mk.inj same
    exact allowed.elim
  next same =>
    obtain ⟨rfl,_⟩ := Event.mk.inj same
    exact allowed.elim
  · exact ⟨rfl,rfl⟩
  · exact ⟨rfl,rfl⟩

end Contracts
end NodejsPool.Payments
