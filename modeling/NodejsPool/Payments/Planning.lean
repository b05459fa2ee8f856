import NodejsPool.Payments.Planner
import NodejsPool.Payments.Reservation

/-! What a payout plan draws from the balance rows it was computed from: every row at
most once, and never more than it holds. -/
namespace NodejsPool.Payments
open List

def DrawnFrom (rows : List PayoutRow) (item : PayoutItem) : Prop :=
  item.netAmount + item.feeAmount = item.grossAmount ∧
    ∃ row ∈ rows, row.id = item.balanceId ∧ item.grossAmount ≤ row.amount

variable (config : Config)

section Items

theorem denominated_le {denom : ℕ} {available : ℤ}
    (pays : 0 < if denom = 0 then available else available - available.tmod denom) :
    0 < available ∧ (if denom = 0 then available else available - available.tmod denom) ≤ available := by
  split at pays
  next whole =>
    rw [if_pos whole]
    exact ⟨pays,le_refl _⟩
  next cut =>
    rw [if_neg cut]
    have bound : (available.tmod denom).natAbs ≤ available.natAbs := by
      rw [Int.natAbs_tmod]
      exact Nat.mod_le _ _
    have positive : 0 < available := by omega
    have digits : 0 ≤ available.tmod denom := Int.tmod_nonneg _ positive.le
    exact ⟨positive,by omega⟩

theorem payableAmount_le (row : PayoutRow) (pays : 0 < payableAmount config row) :
    payableAmount config row ≤ row.amount := by
  obtain ⟨positive,less⟩ := denominated_le pays
  apply less.trans
  split at positive
  next reserve =>
    rw [if_pos reserve]
    split at positive
    next enough =>
      rw [if_pos enough]
      omega
    · cases positive
  next whole => rw [if_neg whole]

theorem buildPayoutItem_drawn {row : PayoutRow} {payout : Payout} (built : buildPayoutItem config row = some payout) :
    payout.item.balanceId = row.id ∧ payout.item.grossAmount ≤ row.amount ∧
      payout.item.netAmount + payout.item.feeAmount = payout.item.grossAmount := by
  unfold buildPayoutItem at built
  extract_lets configuredThreshold threshold grossAmount feeAmount netAmount at built
  split at built
  · cases built
  next pays =>
    split at built
    · cases built
    · cases built
      exact ⟨rfl,payableAmount_le config row (by omega),sub_add_cancel _ _⟩

theorem integratedBatchFor_items {payout : Payout} {plan : BatchPlan}
    (planned : integratedBatchFor config payout = some plan) :
    plan.items = [payout.item] ∧ plan.totalGross = payout.item.grossAmount := by
  unfold integratedBatchFor at planned
  extract_lets grossAmount at planned
  split at planned
  · cases planned
  · split at planned
    · cases planned
    · cases planned
      exact ⟨rfl,rfl⟩

end Items

section Rows

variable {rows : List PayoutRow} {item : PayoutItem} {planned : Planned}

def collected (planned : Planned) : List PayoutItem :=
  planned.bulkItems ++ planned.integratedBatches.flatMap BatchPlan.items

structure Collects (rows : List PayoutRow) (planned : Planned) : Prop where
  distinct : ((collected planned).map PayoutItem.balanceId).Nodup
  drawn : ∀ item ∈ collected planned, DrawnFrom rows item
  totals : ∀ plan ∈ planned.integratedBatches, plan.totalGross = (plan.items.map PayoutItem.grossAmount).sum

theorem DrawnFrom.more (drawn : DrawnFrom rows item) (row : PayoutRow) : DrawnFrom (rows ++ [row]) item := by
  obtain ⟨net,source,inside,same⟩ := drawn
  exact ⟨net,source,mem_append_left _ inside,same⟩

theorem Collects.skip (collects : Collects rows planned) (row : PayoutRow) : Collects (rows ++ [row]) planned :=
  ⟨collects.distinct,fun item member => (collects.drawn item member).more row,collects.totals⟩

theorem Collects.add {next : Planned} {row : PayoutRow}
    (collects : Collects rows planned) (fresh : row.id ∉ rows.map PayoutRow.id)
    (more : (collected next).Perm (item :: collected planned)) (id : item.balanceId = row.id)
    (enough : item.grossAmount ≤ row.amount) (net : item.netAmount + item.feeAmount = item.grossAmount)
    (totals : ∀ plan ∈ next.integratedBatches, plan.totalGross = (plan.items.map PayoutItem.grossAmount).sum) :
    Collects (rows ++ [row]) next := by
  refine ⟨?_,?_,totals⟩
  · rw [(more.map PayoutItem.balanceId).nodup_iff,map_cons,nodup_cons]
    refine ⟨?_,collects.distinct⟩
    intro again
    obtain ⟨other,inside,same⟩ := mem_map.mp again
    obtain ⟨_,source,there,here,_⟩ := collects.drawn other inside
    apply fresh
    rw [← id,← same,← here]
    exact mem_map_of_mem there
  · intro other member
    rcases mem_cons.mp (more.subset member) with rfl | old
    · exact ⟨net,row,mem_append_right _ (mem_singleton_self _),id.symm,enough⟩
    · exact (collects.drawn other old).more row

theorem planRow_collects {row : PayoutRow} (collects : Collects rows planned) (fresh : row.id ∉ rows.map PayoutRow.id) :
    Collects (rows ++ [row]) (planRow config planned row) := by
  unfold planRow
  split
  · exact collects.skip row
  · split
    · exact collects.skip row
    next payout built =>
      obtain ⟨id,enough,net⟩ := buildPayoutItem_drawn config built
      split
      · split
        · exact collects.skip row
        next plan integrated =>
          obtain ⟨items,gross⟩ := integratedBatchFor_items config integrated
          apply collects.add fresh _ id enough net
          · intro other member
            rcases mem_append.mp member with old | new
            · exact collects.totals other old
            · rw [mem_singleton.mp new,items,gross]
              simp
          · simp only [collected,flatMap_append,flatMap_cons,flatMap_nil,items,append_nil]
            rw [← append_assoc]
            exact perm_append_comm
      · split
        · refine collects.add fresh ?_ id enough net fun plan member => collects.totals plan member
          simp only [collected,append_assoc,singleton_append]
          exact perm_middle
        · exact collects.skip row

theorem planned_collects (rows : List PayoutRow) {passed : List PayoutRow}
    (collects : Collects passed planned) (distinct : ((passed ++ rows).map PayoutRow.id).Nodup) :
    Collects (passed ++ rows) (rows.foldl (planRow config) planned) := by
  induction rows generalizing passed planned with
  | nil => simpa using collects
  | cons row rows ih =>
    have fresh : row.id ∉ passed.map PayoutRow.id := by
      rw [map_append,map_cons] at distinct
      intro member
      exact disjoint_of_nodup_append distinct member mem_cons_self
    have next := ih (planRow_collects config collects fresh) (by simpa using distinct)
    simpa using next

private theorem bulkBatches_items (size steps : ℕ) (items : List PayoutItem) :
    ((bulkBatches size steps items).flatMap BatchPlan.items).Sublist items := by
  induction steps generalizing items with
  | zero => exact nil_sublist _
  | succ steps ih =>
    unfold bulkBatches
    split
    · exact nil_sublist _
    · rw [flatMap_cons]
      have pieces := (Sublist.refl (items.take size)).append (ih (items.drop size))
      rwa [take_append_drop] at pieces

private theorem bulkBatches_totals (size steps : ℕ) (items : List PayoutItem) :
    ∀ plan ∈ bulkBatches size steps items, plan.totalGross = (plan.items.map PayoutItem.grossAmount).sum := by
  induction steps generalizing items with
  | zero =>
    intro plan member
    cases member
  | succ steps ih =>
    intro plan member
    unfold bulkBatches at member
    split at member
    · cases member
    · rcases mem_cons.mp member with rfl | later
      · rfl
      · exact ih _ plan later

structure Plans (rows : List PayoutRow) (plans : List BatchPlan) : Prop where
  sound : ∀ plan ∈ plans, PlanSound plan
  distinct : ((plans.flatMap BatchPlan.items).map PayoutItem.balanceId).Nodup
  drawn : ∀ plan ∈ plans, ∀ item ∈ plan.items, ∃ row ∈ rows, row.id = item.balanceId ∧ item.grossAmount ≤ row.amount

theorem planRows_plans (distinct : (rows.map PayoutRow.id).Nodup) : Plans rows (planRows config rows) := by
  have start : Collects [] {} := by
    refine ⟨nodup_nil,?_,?_⟩
    · intro item member
      cases member
    · intro plan member
      cases member
  have collects := planned_collects config rows start distinct
  rw [nil_append] at collects
  have items : ((planRows config rows).flatMap BatchPlan.items).Sublist
      (collected (rows.foldl (planRow config) {})) := by
    unfold planRows collected
    rw [flatMap_append]
    exact (bulkBatches_items _ _ _).append (Sublist.refl _)
  have source {plan : BatchPlan} {item : PayoutItem} (member : plan ∈ planRows config rows)
    (inside : item ∈ plan.items) :
      DrawnFrom rows item := collects.drawn item (items.subset (mem_flatMap.mpr ⟨plan,member,inside⟩))
  refine ⟨?_,collects.distinct.sublist (items.map _),?_⟩
  · intro plan member
    refine ⟨?_,fun item inside => (source member inside).1⟩
    rcases mem_append.mp member with bulk | integrated
    · exact bulkBatches_totals _ _ _ plan bulk
    · exact collects.totals plan integrated
  · intro plan member item inside
    exact (source member inside).2

end Rows
end NodejsPool.Payments
