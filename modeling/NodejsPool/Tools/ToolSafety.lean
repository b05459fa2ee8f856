import Mathlib.Algebra.BigOperators.Group.List.Basic
import NodejsPool.Tools.BalanceTools

/-! The operator's tools beside the running pool. A move keeps the sum of all balances and leaves
reserved rows alone; a delete removes no other amount than the previewed one unless two integers
from 2^53 on meet in one double. -/
namespace NodejsPool.Tools
open Async Doubles Program

section Specification

variable (collate : String → String → Bool)

abbrev BalanceRow.isOf (condition : PaymentWhere) (row : BalanceRow) : Bool :=
  condition.admits collate row.payment_address row.payment_id

def Store.total (store : Store) : ℤ := (store.balance.map BalanceRow.amount).sum

/-- A row after a complete move: what the source had has gone to the destination. -/
def Transferred (plan : MovePlan) (amount : ℤ) (row next : BalanceRow) : Prop :=
  next.amount = (if row.isOf collate plan.oldWhere then 0 else row.amount) +
      (if row.isOf collate plan.newWhere then amount else 0) ∧
    next = {row with amount := next.amount,last_edited := next.last_edited}

def Moved (plan : MovePlan) (before after : Store) : Prop :=
  ∃ source destination, selectBalance collate before plan.oldWhere = [source] ∧
    selectBalance collate before plan.newWhere = [destination] ∧
    source.pending_batch_id = none ∧ destination.pending_batch_id = none ∧
    List.Forall₂ (Transferred collate plan source.amount) before.balance after.balance ∧
    after.users = before.users ∧ after.tables = before.tables

structure MoveSafe (plan : MovePlan) (before after : Store) : Prop where
  total : after.total = before.total
  whole : after = before ∨ Moved collate plan before after
  reserved : ∀ (index : ℕ) (row : BalanceRow), before.balance[index]? = some row → row.pending_batch_id ≠ none →
    after.balance[index]? = some row

/-- The rows of the account are gone, each of them free and `like` the one of the preview. -/
def Deleted (like : ℤ → ℤ → Prop) (plan : DeletePlan) (before after : Store) : Prop :=
  (∀ row ∈ selectBalance collate before plan.condition, row.pending_batch_id = none ∧
    ∃ preview, plan.balanceRows = [preview] ∧ like row.amount preview.amount) ∧
  after.balance = before.balance.filter fun row => !row.isOf collate plan.condition

def DeleteSafe (plan : DeletePlan) (before after : Store) : Prop :=
  after = before ∨ Deleted collate (fun amount shown => amount = shown) plan before after

def Shown (plan : DeletePlan) (history : History signature) : Prop :=
  ⟨.selectBalance plan.condition,.ok plan.balanceRows⟩ ∈ history

def Change.Safe (pasts : List (Past Job signature)) (change : Change) : Prop :=
  match change.plan with
  | .move plan => MoveSafe collate plan change.before change.after
  | .delete plan => (∃ past, pasts[change.process]? = some past ∧ Shown plan past.history) ∧
      DeleteSafe collate plan change.before change.after

/-- No row that the tool is about to delete has another amount than the previewed one and the same double. -/
def Told (plan : DeletePlan) (store : Store) : Prop :=
  ∀ row ∈ selectBalance collate store plan.condition, ∀ preview ∈ plan.balanceRows,
    ¬Collide row.amount preview.amount

/-- A step that applies a delete finds balances that JavaScript tells from the previewed ones. -/
def Exact (walletMin : ℤ) (world : (system collate walletMin).World) :
    (system collate walletMin).Label → Prop
  | .act index _ => ∀ process plan next, world.processes[index]? = some process →
      process.rest = some (.call (.applyDelete plan) next) → Told collate plan world.shared.store
  | _ => True

end Specification

section Moves

variable {collate : String → String → Bool} {plan : MovePlan} {before after : Store} {stamp : ℕ}
  {condition : PaymentWhere} {row : BalanceRow}

theorem sum_update (rows : List BalanceRow) (chosen : BalanceRow → Bool) (f g : BalanceRow → ℤ) :
    (rows.map fun row => if chosen row then g row else f row).sum + ((rows.filter chosen).map f).sum =
      (rows.map f).sum + ((rows.filter chosen).map g).sum := by
  induction rows with
  | nil => rfl
  | cons row rows ih =>
    cases picked : chosen row with
    | true =>
      simp only [List.map_cons,List.sum_cons,List.filter_cons,picked,if_true]
      omega
    | false =>
      simp only [List.map_cons,List.sum_cons,List.filter_cons,picked,if_false,Bool.false_eq_true]
      omega

def touch (collate : String → String → Bool) (stamp : ℕ) (condition : PaymentWhere) (amount : ℤ → ℤ)
    (row : BalanceRow) : BalanceRow :=
  if row.isOf collate condition then row.assign stamp (amount row.amount) row.pending_batch_id else row

theorem updateAmount_balance (condition : PaymentWhere) (amount : ℤ → ℤ) (store : Store) :
    (updateAmount collate stamp condition amount store).2.balance =
      store.balance.map (touch collate stamp condition amount) := rfl

theorem touch_apart {amount : ℤ → ℤ}
    (apart : ¬row.isOf collate condition = true) : touch collate stamp condition amount row = row := if_neg apart

theorem touch_eq (collate : String → String → Bool) (stamp : ℕ) (condition : PaymentWhere) (amount : ℤ → ℤ)
    (row : BalanceRow) : ∃ edited, touch collate stamp condition amount row =
      {row with
        amount := if row.isOf collate condition then amount row.amount else row.amount
        last_edited := edited} := by
  by_cases own : row.isOf collate condition = true
  · obtain ⟨edited,assigned⟩ := row.assign_eq stamp (amount row.amount) row.pending_batch_id
    refine ⟨edited,?_⟩
    rw [touch,if_pos own,if_pos own,assigned]
  · refine ⟨row.last_edited,?_⟩
    rw [touch_apart own,if_neg own]

private theorem touch_amount (condition : PaymentWhere) (amount : ℤ → ℤ) (row : BalanceRow) :
    (touch collate stamp condition amount row).amount =
      if row.isOf collate condition then amount row.amount else row.amount := by
  obtain ⟨edited,same⟩ := touch_eq collate stamp condition amount row
  rw [same]

theorem total_update {store : Store} (stamp : ℕ) (amount : ℤ → ℤ)
    (only : selectBalance collate store condition = [row]) :
    (updateAmount collate stamp condition amount store).2.total + row.amount = store.total + amount row.amount := by
  have updated := sum_update store.balance (BalanceRow.isOf collate condition) BalanceRow.amount
    fun row => amount row.amount
  have chosen : store.balance.filter (BalanceRow.isOf collate condition) = [row] := only
  rw [chosen] at updated
  have amounts : (store.balance.map (touch collate stamp condition amount)).map BalanceRow.amount =
      store.balance.map fun row => if row.isOf collate condition then amount row.amount else row.amount := by
    rw [List.map_map]
    exact List.map_congr_left fun row _ => touch_amount condition amount row
  rw [Store.total,Store.total,updateAmount_balance,amounts]
  simpa only [List.map_cons,List.map_nil,List.sum_cons,List.sum_nil,add_zero] using updated

structure Committed (collate : String → String → Bool) (stamp : ℕ) (plan : MovePlan) (before after : Store)
    (source destination : BalanceRow) : Prop where
  sources : selectBalance collate before plan.oldWhere = [source]
  destinations : selectBalance collate before plan.newWhere = [destination]
  sourceFree : source.pending_batch_id = none
  destinationFree : destination.pending_batch_id = none
  exactly : ofInt source.amount = source.amount
  updated : after = (updateAmount collate stamp plan.newWhere (fun amount => amount + source.amount)
    (updateAmount collate stamp plan.oldWhere (fun _ => 0) before).2).2
  credited : ∃ row, selectBalance collate (updateAmount collate stamp plan.oldWhere (fun _ => 0) before).2
    plan.newWhere = [row]

theorem moveLockedBalances_yields (yields : (moveLockedBalances collate stamp plan).Yields before () after) :
    ∃ source destination, Committed collate stamp plan before after source destination := by
  obtain ⟨sourceRows,first,read,yields⟩ := Work.yields_bind yields
  cases Work.yields_statement read
  obtain ⟨destinationRows,second,read,yields⟩ := Work.yields_bind yields
  cases Work.yields_statement read
  split at yields
  · next source destination sources destinations =>
    split at yields
    · exact (Work.yields_throw yields).elim
    · next free =>
      split at yields
      · exact (Work.yields_throw yields).elim
      · next agreed =>
        obtain ⟨debit,third,debited,yields⟩ := Work.yields_bind yields
        cases Work.yields_statement debited
        obtain ⟨credit,fourth,credited,yields⟩ := Work.yields_bind yields
        cases Work.yields_statement credited
        split at yields
        · exact (Work.yields_throw yields).elim
        · next matched =>
          obtain ⟨_,rfl⟩ := Work.yields_pure yields
          simp only [Bool.or_eq_true,not_or,Bool.not_eq_true,Option.isSome_eq_false_iff,Option.isNone_iff_eq_none]
            at free
          simp only [Bool.not_eq_true,Bool.not_eq_false',amountsAgree,Bool.and_eq_true] at agreed
          have exactly := ofInt_safe agreed.1.1.1.1.1.1
          have same : (fun amount => amount + source.amount) = fun amount => amount + ofInt source.amount := by
            rw [exactly]
          simp only [ne_eq,not_or,not_not] at matched
          refine ⟨source,destination,sources,destinations,free.1,free.2,exactly,?_,?_⟩
          · rw [same]
            rfl
          · exact List.length_eq_one_iff.mp matched.2
  · exact (Work.yields_throw yields).elim

variable {source destination : BalanceRow}

theorem Committed.total (committed : Committed collate stamp plan before after source destination) :
    after.total = before.total := by
  obtain ⟨row,credited⟩ := committed.credited
  have debit := total_update stamp (fun _ => 0) committed.sources
  have credit := total_update stamp (fun amount => amount + source.amount) credited
  rw [← committed.updated] at credit
  omega

theorem Committed.balance (committed : Committed collate stamp plan before after source destination) :
    after.balance = before.balance.map fun row =>
      touch collate stamp plan.newWhere (fun amount => amount + source.amount)
        (touch collate stamp plan.oldWhere (fun _ => 0) row) := by
  rw [committed.updated,updateAmount_balance,updateAmount_balance,List.map_map]
  rfl

private theorem transferred_touch (amount : ℤ) (row : BalanceRow) :
    Transferred collate plan amount row (touch collate stamp plan.newWhere (fun other => other + amount)
      (touch collate stamp plan.oldWhere (fun _ => 0) row)) := by
  obtain ⟨first,debit⟩ := touch_eq collate stamp plan.oldWhere (fun _ => 0) row
  rw [debit]
  obtain ⟨second,credit⟩ := touch_eq collate stamp plan.newWhere (fun other => other + amount)
    {row with
      amount := if row.isOf collate plan.oldWhere then 0 else row.amount
      last_edited := first}
  rw [credit]
  refine ⟨?_,rfl⟩
  dsimp only [BalanceRow.isOf]
  split
  · rfl
  · exact (add_zero _).symm

theorem Committed.moved (committed : Committed collate stamp plan before after source destination) :
    Moved collate plan before after := by
  refine ⟨source,destination,committed.sources,committed.destinations,committed.sourceFree,
    committed.destinationFree,?_,?_,?_⟩
  · rw [committed.balance,List.forall₂_map_right_iff,List.forall₂_same]
    intro row _
    exact transferred_touch source.amount row
  · rw [committed.updated]
    rfl
  · rw [committed.updated]
    rfl

private theorem apart_of_reserved {store : Store} {free : BalanceRow}
    (only : selectBalance collate store condition = [free]) (unreserved : free.pending_batch_id = none)
    (inside : row ∈ store.balance) (reserved : row.pending_batch_id ≠ none) : ¬row.isOf collate condition = true := by
  intro own
  have selected : row ∈ selectBalance collate store condition := List.mem_filter.mpr ⟨inside,own⟩
  rw [only] at selected
  obtain rfl := List.mem_singleton.mp selected
  exact reserved unreserved

theorem Committed.reserved (committed : Committed collate stamp plan before after source destination) (index : ℕ)
    (row : BalanceRow) (found : before.balance[index]? = some row) (reserved : row.pending_batch_id ≠ none) :
    after.balance[index]? = some row := by
  have inside := List.mem_of_getElem? found
  have old := apart_of_reserved committed.sources committed.sourceFree inside reserved
  have new := apart_of_reserved committed.destinations committed.destinationFree inside reserved
  rw [committed.balance,List.getElem?_map,found,Option.map_some,touch_apart old,touch_apart new]

theorem move_safe {fate : Fate} {outcome : Except Failure Unit}
    (ran : transact .lost fate (moveLockedBalances collate stamp plan) before = (outcome,after)) :
    MoveSafe collate plan before after := by
  rcases transact_cases ran with ⟨rfl,_⟩ | ⟨_,yields,_⟩
  · exact ⟨rfl,.inl rfl,fun _ _ found _ => found⟩
  · obtain ⟨source,destination,committed⟩ := moveLockedBalances_yields yields
    exact ⟨committed.total,.inr committed.moved,committed.reserved⟩

end Moves

section Deletes

variable {collate : String → String → Bool} {plan : DeletePlan} {before after : Store}

private theorem deleteTables_balance {condition : PaymentWhere} {tables : List String}
    (yields : (deleteTables collate condition tables).Yields before () after) : after.balance = before.balance := by
  induction tables generalizing before with
  | nil =>
    obtain ⟨_,rfl⟩ := Work.yields_pure yields
    rfl
  | cons table tables ih =>
    obtain ⟨_,next,deleted,rest⟩ := Work.yields_bind yields
    cases Work.yields_statement deleted
    exact Eq.trans (ih rest) rfl

private theorem deleteLockedAccount_yields (yields : (deleteLockedAccount collate plan).Yields before () after) :
    balanceAgrees plan (selectBalance collate before plan.condition) = true ∧
      after.balance = before.balance.filter fun row => !row.isOf collate plan.condition := by
  obtain ⟨balances,first,read,yields⟩ := Work.yields_bind yields
  cases Work.yields_statement read
  split at yields
  · exact (Work.yields_throw yields).elim
  · next agreed =>
    obtain ⟨_,second,deleted,yields⟩ := Work.yields_bind yields
    cases Work.yields_statement deleted
    obtain ⟨deletedBalance,third,deleted,yields⟩ := Work.yields_bind yields
    cases Work.yields_statement deleted
    split at yields
    · exact (Work.yields_throw yields).elim
    · refine ⟨?_,deleteTables_balance yields⟩
      simpa using agreed

theorem delete_agrees {fate : Fate} {outcome : Except Failure Unit} (single : plan.balanceRows.length ≤ 1)
    (ran : transact .lost fate (deleteLockedAccount collate plan) before = (outcome,after)) :
    after = before ∨ Deleted collate (fun amount shown => ofInt amount = ofInt shown) plan before after := by
  rcases transact_cases ran with ⟨rfl,_⟩ | ⟨_,yields,_⟩
  · exact .inl rfl
  · obtain ⟨agreed,removed⟩ := deleteLockedAccount_yields yields
    refine .inr ⟨?_,removed⟩
    simp only [balanceAgrees,Bool.and_eq_true,decide_eq_true_eq] at agreed
    obtain ⟨count,agreed⟩ := agreed
    intro row selected
    cases rows : selectBalance collate before plan.condition with
    | nil =>
      rw [rows] at selected
      cases selected
    | cons current others =>
      rw [rows] at selected count agreed
      cases previews : plan.balanceRows with
      | nil =>
        rw [previews] at count
        cases count
      | cons preview more =>
        rw [previews] at single count agreed
        obtain rfl : more = [] := by simpa using single
        obtain rfl : others = [] := by simpa using count
        obtain rfl := List.mem_singleton.mp selected
        simp only [List.head?_cons,Option.all_some,Option.any_some,Bool.and_eq_true,Option.isNone_iff_eq_none,
          decide_eq_true_eq] at agreed
        exact ⟨agreed.1,preview,rfl,agreed.2⟩

end Deletes

section Programs

def contract : Contract signature where
  allowed history
    | .applyDelete plan => Shown plan history ∧ plan.balanceRows.length ≤ 1
    | _ => True
  expected _ _ _ := True

abbrev anything {A : Type} : History signature → A → Prop := fun _ _ => True

variable {history : History signature}

theorem splitUserOrExit_meets (user : String) : (splitUserOrExit user).Meets contract history (Returns anything) := by
  unfold splitUserOrExit
  split <;> exact trivial

theorem requireStale_meets (required : Bool) (hours : ℕ) (row : BalanceRow) :
    (requireStale required hours row).Meets contract history (Returns anything) := by
  unfold requireStale
  split
  · refine returns_await trivial ?_
    intro now _
    split <;> exact trivial
  · exact trivial

theorem wait_meets (delayMs : ℕ) : (wait delayMs).Meets contract history (Returns anything) := by
  unfold wait
  split
  · exact trivial
  · exact returns_perform trivial fun _ _ => trivial

private theorem buildBalanceMovePlan_meets (oldUser newUser : String) (options : MoveOptions) :
    (buildBalanceMovePlan oldUser newUser options).Meets contract history (Returns anything) := by
  unfold buildBalanceMovePlan
  split
  · exact trivial
  · apply (splitUserOrExit_meets oldUser).andReturns
    intro _ oldAccount _ _
    apply (splitUserOrExit_meets newUser).andReturns
    intro _ newAccount _ _
    refine returns_await trivial ?_
    intro sourceRows _
    split
    · next oldRow =>
      dsimp only
      split
      · exact trivial
      · split
        · exact trivial
        · apply (requireStale_meets _ _ _).andReturns
          intro _ _ _ _
          refine returns_await trivial ?_
          intro destinationRows _
          split <;> exact trivial
    · exact trivial

theorem moveBalance_meets (oldUser newUser : String) (options : MoveOptions) :
    (moveBalance oldUser newUser options).Meets contract history (Returns anything) := by
  unfold moveBalance
  split
  · exact trivial
  · apply (buildBalanceMovePlan_meets oldUser newUser options).andReturns
    intro _ plan _ _
    apply (wait_meets _).andReturns
    intro _ _ _ _
    refine returns_await trivial ?_
    intro _ _
    refine returns_await trivial ?_
    intro sourceRows _
    refine returns_await trivial ?_
    intro destinationRows _
    split <;> exact trivial

private theorem checkBalance_meets (walletMin : ℤ) (options : DeleteOptions) (rows : List BalanceRow) :
    (buildUserDeletePlan.checkBalance walletMin options rows).Meets contract history (Returns anything) := by
  cases rows with
  | nil => exact trivial
  | cons balance rows =>
    unfold buildUserDeletePlan.checkBalance
    dsimp only
    split
    · exact trivial
    · split
      · exact trivial
      · exact requireStale_meets _ _ _

private theorem countTables_meets (condition : PaymentWhere) (tables : List String) :
    (buildUserDeletePlan.countTables condition tables).Meets contract history (Returns anything) := by
  induction tables generalizing history with
  | nil => exact trivial
  | cons table tables ih =>
    refine returns_await trivial ?_
    intro rows _
    apply ih.andReturns
    intro _ others _ _
    exact trivial

private theorem buildUserDeletePlan_meets (walletMin : ℤ) (user : String) (options : DeleteOptions) :
    (buildUserDeletePlan walletMin user options).Meets contract history
      (Returns fun after plan => Shown plan after ∧ plan.balanceRows.length ≤ 1) := by
  unfold buildUserDeletePlan
  apply (splitUserOrExit_meets user).andReturns
  intro _ account _ _
  dsimp only
  split
  · exact trivial
  · refine returns_await trivial ?_
    intro userRows _
    split
    · exact trivial
    · refine returns_await trivial ?_
      intro balanceRows _
      split
      · exact trivial
      · next few =>
        apply (checkBalance_meets walletMin options balanceRows).andReturns
        intro first _ checked _
        refine returns_await trivial ?_
        intro paymentRows _
        apply (countTables_meets _ _).andReturns
        intro last extraRows counted _
        split
        · exact trivial
        · have shown := checked.subset List.mem_cons_self
          exact ⟨counted.subset (List.mem_cons_of_mem _ shown),Nat.le_of_not_lt few⟩

theorem runUserDelete_meets (walletMin : ℤ) (user : String) (options : DeleteOptions) :
    (runUserDelete walletMin user options).Meets contract history (Returns anything) := by
  unfold runUserDelete
  split
  · exact trivial
  · apply (buildUserDeletePlan_meets walletMin user options).andReturns
    intro _ plan _ built
    apply (wait_meets _).andReturns
    intro _ _ waited _
    refine returns_await ⟨waited.subset built.1,built.2⟩ ?_
    intro _ _
    exact returns_perform trivial fun _ _ => trivial

end Programs

section Safety

variable {collate : String → String → Bool} {walletMin : ℤ}
  {pasts : List (Past Job signature)} {index : ℕ} {past : Past Job signature} {answer : Answer} {shared next : Shared}
    {world : (system collate walletMin).World}

def Change.Recorded (collate : String → String → Bool) (pasts : List (Past Job signature)) (change : Change) : Prop :=
  match change.plan with
  | .move plan => MoveSafe collate plan change.before change.after
  | .delete plan => (∃ past, pasts[change.process]? = some past ∧ Shown plan past.history) ∧
      (change.after = change.before ∨
        Deleted collate (fun amount shown => ofInt amount = ofInt shown) plan change.before change.after)

def Recorded (collate : String → String → Bool) (shared : Shared) (pasts : List (Past Job signature)) : Prop :=
  ∀ change ∈ shared.changes, change.Recorded collate pasts

def Longer (before after : List (Past Job signature)) : Prop :=
  ∀ (index : ℕ) (past : Past Job signature), before[index]? = some past →
    ∃ longer, after[index]? = some longer ∧ past.history ⊆ longer.history

theorem longer_append (pasts others : List (Past Job signature)) : Longer pasts (pasts ++ others) := by
  intro index past found
  refine ⟨past,?_,List.Subset.refl _⟩
  rw [List.getElem?_append_left (List.getElem?_eq_some_iff.mp found).1]
  exact found

theorem longer_set (found : pasts[index]? = some past) (call : Call) (outcome : signature.Outcome call) :
    Longer pasts (pasts.set index (System.Past.add past call outcome)) := by
  intro other present there
  by_cases same : index = other
  · subst same
    rw [found] at there
    cases there
    exact ⟨_,List.getElem?_set_self (List.getElem?_eq_some_iff.mp found).1,List.subset_cons_self _ _⟩
  · exact ⟨present,by rw [List.getElem?_set_ne same,there],List.Subset.refl _⟩

theorem Change.Recorded.longer {change : Change} {before after : List (Past Job signature)}
    (recorded : change.Recorded collate before) (longer : Longer before after) : change.Recorded collate after := by
  unfold Change.Recorded at recorded ⊢
  split at recorded
  · exact recorded
  · obtain ⟨⟨past,found,shown⟩,deleted⟩ := recorded
    obtain ⟨next,there,inside⟩ := longer _ past found
    exact ⟨⟨next,there,inside shown⟩,deleted⟩

private theorem answerWith_same {A : Type} {value : A} {outcome : Except Failure A}
    (answered : answerWith answer value shared = some (outcome,next)) : next = shared := by
  unfold answerWith at answered
  split at answered <;> cases answered <;> rfl

private theorem applyPlan_cases {process : ℕ} {plan : Plan} {work : ℕ → StoreWork Unit} {outcome : Except Failure Unit}
    (applied : applyPlan process answer plan work shared = some (outcome,next)) :
    ∃ fate stamp, transact .lost fate (work stamp) shared.store = (outcome,next.store) ∧
      next.changes = shared.changes ++ [⟨process,plan,shared.store,next.store⟩] := by
  unfold applyPlan at applied
  split at applied
  · next fate stamp =>
    cases applied
    exact ⟨fate,stamp,rfl,rfl⟩
  · cases applied

structure Change.Made (collate : String → String → Bool) (index : ℕ) (call : Call) (shared next : Shared)
    (change : Change) : Prop where
  process : change.process = index
  before : change.before = shared.store
  after : change.after = next.store
  moves : ∀ plan, change.plan = .move plan → MoveSafe collate plan change.before change.after
  deletes : ∀ plan, change.plan = .delete plan → call = .applyDelete plan ∧ (plan.balanceRows.length ≤ 1 →
    change.after = change.before ∨
      Deleted collate (fun amount shown => ofInt amount = ofInt shown) plan change.before change.after)

theorem perform_changes {call : Call} {outcome : signature.Outcome call}
    (performed : perform collate index shared answer call = some (outcome,next)) : next = shared ∨
      ∃ change, next.changes = shared.changes ++ [change] ∧ change.Made collate index call shared next := by
  cases call with
  | selectBalance condition | countUsers username | countRows table condition => exact .inl (answerWith_same performed)
  | now =>
    cases answer <;> cases performed
    exact .inl rfl
  | sleep milliseconds =>
    cases performed
    exact .inl rfl
  | applyMove plan =>
    obtain ⟨fate,stamp,ran,logged⟩ := applyPlan_cases performed
    refine .inr ⟨_,logged,rfl,rfl,rfl,?_,?_⟩
    · intro other same
      cases same
      exact move_safe ran
    · intro other same
      cases same
  | applyDelete plan =>
    obtain ⟨fate,stamp,ran,logged⟩ := applyPlan_cases performed
    refine .inr ⟨_,logged,rfl,rfl,rfl,?_,?_⟩
    · intro other same
      cases same
    · intro other same
      cases same
      exact ⟨rfl,fun single => delete_agrees single ran⟩
  | deleteCacheKeys user => exact .inl (answerWith_same performed)

theorem Change.Made.recorded {call : Call} {change : Change} (made : change.Made collate index call shared next)
    (found : pasts[index]? = some past) (allowed : contract.allowed past.history call) :
    change.Recorded collate pasts := by
  unfold Change.Recorded
  split
  · next plan planned => exact made.moves plan planned
  · next plan planned =>
    obtain ⟨rfl,deleted⟩ := made.deletes plan planned
    refine ⟨⟨past,?_,allowed.1⟩,deleted allowed.2⟩
    rw [made.process,found]

theorem occur_changes {occurrence : Occurrence} (occurred : occur occurrence shared = some next) :
    next.changes = shared.changes := by
  cases occurrence with
  | addBalance row | reserve batchId ids stamp =>
    dsimp only [occur] at occurred
    split at occurred
    · cases occurred
    · cases occurred
      rfl
  | _ =>
    cases occurred
    rfl

theorem recorded_rule : System.Rule (system collate walletMin) Fresh (fun _ => contract) (Recorded collate) := by
  constructor
  · intro job
    cases job with
    | move oldUser newUser options =>
      refine (moveBalance_meets oldUser newUser options).imp ?_
      exact fun _ _ _ => trivial
    | delete user options =>
      refine (runUserDelete_meets walletMin user options).imp ?_
      exact fun _ _ _ => trivial
  · intro shared fresh change inside
    rw [fresh] at inside
    cases inside
  · intro shared pasts job recorded change inside
    exact (recorded change inside).longer (longer_append _ _)
  · intro shared pasts index past call answer outcome next recorded found allowed performed
    refine ⟨trivial,?_⟩
    have longer := longer_set found call outcome
    intro change inside
    rcases perform_changes performed with rfl | ⟨last,logged,made⟩
    · exact (recorded change inside).longer longer
    · rw [logged] at inside
      rcases List.mem_append.mp inside with old | new
      · exact (recorded change old).longer longer
      · obtain rfl := List.mem_singleton.mp new
        exact (made.recorded found allowed).longer longer
  · intro shared pasts occurrence next recorded occurred change inside
    rw [occur_changes occurred] at inside
    exact recorded change inside

/-- Nothing that a tool does to the store is missing from the log. -/
theorem act_logged {world after : (system collate walletMin).World} {index : ℕ} {answer : Answer}
    (moved : (system collate walletMin).act world index answer = some after) :
    after.shared = world.shared ∨ ∃ change, after.shared.changes = world.shared.changes ++ [change] ∧
      change.process = index ∧ change.before = world.shared.store ∧ change.after = after.shared.store := by
  obtain ⟨process,call,rest,outcome,shared,found,waits,performed,rfl⟩ := System.act_some moved
  rcases perform_changes performed with same | ⟨change,logged,made⟩
  · exact .inl same
  · exact .inr ⟨change,logged,made.process,made.before,made.after⟩

def Change.Told (collate : String → String → Bool) (change : Change) : Prop :=
  ∀ plan, change.plan = .delete plan → Tools.Told collate plan change.before

private theorem exact_told
    (reachable : ((system collate walletMin).machine Fresh).ReachableBy (Exact collate walletMin) world) :
    ∀ change ∈ world.shared.changes, change.Told collate := by
  refine reachable.invariant (fun world => ∀ change ∈ world.shared.changes, change.Told collate) ?_ ?_
  · intro world start change inside
    rw [start.1] at inside
    cases inside
  · intro world next label told exactly moved change inside
    cases label with
    | start job =>
      cases moved
      exact told change inside
    | crash index =>
      obtain ⟨process,_,moved⟩ := Option.bind_eq_some_iff.mp moved
      cases moved
      exact told change inside
    | occur occurrence =>
      obtain ⟨shared,occurred,rfl⟩ := Option.map_eq_some_iff.mp moved
      rw [occur_changes occurred] at inside
      exact told change inside
    | act index answer =>
      obtain ⟨process,call,rest,outcome,shared,found,waits,performed,rfl⟩ := System.act_some moved
      rcases perform_changes performed with rfl | ⟨last,logged,made⟩
      · exact told change inside
      · rw [logged] at inside
        rcases List.mem_append.mp inside with old | new
        · exact told change old
        · obtain rfl := List.mem_singleton.mp new
          intro plan planned
          obtain ⟨rfl,_⟩ := made.deletes plan planned
          rw [made.before]
          exact exactly process plan rest found waits

private theorem reachable_of_exact
    (reachable : ((system collate walletMin).machine Fresh).ReachableBy (Exact collate walletMin) world) :
    ((system collate walletMin).machine Fresh).Reachable world := by
  refine reachable.invariant ((system collate walletMin).machine Fresh).Reachable ?_ ?_
  · intro world start
    exact .initial start
  · intro world next label reached _ moved
    exact .step reached trivial moved

theorem Deleted.exact {plan : DeletePlan} {before after : Store} (told : Tools.Told collate plan before)
    (deleted : Deleted collate (fun amount shown => ofInt amount = ofInt shown) plan before after) :
    Deleted collate (fun amount shown => amount = shown) plan before after := by
  refine ⟨?_,deleted.2⟩
  intro row selected
  obtain ⟨free,preview,only,same⟩ := deleted.1 row selected
  refine ⟨free,preview,only,?_⟩
  by_contra different
  exact told row selected preview (by rw [only]; exact List.mem_singleton_self _) ⟨different,same⟩

/-- In every run whose deletes find no amount that collides with the previewed one, whatever comes
between and whichever statement fails, every change of the tools is safe. -/
theorem tools_safe (collate : String → String → Bool) (walletMin : ℤ) {world : (system collate walletMin).World}
    (reachable : ((system collate walletMin).machine Fresh).ReachableBy (Exact collate walletMin) world) :
    ∀ change ∈ world.shared.changes, change.Safe collate world.pasts := by
  intro change inside
  have told := exact_told reachable change inside
  have recorded := (System.Rule.lawful recorded_rule (reachable_of_exact reachable)).invariant change inside
  unfold Change.Recorded at recorded
  unfold Change.Safe
  cases planned : change.plan with
  | move plan =>
    rw [planned] at recorded
    exact recorded
  | delete plan =>
    rw [planned] at recorded
    obtain ⟨shown,kept | deleted⟩ := recorded
    · exact ⟨shown,.inl kept⟩
    · exact ⟨shown,.inr (deleted.exact (told plan planned))⟩

private theorem exact_of_small {label : (system collate walletMin).Label}
    (small : ∀ row ∈ world.shared.store.balance, isSafeInteger row.amount = true) :
    Exact collate walletMin world label := by
  cases label with
  | act index answer =>
    intro process plan next _ _ row selected preview _ collide
    have safe := small row (List.mem_filter.mp selected).1
    simp only [isSafeInteger,Bool.and_eq_true,decide_eq_true_eq] at safe
    rcases collide.large with low | high
    · exact absurd safe.1 (not_lt.mpr low)
    · exact absurd safe.2 (not_lt.mpr high)
  | _ => exact trivial

end Safety

section Runs

def plain (left right : String) : Bool := left = right

def sampleRow (id : ℕ) (payment_address : String) (amount : ℤ) : BalanceRow :=
  ⟨id,payment_address,none,"pplns",amount,none,0⟩

def sampleStart (rows : List BalanceRow) : (system plain 0).World := ⟨⟨⟨rows,[],[("payments",[])]⟩,[]⟩,[]⟩

theorem sampleStart_initial (rows : List BalanceRow) : ((system plain 0).machine Fresh).initial (sampleStart rows) :=
  ⟨rfl,rfl⟩

def allSmall (world : (system plain 0).World) (_ : (system plain 0).Label) : Bool :=
  world.shared.store.balance.all fun row => isSafeInteger row.amount

def moveAndDelete : List (system plain 0).Label :=
  [.start (.move "alice" "bob" ⟨false,false,false,0⟩),.start (.delete "carol" ⟨true,true,false,10000,[]⟩),
    .act 0 .reply,.act 1 .reply,.act 0 .reply,.act 1 .reply,.occur (.reserve 4 [4] 9),.act 0 (.fate {} 10),
    .act 1 .reply,.act 1 .reply,.act 1 (.fate {} 11)]

theorem tools_safe_interleaved : ∃ world : (system plain 0).World,
    ((system plain 0).machine Fresh).ReachableBy (Exact plain 0) world ∧
      world.shared.store.balance.map (fun row => (row.id,row.amount)) = [(1,0),(2,12),(4,3)] ∧
      world.shared.changes.length = 2 ∧ ∀ change ∈ world.shared.changes, change.Safe plain world.pasts := by
  have ran : ((((system plain 0).machine Fresh).guarded allSmall).run (sampleStart
      [sampleRow 1 "alice" 5,sampleRow 2 "bob" 7,sampleRow 3 "carol" 2,sampleRow 4 "dave" 3]) moveAndDelete).any
        (fun world => world.shared.store.balance.map (fun row => (row.id,row.amount)) = [(1,0),(2,12),(4,3)] &&
          world.shared.changes.length = 2) = true := by decide +kernel
  obtain ⟨world,ran,seen⟩ := (Option.any_eq_true _ _).mp ran
  simp only [Bool.and_eq_true,decide_eq_true_eq] at seen
  have sound (world : (system plain 0).World) (label : (system plain 0).Label) (small : allSmall world label = true) :
      Exact plain 0 world label := exact_of_small (List.all_eq_true.mp small)
  have reached := Machine.ReachableBy.run_guarded sound (.initial (sampleStart_initial _)) ran
  exact ⟨world,reached,seen.1,seen.2,tools_safe plain 0 reached⟩

def Change.misses (change : Change) : Bool :=
  match change.plan with
  | .move _ => false
  | .delete plan => change.after.balance.length < change.before.balance.length &&
    (selectBalance plain change.before plan.condition).any fun row =>
      plan.balanceRows.all fun preview => row.amount ≠ preview.amount

private theorem Change.not_safe {change : Change} {pasts : List (Past Job signature)} (misses : change.misses = true) :
    ¬change.Safe plain pasts := by
  unfold Change.misses at misses
  unfold Change.Safe
  split at misses
  · cases misses
  · next plan planned =>
    simp only [Bool.and_eq_true,decide_eq_true_eq,List.any_eq_true,List.all_eq_true] at misses
    obtain ⟨shorter,row,selected,other⟩ := misses
    rintro ⟨_,same | deleted⟩
    · rw [same] at shorter
      exact absurd shorter (lt_irrefl _)
    · obtain ⟨_,preview,only,same⟩ := deleted.1 row selected
      exact other preview (by rw [only]; exact List.mem_singleton_self _) same

/-- The preview shows 2^53, the pool credits one more, and the row is deleted all the same. -/
theorem larger_amount_deleted : ∃ world : (system plain 0).World,
    ((system plain 0).machine Fresh).Reachable world ∧
      ¬∀ change ∈ world.shared.changes, change.Safe plain world.pasts := by
  have ran : (((system plain 0).machine Fresh).run (sampleStart [sampleRow 1 "miner" (2^53)])
      [.start (.delete "miner" ⟨true,true,false,10000,[]⟩),.act 0 .reply,.act 0 .reply,.act 0 .reply,.act 0 .reply,
        .occur (.credit (fun _ => 1) 5),.act 0 (.fate {} 6)]).any
        (fun world => world.shared.changes.any Change.misses) = true := by decide +kernel
  obtain ⟨world,ran,seen⟩ := (Option.any_eq_true _ _).mp ran
  obtain ⟨change,inside,misses⟩ := List.any_eq_true.mp seen
  refine ⟨world,Machine.reachable_run (sampleStart_initial _) ran,?_⟩
  intro safe
  exact change.not_safe misses (safe change inside)

end Runs

end NodejsPool.Tools
