import NodejsPool.Async.System
import NodejsPool.Async.Transaction
import NodejsPool.Common.Doubles

/-! The operator's tools that move a balance and delete a user, beside a pool that changes balances.
Each reads its preview without a lock, waits, and applies it in one transaction over the rows it
reads again. -/
namespace NodejsPool.Tools
open Async Doubles

section Store

inductive Failure where
  | lost
  | thrown (message : String)

structure BalanceRow where
  id : ℕ
  payment_address : String
  payment_id : Option String
  pool_type : String
  amount : ℤ
  pending_batch_id : Option ℕ
  last_edited : ℕ

structure AccountRow where
  payment_address : String
  payment_id : Option String

structure Store where
  balance : List BalanceRow
  users : List String
  tables : List (String × List AccountRow)

/-- `last_edited` follows a change of the row. -/
def BalanceRow.assign (stamp : ℕ) (amount : ℤ) (pending_batch_id : Option ℕ) (row : BalanceRow) : BalanceRow :=
  if row.amount = amount ∧ row.pending_batch_id = pending_batch_id then row
  else {row with amount := amount, pending_batch_id := pending_batch_id, last_edited := stamp}

theorem BalanceRow.assign_eq (stamp : ℕ) (amount : ℤ) (pending_batch_id : Option ℕ) (row : BalanceRow) :
    ∃ edited, row.assign stamp amount pending_batch_id =
      {row with amount := amount, pending_batch_id := pending_batch_id, last_edited := edited} := by
  unfold BalanceRow.assign
  split
  · next same =>
    obtain ⟨rfl,rfl⟩ := same
    exact ⟨row.last_edited,rfl⟩
  · exact ⟨stamp,rfl⟩

end Store

section Accounts

structure Account where
  address : String
  paymentId : Option String

def splitUser (user : String) : Option Account :=
  match user.toList.splitOn '.' with
  | [address] => if address.isEmpty then none else some ⟨String.ofList address,none⟩
  | [address,paymentId] =>
    if address.isEmpty || paymentId.isEmpty then none else some ⟨String.ofList address,some (String.ofList paymentId)⟩
  | _ => none

structure PaymentWhere where
  address : String
  paymentId : Option String
  allowEmptyPaymentId : Bool

def paymentWhere (account : Account) (allowEmptyPaymentId : Bool) : PaymentWhere :=
  ⟨account.address,account.paymentId,allowEmptyPaymentId⟩

/-- `collate` is the equality of texts in the database's collation. -/
def PaymentWhere.admits (collate : String → String → Bool) (condition : PaymentWhere) (payment_address : String)
    (payment_id : Option String) : Bool :=
  collate payment_address condition.address &&
    match condition.paymentId with
    | some paymentId => payment_id.any fun text => collate text paymentId
    | none => payment_id.isNone || (condition.allowEmptyPaymentId && payment_id.any fun text => collate text "")

def isNameStart (char : Char) : Bool := ('A' ≤ char && char ≤ 'Z') || ('a' ≤ char && char ≤ 'z') || char = '_'

def isSafeSqlName (name : String) : Bool :=
  name.toList.head?.any isNameStart &&
    name.toList.all fun char => isNameStart char || ('0' ≤ char && char ≤ '9')

end Accounts

section Plans

structure MoveOptions where
  force : Bool
  confirmForceMove : Bool
  requireStaleBalance : Bool
  delayMs : ℕ

structure DeleteOptions where
  force : Bool
  confirmForceDelete : Bool
  requireStaleBalance : Bool
  delayMs : ℕ
  extraTables : List String

structure MovePlan where
  oldWhere : PaymentWhere
  newWhere : PaymentWhere
  oldAmount : ℤ
  newRow : BalanceRow

structure DeletePlan where
  user : String
  condition : PaymentWhere
  balanceRows : List BalanceRow
  extraTables : List String

inductive Call where
  | selectBalance (condition : PaymentWhere)
  | countUsers (username : String)
  | countRows (table : String) (condition : PaymentWhere)
  | now
  | sleep (milliseconds : ℕ)
  | applyMove (plan : MovePlan)
  | applyDelete (plan : DeletePlan)
  | deleteCacheKeys (user : String)

@[reducible] def signature : Signature where
  Call := Call
  Reply
    | .selectBalance _ => List BalanceRow
    | .countUsers _ => ℕ
    | .countRows _ _ => ℕ
    | .now => ℕ
    | _ => Unit
  Error := Failure

abbrev Task := Program signature

def ask (call : Call) : Task (signature.Reply call) := Program.perform (S := signature) call

def fail {A : Type} (message : String) : Task A := .throw (.thrown message)

def splitUserOrExit (user : String) : Task Account :=
  match splitUser user with
  | some account => return account
  | none => fail "User must be in <address> or <address>.<paymentId> format"

def recentlyEdited (now hours : ℕ) (row : BalanceRow) : Bool := now < (row.last_edited + hours * 60 * 60) * 1000

def requireStale (required : Bool) (hours : ℕ) (row : BalanceRow) : Task Unit := do
  if required then
    let now ← ask .now
    if recentlyEdited now hours row then fail "There was recent amount update. Refusing to continue!" else return ()
  else return ()

def wait (delayMs : ℕ) : Task Unit := if delayMs = 0 then return () else ask (.sleep delayMs)

end Plans

section Move

def buildBalanceMovePlan (oldUser newUser : String) (options : MoveOptions) : Task MovePlan := do
  if oldUser = newUser then fail "Old and new user must be different"
  else
    let oldAccount ← splitUserOrExit oldUser
    let newAccount ← splitUserOrExit newUser
    let oldWhere := paymentWhere oldAccount false
    let newWhere := paymentWhere newAccount false
    let sourceRows ← ask (.selectBalance oldWhere)
    match sourceRows with
    | [oldRow] => do
      let oldAmount := ofInt oldRow.amount
      if !isSafeInteger oldAmount || oldAmount < 0 then fail "Source user has invalid balance amount"
      else if oldRow.pending_batch_id.isSome then fail "Source balance is reserved by a pending payment batch"
      else
        requireStale options.requireStaleBalance 24 oldRow
        let destinationRows ← ask (.selectBalance newWhere)
        match destinationRows with
        | [newRow] => return ⟨oldWhere,newWhere,oldAmount,newRow⟩
        | _ => fail "Can't find destination balance row"
    | _ => fail "Can't find source balance row"

def applyBalanceMovePlan (plan : MovePlan) : Task Unit := do
  ask (.applyMove plan)
  let sourceRows ← ask (.selectBalance plan.oldWhere)
  let destinationRows ← ask (.selectBalance plan.newWhere)
  if sourceRows.isEmpty || destinationRows.isEmpty then fail "Balance row disappeared after move" else return ()

def moveBalance (oldUser newUser : String) (options : MoveOptions) : Task Unit := do
  if options.force && !options.confirmForceMove then fail "Rerun with --confirm-force-move"
  else
    let plan ← buildBalanceMovePlan oldUser newUser options
    wait options.delayMs
    applyBalanceMovePlan plan

abbrev StoreWork := Work Store Failure

def statement {A : Type} (run : Store → Except Failure (A × Store)) : StoreWork A := Work.statement .lost run

variable (collate : String → String → Bool)

def selectBalance (store : Store) (condition : PaymentWhere) : List BalanceRow :=
  store.balance.filter fun row => condition.admits collate row.payment_address row.payment_id

/-- `UPDATE balance SET amount = … WHERE …`, with the rows it matched. -/
def updateAmount (stamp : ℕ) (condition : PaymentWhere) (amount : ℤ → ℤ) (store : Store) : ℕ × Store :=
  ((selectBalance collate store condition).length,{store with
    balance := store.balance.map fun row =>
      if condition.admits collate row.payment_address row.payment_id then
        row.assign stamp (amount row.amount) row.pending_batch_id
      else row})

def amountsAgree (plan : MovePlan) (source destination : BalanceRow) : Bool :=
  isSafeInteger (ofInt source.amount) && 0 ≤ ofInt source.amount &&
    isSafeInteger (ofInt destination.amount) && 0 ≤ ofInt destination.amount &&
    isSafeInteger (ofInt source.amount + ofInt destination.amount) &&
    ofInt source.amount = plan.oldAmount && ofInt destination.amount = ofInt plan.newRow.amount

def moveLockedBalances (stamp : ℕ) (plan : MovePlan) : StoreWork Unit := do
  let sourceRows ← statement fun store => .ok (selectBalance collate store plan.oldWhere,store)
  let destinationRows ← statement fun store => .ok (selectBalance collate store plan.newWhere,store)
  match sourceRows,destinationRows with
  | [source],[destination] =>
    if source.pending_batch_id.isSome || destination.pending_batch_id.isSome then
      throw (.thrown "A balance is reserved by a pending payment batch; refusing to move funds")
    else if !amountsAgree plan source destination then
      throw (.thrown "Balance amounts changed or are invalid; create a fresh move preview")
    else
      let debit ← statement fun store => .ok (updateAmount collate stamp plan.oldWhere (fun _ => 0) store)
      let credit ← statement fun store =>
        .ok (updateAmount collate stamp plan.newWhere (fun amount => amount + ofInt source.amount) store)
      if debit ≠ 1 ∨ credit ≠ 1 then throw (.thrown "Balance update did not match exactly one account")
      else return ()
  | _,_ => throw (.thrown "Balance rows changed since preview; refusing to move funds")

end Move

section Delete

/-- `walletMin` in atomic units. -/
def buildUserDeletePlan (walletMin : ℤ) (user : String) (options : DeleteOptions) : Task DeletePlan := do
  let account ← splitUserOrExit user
  let condition := paymentWhere account true
  if !options.extraTables.all isSafeSqlName then fail "Unsafe SQL table name"
  else
    let userRows ← ask (.countUsers user)
    if 1 < userRows then fail "Too many users were selected!"
    else
      let balanceRows ← ask (.selectBalance condition)
      if 1 < balanceRows.length then fail "Too many users were selected!"
      else
        checkBalance balanceRows
        let paymentRows ← ask (.countRows "payments" condition)
        let extraRows ← countTables condition options.extraTables
        if userRows + balanceRows.length + paymentRows + extraRows = 0 then
          fail "No matching SQL rows found. Refusing to proceed to LMDB cache cleaning"
        else return ⟨user,condition,balanceRows,options.extraTables⟩
where
  checkBalance : List BalanceRow → Task Unit
    | [] => return ()
    | balance::_ => do
      if balance.pending_batch_id.isSome then fail "Balance row is reserved by in-flight payment batch"
      else if !options.force && walletMin ≤ ofInt balance.amount then fail "Remaining payment is too large"
      else requireStale options.requireStaleBalance 12 balance
  countTables (condition : PaymentWhere) : List String → Task ℕ
    | [] => return 0
    | name::names => do
      let rows ← ask (.countRows name condition)
      let others ← countTables condition names
      return rows + others

def applyUserDeletePlan (plan : DeletePlan) : Task Unit := do
  ask (.applyDelete plan)
  ask (.deleteCacheKeys plan.user)

def runUserDelete (walletMin : ℤ) (user : String) (options : DeleteOptions) : Task Unit := do
  if options.force && !options.confirmForceDelete then fail "Rerun with --confirm-force-delete"
  else
    let plan ← buildUserDeletePlan walletMin user options
    wait options.delayMs
    applyUserDeletePlan plan

variable (collate : String → String → Bool)

def deleteUsers (username : String) (store : Store) : Store :=
  {store with users := store.users.filter fun user => !collate user username}

def deleteBalance (condition : PaymentWhere) (store : Store) : ℕ × Store :=
  ((selectBalance collate store condition).length,{store with
    balance := store.balance.filter fun row => !condition.admits collate row.payment_address row.payment_id})

def deleteRows (condition : PaymentWhere) (table : String) (store : Store) : Store :=
  {store with
    tables := store.tables.map fun entry =>
      if entry.1 = table then
        (entry.1,entry.2.filter fun row => !condition.admits collate row.payment_address row.payment_id)
      else entry}

def balanceAgrees (plan : DeletePlan) (balances : List BalanceRow) : Bool :=
  balances.length = plan.balanceRows.length &&
    balances.head?.all fun current => current.pending_batch_id.isNone &&
      plan.balanceRows.head?.any fun preview => ofInt current.amount = ofInt preview.amount

def deleteTables (condition : PaymentWhere) : List String → StoreWork Unit
  | [] => return ()
  | table::tables => do
    statement fun store => .ok ((),deleteRows collate condition table store)
    deleteTables condition tables

def deleteLockedAccount (plan : DeletePlan) : StoreWork Unit := do
  let balances ← statement fun store => .ok (selectBalance collate store plan.condition,store)
  if !balanceAgrees plan balances then
    throw (.thrown "Balance changed or became reserved since preview; refusing to delete user")
  else
    statement fun store => .ok ((),deleteUsers collate plan.user store)
    let deletedBalance ← statement fun store => .ok (deleteBalance collate plan.condition store)
    if deletedBalance ≠ balances.length then throw (.thrown "Balance rows changed during user deletion")
    else deleteTables collate plan.condition ("payments"::plan.extraTables)

end Delete

section System

inductive Job where
  | move (oldUser newUser : String) (options : MoveOptions)
  | delete (user : String) (options : DeleteOptions)

inductive Plan where
  | move (plan : MovePlan)
  | delete (plan : DeletePlan)

structure Change where
  process : ℕ
  plan : Plan
  before : Store
  after : Store

/-- Beside the store stand, for the specification, the changes that the tools made or tried. -/
structure Shared where
  store : Store
  changes : List Change

inductive Answer where
  | reply
  | refused (failure : Failure)
  | time (milliseconds : ℕ)
  | fate (fate : Fate) (stamp : ℕ)

/-- What the pool does: it adds to balances and makes new ones, and reserves, pays and releases them. -/
inductive Occurrence where
  | credit (amounts : ℕ → ℤ) (stamp : ℕ)
  | addBalance (row : BalanceRow)
  | reserve (batchId : ℕ) (ids : List ℕ) (stamp : ℕ)
  | finalize (batchId : ℕ) (gross : ℕ → ℤ) (stamp : ℕ)
  | release (batchId : ℕ) (stamp : ℕ)
  | setUsers (users : List String)
  | setTables (tables : List (String × List AccountRow))

def answerWith {A : Type} (answer : Answer) (value : A) (shared : Shared) : Option (Except Failure A × Shared) :=
  match answer with
  | .reply => some (.ok value,shared)
  | .refused failure => some (.error failure,shared)
  | _ => none

def applyPlan (process : ℕ) (answer : Answer) (plan : Plan) (work : ℕ → StoreWork Unit) (shared : Shared) :
    Option (Except Failure Unit × Shared) :=
  match answer with
  | .fate fate stamp =>
    let (outcome,after) := transact .lost fate (work stamp) shared.store
    some (outcome,⟨after,shared.changes ++ [⟨process,plan,shared.store,after⟩]⟩)
  | _ => none

def perform (collate : String → String → Bool) (process : ℕ) (shared : Shared) (answer : Answer) :
    (call : Call) → Option (signature.Outcome call × Shared)
  | .selectBalance condition => answerWith answer (selectBalance collate shared.store condition) shared
  | .countUsers username => answerWith answer (shared.store.users.countP fun user => collate user username) shared
  | .countRows table condition => answerWith answer
    ((shared.store.tables.filter fun entry => entry.1 = table).flatMap Prod.snd |>.countP fun row =>
      condition.admits collate row.payment_address row.payment_id) shared
  | .now => match answer with
    | .time milliseconds => some (.ok milliseconds,shared)
    | _ => none
  | .sleep _ => some (.ok (),shared)
  | .applyMove plan => applyPlan process answer (.move plan) (fun stamp => moveLockedBalances collate stamp plan) shared
  | .applyDelete plan => applyPlan process answer (.delete plan) (fun _ => deleteLockedAccount collate plan) shared
  | .deleteCacheKeys _ => answerWith answer () shared

def Shared.onBalance (shared : Shared) (change : BalanceRow → BalanceRow) : Shared :=
  {shared with store := {shared.store with balance := shared.store.balance.map change}}

def occur : Occurrence → Shared → Option Shared
  | .credit amounts stamp,shared => some (shared.onBalance fun row =>
    row.assign stamp (row.amount + amounts row.id) row.pending_batch_id)
  | .addBalance row,shared =>
    if row.id ∈ shared.store.balance.map BalanceRow.id ∨ row.pending_batch_id ≠ none then none
    else some {shared with store := {shared.store with balance := shared.store.balance ++ [row]}}
  | .reserve batchId ids stamp,shared =>
    if shared.store.balance.countP (fun row => row.pending_batch_id.isNone && row.id ∈ ids) ≠ ids.length then none
    else some (shared.onBalance fun row =>
      if row.pending_batch_id.isNone && row.id ∈ ids then row.assign stamp row.amount (some batchId) else row)
  | .finalize batchId gross stamp,shared => some (shared.onBalance fun row =>
    if row.pending_batch_id = some batchId then row.assign stamp (row.amount - gross row.id) none else row)
  | .release batchId stamp,shared => some (shared.onBalance fun row =>
    if row.pending_batch_id = some batchId then row.assign stamp row.amount none else row)
  | .setUsers users,shared => some {shared with store := {shared.store with users := users}}
  | .setTables tables,shared => some {shared with store := {shared.store with tables := tables}}

def runJob (walletMin : ℤ) : Job → Task Unit
  | .move oldUser newUser options => moveBalance oldUser newUser options
  | .delete user options => runUserDelete walletMin user options

def system (collate : String → String → Bool) (walletMin : ℤ) : System signature where
  Shared := Shared
  Job := Job
  Answer := Answer
  Occurrence := Occurrence
  program := runJob walletMin
  perform process call answer shared := perform collate process shared answer call
  occur := occur

def Fresh (shared : Shared) : Prop := shared.changes = []

end System

end NodejsPool.Tools
