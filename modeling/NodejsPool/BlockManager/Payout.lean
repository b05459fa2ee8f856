import NodejsPool.Async.System
import NodejsPool.Async.Transaction
import NodejsPool.BlockManager.Precalc
import NodejsPool.Sql.Keyed

/-! The payout of one block: its stored fractions are credited in one transaction with the
`paid_blocks` row, and only then the block is unlocked. Attempts interleave, fail at any statement
and crash at any await. -/
namespace NodejsPool.BlockManager.Payout
open Async

inductive Failure where
  | duplicateEntry
  | lost
  | thrown (message : String)
  deriving DecidableEq

structure BalanceKey where
  payment_address : String
  payment_id : Option String
  pool_type : String
  deriving DecidableEq

structure BalanceRow where
  id : Nat
  key : BalanceKey
  amount : ℤ
  deriving DecidableEq

structure PaidBlock where
  hex : String
  amount : ℕ
  port : ℤ

structure BalanceCredit where
  id : Nat
  amount : ℤ

/-- The tables of the payout; `block_balance` holds the rows of each block hex. -/
structure Db where
  balance : List BalanceRow
  paid_blocks : List PaidBlock
  block_balance : String → List BlockBalanceRow

inductive BlockKind where
  | main
  | alt
  deriving DecidableEq

/-- A record of `blockDB` or `altblockDB`; `moved` marks an alt block whose reward an
operator moved to another block. -/
structure BlockRecord where
  kind : BlockKind
  hash : String
  unlocked : Bool
  valid : Bool
  moved : Bool

inductive Call where
  | canRun (runtime : Nat)
  | startPayment (runtime : Nat)
  | endPayment (runtime : Nat)
  | fullStop (runtime : Nat)
  | cachedBalanceId (runtime : Nat) (key : String)
  | cacheBalanceId (runtime : Nat) (key : String) (id : Nat)
  | selectBalanceSum
  | selectBlockBalance (hex : String)
  | selectBalanceId (key : BalanceKey)
  | insertBalance (key : BalanceKey)
  | payBlock (hex : String) (blockReward : ℕ) (port : ℤ) (credits : List BalanceCredit)
  | unlockBlock (kind : BlockKind) (hash : String)

@[reducible] def signature : Signature where
  Call := Call
  Reply
    | .canRun _ => Bool
    | .startPayment _ => Bool
    | .cachedBalanceId _ _ => Option Nat
    | .selectBalanceSum => Option ℤ
    | .selectBlockBalance _ => List BlockBalanceRow
    | .selectBalanceId _ => List Nat
    | .insertBalance _ => Nat
    | _ => Unit
  Error := Failure

abbrev Task := Program signature

def ask (call : Call) : Task (signature.Reply call) := Program.perform (S := signature) call

def normalizePaymentId (payment_id : Option String) : Option String :=
  payment_id.filter fun id => 10 < id.length

def cacheKey (key : BalanceKey) : String :=
  key.payment_address ++ "|" ++ key.pool_type ++ "|" ++ key.payment_id.getD ""

def fullStop (runtime : Nat) : Task Unit := ask (.fullStop runtime)

def uniqueBalanceId (runtime : Nat) (key : BalanceKey) (rows : List Nat) : Task Nat :=
  match rows with
  | [id] => do
    ask (.cacheBalanceId runtime (cacheKey key) id)
    return id
  | _ => do
    fullStop runtime
    .throw (.thrown s!"Unable to resolve balance row for {key.payment_address} / {key.pool_type}")

def insertBalanceId (runtime : Nat) (key : BalanceKey) : Task Nat := do
  let inserted ← ((fun id => some id) <$> ask (.insertBalance key)).tryCatch fun error =>
    if error = .duplicateEntry then pure none else .throw error
  match inserted with
  | some id =>
    ask (.cacheBalanceId runtime (cacheKey key) id)
    return id
  | none =>
    let rows ← ask (.selectBalanceId key)
    uniqueBalanceId runtime key rows

/-- Concurrent lookups of one key share a promise in the source; here they run one
after the other and share the cache. -/
def getOrCreateBalanceId (runtime : Nat) (key : BalanceKey) : Task Nat := do
  match ← ask (.cachedBalanceId runtime (cacheKey key)) with
  | some cachedId => return cachedId
  | none =>
    let rows ← ask (.selectBalanceId key)
    if 1 < rows.length then
      fullStop runtime
      .throw (.thrown s!"Multiple balance rows found for {key.payment_address} / {key.pool_type}")
    else if rows.isEmpty then insertBalanceId runtime key
    else uniqueBalanceId runtime key rows

def addCredit (credits : List BalanceCredit) (credit : BalanceCredit) : List BalanceCredit :=
  if credit.amount = 0 then credits
  else if credit.id ∈ credits.map BalanceCredit.id then
    credits.map fun other => if other.id = credit.id then {other with amount := other.amount + credit.amount} else other
  else credits ++ [credit]

def resolveCredits (runtime : Nat) : List (BalanceKey × ℤ) → Task (List BalanceCredit)
  | [] => pure []
  | (key,amount)::credits => do
    let id ← getOrCreateBalanceId runtime key
    let resolved ← resolveCredits runtime credits
    return ⟨id,amount⟩::resolved

def resolveBalanceCredits (runtime : Nat) (credits : List (BalanceKey × ℤ)) : Task (List BalanceCredit) := do
  let resolved ← resolveCredits runtime credits
  return resolved.foldl addCredit []

def getBalanceSum : Task ℤ := do
  match ← ask .selectBalanceSum with
  | some amt => return amt
  | none => .throw (.thrown "SELECT SUM(amount) as amt FROM balance query returned an invalid result")

def payoutCredits (rows : List BlockBalanceRow) (blockReward : ℕ) : List (BalanceKey × ℤ) :=
  (rows.map fun row =>
    (⟨row.payment_address,normalizePaymentId row.payment_id,"pplns"⟩,⌊row.amount * (blockReward : ℚ)⌋)).filter
      fun credit => credit.2 ≠ 0

def totalCredit (credits : List BalanceCredit) : ℤ := (credits.map BalanceCredit.amount).sum

def tryBalanceSum (runtime : Nat) : Task (Option ℤ) :=
  ((fun amt => some amt) <$> getBalanceSum).tryCatch fun _ => do
    fullStop runtime
    return none

def tryPayBlock (blockHex : String) (blockReward : ℕ) (blockPort : ℤ) (balanceCredits : List BalanceCredit) :
    Task Bool :=
  ((fun _ => true) <$> ask (.payBlock blockHex blockReward blockPort balanceCredits)).tryCatch fun _ => return false

def doPPLNSPayments (runtime : Nat) (blockHex : String) (blockReward : ℕ) (blockPort : ℤ) : Task Bool := do
  match ← tryBalanceSum runtime with
  | none => return false
  | some previousBalanceSum =>
    let rows ← ask (.selectBlockBalance blockHex)
    if rows.isEmpty then return false
    else
      let balanceCredits ← resolveBalanceCredits runtime (payoutCredits rows blockReward)
      if totalCredit balanceCredits = 0 then
        fullStop runtime
        return false
      else
        let paid ← tryPayBlock blockHex blockReward blockPort balanceCredits
        if !paid then return false
        else
          match ← tryBalanceSum runtime with
          | none => return false
          | some balanceSum =>
            if balanceSum ≠ previousBalanceSum then return true
            else
              fullStop runtime
              return false

structure CheckedBlock where
  kind : BlockKind
  hash : String
  reward : ℕ
  port : ℤ

def payAndUnlock (runtime : Nat) (block : CheckedBlock) : Task Unit := do
  let isPaid ← doPPLNSPayments runtime block.hash block.reward block.port
  if isPaid then ask (.unlockBlock block.kind block.hash) else pure ()

def executePayout (runtime : Nat) (block : CheckedBlock) : Task Unit := do
  let free ← ask (.startPayment runtime)
  if !free then return ()
  else
    (payAndUnlock runtime block).tryCatch fun error => do
      ask (.endPayment runtime)
      .throw error
    ask (.endPayment runtime)

def payBlocks (runtime : Nat) : List CheckedBlock → Task Unit
  | [] => pure ()
  | block::blocks => do
    executePayout runtime block
    payBlocks runtime blocks

structure Job where
  runtime : Nat
  blocks : List CheckedBlock

def runUnlocker (job : Job) : Task Unit := do
  let free ← ask (.canRun job.runtime)
  if !free then return ()
  else payBlocks job.runtime job.blocks

section Database

def insertPaidBlock (paid : PaidBlock) (db : Db) : Except Failure (Unit × Db) :=
  if paid.hex ∈ db.paid_blocks.map PaidBlock.hex then .error .duplicateEntry
  else .ok ((),{db with paid_blocks := db.paid_blocks ++ [paid]})

def caseAmount (batch : List BalanceCredit) (id : Nat) : ℤ :=
  Sql.caseAt BalanceCredit.id BalanceCredit.amount batch id

def updateBalance (batch : List BalanceCredit) (db : Db) : Nat × Db :=
  (db.balance.countP fun row => row.id ∈ batch.map BalanceCredit.id,
    {db with balance := db.balance.map fun row =>
      if row.id ∈ batch.map BalanceCredit.id then {row with amount := row.amount + caseAmount batch row.id}
      else row})

abbrev PaymentWork := Work Db Failure

def applyBatches : List (List BalanceCredit) → PaymentWork Unit
  | [] => pure ()
  | batch::batches => do
    let affectedRows ← Work.statement .lost fun db => .ok (updateBalance batch db)
    if affectedRows ≠ batch.length then
      throw (.thrown s!"balance update affected {affectedRows} of {batch.length} rows")
    else applyBatches batches

/-- `slice(index, index + size)` from `index` to the end; `steps` bounds the loop. -/
def slices {A : Type} (size : Nat) : Nat → List A → List (List A)
  | 0,_ => []
  | steps + 1,items => if items.isEmpty then [] else items.take size :: slices size steps (items.drop size)

def balanceUpdateBatchSize : Nat := 100

def applyBalanceCredits (credits : List BalanceCredit) : PaymentWork Unit :=
  applyBatches (slices balanceUpdateBatchSize credits.length credits)

def payBlockWork (hex : String) (blockReward : ℕ) (port : ℤ) (credits : List BalanceCredit) : PaymentWork Unit := do
  Work.statement .lost (insertPaidBlock ⟨hex,blockReward,port⟩)
  applyBalanceCredits credits

end Database

structure Memory where
  isFullStop : Bool := false
  paymentInProgress : Bool := false
  balanceIdCache : String → Option Nat := fun _ => none

structure Credited where
  hex : String
  reward : ℕ
  credits : List BalanceCredit

/-- The databases and memories of the payout, and what only the specification reads: the contents
`block_balance` ever had for a hex, the balance changes from elsewhere, and the crediting transactions. -/
structure Shared where
  db : Db
  blocks : List BlockRecord
  memory : Nat → Memory
  stored : String → List (List BlockBalanceRow)
  external : Nat → ℤ
  credited : List Credited

inductive Answer where
  | reply
  | refused (failure : Failure)
  | inserted (id : Nat) (unknown : Bool)
  | fate (fate : Fate)

inductive Occurrence where
  | changeBalance (id : Nat) (amount : ℤ)
  | addBalance (row : BalanceRow)
  | replaceBlockBalance (hex : String) (rows : List BlockBalanceRow)
  | storeBlock (block : BlockRecord)
  | invalidateBlock (kind : BlockKind) (hash : String)
  | moveAltBlockReward (hash : String)
  | restart (runtime : Nat)

namespace Shared

def remember (shared : Shared) (runtime : Nat) (change : Memory → Memory) : Shared :=
  {shared with memory := Function.update shared.memory runtime (change (shared.memory runtime))}

def addBalance (shared : Shared) (row : BalanceRow) : Option Shared :=
  if row.id ∈ shared.db.balance.map BalanceRow.id then none
  else some {shared with
    db := {shared.db with balance := shared.db.balance ++ [row]}
    external := Function.update shared.external row.id row.amount}

def unlockBlock (shared : Shared) (kind : BlockKind) (hash : String) : Shared :=
  {shared with blocks := shared.blocks.map fun block =>
    if block.kind = kind ∧ block.hash = hash then {block with unlocked := true} else block}

def balanceSum (shared : Shared) : Option ℤ :=
  if shared.db.balance.isEmpty then none else some (shared.db.balance.map BalanceRow.amount).sum

def payBlock (shared : Shared) (fate : Fate) (hex : String) (blockReward : ℕ) (port : ℤ)
    (credits : List BalanceCredit) : Except Failure Unit × Shared :=
  let (outcome,db) := transact .lost fate (payBlockWork hex blockReward port credits) shared.db
  (outcome,{shared with
    db := db
    credited := if db.balance = shared.db.balance then shared.credited
      else shared.credited ++ [⟨hex,blockReward,credits⟩]})

end Shared

def attempt {A : Type} (answer : Answer) (value : A) (after shared : Shared) : Option (Except Failure A × Shared) :=
  match answer with
  | .reply => some (.ok value,after)
  | .refused failure => some (.error failure,shared)
  | _ => none

def perform (shared : Shared) (answer : Answer) : (call : Call) → Option (signature.Outcome call × Shared)
  | .canRun runtime =>
    some (.ok (!(shared.memory runtime).isFullStop && !(shared.memory runtime).paymentInProgress),shared)
  | .startPayment runtime =>
    some (.ok (!(shared.memory runtime).paymentInProgress),
      shared.remember runtime fun memory => {memory with paymentInProgress := true})
  | .endPayment runtime =>
    some (.ok (),shared.remember runtime fun memory => {memory with paymentInProgress := false})
  | .fullStop runtime => some (.ok (),shared.remember runtime fun memory => {memory with isFullStop := true})
  | .cachedBalanceId runtime key => some (.ok ((shared.memory runtime).balanceIdCache key),shared)
  | .cacheBalanceId runtime key id =>
    some (.ok (),shared.remember runtime fun memory =>
      {memory with balanceIdCache := Function.update memory.balanceIdCache key (some id)})
  | .selectBalanceSum => attempt answer shared.balanceSum shared shared
  | .selectBlockBalance hex => attempt answer (shared.db.block_balance hex) shared shared
  | .selectBalanceId key =>
    attempt answer ((shared.db.balance.filter fun row => row.key = key).map BalanceRow.id) shared shared
  | .insertBalance key => match answer with
    | .refused failure => some (.error failure,shared)
    | .inserted id unknown => (shared.addBalance ⟨id,key,0⟩).map fun shared =>
      (if unknown then .error .lost else .ok id,shared)
    | _ => none
  | .payBlock hex blockReward port credits => match answer with
    | .fate fate => some (shared.payBlock fate hex blockReward port credits)
    | _ => none
  | .unlockBlock kind hash => attempt answer () (shared.unlockBlock kind hash) shared

def occur : Occurrence → Shared → Option Shared
  | .changeBalance id amount,shared => some {shared with
      db := {shared.db with balance := shared.db.balance.map fun row =>
        if row.id = id then {row with amount := row.amount + amount} else row}
      external := Function.update shared.external id (shared.external id + amount)}
  | .addBalance row,shared => shared.addBalance row
  | .replaceBlockBalance hex rows,shared => some {shared with
      db := {shared.db with block_balance := Function.update shared.db.block_balance hex rows}
      stored := Function.update shared.stored hex (rows :: shared.stored hex)}
  | .storeBlock block,shared =>
    -- A block is stored locked, or unlocked and invalid when it is already known to be orphaned.
    if block.unlocked && block.valid then none else some {shared with blocks := shared.blocks ++ [block]}
  | .invalidateBlock kind hash,shared => some {shared with blocks := shared.blocks.map fun block =>
      if block.kind = kind ∧ block.hash = hash then {block with valid := false, unlocked := true} else block}
  | .moveAltBlockReward hash,shared => some {shared with blocks := shared.blocks.map fun block =>
      if block.kind = .alt ∧ block.hash = hash then {block with moved := true, unlocked := true} else block}
  | .restart runtime,shared => some (shared.remember runtime fun _ => {})

def system : System signature where
  Shared := Shared
  Job := Job
  Answer := Answer
  Occurrence := Occurrence
  program := runUnlocker
  perform _ call answer shared := perform shared answer call
  occur := occur

end NodejsPool.BlockManager.Payout
