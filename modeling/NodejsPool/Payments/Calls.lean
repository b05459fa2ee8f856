import NodejsPool.Async.Program
import NodejsPool.Payments.Json
import NodejsPool.Payments.Ledger

/-! What a payment process awaits: SQL statements and transactions, wallet RPCs, the
advisory lock, the clock, and its own state, which a closing connection changes. -/
namespace NodejsPool.Payments
open Async

inductive Rpc where
  | getbalance
  | transfer (batch : ℕ) (destinations : List (ℤ × String))
  | get_tx_key (txid : String)
  | get_height
  | get_transfers (heights : Option (ℚ × ℚ))
  | get_transfer_by_txid (txid : String)

inductive Call where
  | wallet (rpc : Rpc)
  | selectBatch (id : ℕ)
  | selectOpenBatches
  | selectItems (id : ℕ)
  | selectReservedBalances (id : ℕ)
  | selectPayoutRows (walletMin : ℕ)
  | updateBatch (id : ℕ) (fields : Fields) (guard : Guard)
  | reserve (plan : BatchPlan)
  | finalize (batch : Batch) (items : List Item) (hash txKey : String) (finalizedAt : ℕ)
  | release (batch : Batch) (releasedAt : ℕ)
  | unlock (batchId : ℕ) (confirmWalletHistoryChecked : Bool) (releasedAt : ℕ)
  | getConnection
  | getLock
  | isUsedLock
  | releaseLock
  | now
  | sleep (milliseconds : ℕ)
  | isFailStop
  | enterFailStop
  | lockConnection
  | setLockConnection (held : Bool)
  | setLastPaymentCycle (seconds : ℕ)

@[reducible] def signature : Signature where
  Call := Call
  Reply
    | .wallet _ => RpcResponse
    | .selectBatch _ => Option Batch
    | .selectOpenBatches => List Batch
    | .selectItems _ => List Item
    | .selectReservedBalances _ => List BalanceRow
    | .selectPayoutRows _ => List PayoutRow
    | .updateBatch _ _ _ => Bool
    | .reserve _ => ℕ
    | .finalize _ _ _ _ _ => ℕ
    | .release _ _ => Bool
    | .unlock _ _ _ => ℕ
    | .getLock => Bool
    | .isUsedLock => Bool
    | .now => ℕ
    | .isFailStop => Bool
    | .lockConnection => Bool
    | _ => Unit
  Error := Failure

abbrev Task := Program signature

def ask (call : Call) : Task (signature.Reply call) := Program.perform (S := signature) call

def fail {A : Type} (failure : Failure) : Task A := .throw failure

def liftExcept {A : Type} : Except Failure A → Task A
  | .ok value => pure value
  | .error failure => fail failure

/-- `nowSqlTimestamp(now())`, in seconds. -/
def currentTime : Task ℕ := do
  let milliseconds ← ask .now
  return milliseconds / 1000

def callWallet (rpc : Rpc) : Task RpcResponse := ask (.wallet rpc)

end NodejsPool.Payments
