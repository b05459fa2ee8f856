import NodejsPool.Async.Machine
import NodejsPool.Pool.BlockTemplates

/-! The jobs cut from one template and the blobs their shares are rebuilt from: every job writes
its extra nonce into the same buffer, and a share writes it there once more. -/
namespace NodejsPool.Pool.Templates
open Async Buffers

section Jobs

inductive JobNonce
  | number (value : ℕ)
  | text (value : String)

structure Job where
  blockHash : String
  usesProxyNonce : Bool
  extraNonce : Option JobNonce
  clientPoolLocation : Option ℕ := none
  clientNonceLocation : Option ℕ := none

inductive Sent
  | hash (text : String)
  | blob (bytes : Bytes)
  | null

structure PoolSettings where
  sharedTemplateNonces : Bool := false
  disableProxyNonce : Bool := false

structure Miner where
  proxy : Bool
  eth_extranonce : Option String := none

structure Params where
  nonce : String
  mixhash : Option String := none
  pow : Option (List ℕ) := none
  poolNonce : Option ℤ := none
  workerNonce : Option ℤ := none

structure Blobs where
  convert : Bytes → Option Bytes
  construct : Bytes → Params → Option Bytes

def uint32BE (value : ℕ) : Bytes :=
  [value / 2 ^ 24,value / 2 ^ 16,value / 2 ^ 8,value].map UInt8.ofNat

/-- `buffer.writeUInt32BE(value, offset)`, with none for the `RangeError` it throws. -/
def writeUInt32BE (buffer : Bytes) (value : ℤ) (offset : ℕ) : Option Bytes :=
  if 0 ≤ value ∧ value ≤ 0xffffffff ∧ offset + 4 ≤ buffer.length then
    some (overlay buffer offset (uint32BE value.toNat))
  else none

variable {Child : Type} (blobs : Blobs)

def writeExtraNonce (bt : BlockTemplate Child) : BlockTemplate Child × Option Bytes :=
  let extraNonce := bt.extraNonce.getD 0 + 1
  let counted := {bt with extraNonce := some extraNonce}
  match bt.buffer.bind fun buffer => writeUInt32BE buffer extraNonce (bt.reserved_offset.getD 0) with
  | none => (counted,none)
  | some buffer => ({counted with buffer := some buffer},some buffer)

def nextBlobHex (bt : BlockTemplate Child) : BlockTemplate Child × Option Sent :=
  match bt.kind with
  | .hashOnly => (bt,bt.hash.map Sent.hash)
  | .compact => (bt,(bt.buffer.bind blobs.convert).map Sent.blob)
  | .full =>
    let (bt,buffer) := writeExtraNonce bt
    (bt,(buffer.bind blobs.convert).map Sent.blob)

def nextBlobWithChildNonceHex (bt : BlockTemplate Child) : BlockTemplate Child × Option Sent :=
  match bt.kind with
  | .full =>
    let (bt,buffer) := writeExtraNonce bt
    (bt,buffer.map Sent.blob)
  | _ => (bt,some .null)

def usesProxyNonce (settings : PoolSettings) (miner : Miner) (bt : BlockTemplate Child) : Bool :=
  miner.proxy && !settings.sharedTemplateNonces && !settings.disableProxyNonce && !bt.disableProxyNonce &&
    bt.clientPoolLocation.isSome && bt.clientNonceLocation.isSome

/-- The job `getCoinJob` builds and the blob it sends, from the counter as it stands afterwards. -/
def getCoinJob (settings : PoolSettings) (miner : Miner) (bt : BlockTemplate Child) :
    BlockTemplate Child × Option (Job × Sent) :=
  if usesProxyNonce settings miner bt then
    let (bt,blobHex) := nextBlobWithChildNonceHex bt
    let newJob : Job := ⟨bt.idHash,true,bt.extraNonce.map .number,bt.clientPoolLocation,bt.clientNonceLocation⟩
    (bt,blobHex.map fun blobHex => (newJob,blobHex))
  else
    let (bt,blobHex) := nextBlobHex blobs bt
    let extraNonce :=
      if settings.sharedTemplateNonces then miner.eth_extranonce.map JobNonce.text
        else bt.extraNonce.map JobNonce.number
    (bt,blobHex.map fun blobHex => (⟨bt.idHash,false,extraNonce,none,none⟩,blobHex))

/-- None where the source reports that the blob could not be built. -/
def getShareBuffer (job : Job) (blockTemplate : BlockTemplate Child) (params : Params) : Option Bytes := do
  let buffer ← blockTemplate.buffer
  let reservedOffset ← blockTemplate.reserved_offset
  match job.extraNonce with
  | some (.number extraNonce) =>
    let template ← writeUInt32BE buffer extraNonce reservedOffset
    if job.usesProxyNonce then
      let poolNonce ← params.poolNonce
      let workerNonce ← params.workerNonce
      let clientPoolLocation ← job.clientPoolLocation
      let clientNonceLocation ← job.clientNonceLocation
      let template ← writeUInt32BE template poolNonce clientPoolLocation
      let template ← writeUInt32BE template workerNonce clientNonceLocation
      blobs.construct template params
    else blobs.construct template params
  | _ => none

end Jobs

section Runs

variable (Child : Type)

structure World where
  bt : BlockTemplate Child
  handed : List (Job × Sent)

variable {Child} (runtime : Runtime Child) (input : Input Child) (settings : PoolSettings) (blobs : Blobs)

def step (world : World Child) (miner : Miner) : Option (World Child) :=
  let (bt,job) := getCoinJob blobs settings miner world.bt
  some ⟨bt,world.handed ++ job.toList⟩

def jobs : Machine (World Child) Miner where
  initial world := newBlockTemplate runtime input = .ok world.bt ∧ world.handed = []
  step := step settings blobs

end Runs
end NodejsPool.Pool.Templates
