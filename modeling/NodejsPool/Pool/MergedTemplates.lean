import NodejsPool.Async.Machine
import NodejsPool.Pool.BlockTemplates

/-! The templates of merged mining: the master joins the child's template to its parent's reply, derives
the parent again when the child changes, and sends both to its workers. -/
namespace NodejsPool.Pool.Merged
open Async Templates

section Records

inductive Active where
  | mk (template : BlockTemplate Active)

def Active.template : Active → BlockTemplate Active
  | .mk template => template

/-- `activeBlockTemplates` of one process. -/
abbrev ActiveTemplates := String → Option Active

structure Reply where
  template : Input Active
  difficulty : template.difficulty.isSome = true
  idHash : template.idHash = none
  child_template : template.child_template = none
  parent_blocktemplate_blob : template.parent_blocktemplate_blob = none

structure Settings where
  runtime : Runtime Active
  PORT2COIN : ℕ → Option String
  mm_child_port_set : ℕ → List ℕ
  linked : ∀ parentPort childPort, parentPort ∈ mm_child_port_set childPort ↔
    runtime.mm_port_set parentPort = some childPort
  distinct : ∀ childPort, (mm_child_port_set childPort).Nodup
  constructMMParentBlockBlob : Bytes → ℕ → Bytes → Option Bytes

end Records

section Updates

variable (settings : Settings)

/-- `Object.assign({}, template)`: the fields the constructor reads back from a template it has built. -/
def assigned (template : BlockTemplate Active) : Input Active where
  coin := template.coin
  port := template.port
  height := template.height
  difficulty := template.difficulty
  xtm_block := template.xtm_block
  bits := template.bits
  seed_hash := template.seed_hash
  hash := template.hash
  hash2 := template.hash2
  blocktemplate_blob := template.blocktemplate_blob
  reserved_offset := template.reserved_offset
  child_template := template.child_template
  child_template_buffer := template.child_template_buffer
  idHash := some template.idHash

def processRpcTemplate (activeBlockTemplates : ActiveTemplates) (rpcTemplate : Input Active)
    (coin : String) (port : ℕ) :
    Input Active :=
  let template := {rpcTemplate with coin := coin, port := port}
  match settings.runtime.mm_port_set port with
  | none => template
  | some childPort =>
    match (settings.PORT2COIN childPort).bind activeBlockTemplates with
    | none => template
    | some childTemplate =>
      match childTemplate.template.buffer with
      | none => template
      | some buffer =>
        let parentBlob := settings.constructMMParentBlockBlob
          (fromHex (rpcTemplate.blocktemplate_blob.getD "")) port buffer
        {template with
          child_template := some childTemplate
          child_template_buffer := some buffer
          parent_blocktemplate_blob := (parentBlob.map bytesHex).or template.parent_blocktemplate_blob}

/-- No template that is held has a `parent_blocktemplate_blob`, so the equality of an id stops
only a template that is no merged parent. -/
def setNewBlockTemplate (runtime : Runtime Active) (activeBlockTemplates : ActiveTemplates) (template : Input Active) :
    ActiveTemplates :=
  if ((activeBlockTemplates template.coin).any fun previousTemplate =>
      some previousTemplate.template.idHash = template.idHash) ∧ template.parent_blocktemplate_blob = none then
    activeBlockTemplates
  else
    match newBlockTemplate runtime template with
    | .error _ => activeBlockTemplates
    | .ok candidate => Function.update activeBlockTemplates template.coin (some (.mk candidate))

/-- A message comes as JSON, where `NaN` is null: a template with such a difficulty is not taken. -/
def receive (runtime : Runtime Active) (activeBlockTemplates : ActiveTemplates) (message : Input Active) :
    ActiveTemplates :=
  if message.difficulty.isNone then activeBlockTemplates
  else setNewBlockTemplate runtime activeBlockTemplates message

structure Worker where
  instanceId : Bytes
  pearlHash : Input Active → Option String
  activeBlockTemplates : ActiveTemplates
  queue : List (Input Active)

def Worker.runtime (worker : Worker) : Runtime Active :=
  {settings.runtime with instanceId := worker.instanceId, pearlHash := worker.pearlHash}

structure Processes where
  master : ActiveTemplates
  workers : List Worker

def Processes.publish (template : Input Active) (pool : Processes) : Processes where
  master := setNewBlockTemplate settings.runtime pool.master template
  workers := pool.workers.map fun worker => {worker with queue := worker.queue ++ [template]}

def refreshParent (pool : Processes) (parentPort : ℕ) : Processes :=
  match settings.PORT2COIN parentPort with
  | none => pool
  | some parentCoin =>
    match pool.master parentCoin with
    | none => pool
    | some parentTemplate => pool.publish settings
      (processRpcTemplate settings pool.master (assigned parentTemplate.template) parentCoin parentPort)

def templateUpdate3 (coin : String) (port : ℕ) (bodyBt : Input Active) (pool : Processes) : Processes :=
  let template := processRpcTemplate settings pool.master bodyBt coin port
  (settings.mm_child_port_set port).foldl (refreshParent settings) (pool.publish settings template)

end Updates

section Pairs

/-- A parent and its child in the registry, each coin with its own port; the child is no parent of these two. -/
structure Pair (settings : Settings) where
  parentCoin : String
  parentPort : ℕ
  childCoin : String
  childPort : ℕ
  merged : settings.runtime.mm_port_set parentPort = some childPort
  parentNamed : ∀ port, settings.PORT2COIN port = some parentCoin ↔ port = parentPort
  childNamed : ∀ port, settings.PORT2COIN port = some childCoin ↔ port = childPort
  apart : parentCoin ≠ childCoin
  leaf : ∀ port, settings.runtime.mm_port_set childPort = some port → port ≠ parentPort ∧ port ≠ childPort

structure World where
  pool : Processes
  parent : Option Reply
  child : Option Reply

inductive Label where
  | parent (reply : Reply)
  | child (reply : Reply)
  | deliver (worker : ℕ)

def deliver (settings : Settings) (index : ℕ) (pool : Processes) : Option Processes := do
  let worker ← pool.workers[index]?
  match worker.queue with
  | [] => none
  | message::queue => some {pool with
      workers := pool.workers.set index {worker with
        activeBlockTemplates := receive (worker.runtime settings) worker.activeBlockTemplates message
        queue := queue}}

def mergedMining {settings : Settings} (pair : Pair settings) : Machine World Label where
  initial world := world.parent = none ∧ world.child = none ∧ (∀ coin, world.pool.master coin = none) ∧
    ∀ worker ∈ world.pool.workers, worker.queue = [] ∧ ∀ coin, worker.activeBlockTemplates coin = none
  step world
    | .parent reply => some {world with
        pool := templateUpdate3 settings pair.parentCoin pair.parentPort reply.template world.pool
        parent := some reply}
    | .child reply => some {world with
        pool := templateUpdate3 settings pair.childCoin pair.childPort reply.template world.pool
        child := some reply}
    | .deliver index => (deliver settings index world.pool).map fun pool => {world with pool := pool}

end Pairs
end NodejsPool.Pool.Merged
