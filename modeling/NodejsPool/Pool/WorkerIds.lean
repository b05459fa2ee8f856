import NodejsPool.Async.Machine
import NodejsPool.Common.Entries
import NodejsPool.Common.Hex

/-! Worker processes register in `pool_workers` and split the 16 bits of an extranonce: the low
bits hold the id of the worker, the high bits the id of a connection. -/
namespace NodejsPool.Pool.WorkerIds
open Async Entries Hex

structure Worker where
  uniqueWorkerId : ℕ
  uniqueWorkerIdBits : ℕ
  id_lt : uniqueWorkerId < 2 ^ uniqueWorkerIdBits
  bits_le : uniqueWorkerIdBits ≤ 16
  deriving DecidableEq

namespace Worker

variable (worker other : Worker)

def freeEthExtranonces : List ℕ := List.range (1 <<< (16 - worker.uniqueWorkerIdBits))

def extranonceNumber (id : ℕ) : ℕ := (id <<< worker.uniqueWorkerIdBits) + worker.uniqueWorkerId

def ethExtranonce (id : ℕ) : String := String.ofList (padHex (toHex (worker.extranonceNumber id)) 2)

def Apart : Prop :=
  worker.uniqueWorkerId % 2 ^ min worker.uniqueWorkerIdBits other.uniqueWorkerIdBits ≠
    other.uniqueWorkerId % 2 ^ min worker.uniqueWorkerIdBits other.uniqueWorkerIdBits

instance : Decidable (worker.Apart other) := inferInstanceAs (Decidable (_ ≠ _))

variable {worker other} {id : ℕ}

theorem mem_free : id ∈ worker.freeEthExtranonces ↔ id < 2 ^ (16 - worker.uniqueWorkerIdBits) := by
  rw [freeEthExtranonces,List.mem_range,Nat.one_shiftLeft]

theorem extranonceNumber_eq (id : ℕ) :
    worker.extranonceNumber id = id * 2 ^ worker.uniqueWorkerIdBits + worker.uniqueWorkerId := by
  rw [extranonceNumber,Nat.shiftLeft_eq]

theorem pow_split : 2 ^ (16 - worker.uniqueWorkerIdBits) * 2 ^ worker.uniqueWorkerIdBits = 65536 := by
  simp [← pow_add,Nat.sub_add_cancel worker.bits_le]

theorem extranonceNumber_lt (free : id ∈ worker.freeEthExtranonces) : worker.extranonceNumber id < 65536 := by
  have below : (id + 1) * 2 ^ worker.uniqueWorkerIdBits ≤ 65536 := by
    rw [← worker.pow_split]
    exact Nat.mul_le_mul_right _ (mem_free.mp free)
  have low := worker.id_lt
  rw [extranonceNumber_eq]
  rw [Nat.add_mul] at below
  omega

theorem ethExtranonce_number (free : id ∈ worker.freeEthExtranonces) :
    hexValue (worker.ethExtranonce id).toList = worker.extranonceNumber id := by
  rw [ethExtranonce,String.toList_ofList]
  exact hexValue_padHex (by decide) (extranonceNumber_lt free)

theorem ethExtranonce_length (id : ℕ) : (worker.ethExtranonce id).toList.length = 4 := by
  rw [ethExtranonce,String.toList_ofList,length_padHex]

theorem ethExtranonce_injective {first second : ℕ} (free : first ∈ worker.freeEthExtranonces)
    (free_other : second ∈ worker.freeEthExtranonces)
    (same : worker.ethExtranonce first = worker.ethExtranonce second) : first = second := by
  have numbers := congrArg (fun text => hexValue text.toList) same
  simp only [ethExtranonce_number free,ethExtranonce_number free_other,extranonceNumber_eq] at numbers
  exact Nat.eq_of_mul_eq_mul_right (Nat.two_pow_pos _) (Nat.add_right_cancel numbers)

theorem extranonceNumber_mod {bits : ℕ} (within : bits ≤ worker.uniqueWorkerIdBits) (id : ℕ) :
    worker.extranonceNumber id % 2 ^ bits = worker.uniqueWorkerId % 2 ^ bits := by
  obtain ⟨rest,split⟩ := Nat.exists_eq_add_of_le within
  rw [extranonceNumber_eq,split,pow_add,mul_left_comm,Nat.mul_add_mod]

theorem Apart.symm (apart : worker.Apart other) : other.Apart worker := by
  unfold Apart at apart ⊢
  rw [min_comm]
  exact apart.symm

theorem reaches (fewer : worker.uniqueWorkerIdBits ≤ other.uniqueWorkerIdBits) (met : ¬ worker.Apart other) :
    ∃ id ∈ worker.freeEthExtranonces, worker.ethExtranonce id = other.ethExtranonce 0 := by
  have low : other.uniqueWorkerId % 2 ^ worker.uniqueWorkerIdBits = worker.uniqueWorkerId := by
    have same := not_not.mp met
    rw [min_eq_left fewer,Nat.mod_eq_of_lt worker.id_lt] at same
    exact same.symm
  have small : other.uniqueWorkerId < 2 ^ (16 - worker.uniqueWorkerIdBits) * 2 ^ worker.uniqueWorkerIdBits := by
    rw [worker.pow_split]
    exact other.id_lt.trans_le (Nat.pow_le_pow_right (by decide) other.bits_le)
  refine ⟨other.uniqueWorkerId / 2 ^ worker.uniqueWorkerIdBits,mem_free.mpr ?_,?_⟩
  · exact Nat.div_lt_of_lt_mul ((Nat.mul_comm _ _).symm ▸ small)
  · have first : other.extranonceNumber 0 = other.uniqueWorkerId := by simp [extranonceNumber]
    have reached : worker.extranonceNumber (other.uniqueWorkerId / 2 ^ worker.uniqueWorkerIdBits) =
        other.uniqueWorkerId := by
      rw [extranonceNumber_eq]
      conv_rhs => rw [← Nat.div_add_mod' other.uniqueWorkerId (2 ^ worker.uniqueWorkerIdBits),low]
    rw [ethExtranonce,ethExtranonce,first,reached]

def Disjoint (worker other : Worker) : Prop :=
  ∀ first ∈ worker.freeEthExtranonces, ∀ second ∈ other.freeEthExtranonces,
    worker.ethExtranonce first ≠ other.ethExtranonce second

theorem Disjoint.symm (disjoint : worker.Disjoint other) : other.Disjoint worker :=
  fun first free second free_other same => disjoint second free_other first free same.symm

theorem zero_free : 0 ∈ worker.freeEthExtranonces := mem_free.mpr (Nat.two_pow_pos _)

theorem disjoint_iff : worker.Disjoint other ↔ worker.Apart other := by
  constructor
  · intro disjoint
    by_contra met
    rcases Nat.le_total worker.uniqueWorkerIdBits other.uniqueWorkerIdBits with fewer | fewer
    · obtain ⟨id,free,same⟩ := reaches fewer met
      exact disjoint id free 0 zero_free same
    · obtain ⟨id,free,same⟩ := reaches fewer (fun apart => met apart.symm)
      exact disjoint 0 zero_free id free same.symm
  · intro apart first free second free_other same
    have numbers := congrArg (fun text => hexValue text.toList) same
    simp only [ethExtranonce_number free,ethExtranonce_number free_other] at numbers
    have residues := congrArg (· % 2 ^ min worker.uniqueWorkerIdBits other.uniqueWorkerIdBits) numbers
    simp only [extranonceNumber_mod (Nat.min_le_left _ _),extranonceNumber_mod (Nat.min_le_right _ _)] at residues
    exact apart residues

end Worker

/-- `global.config.max_pool_worker_num || maxId`. -/
def workerCapacity (maxPoolWorkerNum : ℤ) (maxId : ℕ) : ℤ := if maxPoolWorkerNum = 0 then maxId else maxPoolWorkerNum

def startWorker (id maxId : ℕ) (within : id ≤ maxId) (fits : maxId < 65536) : Worker where
  uniqueWorkerId := id
  uniqueWorkerIdBits := Nat.size maxId
  id_lt := within.trans_lt (Nat.lt_size_self maxId)
  bits_le := Nat.size_le.mpr fits

/-- The worker that starts from its row and the largest id, unless the table is invalid. -/
def getUniqueWorkerID (maxPoolWorkerNum : ℤ) (id maxId : ℕ) : Option Worker :=
  if valid : 1 ≤ id ∧ id ≤ maxId ∧ maxId ≤ workerCapacity maxPoolWorkerNum maxId ∧
    workerCapacity maxPoolWorkerNum maxId ≤ 65536 then
    some (startWorker (id - 1) ((workerCapacity maxPoolWorkerNum maxId).toNat - 1) (by omega) (by omega))
  else none

/-- How far a worker process has come: its row is looked up, inserted, or found before `MAX(id)` is read. -/
inductive Phase
  | looking
  | inserting
  | found (id : ℕ)
  | running (worker : Worker)
  deriving DecidableEq

def Phase.worker? : Phase → Option Worker
  | .running worker => some worker
  | _ => none

/-- Rows and processes go by `pool_id` and `worker_id`. -/
structure World where
  poolWorkers : List ((ℕ × ℕ) × ℕ)
  processes : List ((ℕ × ℕ) × Phase)
  deriving DecidableEq

namespace World

def running (world : World) (key : ℕ × ℕ) : Option Worker := (get world.processes key).bind Phase.worker?

def maxId (world : World) : ℕ := (world.poolWorkers.map Prod.snd).foldl max 0

def advance (world : World) (key : ℕ × ℕ) (phase : Phase) : World :=
  { world with processes := put world.processes key phase }

def exit (world : World) (key : ℕ × ℕ) : World := { world with processes := erase world.processes key }

end World

inductive Label where
  | fork (key : ℕ × ℕ)
  | exit (key : ℕ × ℕ)
  | selectId (key : ℕ × ℕ)
  | insert (key : ℕ × ℕ) (id : ℕ)
  | selectMaxId (key : ℕ × ℕ)

/-- The worker that a process would start if it read `MAX(id)` now. -/
def starting (maxPoolWorkerNum : ℤ) (world : World) (key : ℕ × ℕ) : Option Worker :=
  match get world.processes key with
  | some (.found id) => getUniqueWorkerID maxPoolWorkerNum id world.maxId
  | _ => none

def step (maxPoolWorkerNum : ℤ) (world : World) : Label → Option World
  | .fork key => if (get world.processes key).isNone then some (world.advance key .looking) else none
  | .exit key => some (world.exit key)
  | .selectId key =>
    if get world.processes key = some .looking then
      some (world.advance key ((get world.poolWorkers key).elim .inserting .found))
    else none
  | .insert key id =>
    if get world.processes key = some .inserting then
      if (get world.poolWorkers key).isSome then some (world.advance key .looking)
      else if 0 < id ∧ id ∉ world.poolWorkers.map Prod.snd then
        some ({ world with poolWorkers := put world.poolWorkers key id }.advance key .looking)
      else none
    else none
  | .selectMaxId key =>
    match get world.processes key with
    | some (.found _) =>
      match starting maxPoolWorkerNum world key with
      | some worker => some (world.advance key (.running worker))
      | none => some (world.exit key)
    | _ => none

def registration (maxPoolWorkerNum : ℤ) : Machine World Label where
  initial world := world = ⟨[],[]⟩
  step := step maxPoolWorkerNum

def RangesDisjoint (world : World) : Prop :=
  ∀ key other worker neighbor, key ≠ other → world.running key = some worker → world.running other = some neighbor →
    worker.Disjoint neighbor

/-- A worker that starts differs, in the low bits that both keep for ids, from every other that runs. -/
def StartsApart (maxPoolWorkerNum : ℤ) (world : World) : Label → Prop
  | .selectMaxId key => ∀ worker ∈ starting maxPoolWorkerNum world key, ∀ process ∈ world.processes, process.1 ≠ key →
      ∀ neighbor ∈ process.2.worker?, worker.Apart neighbor
  | _ => True

instance (maxPoolWorkerNum : ℤ) (world : World) (key : ℕ × ℕ) :
    Decidable (StartsApart maxPoolWorkerNum world (.selectMaxId key)) :=
  inferInstanceAs (Decidable (∀ worker ∈ starting maxPoolWorkerNum world key, ∀ process ∈ world.processes,
    process.1 ≠ key →
    ∀ neighbor ∈ process.2.worker?, worker.Apart neighbor))

end NodejsPool.Pool.WorkerIds
