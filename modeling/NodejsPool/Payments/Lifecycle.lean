import NodejsPool.Payments.Reservation

/-! What a batch row of each status holds, the documented status graph, and that the
ledger machine keeps to both. -/
namespace NodejsPool.Payments

structure RowSound (batch : Batch) : Prop where
  before : batch.status = .reserved ∨ batch.status = .retrying → batch.submit_started_at = none
  started : batch.status = .submitting ∨ batch.status = .submitted → batch.submit_started_at ≠ none
  hashed : batch.status = .submitted ∨ batch.status = .finalized → batch.tx_hash ≠ none
  canonical : ∀ hash, batch.tx_hash = some hash → Canonical hash

def Rows (db : Db) : Prop := ∀ batch ∈ db.payment_batches, RowSound batch

def Hashes (db : Db) : Prop :=
  ∀ left ∈ db.payment_batches, ∀ right ∈ db.payment_batches, ∀ hash,
    left.tx_hash = some hash → right.tx_hash = some hash → left.id = right.id

inductive Edge : Status → Status → Prop
  | hold (status : Status) : Edge status status
  | retry : Edge .reserved .retrying
  | release : Edge .reserved .retryable
  | claimReserved : Edge .reserved .submitting
  | claimRetrying : Edge .retrying .submitting
  | submit : Edge .submitting .submitted
  | finalize : Edge .submitted .finalized
  | reviewSubmitting : Edge .submitting .manual_review
  | reviewSubmitted : Edge .submitted .manual_review

inductive OperatorEdge : Status → Status → Prop
  | hold (status : Status) : OperatorEdge status status
  | reserved : OperatorEdge .reserved .retryable
  | retrying : OperatorEdge .retrying .retryable
  | submitting : OperatorEdge .submitting .retryable

def Follows (edge : Status → Status → Prop) (db after : Db) : Prop :=
  ∀ batch ∈ db.payment_batches, ∃ next ∈ after.payment_batches, next.id = batch.id ∧ edge batch.status next.status

section Steps

variable {fields : Fields} {batch : Batch} {db after : Db} {id : ℕ} {guard : Guard}

theorem permitted_row (sound : RowSound batch)
    (permitted : Permitted fields batch.status) : RowSound (batch.assign fields) := by
  cases permitted with
  | keep keeps =>
    have status : (batch.assign fields).status = batch.status := by simp [Batch.assign,keeps.status]
    have started : (batch.assign fields).submit_started_at = batch.submit_started_at := by
      simp [Batch.assign,keeps.submit_started_at]
    have hash : (batch.assign fields).tx_hash = batch.tx_hash := by simp [Batch.assign,keeps.tx_hash]
    constructor
    · rw [status,started]
      exact sound.before
    · rw [status,started]
      exact sound.started
    · rw [status,hash]
      exact sound.hashed
    · rw [hash]
      exact sound.canonical
  | retry _ status started hash =>
    constructor <;> simp [Batch.assign,status,started,hash]
  | claim _ status started hash =>
    constructor
    · simp [Batch.assign,status]
    · simp [Batch.assign,started]
    · simp [Batch.assign,status]
    · simpa [Batch.assign,hash] using sound.canonical
  | submit after status started hashed canonical =>
    constructor
    · simp [Batch.assign,status]
    · intro _
      have set := sound.started after
      simpa [Batch.assign,started] using set
    · simp [Batch.assign,hashed]
    · intro hash same
      obtain rfl := Option.some.inj ((by simpa [Batch.assign,hashed] using same : some _ = some hash))
      exact canonical
  | review after status started hashed =>
    constructor
    · simp [Batch.assign,status]
    · simp [Batch.assign,status]
    · simp [Batch.assign,status]
    · intro hash same
      cases assigned : fields.tx_hash with
      | none => exact sound.canonical hash (by simpa [Batch.assign,assigned] using same)
      | some value =>
        obtain ⟨text,rfl,canonical⟩ := hashed value assigned
        obtain rfl : text = hash := by simpa [Batch.assign,assigned] using same
        exact canonical

theorem permitted_edge (permitted : Permitted fields batch.status) :
    Edge batch.status (batch.assign fields).status := by
  cases permitted with
  | keep keeps =>
    have same : (batch.assign fields).status = batch.status := by simp [Batch.assign,keeps.status]
    rw [same]
    exact .hold _
  | retry before status =>
    have next : (batch.assign fields).status = .retrying := by simp [Batch.assign,status]
    rw [next]
    rcases before with same | same
    · rw [same]
      exact .retry
    · rw [same]
      exact .hold _
  | claim before status =>
    have next : (batch.assign fields).status = .submitting := by simp [Batch.assign,status]
    rw [next]
    rcases before with same | same
    · rw [same]
      exact .claimReserved
    · rw [same]
      exact .claimRetrying
  | submit after status =>
    have next : (batch.assign fields).status = .submitted := by simp [Batch.assign,status]
    rw [next]
    rcases after with same | same
    · rw [same]
      exact .submit
    · rw [same]
      exact .hold _
  | review after status =>
    have next : (batch.assign fields).status = .manual_review := by simp [Batch.assign,status]
    rw [next]
    rcases after with same | same
    · rw [same]
      exact .reviewSubmitting
    · rw [same]
      exact .reviewSubmitted

theorem mem_setBatch (member : batch ∈ (setBatch db id guard fields).payment_batches) :
    ∃ old ∈ db.payment_batches, batch.id = old.id ∧
      (batch = old ∨ (old.id = id ∧ guard.admits old = true ∧ batch = old.assign fields)) := by
  obtain ⟨old,inside,rfl⟩ := List.mem_map.mp member
  exact ⟨old,inside,touch_id ..,touch_cases ..⟩

private theorem rows_setBatch (rows : Rows db)
    (assigned : ∀ batch ∈ db.payment_batches, guard.admits batch = true → RowSound (batch.assign fields)) :
    Rows (setBatch db id guard fields) := by
  intro batch member
  obtain ⟨old,inside,_,rfl | ⟨_,admits,rfl⟩⟩ := mem_setBatch member
  · exact rows _ inside
  · exact assigned old inside admits

theorem follows_setBatch {edge : Status → Status → Prop} (hold : ∀ status, edge status status)
    (moved : ∀ batch ∈ db.payment_batches, guard.admits batch = true →
      edge batch.status (batch.assign fields).status) : Follows edge db (setBatch db id guard fields) := by
  intro batch member
  refine ⟨_,List.mem_map_of_mem member,touch_id ..,?_⟩
  rcases touch_cases id guard fields batch with same | ⟨_,admits,assigned⟩
  · rw [same]
    exact hold _
  · rw [assigned]
    exact moved batch member admits

private theorem released_rowSound (sound : RowSound batch)
    (status : fields.status = some .retryable) (hash : fields.tx_hash = none) : RowSound (batch.assign fields) := by
  constructor
  · simp [Batch.assign,status]
  · simp [Batch.assign,status]
  · simp [Batch.assign,status]
  · simpa [Batch.assign,hash] using sound.canonical

theorem step_rows (rows : Rows db) (step : LedgerStep db after) : Rows after := by
  cases step with
  | runtime step =>
    cases step with
    | update one permitted =>
      apply rows_setBatch rows
      intro batch member admits
      exact permitted_row (rows batch member) (admits_single one admits ▸ permitted)
    | reserve =>
      intro batch member
      rcases List.mem_append.mp member with old | new
      · exact rows batch old
      · obtain rfl := List.mem_singleton.mp new
        constructor <;> simp [reservedBatch]
    | @finalize batch items hash _ _ _ canonical =>
      have ledger : Rows (afterLedger batch items hash db) := rows
      apply rows_setBatch ledger
      intro batch member admits
      constructor
      · simp [Batch.assign,finalizeFields]
      · simp [Batch.assign,finalizeFields]
      · simp [Batch.assign,finalizeFields]
      · intro hash same
        obtain rfl := Option.some.inj (by simpa [Batch.assign,finalizeFields] using same : some _ = some hash)
        exact canonical
    | @release batch releasedAt =>
      have kept : Rows (setBatch db batch.id (releaseGuard batch.status) (releaseFields releasedAt)) :=
        rows_setBatch rows fun row member _ => released_rowSound (rows row member) rfl rfl
      exact kept
  | @unlock batchId _ _ =>
    have kept : Rows (released batchId db) := rows
    exact rows_setBatch kept fun batch member _ => released_rowSound (rows batch member) rfl rfl

theorem runtime_follows (step : RuntimeStep db after) : Follows Edge db after := by
  cases step with
  | update one permitted =>
    apply follows_setBatch .hold
    intro batch _ admits
    exact permitted_edge (admits_single one admits ▸ permitted)
  | reserve =>
    intro batch member
    exact ⟨batch,List.mem_append_left _ member,rfl,.hold _⟩
  | finalize submitted =>
    refine follows_setBatch .hold fun batch _ admits => ?_
    have status : batch.status = .submitted := (admits_single rfl admits).trans submitted
    rw [status]
    exact .finalize
  | @release batch releasedAt reserved =>
    have moved : Follows Edge db (setBatch db batch.id (releaseGuard batch.status) (releaseFields releasedAt)) := by
      apply follows_setBatch .hold
      intro row _ admits
      have status : row.status = .reserved := (admits_single rfl admits).trans reserved
      rw [status]
      exact .release
    exact moved

theorem unlock_follows (batchId releasedAt : ℕ) (confirm : Bool) (db : Db) :
    Follows OperatorEdge db (afterUnlock batchId confirm releasedAt db) := by
  intro batch member
  refine follows_setBatch .hold ?_ batch (show batch ∈ (released batchId db).payment_batches from member)
  intro batch _ admits
  have before : batch.status ∈ [Status.reserved,.retrying,.submitting] := by
    have member := admits_status admits
    cases confirm
    · exact List.mem_of_mem_take (show batch.status ∈ [Status.reserved,.retrying,.submitting].take 2 from member)
    · exact member
  change OperatorEdge batch.status .retryable
  rcases List.mem_cons.mp before with same | before
  · rw [same]
    exact .reserved
  · rcases List.mem_cons.mp before with same | before
    · rw [same]
      exact .retrying
    · rw [List.mem_singleton.mp before]
      exact .submitting

theorem hashes_setBatch (hashes : Hashes db) (free : ∀ hash, fields.tx_hash = some (some hash) → HashFree db id hash) :
    Hashes (setBatch db id guard fields) := by
  have origin (batch old : Batch) (hash : String) (same : batch.id = old.id)
      (either : batch = old ∨ (old.id = id ∧ guard.admits old = true ∧ batch = old.assign fields))
      (has : batch.tx_hash = some hash) :
      old.tx_hash = some hash ∨ (old.id = id ∧ fields.tx_hash = some (some hash)) := by
    rcases either with rfl | ⟨here,_,rfl⟩
    · exact .inl has
    · cases set : fields.tx_hash with
      | none => exact .inl (by simpa [Batch.assign,set] using has)
      | some value => exact .inr ⟨here,by simpa [Batch.assign,set] using has⟩
  intro left left_mem right right_mem hash left_hash right_hash
  obtain ⟨first,first_mem,first_id,first_case⟩ := mem_setBatch left_mem
  obtain ⟨second,second_mem,second_id,second_case⟩ := mem_setBatch right_mem
  rw [first_id,second_id]
  rcases origin left first hash first_id first_case left_hash with old | ⟨here,set⟩
  · rcases origin right second hash second_id second_case right_hash with old' | ⟨here',set'⟩
    · exact hashes first first_mem second second_mem hash old old'
    · by_contra different
      exact free hash set' first first_mem (here' ▸ different) old
  · rcases origin right second hash second_id second_case right_hash with old' | ⟨here',_⟩
    · by_contra different
      exact free hash set second second_mem (fun same => different (here.trans same.symm)) old'
    · exact here.trans here'.symm

theorem step_hashes (hashes : Hashes db) (step : LedgerStep db after) : Hashes after := by
  cases step with
  | runtime step =>
    cases step with
    | update _ _ free => exact hashes_setBatch hashes free
    | @reserve plan =>
      have new (batch : Batch) (hash : String) (member : batch ∈ (afterReserve plan db).payment_batches)
          (has : batch.tx_hash = some hash) : batch ∈ db.payment_batches := by
        rcases List.mem_append.mp member with old | new
        · exact old
        · obtain rfl := List.mem_singleton.mp new
          cases has
      intro left left_mem right right_mem hash left_hash right_hash
      exact hashes left (new left hash left_mem left_hash) right (new right hash right_mem right_hash) hash
        left_hash right_hash
    | @finalize batch items hash _ _ _ _ _ _ finalizes =>
      have ledger : Hashes (afterLedger batch items hash db) := hashes
      apply hashes_setBatch ledger
      intro _ set other member different
      obtain rfl := Option.some.inj (Option.some.inj set)
      exact finalizes.free other member different
    | @release batch releasedAt =>
      have kept : Hashes (setBatch db batch.id (releaseGuard batch.status) (releaseFields releasedAt)) := by
        apply hashes_setBatch hashes
        intro hash set
        cases set
      exact kept
  | @unlock batchId _ _ =>
    have kept : Hashes (released batchId db) := hashes
    apply hashes_setBatch kept
    intro hash set
    cases set

end Steps
end NodejsPool.Payments
