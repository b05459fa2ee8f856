import NodejsPool.Payments.Refinement

/-! Which transfers are issued: a batch is claimed once, by the process that then sends
its one transfer, and it never comes back before the submit boundary. -/
namespace NodejsPool.Payments
open Async List

def Crossed (status : Status) : Prop := status ≠ .reserved ∧ status ≠ .retrying

/-- Every claim belongs to a batch past the boundary, every transfer to a claim, and a
process that has just claimed is the one that may still send. -/
structure Tokens (shared : Shared) (pasts : List (Past Job signature)) : Prop where
  claimed : (shared.claims.map Prod.fst).Nodup
  crossed : ∀ id ∈ shared.claims.map Prod.fst, ∃ batch ∈ shared.db.payment_batches, batch.id = id ∧ Crossed batch.status
  once : shared.issued.Nodup
  covered : ∀ id ∈ shared.issued, id ∈ shared.claims.map Prod.fst
  unsent : ∀ (index : ℕ) (past : Past Job signature), pasts[index]? = some past → ∀ id, JustClaimed past.history id →
    (id,index) ∈ shared.claims ∧ id ∉ shared.issued

section Edges

variable {before after : Status}

private theorem edge_crossed (edge : Edge before after) (crossed : Crossed before) : Crossed after := by
  unfold Crossed at crossed ⊢
  cases edge <;> simp_all

private theorem operatorEdge_crossed (edge : OperatorEdge before after) (crossed : Crossed before) : Crossed after := by
  unfold Crossed at crossed ⊢
  cases edge <;> simp_all

theorem edge_terminal (edge : Edge before after)
    (terminal : before ∈ [Status.finalized,.retryable,.manual_review]) : after = before := by
  cases edge <;> simp_all

def JobEdge : Job → Status → Status → Prop
  | .payments _ _ => Edge
  | .unlock _ => OperatorEdge

private theorem jobEdge_hold (job : Job) (status : Status) : JobEdge job status status := by
  cases job with
  | payments | unlock => exact .hold status

private theorem jobEdge_crossed (edge : JobEdge job before after) (crossed : Crossed before) : Crossed after := by
  cases job with
  | payments => exact edge_crossed edge crossed
  | unlock => exact operatorEdge_crossed edge crossed

private theorem jobStep_follows {db after : Db} (step : JobStep db job after) : Follows (JobEdge job) db after := by
  cases step with
  | payments step => exact runtime_follows step
  | unlock => exact unlock_follows _ _ _ _

variable {process : ℕ} {shared next : Shared} {job : Job} {log : Log} {call : Call} {outcome : signature.Outcome call}

theorem performed_follows (ledger : Ledger shared) (told : Told shared log)
    (allowed : (contractOf job).allowed log call)
    (performed : Performed process shared ⟨call,outcome⟩ next) : Follows (JobEdge job) shared.db next.db := by
  rcases performed_step ledger told allowed performed with same | step
  · rw [same]
    intro batch member
    exact ⟨batch,member,rfl,jobEdge_hold job _⟩
  · exact jobStep_follows step

end Edges

section Claims

variable {index : ℕ} {shared next : Shared} {pasts : List (Past Job signature)} {past : Past Job signature}
  {call : Call} {outcome : signature.Outcome call} {id : ℕ}

theorem crossed_extend {job : Job} {claims : List ℕ} (follows : Follows (JobEdge job) shared.db next.db)
    (crossed : ∀ id ∈ claims, ∃ batch ∈ shared.db.payment_batches, batch.id = id ∧ Crossed batch.status) :
    ∀ id ∈ claims, ∃ batch ∈ next.db.payment_batches, batch.id = id ∧ Crossed batch.status := by
  intro id member
  obtain ⟨batch,inside,rfl,gone⟩ := crossed id member
  obtain ⟨after,there,same,edge⟩ := follows batch inside
  exact ⟨after,there,same,jobEdge_crossed edge gone⟩

theorem justClaimed_event {log : Log} (claimed : JustClaimed (⟨call,outcome⟩::log) id) :
    ∃ fields guard, (⟨call,outcome⟩ : Event signature) = ⟨.updateBatch id fields guard,.ok true⟩ ∧
      fields.status = some .submitting := by
  obtain ⟨fields,guard,rest,same,status⟩ := claimed
  exact ⟨fields,guard,(cons.inj same).1,status⟩

theorem tokens_quiet (tokens : Tokens shared pasts) (claims : next.claims = shared.claims)
    (issued : next.issued = shared.issued)
    (crossed : ∀ id ∈ shared.claims.map Prod.fst, ∃ batch ∈ next.db.payment_batches, batch.id = id ∧
      Crossed batch.status)
    (unclaimed : ∀ id, ¬JustClaimed (⟨call,outcome⟩::past.history) id) :
    Tokens next (pasts.set index (System.Past.add past call outcome)) := by
  refine ⟨claims ▸ tokens.claimed,claims ▸ crossed,issued ▸ tokens.once,?_,?_⟩
  · rw [claims,issued]
    exact tokens.covered
  · intro other found there id claimed
    rw [claims,issued]
    rw [getElem?_set] at there
    split at there
    · split at there
      · cases there
        exact (unclaimed id claimed).elim
      · cases there
    · exact tokens.unsent other found there id claimed

theorem tokens_transfer (tokens : Tokens shared pasts) (found : pasts[index]? = some past)
    {destinations : List (ℤ × String)} {outcome : signature.Outcome (.wallet (.transfer id destinations))}
    (claimed : JustClaimed past.history id) : Tokens {shared with issued := shared.issued ++ [id]}
      (pasts.set index (System.Past.add past (.wallet (.transfer id destinations)) outcome)) := by
  obtain ⟨own,unsent⟩ := tokens.unsent index past found id claimed
  refine ⟨tokens.claimed,tokens.crossed,?_,?_,?_⟩
  · refine nodup_append.mpr ⟨tokens.once,by simp,?_⟩
    intro other member last same equal
    exact unsent (mem_singleton.mp same ▸ equal ▸ member)
  · intro other member
    rcases mem_append.mp member with old | new
    · exact tokens.covered other old
    · rw [mem_singleton.mp new]
      exact mem_map_of_mem own
  · intro other process there batch just
    rw [getElem?_set] at there
    split at there
    · split at there
      · cases there
        obtain ⟨fields,guard,same,_⟩ := justClaimed_event just
        cases (Event.mk.inj same).1
      · cases there
    next elsewhere =>
      obtain ⟨theirs,waiting⟩ := tokens.unsent other process there batch just
      refine ⟨theirs,?_⟩
      intro sent
      rcases mem_append.mp sent with old | new
      · exact waiting old
      · obtain rfl := mem_singleton.mp new
        exact elsewhere (Prod.mk.inj (inj_on_of_nodup_map tokens.claimed own theirs rfl)).2

section

variable (ledger : Ledger shared)
  (tokens : Tokens shared pasts)
  {affectedRows : ℕ}
  {fields : Fields}
  {guard : Guard}
  {db : Db}
include ledger tokens

private theorem claim_fresh (updated : updateBatches id fields guard shared.db = .ok (affectedRows,db))
    (allowed : settling past.history (.updateBatch id fields guard)) (submitting : fields.status = some .submitting)
    (hit : affectedRows = 1) : id ∉ shared.claims.map Prod.fst ∧
      ∃ batch ∈ db.payment_batches, batch.id = id ∧ Crossed batch.status := by
  obtain ⟨count,rfl,_⟩ := updateBatches_ok updated
  obtain ⟨expected,one,updates⟩ := allowed
  obtain ⟨batch,member,rfl,admits⟩ := setBatch_hit count (by omega)
  have before : batch.status = .reserved ∨ batch.status = .retrying := by
    rw [admits_single one admits]
    cases updates.permitted with
    | keep keeps =>
      rw [keeps.status] at submitting
      cases submitting
    | retry before status | claim before => exact before
    | submit after status | review after status =>
      rw [status] at submitting
      cases submitting
  refine ⟨?_,_,mem_map_of_mem member,touch_id ..,?_⟩
  · intro claimed
    obtain ⟨other,inside,same,crossed⟩ := tokens.crossed _ claimed
    rw [batch_eq ledger.keys inside member same] at crossed
    rcases before with status | status
    · exact crossed.1 status
    · exact crossed.2 status
  · rw [touch,if_pos ⟨rfl,admits⟩]
    simp [Batch.assign,submitting,Crossed]

private theorem tokens_claim {outcome : Except Failure Bool}
    (updated : updateBatches id fields guard shared.db = .ok (affectedRows,db))
    (acknowledged : ∀ reply, outcome = .ok reply → reply = decide (affectedRows = 1))
    (allowed : settling past.history (.updateBatch id fields guard))
    (crossed : ∀ id ∈ shared.claims.map Prod.fst, ∃ batch ∈ db.payment_batches, batch.id = id ∧ Crossed batch.status) :
    Tokens {shared with db := db, claims := shared.claimed index id fields affectedRows}
      (pasts.set index (System.Past.add past (.updateBatch id fields guard) outcome)) := by
  by_cases claim : fields.status = some .submitting ∧ affectedRows = 1
  · obtain ⟨fresh,batch,inside,same,gone⟩ := claim_fresh ledger tokens updated allowed claim.1 claim.2
    rw [Shared.claimed,if_pos claim]
    refine ⟨?_,?_,tokens.once,?_,?_⟩
    · rw [map_append,nodup_append]
      refine ⟨tokens.claimed,by simp,?_⟩
      intro other member last new equal
      obtain rfl : last = id := mem_singleton.mp new
      exact fresh (equal ▸ member)
    · intro other member
      rw [map_append] at member
      rcases mem_append.mp member with old | new
      · exact crossed other old
      · rw [mem_singleton.mp new]
        exact ⟨batch,inside,same,gone⟩
    · intro other sent
      rw [map_append]
      exact mem_append_left _ (tokens.covered other sent)
    · intro other process there batch just
      rw [getElem?_set] at there
      split at there
      next here =>
        subst here
        split at there
        · cases there
          obtain ⟨fields',guard',event,_⟩ := justClaimed_event just
          obtain rfl : id = batch := (Call.updateBatch.inj (Event.mk.inj event).1).1
          exact ⟨mem_append_right _ (mem_singleton_self _),fun sent => fresh (tokens.covered _ sent)⟩
        · cases there
      · obtain ⟨theirs,unsent⟩ := tokens.unsent other process there batch just
        exact ⟨mem_append_left _ theirs,unsent⟩
  · apply tokens_quiet tokens
    · exact if_neg claim
    · rfl
    · exact crossed
    · intro other just
      obtain ⟨fields',guard',event,submitting⟩ := justClaimed_event just
      obtain ⟨same,reply⟩ := Event.mk.inj event
      obtain ⟨rfl,rfl,rfl⟩ := Call.updateBatch.inj same
      have won := acknowledged true (eq_of_heq reply)
      exact claim ⟨submitting,of_decide_eq_true won.symm⟩

end

theorem performed_tokens (inv : Inv shared pasts) (tokens : Tokens shared pasts) (found : pasts[index]? = some past)
    (allowed : (contractOf past.job).allowed past.history call)
    (performed : Performed index shared ⟨call,outcome⟩ next) :
    Tokens next (pasts.set index (System.Past.add past call outcome)) := by
  have told := inv.told past (mem_of_getElem? found)
  have crossed := crossed_extend (performed_follows inv.ledger told allowed performed) tokens.crossed
  have unclaimed (other : ∀ id fields guard, call ≠ .updateBatch id fields guard) (id : ℕ) :
      ¬JustClaimed (⟨call,outcome⟩::past.history) id := by
    intro just
    obtain ⟨fields,guard,event,_⟩ := justClaimed_event just
    exact other id fields guard (Event.mk.inj event).1
  cases performed with
  | silent memory lastPaymentCycle silent =>
    refine tokens_quiet tokens rfl rfl crossed ?_
    intro id just
    obtain ⟨fields,guard,event,_⟩ := justClaimed_event just
    rw [event] at silent
    exact silent
  | transfer =>
    cases job : past.job with
    | unlock =>
      rw [job] at allowed
      exact allowed.elim
    | payments =>
      rw [job] at allowed
      exact tokens_transfer tokens found allowed
  | update updated acknowledged =>
    cases job : past.job with
    | unlock =>
      rw [job] at allowed
      exact allowed.elim
    | payments =>
      rw [job] at allowed
      exact tokens_claim inv.ledger tokens updated acknowledged allowed crossed
  | reserve | finalize | release | unlock | getLock | releaseLock =>
    exact tokens_quiet tokens rfl rfl crossed (unclaimed fun _ _ _ same => by cases same)

private theorem occurred_claims {occurrence : Occurrence} (occurred : occur occurrence shared = some next) :
    next.claims = shared.claims ∧ next.issued = shared.issued := by
  cases occurrence with
  | addBalance added =>
    simp only [occur] at occurred
    split at occurred
    · cases occurred
    · cases occurred
      exact ⟨rfl,rfl⟩
  | _ =>
    cases occurred
    exact ⟨rfl,rfl⟩

private theorem started_tokens (tokens : Tokens shared pasts) (job : Job) : Tokens shared (pasts ++ [⟨job,[]⟩]) := by
  refine ⟨tokens.claimed,tokens.crossed,tokens.once,tokens.covered,?_⟩
  intro index past found id just
  rw [getElem?_append] at found
  split at found
  · exact tokens.unsent index past found id just
  · have new := mem_of_getElem? found
    rw [mem_singleton.mp new] at just
    obtain ⟨_,_,rest,same,_⟩ := just
    cases same

theorem transferRule : System.Extension system Fresh contractOf Inv Tokens := by
  constructor
  · intro shared fresh
    refine ⟨?_,?_,?_,?_,?_⟩
    · rw [fresh.claims]
      exact nodup_nil
    · intro id member
      rw [fresh.claims] at member
      cases member
    · rw [fresh.issued]
      exact nodup_nil
    · intro id member
      rw [fresh.issued] at member
      cases member
    · intro index past found
      cases found
  · intro shared pasts job tokens
    exact started_tokens tokens job
  · intro shared pasts index past call answer outcome next inv tokens found allowed answered
    exact performed_tokens inv tokens found allowed (performed answered)
  · intro shared pasts occurrence next inv tokens occurred
    obtain ⟨claims,issued⟩ := occurred_claims occurred
    have batches := (occurred_tables occurred).1
    refine ⟨claims ▸ tokens.claimed,?_,issued ▸ tokens.once,?_,?_⟩
    · rw [claims,batches]
      exact tokens.crossed
    · rw [claims,issued]
      exact tokens.covered
    · rw [claims,issued]
      exact tokens.unsent

end Claims

section Lifecycle

variable {after world : system.World}

def Documented (world : system.World) : system.Label → Status → Status → Prop
  | .act process _ => match world.processes[process]? with
    | some process => JobEdge process.past.job
    | none => Eq
  | _ => Eq

theorem follows_eq {db after : Db} (same : after.payment_batches = db.payment_batches) : Follows Eq db after := by
  intro batch member
  exact ⟨batch,same ▸ member,rfl,rfl⟩

section

variable (reachable : (system.machine Fresh).Reachable world)
include reachable

theorem act_follows {index : ℕ} {answer : Answer} (moved : system.act world index answer = some after) :
    ∃ process, world.processes[index]? = some process ∧
      Follows (JobEdge process.past.job) world.shared.db after.shared.db := by
  obtain ⟨process,call,next,outcome,shared,found,rest,answered,rfl⟩ := System.act_some moved
  have lawful := rule.lawful reachable
  have inside := mem_of_getElem? found
  have allowed := (lawful.meets process inside _ rest).1
  have told := lawful.invariant.told process.past (mem_map_of_mem inside)
  exact ⟨process,found,performed_follows lawful.invariant.ledger told allowed (performed answered)⟩

private theorem step_documented {label : system.Label} (moved : (system.machine Fresh).step world label = some after) :
    Follows (Documented world label) world.shared.db after.shared.db := by
  cases label with
  | start job =>
    cases moved
    exact follows_eq rfl
  | act index answer =>
    obtain ⟨process,found,follows⟩ := act_follows reachable moved
    simpa only [Documented,found] using follows
  | crash index =>
    obtain ⟨process,_,moved⟩ := Option.bind_eq_some_iff.mp moved
    cases moved
    exact follows_eq rfl
  | occur occurrence =>
    obtain ⟨shared,occurred,rfl⟩ := Option.map_eq_some_iff.mp moved
    exact follows_eq (occurred_tables occurred).1

theorem tokens_reachable : Inv world.shared world.pasts ∧ Tokens world.shared world.pasts :=
  ((rule.extend transferRule).lawful reachable).invariant

end

/-- Under any interleaving, crash and restart: every status change is an edge of the
documented graph, a runtime never leaves a terminal state, the columns of a batch agree with
its status, and no transfer was issued for a batch before the submit boundary. -/
theorem batch_lifecycle {world : system.World} (reachable : (system.machine Fresh).Reachable world) :
    (∀ label after, (system.machine Fresh).step world label = some after →
      Follows (Documented world label) world.shared.db after.shared.db) ∧
    (∀ (index : ℕ) answer after process config cycles, world.processes[index]? = some process →
      process.past.job = .payments config cycles → (system.machine Fresh).step world (.act index answer) = some after →
      ∀ batch ∈ world.shared.db.payment_batches, batch.status ∈ [Status.finalized,.retryable,.manual_review] →
        ∃ next ∈ after.shared.db.payment_batches, next.id = batch.id ∧ next.status = batch.status) ∧
    ∀ batch ∈ world.shared.db.payment_batches,
      (batch.status = .submitting ∨ batch.status = .submitted → batch.submit_started_at ≠ none) ∧
      (batch.status = .submitted ∨ batch.status = .finalized → batch.tx_hash ≠ none) ∧
      (batch.status = .reserved ∨ batch.status = .retrying → batch.id ∉ world.shared.issued) := by
  obtain ⟨inv,tokens⟩ := tokens_reachable reachable
  refine ⟨fun label after moved => step_documented reachable moved,?_,?_⟩
  · intro index answer after process config cycles found job moved batch member terminal
    obtain ⟨other,found',follows⟩ := act_follows reachable moved
    cases found.symm.trans found'
    rw [job] at follows
    obtain ⟨next,there,same,edge⟩ := follows batch member
    exact ⟨next,there,same,edge_terminal edge terminal⟩
  · intro batch member
    have sound := inv.ledger.rows batch member
    refine ⟨sound.started,sound.hashed,?_⟩
    intro before sent
    obtain ⟨other,inside,same,crossed⟩ := tokens.crossed _ (tokens.covered _ sent)
    rw [batch_eq inv.ledger.keys inside member same] at crossed
    rcases before with status | status
    · exact crossed.1 status
    · exact crossed.2 status

theorem batch_lifecycle_claimed : ∃ world, (system.machine Fresh).run ⟨sampleStart,[]⟩ claimedLabels = some world ∧
    ∃ batch ∈ world.shared.db.payment_batches, batch.status = .submitting ∧ batch.submit_started_at ≠ none := by
  have ended : ((system.machine Fresh).run ⟨sampleStart,[]⟩ claimedLabels).any (fun world =>
      world.shared.db.payment_batches.any fun batch => batch.status = .submitting) = true := by
    decide +kernel
  obtain ⟨world,ran,facts⟩ := (Option.any_eq_true _ _).mp ended
  obtain ⟨batch,member,status⟩ := List.any_eq_true.mp facts
  have submitting := of_decide_eq_true status
  exact ⟨world,ran,batch,member,submitting,
    ((batch_lifecycle (sample_reachable ran)).2.2 batch member).1 (.inl submitting)⟩

end Lifecycle

section Transfers

variable {world : system.World} {id : ℕ}

def issuing (world : system.World) (index : ℕ) : Option ℕ :=
  match world.processes[index]? with
  | some ⟨_,some (.call (.wallet (.transfer id _)) _)⟩ => some id
  | _ => none

private theorem issuing_call {index : ℕ} (issues : issuing world index = some id) :
    ∃ process destinations next, world.processes[index]? = some process ∧
      process.rest = some (.call (.wallet (.transfer id destinations)) next) := by
  unfold issuing at issues
  split at issues
  next past other destinations next found =>
    cases issues
    exact ⟨_,destinations,next,found,rfl⟩
  · cases issues

def Concluded (db : Db) (id : ℕ) : Prop :=
  ∃ batch ∈ db.payment_batches, batch.id = id ∧ (batch.status = .finalized ∨ batch.status = .retryable)

instance (db : Db) (id : ℕ) : Decidable (Concluded db id) :=
  inferInstanceAs (Decidable (∃ batch ∈ db.payment_batches, batch.id = id ∧
    (batch.status = .finalized ∨ batch.status = .retryable)))

def ShareRow (db : Db) (left right : ℕ) : Prop := ∃ row, HasItem db left row ∧ HasItem db right row

/-- While a batch that has issued its transfer is not concluded, no batch that shares a
balance row with it issues one. -/
def Exclusive (world : system.World) : Prop :=
  ∀ index id, issuing world index = some id → ∀ other ∈ world.shared.issued, other ≠ id →
    ShareRow world.shared.db other id → Concluded world.shared.db other

theorem open_or_concluded {db : Db} (crossed : ∃ batch ∈ db.payment_batches, batch.id = id ∧ Crossed batch.status) :
    OpenIn db id ∨ Concluded db id := by
  obtain ⟨batch,member,same,away⟩ := crossed
  cases status : batch.status with
  | finalized => exact .inr ⟨batch,member,same,.inl status⟩
  | retryable => exact .inr ⟨batch,member,same,.inr status⟩
  | _ => exact .inl ⟨batch,member,same,by simp [status,openStatuses]⟩

private theorem issuing_token (reachable : (system.machine Fresh).Reachable world) {index : ℕ}
    (issues : issuing world index = some id) : (id,index) ∈ world.shared.claims ∧ id ∉ world.shared.issued := by
  obtain ⟨process,destinations,next,found,rest⟩ := issuing_call issues
  have lawful := (rule.extend transferRule).lawful reachable
  have allowed := (lawful.meets process (mem_of_getElem? found) _ rest).1
  have claimed : JustClaimed process.past.history id := by
    cases job : process.past.job with
    | unlock =>
      rw [job] at allowed
      exact allowed.elim
    | payments =>
      rw [job] at allowed
      exact allowed
  have past : world.pasts[index]? = some process.past := by rw [System.getElem?_pasts,found]; rfl
  exact lawful.invariant.2.unsent index process.past past id claimed

/-- A batch issues at most one transfer. While one that has issued it is neither finalized nor
released, a batch that shares a balance row with it issues one only if it was itself closed since
its claim. -/
theorem transfer_once {world : system.World} (reachable : (system.machine Fresh).Reachable world) :
    world.shared.issued.Nodup ∧
    (∀ index id, issuing world index = some id → id ∉ world.shared.issued) ∧
    ∀ index id, issuing world index = some id → ∀ other ∈ world.shared.issued,
      ShareRow world.shared.db other id → Concluded world.shared.db other ∨ Concluded world.shared.db id := by
  obtain ⟨inv,tokens⟩ := tokens_reachable reachable
  refine ⟨tokens.once,fun index id issues => (issuing_token reachable issues).2,?_⟩
  intro index id issues other sent shares
  obtain ⟨claimed,unsent⟩ := issuing_token reachable issues
  rcases open_or_concluded (tokens.crossed other (tokens.covered other sent)) with other_open | concluded
  · rcases open_or_concluded (tokens.crossed id (List.mem_map_of_mem claimed)) with id_open | concluded
    · obtain ⟨row,other_item,id_item⟩ := shares
      obtain ⟨item,inside,_,rfl⟩ := id_item
      obtain ⟨balance,member,same⟩ := inv.ledger.keys.itemBalance item inside
      rw [← same] at other_item
      have equal := inv.ledger.pointers.disjoint member other_item other_open ⟨item,inside,‹_›,same.symm⟩ id_open
      exact (unsent (equal ▸ sent)).elim
    · exact .inr concluded
  · exact .inl concluded

def unlockAnswers : List Answer :=
  replies 5 ++ [.wallet (resultReply [("height",.num 100)]),.wallet (resultReply []),.time 9000,.fate {},.reply]

/-- A first runtime stands between its claim and its transfer when it loses the lock and
the operator unlocks its batch; a second one pays the same balance. -/
def staleLabels : List system.Label :=
  claimedLabels ++ [.occur .dropLock,.start (.unlock ⟨1,true,true⟩)] ++ acts 1 unlockAnswers ++
    [.start (.payments sampleConfig 1)] ++ acts 2 (planAnswers ++ claimAnswers ++ [.wallet (.error "timeout")])

theorem stale_run : ∃ world, (system.machine Fresh).run ⟨sampleStart,[]⟩ staleLabels = some world ∧
    issuing world 0 = some 1 ∧ 2 ∈ world.shared.issued ∧ ShareRow world.shared.db 2 1 ∧
      ¬Concluded world.shared.db 2 := by
  have ended : ((system.machine Fresh).run ⟨sampleStart,[]⟩ staleLabels).any (fun world =>
      issuing world 0 = some 1 ∧ 2 ∈ world.shared.issued ∧ HasItem world.shared.db 2 1 ∧ HasItem world.shared.db 1 1 ∧
        ¬Concluded world.shared.db 2) = true := by
    decide +kernel
  obtain ⟨world,ran,facts⟩ := (Option.any_eq_true _ _).mp ended
  obtain ⟨issues,sent,other_item,own_item,unsettled⟩ := of_decide_eq_true facts
  exact ⟨world,ran,issues,sent,⟨1,other_item,own_item⟩,unsettled⟩

theorem stale_claim_not_exclusive : ¬∀ world : system.World, (system.machine Fresh).Reachable world →
    Exclusive world := by
  intro exclusive
  obtain ⟨world,ran,issues,sent,shares,unsettled⟩ := stale_run
  exact unsettled (exclusive world (sample_reachable ran) 0 1 issues 2 sent (by decide) shares)

theorem transfer_once_stale : ∃ world, (system.machine Fresh).run ⟨sampleStart,[]⟩ staleLabels = some world ∧
    issuing world 0 = some 1 ∧ 1 ∉ world.shared.issued ∧ Concluded world.shared.db 1 := by
  obtain ⟨world,ran,issues,sent,shares,unsettled⟩ := stale_run
  obtain ⟨_,once,shared⟩ := transfer_once (sample_reachable ran)
  exact ⟨world,ran,issues,once 0 1 issues,(shared 0 1 issues 2 sent shares).resolve_left unsettled⟩

end Transfers
end NodejsPool.Payments
