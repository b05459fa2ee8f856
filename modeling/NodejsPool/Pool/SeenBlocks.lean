import NodejsPool.Pool.TemplatePolling

/-! A seen block is followed by a template for it, unless the last fetch or retry for a change is
given up while the recorded hash has none. -/
namespace NodejsPool.Pool.TemplatePolling
open Async

variable (settings : Settings) {world : World} {fetch : Fetch} {rawTemplate : Option RawTemplate}

def Fetch.forChange (fetch : Fetch) : Bool := fetch.isHashChange || fetch.isMMHashChange

def World.awaits (world : World) : Prop :=
  (∃ fetch ∈ world.fetches, fetch.forChange = true ∧ fetch.epoch = world.epoch) ∨
    ∃ fetch ∈ world.retries, fetch.forChange = true

def World.remembers (world : World) : Prop :=
  world.lastBlockHash = none ∨ world.handed = true ∨ world.awaits

structure SamePolling (before after : World) : Prop where
  lastBlockHash : after.lastBlockHash = before.lastBlockHash
  handed : after.handed = before.handed
  epoch : after.epoch = before.epoch
  fetches : after.fetches = before.fetches
  retries : after.retries = before.retries

theorem SamePolling.refl (world : World) : SamePolling world world := ⟨rfl,rfl,rfl,rfl,rfl⟩

theorem SamePolling.symm {before after : World} (same : SamePolling before after) : SamePolling after before :=
  ⟨same.lastBlockHash.symm,same.handed.symm,same.epoch.symm,same.fetches.symm,same.retries.symm⟩

theorem SamePolling.trans {before middle after : World} (first : SamePolling before middle)
    (second : SamePolling middle after) : SamePolling before after :=
  ⟨second.lastBlockHash.trans first.lastBlockHash,second.handed.trans first.handed,second.epoch.trans first.epoch,
    second.fetches.trans first.fetches,second.retries.trans first.retries⟩

theorem SamePolling.remembers {before after : World} (same : SamePolling before after) (remembers : before.remembers) :
    after.remembers := by
  unfold World.remembers World.awaits at remembers ⊢
  rw [same.lastBlockHash,same.handed,same.epoch,same.fetches,same.retries]
  exact remembers

theorem clearFactorFailure_same (world : World) (rpc : Rpc) : SamePolling world (clearFactorFailure world rpc) := by
  cases rpc <;> exact ⟨rfl,rfl,rfl,rfl,rfl⟩

theorem coinHashFactorUpdate_same (world : World) (factor : ℚ) :
    SamePolling world (coinHashFactorUpdate settings world factor) := by
  simp only [coinHashFactorUpdate]
  split_ifs <;> exact ⟨rfl,rfl,rfl,rfl,rfl⟩

theorem disableCoin_same (world : World) : SamePolling world (disableCoin settings world) := by
  have same := coinHashFactorUpdate_same settings { world with newCoinHashFactor := some 0 } 0
  exact ⟨same.lastBlockHash,same.handed,same.epoch,same.fetches,same.retries⟩

theorem handleDaemonRpcFailure_same (world : World) (rpc : Rpc) :
    SamePolling world (handleDaemonRpcFailure settings world rpc) := by
  unfold handleDaemonRpcFailure
  split_ifs
  · exact .refl world
  · cases rpc <;> exact ⟨rfl,rfl,rfl,rfl,rfl⟩
  · exact disableCoin_same settings world

theorem templateUpdate3_keeps (remembers : world.remembers) (fetch : Fetch) (taken : Bool) :
    (templateUpdate3 world fetch taken).remembers := by
  rcases remembers with unseen | handed | awaits
  · exact .inl unseen
  · exact .inr (.inl (by simp [templateUpdate3,handed]))
  · exact .inr (.inr awaits)

theorem templateUpdate3_answers (fetch : Fetch) (recent : fetch.epoch = world.epoch) (taken : Bool) :
    (templateUpdate3 world fetch taken).remembers :=
  .inr (.inl (by simp [templateUpdate3,recent]))

theorem templateUpdate2_keeps (remembers : world.remembers) (fetch : Fetch) (taken : Bool) :
    (templateUpdate2 settings world fetch taken).remembers := by
  simp only [templateUpdate2]
  split
  · exact templateUpdate3_keeps remembers _ taken
  · rcases remembers with unseen | handed | ⟨other,member,awaited⟩ | timers
    · exact .inl unseen
    · exact .inr (.inl handed)
    · exact .inr (.inr (.inl ⟨other,List.mem_append_left _ member,awaited⟩))
    · exact .inr (.inr (.inr timers))

theorem templateUpdate2_awaits (change : fetch.forChange = true) (taken : Bool) :
    (templateUpdate2 settings world fetch taken).remembers := by
  simp only [templateUpdate2]
  split
  · exact templateUpdate3_answers _ rfl taken
  · exact .inr (.inr (.inl ⟨_,List.mem_append_right _ (List.mem_singleton_self _),change,rfl⟩))

theorem retryTemplateFetch_cases (world : World) (fetch : Fetch) (daemonRpcFailure : Bool) :
    (fetch.timesFailed < 2 ∧ ∃ failed, SamePolling world failed ∧
      retryTemplateFetch settings world fetch daemonRpcFailure =
        { failed with retries := failed.retries ++ [{ fetch with timesFailed := fetch.timesFailed + 1 }] }) ∨
    (2 ≤ fetch.timesFailed ∧ SamePolling world (retryTemplateFetch settings world fetch daemonRpcFailure)) := by
  have failed : SamePolling world
      (if daemonRpcFailure then handleDaemonRpcFailure settings world .template else world) := by
    split
    · exact handleDaemonRpcFailure_same settings world .template
    · exact .refl world
  rcases Nat.lt_or_ge fetch.timesFailed 2 with early | late
  · have again : fetch.timesFailed + 1 ≤ 2 := early
    refine .inl ⟨early,_,failed,?_⟩
    simp only [retryTemplateFetch,if_pos again]
  · have spent : ¬fetch.timesFailed + 1 ≤ 2 := by omega
    refine .inr ⟨late,?_⟩
    simp only [retryTemplateFetch,if_neg spent]
    cases daemonRpcFailure with
    | true => exact failed
    | false => exact disableCoin_same settings world

private theorem retryTemplateFetch_keeps (remembers : world.remembers) (fetch : Fetch) (daemonRpcFailure : Bool) :
    (retryTemplateFetch settings world fetch daemonRpcFailure).remembers := by
  rcases retryTemplateFetch_cases settings world fetch daemonRpcFailure with ⟨_,failed,same,armed⟩ | ⟨_,same⟩
  · rw [armed]
    rcases same.remembers remembers with unseen | handed | fetches | ⟨other,member,awaited⟩
    · exact .inl unseen
    · exact .inr (.inl handed)
    · exact .inr (.inr (.inl fetches))
    · exact .inr (.inr (.inr ⟨other,List.mem_append_left _ member,awaited⟩))
  · exact same.remembers remembers

private theorem retryTemplateFetch_awaits (change : fetch.forChange = true) (early : fetch.timesFailed < 2)
    (daemonRpcFailure : Bool) : (retryTemplateFetch settings world fetch daemonRpcFailure).remembers := by
  rcases retryTemplateFetch_cases settings world fetch daemonRpcFailure with ⟨_,failed,_,armed⟩ | ⟨late,_⟩
  · rw [armed]
    exact .inr (.inr (.inr ⟨_,List.mem_append_right _ (List.mem_singleton_self _),change⟩))
  · omega

theorem acceptTemplate_keeps (remembers : world.remembers) (fetch : Fetch) (template : RawTemplate) (taken : Bool) :
    (acceptTemplate settings world fetch template taken).remembers := by
  simp only [acceptTemplate]
  split
  · exact templateUpdate3_keeps remembers fetch taken
  · exact remembers

private theorem acceptTemplate_answers (change : fetch.forChange = true) (recent : fetch.epoch = world.epoch)
    (template : RawTemplate) (taken : Bool) : (acceptTemplate settings world fetch template taken).remembers := by
  have changed : (fetch.isHashChange || fetch.isMMHashChange) = true := change
  simp only [acceptTemplate,changed,Bool.true_or,if_true]
  exact templateUpdate3_answers fetch recent taken

theorem onTemplate_keeps (remembers : world.remembers) (fetch : Fetch) (rawTemplate : Option RawTemplate)
    (taken : Bool) : (onTemplate settings world fetch rawTemplate taken).remembers := by
  simp only [onTemplate]
  split
  · exact remembers
  split
  · exact retryTemplateFetch_keeps settings remembers fetch _
  split
  · exact remembers
  · exact acceptTemplate_keeps settings remembers fetch _ taken

theorem onTemplate_answers (change : fetch.forChange = true) (recent : fetch.epoch = world.epoch) (taken : Bool)
    (served : skipTemplateFetch world fetch.bodyHeader (rawTemplate.filter RawTemplate.isRpcTemplate) = false)
    (usable : rejectInvalidTemplate fetch.bodyHeader (rawTemplate.filter RawTemplate.isRpcTemplate) = false ∨
      fetch.timesFailed < 2) : (onTemplate settings world fetch rawTemplate taken).remembers := by
  simp only [onTemplate]
  rw [if_neg (by rw [served]; exact Bool.false_ne_true)]
  split
  · next rejected =>
    rcases usable with accepted | early
    · rw [accepted] at rejected
      cases rejected
    · exact retryTemplateFetch_awaits settings change early _
  · next accepted =>
    split
    · next absent =>
      rw [absent] at accepted
      exact (accepted rfl).elim
    · exact acceptTemplate_answers settings change recent _ taken

private theorem handleTemplateHeader_keeps (remembers : world.remembers) (coinHashFactor : ℚ) (body : Option Header)
    (taken : Bool) : (handleTemplateHeader settings world coinHashFactor body taken).remembers := by
  simp only [handleTemplateHeader]
  split
  · exact remembers
  split
  · exact (handleDaemonRpcFailure_same settings world .header).remembers remembers
  next body _ =>
  have cleared : SamePolling world (if settings.main then world else clearFactorFailure world .header) := by
    split
    · exact .refl world
    · exact clearFactorFailure_same world .header
  have kept := cleared.remembers remembers
  generalize (if settings.main then world else clearFactorFailure world .header) = cleared at kept
  split
  · by_cases changed : cleared.lastBlockHash = some body.hash
    · apply templateUpdate2_keeps
      rcases kept with unseen | handed | awaits
      · rw [unseen] at changed
        cases changed
      · refine .inr (.inl ?_)
        simp only [updateLastTemplateHeader,if_pos changed]
        exact handed
      · refine .inr (.inr ?_)
        unfold World.awaits at awaits ⊢
        simp only [updateLastTemplateHeader,if_pos changed]
        exact awaits
    · apply templateUpdate2_awaits
      have hash : isHashChange cleared body = true := decide_eq_true changed
      rw [Fetch.forChange,hash,Bool.true_or]
  · split
    · exact (coinHashFactorUpdate_same settings cleared coinHashFactor).remembers kept
    · exact kept

/-- Without this fetch the recorded hash still has its template or awaits it, or the reply is not
skipped and is usable or one of the first two. -/
def unforgotten (world : World) : Label → Prop
  | .template index rawTemplate _ => ∀ fetch, world.fetches[index]? = some fetch →
      ({ world with fetches := world.fetches.eraseIdx index } : World).remembers ∨
        (skipTemplateFetch world fetch.bodyHeader (rawTemplate.filter RawTemplate.isRpcTemplate) = false ∧
          (rejectInvalidTemplate fetch.bodyHeader (rawTemplate.filter RawTemplate.isRpcTemplate) = false ∨
            fetch.timesFailed < 2))
  | _ => True

theorem step_remembers (remembers : world.remembers) {label : Label} {next : World} (may : unforgotten world label)
    (moved : step settings world label = some next) : next.remembers := by
  cases label with
  | templateUpdate =>
    simp only [step] at moved
    split at moved <;> (cases moved; exact remembers)
  | header index body taken =>
    simp only [step] at moved
    split at moved
    · cases moved
    · cases moved
      have kept : ({ world with polls := world.polls.eraseIdx index } : World).remembers := remembers
      exact handleTemplateHeader_keeps settings kept _ body taken
  | template index rawTemplate taken =>
    simp only [step] at moved
    split at moved
    · cases moved
    next fetch there =>
    cases moved
    rcases may fetch there with others | ⟨served,usable⟩
    · exact onTemplate_keeps settings others fetch rawTemplate taken
    by_cases others : ({ world with fetches := world.fetches.eraseIdx index } : World).remembers
    · exact onTemplate_keeps settings others fetch rawTemplate taken
    -- this fetch is the one that the recorded hash awaits
    obtain ⟨change,recent⟩ : fetch.forChange = true ∧ fetch.epoch = world.epoch := by
      rcases remembers with unseen | handed | ⟨other,member,awaited⟩ | timers
      · exact (others (.inl unseen)).elim
      · exact (others (.inr (.inl handed))).elim
      · obtain ⟨place,inside⟩ := List.getElem?_of_mem member
        by_cases same : place = index
        · rw [same,there] at inside
          cases inside
          exact awaited
        · exact (others (.inr (.inr (.inl ⟨other,List.mem_eraseIdx_iff_getElem?.mpr ⟨place,same,inside⟩,
            awaited⟩)))).elim
      · exact (others (.inr (.inr (.inr timers)))).elim
    have current : fetch.epoch = ({ world with fetches := world.fetches.eraseIdx index } : World).epoch := recent
    exact onTemplate_answers settings change current taken served usable
  | retry index taken =>
    simp only [step] at moved
    split at moved
    · cases moved
    next fetch there =>
    cases moved
    cases change : fetch.forChange with
    | true => exact templateUpdate2_awaits settings change taken
    | false =>
      apply templateUpdate2_keeps
      rcases remembers with unseen | handed | fetches | ⟨other,member,awaited⟩
      · exact .inl unseen
      · exact .inr (.inl handed)
      · exact .inr (.inr (.inl fetches))
      · obtain ⟨place,inside⟩ := List.getElem?_of_mem member
        have apart : place ≠ index := by
          rintro rfl
          rw [there] at inside
          cases inside
          rw [change] at awaited
          cases awaited
        exact .inr (.inr (.inr ⟨other,List.mem_eraseIdx_iff_getElem?.mpr ⟨place,apart,inside⟩,awaited⟩))
  | disableFailedCoin rpc =>
    have same := (clearFactorFailure_same world rpc).trans (disableCoin_same settings _)
    cases rpc <;>
      (simp only [step] at moved
       split at moved
       · cases moved
         exact same.remembers remembers
       · cases moved)
  | onHashFactor coinHashFactor =>
    simp only [step] at moved
    split at moved
    · cases moved
    split at moved
    · cases moved
      exact (disableCoin_same settings world).remembers remembers
    · cases moved
      exact remembers
  | elapse ms =>
    cases moved
    exact remembers

/-- Once no fetch and no retry timer is out, a template that was fetched since the recorded hash was
first seen has been handed over. -/
theorem seen_block_answered (settings : Settings) (reached : (machine settings).ReachableBy unforgotten world)
    {hash : String} (seen : world.lastBlockHash = some hash) (fetched : world.fetches = [])
    (fired : world.retries = []) :
    world.handed = true := by
  have remembers : world.remembers := by
    apply reached.invariant World.remembers
    · rintro _ ⟨now,rfl⟩
      exact .inl rfl
    · intro before after label remembers may moved
      exact step_remembers settings remembers may moved
  rcases remembers with unseen | handed | ⟨_,member,_⟩ | ⟨_,member,_⟩
  · rw [unseen] at seen
    cases seen
  · exact handed
  · rw [fetched] at member
    cases member
  · rw [fired] at member
    cases member

theorem forgotten {index : ℕ} {rawTemplate : Option RawTemplate} {taken : Bool} {next : World}
    (forgets : ¬unforgotten world (.template index rawTemplate taken))
    (moved : step settings world (.template index rawTemplate taken) = some next) : ¬next.remembers := by
  obtain ⟨fetch,there,lost⟩ := not_forall₂.mp forgets
  rw [not_or,not_and_or,not_or] at lost
  obtain ⟨others,dropped⟩ := lost
  simp only [step,there,Option.some.injEq] at moved
  subst moved
  simp only [onTemplate]
  split
  · exact others
  next served =>
  rcases dropped with skipped | ⟨rejected,late⟩
  · exact (served (Bool.not_eq_false _ ▸ skipped)).elim
  rw [if_pos (Bool.not_eq_false _ ▸ rejected)]
  rcases retryTemplateFetch_cases settings { world with fetches := world.fetches.eraseIdx index } fetch
    rawTemplate.isNone with ⟨early,_⟩ | ⟨_,same⟩
  · exact (late early).elim
  · exact fun remembers => others (same.symm.remembers remembers)

def mainCoin : Settings := ⟨true,false,5000,30000⟩

def newBlock : Header := ⟨"4f2a",3000001,none⟩

def usableTemplate : RawTemplate := ⟨true,true,none,0⟩

theorem seen_block_answered_main :
    ∃ world, (machine mainCoin).ReachableBy unforgotten world ∧ world.lastBlockHash = some newBlock.hash ∧
      world.handed = true := by
  have polled : ((machine mainCoin).run (startWorld mainCoin 0) [.templateUpdate,.header 0 (some newBlock) true]).bind
      (fun asked => (step mainCoin asked (.template 0 (some usableTemplate) true)).map fun world =>
        (world.lastBlockHash,asked.fetches.map Fetch.bodyHeader,
          [world.fetches.isEmpty,world.retries.isEmpty,skipTemplateFetch asked newBlock (some usableTemplate)])) =
        some (some newBlock.hash,[newBlock],[true,true,false]) := by
    decide +kernel
  obtain ⟨asked,ran,rest⟩ := Option.bind_eq_some_iff.mp polled
  obtain ⟨world,answered,seen⟩ := Option.map_eq_some_iff.mp rest
  simp only [Prod.mk.injEq,List.cons.injEq,List.isEmpty_iff,and_true] at seen
  obtain ⟨hash,headers,fetches,retries,served⟩ := seen
  have began : (machine mainCoin).ReachableBy unforgotten asked := by
    refine Machine.ReachableBy.run (.initial ⟨0,rfl⟩) ?_ ran
    simp [unforgotten]
  have may : unforgotten asked (.template 0 (some usableTemplate) true) := by
    intro fetch there
    have header : fetch.bodyHeader = newBlock := by
      have mapped : (asked.fetches.map Fetch.bodyHeader)[0]? = some fetch.bodyHeader := by
        rw [List.getElem?_map,there]
        rfl
      rw [headers] at mapped
      exact (Option.some.inj mapped).symm
    rw [header]
    exact .inr ⟨served,.inl rfl⟩
  have reached := began.step may answered
  exact ⟨world,reached,hash,seen_block_answered mainCoin reached hash fetches retries⟩

/-- Three failed template RPCs leave the main coin with its factor and without a template for the
block it has seen, and the next poll with the same header fetches none. -/
theorem block_forgotten :
    ∃ world next, (machine mainCoin).Reachable world ∧ world.lastBlockHash = some newBlock.hash ∧ world.fetches = [] ∧
      world.retries = [] ∧ zeroHashFactor world = false ∧ world.handed = false ∧
      (machine mainCoin).run world [.templateUpdate,.header 0 (some newBlock) true] = some next ∧
      next.fetches = [] ∧ next.handed = false := by
  have ran : ((machine mainCoin).run (startWorld mainCoin 0)
      [.templateUpdate,.header 0 (some newBlock) true,.template 0 none true,.elapse 500,.retry 0 true,
        .template 0 none true,.elapse 500,.retry 0 true,.template 0 none true,.elapse 500]).bind
      (fun world => ((machine mainCoin).run world [.templateUpdate,.header 0 (some newBlock) true]).map fun next =>
        (world.lastBlockHash,[world.fetches.isEmpty,world.retries.isEmpty,zeroHashFactor world,world.handed,
          next.fetches.isEmpty,next.handed])) = some (some newBlock.hash,[true,true,false,false,true,false]) := by
    decide +kernel
  obtain ⟨world,ran,rest⟩ := Option.bind_eq_some_iff.mp ran
  obtain ⟨next,again,seen⟩ := Option.map_eq_some_iff.mp rest
  simp only [Prod.mk.injEq,List.cons.injEq,List.isEmpty_iff,and_true] at seen
  obtain ⟨hash,fetches,retries,factor,handed,later,still⟩ := seen
  exact ⟨world,next,Machine.reachable_run ⟨0,rfl⟩ ran,hash,fetches,retries,factor,handed,again,later,still⟩

end NodejsPool.Pool.TemplatePolling
