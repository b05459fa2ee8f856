import NodejsPool.BlockManager.Crediting

/-! A block whose credits are committed and that is still locked when the payout is cut off
stays locked: every later attempt finds its `paid_blocks` row and gives up. -/
namespace NodejsPool.BlockManager.Payout
open Async

section Interrupted

abbrev World := System.World system

def Recovered (hash : String) (world : World) : Prop :=
  ∃ block ∈ world.shared.blocks, block.hash = hash ∧ block.unlocked = true ∧ block.valid = true ∧ block.moved = false

def creditsOf (hash : String) (world : World) : List Credited :=
  world.shared.credited.filter fun entry => entry.hex = hash

/-- The credits of the block are committed, its record is locked, and every process that was
told of the commit has crashed. -/
structure Interrupted (hash : String) (world : World) : Prop where
  reachable : (system.machine Fresh).Reachable world
  committed : hash ∈ paidHexes world.shared
  stored : ∃ block ∈ world.shared.blocks, block.hash = hash
  locked : ∀ block ∈ world.shared.blocks, block.hash = hash → block.unlocked = false
  crashed : ∀ process ∈ world.processes, process.rest.isSome = true → ¬Paid hash process.past.history

structure Stuck (hash : String) (credits : List Credited) (world : World) : Prop where
  committed : hash ∈ paidHexes world.shared
  locked : ¬Recovered hash world
  credited : creditsOf hash world = credits
  unaware : ∀ process ∈ world.processes, process.rest.isSome = true → ¬Paid hash process.past.history

theorem Interrupted.stuck {hash : String} {world : World} (interrupted : Interrupted hash world) :
    Stuck hash (creditsOf hash world) world := by
  refine ⟨interrupted.committed,?_,rfl,interrupted.crashed⟩
  rintro ⟨block,member,same,unlocked,_⟩
  rw [interrupted.locked block member same] at unlocked
  cases unlocked

variable {hash : String} {shared next : Shared}

theorem payBlock_refused (paid : hash ∈ paidHexes shared) (fate : Fate) (blockReward : ℕ) (port : ℤ)
    (credits : List BalanceCredit) :
    ∃ failure, shared.payBlock fate hash blockReward port credits = (.error failure,shared) := by
  have refused : insertPaidBlock ⟨hash,blockReward,port⟩ shared.db = .error .duplicateEntry := if_pos paid
  rcases ran : transact .lost fate (payBlockWork hash blockReward port credits) shared.db with ⟨outcome,after⟩
  have left : after = shared.db ∧ ∃ failure, outcome = .error failure := by
    rcases transact_cases ran with ⟨same,failed⟩ | ⟨value,worked,_⟩
    · exact ⟨same,failed⟩
    · obtain ⟨_,_,inserted,_⟩ := Work.yields_bind worked
      have wrote := Work.yields_statement inserted
      rw [refused] at wrote
      cases wrote
  obtain ⟨rfl,failure,rfl⟩ := left
  refine ⟨failure,?_⟩
  unfold Shared.payBlock
  rw [ran]
  simp only [if_true]

/-- A reply that changes neither the table of paid blocks, nor the records, nor the credits. -/
structure Untouched (shared next : Shared) : Prop where
  paid : next.db.paid_blocks = shared.db.paid_blocks
  blocks : next.blocks = shared.blocks
  credited : next.credited = shared.credited

theorem Untouched.refl (shared : Shared) : Untouched shared shared := ⟨rfl,rfl,rfl⟩

structure Leaves (hash : String) (shared next : Shared) : Prop where
  paid : hash ∈ paidHexes next
  records : ∀ block ∈ next.blocks, block.hash = hash → block.unlocked = true → block.valid = true →
    block.moved = false →
    block ∈ shared.blocks
  credited : next.credited.filter (fun entry => entry.hex = hash) = shared.credited.filter fun entry => entry.hex = hash

theorem Untouched.leaves (untouched : Untouched shared next) (paid : hash ∈ paidHexes shared) :
    Leaves hash shared next := by
  constructor
  · rwa [paidHexes,untouched.paid]
  · intro block member _ _ _ _
    rwa [← untouched.blocks]
  · rw [untouched.credited]

theorem attempt_untouched {A : Type} {answer : Answer} {value : A} {outcome : Except Failure A}
    (performed : attempt answer value shared shared = some (outcome,next)) : Untouched shared next := by
  rcases attempt_cases performed with ⟨rfl,rfl⟩ | ⟨⟨failure,rfl⟩,rfl⟩
  · exact .refl _
  · exact .refl _

private theorem payBlock_leaves {other : String} (apart : other ≠ hash) (paid : hash ∈ paidHexes shared) {fate : Fate}
    {blockReward : ℕ} {port : ℤ} {credits : List BalanceCredit} {outcome : Except Failure Unit}
    (ran : shared.payBlock fate other blockReward port credits = (outcome,next)) (grows : Grows shared next) :
    Leaves hash shared next := by
  unfold Shared.payBlock at ran
  dsimp only at ran
  cases ran
  refine ⟨grows.paid paid,fun block member _ _ _ _ => member,?_⟩
  dsimp only
  split
  · rfl
  · rw [List.filter_append,List.filter_singleton]
    simp [apart]

theorem perform_leaves (sound : Sound shared) (paid : hash ∈ paidHexes shared) {history : History signature}
    (told : ∀ event ∈ history, Remains shared event) (unaware : ¬Paid hash history) {answer : Answer} {call : Call}
    {outcome : signature.Outcome call} (allowed : payoutContract.allowed history call)
    (performed : perform shared answer call = some (outcome,next)) :
    Leaves hash shared next ∧ ¬Paid hash (⟨call,outcome⟩::history) := by
  have grows := (perform_sound sound told allowed performed).2.1
  have kept (other : ∀ blockReward port credits, call ≠ .payBlock hash blockReward port credits) :
      ¬Paid hash (⟨call,outcome⟩::history) := by
    rintro ⟨blockReward,port,credits,member⟩
    rcases List.mem_cons.mp member with same | earlier
    · exact other blockReward port credits (congrArg Event.call same).symm
    · exact unaware ⟨blockReward,port,credits,earlier⟩
  cases call with
  | canRun runtime =>
    cases performed
    exact ⟨(Untouched.refl _).leaves paid,kept nofun⟩
  | startPayment runtime | endPayment runtime | fullStop runtime =>
    cases performed
    exact ⟨Untouched.leaves ⟨rfl,rfl,rfl⟩ paid,kept nofun⟩
  | cachedBalanceId runtime key =>
    cases performed
    exact ⟨(Untouched.refl _).leaves paid,kept nofun⟩
  | cacheBalanceId runtime key id =>
    cases performed
    exact ⟨Untouched.leaves ⟨rfl,rfl,rfl⟩ paid,kept nofun⟩
  | selectBalanceSum => exact ⟨(attempt_untouched performed).leaves paid,kept nofun⟩
  | selectBlockBalance hex => exact ⟨(attempt_untouched performed).leaves paid,kept nofun⟩
  | selectBalanceId key => exact ⟨(attempt_untouched performed).leaves paid,kept nofun⟩
  | insertBalance key =>
    cases answer with
    | reply | fate fate => cases performed
    | refused failure =>
      cases performed
      exact ⟨(Untouched.refl _).leaves paid,kept nofun⟩
    | inserted id unknown =>
      obtain ⟨after,added,same⟩ := Option.map_eq_some_iff.mp performed
      unfold Shared.addBalance at added
      split at added
      · cases added
      · cases added
        cases same
        exact ⟨Untouched.leaves ⟨rfl,rfl,rfl⟩ paid,kept nofun⟩
  | payBlock hex blockReward port credits =>
    cases answer with
    | reply | refused failure | inserted id unknown => cases performed
    | fate fate =>
      have ran : shared.payBlock fate hex blockReward port credits = (outcome,next) := Option.some.inj performed
      by_cases own : hex = hash
      · subst own
        obtain ⟨failure,refused⟩ := payBlock_refused paid fate blockReward port credits
        cases refused.symm.trans ran
        refine ⟨(Untouched.refl _).leaves paid,?_⟩
        rintro ⟨_,_,_,member⟩
        rcases List.mem_cons.mp member with same | earlier
        · cases same
        · exact unaware ⟨_,_,_,earlier⟩
      · refine ⟨payBlock_leaves own paid ran grows,kept ?_⟩
        intro _ _ _ same
        cases same
        exact own rfl
  | unlockBlock kind other =>
    have apart : other ≠ hash := by
      rintro rfl
      exact unaware allowed
    rcases attempt_cases performed with ⟨rfl,rfl⟩ | ⟨⟨failure,rfl⟩,rfl⟩
    · refine ⟨⟨paid,?_,rfl⟩,kept nofun⟩
      intro block member own _ _ _
      obtain ⟨old,inside,made⟩ := List.mem_map.mp member
      split at made
      · next here =>
        cases made
        exact (apart (here.2.symm.trans own)).elim
      · cases made
        exact inside
    · exact ⟨(Untouched.refl _).leaves paid,kept nofun⟩

private theorem occur_leaves (sound : Sound shared) (paid : hash ∈ paidHexes shared) {occurrence : Occurrence}
    (occurred : occur occurrence shared = some next) : Leaves hash shared next := by
  have grows := (occur_sound sound occurred).2
  refine ⟨grows.paid paid,?_,?_⟩
  · intro block member _ unlocked valid unmoved
    cases occurrence with
    | storeBlock stored =>
      simp only [occur] at occurred
      split at occurred
      · cases occurred
      · next known =>
        cases occurred
        rcases List.mem_append.mp member with old | new
        · exact old
        · obtain rfl := List.mem_singleton.mp new
          rw [unlocked,valid] at known
          exact (known rfl).elim
    | invalidateBlock kind gone =>
      cases occurred
      obtain ⟨old,inside,made⟩ := List.mem_map.mp member
      split at made
      · cases made
        cases valid
      · cases made
        exact inside
    | moveAltBlockReward gone =>
      cases occurred
      obtain ⟨old,inside,made⟩ := List.mem_map.mp member
      split at made
      · cases made
        cases unmoved
      · cases made
        exact inside
    | changeBalance id amount =>
      cases occurred
      exact member
    | addBalance row =>
      simp only [occur,Shared.addBalance] at occurred
      split at occurred
      · cases occurred
      · cases occurred
        exact member
    | replaceBlockBalance hex rows | restart runtime =>
      cases occurred
      exact member
  · cases occurrence with
    | storeBlock stored =>
      simp only [occur] at occurred
      split at occurred <;> cases occurred
      rfl
    | addBalance row =>
      simp only [occur,Shared.addBalance] at occurred
      split at occurred <;> cases occurred
      rfl
    | invalidateBlock kind gone => cases occurred; rfl
    | moveAltBlockReward gone => cases occurred; rfl
    | changeBalance id amount => cases occurred; rfl
    | replaceBlockBalance hex rows => cases occurred; rfl
    | restart runtime => cases occurred; rfl

end Interrupted

section Attempts

variable {hash : String} {credits : List Credited} {world after : World}

theorem Stuck.leaves (stuck : Stuck hash credits world) {next : Shared} (left : Leaves hash world.shared next)
    {processes : List (Process Job signature)}
    (unaware : ∀ process ∈ processes, process.rest.isSome = true → ¬Paid hash process.past.history) :
    Stuck hash credits ⟨next,processes⟩ := by
  refine ⟨left.paid,?_,left.credited.trans stuck.credited,unaware⟩
  rintro ⟨block,member,own,unlocked,valid,unmoved⟩
  exact stuck.locked ⟨block,left.records block member own unlocked valid unmoved,own,unlocked,valid,unmoved⟩

theorem Stuck.step (stuck : Stuck hash credits world) (reachable : (system.machine Fresh).Reachable world)
    {label : system.Label} (moved : system.step world label = some after) : Stuck hash credits after := by
  have lawful := rule.lawful reachable
  obtain ⟨sound,told⟩ := lawful.invariant
  cases label with
  | start job =>
    cases moved
    refine ⟨stuck.committed,stuck.locked,stuck.credited,?_⟩
    intro process member runs
    rcases List.mem_append.mp member with old | new
    · exact stuck.unaware process old runs
    · obtain rfl := List.mem_singleton.mp new
      rintro ⟨_,_,_,inside⟩
      cases inside
  | crash index =>
    obtain ⟨process,found,moved⟩ := Option.bind_eq_some_iff.mp moved
    cases moved
    refine ⟨stuck.committed,stuck.locked,stuck.credited,?_⟩
    intro other member runs
    rcases List.mem_or_eq_of_mem_set member with old | rfl
    · exact stuck.unaware other old runs
    · cases runs
  | occur occurrence =>
    obtain ⟨next,occurred,rfl⟩ := Option.map_eq_some_iff.mp moved
    exact stuck.leaves (occur_leaves sound stuck.committed occurred) stuck.unaware
  | act index answer =>
    obtain ⟨process,call,next,outcome,shared,found,rest,performed,rfl⟩ := System.act_some moved
    have inside := List.mem_of_getElem? found
    have allowed := (lawful.meets process inside _ rest).1
    have unaware := stuck.unaware process inside (by rw [rest]; rfl)
    obtain ⟨left,still⟩ := perform_leaves sound stuck.committed
      (told process.past (List.mem_map_of_mem inside)) unaware allowed performed
    apply stuck.leaves left
    intro other member runs
    rcases List.mem_or_eq_of_mem_set member with old | rfl
    · exact stuck.unaware other old runs
    · exact still

theorem Stuck.run {labels : List system.Label} (stuck : Stuck hash credits world)
    (reachable : (system.machine Fresh).Reachable world) (ran : (system.machine Fresh).run world labels = some after) :
    Stuck hash credits after := by
  induction labels generalizing world with
  | nil =>
    cases ran
    exact stuck
  | cons label labels ih =>
    obtain ⟨next,moved,rest⟩ := Option.bind_eq_some_iff.mp ran
    exact ih (stuck.step reachable moved) (.step reachable trivial moved) rest

/-- Once a payout was cut off between its commit and the unlocking of the block, no run ever
unlocks the block through the payout path, and none credits it again. -/
theorem payout_never_recovers {labels : List system.Label} (interrupted : Interrupted hash world)
    (ran : (system.machine Fresh).run world labels = some after) :
    ¬Recovered hash after ∧ creditsOf hash after = creditsOf hash world := by
  have stuck := interrupted.stuck.run interrupted.reachable ran
  exact ⟨stuck.locked,stuck.credited⟩

def cutLabels : List system.Label :=
  [.occur (.storeBlock ⟨.main,"b",false,true,false⟩),.occur (.replaceBlockBalance "b" [⟨"A",none,1⟩]),
    .start ⟨0,[⟨.main,"b",10,0⟩]⟩] ++ List.replicate 7 (.act 0 .reply) ++
  [.act 0 (.fate {}),.act 0 .reply,.crash 0,.occur (.restart 0)]

def attemptLabels : List system.Label :=
  [.start ⟨0,[⟨.main,"b",10,0⟩]⟩] ++ List.replicate 7 (.act 1 .reply) ++ [.act 1 (.fate {}),.act 1 .reply]

def ended (process : Process Job signature) : Bool :=
  match process.rest with
  | some (.done _) => true
  | _ => false

def cutWorld (world : World) : Bool :=
  "b" ∈ paidHexes world.shared && !world.shared.blocks.isEmpty &&
    world.shared.blocks.all (fun block => block.hash = "b" && !block.unlocked) &&
    world.processes.all fun process => process.rest.isNone

theorem cut_interrupted (seen : cutWorld world = true) (reachable : (system.machine Fresh).Reachable world) :
    Interrupted "b" world := by
  simp only [cutWorld,Bool.and_eq_true,decide_eq_true_eq,List.all_eq_true] at seen
  obtain ⟨⟨⟨committed,some⟩,locked⟩,crashed⟩ := seen
  refine ⟨reachable,committed,?_,?_,?_⟩
  · obtain ⟨block,member⟩ := List.exists_mem_of_ne_nil world.shared.blocks (by simpa using some)
    exact ⟨block,member,(locked block member).1⟩
  · intro block member _
    simpa using (locked block member).2
  · intro process member runs
    have gone := crashed process member
    rw [Option.isNone_iff_eq_none] at gone
    rw [gone] at runs
    cases runs

theorem payout_never_recovers_cut : ∃ world after, Interrupted "b" world ∧
    (system.machine Fresh).run world attemptLabels = some after ∧ (after.processes[1]?).any ended = true ∧
    ¬Recovered "b" after ∧ creditsOf "b" after = creditsOf "b" world := by
  have ran : ((system.machine Fresh).run ⟨retriedStart,[]⟩ cutLabels).any (fun world => cutWorld world &&
      ((system.machine Fresh).run world attemptLabels).any fun after => (after.processes[1]?).any ended) = true := by
    decide +kernel
  obtain ⟨world,began,seen⟩ := (Option.any_eq_true _ _).mp ran
  obtain ⟨cut,attempted⟩ := Bool.and_eq_true_iff.mp seen
  obtain ⟨after,ran,finished⟩ := (Option.any_eq_true _ _).mp attempted
  have fresh : (system.machine Fresh).initial ⟨retriedStart,[]⟩ := ⟨retriedStart_fresh,rfl⟩
  have interrupted := cut_interrupted cut (Machine.reachable_run fresh began)
  exact ⟨world,after,interrupted,ran,finished,payout_never_recovers interrupted ran⟩

/-- The attempt after the crash ends, and the block is still locked. -/
theorem attempt_leaves_locked : ¬∀ (hash : String) (world after : World) (labels : List system.Label) (index : ℕ),
    Interrupted hash world → (system.machine Fresh).run world labels = some after →
      world.processes.length ≤ index → (after.processes[index]?).any ended = true → Recovered hash after := by
  intro recovers
  have ran : ((system.machine Fresh).run ⟨retriedStart,[]⟩ cutLabels).any (fun world => cutWorld world &&
      decide (world.processes.length ≤ 1) && ((system.machine Fresh).run world attemptLabels).any fun after =>
        (after.processes[1]?).any ended && after.shared.blocks.all fun block => !block.unlocked) = true := by
    decide +kernel
  obtain ⟨world,began,seen⟩ := (Option.any_eq_true _ _).mp ran
  obtain ⟨before,attempted⟩ := Bool.and_eq_true_iff.mp seen
  obtain ⟨cut,few⟩ := Bool.and_eq_true_iff.mp before
  obtain ⟨after,ran,last⟩ := (Option.any_eq_true _ _).mp attempted
  obtain ⟨finished,locked⟩ := Bool.and_eq_true_iff.mp last
  have fresh : (system.machine Fresh).initial ⟨retriedStart,[]⟩ := ⟨retriedStart_fresh,rfl⟩
  have interrupted := cut_interrupted cut (Machine.reachable_run fresh began)
  obtain ⟨block,member,_,unlocked,_⟩ :=
    recovers "b" world after attemptLabels 1 interrupted ran (of_decide_eq_true few) finished
  have still := List.all_eq_true.mp locked block member
  rw [unlocked] at still
  cases still

end Attempts

end NodejsPool.BlockManager.Payout
