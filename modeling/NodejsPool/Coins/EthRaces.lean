import NodejsPool.Coins.EthVerdicts

/-! The runs of a lookup by hash: replies, late replies and timers in any order. -/
namespace NodejsPool.Coins.Eth
open Async Payments
open Program (Returns)

variable {chain : Chain} {ctx : Context} {world next : World}

def Faithfully (chain : Chain) (world : World) : Label → Prop
  | .reply body => ∀ request next, world.program = .call (.rpc request) next → Faithful chain request body
  | .lookupReply index body => ∀ lookup request next, world.lookups[index]? = some lookup →
    lookup.program = .call request next → Faithful chain request body
  | _ => True

structure Sound (chain : Chain) (ctx : Context) (world : World) : Prop where
  once : world.callbacks.length ≤ 1
  called : world.finalizer.timer = false → world.callbacks.length = 1
  full : ∀ block value, ⟨false,.block block⟩ ∈ world.callbacks → block.reward = some (.block value) →
    Canonical chain ctx block ∧ Receipted world.history block
  orphan : ∀ block, ⟨false,.block block⟩ ∈ world.callbacks → block.confirmations = some (-1) →
    block.reward = none ∧ Unlisted chain ctx block
  own : ctx.isOurBlock = true → ∀ event ∈ world.history, Failed ctx event →
    ∀ block, ⟨false,.block block⟩ ∈ world.callbacks → block.confirmations ≠ some (-1)

/-- Whether the callback has run: with an error of the timer, or with what the program ends in. -/
inductive Settled (world : World) : Prop where
  | waits (timer : world.finalizer = createEthRpcFinalizer) (none : world.callbacks = [])
  | called (result : Result) (timer : world.finalizer = ended) (one : world.callbacks = [result])
      (origin : result.err = true ∨ world.program = .done result)

theorem Settled.set (settled : Settled world) (lookups : List Lookup) : Settled { world with lookups := lookups } := by
  rcases settled with ⟨timer,none⟩ | ⟨result,timer,one,origin⟩
  · exact .waits timer none
  · exact .called result timer one origin

structure Kept (chain : Chain) (ctx : Context) (world : World) : Prop where
  judged : world.program.Meets (lookupContract chain) world.history (Returns (Judged chain ctx))
  settled : Settled world
  lookups : ∀ lookup ∈ world.lookups, ∃ history, lookup.program.Meets (daemonContract chain) history
    (Returns fun _ result => FaithfulHeader chain lookup.height result)
  awaited : ∀ index lookup, world.lookups[index]? = some lookup → lookup.finalizer.finished = false →
    index + 1 = world.lookups.length ∧ ∃ next, world.program = .call (.header lookup.height) next

theorem advance_kept (p : Program Lookups Result) (world : World)
    (judged : p.Meets (lookupContract chain) world.history (Returns (Judged chain ctx)))
    (settled : (world.finalizer = createEthRpcFinalizer ∧ world.callbacks = []) ∨
      ∃ result, world.finalizer = ended ∧ world.callbacks = [result] ∧ result.err = true)
    (lookups : ∀ lookup ∈ world.lookups, lookup.finalizer.finished = true ∧ ∃ history,
      lookup.program.Meets (daemonContract chain) history (Returns fun _ result =>
        FaithfulHeader chain lookup.height result)) :
    Kept chain ctx (advance ctx p world) := by
  have free {program : Program Lookups Result} (index : ℕ) (lookup : Lookup)
    (found : world.lookups[index]? = some lookup) (open_ : lookup.finalizer.finished = false) :
      index + 1 = world.lookups.length ∧ ∃ next, program = .call (.header lookup.height) next := by
    rw [(lookups lookup (List.mem_of_getElem? found)).1] at open_
    cases open_
  induction p generalizing world with
  | throw error => exact nomatch error
  | done result =>
    unfold advance World.finish
    rcases settled with ⟨waits,none⟩ | ⟨other,timer,one,err⟩
    · dsimp only
      rw [waits,if_neg (show ¬ createEthRpcFinalizer.finished = true from Bool.false_ne_true)]
      refine ⟨judged,.called result rfl ?_ (.inr rfl),fun lookup member => (lookups lookup member).2,free⟩
      rw [none]
      rfl
    · dsimp only
      rw [timer,if_pos (show ended.finished = true from rfl)]
      exact ⟨judged,.called other rfl one (.inl err),fun lookup member => (lookups lookup member).2,free⟩
  | call request next ih =>
    have state {program : Program Lookups Result} {more : List Lookup} :
        Settled { world with program := program,lookups := more } := by
      rcases settled with ⟨waits,none⟩ | ⟨other,timer,one,err⟩
      · exact .waits waits none
      · exact .called other timer one (.inl err)
    cases request with
    | rpc request => exact ⟨judged,state,fun lookup member => (lookups lookup member).2,free⟩
    | header height =>
      have meets : (getBlockHeaderById ctx height).Meets (daemonContract chain) [] _ :=
        getBlockHeaderById_meets height []
      unfold advance
      split
      next result done =>
        rw [done] at meets
        exact ih (.ok result) _ (judged.2 (.ok result) meets) settled lookups free
      next =>
        refine ⟨judged,state,?_,?_⟩
        · intro lookup member
          rcases List.mem_append.mp member with before | last
          · exact (lookups lookup before).2
          · obtain rfl := List.mem_singleton.mp last
            exact ⟨[],meets⟩
        · intro index lookup found open_
          rcases Nat.lt_or_ge index world.lookups.length with before | last
          · rw [List.getElem?_append_left before] at found
            rw [(lookups lookup (List.mem_of_getElem? found)).1] at open_
            cases open_
          · rw [List.getElem?_append_right last] at found
            have first : index - world.lookups.length = 0 := by
              have bound := (List.getElem?_eq_some_iff.mp found).1
              simp only [List.length_singleton] at bound
              omega
            rw [first] at found
            cases found
            refine ⟨?_,next,rfl⟩
            rw [List.length_append,List.length_singleton]
            omega

private theorem finishLookup_kept (kept : Kept chain ctx world) {index : ℕ} {lookup after : Lookup} {result : Result}
    (found : world.lookups[index]? = some lookup) (still : after.finalizer.finished = lookup.finalizer.finished)
    (faithful : FaithfulHeader chain lookup.height result)
    (meets : ∃ history, after.program.Meets (daemonContract chain) history
      (Returns fun _ result => FaithfulHeader chain after.height result)) :
    Kept chain ctx (finishLookup ctx world index after result) := by
  have bound := (List.getElem?_eq_some_iff.mp found).1
  have members (finalizer : Finalizer) : ∀ other ∈ world.lookups.set index { after with finalizer := finalizer },
      ∃ history, other.program.Meets (daemonContract chain) history
        (Returns fun _ result => FaithfulHeader chain other.height result) := by
    intro other member
    rcases List.mem_or_eq_of_mem_set member with before | rfl
    · exact kept.lookups other before
    · exact meets
  unfold finishLookup
  split
  next finished =>
    refine ⟨kept.judged,kept.settled.set _,members after.finalizer,?_⟩
    intro place other at_place open_
    rcases eq_or_ne index place with rfl | apart
    · rw [List.getElem?_set_self bound] at at_place
      cases at_place
      rw [finished] at open_
      cases open_
    · rw [List.getElem?_set_ne apart] at at_place
      rw [List.length_set]
      exact kept.awaited place other at_place open_
  next unfinished =>
    have waits : lookup.finalizer.finished = false := by rw [← still]; exact eq_false_of_ne_true unfinished
    obtain ⟨last,rest,awaits⟩ := kept.awaited index lookup found waits
    have judged := kept.judged
    rw [awaits] at judged
    unfold resume
    dsimp only
    rw [awaits]
    refine advance_kept _ _ (judged.2 (.ok result) faithful) ?_ ?_
    · rcases kept.settled with ⟨timer,none⟩ | ⟨other,timer,one,err | done⟩
      · exact .inl ⟨timer,none⟩
      · exact .inr ⟨other,timer,one,err⟩
      · rw [awaits] at done
        cases done
    · intro other member
      refine ⟨?_,members ended other member⟩
      obtain ⟨place,at_place⟩ := List.getElem?_of_mem member
      rcases eq_or_ne index place with rfl | apart
      · rw [List.getElem?_set_self bound] at at_place
        cases at_place
        rfl
      · rw [List.getElem?_set_ne apart] at at_place
        cases finished : other.finalizer.finished with
        | true => rfl
        | false =>
          have alone := (kept.awaited place other at_place finished).1
          omega

theorem step_kept (kept : Kept chain ctx world) {label : Label} (faithfully : Faithfully chain world label)
    (moved : (blockHeaderByHash ctx).step world label = some next) : Kept chain ctx next := by
  cases label with
  | reply body =>
    simp only [blockHeaderByHash,World.step] at moved
    split at moved
    next request rest awaits =>
      cases moved
      have judged := kept.judged
      rw [awaits] at judged
      refine advance_kept _ _ (judged.2 (.ok body) (faithfully request rest awaits)) ?_ ?_
      · rcases kept.settled with ⟨timer,none⟩ | ⟨other,timer,one,err | done⟩
        · exact .inl ⟨timer,none⟩
        · exact .inr ⟨other,timer,one,err⟩
        · rw [awaits] at done
          cases done
      · intro lookup member
        refine ⟨?_,kept.lookups lookup member⟩
        obtain ⟨index,found⟩ := List.getElem?_of_mem member
        cases finished : lookup.finalizer.finished with
        | true => rfl
        | false =>
          obtain ⟨_,other,same⟩ := kept.awaited index lookup found finished
          rw [awaits] at same
          cases same
    · cases moved
  | lookupReply index body =>
    simp only [blockHeaderByHash,World.step] at moved
    split at moved
    next lookup found =>
      split at moved
      next request rest awaits =>
        obtain ⟨history,meets⟩ := kept.lookups lookup (List.mem_of_getElem? found)
        rw [awaits] at meets
        have meets := meets.2 (.ok body) (faithfully lookup request rest found awaits)
        split at moved
        next result done =>
          cases moved
          rw [done] at meets
          exact finishLookup_kept kept found rfl meets ⟨_,meets⟩
        next =>
          cases moved
          refine ⟨kept.judged,kept.settled.set _,?_,?_⟩
          · intro other member
            rcases List.mem_or_eq_of_mem_set member with before | rfl
            · exact kept.lookups other before
            · exact ⟨_,meets⟩
          · intro place other at_place open_
            rw [List.length_set]
            rcases eq_or_ne index place with rfl | apart
            · rw [List.getElem?_set_self (List.getElem?_eq_some_iff.mp found).1] at at_place
              cases at_place
              exact kept.awaited index lookup found open_
            · rw [List.getElem?_set_ne apart] at at_place
              exact kept.awaited place other at_place open_
      · cases moved
    · cases moved
  | lookupTimeout index =>
    simp only [blockHeaderByHash,World.step] at moved
    split at moved
    next lookup found =>
      obtain ⟨_,⟨⟩⟩ := Option.ite_none_right_eq_some.mp moved
      exact finishLookup_kept kept found rfl nofun (kept.lookups lookup (List.mem_of_getElem? found))
    · cases moved
  | timeout =>
    obtain ⟨armed,⟨⟩⟩ := Option.ite_none_right_eq_some.mp moved
    rcases kept.settled with ⟨timer,none⟩ | ⟨other,timer,one,origin⟩
    · unfold World.finish
      rw [if_neg (show ¬ world.finalizer.finished = true by rw [timer]; exact Bool.false_ne_true),none]
      exact ⟨kept.judged,.called _ rfl rfl (.inl rfl),kept.lookups,kept.awaited⟩
    · rw [timer] at armed
      cases armed

private theorem started_kept (chain : Chain) (ctx : Context) : Kept chain ctx (started ctx) :=
  advance_kept (getAnyBlockHeaderByHash ctx) _ (getAnyBlockHeaderByHash_judged chain ctx) (.inl ⟨rfl,rfl⟩) nofun

theorem reachable_kept (reached : (blockHeaderByHash ctx).ReachableBy (Faithfully chain) world) :
    Kept chain ctx world := by
  refine reached.invariant (Kept chain ctx) ?_ fun _ _ _ kept faithfully moved => step_kept kept faithfully moved
  rintro _ rfl
  exact started_kept chain ctx

theorem Kept.verdict (kept : Kept chain ctx world) {block : EthRewardBlock}
    (member : ⟨false,.block block⟩ ∈ world.callbacks) :
    Verdict chain ctx world.history block := by
  rcases kept.settled with ⟨_,none⟩ | ⟨result,_,one,origin⟩
  · rw [none] at member
    cases member
  · rw [one] at member
    obtain rfl := List.mem_singleton.mp member
    rcases origin with err | done
    · cases err
    · have judged := kept.judged
      rw [done] at judged
      exact judged block rfl

/-- A lookup by hash keeps its promises in every run in which no lookup of the scan fails at a block
that lists the hash. -/
theorem blocks_classified (reached : (blockHeaderByHash ctx).ReachableBy (Faithfully chain) world)
    (answered : ∀ event ∈ scanned world.history, Answered chain ctx event) : Sound chain ctx world := by
  have kept := reachable_kept reached
  have verdict {block : EthRewardBlock} (member : ⟨false,.block block⟩ ∈ world.callbacks) := kept.verdict member
  refine ⟨?_,?_,?_,?_,?_⟩
  · rcases kept.settled with ⟨_,none⟩ | ⟨_,_,one,_⟩
    · rw [none]
      exact Nat.zero_le 1
    · rw [one]
      exact Nat.le_refl 1
  · intro cleared
    rcases kept.settled with ⟨timer,_⟩ | ⟨_,_,one,_⟩
    · rw [timer] at cleared
      cases cleared
    · rw [one]
      rfl
  · exact fun block value member rewarded => (verdict member).full value rewarded
  · intro block member marked
    obtain ⟨reward,unlisted,_⟩ := (verdict member).orphan marked answered
    exact ⟨reward,unlisted⟩
  · intro ours event happened failed block member marked
    exact ((verdict member).orphan marked answered).2.2 ours event happened failed

section Runs

def blockReply (hash number : String) (uncles : List Json) : Json :=
  .obj [("result",.obj [("transactions",.arr []),("uncles",.arr uncles),("number",.str number),("hash",.str hash)])]

def uncleReply (height : ℕ) : Json :=
  if height < 25 then blockReply (if height = 16 then "0xcd" else "0xee")
    (String.ofList (['0','x'] ++ Nat.toDigits 16 height)) (if height = 17 then [.str "0xab"] else [])
  else .null

def uncleChain : Chain where
  blockOf _ := normalizeEthRewardBlock (rpcResultRecord (blockReply "0xab" "0x10" [])) none
  blockAt height := normalizeEthRewardBlock (rpcResultRecord (uncleReply height)) (some height)
  uncleAt _ _ := some "0x10"

def uncleRecord : Json := .obj [("result",.obj [("number",.str "0x10")])]

def poolBlock : Context := ⟨createEthRpc,8545,"ab",true⟩

def replies : Request → Json → Bool
  | .blockByHash _,body => body.same (blockReply "0xab" "0x10" [])
  | .blockByNumber height,body => body.same (uncleReply height)
  | .receipts _,_ => true
  | .uncle _ _,body => body.same uncleRecord || body.same .null

def repliesOf (world : World) : Label → Bool
  | .reply body =>
    match world.program with
    | .call (.rpc request) _ => replies request body
    | _ => true
  | .lookupReply index body =>
    match world.lookups[index]?.map Lookup.program with
    | some (.call request _) => replies request body
    | _ => true
  | _ => true

private theorem replies_faithful {request : Request} {body : Json} (replied : replies request body = true) :
    Faithful uncleChain request body := by
  cases request with
  | blockByHash hash | blockByNumber height =>
    cases Json.same_eq replied
    exact fun _ same => same
  | receipts => trivial
  | uncle height index =>
    intro uncle number record same
    rcases Bool.or_eq_true_iff.mp replied with told | missing
    · cases Json.same_eq told
      cases record
      cases same
      rfl
    · cases Json.same_eq missing
      cases record

private theorem repliesOf_faithful (world : World) (label : Label) (replied : repliesOf world label = true) :
    Faithfully uncleChain world label := by
  cases label with
  | reply body =>
    intro request next awaits
    rw [repliesOf,awaits] at replied
    exact replies_faithful replied
  | lookupReply index body =>
    intro lookup request next found awaits
    rw [repliesOf,found,Option.map_some,awaits] at replied
    exact replies_faithful replied
  | _ => trivial

def uncleRun (record : Json) : List Label :=
  [.reply (blockReply "0xab" "0x10" []),.lookupReply 0 (uncleReply 16)] ++
    (List.range 9).map (fun index => .lookupReply (index + 1) (uncleReply (index + 9))) ++ [.reply record] ++
    (List.range 7).map fun index => .lookupReply (index + 10) (uncleReply (index + 18))

theorem reached_replies {labels : List Label} {world : World}
    (ran : ((blockHeaderByHash poolBlock).guarded repliesOf).run (started poolBlock) labels = some world) :
    (blockHeaderByHash poolBlock).ReachableBy (Faithfully uncleChain) world :=
  Machine.ReachableBy.run_guarded repliesOf_faithful (.initial rfl) ran

def calledBack (world : World) : Option (Option ℕ × Option ℤ) :=
  match world.callbacks with
  | [⟨false,.block block⟩] => some (block.height,block.confirmations)
  | _ => none

theorem calledBack_block {world : World} {height : Option ℕ} {confirmations : Option ℤ}
    (called : calledBack world = some (height,confirmations)) : ∃ block, world.callbacks = [⟨false,.block block⟩] ∧
      block.height = height ∧ block.confirmations = confirmations := by
  unfold calledBack at called
  split at called
  next block one =>
    cases called
    exact ⟨block,one,rfl,rfl⟩
  · cases called

/-- The reply to the request for the uncle is missing: the scan goes on, and the pool's block is an orphan. -/
theorem uncle_overlooked : ∃ world block, (blockHeaderByHash poolBlock).ReachableBy (Faithfully uncleChain) world ∧
    world.callbacks = [⟨false,.block block⟩] ∧ block.confirmations = some (-1) ∧
    ¬ Sound uncleChain poolBlock world := by
  obtain ⟨world,ran,called⟩ : ∃ world, ((blockHeaderByHash poolBlock).guarded repliesOf).run (started poolBlock)
      (uncleRun .null) = some world ∧ calledBack world = some (some 16,some (-1)) := by
    refine Option.map_eq_some_iff.mp ?_
    decide +kernel
  obtain ⟨block,one,height,marked⟩ := calledBack_block called
  refine ⟨world,block,reached_replies ran,one,marked,?_⟩
  intro sound
  have member : ⟨false,.block block⟩ ∈ world.callbacks := by
    rw [one]
    exact List.mem_singleton_self _
  have listed : ∃ other, uncleChain.blockAt 17 = some other ∧ (uncleIndex poolBlock other.uncles).isSome = true := by
    refine (Option.any_eq_true _ _).mp ?_
    decide +kernel
  obtain ⟨other,at_17,listed⟩ := listed
  rw [(sound.orphan block member marked).2 16 17 other height (by decide) (by decide) at_17] at listed
  cases listed

def told : Event Lookups → Bool
  | ⟨.rpc (.uncle _ _),.ok body⟩ => body.same uncleRecord
  | _ => true

theorem told_answered {event : Event Lookups} (recorded : told event = true) : Answered uncleChain poolBlock event := by
  rcases event with ⟨(_ | _ | _ | _) | height,outcome | outcome⟩
  case rpc.uncle.ok =>
    cases Json.same_eq recorded
    exact ⟨_,_,rfl,rfl,rfl,rfl⟩
  case header.ok => exact .inl rfl
  all_goals trivial

theorem blocks_classified_uncle : ∃ world block, Sound uncleChain poolBlock world ∧
    world.callbacks = [⟨false,.block block⟩] ∧ block.confirmations = none := by
  obtain ⟨world,ran,called⟩ : ∃ world, ((blockHeaderByHash poolBlock).guarded repliesOf).run (started poolBlock)
      ((uncleRun uncleRecord).take 12) = some world ∧
        (calledBack world,world.history.all told) = (some (some 16,none),true) := by
    refine Option.map_eq_some_iff.mp ?_
    decide +kernel
  obtain ⟨called,answers⟩ := Prod.mk.inj called
  obtain ⟨block,one,_,unmarked⟩ := calledBack_block called
  refine ⟨world,block,blocks_classified (reached_replies ran) ?_,one,unmarked⟩
  intro event member
  exact told_answered (List.all_eq_true.mp answers event (List.mem_of_mem_take member))

end Runs
end NodejsPool.Coins.Eth
