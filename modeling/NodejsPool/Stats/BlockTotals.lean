import NodejsPool.Async.Machine
import NodejsPool.BlockManager.Precalc
import Mathlib.Algebra.Group.Prod

/-! The numbers of blocks the statistics show: counted once, and then brought up to date from the newest block down to
the newest one counted before. -/
namespace NodejsPool.Stats.BlockTotals
open Async BlockManager

section Blocks

structure Block where
  key : ℕ
  hash : String
  poolType : PoolType
  port : ℕ

/-- The newest block first, as a cursor that starts at the end reads them; a key of zero ends the scan. -/
def scanDb (db : List Block) : List Block := db.takeWhile fun block => block.key ≠ 0

structure BlockState (Tally : Type) where
  head : Option (ℕ × String)
  global : ℕ
  tally : Tally

structure Delta (Tally : Type) where
  foundHead : Bool
  newHead : Option (ℕ × String)
  globalDelta : ℕ
  tallyDelta : Tally

variable {Tally : Type} [AddCancelCommMonoid Tally] (tally : Block → Tally)

def countBlock (state : BlockState Tally) (block : Block) : BlockState Tally where
  head := state.head.orElse fun _ => some (block.key,block.hash)
  global := state.global + 1
  tally := state.tally + tally block

/-- `buildBlockState` and `buildAltBlockState`, which differ in what they count besides the blocks. -/
def buildState (db : List Block) : BlockState Tally := (scanDb db).foldl (countBlock tally) ⟨none,0,0⟩

def scanDelta (head : Option (ℕ × String)) : List Block → Delta Tally → Delta Tally
  | [],delta => delta
  | block::blocks,delta =>
    if head = some (block.key,block.hash) then { delta with foundHead := true }
    else scanDelta head blocks {
      foundHead := delta.foundHead
      newHead := delta.newHead.orElse fun _ => some (block.key,block.hash)
      globalDelta := delta.globalDelta + 1
      tallyDelta := delta.tallyDelta + tally block }

/-- `refreshBlockState` and `refreshAltBlockState`; an entry count that is not known is none. -/
def refreshState (cached : Option (BlockState Tally)) (entryCount : Option ℕ) (db : List Block) : BlockState Tally :=
  match cached with
  | none => buildState tally db
  | some state =>
    if entryCount.any fun count => count < state.global then buildState tally db
    else
      let delta := scanDelta tally state.head (scanDb db) ⟨state.head.isNone,none,0,0⟩
      if !delta.foundHead then buildState tally db
      else
        match delta.newHead with
        | none => state
        | some head => ⟨some head,state.global + delta.globalDelta,state.tally + delta.tallyDelta⟩

def blockTally (block : Block) : ℕ := if block.poolType = .PPLNS then 1 else 0

def altTally (block : Block) : ℕ × (ℕ → ℕ) × (ℕ → ℕ) :=
  (blockTally block,Pi.single block.port 1,if block.poolType = .PPLNS then Pi.single block.port 1 else 0)

def buildBlockState : List Block → BlockState ℕ := buildState blockTally

def buildAltBlockState : List Block → BlockState (ℕ × (ℕ → ℕ) × (ℕ → ℕ)) := buildState altTally

def refreshBlockState : Option (BlockState ℕ) → Option ℕ → List Block → BlockState ℕ := refreshState blockTally

def refreshAltBlockState : Option (BlockState (ℕ × (ℕ → ℕ) × (ℕ → ℕ))) → Option ℕ → List Block →
    BlockState (ℕ × (ℕ → ℕ) × (ℕ → ℕ)) := refreshState altTally

end Blocks

section Runs

variable {Tally : Type}

/-- The database, the state that is cached, and the database it was brought up to date with. -/
structure World (Tally : Type) where
  db : List Block
  cached : Option (BlockState Tally)
  counted : List Block

def putBlock (block : Block) : List Block → List Block
  | [] => [block]
  | other::db =>
    if other.key < block.key then block::other::db
    else if other.key = block.key then block::db
    else other::putBlock block db

inductive Label
  | put (block : Block)
  | delete (key : ℕ)
  | refresh (counts : Bool)

def stats (refresh : Option (BlockState Tally) → Option ℕ → List Block → BlockState Tally) :
    Machine (World Tally) Label where
  initial world := world.cached = none
  step world label := some (
    match label with
    | .put block => { world with db := putBlock block world.db }
    | .delete key => { world with db := world.db.filter fun block => block.key ≠ key }
    | .refresh counts => { world with
        cached := some (refresh world.cached (if counts then some world.db.length else none) world.db)
        counted := world.db })

end Runs

section Totals

variable {Tally : Type} [AddCancelCommMonoid Tally] {tally : Block → Tally} {db : List Block}

def tallyOf (tally : Block → Tally) (blocks : List Block) : Tally := (blocks.map tally).sum

def headOf (blocks : List Block) : Option (ℕ × String) := blocks.head?.map fun block => (block.key,block.hash)

theorem headOf_none {blocks : List Block} (none : headOf blocks = none) : blocks = [] := by
  unfold headOf at none
  rwa [Option.map_eq_none_iff,List.head?_eq_none_iff] at none

theorem tallyOf_append (front back : List Block) : tallyOf tally (front ++ back) = tallyOf tally front +
    tallyOf tally back := by
  unfold tallyOf
  rw [List.map_append,List.sum_append]

private theorem foldl_count (blocks : List Block) (state : BlockState Tally) : blocks.foldl (countBlock tally) state =
    ⟨state.head.orElse fun _ => headOf blocks,state.global + blocks.length,state.tally + tallyOf tally blocks⟩ := by
  induction blocks generalizing state with
  | nil => cases state with | mk head global tally => cases head <;> simp [headOf,tallyOf]
  | cons block blocks ih =>
    rw [List.foldl_cons,ih]
    cases head : state.head <;> simp [countBlock,headOf,tallyOf,head,add_assoc] <;> omega

theorem buildState_eq (db : List Block) :
    buildState tally db = ⟨headOf (scanDb db),(scanDb db).length,tallyOf tally (scanDb db)⟩ := by
  unfold buildState
  rw [foldl_count]
  simp

def fromHead (head : ℕ × String) (blocks : List Block) : List Block :=
  blocks.dropWhile fun block => (block.key,block.hash) ≠ head

def aboveHead (head : ℕ × String) (blocks : List Block) : List Block :=
  blocks.takeWhile fun block => (block.key,block.hash) ≠ head

theorem scanDelta_none (blocks : List Block) (delta : Delta Tally) : scanDelta tally none blocks delta =
    ⟨delta.foundHead,delta.newHead.orElse fun _ => headOf blocks,delta.globalDelta + blocks.length,
      delta.tallyDelta + tallyOf tally blocks⟩ := by
  induction blocks generalizing delta with
  | nil => cases delta with | mk found head global tally => cases head <;> simp [scanDelta,headOf,tallyOf]
  | cons block blocks ih =>
    rw [scanDelta,if_neg (by simp),ih]
    cases head : delta.newHead <;> simp [headOf,tallyOf,add_assoc] <;> omega

theorem scanDelta_some (head : ℕ × String) (blocks : List Block) (delta : Delta Tally) :
    scanDelta tally (some head) blocks delta =
      ⟨delta.foundHead || !(fromHead head blocks).isEmpty,delta.newHead.orElse fun _ => headOf (aboveHead head blocks),
        delta.globalDelta + (aboveHead head blocks).length,delta.tallyDelta +
          tallyOf tally (aboveHead head blocks)⟩ := by
  unfold fromHead aboveHead
  induction blocks generalizing delta with
  | nil => cases delta with | mk found head global tally => cases head <;> simp [scanDelta,headOf,tallyOf]
  | cons block blocks ih =>
    rw [scanDelta]
    by_cases here : (block.key,block.hash) = head
    · subst here
      cases delta with | mk found head global tally => cases head <;> simp [headOf,tallyOf]
    · rw [if_neg (fun same => here (Option.some.inj same).symm),ih,List.dropWhile_cons_of_pos (by simpa using here),
        List.takeWhile_cons_of_pos (by simpa using here)]
      cases newHead : delta.newHead <;> simp [headOf,tallyOf,add_assoc] <;> omega

theorem above_from (head : ℕ × String) (blocks : List Block) : aboveHead head blocks ++ fromHead head blocks = blocks :=
  List.takeWhile_append_dropWhile

def Shows (tally : Block → Tally) (state : BlockState Tally) (blocks : List Block) : Prop :=
  state.global = blocks.length ∧ state.tally = tallyOf tally blocks

private theorem build_shows (db : List Block) : Shows tally (buildState tally db) (scanDb db) := by
  rw [buildState_eq]
  exact ⟨rfl,rfl⟩

private theorem above_head {head : ℕ × String} {blocks : List Block} (found : fromHead head blocks ≠ [])
    (same : headOf (aboveHead head blocks) = none) : headOf blocks = some head := by
  have empty := headOf_none same
  have whole := above_from head blocks
  rw [empty,List.nil_append] at whole
  cases blocks with
  | nil => exact absurd whole found
  | cons block blocks =>
    have here : (block.key,block.hash) = head := by
      by_contra apart
      rw [aboveHead,List.takeWhile_cons_of_pos (by simpa using apart)] at empty
      cases empty
    rw [← here]
    rfl

variable (tally) in
private theorem refresh_shows (state : BlockState Tally) (entryCount : Option ℕ) (db : List Block) :
    (Shows tally (refreshState tally (some state) entryCount db) (scanDb db) ↔
      entryCount.any (fun count => count < state.global) = true ∨
        (∀ head ∈ state.head, fromHead head (scanDb db) = [] ∨ Shows tally state (fromHead head (scanDb db))) ∧
        (state.head = none → Shows tally state [])) ∧
    headOf (scanDb db) = (refreshState tally (some state) entryCount db).head := by
  unfold refreshState
  dsimp only
  split
  next shrunk => exact ⟨iff_of_true (build_shows db) (.inl shrunk),by rw [buildState_eq]⟩
  next stands =>
    cases top : state.head with
    | none =>
      rw [scanDelta_none]
      simp only [Option.isNone_none,Bool.not_true,Bool.false_eq_true,if_false,Option.orElse_none,zero_add]
      refine ⟨?_,?_⟩
      · simp only [stands,false_or,Option.mem_def,reduceCtorEq,false_implies,implies_true,true_and,true_implies]
        cases newest : headOf (scanDb db) with
        | none =>
          rw [headOf_none newest]
        | some head => simp [Shows,tallyOf]
      · cases newest : headOf (scanDb db) with
        | none => exact top.symm
        | some head => rfl
    | some head =>
      rw [scanDelta_some]
      simp only [Option.isNone_some,Bool.false_or,Bool.not_not,List.isEmpty_iff,Option.orElse_none,zero_add]
      split
      next gone =>
        refine ⟨iff_of_true (build_shows db) (.inr ⟨?_,by simp⟩),by rw [buildState_eq]⟩
        intro other same
        cases same
        exact .inl gone
      next found =>
        have whole := above_from head (scanDb db)
        have right : (∀ other ∈ some head, fromHead other (scanDb db) = [] ∨
          Shows tally state (fromHead other (scanDb db))) ↔
            Shows tally state (fromHead head (scanDb db)) := by
          simp [found]
        simp only [stands,false_or,reduceCtorEq,false_implies,and_true,right,Bool.false_eq_true]
        cases newest : headOf (aboveHead head (scanDb db)) with
        | none =>
          have first := above_head found newest
          rw [headOf_none newest,List.nil_append] at whole
          rw [whole]
          exact ⟨Iff.rfl,first.trans top.symm⟩
        | some newest =>
          refine ⟨?_,?_⟩
          · have length := congrArg List.length whole
            have sums := congrArg (tallyOf tally) whole
            rw [List.length_append] at length
            rw [tallyOf_append] at sums
            unfold Shows
            dsimp only
            rw [← length,← sums,add_comm state.global,add_comm state.tally,add_right_inj,add_right_inj]
          · rw [← whole,headOf,List.head?_append,Option.map_or]
            unfold headOf at newest
            rw [newest]
            rfl

end Totals

section Statement

variable {Tally : Type} [AddCancelCommMonoid Tally]

def Fresh (tally : Block → Tally) (world : World Tally) : Prop := ∀ state ∈ world.cached,
  state.global = (buildState tally world.counted).global ∧ state.tally = (buildState tally world.counted).tally

/-- A refresh starts over, or finds the blocks from the newest one of the last refresh on to be as many, and of the same
kinds, as all of them were then. -/
def Unmoved (tally : Block → Tally) (world : World Tally) : Label → Prop
  | .refresh counts => world.cached.isNone ∨ counts = true ∧ world.db.length < (scanDb world.counted).length ∨
      ∀ head ∈ headOf (scanDb world.counted), fromHead head (scanDb world.db) = [] ∨
        (fromHead head (scanDb world.db)).length = (scanDb world.counted).length ∧
          tallyOf tally (fromHead head (scanDb world.db)) = tallyOf tally (scanDb world.counted)
  | _ => True

def Headed (world : World Tally) : Prop := ∀ state ∈ world.cached, state.head = headOf (scanDb world.counted)

private theorem step_fresh (tally : Block → Tally) (world after : World Tally) (label : Label) (headed : Headed world)
    (moved : (stats (refreshState tally)).step world label = some after) :
    Headed after ∧ (Fresh tally world → (Fresh tally after ↔ Unmoved tally world label)) := by
  cases label with
  | put block | delete key =>
    cases moved
    exact ⟨headed,fun fresh => iff_of_true fresh trivial⟩
  | refresh counts =>
    cases moved
    cases cached : world.cached with
    | none =>
      refine ⟨?_,fun _ => iff_of_true ?_ (.inl (by rw [cached]; rfl))⟩
      · intro state same
        cases same
        change (buildState tally world.db).head = _
        rw [buildState_eq]
      · intro state same
        cases same
        exact ⟨rfl,rfl⟩
    | some state =>
      have spec := refresh_shows tally state (if counts then some world.db.length else none) world.db
      refine ⟨?_,fun fresh => ?_⟩
      · intro other same
        cases same
        exact spec.2.symm
      · have head := headed state cached
        obtain ⟨global,tallied⟩ := fresh state cached
        rw [buildState_eq] at global tallied
        dsimp only at global tallied
        have shows : Fresh tally { world with
            cached := some (refreshState tally (some state) (if counts then some world.db.length else none) world.db)
            counted := world.db } ↔
            Shows tally (refreshState tally (some state) (if counts then some world.db.length else none) world.db)
              (scanDb world.db) := by
          unfold Fresh Shows
          simp [buildState_eq]
        refine shows.trans (spec.1.trans ?_)
        simp only [Unmoved,cached,Option.isNone_some,Bool.false_eq_true,false_or]
        refine or_congr ?_ ?_
        · cases counts <;> simp [global]
        · rw [head]
          unfold Shows
          rw [global,tallied]
          constructor
          · intro kept other among
            rcases kept.1 other among with gone | same
            · exact .inl gone
            · exact .inr ⟨same.1.symm,same.2.symm⟩
          · intro kept
            refine ⟨fun other among => ?_,fun none => ?_⟩
            · rcases kept other among with gone | same
              · exact .inl gone
              · exact .inr ⟨same.1.symm,same.2.symm⟩
            · rw [headOf_none none]
              exact ⟨rfl,rfl⟩

/-- For either database the refreshes of a run return the totals of the database as it is, exactly when each of them
starts over or finds the blocks it counted before unmoved. -/
theorem totals_fresh (db : List Block) (labels : List Label) :
    (∀ world, (stats refreshBlockState).run ⟨db,none,[]⟩ labels = some world →
      ((∀ front reached, front <+: labels → (stats refreshBlockState).run ⟨db,none,[]⟩ front = some reached →
        Fresh blockTally reached) ↔ (stats refreshBlockState).Along (Unmoved blockTally) ⟨db,none,[]⟩ labels)) ∧
    ∀ world, (stats refreshAltBlockState).run ⟨db,none,[]⟩ labels = some world →
      ((∀ front reached, front <+: labels → (stats refreshAltBlockState).run ⟨db,none,[]⟩ front = some reached →
        Fresh altTally reached) ↔ (stats refreshAltBlockState).Along (Unmoved altTally) ⟨db,none,[]⟩ labels) := by
  refine ⟨fun world ran => ?_,fun world ran => ?_⟩
  · refine Machine.always_iff_along (step_fresh blockTally) ?_ ?_ ran
    · intro state same
      cases same
    · intro state same
      cases same
  · refine Machine.always_iff_along (step_fresh altTally) ?_ ?_ ran
    · intro state same
      cases same
    · intro state same
      cases same

instance decidableUnmoved [DecidableEq Tally] (tally : Block → Tally) (world : World Tally) :
    ∀ label, Decidable (Unmoved tally world label)
  | .put _ => isTrue trivial
  | .delete _ => isTrue trivial
  | .refresh _ => inferInstanceAs (Decidable (world.cached.isNone = true ∨ _ ∨
      ∀ head ∈ headOf (scanDb world.counted), _))

def aBlock (key : ℕ) (hash : String) : Block := ⟨key,hash,.PPLNS,18081⟩

theorem totals_fresh_added : ∃ world, (stats refreshBlockState).run ⟨[aBlock 3 "cc",aBlock 2 "bb"],none,[]⟩
    [.refresh true,.put (aBlock 4 "dd"),.refresh true] = some world ∧ Fresh blockTally world := by
  obtain ⟨world,ran⟩ := Option.isSome_iff_exists.mp (show ((stats refreshBlockState).run
    ⟨[aBlock 3 "cc",aBlock 2 "bb"],none,[]⟩ [.refresh true,.put (aBlock 4 "dd"),.refresh true]).isSome = true by rfl)
  exact ⟨world,ran,((totals_fresh _ _).1 world ran).mpr (by decide +kernel) _ world (List.prefix_refl _) ran⟩

/-- A block pruned at the one end and a block stored at the other: the count stays, and the pruned block in the
totals. -/
theorem pruned_block_counted : ¬∀ db labels world, (stats refreshAltBlockState).run ⟨db,none,[]⟩ labels = some world →
    Fresh altTally world := by
  intro fresh
  have ran : ((stats refreshAltBlockState).run ⟨[aBlock 3 "cc",aBlock 2 "bb",aBlock 1 "aa"],none,[]⟩
      [.refresh true,.delete 1,.put (aBlock 4 "dd"),.refresh true]).any (fun world =>
        world.cached.any fun state => state.global == 4 && (scanDb world.counted).length == 3) =
          true := by decide +kernel
  obtain ⟨world,ran,told⟩ := (Option.any_eq_true _ _).mp ran
  obtain ⟨state,cached,told⟩ := (Option.any_eq_true _ _).mp told
  obtain ⟨four,three⟩ := Bool.and_eq_true_iff.mp told
  have same := (fresh _ _ world ran state cached).1
  rw [buildState_eq,beq_iff_eq.mp four,beq_iff_eq.mp three] at same
  cases same

end Statement
end NodejsPool.Stats.BlockTotals
