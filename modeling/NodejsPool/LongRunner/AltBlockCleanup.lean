import NodejsPool.Common.Scans
import NodejsPool.Common.WriteBatches

/-! The long runner's cleanup of alternative blocks: newest first, at most ten thousand of a port and none older than a
year, and none that is still locked. -/
namespace NodejsPool.LongRunner.AltBlockCleanup
open Scans WriteBatches

variable {Key : Type} [LinearOrder Key]

def YEAR_MS : ℤ := 365 * (24 * 60 * 60 * 1000)

structure AltBlock where
  port : ℕ
  timestamp : ℤ
  unlocked : Bool

structure World (Key : Type) [LinearOrder Key] where
  db : SortedStore Key AltBlock
  perPortCount : ℕ → ℕ
  deletes : List Key

def visitBlock (now : ℤ) (batchSize : ℕ) (key : Key) (block : AltBlock) (world : World Key) : World Key :=
  let portCount := world.perPortCount block.port + 1
  let world := { world with perPortCount := Function.update world.perPortCount block.port portCount }
  if !block.unlocked then world
  else if portCount ≤ 10000 ∧ now - block.timestamp ≤ YEAR_MS then world
  else
    let deletes := world.deletes ++ [key]
    if batchSize ≤ deletes.length then { world with db := eraseAll deletes world.db,deletes := [] }
    else { world with deletes := deletes }

def cleanAltBlockDB (now : ℤ) (chunkSize batchSize fuel : ℕ) (db : SortedStore Key AltBlock) :
    Option (SortedStore Key AltBlock) :=
  (scanDb (visitBlock now batchSize) World.db true chunkSize fuel none ⟨db,fun _ => 0,[]⟩).map fun world =>
    eraseAll world.deletes world.db

section Fate

def newer (db : SortedStore Key AltBlock) (last : Option Key) (port : ℕ) : ℕ :=
  (db.entries.filter fun entry => !beyond true last entry.1 && entry.2.port == port).length

def doomed (now : ℤ) (db : SortedStore Key AltBlock) (entry : Key × AltBlock) : Bool :=
  entry.2.unlocked && !(decide (newer db (some entry.1) entry.2.port ≤ 10000) && decide
    (now - entry.2.timestamp ≤ YEAR_MS))

variable {now : ℤ} {start : SortedStore Key AltBlock} {key : Key} {block : AltBlock} {last : Option Key}

theorem newer_next (there : start.get key = some block) (past : beyond true last key = true)
    (next : ∀ other, (start.get other).isSome → beyond true last other = true →
      other = key ∨ beyond true (some key) other = true) (port : ℕ) :
    newer start (some key) port = newer start last port + if block.port = port then 1 else 0 := by
  obtain ⟨low,high,split⟩ := List.append_of_mem (SortedStore.get_eq_some.mp there)
  have sorted := start.sorted
  rw [split] at sorted
  obtain ⟨_,upper,below⟩ := List.pairwise_append.mp sorted
  have above := (List.pairwise_cons.mp upper).1
  have lowHere : low.filter (fun entry => !beyond true (some key) entry.1 && entry.2.port == port) = [] := by
    rw [List.filter_eq_nil_iff]
    intro entry member
    have less := below entry member (key,block) List.mem_cons_self
    simp [beyond,less]
  have lowBefore : low.filter (fun entry => !beyond true last entry.1 && entry.2.port == port) = [] := by
    rw [List.filter_eq_nil_iff]
    intro entry member
    have less := below entry member (key,block) List.mem_cons_self
    have far : beyond true last entry.1 = true := beyond_trans past (by simpa [beyond] using less)
    simp [far]
  have highSame : high.filter (fun entry => !beyond true (some key) entry.1 && entry.2.port == port) =
      high.filter fun entry => !beyond true last entry.1 && entry.2.port == port := by
    refine List.filter_congr fun entry member => ?_
    have more := above entry member
    have seen : beyond true last entry.1 = false := by
      rw [Bool.eq_false_iff]
      intro far
      have found : (start.get entry.1).isSome :=
        SortedStore.get_isSome.mpr ⟨entry.2,
          by rw [split]; exact List.mem_append_right _ (List.mem_cons_of_mem _ member)⟩
      rcases next entry.1 found far with same | after
      · exact absurd more (same ▸ lt_irrefl key)
      · rw [beyond_some] at after
        exact lt_asymm more after
    rw [seen]
    simp [beyond,le_of_lt more]
  unfold newer
  rw [split,List.filter_append,List.filter_append,lowHere,lowBefore,List.nil_append,List.nil_append,
    List.filter_cons,List.filter_cons,highSame]
  simp only [beyond_irrefl,past,Bool.not_false,Bool.true_and,Bool.not_true,Bool.false_and,beq_iff_eq,Bool.false_eq_true,
    if_false]
  split <;> simp

end Fate

section Cleanup

variable {now : ℤ} {batchSize chunkSize : ℕ} {start : SortedStore Key AltBlock} {last : Option Key} {world : World Key}

def World.batch (world : World Key) : Batch Key AltBlock := ⟨world.db,world.deletes,[]⟩

structure Halfway (now : ℤ) (start : SortedStore Key AltBlock) (last : Option Key) (world : World Key) : Prop where
  counts : ∀ port, world.perPortCount port = newer start last port
  books : ∃ dels, Agrees start ⟨dels,[]⟩ world.batch ∧ ∀ key, key ∈ dels ↔
    beyond true last key = false ∧ ∃ block, start.get key = some block ∧ doomed now start (key,block) = true

omit [LinearOrder Key] in
theorem sound_dels (dels : List Key) : (⟨dels,[]⟩ : Log Key AltBlock).Sound where
  apart _ _ _ := List.not_mem_nil
  single _ _ _ member := absurd member List.not_mem_nil

theorem Halfway.unseen (halfway : Halfway now start last world) {key : Key} (past : beyond true last key = true) :
    world.db.get key = start.get key := by
  obtain ⟨dels,agrees,asked⟩ := halfway.books
  rcases agrees.source key with same | ⟨deleted,_⟩ | ⟨_,put,_⟩
  · exact same
  · rw [((asked key).mp deleted).1] at past
    cases past
  · exact absurd put List.not_mem_nil

private theorem cleanup_rule (now : ℤ) (batchSize : ℕ) (start : SortedStore Key AltBlock) :
    Rule (visitBlock now batchSize) World.db true (Halfway now start) fun key block => start.get key = some block where
  told last world key block halfway past found := by rw [← halfway.unseen past,found]
  kept last world key block halfway past there next := by
    have unseen : ∀ other, (start.get other).isSome → beyond true last other = true →
        other = key ∨ beyond true (some key) other = true := fun other found far =>
      next other (by rw [halfway.unseen far]; exact found) far
    have counts : ∀ port, Function.update world.perPortCount block.port (world.perPortCount block.port + 1) port =
        newer start (some key) port := by
      intro port
      rw [newer_next there past unseen,Function.update_apply,halfway.counts,halfway.counts]
      by_cases same : port = block.port
      · rw [if_pos same,if_pos same.symm,same]
      · rw [if_neg same,if_neg (Ne.symm same),Nat.add_zero]
    have portCount : world.perPortCount block.port + 1 = newer start (some key) block.port := by
      rw [← counts block.port,Function.update_self]
    have seen : ∀ other block, start.get other = some block →
        (beyond true (some key) other = false ↔ beyond true last other = false ∨ other = key) :=
          fun other block found =>
      seen_next past fun far => unseen other (by rw [found]; rfl) far
    obtain ⟨dels,agrees,asked⟩ := halfway.books
    have judged : doomed now start (key,block) = true ↔ block.unlocked = true ∧
        ¬ (world.perPortCount block.port + 1 ≤ 10000 ∧ now - block.timestamp ≤ YEAR_MS) := by
      rw [portCount,doomed,Bool.and_eq_true_iff,Bool.not_eq_true',Bool.and_eq_false_iff,decide_eq_false_iff_not,
        decide_eq_false_iff_not,not_and_or]
    have keep : doomed now start (key,block) ≠ true → ∀ other, other ∈ dels ↔
        beyond true (some key) other = false ∧ ∃ block, start.get other = some block ∧
          doomed now start (other,block) = true := by
      intro spared other
      rw [asked]
      constructor
      · intro held
        obtain ⟨before,found,same,dead⟩ := held
        exact ⟨(seen other found same).mpr (.inl before),found,same,dead⟩
      · intro held
        obtain ⟨here,found,same,dead⟩ := held
        rcases (seen other found same).mp here with before | rfl
        · exact ⟨before,found,same,dead⟩
        · cases there.symm.trans same
          exact absurd dead spared
    have drop : doomed now start (key,block) = true → ∀ other, other ∈ key::dels ↔
        beyond true (some key) other = false ∧ ∃ block, start.get other = some block ∧
          doomed now start (other,block) = true := by
      intro dead other
      rw [List.mem_cons,asked]
      constructor
      · intro held
        rcases held with rfl | ⟨before,found,same,dead⟩
        · exact ⟨beyond_irrefl other,block,there,dead⟩
        · exact ⟨(seen other found same).mpr (.inl before),found,same,dead⟩
      · intro held
        obtain ⟨here,found,same,dead⟩ := held
        rcases (seen other found same).mp here with before | same
        · exact .inr ⟨before,found,same,dead⟩
        · exact .inl same
    unfold visitBlock
    dsimp only
    split
    next locked =>
      have spared : doomed now start (key,block) ≠ true := fun dead => by simp [(judged.mp dead).1] at locked
      exact ⟨⟨counts,dels,agrees,keep spared⟩,fun _ _ found => found⟩
    next unlocked =>
    rw [Bool.not_eq_true,Bool.not_eq_false'] at unlocked
    split
    next recent =>
      have spared : doomed now start (key,block) ≠ true := fun dead => (judged.mp dead).2 recent
      exact ⟨⟨counts,dels,agrees,keep spared⟩,fun _ _ found => found⟩
    next old =>
    have dead := judged.mpr ⟨unlocked,old⟩
    have waiting := agrees.delete key
    split
    · refine ⟨⟨counts,key::dels,waiting.flush (sound_dels _),drop dead⟩,fun other _ found => ?_⟩
      rcases flush_isSome waiting found with before | ⟨_,put⟩
      · exact before
      · exact absurd put List.not_mem_nil
    · exact ⟨⟨counts,key::dels,waiting,drop dead⟩,fun _ _ found => found⟩

theorem cleanAltBlockDB_eq {fuel : ℕ} (some : 0 < chunkSize) (enough : start.entries.length < fuel) :
    cleanAltBlockDB now chunkSize batchSize fuel start =
      Option.some (start.filter fun entry => !doomed now start entry) := by
  have begun : Halfway now start none (⟨start,fun _ => 0,[]⟩ : World Key) := by
    refine ⟨fun port => ?_,[],agrees_start start,fun key => ?_⟩
    · simp [newer,beyond]
    · simp [beyond]
  have length : (remaining true none start).length < fuel := by
    refine lt_of_le_of_lt (List.length_filter_le _ _) ?_
    simpa [ordered] using enough
  obtain ⟨final,stop,ran,halfway,none⟩ := (cleanup_rule now batchSize start).scan some begun length
  obtain ⟨dels,agrees,asked⟩ := halfway.books
  rw [cleanAltBlockDB,ran,Option.map_some,Option.some.injEq]
  refine SortedStore.ext_get fun key => ?_
  change final.batch.flush.db.get key = _
  rw [SortedStore.get_filter]
  by_cases deleted : key ∈ dels
  · obtain ⟨_,block,there,dead⟩ := (asked key).mp deleted
    rw [flush_deleted (sound_dels dels) agrees deleted,there,Option.filter_some,dead]
    rfl
  · rw [flush_untouched agrees deleted fun _ => List.not_mem_nil]
    cases there : start.get key with
    | none => rfl
    | some block =>
      have spared : doomed now start (key,block) = false := by
        rw [Bool.eq_false_iff]
        intro dead
        have past : beyond true stop key = true := by
          by_contra seen
          exact deleted ((asked key).mpr ⟨Bool.eq_false_iff.mpr seen,block,there,dead⟩)
        have found := none key (by rw [halfway.unseen past,there]; rfl)
        rw [past] at found
        cases found
      rw [Option.filter_some,spared]
      rfl

end Cleanup
end NodejsPool.LongRunner.AltBlockCleanup
