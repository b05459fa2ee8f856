import NodejsPool.Common.Reservations
import NodejsPool.Pool.Submissions

/-! A submission key is reserved by at most one share of a job, and of a template that shares
them; a share is answered once, and the sets stay within their limits. -/
namespace NodejsPool.Pool.Submissions
open Async Reservations Function Finset

variable (settings : Settings)
  {job template index : ℕ} {nonceTest : String} {throttle : Throttle} {next : World} {submit : Submit}

def Status.tracksJob : Status → Bool
  | .processing => true
  | .completed shareAccepted _ => shareAccepted.isSome
  | _ => false

def Status.tracksTemplate : Status → Bool
  | .processing => true
  | .completed shareAccepted _ => shareAccepted = some true
  | _ => false

def Status.credited : Status → Bool
  | .completed shareAccepted _ => shareAccepted = some true
  | _ => false

def Status.replied : Status → Bool
  | .answered => true
  | .completed _ wasRemoved => !wasRemoved
  | _ => false

def ofJob (job : ℕ) (submit : Submit) : Bool := decide (submit.job = job) && submit.status.tracksJob

def ofTemplate (template : ℕ) (submit : Submit) : Bool :=
  settings.sharedTemplateSubmissionMode template && decide (submit.blockTemplate = template) &&
    submit.status.tracksTemplate

def World.repliesTo (world : World) (index : ℕ) : ℕ := world.replies.countP fun reply => decide (reply.1 = index)

def World.repliedAt (world : World) (index : ℕ) : Bool :=
  world.submits[index]?.any fun submit => submit.status.replied

theorem Status.tracksJob_of_credited {status : Status} (credited : status.credited = true) :
    status.tracksJob = true := by
  cases status with
  | completed shareAccepted wasRemoved =>
    have accepted : shareAccepted = some true := of_decide_eq_true credited
    subst accepted
    rfl
  | _ => cases credited

theorem Status.tracksTemplate_of_credited {status : Status} (credited : status.credited = true) :
    status.tracksTemplate = true := by
  cases status with
  | completed shareAccepted wasRemoved => exact credited
  | _ => cases credited

theorem rejection_none (free : rejection settings world job template nonceTest throttle = none) :
    nonceTest ∉ world.submissions job ∧
      (0 < getTrackedSubmissionLimit throttle →
        ((world.submissions job).card : ℚ) < getTrackedSubmissionLimit throttle) ∧
      (settings.sharedTemplateSubmissionMode template = true → nonceTest ∉ world.templateSubmissions template ∧
        (world.templateSubmissions template).card < sharedTemplateSubmissionLimit) := by
  unfold rejection at free
  split at free
  · cases free
  next unseen =>
  split at free
  · cases free
  next untracked =>
  split at free
  · cases free
  next room =>
  split at free
  · cases free
  next spare =>
  refine ⟨untracked,fun positive => ?_,fun shared => ⟨fun seen => unseen ⟨shared,seen⟩,?_⟩⟩
  · by_contra full
    exact room (decide_eq_true ⟨positive,not_lt.mp full⟩)
  · by_contra full
    exact spare ⟨shared,Nat.le_of_not_lt full⟩

private theorem update_insert_erase {sets : ℕ → Finset String} {key : String} (fresh : key ∉ sets index) :
    update (update sets index (insert key (sets index))) index
      ((update sets index (insert key (sets index)) index).erase key) = sets := by
  rw [update_self,erase_insert fresh,update_idem,update_eq_self]

theorem handleSubmitRequest_cases (world : World) (job template : ℕ) (nonceTest : String) (refused : Option String)
    (throttle : Throttle) (throws : Bool) :
    (∃ error, handleSubmitRequest settings world job template nonceTest refused throttle throws =
      (world.add ⟨job,template,nonceTest,.answered⟩).sendReply world.submits.length (some error)) ∨
    (rejection settings world job template nonceTest throttle = none ∧
      if throws then
        handleSubmitRequest settings world job template nonceTest refused throttle throws =
          world.add ⟨job,template,nonceTest,.threw⟩
      else
        handleSubmitRequest settings world job template nonceTest refused throttle throws =
          (track settings world job template nonceTest).add ⟨job,template,nonceTest,.processing⟩) := by
  cases early : refused.or (rejection settings world job template nonceTest throttle) with
  | some error =>
    refine .inl ⟨error,?_⟩
    simp only [handleSubmitRequest,early]
  | none =>
    obtain ⟨_,free⟩ := Option.or_eq_none_iff.mp early
    refine .inr ⟨free,?_⟩
    obtain ⟨untracked,_,unseen⟩ := rejection_none settings free
    cases throws with
    | false => simp only [handleSubmitRequest,early,Bool.false_eq_true,if_false]
    | true =>
      simp only [handleSubmitRequest,early,if_true]
      unfold track
      have jobs := update_insert_erase untracked
      cases mode : settings.sharedTemplateSubmissionMode template with
      | false =>
        simp only [World.trackJobSubmission,World.untrackJobSubmission,jobs,Bool.false_eq_true,if_false]
      | true =>
        have templates := update_insert_erase (unseen mode).1
        simp only [World.trackJobSubmission,World.untrackJobSubmission,World.trackSharedTemplateSubmission,
          World.untrackSharedTemplateSubmission,jobs,templates,if_true]

private theorem handleShareProcessed_eq (world : World) (index : ℕ) (submit : Submit) (shareAccepted : Option Bool) :
    ∃ replies, handleShareProcessed settings world index submit shareAccepted =
        { world.setStatus index submit (.completed shareAccepted (world.removed (settings.miner submit.job))) with
          replies := replies } ∧
      (if world.removed (settings.miner submit.job) then replies = world.replies
      else ∃ error, replies = world.replies ++ [(index,error)]) := by
  unfold handleShareProcessed
  cases gone : world.removed (settings.miner submit.job) with
  | true => exact ⟨world.replies,rfl,rfl⟩
  | false =>
    rcases shareAccepted with _ | (_ | _)
    · exact ⟨_,rfl,some throttledDown,rfl⟩
    · exact ⟨_,rfl,some lowDifficulty,rfl⟩
    · exact ⟨_,rfl,none,rfl⟩

private theorem onShareProcessed_released (world : World) (index : ℕ) (submit : Submit) (shareAccepted : Option Bool) :
    ∃ released, onShareProcessed settings world index submit shareAccepted =
        handleShareProcessed settings released index submit shareAccepted ∧
      released = { world with
        submissions :=
          if shareAccepted = none then
            update world.submissions submit.job ((world.submissions submit.job).erase submit.nonceTest)
          else world.submissions
        templateSubmissions :=
          if settings.sharedTemplateSubmissionMode submit.blockTemplate ∧ shareAccepted ≠ some true then
            update world.templateSubmissions submit.blockTemplate
              ((world.templateSubmissions submit.blockTemplate).erase submit.nonceTest)
          else world.templateSubmissions } := by
  refine ⟨_,rfl,?_⟩
  split_ifs <;> rfl

theorem onShareProcessed_fields (world : World) (index : ℕ) (submit : Submit) (shareAccepted : Option Bool) :
    let next := onShareProcessed settings world index submit shareAccepted
    next.submissions =
        (if shareAccepted = none then
          update world.submissions submit.job ((world.submissions submit.job).erase submit.nonceTest)
        else world.submissions) ∧
      next.templateSubmissions =
        (if settings.sharedTemplateSubmissionMode submit.blockTemplate ∧ shareAccepted ≠ some true then
          update world.templateSubmissions submit.blockTemplate
            ((world.templateSubmissions submit.blockTemplate).erase submit.nonceTest)
        else world.templateSubmissions) ∧
      next.submits = world.submits.set index
        { submit with status := .completed shareAccepted (world.removed (settings.miner submit.job)) } ∧
      (if world.removed (settings.miner submit.job) then next.replies = world.replies
      else ∃ error, next.replies = world.replies ++ [(index,error)]) := by
  obtain ⟨released,same,rfl⟩ := onShareProcessed_released settings world index submit shareAccepted
  obtain ⟨replies,answered,told⟩ := handleShareProcessed_eq settings _ index submit shareAccepted
  intro next
  have whole : next = _ := same.trans answered
  rw [whole]
  exact ⟨rfl,rfl,rfl,told⟩

structure Tracked (world : World) : Prop where
  jobs : ∀ job, Reserved (ofJob job) Submit.nonceTest world.submits (world.submissions job)
  templates : ∀ template,
    Reserved (ofTemplate settings template) Submit.nonceTest world.submits (world.templateSubmissions template)
  replies : ∀ index, world.repliesTo index = if world.repliedAt index then 1 else 0
  limited : ∀ template, (world.templateSubmissions template).card ≤ sharedTemplateSubmissionLimit

theorem tracked_empty : Tracked settings emptyWorld where
  jobs _ := reserved_start
  templates _ := reserved_start
  replies _ := rfl
  limited _ := Nat.zero_le _

variable {settings}
variable {world : World}

theorem Tracked.idle (tracked : Tracked settings world) (submit : Submit)
    (job : submit.status.tracksJob = false) (template : submit.status.tracksTemplate = false) :
    (∀ job, Reserved (ofJob job) Submit.nonceTest (world.submits ++ [submit]) (world.submissions job)) ∧
      ∀ template, Reserved (ofTemplate settings template) Submit.nonceTest (world.submits ++ [submit])
        (world.templateSubmissions template) := by
  constructor
  · intro found
    exact (tracked.jobs found).pass (by rw [ofJob,job,Bool.and_false])
  · intro found
    exact (tracked.templates found).pass (by rw [ofTemplate,template,Bool.and_false])

theorem repliedAt_append (added : next.submits = world.submits ++ [submit]) (index : ℕ) : next.repliedAt index =
      if index = world.submits.length then submit.status.replied else world.repliedAt index := by
  unfold World.repliedAt
  rw [added]
  split
  · next last =>
    subst last
    rw [List.getElem?_concat_length,Option.any_some]
  · next other =>
    rcases Nat.lt_or_gt_of_ne other with before | after
    · rw [List.getElem?_append_left before]
    · rw [List.getElem?_eq_none (Nat.le_of_lt after),List.getElem?_eq_none]
      rw [List.length_append,List.length_singleton]
      exact after

theorem repliedAt_set {changed : Submit}
    (there : world.submits[index]? = some submit) (set : next.submits = world.submits.set index changed) (other : ℕ) :
    next.repliedAt other = if other = index then changed.status.replied else world.repliedAt other := by
  obtain ⟨inside,_⟩ := List.getElem?_eq_some_iff.mp there
  unfold World.repliedAt
  rw [set]
  split
  · next same =>
    subst same
    rw [List.getElem?_set_self inside,Option.any_some]
  · next different => rw [List.getElem?_set_ne (Ne.symm different)]

theorem repliedAt_length (world : World) : world.repliedAt world.submits.length = false := by
  unfold World.repliedAt
  rw [List.getElem?_eq_none (Nat.le_refl _),Option.any_none]

theorem repliesTo_append {error : Option String} (told : next.replies = world.replies ++ [(index,error)]) (other : ℕ) :
    next.repliesTo other = world.repliesTo other + if other = index then 1 else 0 := by
  unfold World.repliesTo
  rw [told,List.countP_append,List.countP_singleton]
  by_cases same : other = index
  · simp [same]
  · have apart : index ≠ other := fun equal => same equal.symm
    simp [same,apart]

theorem Tracked.replies_silent (tracked : Tracked settings world)
    (added : next.submits = world.submits ++ [submit]) (quiet : submit.status.replied = false)
    (told : next.replies = world.replies) (index : ℕ) :
    next.repliesTo index = if next.repliedAt index then 1 else 0 := by
  have same : next.repliesTo index = world.repliesTo index := by
    unfold World.repliesTo
    rw [told]
  rw [same,tracked.replies index,repliedAt_append added,quiet]
  by_cases last : index = world.submits.length
  · subst last
    rw [repliedAt_length,if_pos rfl]
  · rw [if_neg last]

theorem Tracked.answer (tracked : Tracked settings world) (error : Option String)
    (answered : submit.status = .answered) :
    Tracked settings ((world.add submit).sendReply world.submits.length error) := by
  obtain ⟨jobs,templates⟩ := tracked.idle submit (by rw [answered]; rfl) (by rw [answered]; rfl)
  refine ⟨jobs,templates,fun index => ?_,tracked.limited⟩
  have replied : submit.status.replied = true := by
    rw [answered]
    rfl
  have counted : ((world.add submit).sendReply world.submits.length error).repliesTo index =
      world.repliesTo index + if index = world.submits.length then 1 else 0 := repliesTo_append rfl index
  have there : ((world.add submit).sendReply world.submits.length error).repliedAt index =
      if index = world.submits.length then submit.status.replied else world.repliedAt index :=
      repliedAt_append rfl index
  rw [counted,there,tracked.replies index,replied]
  by_cases last : index = world.submits.length
  · subst last
    simp [repliedAt_length]
  · simp [last]

theorem Tracked.threw (tracked : Tracked settings world) (thrown : submit.status = .threw) :
    Tracked settings (world.add submit) := by
  obtain ⟨jobs,templates⟩ := tracked.idle submit (by rw [thrown]; rfl) (by rw [thrown]; rfl)
  refine ⟨jobs,templates,?_,tracked.limited⟩
  exact tracked.replies_silent rfl (by rw [thrown]; rfl) rfl

theorem track_fields (settings : Settings) (world : World) (job template : ℕ) (nonceTest : String) :
    let next := track settings world job template nonceTest
    next.submissions = update world.submissions job (insert nonceTest (world.submissions job)) ∧
      next.templateSubmissions =
        (if settings.sharedTemplateSubmissionMode template then
          update world.templateSubmissions template (insert nonceTest (world.templateSubmissions template))
        else world.templateSubmissions) ∧
      next.submits = world.submits ∧ next.replies = world.replies := by
  unfold track
  split_ifs <;> exact ⟨rfl,rfl,rfl,rfl⟩

theorem Tracked.process (tracked : Tracked settings world)
    (free : rejection settings world job template nonceTest throttle = none) :
    Tracked settings ((track settings world job template nonceTest).add ⟨job,template,nonceTest,.processing⟩) := by
  obtain ⟨untracked,_,unseen⟩ := rejection_none settings free
  obtain ⟨submissions,templateSubmissions,submits,replies⟩ := track_fields settings world job template nonceTest
  refine ⟨?_,?_,?_,?_⟩
  · change ∀ found, Reserved _ _ (_ ++ _) ((track settings world job template nonceTest).submissions found)
    rw [submits,submissions]
    refine reserve_in tracked.jobs untracked (by simp [ofJob,Status.tracksJob]) fun found other => ?_
    simp [ofJob,Ne.symm other]
  · change ∀ found, Reserved _ _ (_ ++ _) ((track settings world job template nonceTest).templateSubmissions found)
    rw [submits,templateSubmissions]
    cases mode : settings.sharedTemplateSubmissionMode template with
    | true =>
      have busy : ofTemplate settings template ⟨job,template,nonceTest,.processing⟩ = true := by
        simp [ofTemplate,Status.tracksTemplate,mode]
      refine reserve_in tracked.templates (unseen mode).1 busy fun found other => ?_
      simp [ofTemplate,Ne.symm other]
    | false =>
      intro found
      refine (tracked.templates found).pass ?_
      by_cases same : template = found
      · subst same
        simp [ofTemplate,mode]
      · simp [ofTemplate,same]
  · exact tracked.replies_silent (congrArg (· ++ [_]) submits) rfl replies
  · change ∀ found, ((track settings world job template nonceTest).templateSubmissions found).card ≤ _
    rw [templateSubmissions]
    split
    · next mode => exact card_insert_in tracked.limited (unseen mode).2 nonceTest
    · exact tracked.limited

theorem Tracked.complete_jobs (tracked : Tracked settings world)
    (there : world.submits[index]? = some submit) (busy : submit.status = .processing)
    (shareAccepted : Option Bool) (wasRemoved : Bool) (found : ℕ) : Reserved (ofJob found) Submit.nonceTest
      (world.submits.set index { submit with status := .completed shareAccepted wasRemoved })
      ((if shareAccepted = none then
          update world.submissions submit.job ((world.submissions submit.job).erase submit.nonceTest)
        else world.submissions) found) := by
  cases shareAccepted with
  | none =>
    rw [if_pos rfl]
    refine release_in submit.job tracked.jobs { submit with status := .completed none wasRemoved } there rfl ?_ ?_
      (fun other differs => ?_) found
    · simp [ofJob,busy,Status.tracksJob]
    · simp [ofJob,Status.tracksJob]
    · simp [ofJob,Ne.symm differs]
  | some judged =>
    rw [if_neg nofun]
    refine (tracked.jobs found).keep there rfl ?_
    simp [ofJob,busy,Status.tracksJob]

private theorem Tracked.complete_templates (tracked : Tracked settings world)
    (there : world.submits[index]? = some submit) (busy : submit.status = .processing)
    (shareAccepted : Option Bool) (wasRemoved : Bool) (found : ℕ) :
    Reserved (ofTemplate settings found) Submit.nonceTest
      (world.submits.set index { submit with status := .completed shareAccepted wasRemoved })
      ((if settings.sharedTemplateSubmissionMode submit.blockTemplate ∧ shareAccepted ≠ some true then
          update world.templateSubmissions submit.blockTemplate
            ((world.templateSubmissions submit.blockTemplate).erase submit.nonceTest)
        else world.templateSubmissions) found) := by
  split
  · next released =>
    refine release_in submit.blockTemplate tracked.templates
      { submit with status := .completed shareAccepted wasRemoved } there rfl ?_ ?_ (fun other differs => ?_) found
    · simp [ofTemplate,busy,Status.tracksTemplate,released.1]
    · simp [ofTemplate,Status.tracksTemplate,released.2]
    · simp [ofTemplate,Ne.symm differs]
  · next retained =>
    refine (tracked.templates found).keep there rfl ?_
    by_cases own : submit.blockTemplate = found
    · subst own
      cases mode : settings.sharedTemplateSubmissionMode submit.blockTemplate with
      | false => simp [ofTemplate,mode]
      | true =>
        have accepted : shareAccepted = some true := by
          by_contra refused
          exact retained ⟨mode,refused⟩
        simp [ofTemplate,mode,busy,Status.tracksTemplate,accepted]
    · simp [ofTemplate,own]

theorem Tracked.complete (tracked : Tracked settings world)
    (there : world.submits[index]? = some submit) (busy : submit.status = .processing) (shareAccepted : Option Bool) :
    Tracked settings (onShareProcessed settings world index submit shareAccepted) := by
  obtain ⟨submissions,templateSubmissions,submits,told⟩ :=
    onShareProcessed_fields settings world index submit shareAccepted
  refine ⟨?_,?_,fun found => ?_,?_⟩
  · rw [submits,submissions]
    exact tracked.complete_jobs there busy shareAccepted _
  · rw [submits,templateSubmissions]
    exact tracked.complete_templates there busy shareAccepted _
  · have waiting : world.repliedAt index = false := by
      rw [World.repliedAt,there,Option.any_some,busy]
      rfl
    have before := tracked.replies found
    rw [repliedAt_set there submits]
    cases gone : world.removed (settings.miner submit.job) with
    | true =>
      rw [gone,if_pos rfl] at told
      have same : (onShareProcessed settings world index submit shareAccepted).repliesTo found =
          world.repliesTo found := by
        unfold World.repliesTo
        rw [told]
      rw [same,before]
      by_cases own : found = index
      · subst own
        simp [waiting,Status.replied]
      · simp [own]
    | false =>
      rw [gone,if_neg Bool.false_ne_true] at told
      obtain ⟨error,answered⟩ := told
      rw [repliesTo_append answered,before]
      by_cases own : found = index
      · subst own
        simp [waiting,Status.replied]
      · simp [own]
  · rw [templateSubmissions]
    split
    · exact card_erase_in tracked.limited _ _
    · exact tracked.limited

theorem Tracked.step (tracked : Tracked settings world) {label : Label} {next : World}
    (moved : step settings world label = some next) : Tracked settings next := by
  cases label with
  | submit job template nonceTest refused throttle throws =>
    simp only [Submissions.step] at moved
    split at moved
    · cases moved
    · cases moved
      rcases handleSubmitRequest_cases settings world job template nonceTest refused throttle throws with
        ⟨error,answered⟩ | ⟨free,taken⟩
      · rw [answered]
        exact tracked.answer (some error) rfl
      · cases throws with
        | true =>
          rw [if_pos rfl] at taken
          rw [taken]
          exact tracked.threw rfl
        | false =>
          rw [if_neg Bool.false_ne_true] at taken
          rw [taken]
          exact tracked.process free
  | complete index shareAccepted =>
    simp only [Submissions.step] at moved
    split at moved
    · cases moved
    · next submit there =>
      split at moved
      · next busy =>
        cases moved
        exact tracked.complete there busy shareAccepted
      · cases moved
        exact tracked
  | removeMiner miner =>
    cases moved
    exact ⟨tracked.jobs,tracked.templates,tracked.replies,tracked.limited⟩

theorem tracked_reachable (reached : (machine settings).Reachable world) : Tracked settings world := by
  apply reached.invariant (Tracked settings)
  · rintro _ rfl
    exact tracked_empty settings
  · intro before after label tracked _ moved
    exact tracked.step moved

private theorem rejection_released (throttle : Throttle) (untracked : nonceTest ∉ world.submissions job)
    (unseen : settings.sharedTemplateSubmissionMode template = true → nonceTest ∉ world.templateSubmissions template) :
    rejection settings world job template nonceTest throttle ≠ some duplicateShare := by
  unfold rejection
  rw [if_neg fun seen => unseen seen.1 seen.2,if_neg untracked]
  split_ifs
  · decide
  · decide
  · exact nofun

theorem released_unheard (there : world.submits[index]? = some submit) (busy : submit.status = .processing)
    (moved : step settings world (.complete index none) = some next) (throttle : Throttle) :
    rejection settings next submit.job submit.blockTemplate submit.nonceTest throttle ≠ some duplicateShare := by
  simp only [Submissions.step,there,busy,if_true] at moved
  cases moved
  obtain ⟨submissions,templateSubmissions,_⟩ := onShareProcessed_fields settings world index submit none
  apply rejection_released
  · rw [submissions,if_pos rfl,update_self]
    exact notMem_erase _ _
  · intro mode
    rw [templateSubmissions,if_pos ⟨mode,nofun⟩,update_self]
    exact notMem_erase _ _

theorem submissions_step {label : Label} (moved : step settings world label = some next) (job : ℕ) :
    next.submissions job ⊆ world.submissions job ∨
      ∃ template nonceTest refused throttle throws, label = .submit job template nonceTest refused throttle throws ∧
        next.submissions job = insert nonceTest (world.submissions job) ∧
        (0 < getTrackedSubmissionLimit throttle →
          ((world.submissions job).card : ℚ) < getTrackedSubmissionLimit throttle) := by
  cases label with
  | submit own template nonceTest refused throttle throws =>
    simp only [Submissions.step] at moved
    split at moved
    · cases moved
    cases moved
    rcases handleSubmitRequest_cases settings world own template nonceTest refused throttle throws with
      ⟨error,answered⟩ | ⟨free,taken⟩
    · rw [answered]
      exact .inl (Subset.refl _)
    obtain ⟨_,room,_⟩ := rejection_none settings free
    cases throws with
    | true =>
      rw [if_pos rfl] at taken
      rw [taken]
      exact .inl (Subset.refl _)
    | false =>
      rw [if_neg Bool.false_ne_true] at taken
      rw [taken]
      change (track settings world own template nonceTest).submissions job ⊆ _ ∨ ∃ _ _ _ _ _, _ ∧
        (track settings world own template nonceTest).submissions job = _ ∧ _
      rw [(track_fields settings world own template nonceTest).1]
      by_cases same : job = own
      · subst same
        rw [update_self]
        exact .inr ⟨template,nonceTest,refused,throttle,false,rfl,rfl,room⟩
      · rw [update_of_ne same]
        exact .inl (Subset.refl _)
  | complete index shareAccepted =>
    left
    simp only [Submissions.step] at moved
    split at moved
    · cases moved
    next submit there =>
    split at moved
    · cases moved
      rw [(onShareProcessed_fields settings world index submit shareAccepted).1]
      split
      · by_cases same : job = submit.job
        · subst same
          rw [update_self]
          exact erase_subset _ _
        · rw [update_of_ne same]
      · exact Subset.refl _
    · cases moved
      exact Subset.refl _
  | removeMiner miner =>
    cases moved
    exact .inl (Subset.refl _)

/-- The submits of a job come under a positive limit of at most `limit`. -/
def limitedBy (job : ℕ) (limit : ℚ) (_ : World) : Label → Prop
  | .submit own _ _ _ throttle _ =>
    own = job → 0 < getTrackedSubmissionLimit throttle ∧ getTrackedSubmissionLimit throttle ≤ limit
  | _ => True

theorem submissions_limited (settings : Settings) {limit : ℚ} (positive : 0 < limit)
    (reached : (machine settings).ReachableBy (limitedBy job limit) world) :
    ((world.submissions job).card : ℚ) < limit + 1 := by
  apply reached.invariant fun world => ((world.submissions job).card : ℚ) < limit + 1
  · rintro _ rfl
    have start : ((emptyWorld.submissions job).card : ℚ) = 0 := by
      rw [emptyWorld,Finset.card_empty,Nat.cast_zero]
    rw [start]
    exact add_pos positive one_pos
  · intro before after label small may moved
    rcases submissions_step moved job with fewer | ⟨template,nonceTest,refused,throttle,throws,rfl,more,room⟩
    · exact lt_of_le_of_lt (Nat.cast_le.mpr (Finset.card_le_card fewer)) small
    · obtain ⟨active,low⟩ := may rfl
      have below : ((before.submissions job).card : ℚ) < limit := lt_of_lt_of_le (room active) low
      have grown : ((after.submissions job).card : ℚ) ≤ (before.submissions job).card + 1 := by
        rw [more]
        exact_mod_cast Finset.card_insert_le _ _
      exact lt_of_le_of_lt grown (add_lt_add_of_lt_of_le below le_rfl)

theorem submit_throws {refused : Option String}
    (moved : step settings world (.submit job template nonceTest refused throttle true) = some next) :
    next.submissions = world.submissions ∧ next.templateSubmissions = world.templateSubmissions := by
  simp only [Submissions.step] at moved
  split at moved
  · cases moved
  cases moved
  rcases handleSubmitRequest_cases settings world job template nonceTest refused throttle true with
    ⟨error,answered⟩ | ⟨_,taken⟩
  · rw [answered]
    exact ⟨rfl,rfl⟩
  · rw [if_pos rfl] at taken
    rw [taken]
    exact ⟨rfl,rfl⟩

def creditedOnJob (job : ℕ) (submit : Submit) : Bool := decide (submit.job = job) && submit.status.credited

def creditedOnTemplate (template : ℕ) (submit : Submit) : Bool :=
  decide (submit.blockTemplate = template) && submit.status.credited

private theorem Tracked.credited_job (tracked : Tracked settings world) (job : ℕ) (nonceTest : String) :
    world.submits.countP (fun submit => creditedOnJob job submit && decide (submit.nonceTest = nonceTest)) ≤ 1 := by
  refine (tracked.jobs job).at_most_once (fun submit credited => ?_) nonceTest
  obtain ⟨own,accepted⟩ := Bool.and_eq_true_iff.mp credited
  exact Bool.and_eq_true_iff.mpr ⟨own,Status.tracksJob_of_credited accepted⟩

private theorem Tracked.credited_template (tracked : Tracked settings world)
    (shared : settings.sharedTemplateSubmissionMode template = true) (nonceTest : String) : world.submits.countP
      (fun submit => creditedOnTemplate template submit && decide (submit.nonceTest = nonceTest)) ≤ 1 := by
  refine (tracked.templates template).at_most_once (fun submit credited => ?_) nonceTest
  obtain ⟨own,accepted⟩ := Bool.and_eq_true_iff.mp credited
  rw [ofTemplate,shared,own,Status.tracksTemplate_of_credited accepted]
  rfl

theorem Tracked.answered (tracked : Tracked settings world) (there : world.submits[index]? = some submit) :
    (world.repliesTo index = 1 ↔
      submit.status = .answered ∨ ∃ shareAccepted, submit.status = .completed shareAccepted false) := by
  rw [tracked.replies index,World.repliedAt,there,Option.any_some]
  cases submit.status with
  | answered | processing => simp [Status.replied]
  | completed shareAccepted wasRemoved => cases wasRemoved <;> simp [Status.replied]
  | threw => simp [Status.replied]

private theorem Tracked.replied_once (tracked : Tracked settings world) (index : ℕ) : world.repliesTo index ≤ 1 := by
  rw [tracked.replies index]
  split <;> omega

/-- One accepted share for each key of a job and of a sharing template, one reply at most for each
share, released keys that can come again, and sets that grow below their limits only. -/
theorem submissions_once (settings : Settings) {world : World} (reached : (machine settings).Reachable world) :
    (∀ job nonceTest,
      world.submits.countP (fun submit => creditedOnJob job submit && decide (submit.nonceTest = nonceTest)) ≤ 1) ∧
    (∀ template nonceTest, settings.sharedTemplateSubmissionMode template = true →
      world.submits.countP
        (fun submit => creditedOnTemplate template submit && decide (submit.nonceTest = nonceTest)) ≤ 1) ∧
    (∀ index submit next, world.submits[index]? = some submit → submit.status = .processing →
      step settings world (.complete index none) = some next → ∀ throttle,
        rejection settings next submit.job submit.blockTemplate submit.nonceTest throttle ≠ some duplicateShare) ∧
    (∀ job template nonceTest refused throttle next,
      step settings world (.submit job template nonceTest refused throttle true) = some next →
        next.submissions = world.submissions ∧ next.templateSubmissions = world.templateSubmissions) ∧
    (∀ index, world.repliesTo index ≤ 1) ∧
    (∀ index submit, world.submits[index]? = some submit → (world.repliesTo index = 1 ↔
      submit.status = .answered ∨ ∃ shareAccepted, submit.status = .completed shareAccepted false)) ∧
    (∀ template, (world.templateSubmissions template).card ≤ sharedTemplateSubmissionLimit) ∧
    (∀ label next job, step settings world label = some next → next.submissions job ⊆ world.submissions job ∨
      ∃ template nonceTest refused throttle throws, label = .submit job template nonceTest refused throttle throws ∧
        next.submissions job = insert nonceTest (world.submissions job) ∧
        (0 < getTrackedSubmissionLimit throttle →
          ((world.submissions job).card : ℚ) < getTrackedSubmissionLimit throttle)) := by
  have tracked := tracked_reachable reached
  refine ⟨tracked.credited_job,fun template nonceTest shared => tracked.credited_template shared nonceTest,?_,?_,
    tracked.replied_once,fun index submit there => tracked.answered there,tracked.limited,?_⟩
  · intro index submit next there busy moved
    exact released_unheard there busy moved
  · intro job template nonceTest refused throttle next moved
    exact submit_throws moved
  · intro label next job moved
    exact submissions_step moved job

def lone : Settings := ⟨fun _ => 0,fun _ => true⟩

def proxied : Throttle := ⟨1,1,true⟩
def direct : Throttle := ⟨1,1,false⟩

theorem submissions_once_lone :
    ∃ world, (machine lone).Reachable world ∧ world.submits.map Submit.status = [.completed (some true) false] ∧
      world.submits.countP (fun submit => creditedOnJob 0 submit && decide (submit.nonceTest = "00000001")) ≤ 1 := by
  have ran : ((machine lone).run emptyWorld
      [.submit 0 0 "00000001" none direct false,.complete 0 (some true)]).map
        (fun world => world.submits.map Submit.status) = some [.completed (some true) false] := by decide +kernel
  obtain ⟨world,ran,done⟩ := Option.map_eq_some_iff.mp ran
  have reached := Machine.reachable_run rfl ran
  exact ⟨world,reached,done,(submissions_once lone reached).1 0 "00000001"⟩

theorem submissions_limited_direct : ∃ world,
    (machine lone).ReachableBy (limitedBy 0 (getTrackedSubmissionLimit direct)) world ∧
      ((world.submissions 0).card : ℚ) < getTrackedSubmissionLimit direct + 1 := by
  have positive : 0 < getTrackedSubmissionLimit direct := by decide +kernel
  obtain ⟨world,moved⟩ : ∃ world, (machine lone).step emptyWorld (.submit 0 0 "01" none direct false) = some world :=
    ⟨_,rfl⟩
  have reached : (machine lone).ReachableBy (limitedBy 0 (getTrackedSubmissionLimit direct)) world := by
    refine .step (.initial rfl) ?_ moved
    intro _
    exact ⟨positive,le_rfl⟩
  exact ⟨world,reached,submissions_limited lone positive reached⟩

private theorem unanswered_run {labels : List Label} {status : Status} (ran : ((machine lone).run emptyWorld labels).map
      (fun world => (world.submits.map Submit.status,world.repliesTo 0)) = some ([status],0)) :
    ∃ world, (machine lone).Reachable world ∧ world.submits.map Submit.status = [status] ∧ world.repliesTo 0 = 0 := by
  obtain ⟨world,ran,seen⟩ := Option.map_eq_some_iff.mp ran
  obtain ⟨done,unanswered⟩ := Prod.ext_iff.mp seen
  exact ⟨world,Machine.reachable_run rfl ran,done,unanswered⟩

/-- An accepted share of a removed miner is never answered, nor is one whose processing throws, and a
job's set stays above a limit that fell with the proxy's budget. -/
theorem unanswered_and_overfull :
    (∀ status ∈ [.completed (some true) true,.threw], ∃ world, (machine lone).Reachable world ∧
      world.submits.map Submit.status = [status] ∧ world.repliesTo 0 = 0) ∧
    ∃ world next, (machine lone).Reachable world ∧
      step lone world (.submit 0 0 "nonce" none direct false) = some next ∧
      next.replies = [(101,some jobLimit)] ∧ 0 < getTrackedSubmissionLimit direct ∧
      getTrackedSubmissionLimit direct < (next.submissions 0).card := by
  constructor
  · rw [List.forall_mem_cons,List.forall_mem_singleton]
    exact ⟨@unanswered_run [.submit 0 0 "00000001" none direct false,.removeMiner 0,.complete 0 (some true)] _
      (by decide +kernel),@unanswered_run [.submit 0 0 "00000001" none direct true] _ (by decide +kernel)⟩
  · have ran : ((machine lone).run emptyWorld
        ((List.range 101).map fun nonce => .submit 0 0 (toString nonce) none proxied false)).bind
          (fun world => (step lone world (.submit 0 0 "nonce" none direct false)).map fun next =>
            (next.replies,(next.submissions 0).card)) = some ([(101,some jobLimit)],101) := by
      decide +kernel
    obtain ⟨world,ran,moved⟩ := Option.bind_eq_some_iff.mp ran
    obtain ⟨next,moved,seen⟩ := Option.map_eq_some_iff.mp moved
    obtain ⟨told,size⟩ := Prod.ext_iff.mp seen
    refine ⟨world,next,Machine.reachable_run rfl ran,moved,told,by decide +kernel,?_⟩
    have full : (next.submissions 0).card = 101 := size
    rw [full]
    decide +kernel

end NodejsPool.Pool.Submissions
