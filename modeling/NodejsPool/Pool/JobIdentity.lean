import NodejsPool.Pool.JobIds

/-! The ids of the jobs a miner may submit to are distinct as long as no two draws among ten jobs in a
row give the same text: a counter that wrapped in between, or the two forms of an id. -/
namespace NodejsPool.Pool.JobIds
open Async Function List

variable {number : ℕ} {α : Type*} {miner : Miner} {param : JobIdParam} {after : World}

def decimalPeriod : ℕ := 1000000000000000
def hexPeriod : ℕ := 65536

def Draw.text : Draw → String
  | .decimal count => String.ofList (toDecimal (count % decimalPeriod))
  | .hex count => String.ofList (Hex.padHex (Hex.toHex (count % hexPeriod)) 2)

def readAsHex (number : ℕ) : ℕ := number / 1000 * 4096 + number / 100 % 10 * 256 + number / 10 % 10 * 16 + number % 10

def SameForm (decimal hex : ℕ) : Prop :=
  1000 ≤ decimal % decimalPeriod ∧ decimal % decimalPeriod < 10000 ∧
    hex % hexPeriod = readAsHex (decimal % decimalPeriod)

/-- Two draws give the same id: the counter came round in between, or the forms coincide. -/
def Clash : Draw → Draw → Prop
  | .decimal first,.decimal second => first % decimalPeriod = second % decimalPeriod
  | .hex first,.hex second => first % hexPeriod = second % hexPeriod
  | .decimal decimal,.hex hex => SameForm decimal hex
  | .hex hex,.decimal decimal => SameForm decimal hex

instance (decimal hex : ℕ) : Decidable (SameForm decimal hex) := inferInstanceAs (Decidable (_ ∧ _ ∧ _))

instance : ∀ first second, Decidable (Clash first second)
  | .decimal _,.decimal _ => inferInstanceAs (Decidable (_ = _))
  | .hex _,.hex _ => inferInstanceAs (Decidable (_ = _))
  | .decimal _,.hex _ => inferInstanceAs (Decidable (SameForm _ _))
  | .hex _,.decimal _ => inferInstanceAs (Decidable (SameForm _ _))

theorem toDecimal_inj {first second : ℕ} (same : toDecimal first = toDecimal second) : first = second := by
  have read := congrArg (fun text => Nat.ofDigitChars 10 text 0) same
  simpa only [toDecimal,Nat.ofDigitChars_ten_toDigits] using read

theorem hexText_inj {first second : ℕ} (small : first < hexPeriod) (little : second < hexPeriod)
    (same : Hex.padHex (Hex.toHex first) 2 = Hex.padHex (Hex.toHex second) 2) : first = second := by
  have read := congrArg Hex.hexValue same
  rwa [Hex.hexValue_padHex (by decide) small,Hex.hexValue_padHex (by decide) little] at read

private theorem readAsHex_digits (high : number < 10000) :
    readAsHex number / 16^3 = number / 1000 ∧ readAsHex number / 16^2 % 16 = number / 100 % 10 ∧
      readAsHex number / 16 % 16 = number / 10 % 10 ∧ readAsHex number % 16 = number % 10 := by
  have thousands : number / 1000 < 10 := Nat.div_lt_of_lt_mul high
  have hundreds : number / 100 % 10 < 10 := Nat.mod_lt _ (by decide)
  have tens : number / 10 % 10 < 10 := Nat.mod_lt _ (by decide)
  have ones : number % 10 < 10 := Nat.mod_lt _ (by decide)
  unfold readAsHex
  generalize number / 1000 = a at *
  generalize number / 100 % 10 = b at *
  generalize number / 10 % 10 = c at *
  generalize number % 10 = d at *
  omega

private theorem toDecimal_four (low : 1000 ≤ number) (high : number < 10000) :
    toDecimal number = Hex.padHex (Hex.toHex (readAsHex number)) 2 := by
  obtain ⟨thousands,hundreds,tens,ones⟩ := readAsHex_digits high
  have least : 16^3 ≤ readAsHex number := by
    unfold readAsHex
    omega
  have most : readAsHex number < 16^4 := by
    unfold readAsHex
    omega
  have digits : Hex.toHex (readAsHex number) = toDecimal number := by
    rw [Hex.toHex,Hex.toDigits_four (by decide) least most,toDecimal,Hex.toDigits_four (by decide) low high,
      thousands,hundreds,tens,ones]
    rfl
  have four : (toDecimal number).length = 4 := by
    rw [toDecimal,Hex.toDigits_four (by decide) low high]
    rfl
  rw [digits,Hex.padHex_short (by omega),four]
  rfl

private theorem readAsHex_lt (high : number < 10000) : readAsHex number < hexPeriod := by
  unfold readAsHex hexPeriod
  omega

private theorem toDecimal_eq_hexText {decimal hex : ℕ} (small : hex < hexPeriod) :
    toDecimal decimal = Hex.padHex (Hex.toHex hex) 2 ↔ 1000 ≤ decimal ∧ decimal < 10000 ∧ hex = readAsHex decimal := by
  constructor
  · intro same
    have four : (toDecimal decimal).length = 4 := by rw [same,Hex.length_padHex]
    have high : decimal < 10^4 := (Nat.length_toDigits_le_iff (by decide) (by decide)).mp four.le
    have low : 10^3 ≤ decimal := by
      by_contra less
      have short := (Nat.length_toDigits_le_iff (b := 10) (by decide) (by decide)).mpr (not_le.mp less)
      exact absurd (four.symm.le.trans short) (by decide)
    refine ⟨low,high,hexText_inj small (readAsHex_lt high) ?_⟩
    rw [← same,toDecimal_four low high]
  · rintro ⟨low,high,rfl⟩
    exact toDecimal_four low high

theorem text_eq_iff_clash (first second : Draw) : first.text = second.text ↔ Clash first second := by
  have small (count : ℕ) : count % hexPeriod < hexPeriod := Nat.mod_lt _ (by decide)
  cases first with
  | decimal first =>
    cases second with
    | decimal second => exact String.ofList_inj.trans ⟨toDecimal_inj,congrArg toDecimal⟩
    | hex second => exact String.ofList_inj.trans (toDecimal_eq_hexText (small second))
  | hex first =>
    cases second with
    | decimal second =>
      exact eq_comm.trans (String.ofList_inj.trans (toDecimal_eq_hexText (small first)))
    | hex second =>
      exact String.ofList_inj.trans
        ⟨hexText_inj (small first) (small second),congrArg fun count => Hex.padHex (Hex.toHex count) 2⟩

def newest {α : Type*} (count : ℕ) (values : List α) : List α := values.drop (values.length - count)

theorem newest_concat (count : ℕ) (values : List α) (value : α) :
    newest (count + 1) (values ++ [value]) = newest count values ++ [value] := by
  unfold newest
  rw [length_append,length_singleton,Nat.add_sub_add_right,drop_append_of_le_length (Nat.sub_le ..)]

theorem length_newest (count : ℕ) (values : List α) : (newest count values).length = min values.length count := by
  rw [newest,length_drop]
  omega

theorem newest_newest_concat (count : ℕ) (values : List α) (value : α) :
    (newest (count + 1) values ++ [value]).drop ((newest (count + 1) values).length + 1 - (count + 1)) =
      newest (count + 1) (values ++ [value]) := by
  rw [newest_concat,length_newest,Nat.add_sub_add_right]
  by_cases few : values.length ≤ count
  · have all (size : ℕ) (large : count ≤ size) : newest size values = values := by
      rw [newest,Nat.sub_eq_zero_of_le (few.trans large),drop_zero]
    rw [all _ (Nat.le_succ count),all _ le_rfl,min_eq_left (few.trans (Nat.le_succ count)),
      Nat.sub_eq_zero_of_le few,drop_zero]
  · have long : min values.length (count + 1) - count = 1 := by omega
    have more : values.length - (count + 1) + 1 = values.length - count := by omega
    have first : 1 ≤ (newest (count + 1) values).length := by
      rw [length_newest]
      omega
    rw [long,drop_append_of_le_length first,newest,drop_drop,more]
    rfl

def World.held (world : World) (conn : ℕ) : List Built := newest validJobsSize (world.built conn)

structure Counted (world : World) : Prop where
  decId : world.state.decId = world.decimals % decimalPeriod
  ethJobId : world.state.ethJobId = world.hexes % hexPeriod

structure Named (entry : Built) : Prop where
  id : entry.job.id = entry.draw.text
  payload : ∀ payload ∈ entry.payload, payload.jobId = entry.job.id

structure Holds (world : World) (conn : ℕ) (miner : Miner) : Prop where
  wellFormed : miner.validJobs.WellFormed validJobsSize
  contents : miner.validJobs.contents validJobsSize none = (world.held conn).map fun entry => some entry.job

structure Sound (world : World) : Prop where
  counted : Counted world
  named : ∀ conn, ∀ entry ∈ world.built conn, Named entry
  holds : ∀ conn miner, world.miners conn = some miner → Holds world conn miner

theorem Holds.jobs (holds : Holds world conn miner) : miner.jobs = (world.held conn).map Built.job := by
  rw [Miner.jobs,holds.contents,filterMap_map]
  exact congrFun filterMap_eq_map (world.held conn)

variable {world : World} {conn : ℕ}

theorem mem_held {entry : Built} (member : entry ∈ world.held conn) : entry ∈ world.built conn := mem_of_mem_drop member

theorem Sound.ids (sound : Sound world) (connected : world.miners conn = some miner) :
    miner.jobs.map MinerJob.id = (world.held conn).map fun entry => entry.draw.text := by
  rw [(sound.holds conn miner connected).jobs,map_map]
  exact map_congr_left fun entry member => (sound.named conn entry (mem_held member)).id

/-- No two jobs of a miner have one id, and every held job is found under the id it was sent with,
however the submit spells it; what is found is a job that was built for this miner under that id. -/
structure Identified (limit : ℕ) (world : World) : Prop where
  distinct : ∀ conn miner, world.miners conn = some miner → (miner.jobs.map MinerJob.id).Nodup
  found : ∀ conn miner, world.miners conn = some miner → ∀ job ∈ miner.jobs, ∀ param : JobIdParam,
    param.jobId = job.id → (getSubmitJob limit miner param).1 = .ok job
  sent : ∀ conn miner, world.miners conn = some miner → ∀ entry ∈ world.held conn, ∀ payload ∈ entry.payload,
    ∀ param : JobIdParam, param.jobId = payload.jobId → (getSubmitJob limit miner param).1 = .ok entry.job
  only : ∀ conn miner, world.miners conn = some miner → ∀ (param : JobIdParam) (job : MinerJob),
    (getSubmitJob limit miner param).1 = .ok job →
      job.id = param.jobId ∧ ∃ entry ∈ world.held conn, entry.job = job ∧
      ∀ payload ∈ entry.payload, payload.jobId = param.jobId

private theorem getSubmitJob_ok {job : MinerJob} :
    (getSubmitJob limit miner param).1 = .ok job ↔ findJob miner param.jobId = some job := by
  unfold getSubmitJob
  cases findJob miner param.jobId with
  | some found => exact ⟨fun same => congrArg some (Except.ok.inj same),fun same =>
    congrArg Except.ok (Option.some.inj same)⟩
  | none => exact ⟨nofun,nofun⟩

private theorem findJob_of_distinct (distinct : (miner.jobs.map MinerJob.id).Nodup) {job : MinerJob}
    (member : job ∈ miner.jobs) : findJob miner job.id = some job := by
  unfold findJob
  rw [head?_filter]
  cases search : miner.jobs.find? fun candidate => decide (candidate.id = job.id) with
  | none =>
    have missed := find?_eq_none.mp search job member
    simp at missed
  | some found =>
    have same : found.id = job.id := by simpa using find?_some search
    rw [inj_on_of_nodup_map distinct (mem_of_find?_eq_some search) member same]

theorem identified_iff (sound : Sound world) : Identified limit world ↔
    ∀ conn miner, world.miners conn = some miner → ((world.held conn).map fun entry => entry.draw.text).Nodup := by
  constructor
  · intro identified conn miner connected
    rw [← sound.ids connected]
    exact identified.distinct conn miner connected
  · intro distinct
    have apart : ∀ conn miner, world.miners conn = some miner → (miner.jobs.map MinerJob.id).Nodup := by
      intro conn miner connected
      rw [sound.ids connected]
      exact distinct conn miner connected
    have found : ∀ conn miner, world.miners conn = some miner → ∀ job ∈ miner.jobs, ∀ param : JobIdParam,
        param.jobId = job.id → (getSubmitJob limit miner param).1 = .ok job := by
      intro conn miner connected job member param names
      rw [getSubmitJob_ok,names]
      exact findJob_of_distinct (apart conn miner connected) member
    refine ⟨apart,found,?_,?_⟩
    · intro conn miner connected entry member payload sent param names
      have job : entry.job ∈ miner.jobs := by
        rw [(sound.holds conn miner connected).jobs]
        exact mem_map_of_mem member
      refine found conn miner connected entry.job job param ?_
      rw [names,(sound.named conn entry (mem_held member)).payload payload sent]
    · intro conn miner connected param job submitted
      rw [getSubmitJob_ok,findJob,head?_filter] at submitted
      have names : job.id = param.jobId := by simpa using find?_some submitted
      have member := mem_of_find?_eq_some submitted
      rw [(sound.holds conn miner connected).jobs] at member
      obtain ⟨entry,held,same⟩ := mem_map.mp member
      refine ⟨names,entry,held,same,fun payload sent => ?_⟩
      rw [(sound.named conn entry (mem_held held)).payload payload sent,same,names]

/-- A step that builds no job: what a miner holds is as before, or nothing where it just came. -/
structure Quiet (world after : World) : Prop where
  counted : Counted world → Counted after
  built : ∀ conn, after.built conn = world.built conn ∨ after.built conn = []
  miners : ∀ conn miner, after.miners conn = some miner →
    (after.built conn = world.built conn ∧ ∃ before, world.miners conn = some before ∧
    before.validJobs = miner.validJobs) ∨
      (after.built conn = [] ∧ miner.validJobs = circularBuffer)

theorem circularBuffer_holds (none : after.built conn = [])
    (empty : miner.validJobs = circularBuffer) : Holds after conn miner := by
  refine ⟨?_,?_⟩
  · rw [empty]
    exact ⟨by decide,by decide,by decide⟩
  · rw [empty,World.held,none]
    rfl

theorem Quiet.sound (quiet : Quiet world after) (sound : Sound world) : Sound after := by
  refine ⟨quiet.counted sound.counted,?_,?_⟩
  · intro conn entry member
    rcases quiet.built conn with same | empty
    · rw [same] at member
      exact sound.named conn entry member
    · rw [empty] at member
      cases member
  · intro conn miner connected
    rcases quiet.miners conn miner connected with ⟨same,before,was,ring⟩ | ⟨empty,ring⟩
    · obtain ⟨wellFormed,contents⟩ := sound.holds conn before was
      refine ⟨ring ▸ wellFormed,?_⟩
      rw [← ring,contents,World.held,World.held,same]
    · exact circularBuffer_holds empty ring

theorem Quiet.identified (quiet : Quiet world after) (sound : Sound world)
    (identified : Identified limit world) : Identified limit after := by
  rw [identified_iff (quiet.sound sound)]
  rw [identified_iff sound] at identified
  intro conn miner connected
  rcases quiet.miners conn miner connected with ⟨same,before,was,_⟩ | ⟨empty,_⟩
  · rw [World.held,same]
    exact identified conn before was
  · rw [World.held,empty]
    exact nodup_nil

theorem issueId_draws (counted : Counted world) :
    world.issueId.1 = (world.next false).text ∧ Counted world.issueId.2 := by
  have stepped : (if 999999999999999 < world.state.decId + 1 then 0 else world.state.decId + 1) =
      (world.decimals + 1) % decimalPeriod := by
    rw [counted.decId]
    unfold decimalPeriod
    split <;> omega
  refine ⟨?_,stepped,counted.ethJobId⟩
  exact congrArg (fun count => String.ofList (toDecimal count)) stepped

private theorem issueEthJobId_draws (counted : Counted world) :
    world.issueEthJobId.1 = (world.next true).text ∧ Counted world.issueEthJobId.2 := by
  have stepped : (if 0xffff < world.state.ethJobId + 1 then 0 else world.state.ethJobId + 1) =
      (world.hexes + 1) % hexPeriod := by
    rw [counted.ethJobId]
    unfold hexPeriod
    split <;> omega
  refine ⟨?_,counted.decId,stepped⟩
  exact congrArg (fun count => String.ofList (Hex.padHex (Hex.toHex count) 2)) stepped

theorem issueJobId_draws (counted : Counted world) (ethJobId : Bool) :
    (world.issueJobId ethJobId).1 = (world.next ethJobId).text ∧ Counted (world.issueJobId ethJobId).2 := by
  cases ethJobId with
  | false => exact issueId_draws counted
  | true => exact issueEthJobId_draws counted

variable (world) in
theorem issueJobId_frame (ethJobId : Bool) :
    (world.issueJobId ethJobId).2.miners = world.miners ∧ (world.issueJobId ethJobId).2.built = world.built := by
  cases ethJobId <;> exact ⟨rfl,rfl⟩

theorem setMiner_quiet {before : Miner} (connected : world.miners conn = some before)
    (same : miner.validJobs = before.validJobs) : Quiet world (world.setMiner conn miner) := by
  refine ⟨fun counted => ⟨counted.decId,counted.ethJobId⟩,fun _ => .inl rfl,?_⟩
  intro other found present
  refine .inl ⟨rfl,?_⟩
  by_cases here : other = conn
  · subst here
    simp only [World.setMiner,update_self,Option.some.injEq] at present
    subst present
    exact ⟨before,connected,same.symm⟩
  · simp only [World.setMiner,update_of_ne here] at present
    exact ⟨found,present,rfl⟩

theorem leave_quiet : Quiet world (leave world conn) := by
  refine ⟨fun counted => ⟨counted.decId,counted.ethJobId⟩,fun _ => .inl rfl,?_⟩
  intro other found present
  have apart : other ≠ conn := by
    rintro rfl
    simp [leave] at present
  simp only [leave,update_of_ne apart] at present
  exact .inl ⟨rfl,found,present,rfl⟩

theorem issueId_quiet : Quiet world world.issueId.2 :=
  ⟨fun counted => (issueId_draws counted).2,fun _ => .inl rfl,fun _ miner present => .inl ⟨rfl,miner,present,rfl⟩⟩

theorem login_quiet (empty : miner.validJobs = circularBuffer) : Quiet world (login world conn miner) := by
  refine ⟨?_,?_,?_⟩
  · intro counted
    obtain ⟨decId,ethJobId⟩ := (issueId_draws counted).2
    exact ⟨decId,ethJobId⟩
  · intro other
    by_cases here : other = conn
    · subst here
      exact .inr (update_self ..)
    · exact .inl (update_of_ne here ..)
  · intro other found present
    by_cases here : other = conn
    · subst here
      have same : found = miner := by simpa [login,World.setMiner] using present.symm
      exact .inr ⟨update_self ..,same ▸ empty⟩
    · refine .inl ⟨update_of_ne here ..,found,?_,rfl⟩
      simpa [login,World.setMiner,World.issueId,update_of_ne here] using present

@[simp] theorem change_validJobs (miner : Miner) (change : Change) :
    (miner.change change).validJobs = miner.validJobs := by
  cases change with
  | selectCoin minDiff moved => cases moved <;> rfl
  | retarget | dropCachedJob | dropLastBlockHash | validShare | extranonce => rfl

private theorem takeDifficulty_validJobs (miner : Miner) : (takeDifficulty miner).validJobs = miner.validJobs := by
  unfold takeDifficulty
  split <;> rfl

theorem prepare_validJobs (miner : Miner) (offer : Offer) : (prepare miner offer).1.validJobs = miner.validJobs := by
  have taken := takeDifficulty_validJobs {miner with jobLastBlockHash := some offer.bt.idHash}
  unfold prepare
  dsimp only
  split
  · unfold ensureEthExtranonce
    split <;> exact taken
  · exact taken

private theorem reject_validJobs {after : Miner} (kept : (rejectInvalidSubmitJob limit miner).2 = some after) :
    after.validJobs = miner.validJobs := by
  unfold rejectInvalidSubmitJob at kept
  split at kept
  · cases kept
    rfl
  · dsimp only at kept
    split at kept
    · cases kept
    · cases kept
      rfl

theorem getSubmitJob_validJobs {after : Miner}
    (kept : (getSubmitJob limit miner param).2 = some after) : after.validJobs = miner.validJobs := by
  unfold getSubmitJob at kept
  split at kept
  · cases kept
    split <;> rfl
  · exact reject_validJobs kept

def Apart (world : World) : Event → Prop
  | .job conn offer => ∀ miner ∈ world.miners conn, knowsJob miner offer.bt = false →
      ∀ draft ∈ (prepare miner offer).2, ∀ entry ∈ newest (validJobsSize - 1) (world.built conn),
        ¬ Clash entry.draw (world.next draft.ethJobId)
  | _ => True

instance : ∀ event, Decidable (Apart world event)
  | .job _ _ => inferInstanceAs (Decidable (∀ _ ∈ _, _ → ∀ _ ∈ _, ∀ _ ∈ _, ¬ _))
  | .login .. | .issueId | .change .. | .submit .. | .leave _ => isTrue trivial

def builtBy (world : World) (offer : Offer) (draft : Draft) : Built :=
  let id := (world.issueJobId draft.ethJobId).1
  ⟨jobOf id offer draft,if offer.payloadThrows then none else some ⟨id,draft.blobHex,draft.coinDiff⟩,
    world.next draft.ethJobId⟩

section Building

variable {miner : Miner} {offer : Offer} {draft : Draft} {before : Miner}

theorem buildJob_built : (buildJob world conn miner offer draft).built =
      update world.built conn (world.built conn ++ [builtBy world offer draft]) := by
  have frame := (issueJobId_frame world draft.ethJobId).2
  unfold buildJob builtBy
  simp only [World.setMiner,frame]
  rfl

theorem buildJob_other {other : ℕ} (apart : other ≠ conn) :
    (buildJob world conn miner offer draft).miners other = world.miners other := by
  have frame := (issueJobId_frame world draft.ethJobId).1
  unfold buildJob
  simp only [World.setMiner,update_of_ne apart,frame]

theorem buildJob_miner {found : Miner} (present : (buildJob world conn miner offer draft).miners conn = some found) :
    found.validJobs = miner.validJobs.enq validJobsSize (some (builtBy world offer draft).job) := by
  unfold buildJob at present
  simp only [World.setMiner,update_self,Option.some.injEq] at present
  rw [← present]
  rfl

private theorem builtBy_named (counted : Counted world) : Named (builtBy world offer draft) := by
  refine ⟨(issueJobId_draws counted draft.ethJobId).1,?_⟩
  intro payload sent
  unfold builtBy at sent
  dsimp only at sent
  split at sent
  · cases sent
  · cases sent
    rfl

theorem held_buildJob : (buildJob world conn miner offer draft).held conn =
    newest (validJobsSize - 1) (world.built conn) ++ [builtBy world offer draft] := by
  rw [World.held,buildJob_built,update_self]
  exact newest_concat 9 (world.built conn) (builtBy world offer draft)

theorem buildJob_holds {found : Miner} (holds : Holds world conn before) (ring : miner.validJobs = before.validJobs)
    (present : (buildJob world conn miner offer draft).miners conn = some found) :
    Holds (buildJob world conn miner offer draft) conn found := by
  have size := congrArg length holds.contents
  rw [Ring.length_contents,length_map] at size
  have enqueued := buildJob_miner present
  rw [ring] at enqueued
  refine ⟨enqueued ▸ Ring.enq_wellFormed holds.wellFormed _,?_⟩
  have rolled := newest_newest_concat 9 (world.built conn) (builtBy world offer draft)
  rw [enqueued,Ring.contents_enq holds.wellFormed,holds.contents,size,World.held,World.held,buildJob_built,
    update_self,← map_singleton (f := fun entry : Built => some entry.job),← map_append,← map_drop]
  exact congrArg (map fun entry : Built => some entry.job) rolled

theorem buildJob_sound (sound : Sound world) (connected : world.miners conn = some before)
    (ring : miner.validJobs = before.validJobs) : Sound (buildJob world conn miner offer draft) := by
  obtain ⟨decId,ethJobId⟩ := (issueJobId_draws sound.counted draft.ethJobId).2
  refine ⟨⟨decId,ethJobId⟩,?_,?_⟩
  · intro other entry member
    rw [buildJob_built] at member
    by_cases here : other = conn
    · subst here
      rw [update_self] at member
      rcases mem_append.mp member with old | new
      · exact sound.named other entry old
      · cases mem_singleton.mp new
        exact builtBy_named sound.counted
    · rw [update_of_ne here] at member
      exact sound.named other entry member
  · intro other found present
    by_cases here : other = conn
    · subst here
      exact buildJob_holds (sound.holds other before connected) ring present
    · rw [buildJob_other here] at present
      obtain ⟨wellFormed,contents⟩ := sound.holds other found present
      refine ⟨wellFormed,?_⟩
      rw [contents,World.held,World.held,buildJob_built,update_of_ne here]

private theorem buildJob_identified {limit : ℕ} (sound : Sound world) (identified : Identified limit world)
    (connected : world.miners conn = some before) (ring : miner.validJobs = before.validJobs) :
    Identified limit (buildJob world conn miner offer draft) ↔
      ∀ entry ∈ newest (validJobsSize - 1) (world.built conn), ¬ Clash entry.draw (world.next draft.ethJobId) := by
  have others := (identified_iff sound).mp identified
  have shorter : (newest (validJobsSize - 1) (world.built conn)).Sublist (world.held conn) :=
    (drop_sublist_drop_left _ (Nat.sub_le_sub_left (Nat.sub_le ..) _))
  have distinct : ((newest (validJobsSize - 1) (world.built conn)).map fun entry => entry.draw.text).Nodup :=
    (others conn before connected).sublist (shorter.map _)
  have here : (((buildJob world conn miner offer draft).held conn).map fun entry => entry.draw.text).Nodup ↔
      ∀ entry ∈ newest (validJobsSize - 1) (world.built conn), ¬ Clash entry.draw (world.next draft.ethJobId) := by
    rw [held_buildJob,map_append,map_singleton,nodup_append]
    constructor
    · intro ⟨_,_,apart⟩ entry member clash
      exact apart entry.draw.text (mem_map_of_mem member) _ (mem_singleton_self _) ((text_eq_iff_clash ..).mpr clash)
    · intro apart
      refine ⟨distinct,nodup_singleton _,?_⟩
      intro text old other new same
      obtain ⟨entry,member,rfl⟩ := mem_map.mp old
      cases mem_singleton.mp new
      exact apart entry member ((text_eq_iff_clash ..).mp same)
  rw [identified_iff (buildJob_sound sound connected ring),← here]
  constructor
  · intro all
    obtain ⟨found,present⟩ : ∃ found, (buildJob world conn miner offer draft).miners conn = some found :=
      ⟨_,update_self ..⟩
    exact all conn found present
  · intro nodup other found present
    by_cases same : other = conn
    · subst same
      exact nodup
    · rw [buildJob_other same] at present
      rw [World.held,buildJob_built,update_of_ne same]
      exact others other found present

end Building

variable {limit : ℕ}

theorem step_identified {event : Event} (sound : Sound world) (moved : step limit world event = some after) :
    Sound after ∧ (Identified limit world → (Identified limit after ↔ Apart world event)) := by
  have quietly (quiet : Quiet world after) (apart : Apart world event) :
      Sound after ∧ (Identified limit world → (Identified limit after ↔ Apart world event)) :=
    ⟨quiet.sound sound,fun identified => iff_of_true (quiet.identified sound identified) apart⟩
  cases event with
  | login conn proxy moNative difficulty =>
    cases moved
    exact quietly (login_quiet rfl) trivial
  | issueId =>
    cases moved
    exact quietly issueId_quiet trivial
  | change conn change =>
    obtain ⟨miner,connected,rfl⟩ := Option.map_eq_some_iff.mp moved
    exact quietly (setMiner_quiet connected (change_validJobs miner change)) trivial
  | submit conn param =>
    obtain ⟨miner,connected,rfl⟩ := Option.map_eq_some_iff.mp moved
    refine quietly ?_ trivial
    cases submitted : getSubmitJob limit miner param with
    | mk result kept =>
      cases kept with
      | none => exact leave_quiet
      | some kept => exact setMiner_quiet connected (getSubmitJob_validJobs (congrArg Prod.snd submitted))
  | leave conn =>
    cases moved
    exact quietly leave_quiet trivial
  | job conn offer =>
    obtain ⟨miner,connected,rfl⟩ := Option.map_eq_some_iff.mp moved
    have same : ∀ found, world.miners conn = some found → found = miner := fun found present =>
      Option.some.inj (present.symm.trans connected)
    unfold getCoinJob
    cases knows : knowsJob miner offer.bt with
    | true =>
      rw [if_pos rfl]
      refine ⟨sound,fun identified => iff_of_true identified ?_⟩
      intro found present unknown
      rw [same found present,knows] at unknown
      cases unknown
    | false =>
      rw [if_neg Bool.false_ne_true]
      have ring := prepare_validJobs miner offer
      cases prepared : prepare miner offer with
      | mk ready draft =>
        rw [prepared] at ring
        cases draft with
        | none =>
          have quiet : Quiet world (world.setMiner conn ready) := setMiner_quiet connected ring
          refine ⟨quiet.sound sound,fun identified => iff_of_true (quiet.identified sound identified) ?_⟩
          intro found present _ draft drafted
          rw [same found present,prepared] at drafted
          cases drafted
        | some draft =>
          refine ⟨buildJob_sound sound connected ring,fun identified => ?_⟩
          rw [buildJob_identified sound identified connected ring]
          constructor
          · intro apart found present _ other drafted
            rw [same found present,prepared] at drafted
            cases drafted
            exact apart
          · intro apart
            exact apart miner connected knows draft (by rw [prepared]; rfl)

theorem start_sound : Sound start := by
  refine ⟨⟨rfl,rfl⟩,?_,?_⟩
  · intro conn entry member
    cases member
  · intro conn miner connected
    cases connected

private theorem start_identified : Identified limit start := by
  rw [identified_iff start_sound]
  intro conn miner connected
  cases connected

/-- All along a run of a worker the ids tell a miner's jobs apart exactly when no job is built whose draw
gives the text of one of the nine before it. -/
theorem ids_identify {events : List Event} {last : World} (ran : (worker limit).run start events = some last) :
    (∀ front world, front <+: events → (worker limit).run start front = some world → Identified limit world) ↔
      (worker limit).Along Apart start events :=
  Machine.always_iff_along (fun _ _ _ sound moved => step_identified sound moved) start_sound start_identified ran

def sampleTemplate (idHash : String) : BlockTemplate where
  idHash := idHash
  height := 100
  difficulty := 1000000
  seedHash := none
  extraNonce := some 1
  clientPoolLocation := none
  clientNonceLocation := none
  disableProxyNonce := false
  nextBlobHex := some "0e0e"
  nextBlobWithChildNonceHex := none

def sampleOffer (coin idHash : String) (useEthJobId : Bool) : Offer where
  coin := coin
  bt := sampleTemplate idHash
  coinHashFactor := 1
  hashesPerDifficulty := none
  poolSettings := some ⟨false,false,useEthJobId,false,useEthJobId⟩
  blobTypeNum := some 0
  ensured := none
  payloadThrows := false

def ravenOffer : Offer := sampleOffer "RVN" "rvn" true
def moneroOffer : Offer := sampleOffer "" "xmr" false

theorem ids_identify_sample : ∃ last, (worker 20).run start
    [.login 1 false false 1000,.job 1 ravenOffer,.change 1 .dropCachedJob,.job 1 moneroOffer] = some last ∧
    Identified 20 last := by
  obtain ⟨last,ran⟩ : ∃ last, (worker 20).run start
      [.login 1 false false 1000,.job 1 ravenOffer,.change 1 .dropCachedJob,.job 1 moneroOffer] = some last :=
    ⟨_,rfl⟩
  exact ⟨last,ran,(ids_identify ran).mpr (by decide +kernel) _ last List.prefix_rfl ran⟩

variable (limit)

structure Plain (miner : Miner) : Prop where
  proxy : miner.proxy = false
  moNative : miner.moNative = false

private theorem takeDifficulty_plain (plain : Plain miner) : Plain (takeDifficulty miner) := by
  unfold takeDifficulty
  split <;> exact ⟨plain.proxy,plain.moNative⟩

def sampleDraft (miner : Miner) (offer : Offer) (useEthJobId : Bool) : Draft where
  blobHex := "0e0e"
  ethJobId := useEthJobId
  blobTypeNum := 0
  coinDiff := coinDiff miner offer ⟨false,false,useEthJobId,false,useEthJobId⟩
  usesProxyNonce := false
  extraNonce := some (.template 1)
  clientPoolLocation := none
  clientNonceLocation := none

private theorem prepare_plain (plain : Plain miner) (coin idHash : String) (useEthJobId : Bool) :
    ∃ ready, prepare miner (sampleOffer coin idHash useEthJobId) =
      (ready,some (sampleDraft ready (sampleOffer coin idHash useEthJobId) useEthJobId)) ∧ Plain ready := by
  have noted : Plain {miner with jobLastBlockHash := some idHash} := ⟨plain.proxy,plain.moNative⟩
  have ready := takeDifficulty_plain noted
  refine ⟨_,?_,ready⟩
  obtain ⟨proxy,moNative⟩ := ready
  simp [prepare,sampleOffer,sampleTemplate,sampleDraft,ensureEthExtranonce,needsNativeExtranonce,draft,usesProxyNonce,
    jobExtraNonce,proxy,moNative]

private theorem job_given (connected : world.miners conn = some miner) (plain : Plain miner)
    (coin idHash : String) (useEthJobId : Bool) : ∃ ready draft, Plain ready ∧ draft.ethJobId = useEthJobId ∧
      (worker limit).run world [.change conn .dropLastBlockHash,.job conn (sampleOffer coin idHash useEthJobId)] =
        some (buildJob (world.setMiner conn {miner with jobLastBlockHash := none}) conn ready
          (sampleOffer coin idHash useEthJobId) draft) := by
  have dropped : Plain {miner with jobLastBlockHash := none} := ⟨plain.proxy,plain.moNative⟩
  obtain ⟨ready,prepared,steady⟩ := prepare_plain dropped coin idHash useEthJobId
  refine ⟨ready,sampleDraft ready (sampleOffer coin idHash useEthJobId) useEthJobId,steady,rfl,?_⟩
  simp [Machine.run,worker,step,connected,Miner.change,World.setMiner,getCoinJob,knowsJob,prepared]

structure Given (world : World) (conn : ℕ) (useEthJobId : Bool) (after : World) : Prop where
  decimals : after.decimals = world.decimals + if useEthJobId then 0 else 1
  hexes : after.hexes = world.hexes + if useEthJobId then 1 else 0
  plain : ∃ miner, after.miners conn = some miner ∧ Plain miner
  miners : ∀ other, other ≠ conn → after.miners other = world.miners other
  built : ∃ entry, entry.draw = world.next useEthJobId ∧
    after.built = Function.update world.built conn (world.built conn ++ [entry])

private theorem buildJob_given {found : Miner} {offer : Offer} {draft : Draft} (plain : Plain miner) :
    Given world conn draft.ethJobId (buildJob (world.setMiner conn found) conn miner offer draft) := by
  refine ⟨?_,?_,⟨_,update_self ..,⟨plain.proxy,plain.moNative⟩⟩,?_,⟨_,rfl,buildJob_built⟩⟩
  · unfold buildJob World.issueJobId
    cases draft.ethJobId <;> rfl
  · unfold buildJob World.issueJobId
    cases draft.ethJobId <;> rfl
  · intro other apart
    rw [buildJob_other apart]
    exact update_of_ne apart ..

theorem job_run (connected : world.miners conn = some miner) (plain : Plain miner)
    (coin idHash : String) (useEthJobId : Bool) :
    ∃ after, (worker limit).run world [.change conn .dropLastBlockHash,
      .job conn (sampleOffer coin idHash useEthJobId)] =
      some after ∧ Given world conn useEthJobId after := by
  obtain ⟨ready,draft,steady,rfl,ran⟩ := job_given limit connected plain coin idHash useEthJobId
  exact ⟨_,ran,buildJob_given steady⟩

def otherJobs (count : ℕ) : List Event :=
  (List.replicate count [Event.change 2 .dropLastBlockHash,.job 2 ravenOffer]).flatten

private theorem otherJobs_run (count : ℕ) (world : World) (plain : ∃ miner, world.miners 2 = some miner ∧ Plain miner) :
    ∃ after, (worker limit).run world (otherJobs count) = some after ∧ after.decimals = world.decimals ∧
      after.hexes = world.hexes + count ∧ after.miners 1 = world.miners 1 ∧ after.built 1 = world.built 1 := by
  induction count generalizing world with
  | zero => exact ⟨world,rfl,rfl,rfl,rfl,rfl⟩
  | succ count ih =>
    obtain ⟨miner,connected,plain⟩ := plain
    obtain ⟨next,first,given⟩ := job_run limit connected plain "RVN" "rvn" true
    obtain ⟨after,rest,decimals,hexes,miners,built⟩ := ih next given.plain
    obtain ⟨entry,_,log⟩ := given.built
    refine ⟨after,?_,decimals.trans given.decimals,?_,miners.trans (given.miners 1 (by decide)),?_⟩
    · rw [otherJobs,replicate_succ,flatten_cons,Machine.run_append]
      exact (congrArg (Option.bind · _) first).trans rest
    · rw [hexes,given.hexes]
      simp only [if_true]
      omega
    · rw [built,log]
      exact update_of_ne (by decide) ..

private theorem issueIds_run (count : ℕ) (world : World) :
    ∃ after, (worker limit).run world (replicate count .issueId) = some after ∧
      after.decimals = world.decimals + count ∧ after.miners = world.miners ∧ after.built = world.built := by
  induction count generalizing world with
  | zero => exact ⟨world,rfl,rfl,rfl,rfl⟩
  | succ count ih =>
    obtain ⟨after,rest,decimals,miners,built⟩ := ih world.issueId.2
    refine ⟨after,rest,?_,miners,built⟩
    rw [decimals]
    show world.decimals + 1 + count = world.decimals + (count + 1)
    omega

private theorem run_sound {events : List Event} {last : World} (ran : (worker limit).run start events = some last) :
    Sound last :=
  (Machine.reachable_run rfl ran).invariant Sound (fun _ begun => begun ▸ start_sound)
    fun _ _ _ sound _ moved => (step_identified sound moved).1

def clashingRun : List Event :=
  [.login 1 false false 1000,.login 2 false false 1000] ++ (otherJobs 4095 ++
    ([.change 1 .dropLastBlockHash,.job 1 ravenOffer] ++ (List.replicate 997 .issueId ++
      [.change 1 .dropLastBlockHash,.job 1 moneroOffer])))

/-- The Monero job has the id "1000" of the Raven job that the miner still holds. -/
theorem forms_coincide : ∃ world, (worker 20).run start clashingRun = some world ∧ ¬ Identified 20 world := by
  obtain ⟨others,second,early,hexes,miners,built⟩ := otherJobs_run 20 4095
    (login (login start 1 (createMiner false false 1000)) 2 (createMiner false false 1000)) ⟨_,rfl,⟨rfl,rfl⟩⟩
  obtain ⟨raven,third,ravenGiven⟩ := job_run 20 miners ⟨rfl,rfl⟩ "RVN" "rvn" true
  obtain ⟨issued,fourth,decimals,stay,log⟩ := issueIds_run 20 997 raven
  obtain ⟨miner,connected,plain⟩ := ravenGiven.plain
  rw [← stay] at connected
  obtain ⟨last,fifth,moneroGiven⟩ := job_run 20 connected plain "" "xmr" false
  have ran : (worker 20).run start clashingRun = some last :=
    (Machine.run_front rfl).trans ((Machine.run_front second).trans ((Machine.run_front third).trans
      ((Machine.run_front fourth).trans fifth)))
  obtain ⟨entry,draw,entries⟩ := ravenGiven.built
  obtain ⟨other,drawn,more⟩ := moneroGiven.built
  have held : last.held 1 = [entry,other] := by
    rw [World.held,more,Function.update_self,log,entries,Function.update_self,built]
    rfl
  have text : entry.draw.text = other.draw.text := by
    have hex : entry.draw = .hex 4096 := draw.trans (congrArg (fun count => Draw.hex (count + 1)) hexes)
    have count : issued.decimals = 999 := by rw [decimals,ravenGiven.decimals,early]; rfl
    have decimal : other.draw = .decimal 1000 := drawn.trans (congrArg (fun count => Draw.decimal (count + 1)) count)
    rw [hex,decimal,text_eq_iff_clash]
    decide
  refine ⟨last,ran,fun identified => ?_⟩
  obtain ⟨ready,present,_⟩ := moneroGiven.plain
  have distinct := (identified_iff (run_sound 20 ran)).mp identified 1 ready present
  rw [held] at distinct
  simp [text] at distinct

end NodejsPool.Pool.JobIds
