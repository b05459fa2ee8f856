import NodejsPool.Common.Leases
import NodejsPool.Pool.Extranonces

/-! Who owns an extranonce, over whole runs of one worker: ids are lent to open sockets and come
back when these close. -/
namespace NodejsPool.Pool.Extranonces
open Async WorkerIds Leases Function Option

def Socket.held (socket : Socket) : Option ℕ := socket.extranonceId <|> socket.previewId

def holder (world : World) (socket : ℕ) : Option ℕ := if world.isOpen socket then (world.sockets socket).held else none

/-- Every id is in the free list once, or not and with exactly one open socket. -/
def Owned (worker : Worker) (world : World) : Prop :=
  ∀ id ∈ worker.freeEthExtranonces,
    (world.free.count id = 1 ∧ ∀ socket, holder world socket ≠ some id) ∨
      (world.free.count id = 0 ∧ ∃! socket, holder world socket = some id)

section Lookups

variable {world : World} {socket other id beside : ℕ} {value : Socket} {miner : Miner}

@[simp] theorem setSocket_self : (world.setSocket socket value).sockets socket = value := update_self ..

theorem setSocket_other (apart : other ≠ socket) : (world.setSocket socket value).sockets other = world.sockets other :=
  update_of_ne apart ..

theorem setSocket_holds {P : ℕ → Socket → Prop} (here : P socket value)
    (there : ∀ other, other ≠ socket → P other (world.sockets other)) (other : ℕ) :
    P other ((world.setSocket socket value).sockets other) := by
  by_cases same : other = socket
  · subst same
    rwa [setSocket_self]
  · rw [setSocket_other same]
    exact there other same

theorem setSocket_field {A : Type} (field : Socket → A) (same : field value = field (world.sockets socket))
    (other : ℕ) :
    field ((world.setSocket socket value).sockets other) = field (world.sockets other) :=
  setSocket_holds (P := fun other now => field now = field (world.sockets other)) same (fun _ _ => rfl) other

@[simp] theorem setSocket_free : (world.setSocket socket value).free = world.free := rfl
@[simp] theorem setSocket_miners : (world.setSocket socket value).miners = world.miners := rfl
@[simp] theorem setSocket_told : (world.setSocket socket value).told = world.told := rfl

@[simp] theorem setMiner_self : (world.setMiner id miner).miners id = miner := update_self ..

theorem setMiner_other (apart : beside ≠ id) : (world.setMiner id miner).miners beside = world.miners beside :=
  update_of_ne apart ..

@[simp] theorem setMiner_free : (world.setMiner id miner).free = world.free := rfl
@[simp] theorem setMiner_sockets : (world.setMiner id miner).sockets = world.sockets := rfl
@[simp] theorem setMiner_told : (world.setMiner id miner).told = world.told := rfl

@[simp] theorem tell_free (text : String) :
    (world.tell socket text).free = world.free := by unfold World.tell; split <;> rfl
@[simp] theorem tell_sockets (text : String) : (world.tell socket text).sockets = world.sockets := by
  unfold World.tell; split <;> rfl
theorem held_claimed {token : ℕ} (claimed : value.extranonceId = some token) : value.held = some token := by
  rw [Socket.held,claimed]
  rfl

end Lookups

structure Sound (worker : Worker) (world : World) : Prop where
  shared : Shared worker.freeEthExtranonces world.free (holder world)
  unopened : ∀ socket, (world.sockets socket).status = .unopened → (world.sockets socket).held = none
  told : ∀ socket text, (socket,text) ∈ world.told →
    ∃ token, (world.sockets socket).held = some token ∧ text = worker.ethExtranonce token
  extranonce : ∀ id text, (world.miners id).extranonce = some text →
    ∃ token, (world.sockets (world.miners id).socket).extranonceId = some token ∧ text = worker.ethExtranonce token
  active : ∀ id, (world.miners id).active = true →
    world.isOpen (world.miners id).socket ∧ (world.sockets (world.miners id).socket).minerId = some id

structure Keeps (world next : World) : Prop where
  status : ∀ socket, (next.sockets socket).status = (world.sockets socket).status
  held : ∀ socket token, (world.sockets socket).held = some token → (next.sockets socket).held = some token
  claimed : ∀ socket token, (world.sockets socket).extranonceId = some token →
    (next.sockets socket).extranonceId = some token

structure Follows (worker : Worker) (world next : World) : Prop extends Keeps world next where
  sound : Sound worker next
  socket : ∀ id, (next.miners id).socket = (world.miners id).socket
  minerId : ∀ socket, (next.sockets socket).minerId = (world.sockets socket).minerId

/-- A claim at this socket does not take an id for a socket that is not open. -/
def Ready (world : World) (socket : ℕ) : Prop :=
  world.isOpen socket ∨ (world.sockets socket).held ≠ none ∨ world.free = []

instance (world : World) (socket : ℕ) : Decidable (Ready world socket) := inferInstanceAs (Decidable (_ ∨ _ ∨ _))

variable {worker : Worker} {settings : String → PoolSettings} {world next last : World} {socket id : ℕ}

theorem Keeps.of_sockets (same : next.sockets = world.sockets) : Keeps world next :=
  ⟨fun _ => by rw [same],fun _ _ held => by rwa [same],fun _ _ claimed => by rwa [same]⟩

theorem Keeps.trans (first : Keeps world next) (second : Keeps next last) : Keeps world last where
  status socket := (second.status socket).trans (first.status socket)
  held socket token held := second.held socket token (first.held socket token held)
  claimed socket token claimed := second.claimed socket token (first.claimed socket token claimed)

theorem Follows.refl (sound : Sound worker world) : Follows worker world world :=
  ⟨.of_sockets rfl,sound,fun _ => rfl,fun _ => rfl⟩

theorem Follows.trans (first : Follows worker world next) (second : Follows worker next last) :
    Follows worker world last :=
  ⟨first.toKeeps.trans second.toKeeps,second.sound,fun id => (second.socket id).trans (first.socket id),
    fun socket => (second.minerId socket).trans (first.minerId socket)⟩

theorem Follows.isOpen (follows : Follows worker world next) (opened : world.isOpen socket) : next.isOpen socket :=
  (follows.status socket).trans opened

section Updates

variable {value : Socket}

section Keeping

variable {free : List ℕ} (held : ∀ token, (world.sockets socket).held = some token → value.held = some token)
  (claimed : ∀ token, (world.sockets socket).extranonceId = some token → value.extranonceId = some token)
  (shared : Shared worker.freeEthExtranonces free (holder (world.setSocket socket value)))

include held claimed shared

/-- `Sound` after one socket changed: it keeps the ids it had, and active miners still find theirs. -/
theorem Sound.setSocket (sound : Sound worker world) (opened : value.status = .unopened → value.held = none)
    (active : ∀ id, (world.miners id).active = true → (world.setSocket socket value).isOpen (world.miners id).socket ∧
      ((world.setSocket socket value).sockets (world.miners id).socket).minerId = some id) :
    Sound worker { world.setSocket socket value with free := free } := by
  refine ⟨shared,setSocket_holds (P := fun _ now => now.status = .unopened → now.held = none) opened
    fun other _ => sound.unopened other,?_,?_,active⟩
  · intro other text told
    obtain ⟨token,before,same⟩ := sound.told other text told
    exact ⟨token,setSocket_holds (P := fun other now => ∀ token, (world.sockets other).held = some token →
      now.held = some token) held (fun _ _ _ => id) other token before,same⟩
  · intro miner text extranonce
    obtain ⟨token,before,same⟩ := sound.extranonce miner text extranonce
    exact ⟨token,setSocket_holds (P := fun other now => ∀ token, (world.sockets other).extranonceId = some token →
      now.extranonceId = some token) claimed (fun _ _ _ => id) _ token before,same⟩

theorem Sound.fields (sound : Sound worker world) (status : value.status = (world.sockets socket).status)
    (minerId : value.minerId = (world.sockets socket).minerId) (opened : value.status ≠ .unopened) :
    Follows worker world ({ world with free := free }.setSocket socket value) := by
  have statuses (other : ℕ) : ((world.setSocket socket value).sockets other).status = (world.sockets other).status :=
    setSocket_field Socket.status status other
  have miners (other : ℕ) : ((world.setSocket socket value).sockets other).minerId = (world.sockets other).minerId :=
    setSocket_field Socket.minerId minerId other
  have kept := sound.setSocket held claimed shared (absurd · opened) fun miner active =>
    (sound.active miner active).imp (statuses _).trans (miners _).trans
  refine ⟨⟨statuses,?_,?_⟩,kept,fun _ => rfl,miners⟩
  · exact setSocket_holds (P := fun other now => ∀ token, (world.sockets other).held = some token →
      now.held = some token) held fun _ _ _ => id
  · exact setSocket_holds (P := fun other now => ∀ token, (world.sockets other).extranonceId = some token →
      now.extranonceId = some token) claimed fun _ _ _ => id

end Keeping

theorem Sound.setMiner (sound : Sound worker world) {value : Miner} (extranonce : ∀ text, value.extranonce = some text →
      ∃ token, (world.sockets value.socket).extranonceId = some token ∧ text = worker.ethExtranonce token)
    (active : value.active = true → world.isOpen value.socket ∧ (world.sockets value.socket).minerId = some id) :
    Sound worker (world.setMiner id value) := by
  refine ⟨sound.shared,sound.unopened,sound.told,?_,?_⟩
  · intro other text found
    by_cases same : other = id
    · subst same
      rw [setMiner_self] at found ⊢
      exact extranonce text found
    · rw [setMiner_other same] at found ⊢
      exact sound.extranonce other text found
  · intro other found
    by_cases same : other = id
    · subst same
      rw [setMiner_self] at found ⊢
      exact active found
    · rw [setMiner_other same] at found ⊢
      exact sound.active other found

theorem Sound.miner (sound : Sound worker world) {value : Miner} (socket : value.socket = (world.miners id).socket)
    (extranonce : ∀ text, value.extranonce = some text →
      ∃ token, (world.sockets value.socket).extranonceId = some token ∧ text = worker.ethExtranonce token)
    (active : value.active = true → (world.miners id).active = true) :
    Follows worker world (world.setMiner id value) := by
  refine ⟨.of_sockets rfl,sound.setMiner extranonce ?_,?_,fun _ => rfl⟩
  · rw [socket]
    exact fun found => sound.active id (active found)
  · intro other
    by_cases same : other = id
    · subst same
      rw [setMiner_self,socket]
    · rw [setMiner_other same]

theorem Sound.tell (sound : Sound worker world) {token : ℕ} (held : (world.sockets socket).held = some token) :
    Follows worker world (world.tell socket (worker.ethExtranonce token)) := by
  unfold World.tell
  split
  · refine ⟨.of_sockets rfl,⟨sound.shared,sound.unopened,?_,sound.extranonce,sound.active⟩,fun _ => rfl,fun _ => rfl⟩
    intro other text told
    rcases List.mem_append.mp told with before | new
    · exact sound.told other text before
    · obtain ⟨rfl,rfl⟩ := Prod.mk.inj (List.mem_singleton.mp new)
      exact ⟨token,held,rfl⟩
  · exact .refl sound

theorem holder_congr (status : (next.sockets socket).status = (world.sockets socket).status)
    (held : (next.sockets socket).held = (world.sockets socket).held) : holder next socket = holder world socket :=
  if_congr (iff_of_eq (congrArg (· = Status.opened) status)) held rfl

theorem holder_setSocket_eq : holder (world.setSocket socket value) =
    update (holder world) socket (if value.status = .opened then value.held else none) := by
  funext other
  by_cases same : other = socket
  · subst same
    simp only [update_self,holder,World.isOpen,setSocket_self]
  · have before : (world.setSocket socket value).sockets other = world.sockets other := setSocket_other same
    rw [update_of_ne same]
    exact holder_congr (congrArg Socket.status before) (congrArg Socket.held before)

theorem holder_setSocket (status : value.status = .opened) :
    holder (world.setSocket socket value) = update (holder world) socket value.held := by
  rw [holder_setSocket_eq,if_pos status]

theorem holder_setSocket_shut (status : value.status ≠ .opened) :
    holder (world.setSocket socket value) = update (holder world) socket none := by
  rw [holder_setSocket_eq,if_neg status]

theorem holder_unchanged (status : value.status = (world.sockets socket).status)
    (held : value.held = (world.sockets socket).held) : holder (world.setSocket socket value) = holder world :=
  funext fun other => holder_congr (setSocket_field Socket.status status other) (setSocket_field Socket.held held other)

def Idle (world : World) (socket : ℕ) : Prop := ∀ id, (world.miners id).active = true →
    (world.miners id).socket ≠ socket

theorem Sound.idle (sound : Sound worker world) (idle : Idle world socket) {free : List ℕ}
    (opened : value.status = .unopened → value.held = none) (held : value.held = (world.sockets socket).held)
    (claimed : value.extranonceId = (world.sockets socket).extranonceId)
    (shared : Shared worker.freeEthExtranonces free (holder (world.setSocket socket value))) :
    Sound worker { world.setSocket socket value with free := free } := by
  refine sound.setSocket (fun _ => held.trans) (fun _ => claimed.trans) shared opened ?_
  intro id active
  rw [World.isOpen,setSocket_other (idle id active)]
  exact sound.active id active

end Updates

section Claims

variable {keep : ℕ → Socket} {token : ℕ}

theorem getNewEthExtranonceId_follows (sound : Sound worker world) (ready : Ready world socket)
    (empty : (world.sockets socket).held = none) (status : ∀ id, (keep id).status = (world.sockets socket).status)
    (minerId : ∀ id, (keep id).minerId = (world.sockets socket).minerId) (held : ∀ id, (keep id).held = some id) :
    Follows worker world (getNewEthExtranonceId world socket keep).2 := by
  unfold getNewEthExtranonceId
  split
  · exact .refl sound
  next id last =>
    have split := List.dropLast_append_getLast? id last
    have opened : world.isOpen socket := by
      rcases ready with opened | held | none
      · exact opened
      · exact absurd empty held
      · rw [none] at last
        cases last
    have lent : holder world socket = none := by rw [holder,if_pos opened,empty]
    have shared : Shared worker.freeEthExtranonces (world.free.dropLast ++ [id]) (holder world) :=
      split.symm ▸ sound.shared
    refine sound.fields ?_ ?_ ?_ (status id) (minerId id) ?_
    · intro token before
      rw [empty] at before
      cases before
    · intro token before
      rw [held_claimed before] at empty
      cases empty
    · rw [holder_setSocket ((status id).trans opened),held id]
      exact shared.take lent
    · rw [status id,opened]
      exact fun h => Status.noConfusion h

theorem getNewEthExtranonceId_keeps (got : (getNewEthExtranonceId world socket keep).1 = some token) :
    (getNewEthExtranonceId world socket keep).2.sockets socket = keep token := by
  unfold getNewEthExtranonceId at got ⊢
  split
  next none => simp [none] at got
  next id last =>
    simp only [last,some.injEq] at got
    rw [← got]
    exact setSocket_self

theorem claimEthExtranonceId_follows (sound : Sound worker world) (ready : Ready world socket) :
    Follows worker world (claimEthExtranonceId world socket).2 := by
  simp only [claimEthExtranonceId]
  split
  · exact .refl sound
  next unclaimed =>
    split
    next id preview =>
      have held : (world.sockets socket).held = some id := by rw [Socket.held,unclaimed,preview]; rfl
      have same :
          holder (world.setSocket socket { world.sockets socket with extranonceId := some id, previewId := none }) =
            holder world :=
        holder_unchanged rfl held.symm
      refine sound.fields (fun _ => held.symm.trans) ?_ (same ▸ sound.shared) rfl rfl ?_
      · intro token before
        rw [unclaimed] at before
        cases before
      · intro unopened
        rw [sound.unopened socket unopened] at held
        cases held
    next unseen =>
      have empty : (world.sockets socket).held = none := by rw [Socket.held,unclaimed,unseen]; rfl
      exact getNewEthExtranonceId_follows sound ready empty (fun _ => rfl) (fun _ => rfl) fun _ => rfl

theorem claimEthExtranonceId_claims (got : (claimEthExtranonceId world socket).1 = some token) :
    ((claimEthExtranonceId world socket).2.sockets socket).extranonceId = some token := by
  simp only [claimEthExtranonceId] at got ⊢
  split
  next id claimed =>
    simp only [claimed,some.injEq] at got
    exact got ▸ claimed
  next unclaimed =>
    simp only [unclaimed] at got
    split
    next id preview =>
      simp only [preview,some.injEq] at got
      rw [setSocket_self,got]
    next unseen =>
      simp only [unseen] at got ⊢
      rw [getNewEthExtranonceId_keeps got]

private theorem getNewEthExtranonceId_miners (keep : ℕ → Socket) : (getNewEthExtranonceId world socket keep).2.miners =
    world.miners := by
  unfold getNewEthExtranonceId
  split <;> rfl

theorem claimEthExtranonceId_miners : (claimEthExtranonceId world socket).2.miners = world.miners := by
  simp only [claimEthExtranonceId]
  split
  · rfl
  · split
    · rfl
    · exact getNewEthExtranonceId_miners _

theorem getEthExtranoncePreviewId_follows (sound : Sound worker world) (opened : world.isOpen socket) :
    Follows worker world (getEthExtranoncePreviewId world socket).2 := by
  simp only [getEthExtranoncePreviewId]
  split
  · exact .refl sound
  next unclaimed =>
    split
    · exact .refl sound
    next unseen =>
      have empty : (world.sockets socket).held = none := by rw [Socket.held,unclaimed,unseen]; rfl
      exact getNewEthExtranonceId_follows sound (.inl opened) empty (fun _ => rfl) (fun _ => rfl) fun _ => by
        rw [Socket.held,unclaimed]
        rfl

theorem getEthExtranoncePreviewId_held (got : (getEthExtranoncePreviewId world socket).1 = some token) :
    ((getEthExtranoncePreviewId world socket).2.sockets socket).held = some token := by
  simp only [getEthExtranoncePreviewId] at got ⊢
  split
  next id claimed =>
    simp only [claimed,some.injEq] at got
    exact got ▸ held_claimed claimed
  next unclaimed =>
    simp only [unclaimed] at got
    split
    next id preview =>
      simp only [preview,some.injEq] at got
      rw [Socket.held,unclaimed,preview,got]
      rfl
    next unseen =>
      simp only [unclaimed,unseen] at got ⊢
      rw [getNewEthExtranonceId_keeps got]
      rfl

end Claims

section Jobs

variable {coin : String} {offer : Offer}

def asks (settings : String → PoolSettings) (miner : Miner) (coin : String) (offer : Offer) : Bool :=
  !knowsJob miner offer && needsNativeExtranonce settings miner coin && miner.extranonce.isNone

theorem claimed_follows (sound : Sound worker world) (ready : Ready world (world.miners id).socket) {newId : ℕ}
    {claimed : World} (answer : claimEthExtranonceId world (world.miners id).socket = (some newId,claimed)) :
    Follows worker world
      (claimed.setMiner id { world.miners id with extranonce := some (worker.ethExtranonce newId) }) := by
  have follows := claimEthExtranonceId_follows sound ready
  have miners : (claimEthExtranonceId world (world.miners id).socket).2.miners = world.miners :=
    claimEthExtranonceId_miners
  have claims := claimEthExtranonceId_claims (congrArg Prod.fst answer)
  rw [answer] at follows miners claims
  refine follows.trans (follows.sound.miner ?_ ?_ ?_)
  · rw [miners]
  · rintro text ⟨⟩
    exact ⟨newId,claims,rfl⟩
  · rw [miners]
    exact fun active => active

theorem attachMinerExtranonce_follows (sound : Sound worker world)
    (ready : (world.miners id).extranonce = none → Ready world (world.miners id).socket) :
    Follows worker world (attachMinerExtranonce worker world id) := by
  simp only [attachMinerExtranonce]
  split
  · exact .refl sound
  next lacks =>
    have none := not_isSome_iff_eq_none.mp lacks
    split
    next newId claimed answer => exact claimed_follows sound (ready none) answer
    next same answer =>
      have follows := claimEthExtranonceId_follows sound (ready none)
      have miners : (claimEthExtranonceId world (world.miners id).socket).2.miners = world.miners :=
        claimEthExtranonceId_miners
      rw [answer] at follows miners
      refine follows.trans (follows.sound.miner ?_ ?_ ?_)
      · rw [miners]
      · intro text extranonce
        rw [none] at extranonce
        cases extranonce
      · rw [miners]
        exact fun active => active

theorem Sound.kept (sound : Sound worker world) {value : Miner} (socket : value.socket = (world.miners id).socket)
    (extranonce : value.extranonce = (world.miners id).extranonce)
    (active : value.active = true → (world.miners id).active = true) :
    Follows worker world (world.setMiner id value) := by
  refine sound.miner socket ?_ active
  intro text found
  rw [socket]
  exact sound.extranonce id text (extranonce.symm.trans found)

theorem noteTemplate_miner (offer : Offer) :
    (noteTemplate world id offer).miners id = { world.miners id with jobLastBlockHash := some offer.idHash } :=
    setMiner_self

section

variable (sound : Sound worker world)
include sound

private theorem noteTemplate_follows (offer : Offer) : Follows worker world (noteTemplate world id offer) :=
  sound.kept rfl rfl fun active => active

private theorem ensureEthExtranonce_follows (ready : needsNativeExtranonce settings (world.miners id) coin = true →
      (world.miners id).extranonce = none →
      Ready world (world.miners id).socket) :
      Follows worker world (ensureEthExtranonce worker settings world id coin) := by
  unfold ensureEthExtranonce
  split
  next needs => exact attachMinerExtranonce_follows sound (ready needs)
  · exact .refl sound

private theorem buildJob_follows (coin : String) (offer : Offer) :
    Follows worker world (buildJob settings world id coin offer).2 := by
  unfold buildJob
  split
  · exact .refl sound
  · split
    · exact sound.kept rfl rfl fun active => active
    · exact .refl sound

theorem getCoinJob_follows (ready : asks settings (world.miners id) coin offer = true →
      Ready world (world.miners id).socket) :
    Follows worker world (getCoinJob worker settings world id coin offer).2 := by
  unfold getCoinJob
  split
  · exact .refl sound
  next unknown =>
    have noted : Follows worker world (noteTemplate world id offer) := noteTemplate_follows sound offer
    have ensured : Follows worker (noteTemplate world id offer)
        (ensureEthExtranonce worker settings (noteTemplate world id offer) id coin) := by
      refine ensureEthExtranonce_follows noted.sound ?_
      rw [noteTemplate_miner]
      intro needs lacks
      have needy : needsNativeExtranonce settings (world.miners id) coin = true := needs
      have lacking : (world.miners id).extranonce = none := lacks
      refine ready ?_
      rw [asks,needy,lacking,Bool.eq_false_iff.mpr unknown]
      rfl
    exact (noted.trans ensured).trans (buildJob_follows ensured.sound coin offer)

theorem tellExtranonce_follows : Follows worker world (tellExtranonce world id) := by
  unfold tellExtranonce
  split
  next text own =>
    obtain ⟨token,claimed,rfl⟩ := sound.extranonce id text own
    exact sound.tell (held_claimed claimed)
  · exact .refl sound

private theorem tellJob_follows (coin : String) : Follows worker world (tellJob settings world id coin) := by
  unfold tellJob
  split
  · exact tellExtranonce_follows sound
  · exact .refl sound

theorem sendCoinJob_follows (ready : asks settings (world.miners id) coin offer = true →
      Ready world (world.miners id).socket) :
    Follows worker world (sendCoinJob worker settings world id coin offer) := by
  have built : Follows worker world (getCoinJob worker settings world id coin offer).2 := getCoinJob_follows sound ready
  unfold sendCoinJob
  split
  next next answer =>
    rw [answer] at built
    exact built.trans (tellJob_follows built.sound coin)
  next next answer =>
    rw [answer] at built
    exact built

theorem sendSameCoinJob_follows (ready : ∀ coin, (world.miners id).currCoin = some coin →
      asks settings (world.miners id) coin offer = true →
      Ready world (world.miners id).socket) :
      Follows worker world (sendSameCoinJob worker settings world id offer) := by
  unfold sendSameCoinJob
  split
  · exact .refl sound
  next coin current => exact sendCoinJob_follows sound (ready coin current)

theorem selectBestCoin_follows (offer : Offer) : Follows worker world (selectBestCoin world id offer) := by
  simp only [selectBestCoin]
  split
  · exact .refl sound
  · split
    · exact .refl sound
    · split
      · exact sound.kept rfl rfl fun active => active
      · exact sound.kept rfl rfl fun active => active

theorem sendBestCoinJob_follows (opened : world.isOpen (world.miners id).socket) (offer : Offer) :
    Follows worker world (sendBestCoinJob worker settings world id offer) := by
  unfold sendBestCoinJob
  split
  · exact .refl sound
  next coin _ =>
    have selected : Follows worker world (selectBestCoin world id offer) := selectBestCoin_follows sound offer
    refine selected.trans (sendCoinJob_follows selected.sound fun _ => .inl ?_)
    rw [selected.socket id]
    exact selected.isOpen opened

private theorem attachLoginExtraNonce_follows (opened : world.isOpen (world.miners id).socket) :
    Follows worker world (attachLoginExtraNonce worker world id).2 := by
  simp only [attachLoginExtraNonce]
  split
  next newId claimed answer => exact claimed_follows sound (.inl opened) answer
  next same answer =>
    have follows := claimEthExtranonceId_follows sound (.inl opened)
    rw [answer] at follows
    exact follows

private theorem sendLoginResult_follows (opened : world.isOpen (world.miners id).socket) (coin : String)
    (offer : Offer) : Follows worker world (sendLoginResult worker settings world id coin offer) := by
  have attach : Follows worker world (attachLoginExtraNonce worker world id).2 :=
    attachLoginExtraNonce_follows sound opened
  unfold sendLoginResult
  split
  · exact getCoinJob_follows sound fun _ => .inl opened
  · exact sendBestCoinJob_follows sound opened offer
  · split
    next same answer =>
      rw [answer] at attach
      exact attach
    next attached answer =>
      rw [answer] at attach
      have told : Follows worker attached (tellExtranonce attached id) := tellExtranonce_follows attach.sound
      have replied := attach.trans told
      refine replied.trans (sendCoinJob_follows replied.sound fun _ => .inl ?_)
      rw [replied.socket id]
      exact replied.isOpen opened
  · split
    next same answer =>
      rw [answer] at attach
      exact attach
    next attached answer =>
      rw [answer] at attach
      have job : Follows worker attached (getCoinJob worker settings attached id coin offer).2 := by
        refine getCoinJob_follows attach.sound fun _ => .inl ?_
        rw [attach.socket id]
        exact attach.isOpen opened
      have whole := attach.trans job
      exact whole.trans (tellExtranonce_follows whole.sound)

theorem sendLoginJob_follows (opened : world.isOpen (world.miners id).socket) (method : Method)
    (offer : Offer) : Follows worker world (sendLoginJob worker settings world id method offer) := by
  unfold sendLoginJob
  split
  · exact .refl sound
  · exact sendBestCoinJob_follows sound opened offer
  · split
    · exact .refl sound
    next coin _ =>
      have selected : Follows worker world (selectBestCoin world id offer) := selectBestCoin_follows sound offer
      refine selected.trans (sendLoginResult_follows selected.sound ?_ coin offer)
      rw [selected.socket id]
      exact selected.isOpen opened

end

end Jobs

section Logins

theorem Keeps.setMinerId (minerId : Option ℕ) :
    Keeps world (world.setSocket socket { world.sockets socket with minerId := minerId }) :=
  ⟨setSocket_field Socket.status rfl,fun other _ held => (setSocket_field Socket.held (by rfl) other).trans held,
    fun other _ claimed => (setSocket_field Socket.extranonceId (by rfl) other).trans claimed⟩

theorem Sound.setMinerId (sound : Sound worker world) (idle : Idle world socket) (minerId : Option ℕ) :
    Sound worker (world.setSocket socket { world.sockets socket with minerId := minerId }) := by
  have same : holder (world.setSocket socket { world.sockets socket with minerId := minerId }) = holder world :=
    holder_unchanged rfl rfl
  exact sound.idle idle (sound.unopened socket) rfl rfl (same ▸ sound.shared)

theorem createMiner_sound (sound : Sound worker world) (socket : ℕ) (login : Login) :
    Sound worker (createMiner world socket login) := by
  have counted : Sound worker { world with nextMiner := world.nextMiner + 1 } :=
    ⟨sound.shared,sound.unopened,sound.told,sound.extranonce,sound.active⟩
  exact counted.setMiner nofun nofun

theorem createMiner_miner (socket : ℕ) (login : Login) :
    ((createMiner world socket login).miners world.nextMiner).socket = socket := by
  rw [createMiner,setMiner_self]

private theorem finishLogin_sound (sound : Sound worker world) (idle : Idle world socket) (opened : world.isOpen socket)
    (own : (world.miners id).socket = socket) : Sound worker (finishLogin world socket id) := by
  refine (sound.setMinerId idle (some id)).setMiner ?_ ?_
  · intro text extranonce
    obtain ⟨token,claimed,same⟩ := sound.extranonce id text extranonce
    have keeps : Keeps world (world.setSocket socket { world.sockets socket with minerId := some id }) := .setMinerId _
    exact ⟨token,keeps.claimed _ token claimed,same⟩
  · intro _
    show (world.setSocket socket _).isOpen (world.miners id).socket ∧ _
    rw [own,World.isOpen,setSocket_self]
    exact ⟨opened,rfl⟩

private theorem finishLogin_keeps : Keeps world (finishLogin world socket id) :=
  (Keeps.setMinerId (some id)).trans (.of_sockets rfl)

theorem applyAuthorizeExtranonce_follows (sound : Sound worker world) (opened : world.isOpen (world.miners id).socket)
    (method : Method) : Follows worker world (applyAuthorizeExtranonce worker world id method) := by
  unfold applyAuthorizeExtranonce
  split
  · exact attachMinerExtranonce_follows sound fun _ => .inl opened
  · exact .refl sound

private theorem acceptMiner_sound (sound : Sound worker world) (idle : Idle world socket) (opened : world.isOpen socket)
    (own : (world.miners id).socket = socket) (login : Login) (offer : Offer) :
    Sound worker (acceptMiner worker settings world socket id login offer) ∧
      Keeps world (acceptMiner worker settings world socket id login offer) := by
  unfold acceptMiner
  split
  · have finished : Sound worker (finishLogin world socket id) := finishLogin_sound sound idle opened own
    have keeps : Keeps world (finishLogin world socket id) := finishLogin_keeps
    have there : (finishLogin world socket id).isOpen ((finishLogin world socket id).miners id).socket := by
      have same : ((finishLogin world socket id).miners id).socket = socket := by
        rw [finishLogin,setMiner_self]
        exact own
      rw [same]
      exact (keeps.status socket).trans opened
    have sent : Follows worker (finishLogin world socket id)
        (sendLoginJob worker settings (finishLogin world socket id) id login.method offer) :=
      sendLoginJob_follows finished there login.method offer
    exact ⟨sent.sound,keeps.trans sent.toKeeps⟩
  · exact ⟨sound,.of_sockets rfl⟩

theorem handleLoginRequest_sound (sound : Sound worker world) (opened : world.isOpen socket) (login : Login)
    (offer : Offer) :
    Sound worker (handleLoginRequest worker settings world socket login offer) ∧
      Keeps world (handleLoginRequest worker settings world socket login offer) := by
  simp only [handleLoginRequest]
  split
  · exact ⟨sound,.of_sockets rfl⟩
  next free =>
    have idle : Idle world socket := by
      intro other active here
      obtain ⟨_,own⟩ := sound.active other active
      rw [here] at own
      exact free (by rw [own]; exact active)
    have created : Sound worker (createMiner (forgetMiner world socket) socket login) :=
      createMiner_sound (sound.setMinerId idle none) socket login
    have forgot : Keeps world (createMiner (forgetMiner world socket) socket login) :=
      (Keeps.setMinerId none).trans (.of_sockets rfl)
    have own : ((createMiner (forgetMiner world socket) socket login).miners world.nextMiner).socket = socket :=
      createMiner_miner socket login
    have there : (createMiner (forgetMiner world socket) socket login).isOpen socket :=
      (forgot.status socket).trans opened
    have authorized : Follows worker (createMiner (forgetMiner world socket) socket login)
        (applyAuthorizeExtranonce worker (createMiner (forgetMiner world socket) socket login) world.nextMiner
        login.method) :=
      applyAuthorizeExtranonce_follows created (by rw [own]; exact there) login.method
    have gone : (((createMiner (forgetMiner world socket) socket login)).sockets socket).minerId = none := by
      show ((world.setSocket socket _).sockets socket).minerId = none
      rw [setSocket_self]
    -- the socket has forgotten its miner, so no miner on it is active
    have still : Idle (applyAuthorizeExtranonce worker (createMiner (forgetMiner world socket) socket login)
      world.nextMiner login.method) socket := by
      intro other active here
      obtain ⟨_,registered⟩ := authorized.sound.active other active
      rw [here,authorized.minerId,gone] at registered
      cases registered
    obtain ⟨accepted,keeps⟩ := acceptMiner_sound authorized.sound still (authorized.isOpen there)
      ((authorized.socket _).trans own) login offer
    exact ⟨accepted,(forgot.trans authorized.toKeeps).trans keeps⟩

end Logins

section Sockets

theorem handleSubscribeRequest_follows (sound : Sound worker world) (opened : world.isOpen socket) :
    Follows worker world (handleSubscribeRequest worker world socket) := by
  have follows := getEthExtranoncePreviewId_follows sound opened
  unfold handleSubscribeRequest
  split
  next previewId previewed answer =>
    have held := getEthExtranoncePreviewId_held (congrArg Prod.fst answer)
    rw [answer] at follows held
    exact follows.trans (follows.sound.tell held)
  next same answer =>
    rw [answer] at follows
    exact follows

theorem removeMiner_follows (sound : Sound worker world) : Follows worker world (removeMiner world id) :=
  sound.kept rfl rfl nofun

theorem connect_sound (sound : Sound worker world) (fresh : (world.sockets socket).status = .unopened) :
    Sound worker (world.setSocket socket { world.sockets socket with status := .opened }) := by
  have empty := sound.unopened socket fresh
  have unused : Idle world socket := by
    intro other active here
    have opened := (sound.active other active).1
    rw [here,World.isOpen,fresh] at opened
    cases opened
  have lent : holder world socket = none := by
    have shut : ¬ world.isOpen socket := by
      rw [World.isOpen,fresh]
      exact fun h => Status.noConfusion h
    rw [holder,if_neg shut]
  have same : holder (world.setSocket socket { world.sockets socket with status := .opened }) = holder world := by
    rw [holder_setSocket rfl]
    exact update_eq_self_iff.mpr (empty.trans lent.symm)
  exact sound.idle unused nofun rfl rfl (same ▸ sound.shared)

theorem onClose_eq : onClose world socket =
    { ((world.sockets socket).minerId.elim world fun id => removeMiner world id).setSocket socket
        { world.sockets socket with status := .closed } with
      free := world.free ++ (world.sockets socket).held.toList } := by
  have free : ((world.sockets socket).minerId.elim world fun id => removeMiner world id).free = world.free := by
    cases (world.sockets socket).minerId <;> rfl
  simp only [onClose,Socket.held]
  cases (world.sockets socket).extranonceId with
  | some id => simp [free]
  | none =>
    cases (world.sockets socket).previewId with
    | some id => simp [free]
    | none =>
      have back : world.free ++ (none : Option ℕ).toList =
          ((world.sockets socket).minerId.elim world fun id => removeMiner world id).free := by
        rw [free,toList_none,List.append_nil]
      exact congrArg (fun free => { World.setSocket _ _ _ with free := free }) back.symm

private theorem shut_sound (sound : Sound worker world) (idle : Idle world socket) (opened : world.isOpen socket) :
    Sound worker { world.setSocket socket { world.sockets socket with status := .closed } with
      free := world.free ++ (world.sockets socket).held.toList } := by
  have lent : holder world socket = (world.sockets socket).held := if_pos opened
  have shared : Shared worker.freeEthExtranonces (world.free ++ (world.sockets socket).held.toList)
      (holder (world.setSocket socket { world.sockets socket with status := .closed })) := by
    rw [holder_setSocket_shut fun h => Status.noConfusion h]
    cases held : (world.sockets socket).held with
    | some token => exact sound.shared.give (lent.trans held)
    | none =>
      have same : update (holder world) socket none = holder world :=
        update_eq_self_iff.mpr (lent.trans held).symm
      rw [same,toList_none,List.append_nil]
      exact sound.shared
  exact sound.idle idle nofun rfl rfl shared

theorem onClose_sound (sound : Sound worker world) (opened : world.isOpen socket) :
    Sound worker (onClose world socket) := by
  rw [onClose_eq]
  cases registered : (world.sockets socket).minerId with
  | none =>
    refine shut_sound sound ?_ opened
    intro other active here
    have own := (sound.active other active).2
    rw [here,registered] at own
    cases own
  | some id =>
    have removed : Follows worker world (removeMiner world id) := removeMiner_follows sound
    refine shut_sound removed.sound ?_ opened
    intro other active here
    have own := (removed.sound.active other active).2
    rw [here] at own
    cases registered.symm.trans own
    rw [removeMiner,setMiner_self] at active
    cases active

end Sockets

section Runs

/-- A share that turns out invalid takes no id for a socket that has closed: the job now sent needs
no extranonce that the miner lacks, or the socket held an id, or none is free. -/
def Prompt (settings : String → PoolSettings) (world : World) : Label → Prop
  | .invalidShare id offer => ∀ coin ∈ (world.miners id).currCoin, asks settings (world.miners id) coin offer = true →
      Ready world (world.miners id).socket
  | _ => True

instance (settings : String → PoolSettings) (world : World) (id : ℕ) (offer : Offer) :
    Decidable (Prompt settings world (.invalidShare id offer)) :=
  inferInstanceAs (Decidable (∀ coin ∈ (world.miners id).currCoin, asks settings (world.miners id) coin offer = true →
    Ready world (world.miners id).socket))

variable {label : Label}

theorem checked_miner : (world.checked id).miners id =
    { world.miners id with checking := (world.miners id).checking - 1 } :=
  setMiner_self

def Kept (world next : World) : Prop :=
  ∀ socket, world.isOpen socket → next.isOpen socket → ∀ token,
    ((world.sockets socket).held = some token → (next.sockets socket).held = some token) ∧
      ((world.sockets socket).extranonceId = some token → (next.sockets socket).extranonceId = some token)

theorem Keeps.kept (keeps : Keeps world next) : Kept world next :=
  fun socket _ _ token => ⟨keeps.held socket token,keeps.claimed socket token⟩

theorem kept_setSocket {value : Socket} (shut : ¬ (world.isOpen socket ∧ value.status = .opened)) {free : List ℕ}
    {miners : ℕ → Miner} : Kept world { world.setSocket socket value with free := free, miners := miners } := by
  intro other before after token
  by_cases same : other = socket
  · subst same
    have now : ((world.setSocket other value).sockets other).status = .opened := after
    rw [setSocket_self] at now
    exact absurd ⟨before,now⟩ shut
  · have fields : (world.setSocket socket value).sockets other = world.sockets other := setSocket_other same
    exact ⟨fun held => (congrArg Socket.held fields).trans held,fun claimed =>
      (congrArg Socket.extranonceId fields).trans claimed⟩

theorem step_sound (sound : Sound worker world) (prompt : Prompt settings world label)
    (moved : step worker settings world label = some next) : Sound worker next ∧ Kept world next := by
  have done : ∀ {after : World}, some after = some next → Follows worker world after → Sound worker next ∧
      Kept world next := by
    rintro after ⟨⟩ follows
    exact ⟨follows.sound,follows.toKeeps.kept⟩
  cases label with
  | connect socket =>
    obtain ⟨fresh,moved⟩ := ite_none_right_eq_some.mp moved
    cases moved
    refine ⟨connect_sound sound fresh,kept_setSocket ?_⟩
    rintro ⟨opened,_⟩
    rw [World.isOpen,fresh] at opened
    cases opened
  | subscribe socket =>
    obtain ⟨opened,moved⟩ := ite_none_right_eq_some.mp moved
    exact done moved (handleSubscribeRequest_follows sound opened)
  | login socket login offer =>
    obtain ⟨opened,moved⟩ := ite_none_right_eq_some.mp moved
    cases moved
    obtain ⟨still,keeps⟩ := handleLoginRequest_sound sound opened login offer
    exact ⟨still,keeps.kept⟩
  | sendSameCoinJob id offer =>
    obtain ⟨active,moved⟩ := ite_none_right_eq_some.mp moved
    exact done moved (sendSameCoinJob_follows sound fun _ _ _ => .inl (sound.active id active).1)
  | sendBestCoinJob id offer =>
    obtain ⟨active,moved⟩ := ite_none_right_eq_some.mp moved
    exact done moved (sendBestCoinJob_follows sound (sound.active id active).1 offer)
  | submit id | verified id =>
    obtain ⟨_,moved⟩ := ite_none_right_eq_some.mp moved
    exact done moved (sound.kept rfl rfl fun active => active)
  | invalidShare id offer =>
    obtain ⟨_,moved⟩ := ite_none_right_eq_some.mp moved
    have checked : Follows worker world (world.checked id) := sound.kept rfl rfl fun active => active
    refine done moved (checked.trans (sendSameCoinJob_follows checked.sound ?_))
    rw [checked_miner]
    exact prompt
  | remove id =>
    exact done moved (removeMiner_follows sound)
  | close socket =>
    obtain ⟨opened,moved⟩ := ite_none_right_eq_some.mp moved
    cases moved
    refine ⟨onClose_sound sound opened,?_⟩
    rw [onClose_eq]
    cases (world.sockets socket).minerId with
    | none | some id => exact kept_setSocket fun shut => Status.noConfusion shut.2

theorem Sound.owned (sound : Sound worker world) : Owned worker world := fun _ member => sound.shared.once member

section Leaks

variable {coin : String} {offer : Offer}

theorem buildJob_fields (settings : String → PoolSettings) (world : World) (id : ℕ) (coin : String) (offer : Offer) :
    (buildJob settings world id coin offer).2.free = world.free ∧
    (buildJob settings world id coin offer).2.sockets = world.sockets := by
  unfold buildJob
  split
  · exact ⟨rfl,rfl⟩
  · split <;> exact ⟨rfl,rfl⟩

private theorem tellJob_fields : (tellJob settings world id coin).free = world.free ∧
    (tellJob settings world id coin).sockets = world.sockets := by
  unfold tellJob tellExtranonce
  split
  · split
    · exact ⟨tell_free _,tell_sockets _⟩
    · exact ⟨rfl,rfl⟩
  · exact ⟨rfl,rfl⟩

theorem sendCoinJob_asks (worker : Worker) (asked : asks settings (world.miners id) coin offer = true) :
    (sendCoinJob worker settings world id coin offer).free =
      (attachMinerExtranonce worker (noteTemplate world id offer) id).free ∧
      (sendCoinJob worker settings world id coin offer).sockets =
        (attachMinerExtranonce worker (noteTemplate world id offer) id).sockets := by
  simp only [asks,Bool.and_eq_true,Bool.not_eq_true'] at asked
  obtain ⟨⟨unknown,needs⟩,_⟩ := asked
  have needy : needsNativeExtranonce settings ((noteTemplate world id offer).miners id) coin = true := by
    rw [noteTemplate_miner]
    exact needs
  have ensured : ensureEthExtranonce worker settings (noteTemplate world id offer) id coin =
      attachMinerExtranonce worker (noteTemplate world id offer) id := if_pos needy
  have built : getCoinJob worker settings world id coin offer =
      buildJob settings (attachMinerExtranonce worker (noteTemplate world id offer) id) id coin offer := by
    rw [getCoinJob,unknown,if_neg Bool.false_ne_true,ensured]
  obtain ⟨free,sockets⟩ :=
    buildJob_fields settings (attachMinerExtranonce worker (noteTemplate world id offer) id) id coin offer
  unfold sendCoinJob
  rw [built]
  split
  next job answer =>
    rw [answer] at free sockets
    exact ⟨tellJob_fields.1.trans free,tellJob_fields.2.trans sockets⟩
  next job answer =>
    rw [answer] at free sockets
    exact ⟨free,sockets⟩

private theorem attachMinerExtranonce_takes (worker : Worker) (lacks : (world.miners id).extranonce = none)
    (empty : (world.sockets (world.miners id).socket).held = none) {free : List ℕ} {token : ℕ}
    (last : world.free = free ++ [token]) : (attachMinerExtranonce worker world id).free = free ∧
      ∀ socket, ((attachMinerExtranonce worker world id).sockets socket).status = (world.sockets socket).status ∧
        (socket ≠ (world.miners id).socket → (attachMinerExtranonce worker world id).sockets socket =
          world.sockets socket) := by
  have fields : (world.sockets (world.miners id).socket).extranonceId = none ∧
      (world.sockets (world.miners id).socket).previewId = none := by
    rw [Socket.held] at empty
    cases claimed : (world.sockets (world.miners id).socket).extranonceId with
    | some _ =>
      rw [claimed] at empty
      cases empty
    | none =>
      rw [claimed] at empty
      exact ⟨rfl,empty⟩
  have answer : claimEthExtranonceId world (world.miners id).socket = (some token,
      { world with free := free }.setSocket (world.miners id).socket
        { world.sockets (world.miners id).socket with extranonceId := some token }) := by
    simp only [claimEthExtranonceId,fields.1,fields.2,getNewEthExtranonceId,last,List.getLast?_concat,
      List.dropLast_concat]
  simp only [attachMinerExtranonce,lacks,answer,isSome_none,Bool.false_eq_true,if_false]
  refine ⟨rfl,fun socket => ⟨?_,fun apart => setSocket_other apart⟩⟩
  rw [setMiner_sockets]
  by_cases same : socket = (world.miners id).socket
  · rw [same,setSocket_self]
  · rw [setSocket_other same]

theorem step_leaks (sound : Sound worker world) (late : ¬ Prompt settings world label)
    (moved : step worker settings world label = some next) : ¬ Owned worker next := by
  cases label with
  | invalidShare id offer =>
    obtain ⟨_,moved⟩ := ite_none_right_eq_some.mp moved
    simp only [Prompt,not_forall] at late
    obtain ⟨coin,current,asked,unready⟩ := late
    obtain ⟨shut,empty,some_free⟩ : ¬ world.isOpen (world.miners id).socket ∧
        (world.sockets (world.miners id).socket).held = none ∧ world.free ≠ [] := by
      simpa [Ready] using unready
    obtain ⟨free,token,last⟩ : ∃ free token, world.free = free ++ [token] :=
      ⟨_,_,(List.dropLast_append_getLast some_free).symm⟩
    have sends : sendSameCoinJob worker settings (world.checked id) id offer =
        sendCoinJob worker settings (world.checked id) id coin offer := by
      rw [sendSameCoinJob,checked_miner]
      simp only [mem_def.mp current]
    have asks_checked : asks settings ((world.checked id).miners id) coin offer = true := by
      rw [checked_miner]
      exact asked
    have lacks : ((noteTemplate (world.checked id) id offer).miners id).extranonce = none := by
      rw [noteTemplate_miner,checked_miner]
      simp only [asks,Bool.and_eq_true,isNone_iff_eq_none] at asked
      exact asked.2
    have own : ((noteTemplate (world.checked id) id offer).miners id).socket = (world.miners id).socket := by
      rw [noteTemplate_miner,checked_miner]
    obtain ⟨same_free,same_sockets⟩ := sendCoinJob_asks worker asks_checked
    obtain ⟨taken,others⟩ := attachMinerExtranonce_takes worker lacks (by rw [own]; exact empty)
      (show (noteTemplate (world.checked id) id offer).free = free ++ [token] from last)
    rw [own] at others
    cases moved
    have holders : holder (sendSameCoinJob worker settings (world.checked id) id offer) = holder world := by
      funext other
      rw [sends]
      by_cases same : other = (world.miners id).socket
      · subst same
        have still : ¬ (sendCoinJob worker settings (world.checked id) id coin offer).isOpen
            (world.miners id).socket := by
          rw [World.isOpen,same_sockets,(others _).1]
          exact shut
        rw [holder,holder,if_neg still,if_neg shut]
      · have beside := (others other).2 same
        refine holder_congr ?_ ?_
        · rw [same_sockets,beside]
          rfl
        · rw [same_sockets,beside]
          rfl
    have shared := sound.shared
    rw [last] at shared
    obtain ⟨member,gone,nobody⟩ := shared.lost
    intro owned
    have now := owned token member
    rw [holders,sends,same_free,taken,gone] at now
    rcases now with ⟨count,_⟩ | ⟨_,socket,held,_⟩
    · exact absurd count (by decide)
    · exact nobody socket held
  | _ => exact absurd trivial late

end Leaks

theorem reachable_sound (reachable : (extranonces worker settings).ReachableBy (Prompt settings) world) :
    Sound worker world := by
  refine reachable.invariant (Sound worker) ?_ fun world next label sound prompt moved =>
    (step_sound sound prompt moved).1
  rintro _ rfl
  have none : holder (start worker) = fun _ => none := by
    funext socket
    exact if_neg fun opened => Status.noConfusion opened
  refine ⟨?_,fun _ _ => rfl,nofun,nofun,nofun⟩
  rw [none]
  exact shared_start List.nodup_range

private theorem Sound.told_apart (sound : Sound worker world) {other : ℕ} {text : String} (apart : socket ≠ other)
    (opened : world.isOpen socket) (opened_other : world.isOpen other) (told : (socket,text) ∈ world.told) :
    (other,text) ∉ world.told := by
  intro told_other
  obtain ⟨token,held,rfl⟩ := sound.told socket text told
  obtain ⟨second,held_other,same⟩ := sound.told other _ told_other
  have here : holder world socket = some token := (if_pos opened).trans held
  have there : holder world other = some second := (if_pos opened_other).trans held_other
  have first_free := (sound.shared.all token).mpr (.inr ⟨socket,here⟩)
  have second_free := (sound.shared.all second).mpr (.inr ⟨other,there⟩)
  obtain rfl := Worker.ethExtranonce_injective first_free second_free same
  exact apart (sound.shared.single socket other token here there)

/-- While no invalid share takes an id for a closed socket, every id is owned once, no two open sockets were
told one extranonce, an open socket keeps what it holds and a closed one gives it back. A share that does
take one breaks this for good. -/
theorem extranonces_owned (worker : Worker) (settings : String → PoolSettings) {world : World}
    (reachable : (extranonces worker settings).ReachableBy (Prompt settings) world) : Owned worker world ∧
    (∀ socket other text, socket ≠ other → world.isOpen socket → world.isOpen other → (socket,text) ∈ world.told →
      (other,text) ∉ world.told) ∧
    ∀ label next, step worker settings world label = some next →
      (Owned worker next ↔ Prompt settings world label) ∧
      (Prompt settings world label → Kept world next) ∧
      ∀ socket, label = .close socket → ¬ next.isOpen socket ∧
      next.free = world.free ++ (holder world socket).toList := by
  have sound := reachable_sound reachable
  refine ⟨sound.owned,fun socket other text apart opened opened_other => sound.told_apart apart opened opened_other,?_⟩
  intro label next moved
  refine ⟨⟨?_,fun prompt => (step_sound sound prompt moved).1.owned⟩,fun prompt => (step_sound sound prompt moved).2,?_⟩
  · intro owned
    by_contra late
    exact step_leaks sound late moved owned
  · rintro socket rfl
    obtain ⟨opened,moved⟩ := Option.ite_none_right_eq_some.mp moved
    cases moved
    have lent : holder world socket = (world.sockets socket).held := if_pos opened
    rw [lent,onClose_eq]
    refine ⟨?_,rfl⟩
    intro still
    exact Status.noConfusion ((congrArg Socket.status (Function.update_self ..)).symm.trans still)

def loneWorker : Worker := ⟨0,16,by decide,by decide⟩

def mainAndEth (coin : String) : PoolSettings := if coin = "" then ⟨false,false,.standard⟩ else ⟨true,false,.extraNonce⟩

/-- A native miner has a share verified and is switched to the other coin while another socket previews the
only id. Both sockets close. -/
def switched : List Label :=
  [.connect 1,.login 1 ⟨.login,true,true,true,some ""⟩ ⟨some "",1,false,true⟩,.submit 0,
    .connect 2,.subscribe 2,.sendBestCoinJob 0 ⟨some "ETH",2,false,true⟩,.close 1,.close 2]

theorem switched_prompt : ∀ label ∈ switched, ∀ world, Prompt mainAndEth world label := by
  intro label member world
  simp only [switched,List.mem_cons,List.not_mem_nil,or_false] at member
  rcases member with rfl | rfl | rfl | rfl | rfl | rfl | rfl | rfl <;> trivial

theorem switched_owned : ∃ world, (extranonces loneWorker mainAndEth).run (start loneWorker) switched = some world ∧
    Owned loneWorker world ∧ world.free = [0] ∧ world.told = [(2,"0000")] := by
  have ran : ((extranonces loneWorker mainAndEth).run (start loneWorker) switched).map (fun world =>
    (world.free,world.told)) =
      some ([0],[(2,"0000")]) := by decide +kernel
  obtain ⟨world,ran,seen⟩ := Option.map_eq_some_iff.mp ran
  have reachable := Machine.ReachableBy.run (.initial rfl) switched_prompt ran
  exact ⟨world,ran,(extranonces_owned loneWorker mainAndEth reachable).1,(Prod.mk.inj seen).1,(Prod.mk.inj seen).2⟩

/-- The share turns out invalid: its miner's next job takes the id for the socket that is gone. -/
theorem late_share_leaks : ¬ ∀ world, (extranonces loneWorker mainAndEth).Reachable world → Owned loneWorker world := by
  intro owned
  have ran : ((extranonces loneWorker mainAndEth).run (start loneWorker) switched).map (fun world =>
      (decide (Prompt mainAndEth world (.invalidShare 0 ⟨some "ETH",3,false,true⟩)),
        decide (0 < (world.miners 0).checking))) =
      some (false,true) := by decide +kernel
  obtain ⟨world,ran,seen⟩ := Option.map_eq_some_iff.mp ran
  have late := of_decide_eq_false (Prod.mk.inj seen).1
  have checking := of_decide_eq_true (Prod.mk.inj seen).2
  have moved : (extranonces loneWorker mainAndEth).step world (.invalidShare 0 ⟨some "ETH",3,false,true⟩) = some _ :=
    if_pos checking
  have sound := reachable_sound (Machine.ReachableBy.run (.initial rfl) switched_prompt ran)
  have reachable : (extranonces loneWorker mainAndEth).Reachable world := Machine.reachable_run rfl ran
  exact step_leaks sound late moved (owned _ (reachable.step trivial moved))

end Runs
end NodejsPool.Pool.Extranonces
