import Mathlib.Data.Multiset.Sort
import NodejsPool.RemoteShare.Drain
import NodejsPool.RemoteShare.PoisonShares

/-! Share frames from the uplinks to the share database: an uplink posts its frame until a
post is answered with success, so the host may accept it many times, and each time it stores
the share once more. -/
namespace NodejsPool.RemoteShare.Delivery
open Async ShareStore Multiset
open BlockManager (Config PaymentData Payout Walked collectPplnsSharePayments ensurePaymentRow heightShares
  preCalculatePPLNSPayments recordWeight recordWeight_nonneg totalPayments visitShare walkedShares)
open Option (some bind_eq_some_iff)
open Multiset (map_cons coe_add sort_eq coe_eq_coe induction_on mem_add map_coe sum_coe mem_map map_add sum_add
  mem_coe)

structure Wire (Frame : Type) where
  /-- The key and the message of a frame that carries a share. -/
  WSData : Frame → Option (String × Frame)
  decodeShare : Frame → Option Value

variable {Frame Record : Type}

structure Setup (Frame Record : Type) where
  wire : Wire Frame
  authKey : String
  backend : Backend Record
  settings : Settings
  shareBatchSize : Option ℤ

/-- The frame of an uplink, whether a post of it has been answered with success, and how many
of its posts the host accepted. -/
structure Uplink (Frame : Type) where
  frame : Frame
  sent : Bool := false
  taken : ℕ := 0

/-- `ipc` holds the shares that workers have sent to the primary, oldest first. -/
structure World (Frame Record : Type) where
  db : Db Record
  host : State Value := {}
  ipc : List Value := []
  workerRejecting : Bool := false
  uplinks : List (Uplink Frame) := []

inductive Status where
  | ok
  | badRequest
  | forbidden
  | unavailable
  deriving DecidableEq

def acceptShare (world : World Frame Record) (worker : Bool) (share : Value) : Option (World Frame Record) :=
  if worker then
    if world.workerRejecting then none else some {world with ipc := world.ipc ++ [share]}
  else if world.host.lmdbRejecting then none
  else some {world with host := queueShare world.host share}

def handleLeafFrame (setup : Setup Frame Record) (world : World Frame Record) (worker : Bool) (frame : Frame) :
    World Frame Record × Status :=
  match setup.wire.WSData frame with
  | none => (world,.badRequest)
  | some (key,msg) =>
    if key ≠ setup.authKey then (world,.forbidden)
    else if (if worker then world.workerRejecting else world.host.lmdbRejecting) then (world,.unavailable)
    else
      match setup.wire.decodeShare msg with
      | none => (world,.badRequest)
      | some share =>
        match acceptShare world worker share with
        | none => (world,.unavailable)
        | some world => (world,.ok)

def carried (setup : Setup Frame Record) (frame : Frame) : Option Value := do
  let (key,msg) ← setup.wire.WSData frame
  guard (key = setup.authKey)
  setup.wire.decodeShare msg

theorem handleLeafFrame_cases (setup : Setup Frame Record) (world : World Frame Record) (worker : Bool)
    (frame : Frame) :
    (∃ status, handleLeafFrame setup world worker frame = (world,status) ∧ status ≠ .ok) ∨
      ∃ share, carried setup frame = some share ∧
        (handleLeafFrame setup world worker frame = ({world with ipc := world.ipc ++ [share]},.ok) ∨
          world.host.lmdbRejecting = false ∧
            handleLeafFrame setup world worker frame = ({world with host := queueShare world.host share},.ok)) := by
  unfold handleLeafFrame carried
  cases found : setup.wire.WSData frame with
  | none => exact .inl ⟨_,rfl,nofun⟩
  | some data =>
    obtain ⟨key,msg⟩ := data
    by_cases known : key = setup.authKey
    · cases decoded : setup.wire.decodeShare msg with
      | none =>
        refine .inl ?_
        by_cases rejecting : (if worker = true then world.workerRejecting else world.host.lmdbRejecting) = true <;>
          simp [known,rejecting,decoded]
      | some share =>
        cases worker with
        | true =>
          by_cases rejecting : world.workerRejecting = true
          · exact .inl ⟨.unavailable,by simp [known,rejecting],nofun⟩
          · exact .inr ⟨share,by simp [known,decoded],.inl (by simp [known,rejecting,decoded,acceptShare])⟩
        | false =>
          by_cases rejecting : world.host.lmdbRejecting = true
          · exact .inl ⟨.unavailable,by simp [known,rejecting],nofun⟩
          · refine .inr ⟨share,by simp [known,decoded],.inr ⟨by simpa using rejecting,?_⟩⟩
            simp [known,rejecting,decoded,acceptShare]
    · exact .inl ⟨.forbidden,by simp [known],nofun⟩

def commit (setup : Setup Frame Record) : List (Effect Value) → Db Record → Option (Db Record)
  | [],db => some db
  | .stored batch::effects,db =>
    match storeShares setup.backend setup.settings batch {} db with
    | (.ok _,db) => commit setup effects db
    | (.error _,_) => none
  | _::effects,db => commit setup effects db

/-- What happens: an uplink takes up a share, one of its posts reaches a worker or the
primary and is answered or not, a worker's message arrives, or the share runtime moves. -/
inductive Event (Frame : Type) where
  | send (frame : Frame)
  | post (uplink : ℕ) (worker replied : Bool)
  | remoteShareShare
  | remoteShareRejectWrites
  | turn (turn : Turn Value)

instance (event : Turn Value) : Decidable event.Offers := by
  cases event <;> unfold Turn.Offers <;> infer_instance

def Uplink.posted (uplink : Uplink Frame) (status : Status) (replied : Bool) : Uplink Frame :=
  if status = .ok then {uplink with sent := replied, taken := uplink.taken + 1} else uplink

def step (setup : Setup Frame Record) (world : World Frame Record) : Event Frame → Option (World Frame Record)
  | .send frame => some {world with uplinks := world.uplinks ++ [{frame := frame}]}
  | .post index worker replied => do
    let uplink ← world.uplinks[index]?
    if uplink.sent then none
    else
      let (world,status) := handleLeafFrame setup world worker uplink.frame
      some {world with uplinks := world.uplinks.set index (uplink.posted status replied)}
  | .remoteShareShare =>
    match world.ipc with
    | [] => none
    | share::ipc => some {world with ipc := ipc, host := queueShare world.host share}
  | .remoteShareRejectWrites => some {world with workerRejecting := true}
  | .turn event => do
    -- shares reach the queue through frames only
    guard ¬event.Offers
    let host ← (shareRuntime Value setup.shareBatchSize).step world.host event
    let db ← commit setup (host.effects.drop world.host.effects.length) world.db
    some {world with host := host, db := db}

def ingress (setup : Setup Frame Record) (db : Db Record) : Machine (World Frame Record) (Event Frame) where
  initial world := world = {db := db}
  step := step setup

def storedAt (records : Multiset (ℕ × Record)) (height : ℕ) : Multiset Record :=
  (records.filter fun entry => entry.1 = height).map Prod.snd

theorem storedAt_cons (entry : ℕ × Record) (records : Multiset (ℕ × Record)) (height : ℕ) :
    storedAt (entry ::ₘ records) height =
      if entry.1 = height then entry.2 ::ₘ storedAt records height else storedAt records height := by
  unfold storedAt
  split
  next here => rw [filter_cons_of_pos (p := fun entry : ℕ × Record => entry.1 = height) _ here,map_cons]
  next other => rw [filter_cons_of_neg (p := fun entry : ℕ × Record => entry.1 = height) _ other]

section Walked

variable [LinearOrder Record]

def recordsAt (db : Db Record) (height : ℕ) : List Record := (storedAt db.shareDB height).sort

def walkedDB (decode : Record → Option BlockManager.Share) (db : Db Record) : BlockManager.ShareDB :=
  fun height => (recordsAt db height).map decode

end Walked

section Runs

variable {setup : Setup Frame Record} {db : Db Record} {world after next : World Frame Record} {s : State Value}

/-- The shares the host accepted from an uplink's posts. -/
def given (setup : Setup Frame Record) (uplink : Uplink Frame) : List Value :=
  (List.replicate uplink.taken (carried setup uplink.frame).toList).flatten

def taken (world : World Frame Record) : List Value := world.ipc ++ acceptedShares world.host.effects

structure Inv (setup : Setup Frame Record) (db : Db Record) (world : World Frame Record) : Prop where
  sound : Sound world.host
  sent : ∀ uplink ∈ world.uplinks, uplink.sent = true → 0 < uplink.taken
  kept : world.host.lmdbRejecting = false → (taken world).Perm (world.uplinks.flatMap (given setup))
  records : world.db.shareDB = db.shareDB +
    recordsOf setup.backend ((storedShares world.host.effects).filterMap isStorableShare)
  encodes : Encodes setup.backend ((storedShares world.host.effects).filterMap isStorableShare)

private theorem storeShares_records {shares : List Value} {stored : Bool} {after : Db Record}
    (ran : storeShares setup.backend setup.settings shares {} db = (.ok stored,after)) :
    after.shareDB = db.shareDB + recordsOf setup.backend (shares.filterMap isStorableShare) ∧
      Encodes setup.backend (shares.filterMap isStorableShare) := by
  by_cases some : shares = []
  · subst some
    obtain rfl : db = after := (Prod.mk.inj ran).2
    simp [recordsOf,Encodes]
  · by_cases storable : Storable setup.backend setup.settings (shares.filterMap isStorableShare) db
    · obtain ⟨other,ran',stored⟩ := storeShares_runs some storable
      obtain rfl := (Prod.mk.inj (ran.symm.trans ran')).2
      exact ⟨stored.records,storable.2⟩
    · obtain ⟨failure,failed⟩ := storeShares_fails some storable
      cases ran.symm.trans failed

theorem commit_records {effects : List (Effect Value)} {after : Db Record}
    (committed : commit setup effects db = some after) :
    after.shareDB = db.shareDB + recordsOf setup.backend ((storedShares effects).filterMap isStorableShare) ∧
      Encodes setup.backend ((storedShares effects).filterMap isStorableShare) := by
  induction effects generalizing db with
  | nil =>
    cases committed
    simp [recordsOf,Encodes]
  | cons effect effects ih =>
    cases effect with
    | stored batch =>
      simp only [commit] at committed
      split at committed
      next stored middle ran =>
        obtain ⟨records,encodes⟩ := storeShares_records ran
        obtain ⟨later,encodes'⟩ := ih committed
        simp only [storedShares_cons,List.filterMap_append]
        refine ⟨?_,encodes_append.mpr ⟨encodes,encodes'⟩⟩
        rw [later,records,recordsOf_append,← coe_add,add_assoc]
      · cases committed
    | accepted | failed | resolved | rejected => exact ih committed

theorem change_effects {offers : Prop} {t : State Value} (change : Change offers s t) :
    t.effects = s.effects ++ t.effects.drop s.effects.length := by
  have grown : ∃ news, t.effects = s.effects ++ news := by
    cases change with
    | settle news _ effects => exact ⟨news,effects⟩
    | accept _ share _ effects | store batch news _ effects | fail batch rest news _ _ _ effects => exact ⟨_,effects⟩
  obtain ⟨news,effects⟩ := grown
  rw [effects,List.drop_left]

theorem queueShare_sound (sound : Sound s) (share : Value) : Sound (queueShare s share) := by
  have moved : turn 1 s (.queueShare share) = some (queueShare s share) := rfl
  exact change_sound (turn_change moved) sound

theorem queueShare_cases (s : State Value) (share : Value) : s.lmdbRejecting = true ∧ queueShare s share = s ∨
      s.lmdbRejecting = false ∧ (queueShare s share).lmdbRejecting = false ∧
        (queueShare s share).effects = s.effects ++ [.accepted share] := by
  unfold queueShare
  by_cases rejecting : s.lmdbRejecting = true
  · exact .inl ⟨rejecting,by rw [if_pos rejecting]⟩
  · rw [if_neg rejecting]
    have accepting : s.lmdbRejecting = false := by simpa using rejecting
    exact .inr ⟨accepting,accepting,rfl⟩

theorem queued_stored (s : State Value) (share : Value) :
    storedShares (queueShare s share).effects = storedShares s.effects := by
  rcases queueShare_cases s share with ⟨_,same⟩ | ⟨_,_,effects⟩
  · rw [same]
  · rw [effects]
    simp [storedShares_append]

theorem queued_takes (share : Value) (accepting : (queueShare s share).lmdbRejecting = false) :
    s.lmdbRejecting = false ∧ acceptedShares (queueShare s share).effects = acceptedShares s.effects ++ [share] := by
  rcases queueShare_cases s share with ⟨rejecting,same⟩ | ⟨open_,_,effects⟩
  · rw [same,rejecting] at accepting
    cases accepting
  · rw [effects]
    exact ⟨open_,by simp [acceptedShares_append]⟩

theorem flatMap_set {A B : Type} {items : List A} {index : ℕ} {item other : A} {parts : A → List B} {more : List B}
    (found : items[index]? = some item) (grown : parts other = more ++ parts item) :
    ((items.set index other).flatMap parts).Perm (more ++ items.flatMap parts) := by
  induction items generalizing index with
  | nil => cases found
  | cons first items ih =>
    cases index with
    | zero =>
      cases found
      rw [List.set_cons_zero,List.flatMap_cons,List.flatMap_cons,grown,List.append_assoc]
    | succ index =>
      rw [List.set_cons_succ,List.flatMap_cons,List.flatMap_cons]
      calc
        List.Perm _ (parts first ++ (more ++ items.flatMap parts)) := (ih found).append_left _
        List.Perm _ _ := List.perm_append_comm_assoc ..

private theorem given_posted {uplink : Uplink Frame} {share : Value} (carries : carried setup uplink.frame = some share)
    (replied : Bool) : given setup (uplink.posted .ok replied) = [share] ++ given setup uplink := by
  unfold given Uplink.posted
  rw [if_pos rfl,List.replicate_succ,List.flatten_cons]
  simp [carries]

theorem Inv.send (inv : Inv setup db world) (frame : Frame) :
    Inv setup db {world with uplinks := world.uplinks ++ [{frame := frame}]} := by
  refine ⟨inv.sound,?_,?_,inv.records,inv.encodes⟩
  · intro uplink member sent
    rcases List.mem_append.mp member with old | new
    · exact inv.sent uplink old sent
    · rw [List.mem_singleton.mp new] at sent
      cases sent
  · intro accepting
    have nothing : given setup (Uplink.mk frame false 0) = [] := rfl
    rw [List.flatMap_append,List.flatMap_singleton,nothing,List.append_nil]
    exact inv.kept accepting

/-- An accepted post puts its share into a worker's channel or the queue of the primary. -/
theorem Inv.accept (inv : Inv setup db world) {index : ℕ} {uplink : Uplink Frame}
    (found : world.uplinks[index]? = some uplink)
    {share : Value} (carries : carried setup uplink.frame = some share) (replied : Bool)
    (uplinks : next.uplinks = world.uplinks.set index (uplink.posted .ok replied)) (sound : Sound next.host)
    (takes : next.host.lmdbRejecting = false →
      world.host.lmdbRejecting = false ∧ (taken next).Perm ([share] ++ taken world))
    (stored : storedShares next.host.effects = storedShares world.host.effects) (same : next.db = world.db) :
    Inv setup db next := by
  refine ⟨sound,?_,?_,?_,?_⟩
  · intro other member sent
    rw [uplinks] at member
    rcases List.mem_or_eq_of_mem_set member with old | rfl
    · exact inv.sent other old sent
    · exact Nat.succ_pos _
  · intro accepting
    obtain ⟨before,added⟩ := takes accepting
    rw [uplinks]
    exact added.trans (((inv.kept before).append_left [share]).trans
      (flatMap_set found (given_posted carries replied)).symm)
  · rw [same,stored]
    exact inv.records
  · rw [stored]
    exact inv.encodes

theorem Inv.post (inv : Inv setup db world) {index : ℕ} {worker replied : Bool}
    (moved : step setup world (.post index worker replied) = some next) : Inv setup db next := by
  simp only [step] at moved
  obtain ⟨uplink,found,moved⟩ := bind_eq_some_iff.mp moved
  split at moved
  · cases moved
  rcases handleLeafFrame_cases setup world worker uplink.frame with ⟨status,answer,refused⟩ | ⟨share,carries,taken⟩
  · rw [answer] at moved
    cases moved
    have same : world.uplinks.set index (uplink.posted status replied) = world.uplinks := by
      obtain ⟨bound,here⟩ := List.getElem?_eq_some_iff.mp found
      rw [Uplink.posted,if_neg refused,← here,List.set_getElem_self]
    rw [same]
    exact inv
  · rcases taken with answer | ⟨accepting,answer⟩
    · rw [answer] at moved
      cases moved
      refine inv.accept found carries replied rfl inv.sound (fun accepting => ⟨accepting,?_⟩) rfl rfl
      simp only [Delivery.taken,List.append_assoc]
      exact List.perm_append_comm_assoc ..
    · rw [answer] at moved
      cases moved
      refine inv.accept found carries replied rfl (queueShare_sound inv.sound share) (fun open_ => ⟨accepting,?_⟩)
        (queued_stored ..) rfl
      rw [Delivery.taken,(queued_takes share open_).2,← List.append_assoc]
      exact List.perm_append_comm

theorem Inv.arrive (inv : Inv setup db world) {share : Value} {ipc : List Value} (messages : world.ipc = share::ipc) :
    Inv setup db {world with ipc := ipc, host := queueShare world.host share} := by
  refine ⟨queueShare_sound inv.sound share,inv.sent,?_,?_,?_⟩
  · intro open_
    obtain ⟨accepting,takes⟩ := queued_takes share open_
    have kept := inv.kept accepting
    rw [taken,messages] at kept
    rw [taken,takes,← List.append_assoc]
    exact List.perm_append_comm.trans kept
  · rw [queued_stored]
    exact inv.records
  · rw [queued_stored]
    exact inv.encodes

theorem Inv.turn (inv : Inv setup db world) {event : Turn Value} (moved : step setup world (.turn event) = some next) :
    Inv setup db next := by
  simp only [step] at moved
  obtain ⟨_,inside,moved⟩ := bind_eq_some_iff.mp moved
  obtain ⟨host,turned,moved⟩ := bind_eq_some_iff.mp moved
  obtain ⟨stored,committed,same⟩ := bind_eq_some_iff.mp moved
  cases same
  have inside : ¬event.Offers := by simpa [guard] using inside
  have change := turn_change turned
  obtain ⟨records,encodes⟩ := commit_records committed
  refine ⟨change_sound change inv.sound,inv.sent,?_,?_,?_⟩
  · intro open_
    have accepting : world.host.lmdbRejecting = false := by
      by_contra rejecting
      have still := turn_rejecting turned (by simpa using rejecting)
      rw [show host.lmdbRejecting = false from open_] at still
      cases still
    rw [taken,change.accepts inside]
    exact inv.kept accepting
  · rw [records,inv.records,change_effects change,storedShares_append,List.filterMap_append,recordsOf_append,
      ← coe_add,add_assoc,List.drop_left]
  · rw [change_effects change,storedShares_append,List.filterMap_append]
    exact encodes_append.mpr ⟨inv.encodes,encodes⟩

theorem step_inv {event : Event Frame} (inv : Inv setup db world) (moved : step setup world event = some after) :
    Inv setup db after := by
  cases event with
  | send frame =>
    cases moved
    exact inv.send frame
  | post => exact inv.post moved
  | remoteShareShare =>
    simp only [step] at moved
    split at moved
    · cases moved
    next share ipc messages =>
      cases moved
      exact inv.arrive messages
  | remoteShareRejectWrites =>
    cases moved
    exact ⟨inv.sound,inv.sent,inv.kept,inv.records,inv.encodes⟩
  | turn => exact inv.turn moved

theorem reachable_inv (reachable : (ingress setup db).Reachable world) : Inv setup db world := by
  refine reachable.invariant (Inv setup db) ?_ fun _ _ _ inv _ moved => step_inv inv moved
  rintro world rfl
  refine ⟨⟨rfl,by simp⟩,?_,fun _ => .nil,?_,?_⟩
  · intro uplink member
    cases member
  · simp [recordsOf]
  · simp [Encodes]

end Runs

section Payouts

variable {decode : Record → Option BlockManager.Share}

/-- An entry a walk pays for. -/
def Payable (decode : Record → Option BlockManager.Share) (entry : ℕ × Record) : Prop :=
  0 < entry.1 ∧ ((decode entry.2).bind BlockManager.Share.weight).isSome

def weightBelow (decode : Record → Option BlockManager.Share) (height : ℕ) (entry : ℕ × Record) : ℚ :=
  if 0 < entry.1 ∧ entry.1 ≤ height then recordWeight (decode entry.2) else 0

theorem weightBelow_nonneg (decode : Record → Option BlockManager.Share) (height : ℕ) (entry : ℕ × Record) :
    0 ≤ weightBelow decode height entry := by
  unfold weightBelow
  split
  · exact recordWeight_nonneg _
  · exact le_rfl

theorem weightBelow_pos {entry : ℕ × Record} (payable : Payable decode entry) :
    0 < weightBelow decode entry.1 entry := by
  obtain ⟨weight,weighs⟩ := Option.isSome_iff_exists.mp payable.2
  obtain ⟨share,_,heavy⟩ := bind_eq_some_iff.mp weighs
  rw [weightBelow,if_pos ⟨payable.1,le_rfl⟩,recordWeight,weighs]
  exact BlockManager.weight_pos heavy

variable [LinearOrder Record] {config : Config} {window : ℚ}
  {left right : BlockManager.ShareDB} {record : Option BlockManager.Share} {db : Db Record}

theorem visit_twice [Arithmetic] (weightless : record.bind BlockManager.Share.weight = none) (s : BlockManager.State) :
    ∃ t, visitShare config window s record = .ok t ∧ visitShare config window t record = .ok t := by
  cases record with
  | none => exact ⟨s,rfl,rfl⟩
  | some share =>
    unfold visitShare
    dsimp only
    by_cases pplns : share.poolType = .PPLNS
    · simp only [pplns,ne_eq,not_true_eq_false,if_false]
      have again (data : PaymentData) : BlockManager.ensurePplnsPaymentRow
        (BlockManager.ensurePplnsPaymentRow data share) share =
          BlockManager.ensurePplnsPaymentRow data share := if_pos (BlockManager.ensure_member ..)
      have filtered : share.shares2.filter (0 < ·) = none := by simpa [BlockManager.Share.weight,pplns] using weightless
      cases amount : share.shares2 with
      | none => exact ⟨_,rfl,by rw [again]⟩
      | some work =>
        have small : work ≤ 0 := by simpa [amount,Option.filter] using filtered
        simp only [small,if_true]
        exact ⟨_,rfl,by rw [again]⟩
    · exact ⟨s,if_pos pplns,if_pos pplns⟩

private theorem walk_twice [Arithmetic] (weightless : record.bind BlockManager.Share.weight = none)
    (earlier later : List (Option BlockManager.Share)) (s : BlockManager.State) :
    (earlier ++ record::record::later).foldlM (visitShare config window) s =
      (earlier ++ record::later).foldlM (visitShare config window) s := by
  rw [List.foldlM_append,List.foldlM_append]
  congr 1
  funext t
  obtain ⟨next,first,second⟩ := visit_twice weightless t
  rw [List.foldlM_cons,List.foldlM_cons,first]
  change (visitShare config window next record >>= _) = _
  rw [second]

private theorem sort_again {records : Multiset Record} {record : Record} (member : record ∈ records) :
    ∃ earlier later, records.sort = earlier ++ record::later ∧
      (record ::ₘ records).sort = earlier ++ record::record::later := by
  obtain ⟨earlier,later,split⟩ := List.append_of_mem (mem_sort (· ≤ ·) |>.mpr member)
  refine ⟨earlier,later,split,?_⟩
  have sorted := records.pairwise_sort (· ≤ ·)
  have whole : (↑(earlier ++ record::later) : Multiset Record) = records := split ▸ sort_eq records (· ≤ ·)
  refine List.Perm.eq_of_pairwise (fun _ _ _ _ => le_antisymm) (pairwise_sort (record ::ₘ records) (· ≤ ·)) ?_ ?_
  · rw [split] at sorted
    simp only [List.pairwise_append,List.pairwise_cons,List.mem_cons] at sorted ⊢
    grind
  · rw [← coe_eq_coe,sort_eq,← whole,cons_coe,coe_eq_coe]
    exact List.perm_middle.symm

theorem walk_extra [Arithmetic] {records extra : Multiset (ℕ × Record)}
    (unpaid : ∀ entry ∈ extra, entry ∈ records ∧ ¬Payable decode entry) (height : ℕ) (s : BlockManager.State) :
    ((recordsAt ⟨records + extra,db.cacheDB⟩ (height + 1)).map decode).foldlM (visitShare config window) s =
      ((recordsAt ⟨records,db.cacheDB⟩ (height + 1)).map decode).foldlM (visitShare config window) s := by
  induction extra using induction_on with
  | empty => rw [add_zero]
  | cons entry extra ih =>
    rw [← ih fun other member => unpaid other (mem_cons_of_mem member),add_cons]
    obtain ⟨inside,free⟩ := unpaid entry (mem_cons_self _ _)
    unfold recordsAt
    dsimp only
    by_cases here : entry.1 = height + 1
    · have weightless : (decode entry.2).bind BlockManager.Share.weight = none := by
        by_contra pays
        exact free ⟨by omega,Option.isSome_iff_ne_none.mpr pays⟩
      have member : entry.2 ∈ storedAt (records + extra) (height + 1) :=
        mem_map_of_mem _ (mem_filter.mpr ⟨mem_add.mpr (.inl inside),here⟩)
      rw [storedAt_cons,if_pos here]
      obtain ⟨earlier,later,sorted,again⟩ := sort_again member
      rw [again,sorted]
      simp only [List.map_append,List.map_cons]
      exact walk_twice weightless _ _ s
    · rw [storedAt_cons,if_neg here]

theorem collect_congr [Arithmetic] (same : ∀ height s, (left (height + 1)).foldlM (visitShare config window) s =
    (right (height + 1)).foldlM (visitShare config window) s) (height : ℕ) (s : BlockManager.State) :
    collectPplnsSharePayments config window left height s = collectPplnsSharePayments config window right height s := by
  induction height generalizing s with
  | zero => rfl
  | succ height ih => simp only [collectPplnsSharePayments,same,ih]

theorem preCalculate_congr [Arithmetic] {blockDifficulty : ℚ} (same : ∀ window height s,
    collectPplnsSharePayments config window left height s = collectPplnsSharePayments config window right height s)
    (blockHeight : ℕ) (topBlockHeights : List (Option ℕ)) :
    preCalculatePPLNSPayments config blockDifficulty left blockHeight (topBlockHeights.map fun top => (top,left)) =
      preCalculatePPLNSPayments config blockDifficulty right blockHeight (topBlockHeights.map fun top =>
        (top,right)) := by
  induction topBlockHeights generalizing blockHeight with
  | nil =>
    unfold preCalculatePPLNSPayments
    simp only [same,List.map_nil]
  | cons top tops ih =>
    unfold preCalculatePPLNSPayments
    simp only [same,List.map_cons]
    cases top with
    | none => rfl
    | some top => simp only [ih]

private theorem heightShares_records (db : Db Record) (height : ℕ) : heightShares ((recordsAt db height).map decode) =
    (db.shareDB.map fun entry => if entry.1 = height then recordWeight (decode entry.2) else 0).sum := by
  have listed : heightShares ((recordsAt db height).map decode) =
      ((storedAt db.shareDB height).map fun record => recordWeight (decode record)).sum := by
    rw [← sort_eq (storedAt db.shareDB height) (· ≤ ·),map_coe,sum_coe,heightShares,List.map_map]
    rfl
  rw [listed]
  induction db.shareDB using induction_on with
  | empty => rfl
  | cons entry records ih =>
    rw [storedAt_cons]
    by_cases here : entry.1 = height <;> simp [here,ih]

private theorem walkedShares_records (db : Db Record) (height : ℕ) :
    walkedShares (walkedDB decode db) height = (db.shareDB.map (weightBelow decode height)).sum := by
  induction height with
  | zero =>
    symm
    apply sum_eq_zero
    intro weight member
    obtain ⟨entry,_,rfl⟩ := mem_map.mp member
    exact if_neg (by omega)
  | succ height ih =>
    rw [walkedShares,ih,walkedDB,heightShares_records,← sum_map_add]
    congr 1
    apply map_congr rfl
    intro entry _
    unfold weightBelow
    by_cases here : entry.1 = height + 1
    · rw [if_pos here,if_neg (by omega),if_pos (by omega),add_zero]
    · rw [if_neg here,zero_add]
      exact if_congr (by omega) rfl rfl

private theorem extra_weighs {records extra : Multiset (ℕ × Record)} {entry : ℕ × Record} (member : entry ∈ extra)
    (payable : Payable decode entry) : walkedShares (walkedDB decode ⟨records,db.cacheDB⟩) entry.1 <
      walkedShares (walkedDB decode ⟨records + extra,db.cacheDB⟩) entry.1 := by
  rw [walkedShares_records,walkedShares_records,map_add,sum_add]
  apply lt_add_of_pos_right
  obtain ⟨rest,rfl⟩ := exists_cons_of_mem member
  rw [map_cons,sum_cons]
  refine add_pos_of_pos_of_nonneg (weightBelow_pos payable) (sum_nonneg fun weight inside => ?_)
  obtain ⟨other,_,rfl⟩ := mem_map.mp inside
  exact weightBelow_nonneg decode _ other

/-- A payable entry that is stored besides shows in the payments of a window wide enough. -/
theorem payable_shows (config : Config) {records extra : Multiset (ℕ × Record)} {entry : ℕ × Record}
    (member : entry ∈ extra)
    (payable : Payable decode entry) : ∃ blockDifficulty : ℚ, 0 < blockDifficulty ∧ ∃ blockHeight,
      preCalculatePPLNSPayments config blockDifficulty (walkedDB decode ⟨records + extra,db.cacheDB⟩) blockHeight [] ≠
        preCalculatePPLNSPayments config blockDifficulty (walkedDB decode ⟨records,db.cacheDB⟩) blockHeight [] := by
  have more : walkedShares (walkedDB decode ⟨records,db.cacheDB⟩) entry.1 < _ := extra_weighs member payable
  have less : 0 ≤ walkedShares (walkedDB decode ⟨records,db.cacheDB⟩) entry.1 := BlockManager.walkedShares_nonneg _ _
  have positive := less.trans_lt more
  have wide := div_pos positive config.shareMulti_pos
  refine ⟨_,wide,entry.1,fun same => ?_⟩
  obtain ⟨payout,paid,anchor,walked⟩ := BlockManager.preCalculate_anchor config wide
    (walkedDB decode ⟨records + extra,db.cacheDB⟩) entry.1 [] positive
  obtain ⟨result,ended,stored⟩ := BlockManager.preCalculate_walked config wide
    (walkedDB decode ⟨records,db.cacheDB⟩) entry.1 []
  rw [← same,paid] at ended
  obtain ⟨source,listed,walked'⟩ := stored payout (Except.ok.inj ended).symm
  obtain rfl := List.mem_singleton.mp listed
  have total := walked.balanced.total.symm.trans walked'.balanced.total
  rw [anchor,div_mul_cancel₀ _ config.shareMulti_pos.ne',min_self,min_eq_right more.le] at total
  exact more.ne' total

end Payouts

section Completed

variable {setup : Setup Frame Record} {db : Db Record} {world once after : World Frame Record}

def frames (world : World Frame Record) : List Frame := world.uplinks.map Uplink.frame

def frameRecords (setup : Setup Frame Record) (frame : Frame) : List (ℕ × Record) :=
  recordsOf setup.backend ((carried setup frame).toList.filterMap isStorableShare)

def uplinkRecords (setup : Setup Frame Record) (uplink : Uplink Frame) : List (ℕ × Record) :=
  (List.replicate uplink.taken (frameRecords setup uplink.frame)).flatten

structure Completed (world : World Frame Record) : Prop where
  accepting : world.host.lmdbRejecting = false
  sent : ∀ uplink ∈ world.uplinks, uplink.sent = true
  arrived : world.ipc = []
  drained : world.host.shareQueue = []

private theorem given_records (setup : Setup Frame Record) (uplink : Uplink Frame) :
    recordsOf setup.backend ((given setup uplink).filterMap isStorableShare) = uplinkRecords setup uplink := by
  unfold given uplinkRecords frameRecords
  induction uplink.taken with
  | zero => rfl
  | succ taken ih =>
    rw [List.replicate_succ,List.flatten_cons,List.filterMap_append,recordsOf_append,ih,List.replicate_succ,
      List.flatten_cons]

private theorem givens_records (setup : Setup Frame Record) (uplinks : List (Uplink Frame)) :
    recordsOf setup.backend ((uplinks.flatMap (given setup)).filterMap isStorableShare) =
      uplinks.flatMap (uplinkRecords setup) := by
  induction uplinks with
  | nil => rfl
  | cons uplink uplinks ih =>
    rw [List.flatMap_cons,List.filterMap_append,recordsOf_append,ih,given_records,List.flatMap_cons]

theorem Completed.stored (completed : Completed world) (inv : Inv setup db world) :
    (storedShares world.host.effects).Perm (world.uplinks.flatMap (given setup)) := by
  have kept := inv.sound.kept
  rw [completed.drained,List.append_nil] at kept
  rw [kept]
  have takes := inv.kept completed.accepting
  rwa [taken,completed.arrived,List.nil_append] at takes

theorem Completed.records (completed : Completed world) (inv : Inv setup db world) :
    world.db.shareDB = db.shareDB + (world.uplinks.flatMap (uplinkRecords setup) : List (ℕ × Record)) := by
  rw [inv.records,← givens_records]
  congr 1
  exact coe_eq_coe.mpr (((completed.stored inv).filterMap _).filterMap _)

theorem Completed.encoded (completed : Completed world) (inv : Inv setup db world) {uplink : Uplink Frame}
    (member : uplink ∈ world.uplinks) {value : Value} (carries : carried setup uplink.frame = some value)
    {share : Share}
    (storable : isStorableShare value = some share) : ∃ record, setup.backend.encode share = some record := by
  have taken : 0 < uplink.taken := inv.sent uplink member (completed.sent uplink member)
  have inside : value ∈ given setup uplink := by
    unfold given
    rw [carries]
    exact List.mem_flatten.mpr ⟨[value],List.mem_replicate.mpr ⟨taken.ne',rfl⟩,List.mem_singleton_self _⟩
  have stored : value ∈ storedShares world.host.effects :=
    (completed.stored inv).mem_iff.mpr (List.mem_flatMap.mpr ⟨uplink,member,inside⟩)
  obtain ⟨record,encoded,_⟩ := inv.encodes share (List.mem_filterMap.mpr ⟨value,stored,storable⟩)
  exact ⟨record,encoded⟩

/-- What the posts accepted besides the first left behind. -/
def repeated (setup : Setup Frame Record) (uplink : Uplink Frame) : List (ℕ × Record) :=
  (List.replicate (uplink.taken - 1) (frameRecords setup uplink.frame)).flatten

theorem uplinkRecords_split {uplinks : List (Uplink Frame)} (taken : ∀ uplink ∈ uplinks, 0 < uplink.taken) :
    (uplinks.flatMap (uplinkRecords setup) : Multiset (ℕ × Record)) =
      ((uplinks.map Uplink.frame).flatMap (frameRecords setup) : List (ℕ × Record)) +
        (uplinks.flatMap (repeated setup) :
        List (ℕ × Record)) := by
  induction uplinks with
  | nil => rfl
  | cons uplink uplinks ih =>
    obtain ⟨first,rest⟩ := List.forall_mem_cons.mp taken
    have own : uplinkRecords setup uplink = frameRecords setup uplink.frame ++ repeated setup uplink := by
      unfold uplinkRecords repeated
      rw [show uplink.taken = (uplink.taken - 1) + 1 by omega,List.replicate_succ,List.flatten_cons,Nat.add_sub_cancel]
    rw [List.flatMap_cons,← coe_add,ih rest,own,List.map_cons,List.flatMap_cons,List.flatMap_cons,← coe_add,
      ← coe_add,← coe_add]
    abel

theorem singles_records {uplinks : List (Uplink Frame)} (single : ∀ uplink ∈ uplinks, uplink.taken = 1) :
    uplinks.flatMap (uplinkRecords setup) = (uplinks.map Uplink.frame).flatMap (frameRecords setup) := by
  rw [List.flatMap_map]
  apply List.flatMap_congr
  intro uplink member
  rw [uplinkRecords,single uplink member]
  simp

theorem mem_repeated {uplink : Uplink Frame} {entry : ℕ × Record} : entry ∈ repeated setup uplink ↔
    1 < uplink.taken ∧ entry ∈ frameRecords setup uplink.frame := by
  unfold repeated
  rw [List.mem_flatten]
  constructor
  · rintro ⟨records,copied,inside⟩
    obtain ⟨some,rfl⟩ := List.mem_replicate.mp copied
    exact ⟨by omega,inside⟩
  · rintro ⟨again,inside⟩
    exact ⟨_,List.mem_replicate.mpr ⟨by omega,rfl⟩,inside⟩

section

variable [LinearOrder Record] (decode : Record → Option BlockManager.Share) (inv : Inv setup db world)
  (inv' : Inv setup db once) (completed : Completed world) (completed' : Completed once)
  (same : (frames world).Perm (frames once)) (single : ∀ uplink ∈ once.uplinks, uplink.taken = 1)
include inv inv' completed completed' same single

theorem walkedDB_again : walkedDB decode world.db =
    walkedDB decode ⟨once.db.shareDB + (world.uplinks.flatMap (repeated setup) : List (ℕ × Record)),
      once.db.cacheDB⟩ := by
  have taken (uplink : Uplink Frame) (member : uplink ∈ world.uplinks) : 0 < uplink.taken :=
    inv.sent uplink member (completed.sent uplink member)
  have delivered : ((frames world).flatMap (frameRecords setup) : Multiset (ℕ × Record)) =
      ((frames once).flatMap (frameRecords setup) : List (ℕ × Record)) := coe_eq_coe.mpr (same.flatMap_right _)
  have more : world.db.shareDB = once.db.shareDB + (world.uplinks.flatMap (repeated setup) : List (ℕ × Record)) := by
    rw [completed.records inv,completed'.records inv',singles_records single,uplinkRecords_split taken,← add_assoc]
    exact congrArg (db.shareDB + · + _) delivered
  unfold walkedDB recordsAt
  rw [more]

private theorem pays_once (free : ∀ uplink ∈ world.uplinks,
    (∃ entry ∈ frameRecords setup uplink.frame, Payable decode entry) → uplink.taken = 1)
    [Arithmetic] (config : Config) (blockDifficulty : ℚ) (blockHeight : ℕ) (topBlockHeights : List (Option ℕ)) :
    preCalculatePPLNSPayments config blockDifficulty (walkedDB decode world.db) blockHeight
        (topBlockHeights.map fun topBlockHeight => (topBlockHeight,walkedDB decode world.db)) =
      preCalculatePPLNSPayments config blockDifficulty (walkedDB decode once.db) blockHeight
        (topBlockHeights.map fun topBlockHeight => (topBlockHeight,walkedDB decode once.db)) := by
  have unpaid : ∀ entry ∈ (world.uplinks.flatMap (repeated setup) : Multiset (ℕ × Record)),
      entry ∈ once.db.shareDB ∧ ¬Payable decode entry := by
    intro entry member
    obtain ⟨uplink,inside,copied⟩ := List.mem_flatMap.mp (mem_coe.mp member)
    obtain ⟨again,own⟩ := mem_repeated.mp copied
    constructor
    · rw [completed'.records inv',singles_records single]
      have listed : uplink.frame ∈ frames once := same.mem_iff.mp (List.mem_map_of_mem inside)
      exact mem_add.mpr (.inr (mem_coe.mpr (List.mem_flatMap.mpr ⟨uplink.frame,listed,own⟩)))
    · intro payable
      have one := free uplink inside ⟨entry,own,payable⟩
      omega
  rw [walkedDB_again decode inv inv' completed completed' same single]
  apply preCalculate_congr
  intro window
  exact collect_congr (walk_extra unpaid)

theorem again_pays (config : Config) {uplink : Uplink Frame} (member : uplink ∈ world.uplinks)
    (again : 1 < uplink.taken)
    {entry : ℕ × Record} (own : entry ∈ frameRecords setup uplink.frame) (payable : Payable decode entry) :
    ∃ blockDifficulty : ℚ, 0 < blockDifficulty ∧ ∃ blockHeight,
      preCalculatePPLNSPayments config blockDifficulty (walkedDB decode world.db) blockHeight [] ≠
        preCalculatePPLNSPayments config blockDifficulty (walkedDB decode once.db) blockHeight [] := by
  have copied : entry ∈ (world.uplinks.flatMap (repeated setup) : Multiset (ℕ × Record)) :=
    mem_coe.mpr (List.mem_flatMap.mpr ⟨uplink,member,mem_repeated.mpr ⟨again,own⟩⟩)
  rw [walkedDB_again decode inv inv' completed completed' same single]
  exact payable_shows config copied payable

end

def Event.sent : Event Frame → List Frame
  | .send frame => [frame]
  | _ => []

private theorem step_frames {event : Event Frame} (moved : step setup world event = some after) :
    frames after = frames world ++ event.sent := by
  unfold frames
  cases event with
  | send frame =>
    cases moved
    simp [Event.sent]
  | post index worker replied =>
    simp only [step] at moved
    obtain ⟨uplink,found,moved⟩ := bind_eq_some_iff.mp moved
    split at moved
    · cases moved
    cases moved
    obtain ⟨bound,here⟩ := List.getElem?_eq_some_iff.mp found
    have kept : (handleLeafFrame setup world worker uplink.frame).1.uplinks = world.uplinks := by
      rcases handleLeafFrame_cases setup world worker uplink.frame with ⟨_,answer,_⟩ | ⟨_,_,answer | ⟨_,answer⟩⟩ <;>
        rw [answer]
    have own (status : Status) : (uplink.posted status replied).frame = uplink.frame := by
      unfold Uplink.posted
      split <;> rfl
    have within : index < (world.uplinks.map Uplink.frame).length := by simpa using bound
    have same : (world.uplinks.map Uplink.frame)[index] = uplink.frame := by simp [here]
    simp only [kept,List.map_set,own,Event.sent,List.append_nil]
    rw [← same,List.set_getElem_self]
  | remoteShareShare =>
    simp only [step] at moved
    split at moved
    · cases moved
    · cases moved
      simp [Event.sent]
  | remoteShareRejectWrites =>
    cases moved
    simp [Event.sent]
  | turn event =>
    simp only [step] at moved
    obtain ⟨_,_,moved⟩ := bind_eq_some_iff.mp moved
    obtain ⟨host,_,moved⟩ := bind_eq_some_iff.mp moved
    obtain ⟨stored,_,same⟩ := bind_eq_some_iff.mp moved
    cases same
    simp [Event.sent]

theorem run_frames {events : List (Event Frame)} (ran : (ingress setup db).run world events = some after) :
    frames after = frames world ++ events.flatMap Event.sent := by
  induction events generalizing world with
  | nil =>
    cases ran
    simp
  | cons event events ih =>
    obtain ⟨next,moved,rest⟩ := bind_eq_some_iff.mp ran
    rw [ih rest,step_frames moved,List.flatMap_cons,List.append_assoc]

end Completed

section Samples

abbrev SampleFrame := String × Value

def sampleWire : Wire SampleFrame where
  WSData frame := some (frame.1,("",frame.2))
  decodeShare frame := some frame.2

def wireBackend : Backend (List Wire.Byte) :=
    ⟨PoisonShares.encodeShare Common.WorkCodec.tagged,fun _ => true,fun _ => true⟩

def sampleSetup : Setup SampleFrame (List Wire.Byte) := ⟨sampleWire,"key",wireBackend,plainSettings,none⟩

theorem filtered_nonneg {value : Value} : ∀ work ∈ value.readFinite.filter (0 ≤ ·), 0 ≤ work := by
  intro work member
  exact of_decide_eq_true (Option.filter_eq_some_iff.mp member).2

def readShare (record : List Wire.Byte) : Option BlockManager.Share :=
  match (Common.WorkCodec.adaptWorkCodecs Common.WorkCodec.tagged .Share).decode (some record) 0 none with
  | .error _ => none
  | .ok decoded => do
    let paymentAddress ← (decoded.data "paymentAddress").readString
    let poolType ← (decoded.data "poolType").readInteger.bind readPoolType
    let timestamp ← (decoded.data "timestamp").readInteger
    some ⟨paymentAddress,(decoded.data "paymentID").readString,poolType,timestamp,(decoded.data "port").readInteger,
      (decoded.data "shares2").readFinite.filter (0 ≤ ·),filtered_nonneg⟩

private theorem sampleFee_nonneg : (0 : ℚ) ≤ 1 := by decide

def sampleConfig : Config :=
  ⟨"fee","coin","pool",1,0,0,2,60,sampleFee_nonneg,by decide,by decide,by decide,by norm_num,by decide,by decide⟩

def emptyStore : Db (List Wire.Byte) := ⟨0,fun _ => none⟩

def sampleEvents (posts : List (Event SampleFrame)) : List (Event SampleFrame) :=
  [.send ("key",sampleShare "A")] ++ posts ++ [.turn (.shareTimer true)]

def sampleRun (posts : List (Event SampleFrame)) : Option (World SampleFrame (List Wire.Byte)) :=
  (ingress sampleSetup emptyStore).run {db := emptyStore} (sampleEvents posts)

structure Delivered (count : ℕ) (world : World SampleFrame (List Wire.Byte)) : Prop where
  reachable : (ingress sampleSetup emptyStore).Reachable world
  completed : Completed world
  frames : frames world = [("key",sampleShare "A")]
  taken : world.uplinks.map Uplink.taken = [count]

theorem sampleRun_delivered {posts : List (Event SampleFrame)} {count : ℕ}
    (posting : (sampleEvents posts).flatMap Event.sent = [("key",sampleShare "A")])
    (ends : (sampleRun posts).map (fun world =>
      (world.host.lmdbRejecting,world.uplinks.all Uplink.sent,world.ipc.length,
      world.host.shareQueue.length,world.uplinks.map Uplink.taken)) = some (false,true,0,0,[count])) :
    ∃ world, Delivered count world := by
  obtain ⟨world,ran,ends⟩ := Option.map_eq_some_iff.mp ends
  simp only [Prod.mk.injEq,List.length_eq_zero_iff,List.all_eq_true] at ends
  obtain ⟨accepting,sent,arrived,drained,taken⟩ := ends
  refine ⟨world,Machine.reachable_run rfl ran,⟨accepting,sent,arrived,drained⟩,?_,taken⟩
  rw [run_frames ran,posting]
  rfl

private theorem postedTwice : ∃ world, Delivered 2 world :=
  @sampleRun_delivered [.post 0 true false,.post 0 true true,.remoteShareShare,.remoteShareShare] 2 rfl
    (by decide +kernel)

theorem postedOnce : ∃ world, Delivered 1 world :=
  @sampleRun_delivered [.post 0 true true,.remoteShareShare] 1 rfl (by decide +kernel)

theorem postedDirectly : ∃ world, Delivered 1 world :=
  @sampleRun_delivered [.post 0 false true] 1 rfl (by decide +kernel)

theorem samplePayable : ∃ entry ∈ frameRecords sampleSetup ("key",sampleShare "A"), Payable readShare entry := by
  have paid : (frameRecords sampleSetup ("key",sampleShare "A")).any (fun entry =>
      decide (0 < entry.1) && ((readShare entry.2).bind BlockManager.Share.weight).isSome) = true := by decide +kernel
  obtain ⟨entry,member,pays⟩ := List.any_eq_true.mp paid
  rw [Bool.and_eq_true,decide_eq_true_eq] at pays
  exact ⟨entry,member,pays⟩

theorem Delivered.single {count : ℕ} {world : World SampleFrame (List Wire.Byte)} (delivered : Delivered count world)
    {uplink : Uplink SampleFrame} (member : uplink ∈ world.uplinks) : uplink.taken = count := by
  have inside : uplink.taken ∈ world.uplinks.map Uplink.taken := List.mem_map_of_mem member
  rw [delivered.taken] at inside
  exact List.mem_singleton.mp inside

end Samples

end NodejsPool.RemoteShare.Delivery
