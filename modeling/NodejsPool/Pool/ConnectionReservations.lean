import Mathlib.Data.List.Nodup
import NodejsPool.Pool.Connections

/-! Every reservation is counted once while it is live and released once, and the reservations that
wait for a TLS socket are those of the open handshakes. -/
namespace NodejsPool.Pool.Connections
open Async Counters Function Option

section Counts

variable {config : SecurityConfig} {s : State}

def Connection.holds (view : Reservation → String) (key : String) (connection : Connection) : Bool :=
  connection.reservation.any fun reservation => reservation.active && view reservation = key

def State.live (view : Reservation → String) (s : State) (key : String) : ℕ :=
  if key = "" then 0 else s.connections.countP (Connection.holds view key)

structure Counted (config : SecurityConfig) (s : State) : Prop where
  byIp : Tallies s.activeConnectionsByIP (s.live Reservation.normalizedIp)
  bySubnet : Tallies s.activeConnectionsBySubnet (s.live Reservation.subnet)
  ipLimit : ∀ ip, s.live Reservation.normalizedIp ip ≤ config.maxConnectionsPerIP
  subnetLimit : ∀ subnet, s.live Reservation.subnet subnet ≤ config.maxConnectionsPerSubnet

def raised (live : String → ℕ) (key : String) : String → ℕ :=
  if key = "" then live else Function.update live key (live key + 1)

def dropped (live : String → ℕ) (key : String) : String → ℕ :=
  if key = "" then live else Function.update live key (live key - 1)

variable {target : String → Option ℕ} {live : String → ℕ}
  {key : String} {before after : Connection} {reservation : Reservation} {address : Address}
    {tlsSocket : Option TlsSocket}

theorem incrementConnectionCount_tallies (tallies : Tallies target live) (key : String) :
    Tallies (incrementConnectionCount target key).2 (raised live key) := by
  unfold incrementConnectionCount raised
  split
  · exact tallies
  · exact tallies.increment key

theorem decrementConnectionCount_tallies (tallies : Tallies target live) (key : String) :
    Tallies (decrementConnectionCount target key) (dropped live key) := by
  unfold decrementConnectionCount dropped
  split
  · exact tallies
  · exact tallies.decrement key

theorem decrementConnectionCount_undo (tallies : Tallies target live) (key : String) :
    decrementConnectionCount (incrementConnectionCount target key).2 key = target := by
  unfold decrementConnectionCount incrementConnectionCount
  split
  · rfl
  · exact tallies.undo key

theorem raised_limit {limit : ℕ} (tallies : Tallies target live) (below : ∀ other, live other ≤ limit)
    (within : ¬limit < (incrementConnectionCount target key).1) (other : String) : raised live key other ≤ limit := by
  unfold raised
  unfold incrementConnectionCount at within
  split
  · exact below other
  · next known =>
    rw [if_neg known,tallies.count] at within
    by_cases same : other = key
    · subst same
      rw [update_self]
      omega
    · rw [update_of_ne same]
      exact below other

theorem raised_self (known : key ≠ "") : raised live key key = live key + 1 := by
  rw [raised,if_neg known,update_self]

theorem raised_apart {other : String} (apart : other ≠ key) : raised live key other = live other := by
  unfold raised
  split
  · rfl
  · exact update_of_ne apart _ _

theorem dropped_self (known : key ≠ "") : dropped live key key = live key - 1 := by
  rw [dropped,if_neg known,update_self]

theorem dropped_apart {other : String} (apart : other ≠ key) : dropped live key other = live other := by
  unfold dropped
  split
  · rfl
  · exact update_of_ne apart _ _

theorem live_unknown (view : Reservation → String) (s : State) : s.live view "" = 0 := if_pos rfl

theorem live_known (view : Reservation → String) (s : State) (known : key ≠ "") :
    s.live view key = s.connections.countP (Connection.holds view key) := if_neg known

theorem changed_unknown (view : Reservation → String) (s : State) (key : String) :
    raised (s.live view) key "" = 0 ∧ dropped (s.live view) key "" = 0 := by
  by_cases same : "" = key
  · subst same
    exact ⟨(congrFun (if_pos rfl) _).trans (live_unknown view s),(congrFun (if_pos rfl) _).trans (live_unknown view s)⟩
  · exact ⟨(raised_apart same).trans (live_unknown view s),(dropped_apart same).trans (live_unknown view s)⟩

theorem live_released {index : ℕ} (found : s.connections[index]? = some before)
    (view : Reservation → String) (held : before.reservation = some reservation)
    (active : reservation.active = true) (now : after.reservation = some {reservation with active := false}) {t : State}
    (connections : t.connections = s.connections.set index after) : t.live view = dropped (s.live view)
      (view reservation) := by
  obtain ⟨bound,there⟩ := List.getElem?_eq_some_iff.mp found
  have gone (key : String) : after.holds view key = false := by
    rw [Connection.holds,now]
    rfl
  have own (key : String) : before.holds view key = decide (view reservation = key) := by
    rw [Connection.holds,held]
    simp [active]
  funext key
  by_cases unknown : key = ""
  · rw [unknown,live_unknown,(changed_unknown view s _).2]
  · rw [live_known view t unknown,connections,List.countP_set bound,there,gone,own]
    by_cases same : key = view reservation
    · subst same
      rw [dropped_self unknown,live_known view s unknown]
      simp
    · rw [dropped_apart same,live_known view s unknown,decide_eq_false (Ne.symm same)]
      simp

theorem live_same {index : ℕ} (found : s.connections[index]? = some before)
    (view : Reservation → String) (same : after.reservation = before.reservation) {t : State}
    (connections : t.connections = s.connections.set index after) : t.live view = s.live view := by
  obtain ⟨bound,there⟩ := List.getElem?_eq_some_iff.mp found
  funext key
  unfold State.live
  split
  · rfl
  · have holds : after.holds view key = before.holds view key := by
      rw [Connection.holds,Connection.holds,same]
    have positive : (if before.holds view key = true then 1 else 0) ≤
        s.connections.countP (Connection.holds view key) := by
      split
      · next held => exact List.countP_pos_iff.mpr ⟨before,List.mem_of_getElem? found,held⟩
      · exact Nat.zero_le _
    rw [connections,List.countP_set bound,there,holds]
    omega

theorem live_accepted (view : Reservation → String) (active : reservation.active = true) :
    (s.accepted address (some reservation) tlsSocket).live view = raised (s.live view) (view reservation) := by
  have own (key : String) : Connection.holds view key ⟨address,some reservation,false,tlsSocket⟩ =
      decide (view reservation = key) := by
    simp [Connection.holds,active]
  funext key
  by_cases unknown : key = ""
  · rw [unknown,live_unknown,(changed_unknown view s _).1]
  · rw [live_known view _ unknown,State.accepted,List.countP_append,List.countP_singleton,own]
    by_cases same : key = view reservation
    · subst same
      rw [raised_self unknown,live_known view s unknown]
      simp
    · rw [raised_apart same,live_known view s unknown,decide_eq_false (Ne.symm same)]
      simp

theorem live_rejected (view : Reservation → String) : (s.accepted address none tlsSocket).live view = s.live view := by
  funext key
  unfold State.live
  rw [State.accepted,List.countP_append]
  simp [Connection.holds]

end Counts

section Invariant

variable {config : SecurityConfig} {s t : State} {index : ℕ} {connection : Connection}

def Connection.inUse (connection : Connection) : Bool :=
  !connection.closed && connection.tlsSocket.all fun tls => !tls.handedOver || (tls.served.isSome && !tls.closed)

def Connection.awaits (connection : Connection) (tupleKey : TupleKey) : Prop :=
  connection.closed = false ∧ getSocketTupleKey connection.address = some tupleKey ∧
    ∃ tls, connection.tlsSocket = some tls ∧ tls.handedOver = false

structure Settled (index : ℕ) (connection : Connection) : Prop where
  reserved : ∀ tls, connection.tlsSocket = some tls → ∃ reservation tupleKey,
    connection.reservation = some reservation ∧ reservation.tlsTupleKey = some tupleKey ∧
      getSocketTupleKey connection.address = some tupleKey
  destroyed : connection.closed = true → ∀ tls, connection.tlsSocket = some tls → tls.destroyed = true
  ended : ∀ tls, connection.tlsSocket = some tls → tls.closed = true → tls.destroyed = true
  handed : ∀ tls, connection.tlsSocket = some tls → tls.handedOver = true → tls.concluded = true
  served : ∀ tls other, connection.tlsSocket = some tls → tls.served = some other →
    other = index ∧ tls.handedOver = true
  active : ∀ reservation, connection.reservation = some reservation → reservation.active = connection.inUse

def Connection.releasedOnce (connection : Connection) : Prop :=
  ∃ reservation, connection.reservation = some reservation ∧ reservation.active = false

structure Sound (config : SecurityConfig) (s : State) : Prop where
  counted : Counted config s
  settled : ∀ (index : ℕ) (connection : Connection), s.connections[index]? = some connection → Settled index connection
  pending : ∀ (tupleKey : TupleKey) (index : ℕ), s.pendingTlsReservationsByTuple tupleKey = some index ↔
    ∃ connection : Connection, s.connections[index]? = some connection ∧ connection.awaits tupleKey
  distinct : s.releases.Nodup
  released : ∀ index : ℕ, index ∈ s.releases ↔
    ∃ connection : Connection, s.connections[index]? = some connection ∧ connection.releasedOnce

theorem Connection.awaits_inUse {tupleKey : TupleKey} (awaits : connection.awaits tupleKey) :
    connection.inUse = true := by
  obtain ⟨opened,_,tls,found,waiting⟩ := awaits
  simp [Connection.inUse,opened,found,waiting]

def Kept (s t : State) (before after : Connection) : Prop :=
  after.reservation = before.reservation ∧ t.activeConnectionsByIP = s.activeConnectionsByIP ∧
    t.activeConnectionsBySubnet = s.activeConnectionsBySubnet ∧ t.releases = s.releases

def Dropped (s t : State) (index : ℕ) (before after : Connection) : Prop :=
  ∃ reservation, before.reservation = some reservation ∧ reservation.active = true ∧
    after.reservation = some {reservation with active := false} ∧
    t.activeConnectionsByIP = decrementConnectionCount s.activeConnectionsByIP reservation.normalizedIp ∧
    t.activeConnectionsBySubnet = decrementConnectionCount s.activeConnectionsBySubnet reservation.subnet ∧
    t.releases = s.releases ++ [index]

private theorem dropped_le {live : String → ℕ} (key other : String) : dropped live key other ≤ live other := by
  by_cases same : other = key
  · subst same
    by_cases unknown : other = ""
    · have kept : dropped live "" = live := if_pos rfl
      rw [unknown]
      exact Nat.le_of_eq (congrFun kept _)
    · rw [dropped_self unknown]
      exact Nat.sub_le _ _
  · exact Nat.le_of_eq (dropped_apart same)

variable {before after : Connection}

theorem Counted.kept (counted : Counted config s) (found : s.connections[index]? = some before)
    (kept : Kept s t before after)
    (connections : t.connections = s.connections.set index after) : Counted config t := by
  obtain ⟨same,byIp,bySubnet,_⟩ := kept
  have ip := live_same found Reservation.normalizedIp same connections
  have subnet := live_same found Reservation.subnet same connections
  constructor
  · rw [ip,byIp]
    exact counted.byIp
  · rw [subnet,bySubnet]
    exact counted.bySubnet
  · rw [ip]
    exact counted.ipLimit
  · rw [subnet]
    exact counted.subnetLimit

theorem Counted.dropped (counted : Counted config s) (found : s.connections[index]? = some before)
    (dropped : Dropped s t index before after) (connections : t.connections = s.connections.set index after) :
    Counted config t := by
  obtain ⟨reservation,held,active,now,byIp,bySubnet,_⟩ := dropped
  have ip := live_released found Reservation.normalizedIp held active now connections
  have subnet := live_released found Reservation.subnet held active now connections
  constructor
  · rw [ip,byIp]
    exact decrementConnectionCount_tallies counted.byIp _
  · rw [subnet,bySubnet]
    exact decrementConnectionCount_tallies counted.bySubnet _
  · intro other
    rw [ip]
    exact Nat.le_trans (dropped_le _ other) (counted.ipLimit other)
  · intro other
    rw [subnet]
    exact Nat.le_trans (dropped_le _ other) (counted.subnetLimit other)

theorem Sound.changed (sound : Sound config s) (found : s.connections[index]? = some before)
    (settled : Settled index after) (connections : t.connections = s.connections.set index after)
    (pending : ∀ tupleKey other, t.pendingTlsReservationsByTuple tupleKey = some other ↔
      s.pendingTlsReservationsByTuple tupleKey = some other ∧ (other = index → after.awaits tupleKey))
    (awaits : ∀ tupleKey, after.awaits tupleKey → before.awaits tupleKey)
    (counts : Kept s t before after ∨ Dropped s t index before after) : Sound config t := by
  obtain ⟨bound,_⟩ := List.getElem?_eq_some_iff.mp found
  have places (other : ℕ) : t.connections[other]? = if index = other then some after else s.connections[other]? := by
    rw [connections,List.getElem?_set]
    by_cases same : index = other
    · rw [if_pos same,if_pos same,if_pos bound]
    · rw [if_neg same,if_neg same]
  constructor
  · rcases counts with kept | dropped
    · exact sound.counted.kept found kept connections
    · exact sound.counted.dropped found dropped connections
  · intro other there inside
    rw [places] at inside
    split at inside
    · next same =>
      cases inside
      exact same ▸ settled
    · exact sound.settled other there inside
  · intro tupleKey other
    rw [pending,sound.pending]
    constructor
    · rintro ⟨⟨there,inside,waits⟩,own⟩
      by_cases same : index = other
      · exact ⟨after,by rw [places,if_pos same],own same.symm⟩
      · exact ⟨there,by rw [places,if_neg same]; exact inside,waits⟩
    · rintro ⟨there,inside,waits⟩
      rw [places] at inside
      split at inside
      · next same =>
        cases inside
        exact ⟨⟨before,same ▸ found,awaits tupleKey waits⟩,fun _ => waits⟩
      · next apart => exact ⟨⟨there,inside,waits⟩,fun same => (apart same.symm).elim⟩
  · rcases counts with ⟨_,_,_,same⟩ | ⟨reservation,held,active,_,_,_,more⟩
    · rw [same]
      exact sound.distinct
    · rw [more]
      refine sound.distinct.append (List.nodup_singleton _) ?_
      rintro other member single
      rw [List.mem_singleton.mp single,sound.released] at member
      obtain ⟨there,inside,gone,held',idle⟩ := member
      rw [found] at inside
      cases inside
      rw [held] at held'
      cases held'
      rw [active] at idle
      cases idle
  · intro other
    have elsewhere (apart : index ≠ other) : (∃ there, t.connections[other]? = some there ∧ there.releasedOnce) ↔
        other ∈ s.releases := by
      rw [places,if_neg apart,sound.released]
    by_cases same : index = other
    · subst same
      have here : (∃ there, t.connections[index]? = some there ∧ there.releasedOnce) ↔ after.releasedOnce := by
        rw [places,if_pos rfl]
        simp
      rw [here]
      rcases counts with ⟨kept,_,_,releases⟩ | ⟨reservation,held,active,now,_,_,releases⟩
      · rw [releases,sound.released,found,Connection.releasedOnce,kept]
        simp [Connection.releasedOnce]
      · rw [releases]
        exact ⟨fun _ => ⟨_,now,rfl⟩,fun _ => List.mem_append_right _ (List.mem_singleton_self _)⟩
    · rw [elsewhere same]
      rcases counts with ⟨_,_,_,releases⟩ | ⟨_,_,_,_,_,_,releases⟩
      · rw [releases]
      · rw [releases,List.mem_append,List.mem_singleton]
        exact ⟨fun member => member.resolve_right (Ne.symm same),.inl⟩

end Invariant

section Releases

variable {config : SecurityConfig} {s : State} {index : ℕ} {before after : Connection} {reservation : Reservation}
  {tupleKey : TupleKey}

section

variable (sound : Sound config s) (found : s.connections[index]? = some before)
include sound found

theorem Sound.own_key (waits : s.pendingTlsReservationsByTuple tupleKey = some index) : before.awaits tupleKey := by
  obtain ⟨there,inside,awaits⟩ := (sound.pending tupleKey index).mp waits
  rw [found] at inside
  cases inside
  exact awaits

theorem Sound.taken (awaits : before.awaits tupleKey) (key : TupleKey) (other : ℕ) :
    update s.pendingTlsReservationsByTuple tupleKey none key = some other ↔
      s.pendingTlsReservationsByTuple key = some other ∧ other ≠ index := by
  by_cases same : key = tupleKey
  · subst same
    rw [update_self,(sound.pending key index).mpr ⟨before,found,awaits⟩]
    simp [eq_comm]
  · rw [update_of_ne same]
    constructor
    · intro waits
      refine ⟨waits,?_⟩
      rintro rfl
      have here := (sound.own_key found waits).2.1
      rw [awaits.2.1] at here
      exact same (some.inj here).symm
    · exact And.left

theorem Sound.withdrawn (held : before.reservation = some reservation) (key : TupleKey) (other : ℕ) :
    withdraw s.pendingTlsReservationsByTuple reservation.tlsTupleKey index key = some other ↔
      s.pendingTlsReservationsByTuple key = some other ∧ other ≠ index := by
  have own (tupleKey : TupleKey) (waits : s.pendingTlsReservationsByTuple tupleKey = some index) :
      reservation.tlsTupleKey = some tupleKey := by
    obtain ⟨_,here,tls,there,_⟩ := sound.own_key found waits
    obtain ⟨reserved,reservedKey,held',named,address⟩ := (sound.settled index before found).reserved tls there
    rw [held] at held'
    cases held'
    rw [named,← address,here]
  have free (waits : s.pendingTlsReservationsByTuple key ≠ some index) :
      s.pendingTlsReservationsByTuple key = some other ↔ s.pendingTlsReservationsByTuple key = some other ∧
      other ≠ index := by
    constructor
    · intro there
      refine ⟨there,?_⟩
      rintro rfl
      exact waits there
    · exact And.left
  unfold withdraw
  cases named : reservation.tlsTupleKey with
  | none =>
    apply free
    intro waits
    rw [own key waits] at named
    cases named
  | some tupleKey =>
    dsimp only
    split
    · next waits => exact sound.taken found (sound.own_key found waits) key other
    · next idle =>
      apply free
      intro waits
      have same := own key waits
      rw [named] at same
      cases same
      exact idle waits

end

/-- The state when a reservation is released and its connection becomes `after`. -/
def State.surrender (s : State) (index : ℕ) (reservation : Reservation) (after : Connection) : State :=
  {s.setConnection index after with
    pendingTlsReservationsByTuple := withdraw s.pendingTlsReservationsByTuple reservation.tlsTupleKey index
    activeConnectionsByIP := decrementConnectionCount s.activeConnectionsByIP reservation.normalizedIp
    activeConnectionsBySubnet := decrementConnectionCount s.activeConnectionsBySubnet reservation.subnet
    releases := s.releases ++ [index]}

theorem release_active (found : s.connections[index]? = some before) (held : before.reservation = some reservation)
    (active : reservation.active = true) : release s index =
      s.surrender index reservation {before with reservation := some {reservation with active := false}} := by
  unfold release
  rw [found]
  dsimp only
  rw [held]
  dsimp only
  rw [if_pos active]
  rfl

theorem release_idle (found : s.connections[index]? = some before)
    (idle : ∀ reservation, before.reservation = some reservation → reservation.active = false) :
    release s index = s := by
  unfold release
  rw [found]
  dsimp only
  cases held : before.reservation with
  | none => rfl
  | some reservation =>
    dsimp only
    rw [idle reservation held,if_neg (by nofun)]

theorem setTls_found {change : TlsSocket → TlsSocket} (found : s.connections[index]? = some before) :
    setTls s index change = s.setConnection index {before with tlsSocket := before.tlsSocket.map change} := by
  rw [setTls,found]

private theorem getElem?_setConnection (found : s.connections[index]? = some before) (after : Connection) :
    (s.setConnection index after).connections[index]? = some after := by
  obtain ⟨bound,_⟩ := List.getElem?_eq_some_iff.mp found
  exact List.getElem?_set_self bound

theorem getElem?_surrender (found : s.connections[index]? = some before) (after : Connection) :
    (s.surrender index reservation after).connections[index]? = some after := getElem?_setConnection found after

theorem surrender_set (s : State) (index : ℕ) (reservation : Reservation) (first second : Connection) :
    (s.surrender index reservation first).setConnection index second = s.surrender index reservation second := by
  simp only [State.surrender,State.setConnection,List.set_set]

theorem Sound.surrendered (sound : Sound config s) (found : s.connections[index]? = some before)
    (held : before.reservation = some reservation) (active : reservation.active = true)
    (now : after.reservation = some {reservation with active := false}) (settled : Settled index after)
    (idle : ∀ tupleKey, ¬after.awaits tupleKey) : Sound config (s.surrender index reservation after) := by
  refine sound.changed found settled rfl ?_ (fun tupleKey awaits => (idle tupleKey awaits).elim)
    (.inr ⟨reservation,held,active,now,rfl,rfl,rfl⟩)
  intro tupleKey other
  exact (sound.withdrawn found held tupleKey other).trans (and_congr_right fun _ => (imp_iff_not (idle tupleKey)).symm)

theorem Sound.quiet (sound : Sound config s) (found : s.connections[index]? = some before)
    (same : after.reservation = before.reservation) (settled : Settled index after)
    (awaits : ∀ tupleKey, after.awaits tupleKey ↔ before.awaits tupleKey) :
    Sound config (s.setConnection index after) := by
  refine sound.changed found settled rfl ?_ (fun tupleKey => (awaits tupleKey).mp) (.inl ⟨same,rfl,rfl,rfl⟩)
  intro tupleKey other
  constructor
  · intro waits
    refine ⟨waits,?_⟩
    rintro rfl
    exact (awaits tupleKey).mpr (sound.own_key found waits)
  · exact And.left

end Releases

section Steps

variable {config : SecurityConfig} {s t : State} {index : ℕ} {connection : Connection} {tls : TlsSocket}
  {reservation : Option Reservation}

theorem Connection.awaits_tls (there : connection.tlsSocket = some tls) (tupleKey : TupleKey) :
    connection.awaits tupleKey ↔
      connection.closed = false ∧ getSocketTupleKey connection.address = some tupleKey ∧ tls.handedOver = false := by
  simp [Connection.awaits,there]

theorem Connection.inUse_tls (there : connection.tlsSocket = some tls) :
    connection.inUse = (!connection.closed && (!tls.handedOver || (tls.served.isSome && !tls.closed))) := by
  simp [Connection.inUse,there]

theorem Settled.withTls (settled : Settled index connection) (there : connection.tlsSocket = some tls)
    {next : TlsSocket}
    (held : reservation.map Reservation.tlsTupleKey = connection.reservation.map Reservation.tlsTupleKey)
    (destroyed : tls.destroyed = true → next.destroyed = true) (ended : next.closed = true → next.destroyed = true)
    (handed : next.handedOver = true → next.concluded = true)
    (served : ∀ other, next.served = some other → other = index ∧ next.handedOver = true)
    (active : ∀ own, reservation = some own →
      own.active = (!connection.closed && (!next.handedOver || (next.served.isSome && !next.closed)))) :
    Settled index {connection with reservation := reservation, tlsSocket := some next} := by
  constructor
  · intro later same
    cases same
    obtain ⟨old,tupleKey,kept,named,address⟩ := settled.reserved tls there
    rw [kept] at held
    obtain ⟨own,rfl,same⟩ := map_eq_some_iff.mp held
    exact ⟨own,tupleKey,rfl,same.trans named,address⟩
  · intro closed later same
    cases same
    exact destroyed (settled.destroyed closed tls there)
  · intro later same
    cases same
    exact ended
  · intro later same
    cases same
    exact handed
  · intro later other same
    cases same
    exact served other
  · intro own same
    exact active own same

theorem tlsDestroy_sound (sound : Sound config s) (found : s.connections[index]? = some connection)
    (there : connection.tlsSocket = some tls) :
    Sound config (setTls s index fun tls => {tls with destroyed := true}) := by
  have settled := sound.settled index connection found
  rw [setTls_found found,there,map_some]
  refine sound.quiet found ?_ ?_ ?_
  · rfl
  · exact settled.withTls there rfl (fun _ => rfl) (fun _ => rfl) (settled.handed tls there)
      (fun other => settled.served tls other there)
      (fun own same => by rw [settled.active own same,Connection.inUse_tls there])
  · intro tupleKey
    rw [Connection.awaits_tls there,Connection.awaits_tls rfl]

theorem Settled.waiting (settled : Settled index connection) (there : connection.tlsSocket = some tls)
    (pending : tls.concluded = false) : tls.handedOver = false ∧ tls.served = none := by
  have waiting : tls.handedOver = false := by
    cases handed : tls.handedOver with
    | false => rfl
    | true =>
      rw [settled.handed tls there handed] at pending
      cases pending
  refine ⟨waiting,?_⟩
  cases served : tls.served with
  | none => rfl
  | some other =>
    rw [(settled.served tls other there served).2] at waiting
    cases waiting

theorem Settled.open (settled : Settled index connection) (there : connection.tlsSocket = some tls)
    (intact : tls.destroyed = false) : connection.closed = false ∧ tls.closed = false := by
  constructor
  · cases closed : connection.closed with
    | false => rfl
    | true =>
      rw [settled.destroyed closed tls there] at intact
      cases intact
  · cases closed : tls.closed with
    | false => rfl
    | true =>
      rw [settled.ended tls there closed] at intact
      cases intact

variable {socket : Address}

theorem reports_key {tupleKey : TupleKey} (reported : reports connection tls socket = true)
    (named : getSocketTupleKey socket = some tupleKey) :
    tls.destroyed = false ∧ getSocketTupleKey connection.address = some tupleKey := by
  rw [reports,named] at reported
  simp only [isNone_some,Bool.false_or,Bool.and_eq_true,Bool.not_eq_true',decide_eq_true_eq] at reported
  exact ⟨reported.1,reported.2.symm⟩

section

variable (sound : Sound config s)
  (found : s.connections[index]? = some connection)
  (there : connection.tlsSocket = some tls)
include sound found there

theorem lost_sound (waiting : tls.handedOver = false) (unserved : tls.served = none) :
    Sound config (setTls s index fun tls => {tls with concluded := true, handedOver := false, destroyed := true}) := by
  have settled := sound.settled index connection found
  rw [setTls_found found,there,map_some]
  refine sound.quiet found ?_ ?_ ?_
  · rfl
  · refine settled.withTls there rfl (fun _ => rfl) (fun _ => rfl) nofun ?_ ?_
    · intro other served
      rw [unserved] at served
      cases served
    · intro own same
      rw [settled.active own same,Connection.inUse_tls there,waiting]
  · intro tupleKey
    rw [Connection.awaits_tls there,Connection.awaits_tls rfl,waiting]

theorem secure_sound (pending : tls.concluded = false) (intact : tls.destroyed = false)
    (reported : reports connection tls socket = true) : Sound config (onSecureConnection s index socket) := by
  have settled := sound.settled index connection found
  obtain ⟨waiting,unserved⟩ := settled.waiting there pending
  obtain ⟨opened,unclosed⟩ := settled.open there intact
  unfold onSecureConnection takeTlsReservation
  cases named : getSocketTupleKey socket with
  | none => exact lost_sound sound found there waiting unserved
  | some tupleKey =>
    have address := (reports_key reported named).2
    have awaits : connection.awaits tupleKey := ⟨opened,address,tls,there,waiting⟩
    simp only [(sound.pending tupleKey index).mpr ⟨connection,found,awaits⟩,isSome_some]
    have idle (key : TupleKey) (next : TlsSocket) (handed : next.handedOver = true) :
        ¬Connection.awaits {connection with tlsSocket := some next} key := by
      rw [Connection.awaits_tls rfl,handed]
      exact fun waits => by cases waits.2.2
    let next : TlsSocket := {tls with concluded := true, handedOver := true, served := some index}
    have settled' : Settled index {connection with tlsSocket := some next} := by
      refine settled.withTls there rfl id ?_ (fun _ => rfl) ?_ ?_
      · intro closed
        rw [unclosed] at closed
        cases closed
      · intro other same
        cases same
        exact ⟨rfl,rfl⟩
      · intro own same
        rw [settled.active own same,Connection.inUse_tls there,waiting,opened]
        simp [next,unclosed]
    let claimed := {s with
      pendingTlsReservationsByTuple := update s.pendingTlsReservationsByTuple tupleKey none}
    have there' : claimed.connections[index]? = some connection := found
    rw [setTls_found there',there]
    exact sound.changed found settled' rfl (fun key other =>
        (sound.taken found awaits key other).trans (and_congr_right fun _ => (imp_iff_not (idle key next rfl)).symm))
          (fun key waits => (idle key next rfl waits).elim) (.inl ⟨rfl,rfl,rfl,rfl⟩)

theorem clientError_sound (pending : tls.concluded = false)
    (reported : reports connection tls socket = true) : Sound config (onTlsClientError s index socket) := by
  have settled := sound.settled index connection found
  obtain ⟨waiting,unserved⟩ := settled.waiting there pending
  unfold onTlsClientError takeTlsReservation
  cases named : getSocketTupleKey socket with
  | none => exact lost_sound sound found there waiting unserved
  | some tupleKey =>
    obtain ⟨intact,address⟩ := reports_key reported named
    obtain ⟨opened,_⟩ := settled.open there intact
    have awaits : connection.awaits tupleKey := ⟨opened,address,tls,there,waiting⟩
    simp only [(sound.pending tupleKey index).mpr ⟨connection,found,awaits⟩,isSome_some]
    obtain ⟨reservation,reservedKey,held,reserved,address'⟩ := settled.reserved tls there
    rw [address] at address'
    cases address'
    have active : reservation.active = true := (settled.active reservation held).trans (Connection.awaits_inUse awaits)
    let claimed := {s with
      pendingTlsReservationsByTuple := update s.pendingTlsReservationsByTuple tupleKey none}
    have there' : claimed.connections[index]? = some connection := found
    have free : withdraw claimed.pendingTlsReservationsByTuple reservation.tlsTupleKey index =
        claimed.pendingTlsReservationsByTuple := by
      have gone : claimed.pendingTlsReservationsByTuple tupleKey ≠ some index := by
        intro waits
        rw [show claimed.pendingTlsReservationsByTuple tupleKey = none from update_self ..] at waits
        cases waits
      rw [reserved,withdraw,if_neg gone]
    rw [release_active there' held active,setTls_found (getElem?_surrender there' _),surrender_set,there,map_some]
    let next : TlsSocket := {tls with concluded := true, handedOver := true, destroyed := true}
    let after : Connection := {connection with
      reservation := some {reservation with active := false}, tlsSocket := some next}
    have idle (key : TupleKey) : ¬after.awaits key := by
      rw [Connection.awaits_tls rfl]
      exact fun waits => by cases waits.2.2
    have settled' : Settled index after := by
      refine settled.withTls there (by rw [held]; rfl) (fun _ => rfl) (fun _ => rfl) (fun _ => rfl) ?_ ?_
      · intro other served
        rw [unserved] at served
        cases served
      · intro own same
        cases same
        rw [unserved,opened]
        rfl
    refine sound.changed found settled' rfl ?_ (fun key waits => (idle key waits).elim)
      (.inr ⟨reservation,held,active,rfl,rfl,rfl,rfl⟩)
    intro key other
    rw [show (claimed.surrender index reservation after).pendingTlsReservationsByTuple =
      claimed.pendingTlsReservationsByTuple from free]
    exact (sound.taken found awaits key other).trans (and_congr_right fun _ => (imp_iff_not (idle key)).symm)

end

theorem Connection.awaits_plain (plain : connection.tlsSocket = none) (tupleKey : TupleKey) :
    ¬connection.awaits tupleKey := by
  rintro ⟨_,_,tls,there,_⟩
  rw [plain] at there
  cases there

def Connection.shut (connection : Connection) : Connection :=
  {connection with closed := true, tlsSocket := connection.tlsSocket.map fun tls => {tls with destroyed := true}}

theorem Settled.shut (settled : Settled index connection)
    (held : reservation.map Reservation.tlsTupleKey = connection.reservation.map Reservation.tlsTupleKey)
    (idle : ∀ own, reservation = some own → own.active = false) :
    Settled index {connection with reservation := reservation}.shut := by
  constructor
  · intro later same
    obtain ⟨tls,there,_⟩ := map_eq_some_iff.mp same
    obtain ⟨old,tupleKey,kept,named,address⟩ := settled.reserved tls there
    rw [kept] at held
    obtain ⟨own,now,view⟩ := map_eq_some_iff.mp held
    exact ⟨own,tupleKey,now,view.trans named,address⟩
  · intro _ later same
    obtain ⟨tls,there,rfl⟩ := map_eq_some_iff.mp same
    rfl
  · intro later same _
    obtain ⟨tls,there,rfl⟩ := map_eq_some_iff.mp same
    rfl
  · intro later same
    obtain ⟨tls,there,rfl⟩ := map_eq_some_iff.mp same
    exact settled.handed tls there
  · intro later other same
    obtain ⟨tls,there,rfl⟩ := map_eq_some_iff.mp same
    exact settled.served tls other there
  · intro own same
    exact idle own same

theorem rawClose_sound (sound : Sound config s) (found : s.connections[index]? = some connection) :
    Sound config (onRawClose s index) := by
  have settled := sound.settled index connection found
  have closedIdle (after : Connection) (tupleKey : TupleKey) : ¬after.shut.awaits tupleKey := by
    intro waits
    cases waits.1
  unfold onRawClose
  cases busy : connection.reservation.any Reservation.active with
  | false =>
    have idle : ∀ reservation, connection.reservation = some reservation → reservation.active = false := by
      intro reservation held
      rw [held] at busy
      exact busy
    have free (tupleKey : TupleKey) : ¬connection.awaits tupleKey := by
      intro waits
      have inUse := Connection.awaits_inUse waits
      obtain ⟨_,_,tls,there,_⟩ := waits
      obtain ⟨reservation,_,held,_,_⟩ := settled.reserved tls there
      have active := (settled.active reservation held).trans inUse
      rw [idle reservation held] at active
      cases active
    rw [release_idle found idle]
    dsimp only
    rw [found]
    refine sound.quiet found ?_ (settled.shut rfl idle) ?_
    · rfl
    · intro tupleKey
      constructor
      · exact fun waits => (closedIdle connection tupleKey waits).elim
      · exact fun waits => (free tupleKey waits).elim
  | true =>
    obtain ⟨reservation,held,active⟩ := (any_eq_true _ _).mp busy
    rw [release_active found held active]
    dsimp only
    rw [getElem?_surrender found]
    dsimp only
    rw [surrender_set]
    let mid : Connection := {connection with reservation := some {reservation with active := false}}
    have settled' : Settled index mid.shut := by
      refine settled.shut (by rw [held]; rfl) ?_
      intro own same
      cases same
      rfl
    exact sound.surrendered found held active rfl settled' (closedIdle mid)

theorem tlsClose_sound (sound : Sound config s) (found : s.connections[index]? = some connection)
    (there : connection.tlsSocket = some tls) (destroyed : tls.destroyed = true) (open_ : tls.closed = false) :
    Sound config (onTlsClose s index tls.served) := by
  have settled := sound.settled index connection found
  let next : TlsSocket := {tls with closed := true}
  have same (tupleKey : TupleKey) (reservation : Option Reservation) :
      Connection.awaits {connection with reservation := reservation, tlsSocket := some next} tupleKey ↔
        connection.awaits tupleKey := by
    rw [Connection.awaits_tls there,Connection.awaits_tls rfl]
  /- Where the reservation is not released, the connection is as much in use as before. -/
  have quiet (idle : (!connection.closed && (!next.handedOver || (next.served.isSome && !next.closed))) =
    connection.inUse) :
      Sound config (s.setConnection index {connection with tlsSocket := some next}) := by
    refine sound.quiet found ?_ ?_ (fun tupleKey => same tupleKey connection.reservation)
    · rfl
    · exact settled.withTls there rfl id (fun _ => destroyed) (settled.handed tls there)
        (fun other => settled.served tls other there) (fun own held => (settled.active own held).trans idle.symm)
  unfold onTlsClose
  cases served : tls.served with
  | none =>
    dsimp only
    rw [setTls_found found,there]
    apply quiet
    rw [Connection.inUse_tls there]
    simp [next,served]
  | some other =>
    obtain ⟨rfl,handed⟩ := settled.served tls other there served
    obtain ⟨reservation,tupleKey,held,_,_⟩ := settled.reserved tls there
    have inUse : connection.inUse = !connection.closed := by
      rw [Connection.inUse_tls there,handed,served,open_]
      simp
    have active := (settled.active reservation held).trans inUse
    dsimp only
    cases closed : connection.closed with
    | true =>
      rw [closed] at active
      have idle : ∀ own, connection.reservation = some own → own.active = false := by
        intro own kept
        rw [held] at kept
        cases kept
        exact active
      rw [release_idle found idle,setTls_found found,there]
      apply quiet
      rw [inUse,closed]
      rfl
    | false =>
      rw [closed] at active
      rw [release_active found held active,setTls_found (getElem?_surrender found _),surrender_set,there,map_some]
      refine sound.surrendered found held active rfl ?_ ?_
      · refine settled.withTls there (by rw [held]; rfl) id (fun _ => destroyed) (settled.handed tls there)
          (fun other => settled.served tls other there) ?_
        intro own kept
        cases kept
        simp [handed]
      · intro key waits
        have handed' := ((Connection.awaits_tls rfl key).mp waits).2.2
        rw [show next.handedOver = tls.handedOver from rfl,handed] at handed'
        cases handed'

end Steps

section Accepts

variable {config : SecurityConfig} {s t : State} {connection : Connection}

theorem getElem?_added {connections : List Connection} {index : ℕ} {there : Connection} :
    (connections ++ [connection])[index]? = some there ↔
      connections[index]? = some there ∨ index = connections.length ∧ there = connection := by
  rcases Nat.lt_trichotomy index connections.length with before | rfl | past
  · rw [List.getElem?_append_left before]
    constructor
    · exact .inl
    · rintro (inside | ⟨rfl,_⟩)
      · exact inside
      · exact (Nat.lt_irrefl _ before).elim
  · rw [List.getElem?_concat_length,List.getElem?_eq_none (Nat.le_refl _)]
    simp [eq_comm]
  · rw [List.getElem?_eq_none (by simp; omega),List.getElem?_eq_none (by omega)]
    constructor
    · simp
    · rintro (inside | ⟨rfl,_⟩)
      · cases inside
      · exact (Nat.lt_irrefl _ past).elim

theorem Sound.added (sound : Sound config s) (counted : Counted config t)
    (settled : Settled s.connections.length connection)
    (fresh : ¬connection.releasedOnce) (connections : t.connections = s.connections ++ [connection])
    (pending : ∀ tupleKey other, t.pendingTlsReservationsByTuple tupleKey = some other ↔
      s.pendingTlsReservationsByTuple tupleKey = some other ∨ other = s.connections.length ∧ connection.awaits tupleKey)
    (releases : t.releases = s.releases) : Sound config t := by
  constructor
  · exact counted
  · intro index there found
    rw [connections,getElem?_added] at found
    rcases found with inside | ⟨rfl,rfl⟩
    · exact sound.settled index there inside
    · exact settled
  · intro tupleKey other
    rw [pending,sound.pending,connections]
    simp only [getElem?_added]
    constructor
    · rintro (⟨there,inside,awaits⟩ | ⟨rfl,awaits⟩)
      · exact ⟨there,.inl inside,awaits⟩
      · exact ⟨connection,.inr ⟨rfl,rfl⟩,awaits⟩
    · rintro ⟨there,inside | ⟨rfl,rfl⟩,awaits⟩
      · exact .inl ⟨there,inside,awaits⟩
      · exact .inr ⟨rfl,awaits⟩
  · rw [releases]
    exact sound.distinct
  · intro index
    rw [releases,sound.released,connections]
    simp only [getElem?_added]
    constructor
    · rintro ⟨there,inside,gone⟩
      exact ⟨there,.inl inside,gone⟩
    · rintro ⟨there,inside | ⟨_,rfl⟩,gone⟩
      · exact ⟨there,inside,gone⟩
      · exact (fresh gone).elim

def State.counting (s : State) (ip subnet : String) : State :=
  {s with
    activeConnectionsByIP := (incrementConnectionCount s.activeConnectionsByIP ip).2
    activeConnectionsBySubnet := (incrementConnectionCount s.activeConnectionsBySubnet subnet).2}

private theorem countConnection_cases (counted : Counted config s) (ip subnet : String) :
    countConnection config s ip subnet = (false,s) ∨
      (countConnection config s ip subnet = (true,s.counting ip subnet) ∧
        ¬config.maxConnectionsPerIP < (incrementConnectionCount s.activeConnectionsByIP ip).1 ∧
        ¬config.maxConnectionsPerSubnet < (incrementConnectionCount s.activeConnectionsBySubnet subnet).1) := by
  have undoIp := decrementConnectionCount_undo counted.byIp ip
  have undoSubnet := decrementConnectionCount_undo counted.bySubnet subnet
  unfold countConnection
  dsimp only
  split
  · left
    rw [undoIp]
  · next ipWithin =>
    split
    · left
      rw [undoIp,undoSubnet]
    · next subnetWithin => exact .inr ⟨rfl,ipWithin,subnetWithin⟩

theorem reserveConnection_cases (counted : Counted config s) (socket : Address) (tlsTupleKey : Option TupleKey) :
    reserveConnection config s socket tlsTupleKey = (none,s) ∨ ∃ ip subnet,
      ¬config.maxConnectionsPerIP < (incrementConnectionCount s.activeConnectionsByIP ip).1 ∧
      ¬config.maxConnectionsPerSubnet < (incrementConnectionCount s.activeConnectionsBySubnet subnet).1 ∧
      ((tlsTupleKey = none ∧
          reserveConnection config s socket tlsTupleKey = (some ⟨ip,subnet,none,true⟩,s.counting ip subnet)) ∨
        ∃ tupleKey, tlsTupleKey = some tupleKey ∧ s.pendingTlsReservationsByTuple tupleKey = none ∧
          reserveConnection config s socket tlsTupleKey = (some ⟨ip,subnet,some tupleKey,true⟩,
            {s.counting ip subnet with
              pendingTlsReservationsByTuple :=
                update s.pendingTlsReservationsByTuple tupleKey (some s.connections.length)})) := by
  unfold reserveConnection
  dsimp only
  split
  · exact .inl rfl
  · split
    · exact .inl rfl
    · next free =>
      generalize normalizeRemoteAddress socket.remoteAddress = ip
      rcases countConnection_cases counted ip (getSubnet24 (some ip)) with refused | ⟨taken,ipWithin,subnetWithin⟩
      · left
        rw [refused]
        rfl
      · right
        refine ⟨ip,getSubnet24 (some ip),ipWithin,subnetWithin,?_⟩
        rw [taken]
        cases tlsTupleKey with
        | none => exact .inl ⟨rfl,rfl⟩
        | some tupleKey => exact .inr ⟨tupleKey,rfl,by simpa using free,rfl⟩

theorem Counted.accepted (counted : Counted config s) {reservation : Reservation} (active : reservation.active = true)
    (ipWithin : ¬config.maxConnectionsPerIP <
      (incrementConnectionCount s.activeConnectionsByIP reservation.normalizedIp).1)
    (subnetWithin : ¬config.maxConnectionsPerSubnet <
      (incrementConnectionCount s.activeConnectionsBySubnet reservation.subnet).1) {address : Address}
    {tlsSocket : Option TlsSocket}
    (connections : t.connections = s.connections ++ [⟨address,some reservation,false,tlsSocket⟩])
    (byIp : t.activeConnectionsByIP = (incrementConnectionCount s.activeConnectionsByIP reservation.normalizedIp).2)
    (bySubnet : t.activeConnectionsBySubnet =
      (incrementConnectionCount s.activeConnectionsBySubnet reservation.subnet).2) : Counted config t := by
  have live (view : Reservation → String) : t.live view = raised (s.live view) (view reservation) := by
    rw [← live_accepted view active]
    funext key
    unfold State.live
    rw [connections]
    rfl
  constructor
  · rw [live,byIp]
    exact incrementConnectionCount_tallies counted.byIp _
  · rw [live,bySubnet]
    exact incrementConnectionCount_tallies counted.bySubnet _
  · rw [live]
    exact raised_limit counted.byIp counted.ipLimit ipWithin
  · rw [live]
    exact raised_limit counted.bySubnet counted.subnetLimit subnetWithin

theorem Counted.refused (counted : Counted config s) (address : Address) (tlsSocket : Option TlsSocket) :
    Counted config (s.accepted address none tlsSocket) := by
  constructor
  · rw [live_rejected]
    exact counted.byIp
  · rw [live_rejected]
    exact counted.bySubnet
  · rw [live_rejected]
    exact counted.ipLimit
  · rw [live_rejected]
    exact counted.subnetLimit

theorem Sound.refused (sound : Sound config s) (address : Address) : Sound config (s.accepted address none none) := by
  refine sound.added (sound.counted.refused address none) ?_ ?_ rfl ?_ rfl
  · constructor <;> nofun
  · rintro ⟨reservation,held,_⟩
    cases held
  · intro tupleKey other
    constructor
    · exact .inl
    · rintro (waits | ⟨_,awaits⟩)
      · exact waits
      · exact (Connection.awaits_plain rfl tupleKey awaits).elim

private theorem accept_sound (sound : Sound config s) (isTls : Bool) (address : Address) :
    Sound config (accept config s isTls address) := by
  unfold accept
  cases isTls with
  | false =>
    rw [if_neg (by nofun)]
    rcases reserveConnection_cases sound.counted address none with refused | ⟨ip,subnet,ipWithin,
      subnetWithin,plain | tls⟩
    · rw [refused]
      exact sound.refused address
    · rw [plain.2]
      let reservation : Reservation := ⟨ip,subnet,none,true⟩
      let connection : Connection := ⟨address,some reservation,false,none⟩
      have connections : ((s.counting ip subnet).accepted address (some reservation) none).connections =
          s.connections ++ [connection] := rfl
      refine sound.added (sound.counted.accepted rfl ipWithin subnetWithin connections rfl rfl) ?_ ?_ connections ?_ rfl
      · refine ⟨nofun,nofun,nofun,nofun,nofun,?_⟩
        rintro reservation ⟨⟩
        rfl
      · rintro ⟨reservation,held,idle⟩
        cases held
        cases idle
      · intro tupleKey other
        constructor
        · exact .inl
        · rintro (waits | ⟨_,awaits⟩)
          · exact waits
          · exact (Connection.awaits_plain rfl tupleKey awaits).elim
    · obtain ⟨tupleKey,named,_⟩ := tls
      cases named
  | true =>
    rw [if_pos rfl]
    cases named : getSocketTupleKey address with
    | none => exact sound.refused address
    | some tupleKey =>
      dsimp only
      rcases reserveConnection_cases sound.counted address (some tupleKey) with
        refused | ⟨ip,subnet,ipWithin,subnetWithin,plain | ⟨own,same,free,reserved⟩⟩
      · rw [refused]
        exact sound.refused address
      · cases plain.1
      · cases same
        rw [reserved]
        let reservation : Reservation := ⟨ip,subnet,some tupleKey,true⟩
        let connection : Connection := ⟨address,some reservation,false,some freshTls⟩
        have connections : (State.accepted {s.counting ip subnet with
            pendingTlsReservationsByTuple :=
              update s.pendingTlsReservationsByTuple tupleKey (some s.connections.length)}
            address (some reservation) (some freshTls)).connections = s.connections ++ [connection] := rfl
        refine sound.added (sound.counted.accepted rfl ipWithin subnetWithin connections rfl rfl) ?_ ?_
          connections ?_ rfl
        · constructor
          · rintro tls ⟨⟩
            exact ⟨_,tupleKey,rfl,rfl,named⟩
          · nofun
          · rintro tls ⟨⟩
            nofun
          · rintro tls ⟨⟩
            nofun
          · rintro tls other ⟨⟩
            nofun
          · rintro reservation ⟨⟩
            rfl
        · rintro ⟨reservation,held,idle⟩
          cases held
          cases idle
        · intro key other
          have waiting : Connection.awaits ⟨address,some ⟨ip,subnet,some tupleKey,true⟩,false,some freshTls⟩ key ↔
              tupleKey = key := by
            rw [Connection.awaits_tls rfl,named]
            simp [freshTls]
          change update s.pendingTlsReservationsByTuple tupleKey (some s.connections.length) key = some other ↔ _
          rw [waiting]
          by_cases here : key = tupleKey
          · subst here
            rw [update_self,free]
            simp [eq_comm]
          · rw [update_of_ne here]
            simp [Ne.symm here]

end Accepts

section Results

variable {config : SecurityConfig} {s t : State}

theorem step_sound {label : Label} (sound : Sound config s) (moved : step config s label = some t) :
    Sound config t := by
  cases label with
  | accept isTls address =>
    cases moved
    exact accept_sound sound isTls address
  | secure index socket =>
    obtain ⟨connection,found,moved⟩ := bind_eq_some_iff.mp moved
    obtain ⟨tls,there,moved⟩ := bind_eq_some_iff.mp moved
    split at moved
    · next ready =>
      cases moved
      simp only [Bool.and_eq_true,Bool.not_eq_true'] at ready
      exact secure_sound sound found there ready.1.1 ready.1.2 ready.2
    · cases moved
  | clientError index socket =>
    obtain ⟨connection,found,moved⟩ := bind_eq_some_iff.mp moved
    obtain ⟨tls,there,moved⟩ := bind_eq_some_iff.mp moved
    split at moved
    · next ready =>
      cases moved
      simp only [Bool.and_eq_true,Bool.not_eq_true'] at ready
      exact clientError_sound sound found there ready.1 ready.2
    · cases moved
  | rawClose index =>
    obtain ⟨connection,found,moved⟩ := bind_eq_some_iff.mp moved
    split at moved
    · cases moved
    · cases moved
      exact rawClose_sound sound found
  | tlsDestroy index =>
    obtain ⟨connection,found,moved⟩ := bind_eq_some_iff.mp moved
    obtain ⟨tls,there,moved⟩ := bind_eq_some_iff.mp moved
    cases moved
    exact tlsDestroy_sound sound found there
  | tlsClose index =>
    obtain ⟨connection,found,moved⟩ := bind_eq_some_iff.mp moved
    obtain ⟨tls,there,moved⟩ := bind_eq_some_iff.mp moved
    split at moved
    · next ready =>
      cases moved
      simp only [Bool.and_eq_true,Bool.not_eq_true'] at ready
      exact tlsClose_sound sound found there ready.1 ready.2
    · cases moved
  | setBans bannedTmpIPs ipWhitelist =>
    cases moved
    exact ⟨⟨sound.counted.byIp,sound.counted.bySubnet,sound.counted.ipLimit,sound.counted.subnetLimit⟩,
      sound.settled,sound.pending,sound.distinct,sound.released⟩

def startState (bannedTmpIPs ipWhitelist : String → Bool) : State :=
  ⟨fun _ => none,fun _ => none,bannedTmpIPs,ipWhitelist,fun _ => none,[],[]⟩

private theorem start_live (bannedTmpIPs ipWhitelist : String → Bool) (view : Reservation → String) (key : String) :
    (startState bannedTmpIPs ipWhitelist).live view key = 0 := by
  unfold State.live
  split <;> rfl

theorem start_sound (config : SecurityConfig) (bannedTmpIPs ipWhitelist : String → Bool) :
    Sound config (startState bannedTmpIPs ipWhitelist) := by
  have empty (view : Reservation → String) :
      Tallies (fun _ => none) ((startState bannedTmpIPs ipWhitelist).live view) := by
    intro key
    rw [if_pos (start_live ..)]
  have nobody (index : ℕ) (connection : Connection) :
      (startState bannedTmpIPs ipWhitelist).connections[index]? ≠ some connection := nofun
  constructor
  · refine ⟨empty _,empty _,?_,?_⟩
    · intro ip
      rw [start_live]
      exact Nat.zero_le _
    · intro subnet
      rw [start_live]
      exact Nat.zero_le _
  · exact fun index connection found => (nobody index connection found).elim
  · intro tupleKey index
    constructor
    · nofun
    · exact fun ⟨connection,found,_⟩ => (nobody index connection found).elim
  · exact List.nodup_nil
  · intro index
    constructor
    · nofun
    · exact fun ⟨connection,found,_⟩ => (nobody index connection found).elim

theorem reachable_sound (reachable : (machine config).Reachable s) : Sound config s := by
  apply reachable.invariant (Sound config)
  · rintro _ ⟨bannedTmpIPs,ipWhitelist,rfl⟩
    exact start_sound config bannedTmpIPs ipWhitelist
  · intro before after label sound _ moved
    exact step_sound sound moved

/-- A reservation is live exactly while its connection is in use, and is released once; the counts are
of the live ones, those that wait are of open handshakes, and a TLS connection has its own. -/
theorem reservations_accounted (config : SecurityConfig) {s : State} (reachable : (machine config).Reachable s) :
    (∀ ip ≠ "", (s.activeConnectionsByIP ip).getD 0 =
      s.connections.countP (Connection.holds Reservation.normalizedIp ip) ∧
      (s.activeConnectionsByIP ip).getD 0 ≤ config.maxConnectionsPerIP) ∧
    (∀ subnet ≠ "", (s.activeConnectionsBySubnet subnet).getD 0 =
        s.connections.countP (Connection.holds Reservation.subnet subnet) ∧
      (s.activeConnectionsBySubnet subnet).getD 0 ≤ config.maxConnectionsPerSubnet) ∧
    s.releases.Nodup ∧
    (∀ (index : ℕ) (connection : Connection) (reservation : Reservation), s.connections[index]? = some connection →
      connection.reservation = some reservation →
        reservation.active = connection.inUse ∧ (index ∈ s.releases ↔ connection.inUse = false)) ∧
    (∀ (tupleKey : TupleKey) (index : ℕ), s.pendingTlsReservationsByTuple tupleKey = some index ↔
      ∃ connection : Connection, s.connections[index]? = some connection ∧ connection.awaits tupleKey) ∧
    ∀ (index : ℕ) (connection : Connection) (tls : TlsSocket) (taken : ℕ), s.connections[index]? = some connection →
      connection.tlsSocket = some tls → tls.served = some taken → taken = index ∧
      connection.reservation.isSome = true := by
  have sound := reachable_sound reachable
  refine ⟨?_,?_,sound.distinct,?_,sound.pending,?_⟩
  · intro ip known
    have count := sound.counted.byIp.getD ip
    exact ⟨count.trans (live_known _ s known),count ▸ sound.counted.ipLimit ip⟩
  · intro subnet known
    have count := sound.counted.bySubnet.getD subnet
    exact ⟨count.trans (live_known _ s known),count ▸ sound.counted.subnetLimit subnet⟩
  · intro index connection reservation found held
    have active := (sound.settled index connection found).active reservation held
    refine ⟨active,?_⟩
    rw [sound.released,← active]
    constructor
    · rintro ⟨there,inside,own,same,idle⟩
      rw [found] at inside
      cases inside
      rw [held] at same
      cases same
      exact idle
    · intro idle
      exact ⟨connection,found,reservation,held,idle⟩
  · intro index connection tls taken found there served
    have settled := sound.settled index connection found
    obtain ⟨reservation,_,held,_,_⟩ := settled.reserved tls there
    rw [held]
    exact ⟨(settled.served tls taken there served).1,rfl⟩

def minerAddress (port : ℕ) : Address :=
  ⟨some "10.0.0.1",some "IPv4",some port,some "10.0.0.2",some "IPv4",some 3333⟩

/-- A miner's first connection is served and reset; its next one has the same ports, and waits for its
handshake when the first one's TLS socket closes. -/
def reusedLabels : List Label :=
  [.accept true (minerAddress 5000),.accept true (minerAddress 5000),.secure 0 (minerAddress 5000),
    .accept true (minerAddress 5000),.tlsDestroy 0,.tlsClose 0,.rawClose 0]

theorem reservations_accounted_reused : ∃ s : State, (machine ⟨2,4⟩).Reachable s ∧ s.connections.length = 3 ∧
    s.releases = [0] ∧ s.connections.countP (Connection.holds Reservation.normalizedIp "10.0.0.1") = 1 ∧
    ∃ waiting : Connection, s.connections[2]? = some waiting ∧ waiting.inUse = true := by
  have start : (machine ⟨2,4⟩).initial (startState (fun _ => false) fun _ => false) := ⟨_,_,rfl⟩
  have ends : ((machine ⟨2,4⟩).run (startState (fun _ => false) fun _ => false) reusedLabels).any (fun s =>
      s.activeConnectionsByIP "10.0.0.1" = some 1 ∧ s.connections.length = 3 ∧ s.releases = [0] ∧
        (getSocketTupleKey (minerAddress 5000)).bind s.pendingTlsReservationsByTuple = some 2) = true := by
    decide +kernel
  obtain ⟨s,ran,facts⟩ := (Option.any_eq_true _ _).mp ends
  obtain ⟨counted,size,releases,waits⟩ := of_decide_eq_true facts
  have reached := Machine.reachable_run start ran
  obtain ⟨byIp,_,_,_,pending,_⟩ := reservations_accounted ⟨2,4⟩ reached
  have one := (byIp "10.0.0.1" (by decide)).1
  rw [counted] at one
  obtain ⟨tupleKey,_,own⟩ := Option.bind_eq_some_iff.mp waits
  obtain ⟨waiting,found,awaits⟩ := (pending tupleKey 2).mp own
  exact ⟨s,reached,size,releases,one.symm,waiting,found,Connection.awaits_inUse awaits⟩

end Results

end NodejsPool.Pool.Connections
