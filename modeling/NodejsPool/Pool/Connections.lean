import NodejsPool.Async.Machine
import NodejsPool.Common.Counters

/-! The pool's connections: a socket is counted for its address and subnet while it holds a
reservation. On a TLS port that is made for the raw socket, and the TLS socket that the handshake
ends in finds it by the addresses of the two ends. -/
namespace NodejsPool.Pool.Connections
open Async

section Addresses

structure Address where
  remoteAddress : Option String
  remoteFamily : Option String
  remotePort : Option ℕ
  localAddress : Option String
  localFamily : Option String
  localPort : Option ℕ

structure TupleKey where
  remoteFamily : String
  remoteAddress : String
  remotePort : ℕ
  localFamily : String
  localAddress : String
  localPort : ℕ
  deriving DecidableEq

def getSocketTupleKey (socket : Address) : Option TupleKey := do
  let remoteAddress ← socket.remoteAddress
  let localAddress ← socket.localAddress
  let remoteFamily ← socket.remoteFamily
  let localFamily ← socket.localFamily
  let remotePort ← socket.remotePort
  let localPort ← socket.localPort
  some ⟨remoteFamily,remoteAddress.toLower,remotePort,localFamily,localAddress.toLower,localPort⟩

def normalizeRemoteAddress (ip : Option String) : String :=
  match ip with
  | none => ""
  | some ip =>
    let normalized := ip.toLower
    if "::ffff:".toList.isPrefixOf normalized.toList then String.ofList (normalized.toList.drop 7)
    else if normalized = "::1" then "127.0.0.1"
    else normalized

def isLoopbackAddress (ip : Option String) : Bool := normalizeRemoteAddress ip = "127.0.0.1"

def isDigit (char : Char) : Bool := '0' ≤ char && char ≤ '9'

/-- The parts of a text that `IPV4_RE` accepts. -/
def ipv4Parts (text : String) : Option (List (List Char)) :=
  let parts := text.toList.splitOn '.'
  if parts.length = 4 ∧ ∀ part ∈ parts, (part.length = 1 ∨ part.length = 2 ∨ part.length = 3) ∧
    part.all isDigit = true then
    some parts
  else none

def getSubnet24 (ip : Option String) : String :=
  let normalized := normalizeRemoteAddress ip
  match ipv4Parts normalized with
  | none => normalized
  | some parts => String.ofList ((parts.take 3).flatMap fun part => part ++ ['.']) ++ "0/24"

end Addresses

section Model

structure SecurityConfig where
  maxConnectionsPerIP : ℕ
  maxConnectionsPerSubnet : ℕ

structure Reservation where
  normalizedIp : String
  subnet : String
  tlsTupleKey : Option TupleKey
  active : Bool

/-- The socket of a TLS handshake. The handshake ends once, in a TLS connection or in an error; it
is handed over when its end finds the tuple of the socket. A served one has taken a reservation. -/
structure TlsSocket where
  destroyed : Bool
  closed : Bool
  concluded : Bool
  handedOver : Bool
  served : Option ℕ

structure Connection where
  address : Address
  reservation : Option Reservation
  closed : Bool
  tlsSocket : Option TlsSocket

/-- A reservation goes by the number of its raw socket. `releases` lists those that gave their
counts back. -/
structure State where
  activeConnectionsByIP : String → Option ℕ
  activeConnectionsBySubnet : String → Option ℕ
  bannedTmpIPs : String → Bool
  ipWhitelist : String → Bool
  pendingTlsReservationsByTuple : TupleKey → Option ℕ
  connections : List Connection
  releases : List ℕ

def incrementConnectionCount (target : String → Option ℕ) (key : String) : ℕ × (String → Option ℕ) :=
  if key = "" then (0,target) else Counters.increment target key

def decrementConnectionCount (target : String → Option ℕ) (key : String) : String → Option ℕ :=
  if key = "" then target else Counters.decrement target key

def takeTlsReservation (s : State) (socket : Address) : Option ℕ × State :=
  match getSocketTupleKey socket with
  | none => (none,s)
  | some tupleKey =>
    match s.pendingTlsReservationsByTuple tupleKey with
    | none => (none,s)
    | some reservation => (some reservation,{s with
        pendingTlsReservationsByTuple := Function.update s.pendingTlsReservationsByTuple tupleKey none})

def State.banned (s : State) (ip : String) : Bool := s.bannedTmpIPs ip && !s.ipWhitelist ip

def countConnection (config : SecurityConfig) (s : State) (ip subnet : String) : Bool × State :=
  let (ipCount,byIp) := incrementConnectionCount s.activeConnectionsByIP ip
  if config.maxConnectionsPerIP < ipCount then
    (false,{s with activeConnectionsByIP := decrementConnectionCount byIp ip})
  else
    let (subnetCount,bySubnet) := incrementConnectionCount s.activeConnectionsBySubnet subnet
    if config.maxConnectionsPerSubnet < subnetCount then
      (false,{s with
        activeConnectionsByIP := decrementConnectionCount byIp ip
        activeConnectionsBySubnet := decrementConnectionCount bySubnet subnet})
    else (true,{s with activeConnectionsByIP := byIp, activeConnectionsBySubnet := bySubnet})

/-- `socket` is the next raw socket. Its reservation waits under the tuple on a TLS port. -/
def reserveConnection (config : SecurityConfig) (s : State) (socket : Address) (tlsTupleKey : Option TupleKey) :
    Option Reservation × State :=
  let normalizedIp := normalizeRemoteAddress socket.remoteAddress
  if !isLoopbackAddress (some normalizedIp) && s.banned normalizedIp then (none,s)
  else if (tlsTupleKey.bind s.pendingTlsReservationsByTuple).isSome then (none,s)
  else
    let subnet := getSubnet24 (some normalizedIp)
    let (counted,next) := countConnection config s normalizedIp subnet
    if !counted then (none,next)
    else
      let reservation : Reservation := ⟨normalizedIp,subnet,tlsTupleKey,true⟩
      match tlsTupleKey with
      | none => (some reservation,next)
      | some tupleKey => (some reservation,{next with
          pendingTlsReservationsByTuple :=
            Function.update next.pendingTlsReservationsByTuple tupleKey (some s.connections.length)})

def State.setConnection (s : State) (index : ℕ) (connection : Connection) : State :=
  {s with connections := s.connections.set index connection}

def withdraw (pending : TupleKey → Option ℕ) (tlsTupleKey : Option TupleKey) (reservation : ℕ) : TupleKey → Option ℕ :=
  match tlsTupleKey with
  | none => pending
  | some tupleKey => if pending tupleKey = some reservation then Function.update pending tupleKey none else pending

def release (s : State) (index : ℕ) : State :=
  match s.connections[index]? with
  | none => s
  | some connection =>
    match connection.reservation with
    | none => s
    | some reservation =>
      if reservation.active then
        {s.setConnection index {connection with reservation := some {reservation with active := false}} with
          pendingTlsReservationsByTuple := withdraw s.pendingTlsReservationsByTuple reservation.tlsTupleKey index
          activeConnectionsByIP := decrementConnectionCount s.activeConnectionsByIP reservation.normalizedIp
          activeConnectionsBySubnet := decrementConnectionCount s.activeConnectionsBySubnet reservation.subnet
          releases := s.releases ++ [index]}
      else s

def freshTls : TlsSocket := ⟨false,false,false,false,none⟩

def State.accepted (s : State) (address : Address) (reservation : Option Reservation) (tlsSocket : Option TlsSocket) :
    State :=
  {s with connections := s.connections ++ [⟨address,reservation,false,tlsSocket⟩]}

/-- A raw socket arrives: `onTlsConnection` on a TLS port, `socketConn` on the others. -/
def accept (config : SecurityConfig) (s : State) (isTls : Bool) (address : Address) : State :=
  if isTls then
    match getSocketTupleKey address with
    | none => s.accepted address none none
    | some tupleKey =>
      let (reservation,next) := reserveConnection config s address (some tupleKey)
      next.accepted address reservation (reservation.map fun _ => freshTls)
  else
    let (reservation,next) := reserveConnection config s address none
    next.accepted address reservation none

def setTls (s : State) (index : ℕ) (change : TlsSocket → TlsSocket) : State :=
  match s.connections[index]? with
  | none => s
  | some connection => s.setConnection index {connection with tlsSocket := connection.tlsSocket.map change}

/-- `socketConn` of a TLS socket. -/
def onSecureConnection (s : State) (index : ℕ) (socket : Address) : State :=
  let (reservation,next) := takeTlsReservation s socket
  let handedOver := (getSocketTupleKey socket).isSome
  match reservation with
  | none => setTls next index fun tls => {tls with concluded := true, handedOver := handedOver, destroyed := true}
  | some taken => setTls next index fun tls =>
    {tls with concluded := true, handedOver := handedOver, served := some taken}

def onTlsClientError (s : State) (index : ℕ) (socket : Address) : State :=
  let (reservation,next) := takeTlsReservation s socket
  let handedOver := (getSocketTupleKey socket).isSome
  let released := match reservation with
    | none => next
    | some taken => release next taken
  setTls released index fun tls => {tls with concluded := true, handedOver := handedOver, destroyed := true}

/-- The raw socket's `close`: its reservation is released, and the TLS socket over it is destroyed. -/
def onRawClose (s : State) (index : ℕ) : State :=
  let released := release s index
  match released.connections[index]? with
  | none => released
  | some connection => released.setConnection index {connection with
      closed := true, tlsSocket := connection.tlsSocket.map fun tls => {tls with destroyed := true}}

def onTlsClose (s : State) (index : ℕ) (served : Option ℕ) : State :=
  let released := match served with
    | none => s
    | some reservation => release s reservation
  setTls released index fun tls => {tls with closed := true}

/-- A destroyed socket has no addresses; an open TLS socket may have lost them, and otherwise has
those of its raw socket. -/
def reports (connection : Connection) (tls : TlsSocket) (socket : Address) : Bool :=
  (getSocketTupleKey socket).isNone ||
    (!tls.destroyed && getSocketTupleKey socket = getSocketTupleKey connection.address)

inductive Label where
  | accept (isTls : Bool) (address : Address)
  | secure (index : ℕ) (socket : Address)
  | clientError (index : ℕ) (socket : Address)
  | rawClose (index : ℕ)
  | tlsDestroy (index : ℕ)
  | tlsClose (index : ℕ)
  | setBans (bannedTmpIPs ipWhitelist : String → Bool)

/-- A handshake succeeds on a socket that is open, and fails, by an error or its timeout, also when
the socket is destroyed. -/
def step (config : SecurityConfig) (s : State) : Label → Option State
  | .accept isTls address => some (accept config s isTls address)
  | .secure index socket => do
    let connection ← s.connections[index]?
    let tls ← connection.tlsSocket
    if !tls.concluded && !tls.destroyed && reports connection tls socket then some (onSecureConnection s index socket)
    else none
  | .clientError index socket => do
    let connection ← s.connections[index]?
    let tls ← connection.tlsSocket
    if !tls.concluded && reports connection tls socket then some (onTlsClientError s index socket) else none
  | .rawClose index => do
    let connection ← s.connections[index]?
    if connection.closed then none else some (onRawClose s index)
  | .tlsDestroy index => do
    let connection ← s.connections[index]?
    let _ ← connection.tlsSocket
    some (setTls s index fun tls => {tls with destroyed := true})
  | .tlsClose index => do
    let connection ← s.connections[index]?
    let tls ← connection.tlsSocket
    if tls.destroyed && !tls.closed then some (onTlsClose s index tls.served) else none
  | .setBans bannedTmpIPs ipWhitelist => some {s with bannedTmpIPs := bannedTmpIPs, ipWhitelist := ipWhitelist}

def machine (config : SecurityConfig) : Machine State Label where
  initial s := ∃ bannedTmpIPs ipWhitelist,
    s = ⟨fun _ => none,fun _ => none,bannedTmpIPs,ipWhitelist,fun _ => none,[],[]⟩
  step := step config

end Model

end NodejsPool.Pool.Connections
