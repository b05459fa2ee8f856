import NodejsPool.Common.Entries
import NodejsPool.Common.Utf8
import NodejsPool.Async.Machine
import NodejsPool.Payments.Json

/-! How a stratum server cuts what its sockets receive into lines, and the buffers of the large frames it
lets the miners of one coin send. -/
namespace NodejsPool.Pool.LineFraming
open Async Entries

open Payments (Json isSpace)

def STANDARD_PACKET_BYTES : ℕ := 100 * 1024

def LARGE_FRAME_MAX_BYTES : ℕ := 12 * 1024 * 1024

def LARGE_FRAME_SOURCE_MAX_BYTES : ℕ := 16 * 1024 * 1024

def LARGE_FRAME_BUFFERED_MAX_BYTES : ℕ := 32 * 1024 * 1024

def LARGE_FRAME_MAX_STRUCTURE_TOKENS : ℕ := 64

abbrev Text := List Char

def byteLength (text : Text) : ℕ := (Utf8.encode text).length

def split : Text → List Text
  | [] => [[]]
  | char::text =>
    if char = '\n' then []::split text
    else match split text with
      | [] => [[char]]
      | line::lines => (char::line)::lines

/-- The scan of `hasBoundedLargeFrameStructure`. -/
structure Scan where
  escaped : Bool
  quoted : Bool
  tokens : ℕ

def isToken (char : Char) : Bool := char.toNat ∈ [44,58,91,93,123,125]

def scanChar (scan : Scan) (char : Char) : Scan :=
  if scan.quoted then
    if scan.escaped then { scan with escaped := false }
    else if char.toNat = 92 then { scan with escaped := true }
    else if char.toNat = 34 then { scan with quoted := false }
    else scan
  else if char.toNat = 34 then { scan with quoted := true }
  else if isToken char then { scan with tokens := scan.tokens + 1 }
  else scan

def hasBoundedLargeFrameStructure (message : Text) : Bool :=
  (message.foldl scanChar ⟨false,false,0⟩).tokens ≤ LARGE_FRAME_MAX_STRUCTURE_TOKENS

/-- `message.trim() === ""`. -/
def isBlank (message : Text) : Bool := message.all isSpace

def unitLength (text : String) : ℕ := (text.toList.map fun char => if char.toNat < 0x10000 then 1 else 2).sum

def isValidRpcId : Option Json → Bool
  | some (.str value) => 0 < unitLength value && unitLength value ≤ 128
  | some (.num _) => true
  | _ => false

def isValidJobId : Option Json → Bool
  | some (.str value) => 0 < unitLength value && unitLength value ≤ 256
  | some (.num value) => value.den = 1 && value.num.natAbs < 2 ^ 53
  | _ => false

def isPearlSubmitRequest (value : Json) : Bool :=
  (match value.field "method" with
    | some (.str method) => method = "mining.submit"
    | _ => false) &&
  match value.record "params" with
  | none => false
  | some params => isValidRpcId (value.field "id") && isValidJobId (params.field "job_id") &&
      match params.field "plain_proof" with
      | some (.str proof) => 0 < unitLength proof
      | _ => false

structure Reaction where
  finalizing : Bool
  destroyed : Bool
  thrown : Bool

def Reaction.stops (reaction : Reaction) : Bool := reaction.thrown || reaction.finalizing || reaction.destroyed

/-- The text a message is parsed from, the coins of a socket's miner's jobs, and `handleMessage`. -/
structure Handlers (Pool : Type) where
  parse : Text → Option Json
  validJobs : Pool → ℕ → Option (List String)
  handleMessage : Pool → ℕ → Json → Pool × Reaction

/-- `handled` and `oversized` remember which messages reached their handler and that the socket was
destroyed for its size; no step reads them. -/
structure Socket where
  largeFrameSource : String
  decoder : Utf8.Decoder
  dataBuffer : Text
  dataBufferBytes : ℕ
  largeFrame : Bool
  accountedLargeFrameBytes : ℕ
  largeFrameTimer : Bool
  finalizing : Bool
  destroyed : Bool
  closed : Bool
  handled : List Json
  oversized : Bool

structure Totals where
  largeFrameBufferedBytes : ℕ
  bySource : String → Option ℕ

def releaseLargeFrameBuffer (totals : Totals) (socket : Socket) : Totals × Socket :=
  let sourceBytes := (totals.bySource socket.largeFrameSource).getD 0 - socket.accountedLargeFrameBytes
  (⟨totals.largeFrameBufferedBytes - socket.accountedLargeFrameBytes,
      Function.update totals.bySource socket.largeFrameSource (if sourceBytes = 0 then none else some sourceBytes)⟩,
    { socket with largeFrameTimer := false, accountedLargeFrameBytes := 0 })

def accountLargeFrameBuffer (totals : Totals) (socket : Socket) : Option (Totals × Socket) :=
  if socket.dataBufferBytes ≤ socket.accountedLargeFrameBytes then some (totals,socket)
  else
    let additionalBytes := socket.dataBufferBytes - socket.accountedLargeFrameBytes
    let sourceBytes := (totals.bySource socket.largeFrameSource).getD 0
    if LARGE_FRAME_SOURCE_MAX_BYTES < sourceBytes + additionalBytes ∨
        LARGE_FRAME_BUFFERED_MAX_BYTES < totals.largeFrameBufferedBytes + additionalBytes then none
    else some (⟨totals.largeFrameBufferedBytes + additionalBytes,
        Function.update totals.bySource socket.largeFrameSource (some (sourceBytes + additionalBytes))⟩,
      { socket with accountedLargeFrameBytes := socket.dataBufferBytes })

def discard (oversized : Bool) (totals : Totals) (socket : Socket) : Totals × Socket :=
  let (totals,socket) := releaseLargeFrameBuffer totals { socket with dataBuffer := [], dataBufferBytes := 0 }
  (totals,{ socket with destroyed := true, oversized := socket.oversized || oversized })

section Handling

variable {Pool : Type} (handlers : Handlers Pool)

def hasPearlJob (pool : Pool) (i : ℕ) : Bool := (handlers.validJobs pool i).any fun jobs => "PRL" ∈ jobs

def handleMessages (i : ℕ) (largeFrame : Bool) : List Text → Pool → Socket → Pool × Socket
  | [],pool,socket => (pool,socket)
  | message::messages,pool,socket =>
    if isBlank message then handleMessages i largeFrame messages pool socket
    else if largeFrame && !hasBoundedLargeFrameStructure message then (pool,{ socket with destroyed := true })
    else match handlers.parse message with
      | none => (pool,{ socket with destroyed := true })
      | some request =>
        if STANDARD_PACKET_BYTES < byteLength message &&
            (!hasPearlJob handlers pool i || !isPearlSubmitRequest request)
            then (pool,{ socket with destroyed := true })
        else
          let answer := handlers.handleMessage pool i request
          let socket := { socket with
            handled := socket.handled ++ [request]
            finalizing := socket.finalizing || answer.2.finalizing
            destroyed := socket.destroyed || answer.2.destroyed || answer.2.thrown }
          if answer.2.thrown || socket.finalizing then (answer.1,socket)
          else handleMessages i largeFrame messages answer.1 socket

/-- The complete lines are handled, also on a socket that they destroy. A buffer that ends with a line
leaves nothing. -/
def cut (i : ℕ) (pool : Pool) (totals : Totals) (socket : Socket) : Pool × Totals × Socket :=
  let messages := split socket.dataBuffer
  let (pool,socket) := handleMessages handlers i socket.largeFrame messages.dropLast pool socket
  let (totals,socket) := releaseLargeFrameBuffer totals socket
  let incomplete := messages.getLastD []
  let socket := { socket with dataBuffer := incomplete, dataBufferBytes := byteLength incomplete, largeFrame := false }
  if socket.dataBufferBytes ≤ STANDARD_PACKET_BYTES then (pool,totals,socket)
  else
    let socket := { socket with largeFrame := hasPearlJob handlers pool i }
    if !socket.largeFrame || LARGE_FRAME_MAX_BYTES < socket.dataBufferBytes then (pool,discard true totals socket)
    else match accountLargeFrameBuffer totals socket with
      | none => (pool,discard true totals socket)
      | some (totals,socket) => (pool,totals,{ socket with largeFrameTimer := true })

def detectLargeFrame (i : ℕ) (pool : Pool) (socket : Socket) : Socket :=
  if STANDARD_PACKET_BYTES < socket.dataBufferBytes && !socket.largeFrame then
    { socket with largeFrame := hasPearlJob handlers pool i }
  else socket

def frameLimit (socket : Socket) : ℕ := if socket.largeFrame then LARGE_FRAME_MAX_BYTES else STANDARD_PACKET_BYTES

def bound (i : ℕ) (breaks : Bool) (pool : Pool) (totals : Totals) (socket : Socket) : Pool × Totals × Socket :=
  match if socket.largeFrame then accountLargeFrameBuffer totals socket else some (totals,socket) with
  | none => (pool,discard true totals socket)
  | some (totals,socket) =>
    let socket := { socket with largeFrameTimer := socket.largeFrameTimer || socket.largeFrame }
    if frameLimit socket < socket.dataBufferBytes then (pool,discard true totals socket)
    else if breaks then cut handlers i pool totals socket
    else (pool,totals,socket)

def Socket.append (socket : Socket) (text : Text) : Socket := { socket with
  dataBuffer := socket.dataBuffer ++ text
  dataBufferBytes := socket.dataBufferBytes + byteLength text }

def onData (i : ℕ) (text : Text) (pool : Pool) (totals : Totals) (socket : Socket) : Pool × Totals × Socket :=
  if socket.finalizing then (pool,totals,{ socket with destroyed := true })
  else bound handlers i ('\n' ∈ text) pool totals (detectLargeFrame handlers i pool (socket.append text))

structure World (Pool : Type) where
  sockets : List Socket
  totals : Totals
  pool : Pool

/-- A socket that is destroyed receives nothing any more, and bytes that make no character are no data. -/
def receive (i : ℕ) (world : World Pool) (chunk : List UInt8) : World Pool :=
  match world.sockets[i]? with
  | none => world
  | some socket =>
    if socket.destroyed then world
    else
      let (text,decoder) := Utf8.write socket.decoder chunk
      let socket := { socket with decoder }
      let (pool,totals,socket) :=
        if text = [] then (world.pool,world.totals,socket) else onData handlers i text world.pool world.totals socket
      ⟨world.sockets.set i socket,totals,pool⟩

def newSocket (largeFrameSource : String) : Socket :=
  ⟨largeFrameSource,Utf8.idle,[],0,false,0,false,false,false,false,[],false⟩

/-- `pool` and `stop` stand for all else that changes the pool, finalizes a socket or destroys it. -/
inductive Label (Pool : Type) where
  | connect (largeFrameSource : String)
  | data (i : ℕ) (chunk : List UInt8)
  | timeout (i : ℕ)
  | close (i : ℕ)
  | pool (pool : Pool)
  | stop (i : ℕ) (finalizing : Bool)

def updateSocket (i : ℕ) (change : Totals → Socket → Totals × Socket) (world : World Pool) : World Pool :=
  match world.sockets[i]? with
  | none => world
  | some socket =>
    let (totals,socket) := change world.totals socket
    { world with sockets := world.sockets.set i socket, totals }

def step (world : World Pool) : Label Pool → Option (World Pool)
  | .connect largeFrameSource => some { world with sockets := world.sockets ++ [newSocket largeFrameSource] }
  | .data i chunk => some (receive handlers i world chunk)
  | .timeout i =>
    if (world.sockets[i]?).any Socket.largeFrameTimer then some (updateSocket i (discard false) world) else none
  | .close i => some (updateSocket i (fun totals socket =>
      let (totals,socket) := releaseLargeFrameBuffer totals socket
      (totals,{ socket with destroyed := true, closed := true })) world)
  | .pool pool => some { world with pool }
  | .stop i finalizing => some (updateSocket i (fun totals socket =>
      (totals,{ socket with finalizing := socket.finalizing || finalizing, destroyed := socket.destroyed ||
        !finalizing })) world)

def server : Machine (World Pool) (Label Pool) where
  initial world := world.sockets = [] ∧ world.totals = ⟨0,fun _ => none⟩
  step := step handlers

end Handling
end NodejsPool.Pool.LineFraming
