import NodejsPool.Common.Counters
import NodejsPool.Pool.LineFraming

/-! The totals of the large frames are those of the sockets that are open. -/
namespace NodejsPool.Pool.LineFraming
open Async Counters

section Shares

variable {totals : Totals} {socket : Socket} {rest : ℕ} {others : String → ℕ} {next : Totals × Socket}

def Socket.share (socket : Socket) (source : String) : ℕ :=
  if socket.largeFrameSource = source then socket.accountedLargeFrameBytes else 0

structure Book (totals : Totals) (socket : Socket) (rest : ℕ) (others : String → ℕ) : Prop where
  total : totals.largeFrameBufferedBytes = rest + socket.accountedLargeFrameBytes
  sources : Tallies totals.bySource fun source => others source + socket.share source
  totalLimit : totals.largeFrameBufferedBytes ≤ LARGE_FRAME_BUFFERED_MAX_BYTES
  sourceLimit : ∀ source, others source + socket.share source ≤ LARGE_FRAME_SOURCE_MAX_BYTES
  closed : socket.closed = true → socket.accountedLargeFrameBytes = 0 ∧ socket.destroyed = true

def Keeps (totals : Totals) (socket : Socket) (next : Totals × Socket) : Prop :=
  ∀ rest others, Book totals socket rest others → Book next.1 next.2 rest others

theorem Keeps.trans {last : Totals × Socket} (first : Keeps totals socket next) (second : Keeps next.1 next.2 last) :
    Keeps totals socket last := fun rest others book => second rest others (first rest others book)

theorem keeps_of_same {other : Socket} (source : other.largeFrameSource = socket.largeFrameSource)
    (bytes : other.accountedLargeFrameBytes = socket.accountedLargeFrameBytes) (closed : other.closed = socket.closed)
    (destroyed : socket.destroyed = true → other.destroyed = true) : Keeps totals socket (totals,other) := by
  intro rest others book
  have shares : other.share = socket.share := by
    funext key
    rw [Socket.share,Socket.share,source,bytes]
  refine ⟨?_,?_,book.totalLimit,?_,fun shut => ?_⟩
  · rw [bytes]
    exact book.total
  · rw [shares]
    exact book.sources
  · rw [shares]
    exact book.sourceLimit
  · obtain ⟨none,gone⟩ := book.closed (closed.symm.trans shut)
    exact ⟨bytes.trans none,destroyed gone⟩

theorem Book.account (book : Book totals socket rest others) (bytes : ℕ)
    (room : rest + bytes ≤ LARGE_FRAME_BUFFERED_MAX_BYTES)
    (sourceRoom : others socket.largeFrameSource + bytes ≤ LARGE_FRAME_SOURCE_MAX_BYTES)
    (closed : socket.closed = true → bytes = 0) :
    Book ⟨rest + bytes,Function.update totals.bySource socket.largeFrameSource
        (if others socket.largeFrameSource + bytes = 0 then none else some (others socket.largeFrameSource + bytes))⟩
      { socket with accountedLargeFrameBytes := bytes } rest others := by
  have shares : (fun source => others source + ({ socket with accountedLargeFrameBytes := bytes } :
    Socket).share source) =
      Function.update (fun source => others source + socket.share source) socket.largeFrameSource
        (others socket.largeFrameSource + bytes) := by
    funext source
    by_cases same : source = socket.largeFrameSource
    · subst same
      simp only [Socket.share,if_true,Function.update_self]
    · simp only [Socket.share,if_neg (Ne.symm same),Function.update_of_ne same]
  refine ⟨rfl,?_,room,fun source => ?_,fun shut => ⟨closed shut,(book.closed shut).2⟩⟩
  · rw [shares]
    exact book.sources.replace _ _
  · rw [congrFun shares source]
    by_cases same : source = socket.largeFrameSource
    · subst same
      rw [Function.update_self]
      exact sourceRoom
    · rw [Function.update_of_ne same]
      exact book.sourceLimit source

theorem Book.here (book : Book totals socket rest others) : (totals.bySource socket.largeFrameSource).getD 0 =
    others socket.largeFrameSource + socket.accountedLargeFrameBytes := by
  rw [book.sources.getD,Socket.share,if_pos rfl]

theorem release_keeps (totals : Totals) (socket : Socket) :
    Keeps totals socket (releaseLargeFrameBuffer totals socket) := by
  intro rest others book
  have total := book.total
  have limit := book.totalLimit
  have sourceLimit := book.sourceLimit socket.largeFrameSource
  have released := book.account 0 (by omega) (by omega) fun _ => rfl
  simp only [releaseLargeFrameBuffer,book.here,total,Nat.add_sub_cancel]
  exact ⟨released.total,released.sources,released.totalLimit,released.sourceLimit,released.closed⟩

theorem account_closed (accounted : accountLargeFrameBuffer totals socket = some next) :
    next.2.closed = socket.closed := by
  unfold accountLargeFrameBuffer at accounted
  split at accounted
  · cases accounted
    rfl
  · obtain ⟨_,⟨⟩⟩ := Option.ite_none_left_eq_some.mp accounted
    rfl

theorem account_keeps (opened : socket.closed = false)
    (accounted : accountLargeFrameBuffer totals socket = some next) : Keeps totals socket next := by
  intro rest others book
  unfold accountLargeFrameBuffer at accounted
  split at accounted
  · cases accounted
    exact book
  next more =>
    obtain ⟨fits,⟨⟩⟩ := Option.ite_none_left_eq_some.mp accounted
    have total := book.total
    rw [book.here] at fits ⊢
    have raised := book.account socket.dataBufferBytes (by omega) (by omega) fun shut => by
      cases opened.symm.trans shut
    rw [if_neg (by omega)] at raised
    have bytes : others socket.largeFrameSource + socket.accountedLargeFrameBytes +
        (socket.dataBufferBytes - socket.accountedLargeFrameBytes) = others socket.largeFrameSource +
        socket.dataBufferBytes := by
      omega
    have sum : totals.largeFrameBufferedBytes + (socket.dataBufferBytes - socket.accountedLargeFrameBytes) =
        rest + socket.dataBufferBytes := by omega
    rw [bytes,sum]
    exact raised

theorem discard_keeps (oversized : Bool) (totals : Totals) (socket : Socket) :
    Keeps totals socket (discard oversized totals socket) := by
  have emptied : Keeps totals socket (totals,{ socket with dataBuffer := [], dataBufferBytes := 0 }) :=
    keeps_of_same rfl rfl rfl id
  refine (emptied.trans (release_keeps totals _)).trans ?_
  exact keeps_of_same rfl rfl rfl fun _ => rfl

end Shares

section Steps

variable {Pool : Type} (handlers : Handlers Pool) {socket : Socket} {i : ℕ} {sockets : List Socket}

theorem handleMessages_frame (i : ℕ) (largeFrame : Bool) (messages : List Text) (pool : Pool) (socket : Socket) :
    ∃ finalizing destroyed handled, (handleMessages handlers i largeFrame messages pool socket).2 =
      { socket with finalizing, destroyed, handled } ∧
      (socket.destroyed = true → destroyed = true) ∧ socket.handled.length ≤ handled.length := by
  induction messages generalizing pool socket with
  | nil => exact ⟨_,_,_,rfl,id,le_rfl⟩
  | cons message messages ih =>
    rw [handleMessages]
    split
    · exact ih pool socket
    · split
      · exact ⟨_,_,_,rfl,fun _ => rfl,le_rfl⟩
      · split
        · exact ⟨_,_,_,rfl,fun _ => rfl,le_rfl⟩
        · split
          · exact ⟨_,_,_,rfl,fun _ => rfl,le_rfl⟩
          · dsimp only
            split
            · exact ⟨_,_,_,rfl,fun gone => by rw [gone,Bool.true_or,Bool.true_or],by simp⟩
            · obtain ⟨finalizing,destroyed,handled,same,still,grows⟩ := ih _ _
              refine ⟨finalizing,destroyed,handled,same,fun gone => still ?_,.trans (by simp) grows⟩
              rw [gone,Bool.true_or,Bool.true_or]

theorem detectLargeFrame_frame (i : ℕ) (pool : Pool) (socket : Socket) :
    ∃ largeFrame, detectLargeFrame handlers i pool socket = { socket with largeFrame } := by
  unfold detectLargeFrame
  split <;> exact ⟨_,rfl⟩

private theorem handleMessages_keeps (i : ℕ) (largeFrame : Bool) (messages : List Text) (pool : Pool) (totals : Totals)
    (socket : Socket) :
    Keeps totals socket (totals,(handleMessages handlers i largeFrame messages pool socket).2) := by
  obtain ⟨finalizing,destroyed,handled,same,still,_⟩ := handleMessages_frame handlers i largeFrame messages pool socket
  rw [same]
  exact keeps_of_same rfl rfl rfl still

private theorem cut_keeps (i : ℕ) (pool : Pool) (totals : Totals) (opened : socket.closed = false) :
    Keeps totals socket (cut handlers i pool totals socket).2 := by
  have handled := handleMessages_keeps handlers i socket.largeFrame (split socket.dataBuffer).dropLast
    pool totals socket
  obtain ⟨_,_,_,same,_⟩ := handleMessages_frame handlers i socket.largeFrame (split socket.dataBuffer).dropLast pool
    socket
  have released := handled.trans (release_keeps totals _)
  have shut : (releaseLargeFrameBuffer totals
      (handleMessages handlers i socket.largeFrame (split socket.dataBuffer).dropLast pool socket).2).2.closed =
      false := by
    rw [same]
    exact opened
  simp only [cut]
  generalize handleMessages handlers i socket.largeFrame (split socket.dataBuffer).dropLast pool socket = next at *
  let incomplete := (split socket.dataBuffer).getLastD []
  have kept (largeFrame : Bool) : Keeps totals socket ((releaseLargeFrameBuffer totals next.2).1,
      { (releaseLargeFrameBuffer totals next.2).2 with
        dataBuffer := incomplete, dataBufferBytes := byteLength incomplete, largeFrame }) :=
    released.trans (keeps_of_same rfl rfl rfl id)
  split
  · exact kept false
  · split
    · exact (kept _).trans (discard_keeps true _ _)
    · split
      · exact (kept _).trans (discard_keeps true _ _)
      next last accounted =>
        exact ((kept _).trans (account_keeps shut accounted)).trans (keeps_of_same rfl rfl rfl id)

private theorem bound_keeps (i : ℕ) (breaks : Bool) (pool : Pool) (totals : Totals) (opened : socket.closed = false) :
    Keeps totals socket (bound handlers i breaks pool totals socket).2 := by
  unfold bound
  split
  · exact discard_keeps true totals socket
  next counted last accounted =>
    have more : Keeps totals socket (counted,last) ∧ last.closed = false := by
      split at accounted
      · exact ⟨account_keeps opened accounted,(account_closed accounted).trans opened⟩
      · cases accounted
        exact ⟨fun _ _ => id,opened⟩
    let timed : Socket := { last with largeFrameTimer := last.largeFrameTimer || last.largeFrame }
    have waits : Keeps totals socket (counted,timed) := more.1.trans (keeps_of_same rfl rfl rfl id)
    have going : timed.closed = false := more.2
    dsimp only
    split
    · exact waits.trans (discard_keeps true _ _)
    · split
      · exact waits.trans (cut_keeps handlers i pool counted going)
      · exact waits

theorem onData_keeps (i : ℕ) (text : Text) (pool : Pool) (totals : Totals) (opened : socket.closed = false) :
    Keeps totals socket (onData handlers i text pool totals socket).2 := by
  unfold onData
  split
  · exact keeps_of_same rfl rfl rfl fun _ => rfl
  · obtain ⟨largeFrame,detected⟩ := detectLargeFrame_frame handlers i pool (socket.append text)
    rw [detected]
    let received : Socket := { socket.append text with largeFrame }
    have kept : Keeps totals socket (totals,received) := keeps_of_same rfl rfl rfl id
    have going : received.closed = false := opened
    exact kept.trans (bound_keeps handlers i _ pool totals going)

variable {handlers} {world after : World Pool}

structure Booked (world : World Pool) : Prop where
  total : world.totals.largeFrameBufferedBytes = (world.sockets.map Socket.accountedLargeFrameBytes).sum
  sources : Tallies world.totals.bySource fun source => (world.sockets.map fun socket => socket.share source).sum
  totalLimit : world.totals.largeFrameBufferedBytes ≤ LARGE_FRAME_BUFFERED_MAX_BYTES
  sourceLimit : ∀ source, (world.sockets.map fun socket => socket.share source).sum ≤ LARGE_FRAME_SOURCE_MAX_BYTES
  closed : ∀ socket ∈ world.sockets, socket.closed = true → socket.accountedLargeFrameBytes = 0 ∧
    socket.destroyed = true

def rest (i : ℕ) (sockets : List Socket) (f : Socket → ℕ) : ℕ :=
  ((sockets.take i).map f).sum + ((sockets.drop (i + 1)).map f).sum

theorem sum_set (found : sockets[i]? = some socket) (f : Socket → ℕ)
    (next : Socket) : ((sockets.set i next).map f).sum = rest i sockets f + f next := by
  obtain ⟨inside,_⟩ := List.getElem?_eq_some_iff.mp found
  rw [List.map_set,List.sum_set,List.length_map,if_pos inside,rest,List.map_take,List.map_drop]
  omega

private theorem sum_rest (found : sockets[i]? = some socket) (f : Socket → ℕ) :
    (sockets.map f).sum = rest i sockets f + f socket := by
  obtain ⟨_,here⟩ := List.getElem?_eq_some_iff.mp found
  rw [← sum_set found,← here,List.set_getElem_self]

theorem Booked.set (booked : Booked world) (found : world.sockets[i]? = some socket)
    {next : Totals × Socket} (keeps : Keeps world.totals socket next) (pool : Pool) :
    Booked (⟨world.sockets.set i next.2,next.1,pool⟩ : World Pool) := by
  let others (source : String) : ℕ := rest i world.sockets fun socket => socket.share source
  have shares (source : String) : (world.sockets.map fun socket => socket.share source).sum = others source +
      socket.share source :=
    sum_rest found _
  have book : Book world.totals socket (rest i world.sockets Socket.accountedLargeFrameBytes) others := by
    refine ⟨booked.total.trans (sum_rest found _),?_,booked.totalLimit,?_,?_⟩
    · simp only [← shares]
      exact booked.sources
    · intro source
      rw [← shares]
      exact booked.sourceLimit source
    · exact booked.closed socket (List.mem_of_getElem? found)
  have kept := keeps _ _ book
  have after (source : String) : ((world.sockets.set i next.2).map fun socket => socket.share source).sum =
      others source + next.2.share source := sum_set found _ next.2
  refine ⟨kept.total.trans (sum_set found _ next.2).symm,?_,kept.totalLimit,?_,?_⟩
  · simp only [after]
    exact kept.sources
  · intro source
    rw [after]
    exact kept.sourceLimit source
  · intro other among shut
    rcases List.mem_or_eq_of_mem_set among with old | rfl
    · exact booked.closed other old shut
    · exact kept.closed shut

private theorem booked_updateSocket (booked : Booked world) (i : ℕ) {change : Totals → Socket → Totals × Socket}
    (keeps : ∀ totals socket, Keeps totals socket (change totals socket)) : Booked (updateSocket i change world) := by
  unfold updateSocket
  split
  · exact booked
  next socket found => exact booked.set found (keeps _ _) world.pool

private theorem booked_receive (booked : Booked world) (i : ℕ) (chunk : List UInt8) :
    Booked (receive handlers i world chunk) := by
  unfold receive
  split
  · exact booked
  next socket found =>
    split
    · exact booked
    next running =>
      have opened : socket.closed = false := by
        by_contra shut
        exact running (booked.closed socket (List.mem_of_getElem? found) (Bool.eq_true_of_not_eq_false shut)).2
      let waiting : Socket := { socket with decoder := (Utf8.write socket.decoder chunk).2 }
      have kept : Keeps world.totals socket (world.totals,waiting) := keeps_of_same rfl rfl rfl id
      dsimp only
      split
      · exact booked.set found kept world.pool
      · have going : waiting.closed = false := opened
        exact booked.set found (kept.trans (onData_keeps handlers i _ world.pool world.totals going)) _

theorem booked_step {label : Label Pool} (booked : Booked world) (moved : step handlers world label = some after) :
    Booked after := by
  cases label with
  | connect largeFrameSource =>
    cases moved
    refine ⟨?_,?_,booked.totalLimit,?_,?_⟩
    · simp [booked.total,newSocket]
    · simpa [newSocket,Socket.share] using booked.sources
    · simpa [newSocket,Socket.share] using booked.sourceLimit
    · intro socket among shut
      rcases List.mem_append.mp among with old | new
      · exact booked.closed socket old shut
      · cases List.mem_singleton.mp new
        cases shut
  | data i chunk =>
    cases moved
    exact booked_receive booked i chunk
  | timeout i =>
    obtain ⟨_,⟨⟩⟩ := Option.ite_none_right_eq_some.mp moved
    exact booked_updateSocket booked i fun totals socket => discard_keeps false totals socket
  | close i =>
    cases moved
    refine booked_updateSocket booked i fun totals socket rest others book => ?_
    have released := release_keeps totals socket rest others book
    exact ⟨released.total,released.sources,released.totalLimit,released.sourceLimit,fun _ => ⟨rfl,rfl⟩⟩
  | pool pool =>
    cases moved
    exact ⟨booked.total,booked.sources,booked.totalLimit,booked.sourceLimit,booked.closed⟩
  | stop i finalizing =>
    cases moved
    refine booked_updateSocket booked i fun totals socket => keeps_of_same rfl rfl rfl fun gone => ?_
    rw [gone,Bool.true_or]

theorem booked_of_reachable (reachable : (server handlers).Reachable world) : Booked world := by
  refine reachable.invariant Booked ?_ fun _ _ _ booked _ moved => booked_step booked moved
  rintro start ⟨sockets,totals⟩
  refine ⟨?_,?_,?_,?_,?_⟩ <;> simp [sockets,totals,Tallies]

/-- The totals are those of the sockets that are open, within their limits, and nothing once all are closed. -/
structure Accounted (world : World Pool) : Prop where
  total : world.totals.largeFrameBufferedBytes =
    ((world.sockets.filter fun socket => !socket.closed).map Socket.accountedLargeFrameBytes).sum
  sources : ∀ source, (world.totals.bySource source).getD 0 =
    ((world.sockets.filter fun socket => !socket.closed && socket.largeFrameSource = source).map
      Socket.accountedLargeFrameBytes).sum
  totalLimit : world.totals.largeFrameBufferedBytes ≤ LARGE_FRAME_BUFFERED_MAX_BYTES
  sourceLimit : ∀ source, (world.totals.bySource source).getD 0 ≤ LARGE_FRAME_SOURCE_MAX_BYTES
  drained : (∀ socket ∈ world.sockets, socket.closed = true) → world.totals = ⟨0,fun _ => none⟩

private theorem sum_filter {chosen : Socket → Bool} {f g : Socket → ℕ}
    (same : ∀ socket ∈ sockets, chosen socket = true → f socket = g socket)
    (none : ∀ socket ∈ sockets, chosen socket = false → f socket = 0) :
    (sockets.map f).sum = ((sockets.filter chosen).map g).sum := by
  induction sockets with
  | nil => rfl
  | cons socket sockets ih =>
    obtain ⟨sameHere,same⟩ := List.forall_mem_cons.mp same
    obtain ⟨noneHere,none⟩ := List.forall_mem_cons.mp none
    rw [List.map_cons,List.sum_cons,ih same none]
    cases keeps : chosen socket with
    | false => rw [List.filter_cons_of_neg (by simp [keeps]),noneHere keeps,Nat.zero_add]
    | true => rw [List.filter_cons_of_pos keeps,List.map_cons,List.sum_cons,sameHere keeps]

theorem Booked.accounted (booked : Booked world) : Accounted world := by
  have sources (source : String) := booked.sources.getD source
  refine ⟨?_,fun source => ?_,booked.totalLimit,fun source => ?_,fun shut => ?_⟩
  · rw [booked.total]
    refine sum_filter (fun _ _ _ => rfl) fun socket among chosen => ?_
    exact (booked.closed socket among (by simpa using chosen)).1
  · rw [sources]
    refine sum_filter (fun socket _ chosen => ?_) fun socket among chosen => ?_
    · simp only [Bool.and_eq_true,decide_eq_true_eq] at chosen
      exact if_pos chosen.2
    · unfold Socket.share
      split
      next same =>
        refine (booked.closed socket among ?_).1
        simpa [same] using chosen
      · rfl
  · rw [sources]
    exact booked.sourceLimit source
  · have empty (f : Socket → ℕ) (none : ∀ socket ∈ world.sockets, f socket = 0) : (world.sockets.map f).sum = 0 :=
      List.sum_eq_zero fun value among => by
        obtain ⟨socket,member,rfl⟩ := List.mem_map.mp among
        exact none socket member
    have gone (socket : Socket) (among : socket ∈ world.sockets) := (booked.closed socket among (shut socket among)).1
    have total : world.totals.largeFrameBufferedBytes = 0 := booked.total.trans (empty _ gone)
    have keys : world.totals.bySource = fun _ => none := by
      funext source
      rw [booked.sources source]
      refine if_pos (empty _ fun socket among => ?_)
      unfold Socket.share
      split
      · exact gone socket among
      · rfl
    calc world.totals = ⟨world.totals.largeFrameBufferedBytes,world.totals.bySource⟩ := rfl
      _ = ⟨0,fun _ => none⟩ := by rw [total,keys]

end Steps
end NodejsPool.Pool.LineFraming
