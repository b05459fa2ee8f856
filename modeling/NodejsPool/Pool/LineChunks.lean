import NodejsPool.Pool.LargeFrames

/-! The lines of a stream are handled alike however its bytes are split into chunks, as long as no chunk
makes the buffer too large for a line. -/
namespace NodejsPool.Pool.LineFraming
open Async
open List (append_assoc append_nil cons_append exists_cons_of_ne_nil mem_append mem_cons mem_singleton)
open Payments (Json)
open Utf8 (encode write write_encode)

section Lines

theorem byteLength_append (front back : Text) : byteLength (front ++ back) = byteLength front + byteLength back := by
  rw [byteLength,encode,List.flatMap_append,List.length_append]
  rfl

theorem split_ne_nil (text : Text) : split text ≠ [] := by
  cases text with
  | nil => nofun
  | cons char text =>
    rw [split]
    split
    · nofun
    · split <;> nofun

theorem split_whole {text : Text} (whole : '\n' ∉ text) : split text = [text] := by
  induction text with
  | nil => rfl
  | cons char text ih =>
    simp only [mem_cons,not_or] at whole
    rw [split,if_neg (Ne.symm whole.1),ih whole.2]

theorem split_append (front back : Text) :
    split (front ++ back) = (split front).dropLast ++ split ((split front).getLastD [] ++ back) := by
  induction front with
  | nil => rfl
  | cons char front ih =>
    rw [cons_append,split,split]
    by_cases breaks : char = '\n'
    · rw [if_pos breaks,if_pos breaks,ih]
      obtain ⟨line,lines,same⟩ := exists_cons_of_ne_nil (split_ne_nil front)
      rw [same]
      rfl
    · rw [if_neg breaks,if_neg breaks,ih]
      obtain ⟨line,lines,same⟩ := exists_cons_of_ne_nil (split_ne_nil front)
      rw [same]
      cases lines with
      | nil =>
        obtain ⟨first,others,other⟩ := exists_cons_of_ne_nil (split_ne_nil (line ++ back))
        simp [split,breaks,other]
      | cons next lines => rfl

theorem whole_of_mem {text line : Text} (member : line ∈ split text) : '\n' ∉ line := by
  induction text generalizing line with
  | nil =>
    cases mem_singleton.mp member
    nofun
  | cons char text ih =>
    rw [split] at member
    split at member
    · rcases mem_cons.mp member with rfl | member
      · nofun
      · exact ih member
    next apart =>
      split at member
      next none => exact absurd none (split_ne_nil text)
      next first lines same =>
        rcases mem_cons.mp member with rfl | member
        · have rest : '\n' ∉ first := ih (by rw [same]; exact List.mem_cons_self)
          simp only [mem_cons,not_or]
          exact ⟨Ne.symm apart,rest⟩
        · refine ih ?_
          rw [same]
          exact List.mem_cons_of_mem _ member

theorem lines_eq (text : Text) : (split text).dropLast ++ [(split text).getLastD []] = split text := by
  obtain ⟨line,lines,same⟩ := exists_cons_of_ne_nil (split_ne_nil text)
  rw [same,List.getLastD_eq_getLast?,List.getLast?_eq_some_getLast (List.cons_ne_nil line lines)]
  exact List.dropLast_append_getLast _

theorem last_mem (text : Text) : (split text).getLastD [] ∈ split text := by
  rw [← lines_eq text]
  simp

theorem dropLast_append (front back : Text) : (split (front ++ back)).dropLast =
    (split front).dropLast ++ (split ((split front).getLastD [] ++ back)).dropLast := by
  rw [split_append,List.dropLast_append_of_ne_nil (split_ne_nil _)]

theorem last_append (front back : Text) :
    (split (front ++ back)).getLastD [] = (split ((split front).getLastD [] ++ back)).getLastD [] := by
  rw [split_append]
  obtain ⟨line,lines,same⟩ := exists_cons_of_ne_nil (split_ne_nil ((split front).getLastD [] ++ back))
  rw [same]
  simp [List.getLast?_cons]

def Standard (text : Text) : Prop := ∀ line ∈ split text, byteLength line ≤ STANDARD_PACKET_BYTES

private theorem split_head {front : Text} (whole : '\n' ∉ front) (back : Text) :
    ∃ more lines, split (front ++ back) = (front ++ more)::lines := by
  obtain ⟨line,lines,same⟩ := exists_cons_of_ne_nil (split_ne_nil back)
  refine ⟨line,lines,?_⟩
  induction front with
  | nil => exact same
  | cons char front ih =>
    simp only [mem_cons,not_or] at whole
    rw [cons_append,split,if_neg (Ne.symm whole.1),ih whole.2]
    rfl

theorem split_line {line : Text} (whole : '\n' ∉ line) (rest : Text) :
    split (line ++ '\n'::rest) = line::split rest := by
  induction line with
  | nil => rfl
  | cons char line ih =>
    simp only [mem_cons,not_or] at whole
    rw [cons_append,split,if_neg (Ne.symm whole.1),ih whole.2]

theorem Standard.front {front back : Text} (standard : Standard (front ++ back)) : Standard front := by
  intro line member
  rw [← lines_eq front] at member
  rw [Standard,split_append] at standard
  rcases mem_append.mp member with earlier | last
  · exact standard line (List.mem_append_left _ earlier)
  · cases mem_singleton.mp last
    obtain ⟨more,lines,same⟩ := split_head (whole_of_mem (last_mem front)) back
    rw [same] at standard
    have longer := standard _ (List.mem_append_right _ List.mem_cons_self)
    rw [byteLength_append] at longer
    exact (Nat.le_add_right _ _).trans longer

end Lines

section Handling

variable {Pool : Type} (handlers : Handlers Pool) (i : ℕ)

/-- The requests of lines that come one at a time, and the pool once they are handled, unless one of
them stopped its socket. -/
def readLines : List Text → Pool → List Json × Option Pool
  | [],pool => ([],some pool)
  | message::messages,pool =>
    if isBlank message then readLines messages pool
    else match handlers.parse message with
      | none => ([],none)
      | some request =>
        let answer := handlers.handleMessage pool i request
        if answer.2.stops then ([request],none)
        else (request::(readLines messages answer.1).1,(readLines messages answer.1).2)

def isSilent (largeFrame : Bool) : List Text → Bool
  | [] => true
  | message::messages =>
    if isBlank message then isSilent largeFrame messages
    else (handlers.parse message).isNone || (largeFrame && !hasBoundedLargeFrameStructure message)

/-- No line of a large frame that would be handled is too complex, and none follows one that destroyed
its socket. -/
def isOrderly (largeFrame : Bool) : List Text → Pool → Bool
  | [],_ => true
  | message::messages,pool =>
    if isBlank message then isOrderly largeFrame messages pool
    else match handlers.parse message with
      | none => true
      | some request =>
        if largeFrame && !hasBoundedLargeFrameStructure message then false
        else
          let answer := handlers.handleMessage pool i request
          if answer.2.thrown || answer.2.finalizing then true
          else if answer.2.destroyed then isSilent handlers largeFrame messages
          else isOrderly largeFrame messages answer.1

theorem readLines_append (front back : List Text) (pool : Pool) : readLines handlers i (front ++ back) pool =
    match (readLines handlers i front pool).2 with
    | none => ((readLines handlers i front pool).1,none)
    | some last => ((readLines handlers i front pool).1 ++ (readLines handlers i back last).1,
        (readLines handlers i back last).2) := by
  induction front generalizing pool with
  | nil => rfl
  | cons message front ih =>
    rw [cons_append,readLines,readLines]
    split
    · exact ih pool
    · split
      · rfl
      · dsimp only
        split
        · rfl
        · rw [ih]
          generalize readLines handlers i front _ = read
          rcases read with ⟨requests,_ | last⟩ <;> rfl

variable {handlers i} {largeFrame : Bool} {messages : List Text} {pool : Pool} {socket : Socket} {totals : Totals}

def Short (messages : List Text) : Prop := ∀ message ∈ messages, byteLength message ≤ STANDARD_PACKET_BYTES

theorem handleMessages_cons {message : Text} (short : byteLength message ≤ STANDARD_PACKET_BYTES)
    (blank : isBlank message = false) (simple : (largeFrame && !hasBoundedLargeFrameStructure message) = false)
    {request : Json} (parsed : handlers.parse message = some request) :
    handleMessages handlers i largeFrame (message::messages) pool socket =
      let answer := handlers.handleMessage pool i request
      let socket := { socket with
        handled := socket.handled ++ [request]
        finalizing := socket.finalizing || answer.2.finalizing
        destroyed := socket.destroyed || answer.2.destroyed || answer.2.thrown }
      if answer.2.thrown || socket.finalizing then (answer.1,socket)
      else handleMessages handlers i largeFrame messages answer.1 socket := by
  have fits : (decide (STANDARD_PACKET_BYTES < byteLength message) &&
      (!hasPearlJob handlers pool i || !isPearlSubmitRequest request)) = false := by
    rw [decide_eq_false (Nat.not_lt.mpr short),Bool.false_and]
  simp only [handleMessages,blank,simple,parsed,fits,Bool.false_eq_true,if_false]

theorem handleMessages_grows (handlers : Handlers Pool) (i : ℕ) (largeFrame : Bool) (messages : List Text) (pool : Pool)
    (socket : Socket) : socket.handled.length ≤
      (handleMessages handlers i largeFrame messages pool socket).2.handled.length ∧
      (socket.destroyed = true → (handleMessages handlers i largeFrame messages pool socket).2.destroyed = true) := by
  obtain ⟨finalizing,destroyed,handled,same,still,grows⟩ :=
    handleMessages_frame handlers i largeFrame messages pool socket
  rw [same]
  exact ⟨grows,still⟩

private theorem handleMessages_silent (short : Short messages) : if isSilent handlers largeFrame messages then
      (handleMessages handlers i largeFrame messages pool socket).2.handled = socket.handled
    else socket.handled.length < (handleMessages handlers i largeFrame messages pool socket).2.handled.length := by
  induction messages with
  | nil => rfl
  | cons message messages ih =>
    obtain ⟨here,short⟩ := List.forall_mem_cons.mp short
    rw [isSilent]
    cases blank : isBlank message with
    | true =>
      rw [handleMessages,blank]
      exact ih short
    | false =>
      rw [if_neg Bool.false_ne_true]
      cases complex : largeFrame && !hasBoundedLargeFrameStructure message with
      | true =>
        rw [Bool.or_true,if_pos rfl,handleMessages,blank,complex]
        rfl
      | false =>
        rw [Bool.or_false]
        cases parsed : handlers.parse message with
        | none =>
          rw [Option.isNone_none,if_pos rfl,handleMessages,blank,complex,parsed]
          rfl
        | some request =>
          rw [Option.isNone_some,if_neg Bool.false_ne_true,handleMessages_cons here blank complex parsed]
          dsimp only
          split
          · simp
          · exact Nat.lt_of_lt_of_le (by simp) (handleMessages_grows ..).1

structure Follows (socket : Socket) (read : List Json × Option Pool) (next : Pool × Socket) : Prop where
  handled : next.2.handled = socket.handled ++ read.1
  stopped : read.2 = none → next.2.destroyed = true ∨ next.2.finalizing = true
  going : ∀ pool, read.2 = some pool → next.1 = pool ∧ next.2.destroyed = false ∧ next.2.finalizing = false

structure Strays (socket : Socket) (read : List Json × Option Pool) (next : Pool × Socket) : Prop where
  destroyed : next.2.destroyed = true
  handled : next.2.handled.length < (socket.handled ++ read.1).length ∨
    read.2 = none ∧ next.2.handled ≠ socket.handled ++ read.1

theorem append_cons (front : List Json) (request : Json) (back : List Json) :
    front ++ request::back = front ++ [request] ++ back := by
  rw [append_assoc,List.singleton_append]

theorem handleMessages_reads (short : Short messages) (going : socket.destroyed = false)
    (running : socket.finalizing = false) :
    (isOrderly handlers i largeFrame messages pool = true →
      Follows socket (readLines handlers i messages pool) (handleMessages handlers i largeFrame messages pool socket)) ∧
    (isOrderly handlers i largeFrame messages pool = false →
      Strays socket (readLines handlers i messages pool)
      (handleMessages handlers i largeFrame messages pool socket)) := by
  induction messages generalizing pool socket with
  | nil =>
    refine ⟨fun _ => ⟨(append_nil _).symm,by rintro ⟨⟩,fun last same => ?_⟩,by rintro ⟨⟩⟩
    cases same
    exact ⟨rfl,going,running⟩
  | cons message messages ih =>
    obtain ⟨here,short⟩ := List.forall_mem_cons.mp short
    rw [isOrderly,readLines]
    cases blank : isBlank message with
    | true =>
      rw [handleMessages,blank]
      exact ih short going running
    | false =>
      rw [if_neg Bool.false_ne_true,if_neg Bool.false_ne_true]
      cases parsed : handlers.parse message with
      | none =>
        have ended : handleMessages handlers i largeFrame (message::messages) pool socket =
            (pool,{ socket with destroyed := true }) := by
          rw [handleMessages,blank,parsed,if_neg Bool.false_ne_true]
          split <;> rfl
        rw [ended]
        exact ⟨fun _ => ⟨(append_nil _).symm,fun _ => .inl rfl,by simp⟩,by simp⟩
      | some request =>
        cases complex : largeFrame && !hasBoundedLargeFrameStructure message with
        | true =>
          have ended : handleMessages handlers i largeFrame (message::messages) pool socket =
              (pool,{ socket with destroyed := true }) := by
            rw [handleMessages,blank,complex]
            rfl
          rw [ended]
          refine ⟨by simp,fun _ => ⟨rfl,.inl ?_⟩⟩
          cases stops : (handlers.handleMessage pool i request).2.stops <;> simp [stops]
        | false =>
          rw [handleMessages_cons here blank complex parsed]
          dsimp only
          generalize handlers.handleMessage pool i request = answer
          obtain ⟨last,reaction⟩ := answer
          rw [running,going,Bool.false_or,Bool.false_or,if_neg Bool.false_ne_true]
          let handled : Socket := { socket with
            handled := socket.handled ++ [request]
            finalizing := reaction.finalizing
            destroyed := reaction.destroyed || reaction.thrown }
          cases ends : reaction.thrown || reaction.finalizing with
          | true =>
            have stops : reaction.stops = true := by rw [Reaction.stops,ends,Bool.true_or]
            rw [if_pos stops]
            refine ⟨fun _ => ⟨rfl,fun _ => ?_,by simp⟩,by simp⟩
            rcases Bool.or_eq_true_iff.mp ends with thrown | finalizing
            · exact .inl (by dsimp only; rw [thrown,Bool.or_true]; rfl)
            · exact .inr finalizing
          | false =>
            obtain ⟨thrown,finalizing⟩ := Bool.or_eq_false_iff.mp ends
            rw [if_neg Bool.false_ne_true,if_neg Bool.false_ne_true]
            rcases Bool.eq_false_or_eq_true reaction.destroyed with destroyed | destroyed
            · have stops : reaction.stops = true := by rw [Reaction.stops,destroyed,Bool.or_true]
              have gone : handled.destroyed = true := by simp only [handled,destroyed,Bool.true_or]
              have silent := @handleMessages_silent Pool handlers i largeFrame messages last handled short
              have stays := (handleMessages_grows handlers i largeFrame messages last handled).2 gone
              rw [if_pos stops,if_pos destroyed]
              refine ⟨fun quiet => ?_,fun loud => ⟨stays,.inr ⟨rfl,fun same => ?_⟩⟩⟩
              · rw [if_pos quiet] at silent
                exact ⟨silent,fun _ => .inl stays,by simp⟩
              · rw [if_neg (Bool.eq_false_iff.mp loud)] at silent
                exact absurd (congrArg List.length same) silent.ne'
            · have goes : ¬reaction.stops = true := by simp [Reaction.stops,ends,destroyed]
              have still : handled.destroyed = false := by simp only [handled,destroyed,thrown,Bool.or_false]
              obtain ⟨follows,strays⟩ := @ih last handled short still finalizing
              rw [if_neg goes,if_neg (Bool.eq_false_iff.mp destroyed)]
              refine ⟨fun orderly => ?_,fun disorderly => ?_⟩
              · obtain ⟨same,stopped,going⟩ := follows orderly
                exact ⟨same.trans (append_cons _ _ _).symm,stopped,going⟩
              · obtain ⟨gone,differs⟩ := strays disorderly
                refine ⟨gone,?_⟩
                rw [append_cons socket.handled request (readLines handlers i messages last).1]
                exact differs

def hasRoom (totals : Totals) (socket : Socket) (bytes : ℕ) : Bool :=
  bytes ≤ socket.accountedLargeFrameBytes ||
    (totals.bySource socket.largeFrameSource).getD 0 + (bytes - socket.accountedLargeFrameBytes) ≤
    LARGE_FRAME_SOURCE_MAX_BYTES &&
      totals.largeFrameBufferedBytes + (bytes - socket.accountedLargeFrameBytes) ≤ LARGE_FRAME_BUFFERED_MAX_BYTES

def admits (handlers : Handlers Pool) (i : ℕ) (pool : Pool) (totals : Totals) (socket : Socket) (bytes : ℕ) : Bool :=
  bytes ≤ STANDARD_PACKET_BYTES ||
    hasPearlJob handlers pool i && bytes ≤ LARGE_FRAME_MAX_BYTES && hasRoom totals socket bytes

theorem account_isSome (totals : Totals) (socket : Socket) :
    (accountLargeFrameBuffer totals socket).isSome = hasRoom totals socket socket.dataBufferBytes := by
  unfold accountLargeFrameBuffer hasRoom
  by_cases less : socket.dataBufferBytes ≤ socket.accountedLargeFrameBytes
  · rw [if_pos less,decide_eq_true less]
    rfl
  · rw [if_neg less,decide_eq_false less,Bool.false_or]
    dsimp only
    split
    next full => simp; omega
    next fits => simp; omega

theorem account_frame {next : Totals × Socket} (accounted : accountLargeFrameBuffer totals socket = some next) :
    ∃ bytes, next.2 = { socket with accountedLargeFrameBytes := bytes } := by
  unfold accountLargeFrameBuffer at accounted
  split at accounted
  · cases accounted
    exact ⟨_,rfl⟩
  · obtain ⟨_,⟨⟩⟩ := Option.ite_none_left_eq_some.mp accounted
    exact ⟨_,rfl⟩

private theorem bound_kept (breaks : Bool)
    (room : socket.largeFrame = true → hasRoom totals socket socket.dataBufferBytes = true)
    (fits : socket.dataBufferBytes ≤ frameLimit socket) :
    ∃ counted bytes timer, bound handlers i breaks pool totals socket =
      let kept := { socket with accountedLargeFrameBytes := bytes, largeFrameTimer := timer }
      if breaks then cut handlers i pool counted kept else (pool,counted,kept) := by
  have admitted : ∃ counted bytes, (if socket.largeFrame then accountLargeFrameBuffer totals socket
    else some (totals,socket)) =
      some (counted,{ socket with accountedLargeFrameBytes := bytes }) := by
    split
    next large =>
      have some := (account_isSome totals socket).trans (room large)
      obtain ⟨next,accounted⟩ := Option.isSome_iff_exists.mp some
      obtain ⟨bytes,same⟩ := account_frame accounted
      exact ⟨next.1,bytes,by rw [accounted,← same]⟩
    · exact ⟨totals,socket.accountedLargeFrameBytes,rfl⟩
  obtain ⟨counted,bytes,admitted⟩ := admitted
  refine ⟨counted,bytes,socket.largeFrameTimer || socket.largeFrame,?_⟩
  simp only [bound,admitted]
  exact if_neg (Nat.not_lt.mpr fits)

private theorem bound_dropped (breaks : Bool)
    (full : socket.largeFrame = true ∧ hasRoom totals socket socket.dataBufferBytes = false ∨
      frameLimit socket < socket.dataBufferBytes) :
    ∃ counted dropped, bound handlers i breaks pool totals socket = (pool,counted,dropped) ∧ dropped.oversized = true ∧
      dropped.destroyed = true := by
  unfold bound
  split
  · exact ⟨_,_,rfl,Bool.or_true _,rfl⟩
  next counted last accounted =>
    have large : frameLimit last < last.dataBufferBytes := by
      rcases full with ⟨large,none⟩ | large
      · rw [large,if_pos rfl] at accounted
        have some := (account_isSome totals socket).symm.trans (by rw [accounted,Option.isSome_some])
        cases none.symm.trans some
      · split at accounted
        · obtain ⟨bytes,same⟩ := account_frame accounted
          dsimp only at same
          rw [same]
          exact large
        · cases accounted
          exact large
    exact ⟨_,_,if_pos large,Bool.or_true _,rfl⟩

private theorem onData_admits (totals : Totals) (text : Text) (running : socket.finalizing = false)
    (small : socket.largeFrame = false) (measured : socket.dataBufferBytes = byteLength socket.dataBuffer) :
    let bytes := byteLength (socket.dataBuffer ++ text)
    (admits handlers i pool totals socket bytes = true →
      ∃ counted accounted timer, onData handlers i text pool totals socket =
        let kept := { socket with
          dataBuffer := socket.dataBuffer ++ text
          dataBufferBytes := bytes
          largeFrame := STANDARD_PACKET_BYTES < bytes
          accountedLargeFrameBytes := accounted
          largeFrameTimer := timer }
        if decide ('\n' ∈ text) then cut handlers i pool counted kept else (pool,counted,kept)) ∧
    (admits handlers i pool totals socket bytes = false →
      ∃ counted dropped, onData handlers i text pool totals socket = (pool,counted,dropped) ∧ dropped.oversized = true ∧
        dropped.destroyed = true) := by
  intro bytes
  have appended : socket.append text =
      { socket with dataBuffer := socket.dataBuffer ++ text, dataBufferBytes := bytes } := by
    rw [Socket.append,measured,← byteLength_append]
  have detected : detectLargeFrame handlers i pool (socket.append text) =
      { socket with
        dataBuffer := socket.dataBuffer ++ text
        dataBufferBytes := bytes
        largeFrame := decide (STANDARD_PACKET_BYTES < bytes) && hasPearlJob handlers pool i } := by
    rw [appended,detectLargeFrame]
    dsimp only
    rw [small,Bool.not_false,Bool.and_true]
    split
    next large => rw [large,Bool.true_and]
    next fits => rw [Bool.eq_false_iff.mpr fits,Bool.false_and]
  have decoded : onData handlers i text pool totals socket =
      bound handlers i ('\n' ∈ text) pool totals (detectLargeFrame handlers i pool (socket.append text)) := by
    rw [onData,running,if_neg Bool.false_ne_true]
  rw [decoded,detected,admits]
  by_cases fits : bytes ≤ STANDARD_PACKET_BYTES
  · rw [decide_eq_true fits,decide_eq_false (Nat.not_lt.mpr fits),Bool.false_and]
    refine ⟨fun _ => ?_,nofun⟩
    refine bound_kept _ ?_ ?_
    · nofun
    · exact fits
  · have large : STANDARD_PACKET_BYTES < bytes := Nat.lt_of_not_le fits
    rw [decide_eq_false fits,decide_eq_true large,Bool.true_and,Bool.false_or]
    cases pearl : hasPearlJob handlers pool i with
    | false => exact ⟨nofun,fun _ => bound_dropped _ (.inr large)⟩
    | true =>
      rw [Bool.true_and]
      refine ⟨fun room => ?_,fun full => ?_⟩
      · obtain ⟨small,room⟩ := Bool.and_eq_true_iff.mp room
        refine bound_kept _ ?_ ?_
        · exact fun _ => room
        · exact of_decide_eq_true small
      · rcases Bool.and_eq_false_iff.mp full with long | none
        · exact bound_dropped _ (.inr (Nat.lt_of_not_le (of_decide_eq_false long)))
        · exact bound_dropped _ (.inl ⟨rfl,none⟩)

private theorem cut_short {totals : Totals}
    (short : byteLength ((split socket.dataBuffer).getLastD []) ≤ STANDARD_PACKET_BYTES) :
    ∃ counted, cut handlers i pool totals socket =
      let next := handleMessages handlers i socket.largeFrame (split socket.dataBuffer).dropLast pool socket
      (next.1,counted,{ next.2 with
        dataBuffer := (split socket.dataBuffer).getLastD []
        dataBufferBytes := byteLength ((split socket.dataBuffer).getLastD [])
        largeFrame := false
        accountedLargeFrameBytes := 0
        largeFrameTimer := false }) := by
  refine ⟨(releaseLargeFrameBuffer totals
    (handleMessages handlers i socket.largeFrame (split socket.dataBuffer).dropLast pool socket).2).1,?_⟩
  simp only [cut]
  exact if_pos short

structure Waiting (socket : Socket) (line : Text) : Prop where
  dataBuffer : socket.dataBuffer = line
  dataBufferBytes : socket.dataBufferBytes = byteLength line
  largeFrame : socket.largeFrame = false

def fitsText (handlers : Handlers Pool) (i : ℕ) (text : Text) (pool : Pool) (totals : Totals) (socket : Socket) :
    Bool :=
  let received := socket.dataBuffer ++ text
  admits handlers i pool totals socket (byteLength received) &&
    isOrderly handlers i (STANDARD_PACKET_BYTES < byteLength received) (split received).dropLast pool

theorem onData_reads {totals : Totals} {text line : Text} (waiting : Waiting socket line)
    (going : socket.destroyed = false)
    (running : socket.finalizing = false) (standard : Standard (line ++ text)) (whole : '\n' ∉ line) :
    let next := onData handlers i text pool totals socket
    let read := readLines handlers i (split (line ++ text)).dropLast pool
    (fitsText handlers i text pool totals socket = true →
      Follows socket read (next.1,next.2.2) ∧ Waiting next.2.2 ((split (line ++ text)).getLastD []) ∧
        next.2.2.oversized = socket.oversized ∧ next.2.2.decoder = socket.decoder) ∧
    (fitsText handlers i text pool totals socket = false →
      next.2.2.oversized = true ∧ next.2.2.destroyed = true ∨ Strays socket read (next.1,next.2.2)) := by
  intro next read
  obtain ⟨rfl,measured,small⟩ := waiting
  have short : Short (split (socket.dataBuffer ++ text)).dropLast :=
    fun message member => standard message (List.dropLast_subset _ member)
  have last := standard _ (last_mem (socket.dataBuffer ++ text))
  obtain ⟨kept,dropped⟩ := @onData_admits Pool handlers i pool socket totals text running small measured
  unfold fitsText
  dsimp only
  cases admitted : admits handlers i pool totals socket (byteLength (socket.dataBuffer ++ text)) with
  | false =>
    obtain ⟨_,_,same,oversized⟩ := dropped admitted
    refine ⟨nofun,fun _ => .inl ?_⟩
    simp only [next,same]
    exact oversized
  | true =>
    obtain ⟨counted,accounted,timer,same⟩ := kept admitted
    rw [Bool.true_and]
    by_cases breaks : '\n' ∈ text
    · let filled : Socket := { socket with
        dataBuffer := socket.dataBuffer ++ text
        dataBufferBytes := byteLength (socket.dataBuffer ++ text)
        largeFrame := STANDARD_PACKET_BYTES < byteLength (socket.dataBuffer ++ text)
        accountedLargeFrameBytes := accounted
        largeFrameTimer := timer }
      obtain ⟨released,cuts⟩ := @cut_short Pool handlers i pool filled counted last
      obtain ⟨follows,strays⟩ :=
        @handleMessages_reads Pool handlers i filled.largeFrame _ pool filled short going running
      obtain ⟨_,_,_,frame,_⟩ := handleMessages_frame handlers i filled.largeFrame
        (split (socket.dataBuffer ++ text)).dropLast pool filled
      have ended : next = cut handlers i pool counted filled := same.trans (if_pos (decide_eq_true breaks))
      rw [ended,cuts]
      refine ⟨fun orderly => ?_,fun disorderly => .inr ?_⟩
      · obtain ⟨handled,stopped,goes⟩ := follows orderly
        have oversized : (handleMessages handlers i filled.largeFrame (split (socket.dataBuffer ++ text)).dropLast pool
            filled).2.oversized = socket.oversized := by rw [frame]
        have decoder : (handleMessages handlers i filled.largeFrame (split (socket.dataBuffer ++ text)).dropLast pool
            filled).2.decoder = socket.decoder := by rw [frame]
        exact ⟨⟨handled,stopped,goes⟩,⟨rfl,rfl,rfl⟩,oversized,decoder⟩
      · obtain ⟨gone,differs⟩ := strays disorderly
        exact ⟨gone,differs⟩
    · have line : split (socket.dataBuffer ++ text) = [socket.dataBuffer ++ text] :=
        split_whole fun member => (mem_append.mp member).elim whole breaks
      have ended := same.trans (if_neg (by simp [breaks]))
      have read' : read = ([],some pool) := by
        simp only [read,line]
        rfl
      simp only [next,read',ended,line]
      have fits : byteLength (socket.dataBuffer ++ text) ≤ STANDARD_PACKET_BYTES :=
        standard _ (by rw [line]; exact List.mem_singleton_self _)
      refine ⟨fun _ => ⟨⟨(append_nil _).symm,nofun,?_⟩,⟨rfl,rfl,?_⟩,trivial,trivial⟩,nofun⟩
      · rintro last ⟨⟩
        exact ⟨rfl,going,running⟩
      · exact decide_eq_false (Nat.not_lt.mpr fits)

end Handling

section Streams

variable {Pool : Type} (handlers : Handlers Pool)

/-- What a chunk may be: the socket does not listen any more, or the chunk is let in and its lines are in order. -/
def fits (world : World Pool) : Label Pool → Bool
  | .data i chunk => (world.sockets[i]?).all fun socket =>
      socket.destroyed || socket.finalizing ||
        fitsText handlers i (Utf8.write socket.decoder chunk).1 world.pool world.totals socket
  | _ => true

def readText (i : ℕ) (text : Text) (pool : Pool) : List Json × Option Pool :=
    readLines handlers i (split text).dropLast pool

variable {handlers} {i : ℕ} {base : List Json} {start : Pool} {sofar text : Text} {decoder : Utf8.Decoder}
  {world : World Pool} {chunk : List UInt8} {socket : Socket}

structure Agrees (handlers : Handlers Pool) (i : ℕ) (base : List Json) (start : Pool) (sofar : Text)
    (decoder : Utf8.Decoder) (pool : Pool) (socket : Socket) : Prop where
  handled : socket.handled = base ++ (readText handlers i sofar start).1
  oversized : socket.oversized = false
  stopped : (readText handlers i sofar start).2 = none → socket.destroyed = true ∨ socket.finalizing = true
  going : ∀ last, (readText handlers i sofar start).2 = some last → pool = last ∧ socket.destroyed = false ∧
    socket.finalizing = false ∧ socket.decoder = decoder ∧ Waiting socket ((split sofar).getLastD [])

structure Differs (handlers : Handlers Pool) (i : ℕ) (base : List Json) (start : Pool) (sofar : Text)
    (socket : Socket) : Prop where
  destroyed : socket.destroyed = true
  how : socket.oversized = true ∨ socket.handled.length < (base ++ (readText handlers i sofar start).1).length ∨
    (readText handlers i sofar start).2 = none ∧ socket.handled ≠ base ++ (readText handlers i sofar start).1

theorem readText_append (handlers : Handlers Pool) (i : ℕ) (sofar text : Text) (start : Pool) :
    readText handlers i (sofar ++ text) start =
    match (readText handlers i sofar start).2 with
    | none => ((readText handlers i sofar start).1,none)
    | some last => ((readText handlers i sofar start).1 ++
      (readText handlers i ((split sofar).getLastD [] ++ text) last).1,
        (readText handlers i ((split sofar).getLastD [] ++ text) last).2) := by
  rw [readText,dropLast_append,readLines_append]
  rfl

theorem receive_text (found : world.sockets[i]? = some socket) (going : socket.destroyed = false) :
    receive handlers i world chunk =
      let (text,decoder) := write socket.decoder chunk
      let (pool,totals,next) :=
        if text = [] then (world.pool,world.totals,{ socket with decoder })
        else onData handlers i text world.pool world.totals { socket with decoder }
      ⟨world.sockets.set i next,totals,pool⟩ := by
  simp only [receive,found,going,Bool.false_eq_true,if_false]

theorem getElem?_set_found {next : Socket} (found : world.sockets[i]? = some socket) :
    (world.sockets.set i next)[i]? = some next :=
  List.getElem?_set_self (List.getElem?_eq_some_iff.mp found).1

theorem receive_stopped (handlers : Handlers Pool) (chunk : List UInt8) (found : world.sockets[i]? = some socket)
    (stopped : socket.destroyed = true ∨ socket.finalizing = true) :
    ∃ next, (receive handlers i world chunk).sockets[i]? = some next ∧ next.handled = socket.handled ∧
      next.oversized = socket.oversized ∧ (next.destroyed = true ∨ next.finalizing = true) ∧
      (socket.destroyed = true → next.destroyed = true) := by
  rcases Bool.eq_false_or_eq_true socket.destroyed with gone | going
  · refine ⟨socket,?_,rfl,rfl,.inl gone,id⟩
    simp only [receive,found,gone,if_true]
  · have ending : socket.finalizing = true := stopped.resolve_left (Bool.eq_false_iff.mp going)
    rw [receive_text found going]
    dsimp only
    split
    · exact ⟨_,getElem?_set_found found,rfl,rfl,.inr ending,id⟩
    · rw [onData,if_pos ending]
      exact ⟨_,getElem?_set_found found,rfl,rfl,.inl rfl,fun _ => rfl⟩

theorem differs_receive (chunk : List UInt8) (found : world.sockets[i]? = some socket)
    (differs : Differs handlers i base start sofar socket) (text : Text) :
    (receive handlers i world chunk).sockets[i]? = some socket ∧
    Differs handlers i base start (sofar ++ text) socket := by
  obtain ⟨gone,how⟩ := differs
  refine ⟨?_,gone,how.imp_right fun how => ?_⟩
  · simp only [receive,found,gone,if_true]
  · rw [readText_append]
    cases read : (readText handlers i sofar start).2 with
    | none => exact how.imp_right fun ended => ⟨rfl,ended.2⟩
    | some last =>
      rw [read] at how
      refine .inl ?_
      rcases how with short | ⟨⟨⟩,_⟩
      simp only [List.length_append] at short ⊢
      omega

theorem chunk_reads (chunk : List UInt8) (found : world.sockets[i]? = some socket)
    (agrees : Agrees handlers i base start sofar decoder world.pool socket)
    (standard : Standard (sofar ++ (write decoder chunk).1)) :
    ∃ next, (receive handlers i world chunk).sockets[i]? = some next ∧
      (fits handlers world (.data i chunk) = true → Agrees handlers i base start (sofar ++ (write decoder chunk).1)
        (write decoder chunk).2 (receive handlers i world chunk).pool next) ∧
      (fits handlers world (.data i chunk) = false →
        Differs handlers i base start (sofar ++ (write decoder chunk).1) next) := by
  obtain ⟨handled,oversized,stopped,going⟩ := agrees
  have appended := readText_append handlers i sofar (write decoder chunk).1 start
  cases read : (readText handlers i sofar start).2 with
  | none =>
    rw [read] at appended
    obtain ⟨next,there,same,size,still,_⟩ := receive_stopped handlers chunk found (stopped read)
    refine ⟨next,there,fun _ => ⟨?_,size.trans oversized,fun _ => still,fun last other => ?_⟩,fun unfit => ?_⟩
    · rw [appended]
      exact same.trans handled
    · rw [appended] at other
      cases other
    · rcases stopped read with gone | ending
      · simp [fits,found,gone] at unfit
      · simp [fits,found,ending] at unfit
  | some last =>
    rw [read] at appended
    obtain ⟨pool,listens,running,decodes,waiting⟩ := going last read
    have fitting : fits handlers world (.data i chunk) =
        fitsText handlers i (write decoder chunk).1 world.pool world.totals socket := by
      simp [fits,found,listens,running,decodes]
    rw [receive_text found listens,decodes,fitting]
    generalize write decoder chunk = written at *
    obtain ⟨text,later⟩ := written
    dsimp only at *
    by_cases empty : text = []
    · subst empty
      rw [append_nil] at standard ⊢
      have nothing : fitsText handlers i [] world.pool world.totals socket = true := by
        have last := standard _ (last_mem sofar)
        have line : split (socket.dataBuffer ++ []) = [socket.dataBuffer] := by
          rw [append_nil,waiting.dataBuffer]
          exact split_whole (whole_of_mem (last_mem sofar))
        rw [fitsText,line,append_nil,waiting.dataBuffer]
        rw [admits,decide_eq_true last]
        rfl
      rw [if_pos rfl,nothing]
      refine ⟨_,getElem?_set_found found,fun _ => ⟨handled,oversized,stopped,fun other same => ?_⟩,nofun⟩
      cases read.symm.trans same
      exact ⟨pool,listens,running,rfl,⟨waiting.dataBuffer,waiting.dataBufferBytes,waiting.largeFrame⟩⟩
    · rw [if_neg empty]
      let decoded : Socket := { socket with decoder := later }
      have line : Waiting decoded ((split sofar).getLastD []) :=
        ⟨waiting.dataBuffer,waiting.dataBufferBytes,waiting.largeFrame⟩
      have lines : Standard ((split sofar).getLastD [] ++ text) := fun other member => standard other (by
        rw [split_append]
        exact List.mem_append_right _ member)
      obtain ⟨good,bad⟩ := @onData_reads Pool handlers i world.pool decoded world.totals text _ line
        listens running lines (whole_of_mem (last_mem sofar))
      subst pool
      refine ⟨_,getElem?_set_found found,fun fit => ?_,fun unfit => ?_⟩
      · obtain ⟨⟨same,ended,goes⟩,waits,size,decodes⟩ := good fit
        refine ⟨?_,size.trans oversized,fun none => ?_,fun other some => ?_⟩
        · rw [appended,← append_assoc,← handled]
          exact same
        · rw [appended] at none
          exact ended none
        · rw [appended] at some
          obtain ⟨pool,stays,listens⟩ := goes other some
          refine ⟨pool,stays,listens,decodes,?_⟩
          rw [last_append]
          exact waits
      · rcases bad unfit with ⟨size,gone⟩ | ⟨gone,differs⟩
        · exact ⟨gone,.inl size⟩
        · refine ⟨gone,.inr ?_⟩
          rw [appended,← append_assoc,← handled]
          exact differs

variable {last : World Pool} {chunks : List (List UInt8)}

private theorem differs_run (found : world.sockets[i]? = some socket)
    (differs : Differs handlers i base start sofar socket) (text : Text)
    (ran : (server handlers).run world (chunks.map (.data i)) = some last) :
    last.sockets[i]? = some socket ∧ Differs handlers i base start (sofar ++ text) socket := by
  obtain ⟨there,longer⟩ := differs_receive [] found differs text
  refine ⟨?_,longer⟩
  clear there
  induction chunks generalizing world with
  | nil =>
    cases ran
    exact found
  | cons chunk chunks ih => exact ih (differs_receive chunk found differs []).1 ran

private theorem run_reads (found : world.sockets[i]? = some socket)
    (agrees : Agrees handlers i base start sofar decoder world.pool socket)
    (standard : Standard (sofar ++ (write decoder chunks.flatten).1))
    (ran : (server handlers).run world (chunks.map (.data i)) = some last) : ∃ next, last.sockets[i]? = some next ∧
      ((server handlers).Along (fun world label => fits handlers world label = true) world (chunks.map (.data i)) →
        Agrees handlers i base start (sofar ++ (write decoder chunks.flatten).1) (write decoder chunks.flatten).2
          last.pool next) ∧
      (¬(server handlers).Along (fun world label => fits handlers world label = true) world (chunks.map (.data i)) →
        Differs handlers i base start (sofar ++ (write decoder chunks.flatten).1) next) := by
  induction chunks generalizing sofar decoder world socket with
  | nil =>
    cases ran
    refine ⟨socket,found,fun _ => ?_,fun lost => absurd trivial lost⟩
    rw [List.flatten_nil,write,append_nil]
    exact agrees
  | cons chunk chunks ih =>
    rw [List.flatten_cons,Utf8.write_append,← append_assoc] at standard ⊢
    obtain ⟨next,there,good,bad⟩ := chunk_reads chunk found agrees standard.front
    cases fit : fits handlers world (.data i chunk) with
    | false =>
      obtain ⟨still,differs⟩ := differs_run there (bad fit) (write (write decoder chunk).2 chunks.flatten).1 ran
      exact ⟨next,still,fun along => absurd along.1 (Bool.eq_false_iff.mp fit),fun _ => differs⟩
    | true =>
      obtain ⟨final,here,agreed,differed⟩ := ih there (good fit) standard ran
      refine ⟨final,here,fun along => agreed (along.2 _ rfl),fun lost => differed fun along => lost ⟨fit,?_⟩⟩
      rintro other ⟨⟩
      exact along

structure Idle (socket : Socket) : Prop where
  destroyed : socket.destroyed = false
  finalizing : socket.finalizing = false
  decoder : socket.decoder = Utf8.idle
  waiting : Waiting socket []
  oversized : socket.oversized = false

/-- The requests of the text's lines, and no others, were handled, and its size destroyed no socket. -/
def Framed (handlers : Handlers Pool) (i : ℕ) (text : Text) (world last : World Pool) : Prop :=
  ∃ before after, world.sockets[i]? = some before ∧ last.sockets[i]? = some after ∧
    after.handled = before.handled ++ (readText handlers i text world.pool).1 ∧ after.oversized = false

theorem framed_iff (found : world.sockets[i]? = some socket) (idle : Idle socket)
    (standard : Standard text) (stream : chunks.flatten = encode text)
    (ran : (server handlers).run world (chunks.map (.data i)) = some last) : Framed handlers i text world last ↔
      (server handlers).Along (fun world label => fits handlers world label = true) world (chunks.map (.data i)) := by
  have written : write Utf8.idle chunks.flatten = (text,Utf8.idle) := by rw [stream,write_encode]
  have agrees : Agrees handlers i socket.handled world.pool [] Utf8.idle world.pool socket := by
    refine ⟨(append_nil _).symm,idle.oversized,nofun,fun other same => ?_⟩
    cases same
    exact ⟨rfl,idle.destroyed,idle.finalizing,idle.decoder,idle.waiting⟩
  have lines : Standard ([] ++ (write Utf8.idle chunks.flatten).1) := by rw [written]; exact standard
  obtain ⟨next,there,good,bad⟩ := run_reads found agrees lines ran
  rw [written,List.nil_append] at good bad
  refine ⟨fun framed => ?_,fun along => ?_⟩
  · by_contra lost
    obtain ⟨before,after,first,final,handled,size⟩ := framed
    cases found.symm.trans first
    cases there.symm.trans final
    obtain ⟨_,large | short | ⟨_,other⟩⟩ := bad lost
    · cases size.symm.trans large
    · rw [handled] at short
      exact lt_irrefl _ short
    · exact other handled
  · obtain ⟨handled,size,_,_⟩ := good along
    exact ⟨socket,next,found,there,handled,size⟩

/-- The books of the large frames are right in every state, and the lines of a stream are handled alike,
however it is split, exactly where each of its chunks fits. -/
theorem framing_independent (reachable : (server handlers).Reachable world) :
    Accounted world ∧ ∀ i socket, world.sockets[i]? = some socket → Idle socket →
      ∀ text, Standard text → ∀ chunks : List (List UInt8), chunks.flatten = Utf8.encode text →
        ∀ last, (server handlers).run world (chunks.map (.data i)) = some last →
          (Framed handlers i text world last ↔
            (server handlers).Along (fun world label => fits handlers world label = true) world
            (chunks.map (.data i))) :=
  ⟨(booked_of_reachable reachable).accounted,fun _ _ found idle _ standard _ stream _ ran =>
    framed_iff found idle standard stream ran⟩

end Streams

section Runs

def sampleHandlers : Handlers Unit where
  parse text :=
    if text.head? = some '"' && text.getLast? = some '"' then some (.str (String.ofList text.tail.dropLast)) else none
  validJobs _ _ := none
  handleMessage _ _ _ := ((),⟨false,false,false⟩)

def connected : World Unit := ⟨[newSocket "1.2.3.4"],⟨0,fun _ => none⟩,()⟩

private theorem connected_reachable : (server sampleHandlers).Reachable connected := by
  have empty : (server sampleHandlers).Reachable ⟨[],⟨0,fun _ => none⟩,()⟩ := .initial ⟨rfl,rfl⟩
  have moved : (server sampleHandlers).step ⟨[],⟨0,fun _ => none⟩,()⟩ (.connect "1.2.3.4") = some connected := rfl
  exact .step empty trivial moved

theorem newSocket_idle (source : String) : Idle (newSocket source) := ⟨rfl,rfl,rfl,⟨rfl,rfl,rfl⟩,rfl⟩

def sampleText : Text := ['"',Char.ofNat 233,Char.ofNat 8364,'"','\n']

def sampleChunks : List (List UInt8) := [(Utf8.encode sampleText).take 5,(Utf8.encode sampleText).drop 5]

theorem framing_independent_sample : ∃ last,
    (server sampleHandlers).run connected (sampleChunks.map (.data 0)) = some last ∧
      Framed sampleHandlers 0 sampleText connected last := by
  have standard : Standard sampleText := by unfold Standard; decide +kernel
  have along : (server sampleHandlers).Along (fun world label => fits sampleHandlers world label = true) connected
      (sampleChunks.map (.data 0)) := by decide +kernel
  have framing := (framing_independent connected_reachable).2 0 (newSocket "1.2.3.4") rfl (newSocket_idle _)
    sampleText standard sampleChunks (by simp [sampleChunks])
  exact ⟨_,rfl,(framing _ rfl).mpr along⟩

theorem byteLength_replicate (count : ℕ) : byteLength (List.replicate count 'a') = count := by
  induction count with
  | zero => rfl
  | succ count ih =>
    rw [List.replicate_succ,← List.singleton_append,byteLength_append,ih,Nat.add_comm]
    rfl

private theorem two_lines {line : Text} (whole : '\n' ∉ line) (size : byteLength line = 61440) :
    let back : Text := '\n'::(line ++ ['\n'])
    let chunks := [encode line,encode back]
    Standard (line ++ back) ∧ chunks.flatten = encode (line ++ back) ∧ (∀ chunk ∈ chunks, chunk.length ≤ 65536) ∧
      ¬(server sampleHandlers).Along (fun world label => fits sampleHandlers world label = true) connected
        (chunks.map (.data 0)) := by
  intro back chunks
  have length : byteLength back = 61442 := by
    calc byteLength back = byteLength ['\n'] + byteLength (line ++ ['\n']) := byteLength_append ['\n'] _
      _ = byteLength ['\n'] + (61440 + byteLength ['\n']) := by rw [byteLength_append line,size]
      _ = 61442 := rfl
  have standard : Standard (line ++ back) := by
    intro other member
    rw [split_line whole,split_line whole] at member
    simp only [split,mem_cons,List.not_mem_nil,or_false] at member
    rcases member with rfl | rfl | rfl
    · exact size.trans_le (by decide)
    · exact size.trans_le (by decide)
    · exact Nat.zero_le _
  refine ⟨standard,?_,?_,fun along => ?_⟩
  · simp only [chunks,List.flatten_cons,List.flatten_nil,append_nil,encode,List.flatMap_append]
  · intro chunk member
    simp only [chunks,mem_cons,List.not_mem_nil,or_false] at member
    rcases member with rfl | rfl
    · exact size.trans_le (by decide)
    · exact length.trans_le (by decide)
  · have agrees : Agrees sampleHandlers 0 [] () [] Utf8.idle connected.pool (newSocket "1.2.3.4") := by
      refine ⟨rfl,rfl,by rintro ⟨⟩,fun other same => ?_⟩
      cases same
      exact ⟨rfl,rfl,rfl,rfl,⟨rfl,rfl,rfl⟩⟩
    have lines : Standard ([] ++ (write Utf8.idle (encode line)).1) := by
      rw [write_encode]
      exact standard.front
    obtain ⟨next,there,good,_⟩ := chunk_reads (encode line) rfl agrees lines
    obtain ⟨_,_,_,going⟩ := good along.1
    have second := (along.2 _ rfl).1
    rw [write_encode,List.nil_append] at going
    obtain ⟨_,listens,running,decodes,waiting⟩ := going () (by rw [readText,split_whole whole]; rfl)
    rw [split_whole whole] at waiting
    simp only [fits,there,Option.all_some,listens,running,Bool.false_or,decodes,write_encode,fitsText,
      waiting.dataBuffer,Bool.and_eq_true] at second
    have bytes : byteLength ([line].getLastD [] ++ back) = 122882 := by
      rw [byteLength_append,length]
      exact congrArg (· + 61442) size
    have admitted := second.1
    rw [bytes] at admitted
    cases admitted

/-- The line is read and answered, yet the second packet destroys the socket. -/
theorem two_lines_too_large : ∃ (text : Text) (chunks : List (List UInt8)) (last : World Unit), Standard text ∧
    chunks.flatten = Utf8.encode text ∧ (∀ chunk ∈ chunks, chunk.length ≤ 65536) ∧
    (server sampleHandlers).run connected (chunks.map (.data 0)) = some last ∧
    ¬Framed sampleHandlers 0 text connected last := by
  let line : Text := ['"'] ++ List.replicate 61438 'a' ++ ['"']
  have size : byteLength line = 61440 := by
    rw [byteLength_append,byteLength_append,byteLength_replicate]
    rfl
  have whole : '\n' ∉ line := by
    intro member
    rcases mem_append.mp member with member | member
    · rcases mem_append.mp member with member | member
      · cases mem_singleton.mp member
      · cases (List.mem_replicate.mp member).2
    · cases mem_singleton.mp member
  obtain ⟨standard,stream,small,lost⟩ := two_lines whole size
  refine ⟨_,_,_,standard,stream,small,rfl,fun framed => lost ?_⟩
  exact (framed_iff rfl (newSocket_idle _) standard stream rfl).mp framed

end Runs
end NodejsPool.Pool.LineFraming
