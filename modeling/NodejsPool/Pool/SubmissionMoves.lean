import Mathlib.Algebra.Order.BigOperators.Group.List
import NodejsPool.Pool.BlockSubmission

/-! The steps of a block submission: what each may send, wait for and store, and the measures that it keeps
or lowers. -/
namespace NodejsPool.Pool.BlockSubmission
open Async Payments

variable (c : Candidate)

def Task.callback : Task → Bool
  | .rpc _ dispatch | .erg _ dispatch | .eth _ dispatch _ => dispatch.callback
  | .retry call => call.callback
  | .notify callback | .report callback => callback

def World.owed (world : World) : ℕ := world.tasks.countP Task.callback

/-- Where both chains are submitted to again on a retry of one: the hash meets neither target, or both
chains have one port. -/
def resubmits : Bool :=
  (c.poolSettings.any fun settings => settings.submitBlockRpc = .dualMain) &&
    (!isXmr c && !isXtm c || isXmr c && isXtm c && mainSubmitPort c = auxSubmitPort c)

section Requests

def chains (call : Call) : List Chain :=
  match requests c call with
  | .ok requests => requests.map fun request => chainOf c request.dispatch
  | .error _ => []

theorem firstPort_pos (configured setting : Option ℕ) : firstPort c configured setting ≠ 0 := by
  unfold firstPort
  split
  next port chosen => exact of_decide_eq_true (Option.filter_eq_some_iff.mp chosen).2
  · cases chosen : setting.filter (· ≠ 0) with
    | none => exact c.port_pos.ne'
    | some port => exact of_decide_eq_true (Option.filter_eq_some_iff.mp chosen).2

def dualRequests (call : Call) : List Request :=
  if !isXmr c && !isXtm c then
    [submitTo (mainSubmitPort c) call.callback false,submitTo (auxSubmitPort c) false true]
  else
    (if isXmr c && usesPort call (mainSubmitPort c) then [submitTo (mainSubmitPort c) call.callback false] else []) ++
      (if isXtm c && usesPort call (auxSubmitPort c) then
        [submitTo (auxSubmitPort c) (!isXmr c && call.callback) true] else [])

def isDual : Bool := c.poolSettings.any fun settings => settings.submitBlockRpc = .dualMain

/-- A candidate's calls are all refused, or all send one request to its daemon, or are dual. -/
inductive Requests : Prop
  | refused (message : String) (all : ∀ call, requests c call = .error (errorObject message))
  | one (method : String) (single : isDual c = false) (all : ∀ call, requests c call = .ok (request c method call))
  | dual (double : isDual c = true) (all : ∀ call, requests c call = .ok (dualRequests c call))

def OneWay (submit : Call → Except Json (List Request)) : Prop :=
  (∃ message, ∀ call, submit call = .error (errorObject message)) ∨
    ∃ method, ∀ call, submit call = .ok (request c method call)

private theorem bufferRequest_oneWay (method : String) : OneWay c (bufferRequest c method) := by
  unfold bufferRequest getSubmitBuffer
  cases c.blockData with
  | buffer bytes => exact .inr ⟨method,fun _ => rfl⟩
  | values | text => exact .inl ⟨_,fun _ => rfl⟩

private theorem submitXtmRxBlock_oneWay : OneWay c (submitXtmRxBlock c) := by
  unfold submitXtmRxBlock
  cases c.blockData with
  | buffer bytes =>
    by_cases algo : bytes[xtmTPowAlgoOffset]? ≠ some xtmTRandomxtPowAlgo
    · exact .inl ⟨_,fun _ => if_pos algo⟩
    · cases c.xtmBlock with
      | true => exact .inr ⟨_,fun _ => if_neg algo⟩
      | false => exact .inl ⟨_,fun _ => if_neg algo⟩
  | values | text => exact .inl ⟨_,fun _ => rfl⟩

private theorem submitXtmCBlock_oneWay : OneWay c (submitXtmCBlock c) := by
  unfold submitXtmCBlock getSubmitBuffer
  cases c.blockData with
  | buffer bytes =>
    cases c.xtmBlock with
    | true => exact .inr ⟨_,fun _ => rfl⟩
    | false => exact .inl ⟨_,fun _ => rfl⟩
  | values | text => exact .inl ⟨_,fun _ => rfl⟩

private theorem submitPearlBlock_oneWay : OneWay c (submitPearlBlock c) := by
  unfold submitPearlBlock
  cases c.proofValid with
  | true => exact .inr ⟨_,fun _ => rfl⟩
  | false => exact .inl ⟨_,fun _ => rfl⟩

private theorem submitBlockRpc_oneWay {submitter : Submitter} (single : submitter ≠ .dualMain) :
    OneWay c (submitter.submitBlockRpc c) := by
  cases submitter with
  | cryptonote | btc | dero => exact bufferRequest_oneWay c "submitblock"
  | httpBlockBody => exact bufferRequest_oneWay c "block"
  | eth | erg => exact .inr ⟨_,fun _ => rfl⟩
  | xtmRx => exact submitXtmRxBlock_oneWay c
  | xtmC => exact submitXtmCBlock_oneWay c
  | pearl => exact submitPearlBlock_oneWay c
  | dualMain => exact absurd rfl single

theorem submitDualMainBlock_dual : (∃ message, ∀ call, submitDualMainBlock c call = .error (errorObject message)) ∨
    ∀ call, submitDualMainBlock c call = .ok (dualRequests c call) := by
  unfold submitDualMainBlock getSubmitBuffer dualRequests
  cases c.blockData with
  | buffer bytes =>
    refine .inr fun call => ?_
    dsimp only [bind,Except.bind]
    split <;> rfl
  | values | text => exact .inl ⟨_,fun _ => rfl⟩

theorem requests_cases : Requests c := by
  cases settings : c.poolSettings with
  | none => exact .refused _ fun call => by rw [requests,settings]
  | some profile =>
    cases throws : c.throws with
    | some message => exact .refused _ fun call => by simp only [requests,settings,throws]; rfl
    | none =>
      have sends (call : Call) : requests c call = profile.submitBlockRpc.submitBlockRpc c call := by
        simp only [requests,settings,throws]
      have dual : isDual c = decide (profile.submitBlockRpc = .dualMain) := by rw [isDual,settings]; rfl
      by_cases main : profile.submitBlockRpc = .dualMain
      · rw [main] at sends
        rcases submitDualMainBlock_dual c with ⟨message,refused⟩ | both
        · exact .refused message fun call => (sends call).trans (refused call)
        · exact .dual (dual.trans (decide_eq_true main)) fun call => (sends call).trans (both call)
      · rcases submitBlockRpc_oneWay c main with ⟨message,refused⟩ | ⟨method,one⟩
        · exact .refused message fun call => (sends call).trans (refused call)
        · exact .one method (dual.trans (decide_eq_false main)) fun call => (sends call).trans (one call)

@[simp] theorem chainOf_submitTo (port : ℕ) (callback display : Bool) :
    chainOf c (submitTo port callback display).dispatch = if display then .aux else .main := rfl

theorem mainSubmitPort_ne : mainSubmitPort c ≠ 0 := firstPort_pos c _ _

theorem auxSubmitPort_ne : auxSubmitPort c ≠ 0 := firstPort_pos c _ _

/-- The requests of one call: the callback goes with exactly one of them, and no chain gets two. -/
structure Shared (requests : List Request) (callback : Bool) : Prop where
  ports : ∀ request ∈ requests, request.dispatch.port ≠ 0
  callbacks : (requests.countP fun request => request.dispatch.callback) = callback.toNat
  chains : (requests.map fun request => chainOf c request.dispatch).Nodup

theorem one_shared (method : String) (call : Call) : Shared c (request c method call) call.callback := by
  refine ⟨?_,?_,List.nodup_singleton _⟩
  · intro sent member
    cases List.mem_singleton.mp member
    exact c.port_pos.ne'
  · cases callback : call.callback <;> simp [request,stdDispatch,callback]

theorem both_shared {main aux : ℕ} (ports : main ≠ 0 ∧ aux ≠ 0) (callback : Bool) :
    Shared c [submitTo main callback false,submitTo aux false true] callback := by
  refine ⟨?_,?_,show [Chain.main,Chain.aux].Nodup by decide⟩
  · intro sent member
    rcases List.mem_pair.mp member with rfl | rfl
    · exact ports.1
    · exact ports.2
  · cases callback <;> rfl

theorem alone_shared {port : ℕ} (positive : port ≠ 0) (callback display : Bool) :
    Shared c [submitTo port callback display] callback := by
  refine ⟨?_,?_,List.nodup_singleton _⟩
  · intro sent member
    cases List.mem_singleton.mp member
    exact positive
  · cases callback <;> rfl

theorem usesPort_none (callback : Bool) (count port : ℕ) : usesPort ⟨none,callback,count⟩ port = true := rfl

private theorem usesPort_some {used : ℕ} (positive : used ≠ 0) (callback : Bool) (count port : ℕ) :
    usesPort ⟨some used,callback,count⟩ port = decide (used = port) := by
  simp [usesPort,Option.filter,positive]

theorem dualRequests_first (callback : Bool) : Shared c (dualRequests c ⟨none,callback,0⟩) callback := by
  unfold dualRequests
  simp only [usesPort_none,Bool.and_true]
  cases isXmr c <;> cases isXtm c
  · exact both_shared c ⟨mainSubmitPort_ne c,auxSubmitPort_ne c⟩ callback
  · exact alone_shared c (auxSubmitPort_ne c) callback true
  · exact alone_shared c (mainSubmitPort_ne c) callback false
  · exact both_shared c ⟨mainSubmitPort_ne c,auxSubmitPort_ne c⟩ callback

private theorem dualRequests_retry (dual : isDual c = true) {callback : Bool} {request : Request}
    (member : request ∈ dualRequests c ⟨none,callback,0⟩) :
    let again := dualRequests c ⟨some request.dispatch.port,request.dispatch.callback,1⟩
    Shared c again request.dispatch.callback ∧
      (resubmits c = false → (again.map fun request => chainOf c request.dispatch) = [chainOf c request.dispatch]) := by
  have mainUsed := usesPort_some (mainSubmitPort_ne c)
  have auxUsed := usesPort_some (auxSubmitPort_ne c)
  have single : resubmits c = (!isXmr c && !isXtm c || isXmr c && isXtm c && mainSubmitPort c = auxSubmitPort c) := by
    rw [resubmits,← isDual,dual,Bool.true_and]
  unfold dualRequests at member
  simp only [usesPort_none,Bool.and_true] at member
  rw [single]
  unfold dualRequests
  cases xmr : isXmr c <;> cases xtm : isXtm c <;> rw [xmr,xtm] at member
  · exact ⟨both_shared c ⟨mainSubmitPort_ne c,auxSubmitPort_ne c⟩ _,fun impossible => by cases impossible⟩
  · cases List.mem_singleton.mp member
    have again : usesPort ⟨some (auxSubmitPort c),callback,1⟩ (auxSubmitPort c) = true :=
      (auxUsed callback 1 _).trans (decide_eq_true rfl)
    refine ⟨?_,fun _ => ?_⟩
    · simpa [submitTo,again] using alone_shared c (auxSubmitPort_ne c) callback true
    · simp [submitTo,again,chainOf,isDisplaySubmitPort]
  · cases List.mem_singleton.mp member
    have again : usesPort ⟨some (mainSubmitPort c),callback,1⟩ (mainSubmitPort c) = true :=
      (mainUsed callback 1 _).trans (decide_eq_true rfl)
    refine ⟨?_,fun _ => ?_⟩
    · simpa [submitTo,again] using alone_shared c (mainSubmitPort_ne c) callback false
    · simp [submitTo,again,chainOf,isDisplaySubmitPort]
  · by_cases same : mainSubmitPort c = auxSubmitPort c
    · refine ⟨?_,fun impossible => by simp [same] at impossible⟩
      rcases List.mem_pair.mp member with main | aux
      · subst main
        simpa [submitTo,auxUsed,same] using both_shared c ⟨auxSubmitPort_ne c,auxSubmitPort_ne c⟩ callback
      · subst aux
        simpa [submitTo,auxUsed,same] using both_shared c ⟨auxSubmitPort_ne c,auxSubmitPort_ne c⟩ false
    · rcases List.mem_pair.mp member with main | aux
      · subst main
        refine ⟨?_,fun _ => ?_⟩
        · simpa [submitTo,mainUsed,same] using alone_shared c (mainSubmitPort_ne c) callback false
        · simp [submitTo,mainUsed,same,chainOf,isDisplaySubmitPort]
      · subst aux
        refine ⟨?_,fun _ => ?_⟩
        · simpa [submitTo,auxUsed,Ne.symm same] using alone_shared c (auxSubmitPort_ne c) false true
        · simp [submitTo,auxUsed,Ne.symm same,chainOf,isDisplaySubmitPort]

def firstCall (callback : Bool) : Call := ⟨none,callback,0⟩

def againOf (dispatch : Dispatch) : Call := ⟨some dispatch.port,dispatch.callback,1⟩

theorem first_shared {callback : Bool} {sent : List Request} (sends : requests c (firstCall callback) = .ok sent) :
    Shared c sent callback := by
  cases requests_cases c with
  | refused message all => cases (all _).symm.trans sends
  | one method single all =>
    cases (all _).symm.trans sends
    exact one_shared c method (firstCall callback)
  | dual double all =>
    cases (all _).symm.trans sends
    exact dualRequests_first c callback

theorem again_shared {callback : Bool} {sent : List Request} (sends : requests c (firstCall callback) = .ok sent)
    {request : Request} (member : request ∈ sent) :
    ∃ again, requests c (againOf request.dispatch) = .ok again ∧ Shared c again request.dispatch.callback ∧
      (resubmits c = false → chains c (againOf request.dispatch) = [chainOf c request.dispatch]) := by
  cases requests_cases c with
  | refused message all => cases (all _).symm.trans sends
  | one method single all =>
    cases (all _).symm.trans sends
    cases List.mem_singleton.mp member
    refine ⟨_,all _,one_shared c method _,fun _ => ?_⟩
    rw [chains,all]
    rfl
  | dual double all =>
    cases (all _).symm.trans sends
    obtain ⟨shared,alone⟩ := dualRequests_retry c double member
    refine ⟨_,all _,shared,fun single => ?_⟩
    rw [chains,all]
    exact alone single

private theorem errorObject_fails (message : String) : isSubmitFailure (errorObject message) = true := rfl

theorem refused_again {call : Call} {error : Json} (refused : requests c call = .error error) :
    isSubmitFailure error = true ∧ ∀ other, requests c other = .error error := by
  cases requests_cases c with
  | refused message all =>
    cases (all _).symm.trans refused
    exact ⟨errorObject_fails message,all⟩
  | one method single all | dual double all => cases (all _).symm.trans refused

end Requests

section Moves

inductive TaskOk : Task → Prop
  | first {callback : Bool} {sent : List Request} {request : Request}
    (sends : requests c (firstCall callback) = .ok sent)
      (member : request ∈ sent) : TaskOk (.rpc (firstCall callback) request.dispatch)
  | second {dispatch other : Dispatch} (port : dispatch.port ≠ 0) : TaskOk (.rpc (againOf dispatch) other)
  | refused {dispatch : Dispatch} {error : Json} (port : dispatch.port ≠ 0)
      (again : requests c (againOf dispatch) = .error error) : TaskOk (.retry (againOf dispatch))
  | retry {dispatch : Dispatch} {sent : List Request} (port : dispatch.port ≠ 0)
      (again : requests c (againOf dispatch) = .ok sent) (shared : Shared c sent dispatch.callback) :
      TaskOk (.retry (againOf dispatch))
  | notify (callback : Bool) : TaskOk (.notify callback)
  | report (callback : Bool) : TaskOk (.report callback)
  | erg {reply : Reply} {dispatch : Dispatch} (accepted : isAccepted c reply = true) : TaskOk (.erg reply dispatch)
  | eth {reply : Reply} {dispatch : Dispatch} {attempt : ℕ} (accepted : isAccepted c reply = true)
      (left : attempt < ethBlockResolveAttempts) : TaskOk (.eth reply dispatch attempt)

/-- The reply of an accepted block and the hash that was found for it, none where resolving it throws. -/
structure Found where
  dispatch : Dispatch
  reply : Reply
  hash : Option String

def resolution : Task → Event → Option Found
  | .rpc _ dispatch,.reply _ reply _ =>
    if isSubmitFailure reply.rpcResult then none
    else
      match c.poolSettings,isAccepted c reply with
      | some settings,true => (namedHash c settings dispatch reply).map fun hash => ⟨dispatch,reply,hash⟩
      | _,_ => none
  | .erg reply dispatch,.header _ err body _ => some ⟨dispatch,reply,some (resolveErgSubmittedBlockHash c err body)⟩
  | .eth reply dispatch attempt,.found _ blockHash _ =>
    match resolveEthSubmittedBlockHash attempt blockHash with
    | .inl newBlockHash => some ⟨dispatch,reply,some newBlockHash⟩
    | .inr _ => none
  | _,_ => none

inductive Awaits (dispatch : Dispatch) (reply : Reply) : Task → Prop
  | rpc (call : Call) : Awaits dispatch reply (.rpc call dispatch)
  | erg : Awaits dispatch reply (.erg reply dispatch)
  | eth (attempt : ℕ) : Awaits dispatch reply (.eth reply dispatch attempt)

inductive Submits : Task → Prop
  | rpc (call : Call) (dispatch : Dispatch) : Submits (.rpc call dispatch)
  | retry (call : Call) : Submits (.retry call)

inductive Moves (rest : World) : Task → Option Found → World → Prop
  | again {callback : Bool} {sent : List Request} {request : Request}
    (sends : requests c (firstCall callback) = .ok sent) (member : request ∈ sent) :
      Moves rest (.rpc (firstCall callback) request.dispatch) none (rest.add (.retry (againOf request.dispatch)))
  | notify {task : Task} (submits : Submits task) : Moves rest task none (rest.add (.notify task.callback))
  | report {call : Call} {dispatch : Dispatch} :
    Moves rest (.rpc call dispatch) none (rest.add (.report dispatch.callback))
  | fail {task : Task} : Moves rest task none (rest.finish task.callback false)
  | sent {dispatch : Dispatch} {sent : List Request} (port : dispatch.port ≠ 0)
      (sends : requests c (againOf dispatch) = .ok sent) (shared : Shared c sent dispatch.callback) :
      Moves rest (.retry (againOf dispatch)) none (send c (againOf dispatch) rest sent)
  | erg {call : Call} {dispatch : Dispatch} {reply : Reply} (accepted : isAccepted c reply = true) :
      Moves rest (.rpc call dispatch) none (rest.add (.erg reply dispatch))
  | eth {call : Call} {dispatch : Dispatch} {reply : Reply} (accepted : isAccepted c reply = true) :
      Moves rest (.rpc call dispatch) none (rest.add (.eth reply dispatch 0))
  | later {reply : Reply} {dispatch : Dispatch} {attempt : ℕ} (accepted : isAccepted c reply = true)
      (left : attempt + 1 < ethBlockResolveAttempts) :
      Moves rest (.eth reply dispatch attempt) none (rest.add (.eth reply dispatch (attempt + 1)))
  | found {task : Task} {dispatch : Dispatch} {reply : Reply} {newBlockHash : String} {timeNow : ℕ}
      (awaits : Awaits dispatch reply task) (accepted : isAccepted c reply = true) :
      Moves rest task (some ⟨dispatch,reply,some newBlockHash⟩) (onBlockHash c rest reply dispatch newBlockHash timeNow)
  | lost {call : Call} {dispatch : Dispatch} {reply : Reply} :
      Moves rest (.rpc call dispatch) (some ⟨dispatch,reply,none⟩) rest

variable {c} {rest : World}

theorem reply_moves {call : Call} {dispatch : Dispatch} {reply : Reply} {index timeNow : ℕ}
    (ok : TaskOk c (.rpc call dispatch)) :
    Moves c rest (.rpc call dispatch) (resolution c (.rpc call dispatch) (.reply index reply timeNow))
      (replyFn c rest call reply dispatch timeNow) := by
  have retried : shouldRetryXmrSubmitFailure c call dispatch = true ∨
    (call.portUsedToSubmit.filter (· ≠ 0)).isNone = true →
      Moves c rest (.rpc call dispatch) none (rest.add (retrySubmit call dispatch)) := by
    intro retries
    cases ok with
    | first sends member => exact .again sends member
    | second port => simp [shouldRetryXmrSubmitFailure,againOf,Option.filter,port] at retries
  have unknown : Moves c rest (.rpc call dispatch) none
      (if (call.portUsedToSubmit.filter (· ≠ 0)).isNone then rest.add (retrySubmit call dispatch)
      else if c.suppressFailureEmail then rest.finish dispatch.callback false
      else if c.blockData.isBuffer && c.converts then rest.add (.report dispatch.callback)
      else rest.finish dispatch.callback false) := by
    split
    next first => exact retried (.inr first)
    · split
      · exact .fail
      · split
        · exact .report
        · exact .fail
  unfold replyFn
  simp only [resolution]
  split
  next failure =>
    split
    next retries => exact retried (.inl retries)
    · split
      · exact .notify (.rpc call dispatch)
      · exact .fail
  next success =>
    cases chosen : c.poolSettings with
    | none => exact unknown
    | some settings =>
      cases accepted : isAccepted c reply with
      | false => exact unknown
      | true =>
        dsimp only
        unfold resolveSubmittedBlockHash
        cases named : namedHash c settings dispatch reply with
        | none =>
          dsimp only [Option.map_none]
          split
          · exact .eth accepted
          · exact .erg accepted
        | some hash =>
          cases hash with
          | none => exact .lost
          | some newBlockHash => exact .found (.rpc call) accepted

private theorem retry_moves {call : Call} {timeNow : ℕ} (ok : TaskOk c (.retry call)) :
    Moves c rest (.retry call) none (submitBlock c rest call timeNow) := by
  unfold submitBlock
  cases ok with
  | retry port again shared =>
    rw [again]
    exact .sent port again shared
  | refused port again =>
    have failure := (refused_again c again).1
    rw [again]
    dsimp only
    unfold replyFn
    rw [if_pos failure]
    split
    next retries => simp [shouldRetryXmrSubmitFailure,againOf] at retries
    · split
      · exact .notify (.retry _)
      · exact .fail

private theorem eth_again {attempt more : ℕ} {blockHash : Option String}
    (again : resolveEthSubmittedBlockHash attempt blockHash = .inr more) :
    more = attempt + 1 ∧ attempt + 1 < ethBlockResolveAttempts := by
  unfold resolveEthSubmittedBlockHash at again
  split at again
  · cases again
  · split at again
    · cases again
    next left =>
      cases again
      exact ⟨rfl,not_le.mp left⟩

theorem resume_moves {task : Task} {event : Event} {after : World} (ok : TaskOk c task)
    (resumed : resume c rest task event = some after) : Moves c rest task (resolution c task event) after := by
  cases task with
  | rpc call dispatch =>
    cases event with
    | reply index reply timeNow =>
      cases resumed
      exact reply_moves ok
    | retry | checked | reported | header | found => cases resumed
  | retry call =>
    cases event with
    | retry index timeNow =>
      cases resumed
      exact retry_moves ok
    | reply | checked | reported | header | found => cases resumed
  | notify callback =>
    cases event with
    | checked index isNotifyAdmin =>
      cases resumed
      exact .fail
    | reply | retry | reported | header | found => cases resumed
  | report callback =>
    cases event with
    | reported index =>
      cases resumed
      exact .fail
    | reply | retry | checked | header | found => cases resumed
  | erg reply dispatch =>
    cases event with
    | header index err body timeNow =>
      cases resumed
      cases ok with
      | erg accepted => exact .found .erg accepted
    | reply | retry | checked | reported | found => cases resumed
  | eth reply dispatch attempt =>
    cases event with
    | found index blockHash timeNow =>
      cases ok with
      | eth accepted left =>
        dsimp only [resume] at resumed
        dsimp only [resolution]
        cases resolved : resolveEthSubmittedBlockHash attempt blockHash with
        | inl newBlockHash =>
          rw [resolved] at resumed
          cases resumed
          exact .found (.eth attempt) accepted
        | inr more =>
          rw [resolved] at resumed
          cases resumed
          obtain ⟨rfl,left⟩ := eth_again resolved
          exact .later accepted left
    | reply | retry | checked | reported | header => cases resumed

end Moves

section Totals

def World.total (world : World) (measure : Task → ℕ) : ℕ := (world.tasks.map measure).sum

variable {c} {rest : World} {measure : Task → ℕ}

@[simp] theorem total_add (task : Task) : (rest.add task).total measure = rest.total measure + measure task := by
  simp [World.total,World.add]

@[simp] theorem total_finish (callback success : Bool) : (rest.finish callback success).total measure =
    rest.total measure := by
  unfold World.finish
  split <;> rfl

@[simp] theorem total_onBlockHash (reply : Reply) (dispatch : Dispatch) (newBlockHash : String) (timeNow : ℕ) :
    (onBlockHash c rest reply dispatch newBlockHash timeNow).total measure = rest.total measure := by
  unfold onBlockHash
  split
  · exact total_finish ..
  · exact total_finish ..

@[simp] theorem total_send (call : Call) (sent : List Request) : (send c call rest sent).total measure =
    rest.total measure + (sent.map fun request => measure (.rpc call request.dispatch)).sum := by
  simp [World.total,send,Function.comp_def]

theorem total_eraseIdx {world : World} {index : ℕ} {task : Task} (present : world.tasks[index]? = some task) :
    world.total measure = {world with tasks := world.tasks.eraseIdx index}.total measure + measure task := by
  obtain ⟨inside,rfl⟩ := List.getElem?_eq_some_iff.mp present
  have split := ((List.getElem_cons_eraseIdx_perm inside).map measure).sum_eq
  rw [List.map_cons,List.sum_cons,Nat.add_comm] at split
  exact split.symm

theorem sum_chains (sent : List Request) (chain : Chain) :
    (sent.map fun request => if chainOf c request.dispatch = chain then 1 else 0).sum =
      (sent.map fun request => chainOf c request.dispatch).count chain := by
  induction sent with
  | nil => rfl
  | cons request sent ih =>
    rw [List.map_cons,List.sum_cons,ih,List.map_cons,List.count_cons,Nat.add_comm]
    simp only [beq_iff_eq]

private theorem length_chains {found : List Chain} (nodup : found.Nodup) : found.length ≤ 2 := by
  have within : found ⊆ [.main,.aux] := fun chain _ => by cases chain <;> decide
  exact (List.subperm_of_subset nodup within).length_le

theorem Shared.length_le {sent : List Request} {callback : Bool} (shared : Shared c sent callback) :
    sent.length ≤ 2 := by
  have few := length_chains shared.chains
  rwa [List.length_map] at few

end Totals

section Bounds

def Task.weight : Task → ℕ
  | .rpc call _ => if call.portUsedToSubmit.isNone then 24 else 11
  | .retry _ => 23
  | .eth _ _ attempt => ethBlockResolveAttempts - attempt
  | .notify _ | .report _ | .erg .. => 1

def Task.potential (chain : Chain) : Task → ℕ
  | .rpc call dispatch => if call.portUsedToSubmit.isNone then (chains c (againOf dispatch)).count chain else 0
  | .retry call => (chains c call).count chain
  | .eth .. | .notify _ | .report _ | .erg .. => 0

def Task.holds (chain : Chain) : Task → ℕ
  | .rpc _ dispatch | .erg _ dispatch | .eth _ dispatch _ => if chainOf c dispatch = chain then 1 else 0
  | .retry call => (chains c call).count chain
  | .notify _ | .report _ => 0

variable {c} {rest after : World} {task : Task} {found : Option Found}
  (reply : Reply) (dispatch : Dispatch) (newBlockHash : String) (timeNow : ℕ)

theorem Moves.weight (ok : TaskOk c task) (moves : Moves c rest task found after) :
    after.total Task.weight + 1 ≤ rest.total Task.weight + task.weight := by
  have light : 1 ≤ task.weight := by
    cases ok with
    | first | second =>
      dsimp only [Task.weight]
      split <;> omega
    | eth accepted left => exact Nat.sub_pos_of_lt left
    | refused | retry | notify | report | erg => simp [Task.weight]
  cases moves with
  | again => simp [Task.weight,firstCall]
  | notify submits =>
    rw [total_add]
    cases submits with
    | rpc call dispatch => simp only [Task.weight]; split <;> omega
    | retry => simp [Task.weight]
  | report =>
    rw [total_add]
    simp only [Task.weight]
    split <;> omega
  | fail =>
    rw [total_finish]
    omega
  | sent port sends shared =>
    have few := shared.length_le
    simp [Task.weight,againOf]
    omega
  | erg =>
    rw [total_add]
    simp only [Task.weight]
    split <;> omega
  | eth =>
    rw [total_add]
    simp only [Task.weight,ethBlockResolveAttempts]
    split <;> omega
  | later accepted left =>
    rw [total_add]
    simp only [Task.weight]
    omega
  | found =>
    rw [total_onBlockHash]
    omega
  | lost => omega

@[simp] theorem attempts_finish (callback success : Bool) :
    (rest.finish callback success).attempts = rest.attempts := by
  unfold World.finish
  split <;> rfl

@[simp] theorem attempts_onBlockHash :
    (onBlockHash c rest reply dispatch newBlockHash timeNow).attempts = rest.attempts := by
  unfold onBlockHash
  split <;> exact attempts_finish ..

theorem chains_sent {call : Call} {sent : List Request} (sends : requests c call = .ok sent) :
    chains c call = sent.map fun request => chainOf c request.dispatch := by
  rw [chains,sends]

theorem Moves.attempts (moves : Moves c rest task found after) (chain : Chain) :
    after.attempts.count chain + after.total (Task.potential c chain) ≤
      rest.attempts.count chain + rest.total (Task.potential c chain) + task.potential c chain := by
  cases moves with
  | again sends member =>
    rw [total_add]
    simp [World.add,Task.potential,firstCall]
    omega
  | notify | report | erg | eth | later =>
    rw [total_add]
    simp [World.add,Task.potential]
  | fail =>
    rw [total_finish,attempts_finish]
    omega
  | sent port sends shared =>
    rw [total_send]
    simp only [send,List.count_append,Task.potential,againOf,Option.isNone_some,Bool.false_eq_true,if_false,
      List.map_const',List.sum_replicate]
    rw [← againOf,chains_sent sends]
    simp
    omega
  | found =>
    rw [total_onBlockHash,attempts_onBlockHash]
    omega
  | lost => omega

@[simp] theorem stored_finish (callback success : Bool) : (rest.finish callback success).stored = rest.stored := by
  unfold World.finish
  split <;> rfl

def entryOf (c : Candidate) (dispatch : Dispatch) (reply : Reply) (newBlockHash : String) (timeNow : ℕ) : Stored :=
  ⟨chainOf c dispatch,storeResolvedBlock c (isDisplaySubmitPort c dispatch) newBlockHash timeNow,reply⟩

theorem stored_onBlockHash : (onBlockHash c rest reply dispatch newBlockHash timeNow).stored =
      if newBlockHash = zeroHash then rest.stored
      else rest.stored ++ [entryOf c dispatch reply newBlockHash timeNow] := by
  unfold onBlockHash
  split <;> exact stored_finish ..

def World.storedOn (world : World) (chain : Chain) : ℕ := world.stored.countP fun entry => entry.chain = chain

theorem storedOn_onBlockHash (chain : Chain) : (onBlockHash c rest reply dispatch newBlockHash timeNow).storedOn chain =
      rest.storedOn chain + if newBlockHash ≠ zeroHash ∧ chainOf c dispatch = chain then 1 else 0 := by
  unfold World.storedOn
  rw [stored_onBlockHash]
  by_cases zero : newBlockHash = zeroHash
  · simp [zero]
  · simp [zero,entryOf]

theorem Awaits.holds {dispatch : Dispatch} {reply : Reply} (awaits : Awaits dispatch reply task) (chain : Chain) :
    task.holds c chain = if chainOf c dispatch = chain then 1 else 0 := by
  cases awaits <;> rfl

theorem Moves.single (alone : resubmits c = false) (moves : Moves c rest task found after) (chain : Chain) :
    after.storedOn chain + after.total (Task.holds c chain) ≤
      rest.storedOn chain + rest.total (Task.holds c chain) + task.holds c chain := by
  cases moves with
  | again sends member =>
    obtain ⟨_,_,_,keeps⟩ := again_shared c sends member
    rw [total_add]
    simp only [World.storedOn,World.add,Task.holds,keeps alone,List.count_singleton,beq_iff_eq]
    omega
  | notify | report =>
    rw [total_add]
    simp [World.storedOn,World.add,Task.holds]
  | erg | eth | later =>
    rw [total_add]
    simp [World.storedOn,World.add,Task.holds]
    omega
  | fail =>
    rw [total_finish,World.storedOn,stored_finish]
    exact Nat.le_add_right ..
  | sent port sends shared =>
    rw [total_send]
    simp only [send,World.storedOn,Task.holds,sum_chains,chains_sent sends]
    omega
  | found awaits =>
    rw [total_onBlockHash,storedOn_onBlockHash,awaits.holds chain]
    split
    next both => rw [if_pos both.2]; omega
    · omega
  | lost => omega

def World.calls (world : World) : ℕ := world.callbacks.length + world.owed

theorem calls_add (task : Task) : (rest.add task).calls = rest.calls + task.callback.toNat := by
  unfold World.calls World.owed World.add
  cases callback : task.callback <;> simp [callback,Nat.add_assoc]

theorem calls_finish (callback success : Bool) : (rest.finish callback success).calls = rest.calls +
    callback.toNat := by
  unfold World.finish World.calls World.owed
  cases callback <;> simp
  omega

private theorem calls_onBlockHash :
    (onBlockHash c rest reply dispatch newBlockHash timeNow).calls = rest.calls + dispatch.callback.toNat := by
  unfold onBlockHash
  split
  · exact calls_finish ..
  · exact calls_finish ..

theorem calls_send {call : Call} {sent : List Request} {callback : Bool} (shared : Shared c sent callback) :
    (send c call rest sent).calls = rest.calls + callback.toNat := by
  have callbacks := shared.callbacks
  unfold World.calls World.owed send
  simp only [List.countP_append,List.countP_map,Function.comp_def,Task.callback,callbacks]
  omega

theorem Moves.calls (moves : Moves c rest task found after) :
    after.calls = rest.calls + if ∃ lost ∈ found, lost.hash = none then 0 else task.callback.toNat := by
  cases moves with
  | again | notify | report | erg | eth | later =>
    rw [calls_add]
    simp [Task.callback,againOf]
  | fail =>
    rw [calls_finish]
    simp
  | sent port sends shared =>
    rw [calls_send shared]
    simp [Task.callback,againOf]
  | found awaits =>
    rw [calls_onBlockHash]
    cases awaits <;> simp [Task.callback]
  | lost => simp

theorem tasks_finish (callback success : Bool) : (rest.finish callback success).tasks = rest.tasks := by
  unfold World.finish
  split <;> rfl

private theorem tasks_onBlockHash : (onBlockHash c rest reply dispatch newBlockHash timeNow).tasks = rest.tasks := by
  unfold onBlockHash
  split <;> exact tasks_finish ..

theorem Moves.tasks (moves : Moves c rest task found after) {next : Task} (member : next ∈ after.tasks) :
    next ∈ rest.tasks ∨ TaskOk c next := by
  have added {task : Task} (ok : TaskOk c task) (member : next ∈ (rest.add task).tasks) :
      next ∈ rest.tasks ∨ TaskOk c next := by
    rcases List.mem_append.mp member with old | new
    · exact .inl old
    · cases List.mem_singleton.mp new
      exact .inr ok
  cases moves with
  | again sends sent =>
    obtain ⟨again,sendsAgain,shared,_⟩ := again_shared c sends sent
    exact added (.retry ((first_shared c sends).ports _ sent) sendsAgain shared) member
  | notify => exact added (.notify _) member
  | report => exact added (.report _) member
  | erg accepted => exact added (.erg accepted) member
  | eth accepted => exact added (.eth accepted (by decide)) member
  | later accepted left => exact added (.eth accepted left) member
  | fail =>
    rw [tasks_finish] at member
    exact .inl member
  | sent port sends shared =>
    rcases List.mem_append.mp member with old | new
    · exact .inl old
    · obtain ⟨request,_,rfl⟩ := List.mem_map.mp new
      exact .inr (.second port)
  | found =>
    rw [tasks_onBlockHash] at member
    exact .inl member
  | lost => exact .inl member

theorem Moves.stored (moves : Moves c rest task found after) :
    after.stored = rest.stored ∨ ∃ dispatch reply newBlockHash timeNow, found =
      some ⟨dispatch,reply,some newBlockHash⟩ ∧
      newBlockHash ≠ zeroHash ∧ isAccepted c reply = true ∧
        after.stored = rest.stored ++ [entryOf c dispatch reply newBlockHash timeNow] := by
  cases moves with
  | again | notify | report | erg | eth | later | sent | lost => exact .inl rfl
  | fail => exact .inl (stored_finish ..)
  | found awaits accepted =>
    rename_i dispatch reply newBlockHash timeNow
    rw [stored_onBlockHash]
    split
    · exact .inl rfl
    next nonzero => exact .inr ⟨dispatch,reply,newBlockHash,timeNow,rfl,nonzero,accepted,rfl⟩

end Bounds

end NodejsPool.Pool.BlockSubmission
