import NodejsPool.BlockManager.Payout

/-! The contract of a payout: the calls it may issue after what it has been told, and
the proof that every program of the payout keeps it. -/
namespace NodejsPool.BlockManager.Payout
open Async

inductive Found : Event signature → String → Nat → Prop
  | cached {runtime : Nat} {key : String} {id : Nat} :
    Found ⟨.cachedBalanceId runtime key,.ok (some id)⟩ key id
  | selected {key : BalanceKey} {ids : List Nat} {id : Nat} (member : id ∈ ids) :
    Found ⟨.selectBalanceId key,.ok ids⟩ (cacheKey key) id
  | inserted {key : BalanceKey} {id : Nat} : Found ⟨.insertBalance key,.ok id⟩ (cacheKey key) id

def Looked (history : History signature) (key : String) (id : Nat) : Prop :=
  ∃ event ∈ history, Found event key id

def Settles (known : String → Nat → Prop) (payees : List (BalanceKey × ℤ)) (credits : List BalanceCredit) : Prop :=
  ∃ resolved, credits = resolved.foldl addCredit [] ∧
    List.Forall₂ (fun payee credit => known (cacheKey payee.1) credit.id ∧ credit.amount = payee.2) payees resolved

/-- A payout caches what a lookup told it, credits what it selected and resolved, and
unlocks what it has credited. -/
def payoutContract : Contract signature where
  allowed history
    | .cacheBalanceId _ key id => Looked history key id
    | .payBlock hex blockReward _ credits => totalCredit credits ≠ 0 ∧
        ∃ rows, ⟨.selectBlockBalance hex,.ok rows⟩ ∈ history ∧
          Settles (Looked history) (payoutCredits rows blockReward) credits
    | .unlockBlock _ hash => ∃ blockReward port credits,
        ⟨.payBlock hash blockReward port credits,.ok ()⟩ ∈ history
    | _ => True
  expected _ _ _ := True

section Contract

variable {history after : History signature} {id : Nat}

theorem Looked.extend {key : String}
    (looked : Looked history key id) (longer : history <:+ after) : Looked after key id := by
  obtain ⟨event,member,found⟩ := looked
  exact ⟨event,longer.subset member,found⟩

theorem looked_head {event : Event signature} {key : String}
    (found : Found event key id) : Looked (event::history) key id := ⟨event,List.mem_cons_self,found⟩

def Resolved (key : BalanceKey) (history : History signature) (result : Except Failure Nat) : Prop :=
  ∀ id, result = .ok id → Looked history (cacheKey key) id

theorem resolved_error (key : BalanceKey) (history : History signature) (failure : Failure) :
    Resolved key history (.error failure) := by
  intro id same
  cases same

theorem resolved_ok {key : BalanceKey} (looked : Looked history (cacheKey key) id) : Resolved key history (.ok id) := by
  intro other same
  obtain rfl := Except.ok.inj same
  exact looked

theorem uniqueBalanceId_meets (runtime : Nat) (key : BalanceKey) (rows : List Nat)
    (history : History signature) (looked : ∀ id ∈ rows, Looked history (cacheKey key) id) :
    (uniqueBalanceId runtime key rows).Meets payoutContract history (Resolved key) := by
  unfold uniqueBalanceId
  split
  next id =>
    have here : Looked history (cacheKey key) id := looked id (by simp)
    rw [ask,Program.meets_await]
    exact ⟨here,fun _ _ => resolved_ok (here.extend (List.suffix_cons _ _)),fun _ _ => resolved_error _ _ _⟩
  · rw [fullStop,ask,Program.meets_await]
    exact ⟨trivial,fun _ _ => resolved_error _ _ _,fun _ _ => resolved_error _ _ _⟩

theorem selectBalanceId_meets (key : BalanceKey) (next : List Nat → Task Nat) (history : History signature)
    (rest : ∀ rows after, (∀ id ∈ rows, Looked after (cacheKey key) id) →
      (next rows).Meets payoutContract after (Resolved key)) :
    (ask (.selectBalanceId key) >>= next).Meets payoutContract history (Resolved key) := by
  rw [ask,Program.meets_await]
  refine ⟨trivial,fun rows _ => ?_,fun _ _ => resolved_error _ _ _⟩
  apply rest
  intro id member
  exact looked_head (.selected member)

private theorem insertBalanceId_meets (runtime : Nat) (key : BalanceKey) (history : History signature) :
    (insertBalanceId runtime key).Meets payoutContract history (Resolved key) := by
  unfold insertBalanceId
  have inserting : (Program.tryCatch ((fun id => some id) <$> ask (.insertBalance key)) fun error =>
      if error = .duplicateEntry then pure none else .throw error).Meets payoutContract history
        fun after result => ∀ id, result = .ok (some id) → Looked after (cacheKey key) id := by
    rw [Program.meets_tryCatch,Program.meets_map,ask,Program.meets_perform]
    refine ⟨trivial,fun outcome _ => ?_⟩
    cases outcome with
    | ok id =>
      intro other same
      cases same
      exact looked_head .inserted
    | error error =>
      change Program.Meets _ (ite _ _ _) _ _
      split
      · intro id same
        cases same
      · intro id same
        cases same
  apply inserting.bind
  · intro after inserted _ looked
    cases inserted with
    | some id =>
      have here := looked id rfl
      dsimp only
      rw [ask,Program.meets_await]
      exact ⟨here,fun _ _ => resolved_ok (here.extend (List.suffix_cons _ _)),fun _ _ => resolved_error _ _ _⟩
    | none =>
      apply selectBalanceId_meets
      intro rows later looked
      exact uniqueBalanceId_meets runtime key rows later looked
  · intro after error _ _
    exact resolved_error _ _ _

private theorem getOrCreateBalanceId_meets (runtime : Nat) (key : BalanceKey) (history : History signature) :
    (getOrCreateBalanceId runtime key).Meets payoutContract history (Resolved key) := by
  rw [getOrCreateBalanceId,ask,Program.meets_await]
  refine ⟨trivial,fun cached _ => ?_,fun _ _ => resolved_error _ _ _⟩
  cases cached with
  | some id => exact resolved_ok (looked_head .cached)
  | none =>
    apply selectBalanceId_meets
    intro rows after looked
    split
    · rw [fullStop,ask,Program.meets_await]
      exact ⟨trivial,fun _ _ => resolved_error _ _ _,fun _ _ => resolved_error _ _ _⟩
    · split
      · exact insertBalanceId_meets runtime key after
      · exact uniqueBalanceId_meets runtime key rows after looked

def ResolvedAll (payees : List (BalanceKey × ℤ)) (history : History signature)
    (result : Except Failure (List BalanceCredit)) : Prop :=
  ∀ resolved, result = .ok resolved →
    List.Forall₂ (fun payee credit => Looked history (cacheKey payee.1) credit.id ∧ credit.amount = payee.2)
      payees resolved

private theorem resolveCredits_meets (runtime : Nat) (payees : List (BalanceKey × ℤ)) (history : History signature) :
    (resolveCredits runtime payees).Meets payoutContract history (ResolvedAll payees) := by
  induction payees generalizing history with
  | nil =>
    intro resolved same
    obtain rfl := Except.ok.inj same
    exact .nil
  | cons payee payees ih =>
    obtain ⟨key,amount⟩ := payee
    apply (getOrCreateBalanceId_meets runtime key history).bind
    · intro after id _ looked
      apply (ih after).bind
      · intro later resolved longer others credits same
        obtain rfl := Except.ok.inj same
        exact .cons ⟨(looked id rfl).extend longer,rfl⟩ (others resolved rfl)
      · intro later error _ _ credits same
        cases same
    · intro after error _ _ credits same
      cases same

def Settled (payees : List (BalanceKey × ℤ)) (history : History signature)
    (result : Except Failure (List BalanceCredit)) : Prop :=
  ∀ credits, result = .ok credits → Settles (Looked history) payees credits

theorem resolveBalanceCredits_meets (runtime : Nat) (payees : List (BalanceKey × ℤ)) (history : History signature) :
    (resolveBalanceCredits runtime payees).Meets payoutContract history (Settled payees) := by
  apply (resolveCredits_meets runtime payees history).bind
  · intro after resolved _ all credits same
    obtain rfl := Except.ok.inj same
    exact ⟨resolved,rfl,all resolved rfl⟩
  · intro after error _ _ credits same
    cases same

theorem fullStop_meets (runtime : Nat) (history : History signature) {A : Type} (value : A) :
    (do fullStop runtime; return value).Meets payoutContract history fun _ result =>
      ∀ other, result = Except.ok other → other = value := by
  rw [fullStop,ask,Program.meets_await]
  refine ⟨trivial,fun _ _ => ?_,fun _ _ => ?_⟩
  · intro other same
    exact (Except.ok.inj same).symm
  · intro other same
    cases same

theorem tryBalanceSum_meets (runtime : Nat) (history : History signature) :
    (tryBalanceSum runtime).Meets payoutContract history fun _ _ => True := by
  have stops (after : History signature) :
      (do fullStop runtime; return (none : Option ℤ)).Meets payoutContract after fun _ _ => True :=
    (fullStop_meets runtime after none).imp fun _ _ _ => trivial
  rw [tryBalanceSum,Program.meets_tryCatch,Program.meets_map,getBalanceSum,ask,Program.meets_await]
  refine ⟨trivial,fun amt _ => ?_,fun error _ => stops _⟩
  cases amt with
  | some amt => exact trivial
  | none => exact stops _

def Paid (hex : String) (history : History signature) : Prop :=
  ∃ blockReward port credits, ⟨.payBlock hex blockReward port credits,.ok ()⟩ ∈ history

theorem Paid.extend {hex : String} (paid : Paid hex history) (longer : history <:+ after) : Paid hex after := by
  obtain ⟨blockReward,port,credits,member⟩ := paid
  exact ⟨blockReward,port,credits,longer.subset member⟩

def Reports (hex : String) (history : History signature) (result : Except Failure Bool) : Prop :=
  result = .ok true → Paid hex history

theorem reports_false (hex : String) (history : History signature) : Reports hex history (.ok false) := by
  intro same
  cases same

private theorem reports_error (hex : String) (history : History signature) (failure : Failure) :
    Reports hex history (.error failure) := by
  intro same
  cases same

private theorem stops_meets (runtime : Nat) (hex : String) (history : History signature) :
    (do fullStop runtime; return false).Meets payoutContract history (Reports hex) := by
  apply (fullStop_meets runtime history false).imp
  intro after result only same
  cases only true same

private theorem tryPayBlock_meets (hex : String) (blockReward : ℕ) (port : ℤ) (credits : List BalanceCredit)
    (history : History signature) (allowed : payoutContract.allowed history (.payBlock hex blockReward port credits)) :
    (tryPayBlock hex blockReward port credits).Meets payoutContract history (Reports hex) := by
  rw [tryPayBlock,Program.meets_tryCatch,Program.meets_map,ask,Program.meets_perform]
  refine ⟨allowed,fun outcome _ => ?_⟩
  cases outcome with
  | ok reply =>
    intro _
    exact ⟨blockReward,port,credits,List.mem_cons_self⟩
  | error error => exact reports_false _ _

private theorem doPPLNSPayments_meets (runtime : Nat) (hex : String) (blockReward : ℕ) (port : ℤ)
    (history : History signature) :
    (doPPLNSPayments runtime hex blockReward port).Meets payoutContract history (Reports hex) := by
  unfold doPPLNSPayments
  apply (tryBalanceSum_meets runtime history).bind _ fun _ _ _ _ => reports_error _ _ _
  intro first previous _ _
  cases previous with
  | none => exact reports_false _ _
  | some previousBalanceSum =>
    dsimp only
    rw [ask,Program.meets_await]
    refine ⟨trivial,fun rows _ => ?_,fun _ _ => reports_error _ _ _⟩
    split
    · exact reports_false _ _
    · apply (resolveBalanceCredits_meets runtime _ _).bind _ fun _ _ _ _ => reports_error _ _ _
      intro second credits longer settled
      split
      · exact stops_meets _ _ _
      next changed =>
        have selected := longer.subset List.mem_cons_self
        have allowed : payoutContract.allowed second (.payBlock hex blockReward port credits) :=
          ⟨changed,rows,selected,settled credits rfl⟩
        apply (tryPayBlock_meets hex blockReward port credits second allowed).bind _
          fun _ _ _ _ => reports_error _ _ _
        intro third paid _ committed
        cases paid with
        | false => exact reports_false _ _
        | true =>
          apply (tryBalanceSum_meets runtime third).bind _ fun _ _ _ _ => reports_error _ _ _
          intro fourth current later _
          cases current with
          | none => exact reports_false _ _
          | some balanceSum =>
            dsimp only
            split
            · intro _
              exact (committed rfl).extend later
            · exact stops_meets _ _ _

theorem ask_meets (call : Call) (history : History signature) (allowed : payoutContract.allowed history call) :
    (ask call).Meets payoutContract history fun _ _ => True := by
  rw [ask,Program.meets_perform]
  exact ⟨allowed,fun _ _ => trivial⟩

private theorem payAndUnlock_meets (runtime : Nat) (block : CheckedBlock) (history : History signature) :
    (payAndUnlock runtime block).Meets payoutContract history fun _ _ => True := by
  apply (doPPLNSPayments_meets runtime block.hash block.reward block.port history).bind _ fun _ _ _ _ => trivial
  intro after isPaid _ reports
  cases isPaid with
  | false => exact trivial
  | true => exact ask_meets _ after (reports rfl)

private theorem executePayout_meets (runtime : Nat) (block : CheckedBlock) (history : History signature) :
    (executePayout runtime block).Meets payoutContract history fun _ _ => True := by
  rw [executePayout,ask,Program.meets_await]
  refine ⟨trivial,fun free _ => ?_,fun _ _ => trivial⟩
  split
  · exact trivial
  · have paying (before : History signature) :
        ((payAndUnlock runtime block).tryCatch fun error => do
          ask (.endPayment runtime)
          .throw error).Meets payoutContract before fun _ _ => True := by
      apply (payAndUnlock_meets runtime block before).tryCatch
      · intro _ _ _ _
        exact trivial
      · intro after error _ _
        rw [ask,Program.meets_await]
        exact ⟨trivial,fun _ _ => trivial,fun _ _ => trivial⟩
    apply (paying _).bind
    · intro after _ _ _
      exact ask_meets _ after trivial
    · intro _ _ _ _
      exact trivial

private theorem payBlocks_meets (runtime : Nat) (blocks : List CheckedBlock) (history : History signature) :
    (payBlocks runtime blocks).Meets payoutContract history fun _ _ => True := by
  induction blocks generalizing history with
  | nil => exact trivial
  | cons block blocks ih =>
    apply (executePayout_meets runtime block history).bind
    · intro after _ _ _
      exact ih after
    · intro _ _ _ _
      exact trivial

theorem runUnlocker_meets (job : Job) (history : History signature) :
    (runUnlocker job).Meets payoutContract history fun _ _ => True := by
  rw [runUnlocker,ask,Program.meets_await]
  refine ⟨trivial,fun free _ => ?_,fun _ _ => trivial⟩
  split
  · exact trivial
  · exact payBlocks_meets _ _ _

end Contract

end NodejsPool.BlockManager.Payout
