import Mathlib.Algebra.Field.Rat
import Mathlib.Algebra.Order.Ring.Rat
import Mathlib.Data.List.Basic
import NodejsPool.Async.Machine

/-! The hash factors of the coins of one process: a merged parent's derived factor adds that of its
child, and is derived again when the child's changes. A coin without a factor counts as zero. -/
namespace NodejsPool.Pool.HashFactors
open Async

/-- The registry of coins and of merged parents with their children. No port is its own ancestor: a parent is less deep
than its child. -/
structure Registry where
  COIN2PORT : String → Option ℕ
  PORT2COIN : ℕ → Option String
  mm_port_set : ℕ → Option ℕ
  mm_child_port_set : ℕ → List ℕ
  linked : ∀ parentPort childPort, parentPort ∈ mm_child_port_set childPort ↔ mm_port_set parentPort = some childPort
  depth : ℕ → ℕ
  shallower : ∀ parentPort childPort, mm_port_set parentPort = some childPort → depth parentPort < depth childPort
  parent_port : ∀ parentPort childPort coin, mm_port_set parentPort = some childPort →
    PORT2COIN parentPort = some coin →
    COIN2PORT coin = some parentPort
  child_port : ∀ parentPort childPort coin, mm_port_set parentPort = some childPort → PORT2COIN childPort = some coin →
    COIN2PORT coin = some childPort

variable {Number : Type} [AddZeroClass Number]

structure Factors (Number : Type) where
  lastCoinHashFactor : String → Option Number
  lastCoinHashFactorMM : String → Option Number

namespace Factors

/-- `lastCoinHashFactor[coin] || 0`. -/
def last (factors : Factors Number) (coin : String) : Number := (factors.lastCoinHashFactor coin).getD 0

def mm (factors : Factors Number) (coin : String) : Number := (factors.lastCoinHashFactorMM coin).getD 0

def set (factors : Factors Number) (coin : String) (coinHashFactor : Number) : Factors Number :=
  { factors with lastCoinHashFactor := Function.update factors.lastCoinHashFactor coin (some coinHashFactor) }

def setMM (factors : Factors Number) (coin : String) (coinHashFactor : Number) : Factors Number :=
  { factors with lastCoinHashFactorMM := Function.update factors.lastCoinHashFactorMM coin (some coinHashFactor) }

end Factors

section Updates

variable (registry : Registry) (active : String → Bool)

def withChild (factors : Factors Number) (port : ℕ) (coinHashFactor : Number) : Number :=
  match (registry.mm_port_set port).bind registry.PORT2COIN with
  | some childCoin => coinHashFactor + factors.last childCoin
  | none => coinHashFactor

def setFactor : ℕ → Bool → String → Number → Factors Number → Factors Number
  | fuel,isHashFactorChange,coin,coinHashFactor,before =>
    let factors := if isHashFactorChange then before.set coin coinHashFactor else before
    match registry.COIN2PORT coin with
    | none => factors.setMM coin coinHashFactor
    | some port =>
      let derived := factors.setMM coin (withChild registry factors port coinHashFactor)
      if active coin && isHashFactorChange then
        match fuel with
        | 0 => derived
        | fuel + 1 => (registry.mm_child_port_set port).foldl (fun factors parentPort =>
          match registry.PORT2COIN parentPort with
          | some parentCoin => setFactor fuel true parentCoin (factors.last parentCoin) factors
          | none => factors) derived
      else derived

def setNewCoinHashFactor (isHashFactorChange : Bool) (coin : String) (coinHashFactor : Number)
    (factors : Factors Number) :
    Factors Number :=
  setFactor registry active ((registry.COIN2PORT coin).elim 0 registry.depth) isHashFactorChange coin
    coinHashFactor factors

end Updates

/-- What decides on a template that arrives: `built` is the id of the template that is made of it, unless it is
malformed. -/
structure Template (Number : Type) where
  coin : String
  coinHashFactor : Number
  isHashFactorChange : Bool
  idHash : Option String
  parent_blocktemplate_blob : Option String
  built : Option String

structure World (Number : Type) where
  factors : Factors Number
  activeBlockTemplates : String → Option String

namespace World

def active (world : World Number) (coin : String) : Bool := (world.activeBlockTemplates coin).isSome

end World

section Steps

variable (registry : Registry) [DecidableEq Number]

def update (world : World Number) (isHashFactorChange : Bool) (coin : String) (coinHashFactor : Number) :
    World Number :=
  { world with
    factors := setNewCoinHashFactor registry world.active isHashFactorChange coin coinHashFactor world.factors }

def skipped (factors : Factors Number) (coin : String) (coinHashFactor : Number) : Bool :=
  coin = "" || (coinHashFactor = 0 && factors.lastCoinHashFactor coin = some 0)

def coinHashFactorUpdate (world : World Number) (coin : String) (coinHashFactor : Number) : World Number :=
  if skipped world.factors coin coinHashFactor then world else update registry world true coin coinHashFactor

def setNewBlockTemplate (world : World Number) (template : Template Number) : World Number :=
  if ((world.activeBlockTemplates template.coin).any fun idHash => some idHash = template.idHash) &&
      template.parent_blocktemplate_blob.isNone then world
  else
    match template.built with
    | none => world
    | some idHash => update registry
      { world with activeBlockTemplates := Function.update world.activeBlockTemplates template.coin (some idHash) }
      template.isHashFactorChange template.coin template.coinHashFactor

inductive Label (Number : Type) where
  | coinHashFactorUpdate (coin : String) (coinHashFactor : Number)
  | newCoinHashFactor (coin : String) (coinHashFactor : Number)
  | newBlockTemplate (template : Template Number) (flagged : template.isHashFactorChange = true)

variable [One Number]

def initialized (coins : List String) : World Number where
  factors :=
    { lastCoinHashFactor := fun coin => if coin = "" then some 1 else if coin ∈ coins then some 0 else none
      lastCoinHashFactorMM := fun coin => if coin = "" then some 1 else if coin ∈ coins then some 0 else none }
  activeBlockTemplates := fun _ => none

def hashFactors (coins : List String) : Machine (World Number) (Label Number) where
  initial world := world = initialized coins
  step world label :=
    match label with
    | .coinHashFactorUpdate coin coinHashFactor => some (coinHashFactorUpdate registry world coin coinHashFactor)
    | .newCoinHashFactor coin coinHashFactor => some (update registry world true coin coinHashFactor)
    | .newBlockTemplate template _ => some (setNewBlockTemplate registry world template)

end Steps

section Derived

variable {registry : Registry} {active : String → Bool} {factors : Factors Number} {coin parentCoin childCoin : String}
  {before middle after : Factors Number} {coinHashFactor : Number}

@[simp] theorem last_set (coin other : String) (coinHashFactor : Number) :
    (factors.set coin coinHashFactor).last other = if other = coin then coinHashFactor else factors.last other := by
  unfold Factors.last Factors.set
  dsimp only
  rw [Function.update_apply]
  split <;> rfl

@[simp] theorem mm_set (coin other : String) (coinHashFactor : Number) :
    (factors.set coin coinHashFactor).mm other = factors.mm other := rfl

@[simp] theorem last_setMM (coin other : String) (coinHashFactor : Number) :
    (factors.setMM coin coinHashFactor).last other = factors.last other := rfl

@[simp] theorem mm_setMM (coin other : String) (coinHashFactor : Number) :
    (factors.setMM coin coinHashFactor).mm other = if other = coin then coinHashFactor else factors.mm other := by
  unfold Factors.mm Factors.setMM
  dsimp only
  rw [Function.update_apply]
  split <;> rfl

structure Pair (registry : Registry) (parentCoin childCoin : String) : Prop where
  ports : ∃ parentPort childPort, registry.mm_port_set parentPort = some childPort ∧
    registry.PORT2COIN parentPort = some parentCoin ∧ registry.PORT2COIN childPort = some childCoin

def Adds (factors : Factors Number) (parentCoin childCoin : String) : Prop :=
  factors.mm parentCoin = factors.last parentCoin + factors.last childCoin

def Restored (registry : Registry) (factors : Factors Number) : Prop :=
  ∀ parentCoin childCoin, Pair registry parentCoin childCoin → Adds factors parentCoin childCoin

theorem Pair.ne (pair : Pair registry parentCoin childCoin) : parentCoin ≠ childCoin := by
  rintro rfl
  obtain ⟨parentPort,childPort,linked,parent,child⟩ := pair.ports
  have own := registry.parent_port parentPort childPort parentCoin linked parent
  have same := Option.some.inj (own.symm.trans (registry.child_port parentPort childPort parentCoin linked child))
  have less := registry.shallower parentPort childPort linked
  rw [same] at less
  exact Nat.lt_irrefl _ less

theorem Pair.withChild (pair : Pair registry parentCoin childCoin) (factors : Factors Number) {port : ℕ}
    (own : registry.COIN2PORT parentCoin = some port)
    (coinHashFactor : Number) : withChild registry factors port coinHashFactor = coinHashFactor +
      factors.last childCoin := by
  obtain ⟨parentPort,childPort,linked,parent,child⟩ := pair.ports
  have same := Option.some.inj (own.symm.trans (registry.parent_port parentPort childPort parentCoin linked parent))
  rw [HashFactors.withChild,same,linked,Option.bind_some,child]

theorem Pair.port (pair : Pair registry parentCoin childCoin) : ∃ port, registry.COIN2PORT parentCoin = some port := by
  obtain ⟨parentPort,childPort,linked,parent,_⟩ := pair.ports
  exact ⟨parentPort,registry.parent_port parentPort childPort parentCoin linked parent⟩

/-- What an update of parents to their own factors leaves: every factor, and every derived factor that was right. -/
structure Refreshes (registry : Registry) (before after : Factors Number) : Prop where
  last : ∀ coin, after.last coin = before.last coin
  adds : ∀ parentCoin childCoin, Pair registry parentCoin childCoin → Adds before parentCoin childCoin →
    Adds after parentCoin childCoin

theorem Refreshes.trans (first : Refreshes registry before middle)
    (second : Refreshes registry middle after) : Refreshes registry before after :=
  ⟨fun coin => (second.last coin).trans (first.last coin),fun _ _ pair adds =>
    second.adds _ _ pair (first.adds _ _ pair adds)⟩

private theorem refreshes_self (factors : Factors Number) : Refreshes registry factors factors :=
  ⟨fun _ => rfl,fun _ _ _ adds => adds⟩

theorem refresh_parents {step : String → Factors Number → Factors Number}
    (refreshes : ∀ coin factors, Refreshes registry factors (step coin factors) ∧
      ∀ childCoin, Pair registry coin childCoin → Adds (step coin factors) coin childCoin) (parentPorts : List ℕ)
    (factors : Factors Number) :
    let after := parentPorts.foldl (fun factors parentPort =>
      match registry.PORT2COIN parentPort with
      | some parentCoin => step parentCoin factors
      | none => factors) factors
    Refreshes registry factors after ∧ ∀ parentPort ∈ parentPorts, ∀ parentCoin childCoin,
      registry.PORT2COIN parentPort = some parentCoin → Pair registry parentCoin childCoin →
      Adds after parentCoin childCoin := by
  induction parentPorts generalizing factors with
  | nil => exact ⟨refreshes_self factors,nofun⟩
  | cons parentPort parentPorts ih =>
    intro after
    cases found : registry.PORT2COIN parentPort with
    | none =>
      obtain ⟨rest,right⟩ := ih factors
      have same : after = parentPorts.foldl (fun factors parentPort =>
          match registry.PORT2COIN parentPort with
          | some parentCoin => step parentCoin factors
          | none => factors) factors := by
        show List.foldl _ _ (parentPort::parentPorts) = _
        rw [List.foldl_cons,found]
      rw [same]
      refine ⟨rest,?_⟩
      intro port member parentCoin childCoin listed pair
      rcases List.mem_cons.mp member with rfl | later
      · rw [found] at listed
        cases listed
      · exact right port later parentCoin childCoin listed pair
    | some parentCoin =>
      obtain ⟨here,own⟩ := refreshes parentCoin factors
      obtain ⟨rest,right⟩ := ih (step parentCoin factors)
      have same : after = parentPorts.foldl (fun factors parentPort =>
          match registry.PORT2COIN parentPort with
          | some parentCoin => step parentCoin factors
          | none => factors) (step parentCoin factors) := by
        show List.foldl _ _ (parentPort::parentPorts) = _
        rw [List.foldl_cons,found]
      rw [same]
      refine ⟨here.trans rest,?_⟩
      intro port member other childCoin listed pair
      rcases List.mem_cons.mp member with rfl | later
      · rw [found] at listed
        cases listed
        exact rest.adds _ _ pair (own childCoin pair)
      · exact right port later other childCoin listed pair

private theorem derived_refreshes (factors : Factors Number) {port : ℕ} (own : registry.COIN2PORT coin = some port) :
    let set := factors.set coin (factors.last coin)
    let derived := set.setMM coin (withChild registry set port (factors.last coin))
    Refreshes registry factors derived ∧ ∀ childCoin, Pair registry coin childCoin → Adds derived coin childCoin := by
  intro set derived
  have last (other : String) : derived.last other = factors.last other := by
    simp only [derived,set,last_setMM,last_set]
    split
    next same => rw [same]
    · rfl
  have right : ∀ childCoin, Pair registry coin childCoin → Adds derived coin childCoin := by
    intro childCoin pair
    have total := pair.withChild set own (factors.last coin)
    rw [Adds,last,last,mm_setMM,if_pos rfl,total,last_set,if_neg pair.ne.symm]
  refine ⟨⟨last,?_⟩,right⟩
  intro parentCoin childCoin pair adds
  by_cases same : parentCoin = coin
  · subst same
    exact right childCoin pair
  · rw [Adds,last,last,mm_setMM,if_neg same,mm_set]
    exact adds

private theorem unlisted_refreshes (factors : Factors Number) (unlisted : registry.COIN2PORT coin = none)
    (coinHashFactor : Number) :
    let derived := (factors.set coin (factors.last coin)).setMM coin coinHashFactor
    Refreshes registry factors derived ∧ ∀ childCoin, Pair registry coin childCoin → Adds derived coin childCoin := by
  intro derived
  have apart {childCoin : String} (pair : Pair registry coin childCoin) : False := by
    obtain ⟨port,found⟩ := pair.port
    rw [unlisted] at found
    cases found
  have last (other : String) : derived.last other = factors.last other := by
    simp only [derived,last_setMM,last_set]
    split
    next same => rw [same]
    · rfl
  refine ⟨⟨last,?_⟩,fun _ pair => (apart pair).elim⟩
  intro parentCoin childCoin pair adds
  have ne : parentCoin ≠ coin := by
    rintro rfl
    exact apart pair
  rw [Adds,last,last,mm_setMM,if_neg ne,mm_set]
  exact adds

variable (registry active) in
theorem setFactor_refreshes (fuel : ℕ) (coin : String) (factors : Factors Number) :
    Refreshes registry factors (setFactor registry active fuel true coin (factors.last coin) factors) ∧
      ∀ childCoin, Pair registry coin childCoin →
        Adds (setFactor registry active fuel true coin (factors.last coin) factors) coin childCoin := by
  induction fuel generalizing coin factors with
  | zero =>
    unfold setFactor
    rw [if_pos rfl]
    cases own : registry.COIN2PORT coin with
    | none => exact unlisted_refreshes factors own _
    | some port =>
      dsimp only
      split <;> exact derived_refreshes factors own
  | succ fuel ih =>
    unfold setFactor
    rw [if_pos rfl]
    cases own : registry.COIN2PORT coin with
    | none => exact unlisted_refreshes factors own _
    | some port =>
      obtain ⟨here,right⟩ := derived_refreshes factors own
      dsimp only
      split
      · obtain ⟨rest,_⟩ := refresh_parents (fun coin factors => ih coin factors) (registry.mm_child_port_set port)
          ((factors.set coin (factors.last coin)).setMM coin
            (withChild registry (factors.set coin (factors.last coin)) port (factors.last coin)))
        exact ⟨here.trans rest,fun childCoin pair => rest.adds _ _ pair (right childCoin pair)⟩
      · exact ⟨here,right⟩

/-- What an update does: it sets one factor, makes the coin's own derived factor right, leaves those of other pairs, and
makes those of the coin's parents right where the coin has a template. -/
structure Updated (registry : Registry) (active : String → Bool) (coin : String) (coinHashFactor : Number)
    (before after : Factors Number) : Prop where
  last : ∀ other, after.last other = if other = coin then coinHashFactor else before.last other
  own : ∀ childCoin, Pair registry coin childCoin → Adds after coin childCoin
  others : ∀ parentCoin childCoin, Pair registry parentCoin childCoin → parentCoin ≠ coin → childCoin ≠ coin →
    Adds before parentCoin childCoin → Adds after parentCoin childCoin
  parents : ∀ parentCoin, Pair registry parentCoin coin →
    if active coin then Adds after parentCoin coin else after.mm parentCoin = before.mm parentCoin

theorem Updated.refreshed
    (updated : Updated registry (fun _ => false) coin coinHashFactor before middle)
    (refreshes : Refreshes registry middle after)
    (parents : ∀ parentCoin, Pair registry parentCoin coin → Adds after parentCoin coin) (used : active coin = true) :
    Updated registry active coin coinHashFactor before after := by
  refine ⟨fun other => (refreshes.last other).trans (updated.last other),?_,?_,?_⟩
  · intro childCoin pair
    exact refreshes.adds _ _ pair (updated.own childCoin pair)
  · intro parentCoin childCoin pair parent child adds
    exact refreshes.adds _ _ pair (updated.others parentCoin childCoin pair parent child adds)
  · intro parentCoin pair
    rw [if_pos used]
    exact parents parentCoin pair

theorem Updated.still (updated : Updated registry (fun _ => false) coin coinHashFactor before after)
    (unused : active coin = false ∨ ∀ parentCoin, ¬ Pair registry parentCoin coin) :
    Updated registry active coin coinHashFactor before after := by
  refine ⟨updated.last,updated.own,updated.others,?_⟩
  intro parentCoin pair
  rcases unused with unused | alone
  · rw [unused]
    exact updated.parents parentCoin pair
  · exact absurd pair (alone parentCoin)

private theorem derived_updated (factors : Factors Number) (coinHashFactor own : Number)
    (right : ∀ childCoin, Pair registry coin childCoin →
      own = coinHashFactor + (factors.set coin coinHashFactor).last childCoin) :
    Updated registry (fun _ => false) coin coinHashFactor factors
    ((factors.set coin coinHashFactor).setMM coin own) := by
  refine ⟨fun other => by rw [last_setMM,last_set],?_,?_,?_⟩
  · intro childCoin pair
    rw [Adds,last_setMM,last_setMM,mm_setMM,if_pos rfl,last_set,if_pos rfl]
    exact right childCoin pair
  · intro parentCoin childCoin _ parent child adds
    rw [Adds,last_setMM,last_setMM,last_set,last_set,mm_setMM,if_neg parent,if_neg parent,if_neg child,mm_set]
    exact adds
  · intro parentCoin pair
    rw [if_neg Bool.false_ne_true,mm_setMM,if_neg pair.ne,mm_set]

private theorem setNewCoinHashFactor_updated (active : String → Bool) (coin : String) (coinHashFactor : Number)
    (factors : Factors Number) :
    Updated registry active coin coinHashFactor factors (setNewCoinHashFactor registry active true coin
      coinHashFactor factors) := by
  unfold setNewCoinHashFactor
  cases own : registry.COIN2PORT coin with
  | none =>
    have parentless (parentCoin : String) (pair : Pair registry parentCoin coin) : False := by
      obtain ⟨parentPort,childPort,linked,_,child⟩ := pair.ports
      have found := registry.child_port parentPort childPort coin linked child
      rw [own] at found
      cases found
    unfold setFactor
    rw [if_pos rfl,own]
    refine (derived_updated factors coinHashFactor _ ?_).still (.inr parentless)
    intro childCoin pair
    obtain ⟨port,found⟩ := pair.port
    rw [own] at found
    cases found
  | some port =>
    have derived : Updated registry (fun _ => false) coin coinHashFactor factors
      ((factors.set coin coinHashFactor).setMM coin
        (withChild registry (factors.set coin coinHashFactor) port coinHashFactor)) :=
      derived_updated factors coinHashFactor _ fun childCoin pair => pair.withChild _ own coinHashFactor
    -- a port with parents is not at depth zero
    have parent_port {parentCoin : String} (pair : Pair registry parentCoin coin) : ∃ parentPort,
        parentPort ∈ registry.mm_child_port_set port ∧ registry.PORT2COIN parentPort = some parentCoin ∧
          registry.depth parentPort < registry.depth port := by
      obtain ⟨parentPort,childPort,linked,parent,child⟩ := pair.ports
      have same := Option.some.inj (own.symm.trans (registry.child_port parentPort childPort coin linked child))
      subst same
      exact ⟨parentPort,(registry.linked parentPort port).mpr linked,parent,registry.shallower parentPort port linked⟩
    show Updated registry active coin coinHashFactor factors (setFactor registry active (registry.depth port) true coin
      coinHashFactor factors)
    cases used : active coin with
    | false =>
      cases registry.depth port <;>
      · unfold setFactor
        rw [if_pos rfl,own]
        dsimp only
        rw [used,if_neg (by decide)]
        exact derived.still (.inl used)
    | true =>
      cases deep : registry.depth port with
      | zero =>
        unfold setFactor
        rw [if_pos rfl,own]
        dsimp only
        rw [used,if_pos (by decide)]
        refine derived.still (.inr fun parentCoin pair => ?_)
        obtain ⟨_,_,_,less⟩ := parent_port pair
        omega
      | succ fuel =>
        unfold setFactor
        rw [if_pos rfl,own]
        dsimp only
        rw [used,if_pos (by decide)]
        obtain ⟨rest,right⟩ := refresh_parents (setFactor_refreshes registry active fuel)
          (registry.mm_child_port_set port)
          ((factors.set coin coinHashFactor).setMM coin (withChild registry (factors.set coin coinHashFactor) port
            coinHashFactor))
        refine derived.refreshed rest ?_ used
        intro parentCoin pair
        obtain ⟨parentPort,member,parent,_⟩ := parent_port pair
        exact right parentPort member parentCoin coin parent pair

end Derived

section Runs

variable {registry : Registry} [DecidableEq Number] {world : World Number} {coin : String} {coinHashFactor : Number}

/-- With the new factor of a child every parent has the same sum as with the old one. -/
def Agrees (registry : Registry) (factors : Factors Number) (coin : String) (coinHashFactor : Number) : Prop :=
  ∀ parentCoin, Pair registry parentCoin coin → factors.last parentCoin + coinHashFactor = factors.last parentCoin +
    factors.last coin

/-- A factor that arrives for a child without a template agrees with the old one. -/
def Keeps (registry : Registry) (world : World Number) : Label Number → Prop
  | .coinHashFactorUpdate coin coinHashFactor =>
    skipped world.factors coin coinHashFactor = true ∨ world.active coin = true ∨
    Agrees registry world.factors coin coinHashFactor
  | .newCoinHashFactor coin coinHashFactor => world.active coin = true ∨
    Agrees registry world.factors coin coinHashFactor
  | .newBlockTemplate _ _ => True

omit [DecidableEq Number] in
theorem update_restored (restored : Restored registry world.factors) :
    Restored registry (update registry world true coin coinHashFactor).factors ↔
      world.active coin = true ∨ Agrees registry world.factors coin coinHashFactor := by
  have updated : Updated registry world.active coin coinHashFactor world.factors
      (update registry world true coin coinHashFactor).factors :=
    setNewCoinHashFactor_updated world.active coin coinHashFactor world.factors
  have parents (parentCoin : String) (pair : Pair registry parentCoin coin) (unused : world.active coin = false) :
      Adds (update registry world true coin coinHashFactor).factors parentCoin coin ↔
        world.factors.last parentCoin + coinHashFactor = world.factors.last parentCoin + world.factors.last coin := by
    have kept := updated.parents parentCoin pair
    rw [unused,if_neg Bool.false_ne_true] at kept
    rw [Adds,kept,restored parentCoin coin pair,updated.last,updated.last,if_neg pair.ne,if_pos rfl]
    exact eq_comm
  constructor
  · intro after
    cases used : world.active coin with
    | true => exact .inl rfl
    | false => exact .inr fun parentCoin pair => (parents parentCoin pair used).mp (after parentCoin coin pair)
  · intro agrees parentCoin childCoin pair
    by_cases parent : parentCoin = coin
    · subst parent
      exact updated.own childCoin pair
    · by_cases child : childCoin = coin
      · subst child
        cases used : world.active childCoin with
        | true =>
          have right := updated.parents parentCoin pair
          rwa [used,if_pos rfl] at right
        | false =>
          rw [used] at agrees
          exact (parents parentCoin pair used).mpr (agrees.resolve_left Bool.false_ne_true parentCoin pair)
      · exact updated.others parentCoin childCoin pair parent child (restored parentCoin childCoin pair)

omit [DecidableEq Number] in
private theorem template_restored (restored : Restored registry world.factors) (template : Template Number)
    (flagged : template.isHashFactorChange = true) :
    Restored registry (setNewBlockTemplate registry world template).factors := by
  unfold setNewBlockTemplate
  split
  · exact restored
  · cases template.built with
    | none => exact restored
    | some idHash =>
      dsimp only
      rw [flagged]
      refine (update_restored ?_).mpr (.inl ?_)
      · exact restored
      · show (Function.update world.activeBlockTemplates template.coin (some idHash) template.coin).isSome = true
        rw [Function.update_self]
        rfl

variable [One Number] {coins : List String}

private theorem step_restored {next : World Number} {label : Label Number}
    (moved : (hashFactors registry coins).step world label = some next)
    (restored : Restored registry world.factors) : Restored registry next.factors ↔ Keeps registry world label := by
  cases label with
  | coinHashFactorUpdate coin coinHashFactor =>
    obtain rfl := Option.some.inj moved
    unfold coinHashFactorUpdate Keeps
    split
    next skip => exact iff_of_true restored (.inl skip)
    next done =>
      rw [update_restored restored]
      exact (or_iff_right done).symm
  | newCoinHashFactor coin coinHashFactor =>
    obtain rfl := Option.some.inj moved
    exact update_restored restored
  | newBlockTemplate template flagged =>
    obtain rfl := Option.some.inj moved
    exact iff_of_true (template_restored restored template flagged) trivial

def BaseApart (registry : Registry) : Prop := ∀ parentCoin, ¬ Pair registry parentCoin ""

omit [DecidableEq Number] in
private theorem initialized_restored [NeZero (1 : Number)] :
    Restored registry (initialized coins : World Number).factors ↔ BaseApart registry := by
  have value (coin : String) : (initialized coins : World Number).factors.last coin = if coin = "" then 1 else 0 := by
    simp only [initialized,Factors.last]
    split
    · rfl
    · split <;> rfl
  have derived (coin : String) : (initialized coins : World Number).factors.mm coin = if coin = "" then 1 else 0 :=
    value coin
  constructor
  · intro restored parentCoin pair
    have adds := restored parentCoin "" pair
    rw [Adds,derived,value,value,if_neg pair.ne,if_pos rfl,zero_add] at adds
    exact one_ne_zero adds.symm
  · intro apart parentCoin childCoin pair
    have child : childCoin ≠ "" := by
      rintro rfl
      exact apart parentCoin pair
    rw [Adds,derived,value,value,if_neg child,add_zero]

/-- All along a run every parent's derived factor adds its child's, exactly where the base coin is the child of none and
no factor of a child without a template disagrees with the old one. -/
theorem factors_restored [NeZero (1 : Number)] (registry : Registry) (coins : List String)
    (labels : List (Label Number)) :
    (∀ front world, front <+: labels → (hashFactors registry coins).run (initialized coins) front = some world →
      Restored registry world.factors) ↔
    BaseApart registry ∧ (hashFactors registry coins).Along (Keeps registry) (initialized coins) labels := by
  have total (labels : List (Label Number)) (world : World Number) :
      ∃ last, (hashFactors registry coins).run world labels = some last := by
    induction labels generalizing world with
    | nil => exact ⟨world,rfl⟩
    | cons label labels ih =>
      obtain ⟨next,moved⟩ : ∃ next, (hashFactors registry coins).step world label = some next := by
        cases label <;> exact ⟨_,rfl⟩
      obtain ⟨last,ran⟩ := ih next
      exact ⟨last,by rw [Machine.run,moved]; exact ran⟩
  obtain ⟨last,ran⟩ := total labels (initialized coins)
  have kept (world next : World Number) (label : Label Number) (_ : True)
      (moved : (hashFactors registry coins).step world label = some next) :
      True ∧ (Restored registry world.factors → (Restored registry next.factors ↔ Keeps registry world label)) :=
    ⟨trivial,step_restored moved⟩
  have along (base : BaseApart registry) :=
    Machine.always_iff_along kept trivial (initialized_restored.mpr base) ran
  constructor
  · intro always
    have base := initialized_restored.mp (always [] _ List.nil_prefix rfl)
    exact ⟨base,(along base).mp always⟩
  · rintro ⟨base,keeps⟩
    exact (along base).mpr keeps

def twoCoins : Registry where
  COIN2PORT coin := if coin = "P" then some 1 else if coin = "C" then some 2 else none
  PORT2COIN port := if port = 1 then some "P" else if port = 2 then some "C" else none
  mm_port_set port := if port = 1 then some 2 else none
  mm_child_port_set port := if port = 2 then [1] else []
  linked parentPort childPort := by
    by_cases parent : parentPort = 1 <;> by_cases child : childPort = 2 <;> simp [parent,child,eq_comm]
  depth port := port
  shallower parentPort childPort linked := by
    by_cases parent : parentPort = 1 <;> simp [parent] at linked ⊢
    omega
  parent_port parentPort childPort coin linked listed := by
    by_cases parent : parentPort = 1 <;> simp [parent] at linked listed ⊢
    simp [← listed]
  child_port parentPort childPort coin linked listed := by
    by_cases parent : parentPort = 1 <;> simp [parent] at linked
    subst linked
    simp at listed
    simp [← listed]

private theorem twoCoins_pair : Pair twoCoins "P" "C" := ⟨1,2,rfl,rfl,rfl⟩

private theorem twoCoins_base : BaseApart twoCoins := by
  rintro parentCoin ⟨parentPort,childPort,linked,_,child⟩
  by_cases parent : parentPort = 1 <;> simp [twoCoins,parent] at linked
  subst linked
  simp [twoCoins] at child

theorem factors_restored_twoCoins : ∃ last, (hashFactors twoCoins ["P","C"]).run (initialized ["P","C"] : World ℚ)
    [.newBlockTemplate ⟨"C",5,true,none,none,some "c"⟩ rfl,.newBlockTemplate ⟨"P",2,true,none,none,some "p"⟩ rfl,
      .newCoinHashFactor "C" 7] = some last ∧ Restored twoCoins last.factors ∧ last.factors.mm "P" = 9 := by
  refine ⟨_,rfl,?_,by decide +kernel⟩
  refine (factors_restored twoCoins ["P","C"] [.newBlockTemplate ⟨"C",5,true,none,none,some "c"⟩ rfl,
    .newBlockTemplate ⟨"P",2,true,none,none,some "p"⟩ rfl,.newCoinHashFactor "C" 7]).mpr ⟨twoCoins_base,?_⟩ _ _
    List.prefix_rfl rfl
  refine ⟨trivial,fun _ one => ?_⟩
  cases one
  refine ⟨trivial,fun _ two => ?_⟩
  cases two
  exact ⟨.inl rfl,fun _ _ => trivial⟩

/-- A child without a template gets a factor: its parent's derived factor stays. -/
theorem factor_stale : ∃ last, (hashFactors twoCoins ["P","C"]).run (initialized ["P","C"] : World ℚ)
    [.newCoinHashFactor "C" 5] = some last ∧ last.factors.mm "P" = 0 ∧
      last.factors.last "P" + last.factors.last "C" = 5 ∧ ¬ Restored twoCoins last.factors := by
  refine ⟨_,rfl,by decide +kernel,by decide +kernel,?_⟩
  intro restored
  have adds := restored "P" "C" twoCoins_pair
  revert adds
  unfold Adds
  decide +kernel

end Runs
end NodejsPool.Pool.HashFactors
