import Mathlib.Algebra.Group.Nat.Defs
import Mathlib.Data.List.Forall2
import Mathlib.Order.Basic

/-! Cascades of queues: a full queue combines its oldest values into one for the next queue, and the
last one gives up its oldest. What the values stand for is a stream cut into chunks. -/
namespace NodejsPool.Cascade
open List

variable {Value Sample : Type}

def push (ratio : ℕ) (combine : List Value → Value) : List (ℕ × List Value) → Value → List (ℕ × List Value)
  | [],_ => []
  | [(capacity,values)],value => [(capacity,(if values.length = capacity then values.drop 1 else values) ++ [value])]
  | (capacity,values)::next::rest,value =>
    if values.length = capacity then
      (capacity,values.drop ratio ++ [value])::push ratio combine (next::rest) (combine (values.take ratio))
    else (capacity,values ++ [value])::next::rest

def gone : List (ℕ × List Value) → List Value
  | [] => []
  | [(capacity,values)] => if values.length = capacity then values.take 1 else []
  | (capacity,values)::next::rest => if values.length = capacity then gone (next::rest) else []

def Roomy (ratio : ℕ) : List (ℕ × List Value) → Prop
  | [] => True
  | [(capacity,values)] => 0 < capacity ∧ values.length ≤ capacity
  | (capacity,values)::next::rest => ratio ≤ capacity ∧ values.length ≤ capacity ∧ Roomy ratio (next::rest)

theorem roomy_zipWith {Tier : Type} {contents : ℕ → Tier → List Value} {ratio : ℕ} {capacities : List ℕ}
    {tiers : List Tier}
    (within : Forall₂ (fun capacity tier => (contents capacity tier).length ≤ capacity) capacities tiers)
    (positive : ∀ capacity ∈ capacities, 0 < capacity) (fits : ∀ capacity ∈ capacities.dropLast, ratio ≤ capacity) :
    Roomy ratio (zipWith (fun capacity tier => (capacity,contents capacity tier)) capacities tiers) := by
  induction within with
  | nil => trivial
  | cons own others ih =>
    obtain ⟨here,positive⟩ := forall_mem_cons.mp positive
    cases others with
    | nil => exact ⟨here,own⟩
    | cons next others =>
      obtain ⟨room,fits⟩ := forall_mem_cons.mp fits
      exact ⟨room,own,ih positive fits⟩

/-- Values that stand for chunks of one length, in the order of the stream. -/
inductive Chunks (stands : Value → List Sample → Prop) (size : ℕ) : List Value → List Sample → Prop
  | nil : Chunks stands size [] []
  | cons {value : Value} {values : List Value} {chunk rest : List Sample} (stand : stands value chunk)
      (length : chunk.length = size) (chunks : Chunks stands size values rest) :
      Chunks stands size (value::values) (chunk ++ rest)

/-- The queues from the newest part of the stream to the oldest, which begins with the values given up. -/
inductive Covers (stands : Value → List Sample → Prop) (ratio : ℕ) : ℕ → List (ℕ × List Value) → List Value →
    List Sample → Prop
  | last {level capacity : ℕ} {values lost : List Value} {samples : List Sample}
      (chunks : Chunks stands (ratio ^ level) (lost ++ values) samples) :
      Covers stands ratio level [(capacity,values)] lost samples
  | next {level capacity : ℕ} {values lost : List Value} {queue : ℕ × List Value} {queues : List (ℕ × List Value)}
      {older newer : List Sample} (chunks : Chunks stands (ratio ^ level) values newer)
      (covers : Covers stands ratio (level + 1) (queue::queues) lost older) :
      Covers stands ratio level ((capacity,values)::queue::queues) lost (older ++ newer)

variable {stands : Value → List Sample → Prop} {ratio size level : ℕ} {combine : List Value → Value}
variable {value : Value} {values more lost : List Value} {samples chunk : List Sample} {queues : List (ℕ × List Value)}

theorem Chunks.append {others : List Sample} (chunks : Chunks stands size values samples)
    (rest : Chunks stands size more others) :
    Chunks stands size (values ++ more) (samples ++ others) := by
  induction chunks with
  | nil => exact rest
  | cons stand length _ ih =>
    rw [append_assoc]
    exact .cons stand length ih

theorem Chunks.single (stand : stands value chunk) (length : chunk.length = size) :
    Chunks stands size [value] chunk := by
  have single : Chunks stands size [value] (chunk ++ []) := .cons stand length .nil
  rwa [append_nil] at single

theorem Chunks.split (chunks : Chunks stands size (values ++ more) samples) :
    ∃ older newer, samples = older ++ newer ∧ Chunks stands size values older ∧ Chunks stands size more newer := by
  induction values generalizing samples with
  | nil => exact ⟨[],samples,rfl,.nil,chunks⟩
  | cons value values ih =>
    cases chunks with
    | cons stand length rest =>
      obtain ⟨older,newer,rfl,front,back⟩ := ih rest
      exact ⟨_ ++ older,newer,(append_assoc ..).symm,.cons stand length front,back⟩

theorem Chunks.length (chunks : Chunks stands size values samples) : samples.length = size * values.length := by
  induction chunks with
  | nil => rfl
  | cons _ length _ ih => rw [length_append,length,ih,length_cons,Nat.mul_succ,Nat.add_comm]

theorem Chunks.getLast_map {Key : Type} {key : Value → Key} {stamp : Sample → Key}
    (newest : ∀ value chunk, stands value chunk → chunk.getLast?.map stamp = some (key value))
    (chunks : Chunks stands size values samples) : samples.getLast?.map stamp = values.getLast?.map key := by
  have some_chunk {value : Value} {chunk : List Sample} (stand : stands value chunk) : chunk ≠ [] := by
    rintro rfl
    cases newest value [] stand
  induction chunks with
  | nil => rfl
  | @cons value values chunk rest stand _ chunks ih =>
    cases chunks with
    | nil =>
      rw [append_nil]
      exact newest value chunk stand
    | @cons next values other rest beside _ _ =>
      have some_rest : other ++ rest ≠ [] := append_ne_nil_of_left_ne_nil (some_chunk beside) rest
      rw [getLast?_append_of_ne_nil _ some_rest,ih,getLast?_cons_cons]

/-- Combining a group of values stands for their chunks together. -/
def Combines (stands : Value → List Sample → Prop) (ratio : ℕ) (combine : List Value → Value) : Prop :=
  ∀ size values samples, values.length = ratio → Chunks stands size values samples → stands (combine values) samples

theorem push_cons (ratio : ℕ) (combine : List Value → Value) (queue : ℕ × List Value) (queues : List (ℕ × List Value))
    (value : Value) :
    ∃ head tail, push ratio combine (queue::queues) value = head::tail := by
  cases queues with
  | nil => exact ⟨_,_,rfl⟩
  | cons next rest =>
    unfold push
    split
    · exact ⟨_,_,rfl⟩
    · exact ⟨_,_,rfl⟩

theorem Covers.push (combines : Combines stands ratio combine) (covers : Covers stands ratio level queues lost samples)
    (roomy : Roomy ratio queues) (stand : stands value chunk) (length : chunk.length = ratio ^ level) :
    Covers stands ratio level (push ratio combine queues value) (lost ++ gone queues) (samples ++ chunk) := by
  induction covers generalizing value chunk with
  | @last level capacity values lost samples chunks =>
    have longer := chunks.append (Chunks.single stand length)
    refine .last ?_
    unfold gone
    split
    next full =>
      -- the oldest value moves from the queue to those given up
      rw [append_assoc,← append_assoc (values.take 1),take_append_drop,← append_assoc]
      exact longer
    · rwa [append_nil,← append_assoc]
  | @next level capacity values lost queue queues older newer chunks covers ih =>
    obtain ⟨fits,_,roomy⟩ := roomy
    unfold Cascade.push gone
    split
    next full =>
      have group : (values.take ratio).length = ratio := by rw [length_take,full,Nat.min_eq_left fits]
      rw [← take_append_drop ratio values] at chunks
      obtain ⟨oldest,rest,rfl,compacted,kept⟩ := chunks.split
      have combined := combines _ _ _ group compacted
      have grown : oldest.length = ratio ^ (level + 1) := by rw [compacted.length,group,Nat.pow_succ]
      have deeper := ih roomy combined grown
      have whole : older ++ (oldest ++ rest) ++ chunk = older ++ oldest ++ (rest ++ chunk) := by
        simp only [append_assoc]
      obtain ⟨head,tail,pushed⟩ := push_cons ratio combine queue queues (combine (values.take ratio))
      rw [pushed] at deeper ⊢
      rw [whole]
      exact .next (kept.append (Chunks.single stand length)) deeper
    · rw [append_nil,append_assoc]
      exact .next (chunks.append (Chunks.single stand length)) covers

/-- What the first queue holds is the newest of the stream, and it has been full before it gave anything up. -/
def Recent (ratio : ℕ) : List (ℕ × List Value) → List Value → Prop
  | [],_ => True
  | (capacity,values)::rest,stream => ∃ older, stream = older ++ values ∧
    (older ≠ [] → capacity < stream.length ∧ capacity < values.length + if rest = [] then 1 else ratio)

def Filled (ratio : ℕ) : List (ℕ × List Value) → List Value → Prop
  | [],_ => True
  | [(capacity,values)],lost => lost ≠ [] → values.length = capacity
  | (capacity,values)::next::rest,lost =>
    ((lost ≠ [] ∨ ∃ queue ∈ next::rest, queue.2 ≠ []) → capacity < values.length + ratio) ∧
    Filled ratio (next::rest) lost

theorem Recent.push {stream : List Value} (roomy : Roomy ratio queues) (recent : Recent ratio queues stream)
    (value : Value) :
    Recent ratio (push ratio combine queues value) (stream ++ [value]) := by
  cases queues with
  | nil => trivial
  | cons queue queues =>
    obtain ⟨capacity,values⟩ := queue
    obtain ⟨older,rfl,bounds⟩ := recent
    have regrouped (count : ℕ) : older ++ values ++ [value] =
        older ++ values.take count ++ (values.drop count ++ [value]) := by
      rw [← append_assoc,append_assoc older (values.take count),take_append_drop]
    cases queues with
    | nil =>
      obtain ⟨positive,_⟩ := roomy
      by_cases full : values.length = capacity
      · refine ⟨older ++ values.take 1,?_,fun _ => ⟨?_,?_⟩⟩
        · rw [if_pos full]
          exact regrouped 1
        · simp only [length_append,length_singleton]
          omega
        · rw [if_pos full,if_pos rfl]
          simp only [length_append,length_drop,length_singleton]
          omega
      · refine ⟨older,?_,fun some_older => ?_⟩
        · rw [if_neg full,append_assoc]
        · obtain ⟨longer,close⟩ := bounds some_older
          rw [if_neg full]
          simp only [length_append,length_singleton] at longer close ⊢
          omega
    | cons next rest =>
      obtain ⟨fits,_,_⟩ := roomy
      have more : next::rest ≠ [] := cons_ne_nil _ _
      rw [if_neg more] at bounds
      unfold Cascade.push
      split
      next full =>
        obtain ⟨head,tail,pushed⟩ := push_cons ratio combine next rest (combine (values.take ratio))
        refine ⟨older ++ values.take ratio,regrouped ratio,fun _ => ⟨?_,?_⟩⟩
        · simp only [length_append,length_singleton]
          omega
        · rw [pushed,if_neg (cons_ne_nil _ _)]
          simp only [length_append,length_drop,length_singleton]
          omega
      next room =>
        refine ⟨older,append_assoc .. |>.symm ▸ rfl,fun some_older => ?_⟩
        obtain ⟨longer,close⟩ := bounds some_older
        rw [if_neg more]
        simp only [length_append,length_singleton] at longer close ⊢
        omega

theorem Filled.push (roomy : Roomy ratio queues) (filled : Filled ratio queues lost) (value : Value) :
    Filled ratio (push ratio combine queues value) (lost ++ gone queues) := by
  induction queues generalizing value with
  | nil => trivial
  | cons queue queues ih =>
    obtain ⟨capacity,values⟩ := queue
    cases queues with
    | nil =>
      obtain ⟨positive,within⟩ := roomy
      intro some_lost
      rw [length_append,length_singleton]
      split
      · rw [length_drop]
        omega
      next room =>
        -- nothing is given up by this push
        rw [gone,if_neg room,append_nil] at some_lost
        exact absurd (filled some_lost) room
    | cons next rest =>
      obtain ⟨fits,_,roomy⟩ := roomy
      obtain ⟨here,filled⟩ := filled
      unfold Cascade.push gone
      split
      next full =>
        have deeper := ih roomy filled (combine (values.take ratio))
        obtain ⟨head,tail,pushed⟩ := push_cons ratio combine next rest (combine (values.take ratio))
        rw [pushed] at deeper ⊢
        refine ⟨fun _ => ?_,deeper⟩
        rw [length_append,length_drop,length_singleton]
        omega
      next room =>
        rw [append_nil]
        refine ⟨fun used => ?_,filled⟩
        have close := here used
        rw [length_append,length_singleton]
        omega

section Empty

variable (ratio : ℕ) (capacities : List ℕ)

def empties : List (ℕ × List Value) := capacities.map fun capacity => (capacity,[])

theorem zipWith_empties {Tier : Type} {contents : ℕ → Tier → List Value} {empty : ℕ → Tier}
    (none : ∀ capacity, contents capacity (empty capacity) = []) :
    zipWith (fun capacity tier => (capacity,contents capacity tier)) capacities (capacities.map empty) =
      empties capacities := by
  induction capacities with
  | nil => rfl
  | cons capacity capacities ih =>
    rw [map_cons,zipWith_cons_cons,none,ih]
    rfl

theorem recent_empties : Recent ratio (empties capacities : List (ℕ × List Value)) [] := by
  cases capacities with
  | nil => trivial
  | cons capacity capacities => exact ⟨[],rfl,fun some_older => absurd rfl some_older⟩

theorem filled_empties : Filled ratio (empties capacities : List (ℕ × List Value)) [] := by
  induction capacities with
  | nil => trivial
  | cons capacity capacities ih =>
    cases capacities with
    | nil => exact fun some_lost => absurd rfl some_lost
    | cons next capacities =>
      refine ⟨?_,ih⟩
      rintro (some_lost | ⟨queue,member,some_values⟩)
      · exact absurd rfl some_lost
      · have listed : queue ∈ (empties (next::capacities) : List (ℕ × List Value)) := member
        obtain ⟨_,_,rfl⟩ := mem_map.mp listed
        exact absurd rfl some_values

end Empty

theorem covers_empties {capacities : List ℕ} (some_queue : capacities ≠ []) :
    Covers stands ratio level (empties capacities) [] [] := by
  induction capacities generalizing level with
  | nil => exact absurd rfl some_queue
  | cons capacity capacities ih =>
    cases capacities with
    | nil => exact .last .nil
    | cons next capacities => exact .next .nil (ih (cons_ne_nil _ _))

theorem Covers.split (covers : Covers stands ratio level queues lost samples) :
    ∃ evicted kept, samples = evicted ++ kept ∧ Chunks stands (ratio ^ (level + (queues.length - 1))) lost evicted ∧
      Covers stands ratio level queues [] kept := by
  induction covers with
  | last chunks =>
    obtain ⟨evicted,kept,rfl,front,back⟩ := chunks.split
    exact ⟨evicted,kept,rfl,front,.last back⟩
  | @next level capacity values lost queue queues older newer chunks _ ih =>
    obtain ⟨evicted,kept,rfl,front,back⟩ := ih
    refine ⟨evicted,kept ++ newer,append_assoc .. |>.symm ▸ rfl,?_,.next chunks back⟩
    have deeper : level + 1 + ((queue::queues).length - 1) = level +
        (((capacity,values)::queue::queues).length - 1) := by
      simp only [length_cons]
      omega
    rwa [deeper] at front

theorem forall₂_mem {values : List Value} {cuts : List (List Sample)} (all : Forall₂ stands values cuts)
    (member : value ∈ values) : ∃ cut ∈ cuts, stands value cut := by
  induction all with
  | nil => cases member
  | cons stand _ ih =>
    rcases mem_cons.mp member with rfl | later
    · exact ⟨_,mem_cons_self,stand⟩
    · obtain ⟨cut,inside,stands⟩ := ih later
      exact ⟨cut,mem_cons_of_mem _ inside,stands⟩

def oldestFirst : List (ℕ × List Value) → List Value
  | [] => []
  | (_,values)::queues => oldestFirst queues ++ values

theorem Chunks.cut (chunks : Chunks stands size values samples) :
    ∃ cuts, Forall₂ stands values cuts ∧ samples = cuts.flatten := by
  induction chunks with
  | nil => exact ⟨[],.nil,rfl⟩
  | cons stand _ _ ih =>
    obtain ⟨cuts,all,rfl⟩ := ih
    exact ⟨_::cuts,.cons stand all,rfl⟩

theorem Covers.cut (covers : Covers stands ratio level queues lost samples) :
    ∃ cuts, Forall₂ stands (lost ++ oldestFirst queues) cuts ∧ samples = cuts.flatten := by
  induction covers with
  | last chunks => exact chunks.cut
  | next chunks _ ih =>
    obtain ⟨older,all_older,rfl⟩ := ih
    obtain ⟨newer,all_newer,rfl⟩ := chunks.cut
    refine ⟨older ++ newer,?_,flatten_append.symm⟩
    rw [oldestFirst,← append_assoc]
    exact rel_append all_older all_newer

theorem Covers.ordered (covers : Covers stands ratio level queues lost samples) {before : Sample → Sample → Prop}
    {follows : Value → Value → Prop} (sorted : samples.Pairwise before)
    (carries : ∀ first second older newer, stands first older → stands second newer →
      (∀ sample ∈ older, ∀ other ∈ newer, before sample other) → follows first second) :
    (lost ++ oldestFirst queues).Pairwise follows := by
  obtain ⟨cuts,all,rfl⟩ := covers.cut
  have apart := (pairwise_flatten.mp sorted).2
  clear covers sorted
  generalize lost ++ oldestFirst queues = values at all ⊢
  induction all with
  | nil => exact .nil
  | cons stand all ih =>
    obtain ⟨here,apart⟩ := pairwise_cons.mp apart
    refine pairwise_cons.mpr ⟨?_,ih apart⟩
    intro other member
    obtain ⟨newer,inside,stands⟩ := forall₂_mem all member
    exact carries _ _ _ _ stand stands (here newer inside)

end NodejsPool.Cascade
