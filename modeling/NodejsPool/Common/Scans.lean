import NodejsPool.Common.SortedStore
import Mathlib.Data.List.TakeWhile

/-! A scan of a sorted store by chunks: each chunk is read at once, its entries are visited, and the next chunk starts
past its last key in what the visits left. -/
namespace NodejsPool.Scans
open List (pairwise_cons mem_cons filter_eq_self mem_cons_self mem_append take_append_drop mem_map map_append
  append_nil)

variable {Key Value World : Type*} [LinearOrder Key]

section Reading

def ordered (reverse : Bool) (entries : List (Key × Value)) : List (Key × Value) :=
  if reverse then entries.reverse else entries

def beyond (reverse : Bool) (last : Option Key) (key : Key) : Bool :=
  match last with
  | none => true
  | some last => if reverse then key < last else last < key

/-- What a cursor yields from its first position: `goToFirst` or `goToLast` at the start, else from `goToRange` of
the last key, one step on where that key is still there or the scan goes down. -/
def seek (reverse : Bool) (last : Option Key) (entries : List (Key × Value)) : List (Key × Value) :=
  match last with
  | none => ordered reverse entries
  | some last =>
    if reverse then
      if (entries.dropWhile fun entry => entry.1 < last).isEmpty then entries.reverse
      else (entries.takeWhile fun entry => entry.1 < last).reverse
    else
      match entries.dropWhile fun entry => entry.1 < last with
      | [] => []
      | entry::rest => if entry.1 = last then rest else entry::rest

def remaining (reverse : Bool) (last : Option Key) (store : SortedStore Key Value) : List (Key × Value) :=
  (ordered reverse store.entries).filter fun entry => beyond reverse last entry.1

variable {reverse : Bool} {last : Option Key} {store : SortedStore Key Value} {left right : Key} {entry : Key × Value}

theorem beyond_some : beyond reverse (some left) right = true ↔ if reverse then right < left else left < right := by
  cases reverse <;> simp [beyond]

theorem beyond_irrefl (key : Key) : beyond reverse (some key) key = false := by
  cases reverse <;> simp [beyond]

theorem beyond_trans (one : beyond reverse last left = true) (two : beyond reverse (some left) right = true) :
    beyond reverse last right = true := by
  cases last with
  | none => rfl
  | some last =>
    rw [beyond_some] at *
    cases reverse
    · exact lt_trans one two
    · exact lt_trans two one

theorem beyond_asymm (one : beyond reverse (some left) right = true) : beyond reverse (some right) left = false := by
  rw [Bool.eq_false_iff]
  intro two
  rw [beyond_some] at one two
  cases reverse
  · exact lt_asymm one two
  · exact lt_asymm one two

theorem seen_next (past : beyond reverse last left = true)
    (next : beyond reverse last right = true → right = left ∨ beyond reverse (some left) right = true) :
    beyond reverse (some left) right = false ↔ beyond reverse last right = false ∨ right = left := by
  constructor
  · intro seen
    by_cases before : beyond reverse last right = true
    · refine .inr ((next before).resolve_right fun after => ?_)
      rw [seen] at after
      cases after
    · exact .inl (Bool.eq_false_iff.mpr before)
  · intro seen
    rcases seen with before | rfl
    · rw [Bool.eq_false_iff]
      intro after
      rw [beyond_trans past after] at before
      cases before
    · exact beyond_irrefl right

theorem ordered_pairwise (reverse : Bool) (store : SortedStore Key Value) :
    (ordered reverse store.entries).Pairwise fun left right => beyond reverse (some left.1) right.1 = true := by
  unfold ordered
  cases reverse
  · simpa [beyond] using store.sorted
  · simpa [beyond,List.pairwise_reverse] using store.sorted

theorem mem_ordered : entry ∈ ordered reverse store.entries ↔ entry ∈ store.entries := by
  unfold ordered
  cases reverse <;> simp

theorem mem_remaining :
    entry ∈ remaining reverse last store ↔ entry ∈ store.entries ∧ beyond reverse last entry.1 = true := by
  rw [remaining,List.mem_filter,mem_ordered]

theorem remaining_pairwise (reverse : Bool) (last : Option Key) (store : SortedStore Key Value) :
    (remaining reverse last store).Pairwise fun left right => beyond reverse (some left.1) right.1 = true :=
  (ordered_pairwise reverse store).filter _

theorem ne_of_beyond (past : beyond reverse (some left) right = true) : left ≠ right := by
  rintro rfl
  rw [beyond_irrefl] at past
  cases past

theorem remaining_keys (reverse : Bool) (last : Option Key) (store : SortedStore Key Value) :
    ((remaining reverse last store).map Prod.fst).Pairwise fun left right => beyond reverse (some left) right = true :=
  List.pairwise_map.mpr (remaining_pairwise reverse last store)

theorem keys_unique {one two : List Key}
    (first : one.Pairwise fun left right => beyond reverse (some left) right = true)
    (second : two.Pairwise fun left right => beyond reverse (some left) right = true) (into : one ⊆ two)
    (onto : two ⊆ one) : one = two := by
  have distinct : ∀ {keys : List Key}, keys.Pairwise (fun left right => beyond reverse (some left) right = true) →
      keys.Nodup := fun order => order.imp fun past => ne_of_beyond past
  have perm := (List.subperm_of_subset (distinct first) into).antisymm (List.subperm_of_subset (distinct second) onto)
  refine perm.eq_of_pairwise (fun left right _ _ past back => ?_) first second
  rw [beyond_asymm past] at back
  cases back

theorem takeWhile_sorted {entries : List (Key × Value)} (sorted : entries.Pairwise fun one two => one.1 < two.1)
    (key : Key) : entries.takeWhile (fun entry => entry.1 < key) = entries.filter (fun entry => entry.1 < key) ∧
    entries.dropWhile (fun entry => entry.1 < key) = entries.filter fun entry => key ≤ entry.1 := by
  induction entries with
  | nil => exact ⟨rfl,rfl⟩
  | cons entry entries ih =>
    obtain ⟨first,sorted⟩ := pairwise_cons.mp sorted
    obtain ⟨taken,dropped⟩ := ih sorted
    by_cases less : entry.1 < key
    · simp [less,taken,dropped]
    · have above : ∀ other ∈ entry::entries, key ≤ other.1 := by
        intro other member
        rcases mem_cons.mp member with rfl | member
        · exact not_lt.mp less
        · exact le_trans (not_lt.mp less) (le_of_lt (first other member))
      rw [List.takeWhile_cons_of_neg (by simpa using less),List.dropWhile_cons_of_neg (by simpa using less)]
      constructor
      · refine (List.filter_eq_nil_iff.mpr fun other member => ?_).symm
        simpa using above other member
      · exact (filter_eq_self.mpr fun other member => decide_eq_true (above other member)).symm

theorem seek_eq : seek reverse last store.entries = remaining reverse last store := by
  unfold seek remaining
  cases last with
  | none => exact (filter_eq_self.mpr fun _ _ => rfl).symm
  | some last =>
    obtain ⟨taken,dropped⟩ := takeWhile_sorted store.sorted last
    cases reverse with
    | true =>
      have below : (ordered true store.entries).filter (fun entry => beyond true (some last) entry.1) =
          (store.entries.filter fun entry => entry.1 < last).reverse := by
        rw [← List.filter_reverse]
        rfl
      rw [below]
      simp only [if_true]
      split
      next none =>
        rw [List.isEmpty_iff,dropped,List.filter_eq_nil_iff] at none
        rw [filter_eq_self.mpr]
        intro entry member
        simpa using none entry member
      · rw [taken]
    | false =>
      have above : (ordered false store.entries).filter (fun entry => beyond false (some last) entry.1) =
          (store.entries.filter fun entry => last ≤ entry.1).filter fun entry => last < entry.1 := by
        rw [List.filter_filter]
        refine List.filter_congr fun entry _ => ?_
        by_cases less : last < entry.1 <;> simp [beyond,less,le_of_lt]
      rw [above]
      simp only [Bool.false_eq_true,if_false]
      rw [dropped]
      have sorted := store.sorted.filter fun entry => decide (last ≤ entry.1)
      cases rest : store.entries.filter fun entry => decide (last ≤ entry.1) with
      | nil => rfl
      | cons entry others =>
        rw [rest] at sorted
        obtain ⟨first,_⟩ := pairwise_cons.mp sorted
        have here : last ≤ entry.1 := by
          have member : entry ∈ store.entries.filter fun entry => decide (last ≤ entry.1) := rest ▸ mem_cons_self
          simpa using (List.mem_filter.mp member).2
        dsimp only
        split
        next same =>
          rw [List.filter_cons_of_neg (by simp [same]),filter_eq_self.mpr]
          exact fun other member => decide_eq_true (same ▸ first other member)
        next apart =>
          have more : last < entry.1 := lt_of_le_of_ne here (Ne.symm apart)
          rw [filter_eq_self.mpr]
          intro other member
          rcases mem_cons.mp member with rfl | member
          · exact decide_eq_true more
          · exact decide_eq_true (lt_trans more (first other member))

end Reading
section Chunks

variable {reverse : Bool} {last : Option Key} {store : SortedStore Key Value} {size : ℕ} {entry : Key × Value}

def endOf (last : Option Key) (chunk : List (Key × Value)) : Option Key :=
  chunk.foldl (fun _ entry => some entry.1) last

omit [LinearOrder Key] in
theorem endOf_append (last : Option Key) (front back : List (Key × Value)) :
    endOf last (front ++ back) = endOf (endOf last front) back := List.foldl_append

omit [LinearOrder Key] in
theorem endOf_getLast {chunk : List (Key × Value)} (some : chunk ≠ []) :
    chunk.getLast?.map Prod.fst = endOf last chunk := by
  obtain ⟨front,entry,rfl⟩ := List.eq_nil_or_concat' chunk |>.resolve_left some
  rw [List.getLast?_concat,endOf_append]
  rfl

structure Run (reverse : Bool) (last : Option Key) (chunk : List (Key × Value)) : Prop where
  order : chunk.Pairwise fun left right => beyond reverse (some left.1) right.1 = true
  past : ∀ entry ∈ chunk, beyond reverse last entry.1 = true

theorem Run.tail {chunk : List (Key × Value)} (run : Run reverse last (entry::chunk)) :
    Run reverse (some entry.1) chunk := by
  obtain ⟨first,order⟩ := pairwise_cons.mp run.order
  exact ⟨order,first⟩

theorem Run.beyond_end {chunk : List (Key × Value)} (run : Run reverse last chunk) {key : Key} :
    beyond reverse (endOf last chunk) key = true ↔
      beyond reverse last key = true ∧ ∀ entry ∈ chunk, beyond reverse (some entry.1) key = true := by
  induction chunk generalizing last with
  | nil => simp [endOf]
  | cons entry chunk ih =>
    have head := run.past entry mem_cons_self
    rw [show endOf last (entry::chunk) = endOf (some entry.1) chunk from rfl,ih run.tail,List.forall_mem_cons]
    exact ⟨fun past => ⟨beyond_trans head past.1,past⟩,fun past => past.2⟩

theorem Run.not_beyond_end {chunk : List (Key × Value)} (run : Run reverse last chunk)
    (member : entry ∈ chunk) : beyond reverse (endOf last chunk) entry.1 = false := by
  rw [Bool.eq_false_iff]
  intro past
  have self := (run.beyond_end.mp past).2 entry member
  rw [beyond_irrefl] at self
  cases self

theorem Run.append {front back : List (Key × Value)} (one : Run reverse last front)
    (two : Run reverse (endOf last front) back) : Run reverse last (front ++ back) := by
  refine ⟨List.pairwise_append.mpr ⟨one.order,two.order,fun left member right other => ?_⟩,fun entry member => ?_⟩
  · exact (one.beyond_end.mp (two.past right other)).2 left member
  · rcases mem_append.mp member with member | member
    · exact one.past entry member
    · exact (one.beyond_end.mp (two.past entry member)).1

theorem run_take (reverse : Bool) (last : Option Key) (store : SortedStore Key Value) (size : ℕ) :
    Run reverse last ((remaining reverse last store).take size) where
  order := (remaining_pairwise reverse last store).sublist (List.take_sublist _ _)
  past _ member := (mem_remaining.mp (List.mem_of_mem_take member)).2

variable (size) in
theorem read_or_past {key : Key} (found : (store.get key).isSome) (past : beyond reverse last key = true) :
    key ∈ ((remaining reverse last store).take size).map Prod.fst ∨
      ∃ value, (key,value) ∈ (remaining reverse last store).drop size ∧
        ∀ entry ∈ (remaining reverse last store).take size, beyond reverse (some entry.1) key = true := by
  obtain ⟨value,member⟩ := SortedStore.get_isSome.mp found
  have left := mem_remaining.mpr ⟨member,past⟩
  rw [← take_append_drop size (remaining reverse last store)] at left
  rcases mem_append.mp left with front | back
  · exact .inl (mem_map.mpr ⟨_,front,rfl⟩)
  · have order := remaining_pairwise reverse last store
    rw [← take_append_drop size (remaining reverse last store)] at order
    exact .inr ⟨value,back,fun entry member => (List.pairwise_append.mp order).2.2 entry member _ back⟩

section After

variable {after : SortedStore Key Value}
  (grows : ∀ key, beyond reverse (endOf last ((remaining reverse last store).take size)) key = true →
    (after.get key).isSome → (store.get key).isSome)

include grows

theorem keys_subset : (remaining reverse (endOf last ((remaining reverse last store).take size)) after).map Prod.fst ⊆
      ((remaining reverse last store).drop size).map Prod.fst := by
  have run := run_take reverse last store size
  intro key member
  obtain ⟨entry,left,rfl⟩ := mem_map.mp member
  obtain ⟨there,past⟩ := mem_remaining.mp left
  have before := grows entry.1 past (SortedStore.get_isSome.mpr ⟨entry.2,there⟩)
  rcases read_or_past size before (run.beyond_end.mp past).1 with front | ⟨value,back,_⟩
  · obtain ⟨other,front,same⟩ := mem_map.mp front
    rw [← same,run.not_beyond_end front] at past
    cases past
  · exact mem_map.mpr ⟨_,back,rfl⟩

theorem remaining_shorter : (remaining reverse (endOf last ((remaining reverse last store).take size)) after).length ≤
      (remaining reverse last store).length - size := by
  have distinct := (remaining_keys reverse (endOf last ((remaining reverse last store).take size)) after).imp
    fun {left right} past => (ne_of_beyond past : left ≠ right)
  have shorter := (List.subperm_of_subset distinct (keys_subset grows)).length_le
  rwa [List.length_map,List.length_map,List.length_drop] at shorter

theorem keys_left (kept : ∀ key, (store.get key).isSome →
    beyond reverse (endOf last ((remaining reverse last store).take size)) key = true → (after.get key).isSome) :
    (remaining reverse last store).map Prod.fst = ((remaining reverse last store).take size).map Prod.fst ++
      (remaining reverse (endOf last ((remaining reverse last store).take size)) after).map Prod.fst := by
  have run := run_take reverse last store size
  have back : (remaining reverse (endOf last ((remaining reverse last store).take size)) after).map Prod.fst =
      ((remaining reverse last store).drop size).map Prod.fst := by
    refine keys_unique (remaining_keys reverse _ after) ?_ (keys_subset grows) ?_
    · rw [List.map_drop]
      exact (remaining_keys reverse last store).sublist (List.drop_sublist _ _)
    · intro key member
      obtain ⟨entry,left,rfl⟩ := mem_map.mp member
      obtain ⟨there,past⟩ := mem_remaining.mp (List.mem_of_mem_drop left)
      have order := remaining_pairwise reverse last store
      rw [← take_append_drop size (remaining reverse last store)] at order
      have far := run.beyond_end.mpr ⟨past,fun other member => (List.pairwise_append.mp order).2.2 other member _ left⟩
      obtain ⟨value,found⟩ :=
        SortedStore.get_isSome.mp (kept entry.1 (SortedStore.get_isSome.mpr ⟨entry.2,there⟩) far)
      exact mem_map.mpr ⟨_,mem_remaining.mpr ⟨found,far⟩,rfl⟩
  rw [back,← map_append,take_append_drop]

end After

end Chunks

section Scanning

variable (visit : Key → Value → World → World) (db : World → SortedStore Key Value)

def visitAll (chunk : List (Key × Value)) (world : World) : World :=
  chunk.foldl (fun world entry => visit entry.1 entry.2 world) world

/-- `fuel` bounds the chunks. -/
def scanDb (reverse : Bool) (chunkSize : ℕ) : ℕ → Option Key → World → Option World
  | 0,_,_ => none
  | fuel + 1,last,world =>
    let chunk := (seek reverse last (db world).entries).take chunkSize
    let after := visitAll visit chunk world
    if chunk.length < chunkSize then some after
    else scanDb reverse chunkSize fuel (chunk.getLast?.map Prod.fst) after

variable {visit db} {reverse : Bool} {chunkSize : ℕ}

theorem scanDb_succ (some : 0 < chunkSize) (fuel : ℕ) (last : Option Key) (world : World) :
    scanDb visit db reverse chunkSize (fuel + 1) last world =
      let chunk := (remaining reverse last (db world)).take chunkSize
      if (remaining reverse last (db world)).length < chunkSize then Option.some (visitAll visit chunk world)
      else scanDb visit db reverse chunkSize fuel (endOf last chunk) (visitAll visit chunk world) := by
  rw [scanDb]
  dsimp only
  rw [seek_eq]
  by_cases short : (remaining reverse last (db world)).length < chunkSize
  · rw [if_pos short,if_pos (lt_of_le_of_lt (List.length_take_le' _ _) short)]
  · have full : ((remaining reverse last (db world)).take chunkSize).length = chunkSize :=
      List.length_take_of_le (not_lt.mp short)
    rw [if_neg short,if_neg (by omega),endOf_getLast (List.ne_nil_of_length_pos (by omega))]

/-- What holds of a scan at each key it stands at: the facts of what is read hold of it still when it is visited, and
no key of the store lies between. -/
structure Rule (visit : Key → Value → World → World) (db : World → SortedStore Key Value) (reverse : Bool)
    (Inv : Option Key → World → Prop) (Fact : Key → Value → Prop) : Prop where
  told : ∀ last world key value, Inv last world → beyond reverse last key = true → (db world).get key = some value →
    Fact key value
  kept : ∀ last world key value, Inv last world → beyond reverse last key = true → Fact key value →
    (∀ other, ((db world).get other).isSome → beyond reverse last other = true →
      other = key ∨ beyond reverse (some key) other = true) →
    Inv (some key) (visit key value world) ∧
      ∀ other, beyond reverse (some key) other = true → ((db (visit key value world)).get other).isSome →
        ((db world).get other).isSome

variable {Inv : Option Key → World → Prop} {Fact : Key → Value → Prop} {last : Option Key}

theorem Rule.chunk (rule : Rule visit db reverse Inv Fact) {chunk : List (Key × Value)}
    {world : World} (inv : Inv last world) (run : Run reverse last chunk)
    (facts : ∀ entry ∈ chunk, Fact entry.1 entry.2)
    (first : ∀ other, ((db world).get other).isSome → beyond reverse last other = true →
      other ∈ chunk.map Prod.fst ∨ ∀ entry ∈ chunk, beyond reverse (some entry.1) other = true) :
    Inv (endOf last chunk) (visitAll visit chunk world) ∧
      ∀ other, beyond reverse (endOf last chunk) other = true →
        ((db (visitAll visit chunk world)).get other).isSome → ((db world).get other).isSome := by
  induction chunk generalizing last world with
  | nil => exact ⟨inv,fun _ _ there => there⟩
  | cons entry chunk ih =>
    have past := run.past entry mem_cons_self
    have order := (pairwise_cons.mp run.order).1
    obtain ⟨kept,grows⟩ := rule.kept last world entry.1 entry.2 inv past (facts entry mem_cons_self) (by
      intro other there beyondLast
      rcases first other there beyondLast with member | after
      · rcases mem_cons.mp member with same | member
        · exact .inl same
        · obtain ⟨next,member,same⟩ := mem_map.mp member
          exact .inr (same ▸ order next member)
      · exact .inr (after entry mem_cons_self))
    obtain ⟨invariant,later⟩ := ih kept run.tail (fun other member => facts other (List.mem_cons_of_mem _ member)) (by
      intro other there beyondEntry
      have apart : other ≠ entry.1 := by
        rintro rfl
        rw [beyond_irrefl] at beyondEntry
        cases beyondEntry
      rcases first other (grows other beyondEntry there) (beyond_trans past beyondEntry) with member | after
      · exact .inl ((mem_cons.mp member).resolve_left apart)
      · exact .inr fun next member => after next (List.mem_cons_of_mem _ member))
    refine ⟨invariant,fun other far there => ?_⟩
    exact grows other (run.tail.beyond_end.mp far).1 (later other far there)

theorem Rule.scan (rule : Rule visit db reverse Inv Fact) (some : 0 < chunkSize) {fuel : ℕ}
    {world : World} (inv : Inv last world) (enough : (remaining reverse last (db world)).length < fuel) :
    ∃ final stop, scanDb visit db reverse chunkSize fuel last world = Option.some final ∧ Inv stop final ∧
      ∀ other, ((db final).get other).isSome → beyond reverse stop other = false := by
  induction fuel generalizing last world with
  | zero => exact absurd enough (Nat.not_lt_zero _)
  | succ fuel ih =>
    have run := run_take reverse last (db world) chunkSize
    obtain ⟨kept,grows⟩ := rule.chunk inv run (fun entry member =>
        rule.told last world entry.1 entry.2 inv (run.past entry member)
          (SortedStore.get_eq_some.mpr (mem_remaining.mp (List.mem_of_mem_take member)).1))
      fun other there past => (read_or_past chunkSize there past).imp id fun ⟨_,_,after⟩ => after
    rw [scanDb_succ some]
    dsimp only
    split
    next short =>
      refine ⟨_,_,rfl,kept,fun other there => ?_⟩
      rw [Bool.eq_false_iff]
      intro past
      have before := grows other past there
      rcases read_or_past chunkSize before (run.beyond_end.mp past).1 with member | ⟨_,member,_⟩
      · obtain ⟨entry,read,rfl⟩ := mem_map.mp member
        rw [run.not_beyond_end read] at past
        cases past
      · rw [List.drop_eq_nil_of_le (le_of_lt short)] at member
        cases member
    next long =>
      have shorter := remaining_shorter grows
      exact ih kept (by omega)

end Scanning

section Passes

variable {visit : Key → Value → World → World} {db : World → SortedStore Key Value} {reverse : Bool} {chunkSize : ℕ}
  {last : Option Key}

def Shrinks (visit : Key → Value → World → World) (db : World → SortedStore Key Value) : Prop :=
  ∀ key value world other, ((db (visit key value world)).get other).isSome → ((db world).get other).isSome

theorem Shrinks.all (shrinks : Shrinks visit db) (chunk : List (Key × Value)) (world : World) {other : Key}
    (there : ((db (visitAll visit chunk world)).get other).isSome) : ((db world).get other).isSome := by
  induction chunk generalizing world with
  | nil => exact there
  | cons entry chunk ih => exact shrinks entry.1 entry.2 world other (ih (visit entry.1 entry.2 world) there)

variable (visit db reverse chunkSize) in
def DeletesRead : ℕ → Option Key → World → Prop
  | 0,_,_ => True
  | fuel + 1,last,world =>
    let chunk := (remaining reverse last (db world)).take chunkSize
    (∀ other, ((db world).get other).isSome → beyond reverse (endOf last chunk) other = true →
      ((db (visitAll visit chunk world)).get other).isSome) ∧
    DeletesRead fuel (endOf last chunk) (visitAll visit chunk world)

/-- A scan as one pass: what it sees comes in order, each key once; nothing is left that it did not see; and each
entry is read no more than a chunk before its visit. -/
structure Pass (visit : Key → Value → World → World) (db : World → SortedStore Key Value) (reverse : Bool)
    (chunkSize : ℕ) (last : Option Key) (world : World) (seen : List (Key × Value)) : Prop where
  run : Run reverse last seen
  whole : ∀ key, ((db (visitAll visit seen world)).get key).isSome → beyond reverse last key = true →
    key ∈ seen.map Prod.fst
  read : ∀ front entry back, seen = front ++ entry::back → ∃ start rest, front = start ++ rest ∧
    rest.length < chunkSize ∧
    (db (visitAll visit start world)).get entry.1 = some entry.2

omit [LinearOrder Key] in
theorem visitAll_append (front back : List (Key × Value)) (world : World) :
    visitAll visit (front ++ back) world = visitAll visit back (visitAll visit front world) := List.foldl_append

theorem Pass.append {world : World} {chunk seen : List (Key × Value)} (shrinks : Shrinks visit db)
    (first : chunk = (remaining reverse last (db world)).take chunkSize)
    (pass : Pass visit db reverse chunkSize (endOf last chunk) (visitAll visit chunk world) seen) :
    Pass visit db reverse chunkSize last world (chunk ++ seen) := by
  have run : Run reverse last chunk := first ▸ run_take reverse last (db world) chunkSize
  refine ⟨run.append pass.run,fun key there past => ?_,fun front entry back split => ?_⟩
  · rw [visitAll_append] at there
    rw [map_append,mem_append]
    rcases read_or_past chunkSize (shrinks.all chunk world (shrinks.all seen _ there)) past with
      member | ⟨_,_,after⟩
    · exact .inl (first ▸ member)
    · exact .inr (pass.whole key there (run.beyond_end.mpr ⟨past,first ▸ after⟩))
  · rcases List.append_eq_append_iff.mp split with ⟨middle,same,other⟩ | ⟨middle,same,other⟩
    · obtain ⟨start,rest,parts,short,read⟩ := pass.read middle entry back other
      refine ⟨chunk ++ start,rest,by rw [same,parts,List.append_assoc],short,?_⟩
      rw [visitAll_append]
      exact read
    · cases middle with
      | nil =>
        rw [append_nil] at same
        obtain ⟨start,rest,parts,short,read⟩ := pass.read [] entry back (by simpa using other.symm)
        obtain ⟨rfl,rfl⟩ := List.append_eq_nil_iff.mp parts.symm
        refine ⟨front,[],(append_nil _).symm,short,?_⟩
        rw [← same]
        exact read
      | cons head middle =>
        obtain ⟨here,_⟩ := List.cons_eq_cons.mp other
        have member : entry ∈ chunk := by
          rw [same,here]
          simp
        have size : chunk.length ≤ chunkSize := first ▸ List.length_take_le _ _
        rw [same,List.length_append,List.length_cons] at size
        refine ⟨[],front,rfl,by omega,SortedStore.get_eq_some.mpr ?_⟩
        exact (mem_remaining.mp (List.mem_of_mem_take (first ▸ member))).1

theorem scan_pass (shrinks : Shrinks visit db) (some : 0 < chunkSize) {fuel : ℕ} {world : World}
    (enough : (remaining reverse last (db world)).length < fuel) :
    ∃ seen, scanDb visit db reverse chunkSize fuel last world = Option.some (visitAll visit seen world) ∧
      Pass visit db reverse chunkSize last world seen ∧
      (DeletesRead visit db reverse chunkSize fuel last world →
        seen.map Prod.fst = (remaining reverse last (db world)).map Prod.fst) := by
  induction fuel generalizing last world with
  | zero => exact absurd enough (Nat.not_lt_zero _)
  | succ fuel ih =>
    obtain ⟨chunk,first⟩ : ∃ chunk, chunk = (remaining reverse last (db world)).take chunkSize := ⟨_,rfl⟩
    have grows : ∀ key, beyond reverse (endOf last chunk) key = true →
        ((db (visitAll visit chunk world)).get key).isSome → ((db world).get key).isSome :=
      fun key _ there => shrinks.all chunk world there
    rw [scanDb_succ some]
    simp only [DeletesRead]
    rw [← first]
    rw [first] at grows
    have shorter := remaining_shorter grows
    rw [← first] at shorter
    split
    next short =>
      have nothing : remaining reverse (endOf last chunk) (db (visitAll visit chunk world)) = [] :=
        List.eq_nil_of_length_eq_zero (by omega)
      refine ⟨chunk,rfl,?_,fun _ => by rw [first,List.take_of_length_le (le_of_lt short)]⟩
      have rest : Pass visit db reverse chunkSize (endOf last chunk) (visitAll visit chunk world) [] := by
        refine ⟨⟨List.Pairwise.nil,fun _ member => absurd member List.not_mem_nil⟩,fun key there past => ?_,
          fun front entry back none => by simp at none⟩
        obtain ⟨value,member⟩ := SortedStore.get_isSome.mp there
        have left : (key,value) ∈ remaining reverse (endOf last chunk) (db (visitAll visit chunk world)) :=
          mem_remaining.mpr ⟨member,past⟩
        rw [nothing] at left
        exact absurd left List.not_mem_nil
      have pass := Pass.append shrinks first rest
      rwa [append_nil] at pass
    next long =>
      obtain ⟨seen,ran,pass,same⟩ :=
        @ih (endOf last chunk) (visitAll visit chunk world) (by omega)
      refine ⟨chunk ++ seen,by rw [ran,← visitAll_append],Pass.append shrinks first pass,fun reads => ?_⟩
      rw [map_append,same reads.2,first]
      rw [first] at reads
      exact (keys_left grows reads.1).symm

end Passes

end NodejsPool.Scans
