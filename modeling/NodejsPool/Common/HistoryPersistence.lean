import Mathlib.Data.List.ReduceOption
import NodejsPool.Common.HistoryBounds

/-! What becomes of a stored history: it is read back as it was, any payload gives a valid history
unless a value in the place of a number has no primitive value, and imported points keep the newest. -/
namespace NodejsPool.HistoryPayload
open Cascade Payments List
open WorkerHistory (Layout Stamped normalizePositiveInteger normalizeTimestampMs defaultBaseIntervalSec
  defaultTierRatio)

variable {layout : Layout} {history : History} {point : Point} {capacity : ℕ} {capacities : List ℕ} {tier : Tier}
    {tiers : List Tier}

section RoundTrip

theorem number_natural (value : ℕ) : number (some (natural value)) = .ok (some (value : ℚ)) := rfl

theorem normalizePositiveInteger_natural {value : ℕ} (positive : 0 < value) (fallback : ℕ) :
    normalizePositiveInteger (some (value : ℚ)) fallback = value := by
  have floor : ⌊(value : ℚ)⌋ = value := Int.floor_natCast value
  have above : (0 : ℤ) < value := by exact_mod_cast positive
  simp only [normalizePositiveInteger,floor,if_pos above,Int.toNat_natCast]

theorem normalizeNonNegativeInteger_natural (value fallback : ℕ) :
    normalizeNonNegativeInteger (some (value : ℚ)) fallback = value := by
  have floor : ⌊(value : ℚ)⌋ = value := Int.floor_natCast value
  have above : (0 : ℤ) ≤ value := Int.natCast_nonneg value
  simp only [normalizeNonNegativeInteger,floor,if_pos above,Int.toNat_natCast]

theorem metadata_serialize (tier : Tier) : metadataField (serializeTier tier) "size" = some (natural tier.size) ∧
    metadataField (serializeTier tier) "head" = some (natural tier.head) ∧
    (serializeTier tier).field "data" = some (.str (Base64.encode (tier.buffer.flatMap Slot.bytes))) := by
  simp [metadataField,serializeTier,Json.isRecord,Json.field]

theorem normalizeTierMetadata_serialize (valid : Tier.Valid capacity tier) :
    normalizeTierMetadata (serializeTier tier) capacity = .ok (tier.head,tier.size) := by
  obtain ⟨size,head,_⟩ := metadata_serialize tier
  have within : min tier.size capacity = tier.size := Nat.min_eq_left valid.wellFormed.size_le
  have place : normalizeHead (serializeTier tier) capacity tier.size = .ok tier.head := by
    unfold normalizeHead
    split
    next none => rw [valid.empty none]
    · rw [head,number_natural,Except.map,normalizeNonNegativeInteger_natural,Nat.mod_eq_of_lt valid.wellFormed.head_lt]
  rw [normalizeTierMetadata,size,number_natural]
  show (normalizeHead (serializeTier tier) capacity (min (normalizeNonNegativeInteger (some (tier.size : ℚ)) 0)
    capacity) >>= fun _ => _) = _
  rw [normalizeNonNegativeInteger_natural,within,place]
  rfl

theorem normalizeBinaryTier_serialize (valid : Tier.Valid capacity tier) :
    normalizeBinaryTier (serializeTier tier) capacity = .ok (some tier) := by
  obtain ⟨_,_,data⟩ := metadata_serialize tier
  have length : (tier.buffer.flatMap Slot.bytes).length = capacity * pointBytes := by
    rw [length_slotBytes,valid.wellFormed.slots]
  have slots : slotsOf capacity (tier.buffer.flatMap Slot.bytes) = tier.buffer := by
    rw [← valid.wellFormed.slots]
    exact slotsOf_bytes tier.buffer
  rw [normalizeBinaryTier,data]
  show (normalizeTierMetadata (serializeTier tier) capacity >>= fun _ => _) = _
  rw [normalizeTierMetadata_serialize valid,Base64.decode_encode]
  show Except.ok (if _ then _ else _) = _
  rw [if_pos length,slots]

theorem normalizeTiers_serialize (valid : Forall₂ Tier.Valid capacities tiers) :
    normalizeTiers capacities (tiers.map serializeTier) = .ok (some tiers) := by
  induction valid with
  | nil => rfl
  | cons own _ ih =>
    rw [map_cons,normalizeTiers,normalizeBinaryTier_serialize own]
    show (normalizeTiers _ _ >>= fun _ => _) = _
    rw [ih]
    rfl

theorem capacities_serialize (positive : ∀ capacity ∈ capacities, 0 < capacity) :
    (capacities.map natural).mapM (fun capacity => (number (some capacity)).map fun capacity =>
      normalizePositiveInteger capacity 0) =
      .ok capacities := by
  induction capacities with
  | nil => rfl
  | cons capacity capacities ih =>
    obtain ⟨here,positive⟩ := forall_mem_cons.mp positive
    rw [map_cons,mapM_cons,ih positive,number_natural,Except.map,normalizePositiveInteger_natural here]
    rfl

theorem payload_serialize (history : History) :
    payloadParts (serializeHistory history) = some (history.capacities.map natural,history.tiers.map serializeTier) ∧
      (serializeHistory history).field "baseIntervalSec" = some (natural history.baseIntervalSec) ∧
      (serializeHistory history).field "tierRatio" = some (natural history.tierRatio) := by
  simp [payloadParts,serializeHistory,Json.field]

theorem normalize_serialize (valid : Valid layout history) :
    normalizeTieredHistoryPayload (serializeHistory history) = .ok (some history) := by
  obtain ⟨parts,interval,ratio⟩ := payload_serialize history
  have positive : ∀ capacity ∈ history.capacities, 0 < capacity := valid.capacities ▸ layout.capacity_pos
  have whole : history.capacities.filter (fun capacity => 0 < capacity) = history.capacities :=
    filter_eq_self.mpr fun capacity member => decide_eq_true (positive capacity member)
  have some_tier : history.capacities ≠ [] := valid.capacities ▸ layout.some_tier
  have length : history.capacities.length = (history.tiers.map serializeTier).length := by
    rw [length_map,valid.own.length_eq]
  have usable : ¬ (history.capacities = [] ∨ history.capacities.length ≠ (history.tiers.map serializeTier).length) :=
    not_or.mpr ⟨some_tier,fun different => different length⟩
  have own_interval : 0 < history.baseIntervalSec := valid.interval ▸ layout.interval_pos
  have own_ratio : 0 < history.tierRatio := valid.ratio ▸ layout.ratio_pos
  rw [normalizeTieredHistoryPayload,parts]
  dsimp only
  rw [capacities_serialize positive]
  show (if _ then _ else _) = _
  rw [whole,if_neg usable,interval,ratio,number_natural,number_natural,normalizeTiers_serialize valid.own]
  show Except.ok (some _) = _
  rw [normalizePositiveInteger_natural own_interval,normalizePositiveInteger_natural own_ratio]

theorem layoutsMatch_iff : layoutsMatch history layout = true ↔ history.baseIntervalSec = layout.baseIntervalSec ∧
    history.tierRatio = layout.tierRatio ∧ history.capacities = layout.capacities := by
  simp [layoutsMatch,and_assoc]

theorem getWorkerHistoryState_serialize (valid : Valid layout history) :
    getWorkerHistoryState (serializeHistory history) layout = .ok history := by
  have same : layoutsMatch history layout = true := layoutsMatch_iff.mpr ⟨valid.interval,valid.ratio,valid.capacities⟩
  rw [getWorkerHistoryState,normalize_serialize valid]
  exact if_pos same

end RoundTrip

section Conversion

def converts (value : Option Json) : Bool := value.all convertible

theorem number_ok {value : Option Json} (converted : converts value = true) : number value = .ok (finiteNumber value) :=
  if_pos converted

theorem number_error {value : Option Json} (unconverted : converts value = false) : number value = .error .typeError :=
  if_neg (Bool.not_eq_true _ |>.mpr unconverted)

def metadataConverts (capacity : ℕ) (tier : Json) : Bool :=
  converts (metadataField tier "size") &&
    (min (normalizeNonNegativeInteger (finiteNumber (metadataField tier "size")) 0) capacity = 0 ||
      converts (metadataField tier "head"))

def tierConverts (capacity : ℕ) (tier : Json) : Bool :=
  match tier.field "data" with
  | some (.str _) => metadataConverts capacity tier
  | _ => true

def usable (capacity : ℕ) (tier : Json) : Bool :=
  match tier.field "data" with
  | some (.str data) => (Base64.decode data).length = capacity * pointBytes
  | _ => false

def tiersConvert : List ℕ → List Json → Bool
  | capacity::capacities,tier::tiers => tierConverts capacity tier &&
      (!usable capacity tier || tiersConvert capacities tiers)
  | _,_ => true

def positiveCapacities (given : List Json) : List ℕ :=
  (given.map fun capacity => normalizePositiveInteger (finiteNumber (some capacity)) 0).filter
    fun capacity => 0 < capacity

def payloadConverts (payload : Json) : Bool :=
  match payloadParts payload with
  | none => true
  | some (given,tiers) =>
    (given.all fun capacity => converts (some capacity)) &&
      (positiveCapacities given = [] || (positiveCapacities given).length ≠ tiers.length ||
        (converts (payload.field "baseIntervalSec") && converts (payload.field "tierRatio") &&
          tiersConvert (positiveCapacities given) tiers))

def pointConverts (point : Json) : Bool :=
  !point.isRecord || (converts (point.field "ts") && converts (point.field "hs") &&
    ((finiteNumber (point.field "hs")).isNone || converts (point.field "hs2")))

theorem normalizeHead_cases (tier : Json) (capacity size : ℕ) :
    (size ≠ 0 ∧ converts (metadataField tier "head") = false ∧ normalizeHead tier capacity size = .error .typeError) ∨
    ((size = 0 ∨ converts (metadataField tier "head") = true) ∧ ∃ head, normalizeHead tier capacity size = .ok head ∧
      (0 < capacity → head < capacity) ∧ (size = 0 → head = 0)) := by
  unfold normalizeHead
  split
  next none => exact .inr ⟨.inl none,0,rfl,id,fun _ => rfl⟩
  next points =>
    cases converted : converts (metadataField tier "head") with
    | false =>
      rw [number_error converted]
      exact .inl ⟨points,rfl,rfl⟩
    | true =>
      rw [number_ok converted]
      exact .inr ⟨.inr rfl,_,rfl,fun positive => Nat.mod_lt _ positive,fun none => absurd none points⟩

theorem normalizeTierMetadata_cases (tier : Json) (capacity : ℕ) :
    (metadataConverts capacity tier = false ∧ normalizeTierMetadata tier capacity = .error .typeError) ∨
    (metadataConverts capacity tier = true ∧ ∃ head size, normalizeTierMetadata tier capacity = .ok (head,size) ∧
      size ≤ capacity ∧
      (0 < capacity → head < capacity) ∧ (size = 0 → head = 0)) := by
  unfold metadataConverts normalizeTierMetadata
  cases converted : converts (metadataField tier "size") with
  | false =>
    rw [number_error converted]
    exact .inl ⟨rfl,rfl⟩
  | true =>
    rw [number_ok converted,Bool.true_and]
    show (_ ∧ (normalizeHead tier capacity _ >>= fun _ => _) = _) ∨
      (_ ∧ ∃ head size, (normalizeHead tier capacity _ >>= fun _ => _) = _ ∧ _)
    generalize count : min (normalizeNonNegativeInteger (finiteNumber (metadataField tier "size")) 0) capacity = size
    have within : size ≤ capacity := count ▸ Nat.min_le_right _ _
    rcases normalizeHead_cases tier capacity size with ⟨points,unconverted,failed⟩ | ⟨passes,head,found,below,empty⟩
    · rw [failed,unconverted]
      exact .inl ⟨by simp [points],rfl⟩
    · rw [found]
      exact .inr ⟨by simpa using passes,head,size,rfl,within,below,empty⟩

theorem tier_without_text {tier : Json} (none : ∀ data, tier.field "data" ≠ some (.str data)) (capacity : ℕ) :
    tierConverts capacity tier = true ∧ usable capacity tier = false ∧ normalizeBinaryTier tier capacity =
      .ok Option.none := by
  unfold tierConverts usable normalizeBinaryTier
  refine ⟨?_,?_,?_⟩ <;> split
  all_goals first
    | rfl
    | next data found => exact absurd found (none data)

theorem normalizeBinaryTier_cases (tier : Json) (capacity : ℕ) :
    (tierConverts capacity tier = false ∧ normalizeBinaryTier tier capacity = .error .typeError) ∨
    (tierConverts capacity tier = true ∧ usable capacity tier = false ∧ normalizeBinaryTier tier capacity = .ok none) ∨
    (tierConverts capacity tier = true ∧ usable capacity tier = true ∧ ∃ found, normalizeBinaryTier tier capacity =
      .ok (some found) ∧
      (0 < capacity → Tier.Valid capacity found)) := by
  by_cases text : ∃ data, tier.field "data" = some (.str data)
  · obtain ⟨data,text⟩ := text
    unfold tierConverts usable normalizeBinaryTier
    rw [text]
    dsimp only
    rcases normalizeTierMetadata_cases tier capacity with ⟨unconverted,failed⟩ | ⟨converted,head,size,found,
      within,below,empty⟩
    · rw [unconverted,failed]
      exact .inl ⟨rfl,rfl⟩
    · rw [converted,found]
      by_cases length : (Base64.decode data).length = capacity * pointBytes
      · refine .inr (.inr ⟨rfl,decide_eq_true length,⟨head,size,slotsOf capacity (Base64.decode data)⟩,?_,?_⟩)
        · exact congrArg Except.ok (if_pos length)
        · exact fun positive => ⟨⟨below positive,within,length_slotsOf _ _⟩,empty⟩
      · exact .inr (.inl ⟨rfl,decide_eq_false length,congrArg Except.ok (if_neg length)⟩)
  · exact .inr (.inl (tier_without_text (not_exists.mp text) capacity))

theorem normalizeTiers_cases (capacities : List ℕ) (tiers : List Json) :
    (tiersConvert capacities tiers = false ∧ normalizeTiers capacities tiers = .error .typeError) ∨
    (tiersConvert capacities tiers = true ∧ ∃ found, normalizeTiers capacities tiers = .ok found ∧
      ∀ valid ∈ found, capacities.length = tiers.length → (∀ capacity ∈ capacities, 0 < capacity) →
        Forall₂ Tier.Valid capacities valid) := by
  induction capacities generalizing tiers with
  | nil =>
    refine .inr ⟨by rw [tiersConvert]; nofun,some [],rfl,?_⟩
    intro valid same _ _
    cases same
    exact .nil
  | cons capacity capacities ih =>
    cases tiers with
    | nil => exact .inr ⟨rfl,some [],rfl,fun _ _ length => absurd length (Nat.succ_ne_zero _)⟩
    | cons tier tiers =>
      unfold tiersConvert normalizeTiers
      rcases normalizeBinaryTier_cases tier capacity with ⟨unconverted,failed⟩ | ⟨converted,unusable,none⟩ |
        ⟨converted,used,found,read,sound⟩
      · rw [unconverted,failed]
        exact .inl ⟨rfl,rfl⟩
      · rw [converted,unusable,none]
        exact .inr ⟨rfl,Option.none,rfl,nofun⟩
      · rw [converted,used,read]
        show (tiersConvert capacities tiers = false ∧ (normalizeTiers capacities tiers >>= fun _ => _) = _) ∨
          (tiersConvert capacities tiers = true ∧ ∃ all, (normalizeTiers capacities tiers >>= fun _ => _) = _ ∧ _)
        rcases ih tiers with ⟨unconverted,failed⟩ | ⟨converted,others,rest,valid⟩
        · rw [unconverted,failed]
          exact .inl ⟨rfl,rfl⟩
        · rw [converted,rest]
          refine .inr ⟨rfl,_,rfl,?_⟩
          intro all same length positive
          obtain ⟨behind,member,rfl⟩ := Option.map_eq_some_iff.mp same
          obtain ⟨here,positive⟩ := forall_mem_cons.mp positive
          exact .cons (sound here) (valid behind member (Nat.succ.inj length) positive)

theorem capacities_cases (given : List Json) : ((given.all fun capacity => converts (some capacity)) = false ∧
      given.mapM (fun capacity => (number (some capacity)).map fun capacity => normalizePositiveInteger capacity 0) =
        .error .typeError) ∨
    ((given.all fun capacity => converts (some capacity)) = true ∧
      given.mapM (fun capacity => (number (some capacity)).map fun capacity => normalizePositiveInteger capacity 0) =
        .ok (given.map fun capacity => normalizePositiveInteger (finiteNumber (some capacity)) 0)) := by
  induction given with
  | nil => exact .inr ⟨rfl,rfl⟩
  | cons capacity given ih =>
    rw [all_cons,mapM_cons]
    cases converted : converts (some capacity) with
    | false =>
      rw [number_error converted]
      exact .inl ⟨rfl,rfl⟩
    | true =>
      rw [number_ok converted,Bool.true_and]
      rcases ih with ⟨unconverted,failed⟩ | ⟨converted,found⟩
      · rw [unconverted,failed]
        exact .inl ⟨rfl,rfl⟩
      · rw [converted,found]
        exact .inr ⟨rfl,rfl⟩

theorem normalizeTieredHistoryPayload_cases (payload : Json) :
    (payloadConverts payload = false ∧ normalizeTieredHistoryPayload payload = .error .typeError) ∨
    (payloadConverts payload = true ∧ ∃ found, normalizeTieredHistoryPayload payload = .ok found ∧
      ∀ history ∈ found, Forall₂ Tier.Valid history.capacities history.tiers) := by
  unfold payloadConverts normalizeTieredHistoryPayload
  cases payloadParts payload with
  | none => exact .inr ⟨rfl,none,rfl,nofun⟩
  | some parts =>
    obtain ⟨given,tiers⟩ := parts
    dsimp only
    rcases capacities_cases given with ⟨unconverted,failed⟩ | ⟨converted,found⟩
    · rw [unconverted,failed]
      exact .inl ⟨rfl,rfl⟩
    rw [converted,found,Bool.true_and]
    show (_ ∧ (if positiveCapacities given = [] ∨ (positiveCapacities given).length ≠ tiers.length then _ else _) = _) ∨
      (_ ∧ ∃ found, (if positiveCapacities given = [] ∨ (positiveCapacities given).length ≠ tiers.length then _
      else _) = _ ∧ _)
    by_cases rejected : positiveCapacities given = [] ∨ (positiveCapacities given).length ≠ tiers.length
    · rw [if_pos rejected]
      exact .inr ⟨by simpa using .inl rejected,none,rfl,nofun⟩
    · rw [if_neg rejected]
      obtain ⟨some_tier,same⟩ := not_or.mp rejected
      rw [decide_eq_false some_tier,decide_eq_false same,Bool.false_or,Bool.false_or]
      cases interval : converts (payload.field "baseIntervalSec") with
      | false =>
        rw [number_error interval]
        exact .inl ⟨rfl,rfl⟩
      | true =>
        cases ratio : converts (payload.field "tierRatio") with
        | false =>
          rw [number_ok interval,number_error ratio]
          exact .inl ⟨rfl,rfl⟩
        | true =>
          rw [number_ok interval,number_ok ratio]
          rcases normalizeTiers_cases (positiveCapacities given) tiers with ⟨unconverted,failed⟩ | ⟨converted,
            found,read,valid⟩
          · refine .inl ⟨unconverted,?_⟩
            show (normalizeTiers (positiveCapacities given) tiers >>= fun _ => _) = _
            rw [failed]
            rfl
          · refine .inr ⟨converted,found.map fun tiers =>
              ⟨normalizePositiveInteger (finiteNumber (payload.field "baseIntervalSec")) defaultBaseIntervalSec,
                normalizePositiveInteger (finiteNumber (payload.field "tierRatio")) defaultTierRatio,
                positiveCapacities given,tiers⟩,
              ?_,?_⟩
            · show (normalizeTiers (positiveCapacities given) tiers >>= fun _ => _) = _
              rw [read]
              rfl
            · intro history member
              obtain ⟨tiers,inside,rfl⟩ := Option.map_eq_some_iff.mp member
              have positive : ∀ capacity ∈ positiveCapacities given, 0 < capacity := by
                intro capacity kept
                exact of_decide_eq_true (mem_filter.mp kept).2
              exact valid tiers inside (not_not.mp same) positive

theorem normalizePoint_json (point : Json) : normalizePoint (.json point) =
    if point.isRecord then
      normalizeFields (number (point.field "ts")) (number (point.field "hs")) (number (point.field "hs2"))
    else .ok none :=
  rfl

theorem normalizePoint_cases (point : Json) :
    (pointConverts point = false ∧ normalizePoint (.json point) = .error .typeError) ∨
    (pointConverts point = true ∧ ∃ found, normalizePoint (.json point) = .ok found) := by
  rw [normalizePoint_json]
  unfold pointConverts
  cases point.isRecord with
  | false => exact .inr ⟨rfl,none,rfl⟩
  | true =>
    rw [if_pos rfl]
    cases ts : converts (point.field "ts") with
    | false =>
      rw [number_error ts]
      exact .inl ⟨rfl,rfl⟩
    | true =>
      cases hs : converts (point.field "hs") with
      | false =>
        rw [number_ok ts,number_error hs]
        exact .inl ⟨rfl,rfl⟩
      | true =>
        rw [number_ok ts,number_ok hs]
        cases finiteNumber (point.field "hs") with
        | none => exact .inr ⟨rfl,none,rfl⟩
        | some rate =>
          cases hs2 : converts (point.field "hs2") with
          | false =>
            rw [number_error hs2]
            exact .inl ⟨rfl,rfl⟩
          | true =>
            rw [number_ok hs2]
            exact .inr ⟨rfl,_,rfl⟩

theorem normalizePoint_read (point : Point) : ∃ found, normalizePoint (.point point) = .ok found := by
  cases hs : point.hs with
  | none => exact ⟨none,by rw [normalizePoint,hs]; rfl⟩
  | some rate => exact ⟨_,by rw [normalizePoint,hs]; rfl⟩

theorem normalizeFields_normal {ts hs hs2 : Except Failure (Option ℚ)}
    (found : normalizeFields ts hs hs2 = .ok (some point)) :
    Normal point := by
  cases ts with
  | error failure => cases found
  | ok ts =>
    cases hs with
    | error failure => cases found
    | ok hs =>
      cases hs with
      | none => cases found
      | some hs =>
        cases hs2 with
        | error failure => cases found
        | ok hs2 =>
          cases found
          exact ⟨WorkerHistory.stamped_normalizeTimestampMs ts,⟨some hs,rfl⟩,⟨hs2,rfl⟩⟩

theorem normalizePoint_normal {given : Given} (found : normalizePoint given = .ok (some point)) : Normal point := by
  cases given with
  | point read => exact normalizeFields_normal found
  | json value =>
    rw [normalizePoint_json] at found
    split at found
    · exact normalizeFields_normal found
    · cases found

end Conversion

section Importing

/-- A point stands for the time of the newest of some points. -/
def Stands (point : Point) (samples : List Point) : Prop :=
    Stamped point.ts ∧ samples.getLast?.map Point.ts = some point.ts

theorem combine_combines {ratio : ℕ} (positive : 0 < ratio) : Combines Stands ratio (combine ratio) := by
  intro size values samples group chunks
  have some_values : values ≠ [] := by
    rintro rfl
    exact positive.ne group
  have last : values.getLast? = some (values.getLast some_values) := getLast?_eq_some_getLast some_values
  obtain ⟨cuts,all,_⟩ := chunks.cut
  obtain ⟨_,_,stamped,_⟩ := forall₂_mem all (getLast_mem some_values)
  have newest : (average ratio values).ts = (values.getLast some_values).ts := by
    rw [average_ts,last]
    rfl
  have same : (combine ratio values).ts = (values.getLast some_values).ts := by
    rw [combine,stored_ts (newest ▸ stamped),newest]
  refine ⟨same ▸ stamped,?_⟩
  rw [chunks.getLast_map (fun _ _ stands => stands.2),last,same]
  rfl

def held (point : Point) : Point := ⟨point.ts,some (point.hs.getD 0),some (point.hs2.getD 0)⟩

/-- The first tier holds the newest points, the others cover those before them without a gap, and what is given
up is the oldest, once the tiers are filled. -/
structure KeepsNewest (layout : Layout) (history : History) (accepted : List Point) : Prop where
  recent : Recent layout.tierRatio (queues history) (accepted.map held)
  covered : ∃ evicted, Covers Stands layout.tierRatio 0 (queues history) evicted accepted ∧
    Filled layout.tierRatio (queues history) evicted

theorem createEmptyHistory_keeps (layout : Layout) : KeepsNewest layout (createEmptyHistory layout) [] := by
  have empty := queues_empty layout
  refine ⟨?_,[],?_,?_⟩
  · rw [empty]
    exact recent_empties _ _
  · rw [empty]
    exact covers_empties layout.some_tier
  · rw [empty]
    exact filled_empties _ _

theorem KeepsNewest.append {accepted : List Point} (keeps : KeepsNewest layout history accepted)
    (valid : Valid layout history)
    (normal : Normal point) : ∃ next, history.append point = .ok next ∧ Valid layout next ∧
      KeepsNewest layout next (accepted ++ [point]) := by
  obtain ⟨next,appended,still,pushed⟩ := append_valid valid point
  obtain ⟨recent,evicted,covers,filled⟩ := keeps
  have back : stored point = held point := stored_normal normal
  have stands : Stands (stored point) [point] := by
    have same := stored_ts normal.stamped
    exact ⟨same ▸ normal.stamped,congrArg some same.symm⟩
  refine ⟨next,appended,still,?_,evicted ++ gone (queues history),?_,?_⟩
  · rw [pushed,back,map_append]
    exact recent.push valid.roomy (held point)
  · rw [pushed]
    exact covers.push (combine_combines layout.ratio_pos) valid.roomy stands (pow_zero _).symm
  · rw [pushed]
    exact filled.push valid.roomy (stored point)

theorem replay_cases {accepted : List Point} (keeps : KeepsNewest layout history accepted)
    (valid : Valid layout history) (points : List Given) :
    (∃ failure, points.mapM normalizePoint = .error failure ∧ points.foldlM replay history = .error failure) ∨
    (∃ found last, points.mapM normalizePoint = .ok found ∧ points.foldlM replay history = .ok last ∧
      Valid layout last ∧
      KeepsNewest layout last (accepted ++ found.reduceOption)) := by
  induction points generalizing history accepted with
  | nil => exact .inr ⟨[],history,rfl,rfl,valid,by rwa [reduceOption_nil,append_nil]⟩
  | cons given points ih =>
    rw [mapM_cons,foldlM_cons]
    unfold replay
    cases normalized : normalizePoint given with
    | error failure => exact .inl ⟨failure,rfl,rfl⟩
    | ok point =>
      cases point with
      | none =>
        show (∃ failure, (points.mapM normalizePoint >>= fun _ => _) = _ ∧ points.foldlM replay history = _) ∨
          ∃ found last, (points.mapM normalizePoint >>= fun _ => _) = _ ∧ points.foldlM replay history = _ ∧ _
        rcases ih keeps valid with ⟨failure,failed,stopped⟩ | ⟨found,last,read,ran,still,kept⟩
        · rw [failed,stopped]
          exact .inl ⟨failure,rfl,rfl⟩
        · rw [read,ran]
          exact .inr ⟨none::found,last,rfl,rfl,still,by rwa [reduceOption_cons_of_none]⟩
      | some point =>
        obtain ⟨next,appended,still,kept⟩ := keeps.append valid (normalizePoint_normal normalized)
        show (∃ failure, (points.mapM normalizePoint >>= fun _ => _) = _ ∧ (history.append point >>= fun _ => _) = _) ∨
          ∃ found last, (points.mapM normalizePoint >>= fun _ => _) = _ ∧ (history.append point >>= fun _ => _) = _ ∧ _
        rw [appended]
        show (∃ failure, (points.mapM normalizePoint >>= fun _ => _) = _ ∧ points.foldlM replay next = _) ∨
          ∃ found last, (points.mapM normalizePoint >>= fun _ => _) = _ ∧ points.foldlM replay next = _ ∧ _
        rcases ih kept still with ⟨failure,failed,stopped⟩ | ⟨found,last,read,ran,valid,kept⟩
        · rw [failed,stopped]
          exact .inl ⟨failure,rfl,rfl⟩
        · rw [read,ran]
          refine .inr ⟨some point::found,last,rfl,rfl,valid,?_⟩
          rw [reduceOption_cons_of_some]
          rwa [append_assoc] at kept

theorem import_cases (points : List Given) (layout : Layout) :
    (∃ failure, points.reverse.mapM normalizePoint = .error failure ∧ importHistoryPoints points layout =
      .error failure) ∨
    (∃ found history, points.reverse.mapM normalizePoint = .ok found ∧ importHistoryPoints points layout = .ok history ∧
      Valid layout history ∧ KeepsNewest layout history found.reduceOption) :=
  replay_cases (createEmptyHistory_keeps layout) (createEmptyHistory_valid layout) points.reverse

theorem import_read (points : List Point) (layout : Layout) :
    ∃ history, importHistoryPoints (points.map .point) layout = .ok history ∧ Valid layout history := by
  have all (points : List Point) : ∃ found, (points.map Given.point).mapM normalizePoint = .ok found := by
    induction points with
    | nil => exact ⟨[],rfl⟩
    | cons point points ih =>
      obtain ⟨here,normalized⟩ := normalizePoint_read point
      obtain ⟨found,rest⟩ := ih
      rw [map_cons,mapM_cons,normalized,rest]
      exact ⟨_,rfl⟩
  obtain ⟨found,normalized⟩ := all points.reverse
  rw [map_reverse] at normalized
  rcases import_cases (points.map .point) layout with ⟨failure,failed,_⟩ | ⟨_,history,_,imported,valid,_⟩
  · rw [normalized] at failed
    cases failed
  · exact ⟨history,imported,valid⟩

theorem mapM_points (points : List Json) :
    ((points.all pointConverts) = false ∧ (points.map Given.json).mapM normalizePoint = .error .typeError) ∨
    ((points.all pointConverts) = true ∧ ∃ found, (points.map Given.json).mapM normalizePoint = .ok found) := by
  induction points with
  | nil => exact .inr ⟨rfl,[],rfl⟩
  | cons point points ih =>
    rw [all_cons,map_cons,mapM_cons]
    rcases normalizePoint_cases point with ⟨unconverted,failed⟩ | ⟨converted,here,normalized⟩
    · rw [unconverted,failed]
      exact .inl ⟨rfl,rfl⟩
    · rw [converted,normalized,Bool.true_and]
      rcases ih with ⟨unconverted,failed⟩ | ⟨converted,found,rest⟩
      · rw [unconverted,failed]
        exact .inl ⟨rfl,rfl⟩
      · rw [converted,rest]
        exact .inr ⟨rfl,_,rfl⟩

end Importing

section Persistence

theorem getWorkerHistoryState_cases (payload : Json) (layout : Layout) :
    (payloadConverts payload = false ∧ getWorkerHistoryState payload layout = .error .typeError) ∨
    (payloadConverts payload = true ∧ ∃ history, getWorkerHistoryState payload layout = .ok history ∧
      Valid layout history) := by
  unfold getWorkerHistoryState
  rcases normalizeTieredHistoryPayload_cases payload with ⟨unconverted,failed⟩ | ⟨converted,found,read,sound⟩
  · rw [failed]
    exact .inl ⟨unconverted,rfl⟩
  · refine .inr ⟨converted,?_⟩
    rw [read]
    cases found with
    | none => exact ⟨_,rfl,createEmptyHistory_valid layout⟩
    | some normalized =>
      have within := sound normalized rfl
      show ∃ history, (if layoutsMatch normalized layout = true then _ else _) = _ ∧ _
      split
      next same =>
        obtain ⟨interval,ratio,capacities⟩ := layoutsMatch_iff.mp same
        exact ⟨normalized,rfl,interval,ratio,capacities,capacities ▸ within⟩
      · obtain ⟨points,listed⟩ := historyPoints_ok within none
        obtain ⟨history,imported,valid⟩ := import_read points layout
        rw [listed]
        exact ⟨history,imported,valid⟩

inductive Reachable (layout : Layout) : History → Prop
  | recovered {payload : Json} {history : History} (state : getWorkerHistoryState payload layout = .ok history) :
      Reachable layout history
  | imported {points : List Given} {history : History} (replayed : importHistoryPoints points layout = .ok history) :
      Reachable layout history
  | appended {history next : History} {point : Point} (reachable : Reachable layout history)
      (append : history.append point = .ok next) : Reachable layout next

theorem Reachable.valid (reachable : Reachable layout history) : Valid layout history := by
  induction reachable with
  | @recovered payload history state =>
    rcases getWorkerHistoryState_cases payload layout with ⟨_,failed⟩ | ⟨_,found,read,valid⟩
    · rw [failed] at state
      cases state
    · rw [read] at state
      exact Except.ok.inj state ▸ valid
  | @imported points history replayed =>
    rcases import_cases points layout with ⟨failure,_,failed⟩ | ⟨_,found,_,read,valid,_⟩
    · rw [failed] at replayed
      cases replayed
    · rw [read] at replayed
      exact Except.ok.inj replayed ▸ valid
  | @appended history next point _ append valid =>
    obtain ⟨last,appended,still,_⟩ := append_valid valid point
    rw [appended] at append
    exact Except.ok.inj append ▸ still

def Recovers (layout : Layout) (payload : Json) : Prop :=
  ∃ history, getWorkerHistoryState payload layout = .ok history ∧ Valid layout history ∧
    ∀ points : List Point, ∃ last, points.foldlM History.append history = .ok last ∧ Valid layout last ∧
      ∀ maxPoints, ∃ found, historyPoints last maxPoints = .ok found

/-- The points that are accepted, from the oldest, are imported within the capacities, and the newest are kept. -/
def Imports (layout : Layout) (points : List Json) : Prop :=
  ∃ found history, (points.reverse.map Given.json).mapM normalizePoint = .ok found ∧
    importHistoryPoints (points.map .json) layout = .ok history ∧
    List.Forall₂ (fun capacity tier => tier.size ≤ capacity) layout.capacities history.tiers ∧
    KeepsNewest layout history found.reduceOption

def smallLayout : Layout := WorkerHistory.buildTierLayout (some 4) (some 1) (some 600) (some 2)

/-- An object in the place of a capacity, with a `toString` of its own. -/
def brokenPayload : Json :=
  .obj [("v",.num 2),("kind",.str historyKind),("encoding",.str historyEncoding),
    ("capacities",.arr [.obj [("toString",.num 0)]]),("tiers",.arr [])]

/-- The newest two points of six, then means of two. -/
example :
    let points : List Given := [5,4,3,2,1,0].map fun second : ℕ =>
      .json (.obj [("ts",.num (1000 * second)),("hs",.num second)])
    (importHistoryPoints points smallLayout >>= fun history => historyPoints history none).map (fun points =>
      points.map fun point => (point.ts,point.hs)) = .ok [(5000,some 5),(4000,some 4),(3000,some (5 / 2)),
        (1000,some (1 / 2))] := by
  decide +kernel

end Persistence
end NodejsPool.HistoryPayload
