import NodejsPool.Common.LegacyRepair

/-! Reading frames of old producers: the library on fields in any order, the repaired frame, and
the work that the adapted decoder reads off it. -/
namespace NodejsPool.Common.LegacyRepair
open RemoteShare.ShareStore (Number Value)
open Wire (Byte Field Format Kind Scalar byName byName_some)
open WorkCodec Function List

section Reading

/-- A value as a JavaScript program writes it: whole numbers are doubles, texts have their bounds. -/
structure Held (kind : Kind) (scalar : Scalar) : Prop where
  fits : kind.Fits scalar
  double : ∀ value : ℤ, scalar = .int value → Format.double.Holds value
  short : ∀ text, scalar = .text text → (Wire.utf8 text).length < 2 ^ 35

def fieldBytes (entry : Field × Scalar) : List Byte :=
  Wire.Varint.write (entry.1.kind.wireType + 8 * entry.1.tag) ++ Wire.writeScalar entry.1.kind entry.2

structure Frame (schema : List Field) (entries : List (Field × Scalar)) : Prop where
  known : ∀ entry ∈ entries, entry.1 ∈ schema
  held : ∀ entry ∈ entries, Held entry.1.kind entry.2
  distinct : (entries.map fun entry => entry.1.name).Nodup
  present : ∀ field ∈ schema, field.required = true → field ∈ entries.map Prod.fst

def readEntries (schema : List Field) (entries : List (Field × Scalar)) : Object := fun name =>
  match byName schema name with
  | none => .undefined
  | some field => valueOf (((entries.find? fun entry => entry.1.name = name).map Prod.snd).getD field.kind.default)

structure Reads (protobuf : List Field → Raw) : Prop where
  reads : ∀ type entries, Frame (schema type) entries → ∀ buffer offset end_,
    window buffer offset end_ = some (entries.flatMap fieldBytes) →
      (protobuf (schema type)).decode (some buffer) offset end_ =
        .ok ⟨readEntries (schema type) entries,(entries.flatMap fieldBytes).length⟩

variable {schema : List Field} {entries : List (Field × Scalar)}

theorem readEntries_mem (distinct : Wire.Distinct schema) (frame : Frame schema entries) {field : Field}
    {scalar : Scalar} (member : (field,scalar) ∈ entries) : readEntries schema entries field.name = valueOf scalar := by
  have found : entries.find? (fun entry => entry.1.name = field.name) = some (field,scalar) :=
    Wire.find_of_mem frame.distinct member
  unfold readEntries
  rw [byName_some distinct (frame.known _ member),found]
  rfl

theorem readEntries_absent (distinct : Wire.Distinct schema) {field : Field} (member : field ∈ schema)
    (absent : ∀ entry ∈ entries, entry.1.name ≠ field.name) :
    readEntries schema entries field.name = valueOf field.kind.default := by
  have missing : entries.find? (fun entry => entry.1.name = field.name) = none := by
    rw [find?_eq_none]
    simpa using absent
  unfold readEntries
  rw [byName_some distinct member,missing]
  rfl

end Reading

inductive Old where
  | plain (field : Field) (scalar : Scalar)
  | large (field : Field) (work : ℕ)

namespace Old

def field : Old → Field
  | .plain field _ | .large field _ => field

def bytes : Old → List Byte
  | .plain field scalar => fieldBytes (field,scalar)
  | .large field work => Wire.Varint.write (field.kind.wireType + 8 * field.tag) ++ Wire.Varint.write work

def item (type : MessageType) : Old → Item
  | .plain field scalar => .kept (field.kind.wireType + 8 * field.tag) (Wire.writeScalar field.kind scalar)
  | .large field work => .overflow (field.kind.wireType + 8 * field.tag) work
      ((extensionOf (workTags type) field.tag).getD 0) (((Value.number (toNumber work)).readFinite).getD 0)

def repaired (type : MessageType) : Old → List (Field × Scalar)
  | .plain field scalar => [(field,scalar)]
  | .large field work => (field,.int 0) ::
      ((byName (schema type) (extension field.name)).map fun extended =>
        (extended,Scalar.real (((Value.number (toNumber work)).readFinite).getD 0))).toList

end Old

/-- A frame of an old producer: fields of the schema before its extensions in some order, each
once; work is not negative. -/
structure Legacy (type : MessageType) (fields : List Old) : Prop where
  known : ∀ old ∈ fields, old.field ∈ schema type ∧ old.field.name ∉ extensions type
  distinct : (fields.map fun old => old.field.name).Nodup
  plain : ∀ field scalar, Old.plain field scalar ∈ fields →
    Held field.kind scalar ∧ (field.name ∈ workFields type → ∃ work : ℕ, scalar = .int work)
  large : ∀ field work, Old.large field work ∈ fields → field.name ∈ workFields type ∧ 2 ^ 64 ≤ work
  present : ∀ field ∈ schema type, field.required = true → field ∈ fields.map Old.field

def AllFinite (fields : List Old) : Prop :=
  ∀ field work, Old.large field work ∈ fields → ∃ number, toNumber work = .finite number

section Repairing

variable {type : MessageType} {fields : List Old} {old : Old}

section

variable {field : Field} (member : field ∈ schema type)
include member

theorem workTags_schema (work : field.name ∈ workFields type) :
    ∃ extended ∈ schema type, byName (schema type) (extension field.name) = some extended ∧
      extended.name = extension field.name ∧ extended.kind = .double ∧ field.kind = .int64 ∧
      extensionOf (workTags type) field.tag = some extended.tag := by
  revert field
  cases type <;> decide

theorem workTags_other (other : field.name ∉ workFields type) : extensionOf (workTags type) field.tag = none := by
  revert field
  cases type <;> decide

theorem extensionTags (legacy : field.name ∉ extensions type) : ∀ entry ∈ workTags type, entry.2 ≠ field.tag := by
  revert field
  cases type <;> decide

theorem schema_tags : 0 < field.tag ∧ field.tag < 2048 := by
  revert field
  cases type <;> decide

end

theorem workTags_short (type : MessageType) : Short (workTags type) := by
  unfold Short
  cases type <;> decide

theorem unsigned64_lt (value : ℤ) : Wire.unsigned64 value < 2 ^ 64 := by
  unfold Wire.unsigned64
  omega

theorem payload_write {kind : Kind} {scalar : Scalar} (held : Held kind scalar) :
    Payload kind.wireType (Wire.writeScalar kind scalar) := by
  cases kind <;> cases scalar <;> try exact absurd held.fits id
  case int32.int value | int64.int value => exact ⟨_,unsigned64_lt value,rfl⟩
  case enum.int values value => exact ⟨_,unsigned64_lt value,rfl⟩
  case uint64.int value =>
    obtain ⟨low,high⟩ := held.fits
    exact ⟨value.toNat,by omega,rfl⟩
  case bool.bool value => exact ⟨value.toNat,by cases value <;> decide,rfl⟩
  case string.text text => exact ⟨_,held.short text rfl,rfl⟩
  case float.real value | double.real value => exact Wire.littleEndian_length _ _

theorem item_key (old : Old) : (old.item type).key = old.field.kind.wireType + 8 * old.field.tag := by
  cases old <;> rfl

theorem item_tag (old : Old) : (old.item type).tag = old.field.tag := by
  have small := old.field.kind.wireType_lt
  unfold Item.tag
  rw [item_key]
  omega

theorem item_source (old : Old) : (old.item type).source = old.bytes := by
  cases old <;> rfl

section

variable (legacy : Legacy type fields)
include legacy

theorem item_target (member : old ∈ fields) : (old.item type).target = (old.repaired type).flatMap fieldBytes := by
  cases old with
  | plain field scalar => simp [Old.item,Old.repaired,Item.target,fieldBytes]
  | large field work =>
    obtain ⟨large,_⟩ := legacy.large field work member
    have known : field ∈ schema type := (legacy.known _ member).1
    obtain ⟨extended,_,named,_,double,kind,tags⟩ := workTags_schema known large
    have zero : Wire.unsigned64 0 = 0 := rfl
    have order : extended.tag * 8 + 1 = Kind.wireType .double + 8 * extended.tag := by
      rw [Kind.wireType]
      omega
    simp [Old.item,Old.repaired,Item.target,fieldBytes,named,tags,double,kind,zero,order,Wire.writeScalar]

theorem item_sound (member : old ∈ fields) (finite : AllFinite fields) : Sound (workTags type) (old.item type) := by
  have key {field : Field} (known : field ∈ schema type) : field.kind.wireType + 8 * field.tag < 2 ^ 32 ∧
      (field.kind.wireType + 8 * field.tag) / 8 = field.tag ∧ field.tag ≠ 0 ∧
      (field.kind.wireType + 8 * field.tag) % 8 = field.kind.wireType := by
    obtain ⟨positive,bound⟩ := schema_tags known
    have small := field.kind.wireType_lt
    refine ⟨?_,?_,?_,?_⟩ <;> omega
  cases old with
  | plain field scalar =>
    have known : field ∈ schema type := (legacy.known _ member).1
    obtain ⟨bound,tag,own,wireType⟩ := key known
    refine ⟨bound,?_,?_,?_⟩
    · rw [tag]
      exact own
    · intro mapped
      by_cases work : field.name ∈ workFields type
      · obtain ⟨_,_,_,_,_,kind,_⟩ := workTags_schema known work
        rw [wireType,kind]
        rfl
      · rw [tag,workTags_other known work] at mapped
        cases mapped
    · rw [wireType]
      exact payload_write (legacy.plain field scalar member).1
  | large field work =>
    have known : field ∈ schema type := (legacy.known _ member).1
    obtain ⟨bound,tag,own,wireType⟩ := key known
    obtain ⟨large,wide⟩ := legacy.large field work member
    obtain ⟨extended,_,_,_,_,kind,tags⟩ := workTags_schema known large
    obtain ⟨number,finite⟩ := finite field work member
    refine ⟨bound,?_,?_,?_,wide,?_⟩
    · rw [tag]
      exact own
    · rw [wireType,kind]
      rfl
    · rw [tag,tags]
      rfl
    · rw [finite]
      rfl

theorem legacy_repairable (finite : AllFinite fields) (overflown : ∃ field work, Old.large field work ∈ fields) :
    Repairable (workTags type) (fields.map (Old.item type)) := by
  constructor
  · intro item member
    obtain ⟨old,inside,rfl⟩ := mem_map.mp member
    exact item_sound legacy inside finite
  · obtain ⟨field,work,member⟩ := overflown
    exact ⟨_,mem_map_of_mem member,rfl⟩
  · intro item member
    obtain ⟨old,inside,rfl⟩ := mem_map.mp member
    obtain ⟨known,plain⟩ := legacy.known old inside
    rw [item_tag]
    exact extensionTags known plain
  · have tags : (fields.map (Old.item type)).map Item.tag = fields.map fun old => old.field.tag := by
      rw [map_map]
      exact map_congr_left fun old _ => item_tag old
    have distinct : (fields.map fun old => old.field.tag).Nodup := by
      refine Nodup.map_on ?_ legacy.distinct.of_map
      intro one inside other within same
      have fields := inj_on_of_nodup_map (schema_distinct type).tags (legacy.known one inside).1
        (legacy.known other within).1 same
      exact inj_on_of_nodup_map legacy.distinct inside within (by rw [fields])
    unfold workOf
    rw [tags]
    exact distinct.filter _

theorem legacy_repairs (finite : AllFinite fields)
    (overflown : ∃ field work, Old.large field work ∈ fields) {buffer : List Byte} {offset : ℕ} {end_ : Option ℕ}
    (within : window buffer offset end_ = some (fields.flatMap Old.bytes)) :
    repairLegacyOverflow (some buffer) offset end_ (workTags type) =
      some ((fields.flatMap (Old.repaired type)).flatMap fieldBytes) := by
  have sources : (fields.map (Old.item type)).flatMap Item.source = fields.flatMap Old.bytes := by
    rw [flatMap_map]
    exact flatMap_congr fun old _ => item_source old
  have targets : (fields.map (Old.item type)).flatMap Item.target =
      (fields.flatMap (Old.repaired type)).flatMap fieldBytes := by
    rw [flatMap_map,flatMap_assoc]
    exact flatMap_congr fun old member => item_target legacy member
  rw [← targets]
  refine (repairLegacyOverflow_iff (workTags_short type)).mpr ⟨_,?_,legacy_repairable legacy finite overflown,rfl⟩
  rw [sources]
  exact within

theorem repaired_large {field : Field} {work : ℕ} (member : Old.large field work ∈ fields) :
    ∃ extended ∈ schema type, extended.name = extension field.name ∧ extended.kind = .double ∧ field.kind = .int64 ∧
      (Old.large field work).repaired type =
        [(field,.int 0),(extended,.real (((Value.number (toNumber work)).readFinite).getD 0))] := by
  have known : field ∈ schema type := (legacy.known _ member).1
  obtain ⟨extended,inside,named,name,double,kind,_⟩ := workTags_schema known (legacy.large field work member).1
  refine ⟨extended,inside,name,double,kind,?_⟩
  simp [Old.repaired,named]

theorem repaired_name (member : old ∈ fields) {entry : Field × Scalar} (inside : entry ∈ old.repaired type) :
    entry.1.name = old.field.name ∨ entry.1.name = extension old.field.name ∧ entry.1.name ∈ extensions type := by
  cases old with
  | plain field scalar =>
    obtain rfl := mem_singleton.mp inside
    exact .inl rfl
  | large field work =>
    obtain ⟨extended,_,name,_,_,same⟩ := repaired_large legacy member
    simp only [same,mem_cons,not_mem_nil,or_false] at inside
    rcases inside with rfl | rfl
    · exact .inl rfl
    · exact .inr ⟨name,name ▸ mem_map_of_mem (legacy.large field work member).1⟩

theorem repaired_distinct : ((fields.flatMap (Old.repaired type)).map fun entry => entry.1.name).Nodup := by
  rw [map_flatMap,nodup_flatMap]
  constructor
  · intro old member
    cases old with
    | plain field scalar => simp [Old.repaired]
    | large field work =>
      obtain ⟨extended,_,name,_,_,same⟩ := repaired_large legacy member
      simp [same,name,(extension_ne field.name).symm]
  · have apart := Pairwise.and_mem.mp (pairwise_map.mp legacy.distinct)
    refine apart.imp ?_
    rintro one other ⟨inside,within,distinct⟩ name first second
    obtain ⟨entry,here,rfl⟩ := mem_map.mp first
    obtain ⟨entry',there,same⟩ := mem_map.mp second
    rcases repaired_name legacy inside here with own | ⟨own,extends_⟩ <;>
      rcases repaired_name legacy within there with own' | ⟨own',extends'⟩
    · exact distinct (by rw [← own,← own',same])
    · exact (legacy.known one inside).2 (own ▸ same ▸ extends')
    · exact (legacy.known other within).2 (own' ▸ same.symm ▸ extends_)
    · exact distinct (extension_injective (by rw [← own,← own',same]))

theorem repaired_frame (finite : AllFinite fields) : Frame (schema type) (fields.flatMap (Old.repaired type)) := by
  constructor
  · intro entry member
    obtain ⟨old,inside,here⟩ := mem_flatMap.mp member
    cases old with
    | plain field scalar =>
      obtain rfl := mem_singleton.mp here
      exact (legacy.known _ inside).1
    | large field work =>
      obtain ⟨extended,known,_,_,_,same⟩ := repaired_large legacy inside
      simp only [same,mem_cons,not_mem_nil,or_false] at here
      rcases here with rfl | rfl
      · exact (legacy.known _ inside).1
      · exact known
  · intro entry member
    obtain ⟨old,inside,here⟩ := mem_flatMap.mp member
    cases old with
    | plain field scalar =>
      obtain rfl := mem_singleton.mp here
      exact (legacy.plain field scalar inside).1
    | large field work =>
      obtain ⟨extended,known,_,double,kind,same⟩ := repaired_large legacy inside
      simp only [same,mem_cons,not_mem_nil,or_false] at here
      rcases here with rfl | rfl
      · rw [kind]
        refine ⟨⟨by decide,by decide⟩,?_,by rintro _ ⟨⟩⟩
        rintro _ ⟨⟩
        exact_mod_cast holds_sentinel
      · obtain ⟨number,finite⟩ := finite field work inside
        obtain ⟨_,whole,rfl,_,holds⟩ := toNumber_finite (legacy.large field work inside).2 finite
        rw [double,finite]
        exact ⟨holds,by rintro _ ⟨⟩,by rintro _ ⟨⟩⟩
  · exact repaired_distinct legacy
  · intro field member required
    obtain ⟨old,inside,rfl⟩ := mem_map.mp (legacy.present field member required)
    cases old with
    | plain field scalar =>
      exact mem_map.mpr ⟨(field,scalar),mem_flatMap.mpr ⟨_,inside,mem_singleton_self _⟩,rfl⟩
    | large field work =>
      exact mem_map.mpr ⟨(field,.int 0),mem_flatMap.mpr ⟨_,inside,mem_cons_self⟩,rfl⟩

end

end Repairing

section Decoding

variable {type : MessageType} {fields : List Old} {protobuf : List Field → Raw}
  {buffer : List Byte} {offset : ℕ} {end_ : Option ℕ}

def repairedData (type : MessageType) (fields : List Old) : Object :=
  readEntries (schema type) (fields.flatMap (Old.repaired type))

section

variable (legacy : Legacy type fields)
  (finite : AllFinite fields)
  {field : Field}
include legacy finite

theorem repairedData_plain {scalar : Scalar} (member : Old.plain field scalar ∈ fields) :
    repairedData type fields field.name = valueOf scalar :=
  readEntries_mem (schema_distinct type) (repaired_frame legacy finite)
    (mem_flatMap.mpr ⟨_,member,mem_singleton_self _⟩)

theorem repairedData_large {work : ℕ} (member : Old.large field work ∈ fields) :
    repairedData type fields field.name = .number (.finite 0) ∧
      repairedData type fields (extension field.name) = .number (toNumber work) := by
  obtain ⟨extended,_,name,_,_,same⟩ := repaired_large legacy member
  obtain ⟨number,here⟩ := finite field work member
  have sentinel : (field,Scalar.int 0) ∈ fields.flatMap (Old.repaired type) :=
    mem_flatMap.mpr ⟨_,member,mem_cons_self⟩
  have real : (extended,Scalar.real number) ∈ fields.flatMap (Old.repaired type) := by
    refine mem_flatMap.mpr ⟨_,member,?_⟩
    rw [same,here]
    exact mem_cons_of_mem _ (mem_singleton_self _)
  constructor
  · have reads := readEntries_mem (schema_distinct type) (repaired_frame legacy finite) sentinel
    rw [show valueOf (.int 0) = .number (.finite 0) by simp [valueOf]] at reads
    exact reads
  · rw [here,← name]
    exact readEntries_mem (schema_distinct type) (repaired_frame legacy finite) real

end

theorem repairedData_default (legacy : Legacy type fields) {field : Field} (member : field ∈ schema type)
    (work : field.name ∈ workFields type) (small : ∀ work, Old.large field work ∉ fields) :
    repairedData type fields (extension field.name) = .number (.finite 0) := by
  obtain ⟨extended,known,_,name,double,_⟩ := workTags_schema member work
  have absent : ∀ entry ∈ fields.flatMap (Old.repaired type), entry.1.name ≠ extended.name := by
    intro entry inside same
    obtain ⟨old,within,here⟩ := mem_flatMap.mp inside
    have plain := (legacy.known old within).2
    rw [name] at same
    have extends_ : extension field.name ∈ extensions type := mem_map_of_mem work
    cases old with
    | plain other scalar =>
      obtain rfl := mem_singleton.mp here
      exact plain (same ▸ extends_)
    | large other value =>
      obtain ⟨_,_,name',_,_,pair⟩ := repaired_large legacy within
      simp only [pair,mem_cons,not_mem_nil,or_false] at here
      rcases here with rfl | rfl
      · exact plain (same ▸ extends_)
      · have names : other.name = field.name := extension_injective (name'.symm.trans same)
        have fields := inj_on_of_nodup_map (schema_distinct type).names (legacy.known _ within).1 member names
        exact small value (fields ▸ within)
  have reads := readEntries_absent (schema_distinct type) known absent
  rw [name,double] at reads
  exact reads

theorem legacy_adoptable (legacy : Legacy type fields) (finite : AllFinite fields)
    {name : String} (member : name ∈ workFields type) : Adoptable (repairedData type fields) name := by
  obtain ⟨field,known,rfl,kind⟩ := named_field (work_kind member)
  by_cases large : ∃ work, Old.large field work ∈ fields
  · obtain ⟨work,inside⟩ := large
    obtain ⟨sentinel,extended⟩ := repairedData_large legacy finite inside
    obtain ⟨number,here⟩ := finite field work inside
    obtain ⟨_,whole,rfl,wide,_⟩ := toNumber_finite (legacy.large field work inside).2 here
    refine .inr ⟨whole,here ▸ extended,?_,Rat.den_natCast whole,sentinel⟩
    have limit : (2 ^ 64 : ℚ) ≤ whole := by exact_mod_cast wide
    exact le_trans (by norm_num [INT64_LIMIT]) limit
  · have small : ∀ work, Old.large field work ∉ fields := fun work inside => large ⟨work,inside⟩
    refine .inl ⟨?_,?_⟩
    · rw [repairedData_default legacy known member small]
      rfl
    · intro _
      by_cases present : ∃ scalar, Old.plain field scalar ∈ fields
      · obtain ⟨scalar,inside⟩ := present
        obtain ⟨work,rfl⟩ := (legacy.plain field scalar inside).2 member
        rw [repairedData_plain legacy finite inside]
        exact ⟨work,rfl,Nat.cast_nonneg work⟩
      · have absent : ∀ entry ∈ fields.flatMap (Old.repaired type), entry.1.name ≠ field.name := by
          intro entry inside same
          obtain ⟨old,within,here⟩ := mem_flatMap.mp inside
          rcases repaired_name legacy within here with own | ⟨own,extends_⟩
          · have names : old.field.name = field.name := own.symm.trans same
            have fields := inj_on_of_nodup_map (schema_distinct type).names (legacy.known _ within).1 known names
            cases old with
            | plain other scalar => exact present ⟨scalar,fields ▸ within⟩
            | large other work => exact small work (fields ▸ within)
          · obtain ⟨base,inside,name⟩ := mem_map.mp extends_
            exact (workFields_separate type).apart base inside field.name member (name.trans same)
        have reads := readEntries_absent (schema_distinct type) known absent
        rw [kind] at reads
        exact ⟨0,reads,le_refl 0⟩

theorem window_length {bytes : List Byte}
    (within : window buffer offset end_ = some bytes) : bytes.length = limit buffer end_ - offset := by
  unfold window at within
  split at within
  next bounds =>
    cases within
    simp [bounds.1]
  · cases within

theorem decode_legacy (library : Reads protobuf) (legacy : Legacy type fields) (finite : AllFinite fields)
    (overflown : ∃ field work, Old.large field work ∈ fields)
    (within : window buffer offset end_ = some (fields.flatMap Old.bytes)) {failure : String}
    (rejected : (protobuf (schema type)).decode (some buffer) offset end_ = .error failure) :
    ∃ decoded, (adaptWorkCodecs protobuf type).decode (some buffer) offset end_ =
        .ok ⟨decoded,(fields.flatMap Old.bytes).length⟩ ∧
      (∀ field work, Old.large field work ∈ fields → decoded field.name = .number (toNumber work)) ∧
      (∀ field scalar, Old.plain field scalar ∈ fields → decoded field.name = valueOf scalar) ∧
      ∀ name ∈ extensions type, decoded name = .undefined := by
  have whole : window ((fields.flatMap (Old.repaired type)).flatMap fieldBytes) 0 none =
      some ((fields.flatMap (Old.repaired type)).flatMap fieldBytes) := by
    simp [window,limit]
  have reads := library.reads type _ (repaired_frame legacy finite) _ 0 none whole
  refine ⟨(workFields type).foldl (fun data field => adopted field data) (repairedData type fields),?_,?_,?_,?_⟩
  · have length := window_length within
    unfold adaptWorkCodecs wrapCodec originalDecode
    simp only [rejected,legacy_repairs legacy finite overflown within,reads,length]
    change (adoptFields (workFields type) (repairedData type fields) >>= fun data =>
      Except.ok (Decoded.mk data (limit buffer end_ - offset))) = _
    rw [adoptFields_run (workFields_separate type) fun name member => legacy_adoptable legacy finite member]
    rfl
  · intro field work member
    obtain ⟨large,wide⟩ := legacy.large field work member
    obtain ⟨_,extended⟩ := repairedData_large legacy finite member
    obtain ⟨number,here⟩ := finite field work member
    obtain ⟨_,whole,rfl,least,_⟩ := toNumber_finite wide here
    have positive : (whole : ℚ) ≠ 0 := by
      have nonzero : whole ≠ 0 := by omega
      exact_mod_cast nonzero
    have adopts : (isDefined (repairedData type fields (extension field.name)) &&
        !isZero (repairedData type fields (extension field.name))) = true := by
      rw [extended,here]
      simpa [isDefined,isZero] using positive
    rw [(fold_field adopted_local (workFields_separate type) large _).1]
    unfold adopted
    rw [update_of_ne (extension_ne field.name).symm,if_pos adopts,update_self,extended]
  · intro field scalar member
    obtain ⟨known,plain⟩ := legacy.known _ member
    rw [← repairedData_plain legacy finite member]
    by_cases work : field.name ∈ workFields type
    · have small : ∀ work, Old.large field work ∉ fields := by
        intro other inside
        have same := inj_on_of_nodup_map legacy.distinct member inside rfl
        cases same
      have extended : repairedData type fields (extension field.name) = .number (.finite 0) :=
        repairedData_default legacy known work small
      rw [(fold_field adopted_local (workFields_separate type) work _).1]
      unfold adopted
      rw [extended,update_of_ne (extension_ne field.name).symm,if_neg (by simp [isZero])]
    · refine fold_other adopted_local _ fun base inside => ⟨fun same => work (same ▸ inside),?_⟩
      exact fun same => plain (same ▸ mem_map_of_mem inside)
  · intro name member
    obtain ⟨base,inside,rfl⟩ := mem_map.mp member
    rw [(fold_field adopted_local (workFields_separate type) inside _).2]
    exact update_self ..

theorem decode_rejected {buffer : Option (List Byte)} {failure : String}
    (rejected : (protobuf (schema type)).decode buffer offset end_ = .error failure) :
    (repairLegacyOverflow buffer offset end_ (workTags type) = none →
      (adaptWorkCodecs protobuf type).decode buffer offset end_ = .error failure) ∧
    ∀ parts failure', repairLegacyOverflow buffer offset end_ (workTags type) = some parts →
      (protobuf (schema type)).decode (some parts) 0 none = .error failure' →
        (adaptWorkCodecs protobuf type).decode buffer offset end_ = .error failure' := by
  unfold adaptWorkCodecs wrapCodec originalDecode
  constructor
  · intro none_
    simp only [rejected,none_]
    rfl
  · intro parts failure' repaired again
    simp only [rejected,repaired,again]
    rfl

end Decoding

section Strict

variable {schema : List Field} {entries : List (Field × Scalar)}

def strict (schema : List Field) : Raw where
  encode := (tagged schema).encode
  encodingLength := (tagged schema).encodingLength
  decode buffer offset end_ :=
    match (buffer.bind fun buffer => window buffer offset end_).bind fun bytes =>
      repairFields [] bytes.length bytes {} with
    | none => .error "malformed"
    | some _ => (tagged schema).decode buffer offset end_

def found (message : Wire.Message) (entry : Field × Scalar) : Wire.Message :=
  Function.update message entry.1.name (some entry.2)

theorem readFields_entries (distinct : Wire.Distinct schema) (known : ∀ entry ∈ entries, entry.1 ∈ schema)
    (held : ∀ entry ∈ entries, Held entry.1.kind entry.2) {fuel : ℕ}
    (enough : (entries.flatMap fieldBytes).length ≤ fuel) (message : Wire.Message) :
    Wire.readFields schema fuel (entries.flatMap fieldBytes) message = some (entries.foldl found message) := by
  induction entries generalizing fuel message with
  | nil => cases fuel <;> rfl
  | cons entry entries ih =>
    obtain ⟨inside,known⟩ := forall_mem_cons.mp known
    obtain ⟨holds,held⟩ := forall_mem_cons.mp held
    have nonempty := length_pos_iff.mpr (Wire.Varint.write_ne_nil (entry.1.kind.wireType + 8 * entry.1.tag))
    rw [flatMap_cons] at enough ⊢
    unfold fieldBytes at enough ⊢
    simp only [length_append] at enough
    obtain ⟨fuel,rfl⟩ : ∃ less, fuel = less + 1 := Nat.exists_eq_succ_of_ne_zero (by omega)
    rw [Wire.readFields_field distinct (Sublist.refl _) inside holds.fits,if_pos inside]
    refine ih known held ?_ _
    unfold fieldBytes
    omega

theorem found_entries (distinct : (entries.map fun entry => entry.1.name).Nodup) (message : Wire.Message)
    (name : String) :
    entries.foldl found message name =
      ((entries.find? fun entry => entry.1.name = name).map Prod.snd).or (message name) := by
  induction entries generalizing message with
  | nil => rfl
  | cons entry entries ih =>
    obtain ⟨fresh,distinct⟩ := nodup_cons.mp distinct
    rw [foldl_cons,ih distinct]
    by_cases same : entry.1.name = name
    · have missing : entries.find? (fun entry => entry.1.name = name) = none := by
        rw [find?_eq_none]
        intro other inside equal
        exact fresh (mem_map.mpr ⟨other,inside,(of_decide_eq_true equal).trans same.symm⟩)
      simp [missing,same,found]
    · simp [same,found,update_of_ne (Ne.symm same)]

theorem tagged_entries (distinct : Wire.Distinct schema) (frame : Frame schema entries)
    {buffer : List Byte} {offset : ℕ}
    {end_ : Option ℕ} (within : window buffer offset end_ = some (entries.flatMap fieldBytes)) :
    (tagged schema).decode (some buffer) offset end_ =
      .ok ⟨readEntries schema entries,(entries.flatMap fieldBytes).length⟩ := by
  have fields := readFields_entries distinct frame.known frame.held (Nat.le_refl _) fun _ => none
  have value (name : String) := found_entries frame.distinct (fun _ => none) name
  have present : (schema.all fun field =>
      !field.required || (entries.foldl found (fun _ => none) field.name).isSome) = true := by
    rw [all_eq_true]
    intro field member
    cases required : field.required with
    | false => rfl
    | true =>
      obtain ⟨entry,inside,rfl⟩ := mem_map.mp (frame.present field member required)
      have here : entries.find? (fun other => other.1.name = entry.1.name) = some entry :=
        Wire.find_of_mem frame.distinct inside
      simp [value,here]
  have reads : Wire.read schema (entries.flatMap fieldBytes) = some fun name =>
      (byName schema name).map fun field => (entries.foldl found (fun _ => none) name).getD field.kind.default := by
    unfold Wire.read Wire.complete
    rw [fields]
    simp only [Option.bind_eq_bind,Option.bind_some,present,guard_true,Option.pure_def]
  simp only [tagged,Option.bind_some,within,reads]
  congr 2
  funext name
  unfold readEntries
  cases named : byName schema name with
  | none => rfl
  | some field => simp [value]

theorem strict_reads : Reads strict := by
  constructor
  intro type entries frame buffer offset end_ within
  have passes : repairFields [] (entries.flatMap fieldBytes).length (entries.flatMap fieldBytes) {} =
      some ((entries.map fun entry => Item.kept (entry.1.kind.wireType + 8 * entry.1.tag)
        (Wire.writeScalar entry.1.kind entry.2)).foldl (advance []) {}) := by
    refine (repairFields_iff (by simp [Short]) (Nat.le_refl _)).mpr ⟨_,?_,?_,rfl⟩
    · rw [flatMap_map]
      rfl
    · intro item member
      obtain ⟨entry,inside,rfl⟩ := mem_map.mp member
      obtain ⟨positive,bound⟩ := schema_tags (frame.known entry inside)
      have small := entry.1.kind.wireType_lt
      refine ⟨by omega,by omega,by simp [extensionOf],?_⟩
      rw [show (entry.1.kind.wireType + 8 * entry.1.tag) % 8 = entry.1.kind.wireType by omega]
      exact payload_write (frame.held entry inside)
  simp only [strict,Option.bind_some,within,passes]
  exact tagged_entries (schema_distinct type) frame within

end Strict

section Samples

def sampleLegacy (difficulty : ℕ) : List Old :=
  [.plain ⟨1,"hash",.string,true⟩ (.text "af"),.large ⟨2,"difficulty",.int64,true⟩ difficulty,
    .plain ⟨3,"shares",.int64,true⟩ (.int 456),.plain ⟨4,"timestamp",.int64,true⟩ (.int 1790000000000),
    .plain ⟨5,"poolType",POOLTYPE,true⟩ (.int 0),.plain ⟨6,"unlocked",.bool,true⟩ (.bool false),
    .plain ⟨7,"valid",.bool,true⟩ (.bool true)]

theorem holds_int {value : ℕ} (small : value < 2 ^ 53) : Format.double.Holds (value : ℤ) := by
  exact_mod_cast Format.holds_natCast small

theorem sampleLegacy_legacy {difficulty : ℕ} (large : 2 ^ 64 ≤ difficulty) :
    Legacy .Block (sampleLegacy difficulty) := by
  have whole {kind : Kind} (value : ℕ) (small : value < 2 ^ 53) (fits : kind.Fits (.int value)) :
      Held kind (.int value) := by
    refine ⟨fits,?_,by rintro _ ⟨⟩⟩
    rintro _ ⟨⟩
    exact holds_int small
  have flag (value : Bool) : Held .bool (.bool value) := ⟨trivial,by rintro _ ⟨⟩,by rintro _ ⟨⟩⟩
  constructor
  · intro old member
    simp only [sampleLegacy,mem_cons,not_mem_nil,or_false] at member
    rcases member with rfl | rfl | rfl | rfl | rfl | rfl | rfl <;>
      exact ⟨by simp [Old.field,schema],by simp [Old.field,extensions,workFields,extension]⟩
  · simp [sampleLegacy,Old.field]
  · intro field scalar member
    simp only [sampleLegacy,mem_cons,not_mem_nil,or_false,Old.plain.injEq,reduceCtorEq,false_or] at member
    rcases member with ⟨rfl,rfl⟩ | ⟨rfl,rfl⟩ | ⟨rfl,rfl⟩ | ⟨rfl,rfl⟩ | ⟨rfl,rfl⟩ | ⟨rfl,rfl⟩
    · exact ⟨⟨trivial,by rintro _ ⟨⟩,by rintro _ ⟨⟩; decide +kernel⟩,by simp [workFields]⟩
    · exact ⟨whole 456 (by decide) ⟨by decide,by decide⟩,fun _ => ⟨456,rfl⟩⟩
    · exact ⟨whole 1790000000000 (by decide) ⟨by decide,by decide⟩,by simp [workFields]⟩
    · exact ⟨whole 0 (by decide) ⟨by decide,by decide,by decide⟩,by simp [workFields]⟩
    · exact ⟨flag false,by simp [workFields]⟩
    · exact ⟨flag true,by simp [workFields]⟩
  · intro field work member
    simp only [sampleLegacy,mem_cons,not_mem_nil,or_false,Old.large.injEq,reduceCtorEq,false_or] at member
    obtain ⟨rfl,rfl⟩ := member
    exact ⟨by simp [workFields],large⟩
  · intro field member required
    simp only [schema,mem_cons,not_mem_nil,or_false] at member
    rcases member with rfl | rfl | rfl | rfl | rfl | rfl | rfl | rfl | rfl | rfl | rfl <;>
      first | simp [sampleLegacy,Old.field]; done | cases required

theorem strict_rejects (type : MessageType) {bytes : List Byte}
    (overlong : (repairFields [] bytes.length bytes {}).isNone = true) :
    (strict (schema type)).decode (some bytes) 0 none = .error "malformed" := by
  have whole : window bytes 0 none = some bytes := by simp [window,limit]
  simp only [strict,Option.bind_some,whole,Option.isNone_iff_eq_none.mp overlong]

theorem tagged_reads : Reads tagged :=
  ⟨fun type _ frame _ _ _ within => tagged_entries (schema_distinct type) frame within⟩

def readsNumber (number : ℚ) : Value → Bool
  | .number (.finite value) => value = number
  | _ => false

theorem readsNumber_eq {number : ℚ} {value : Value} (reads : readsNumber number value = true) :
    value = .number (.finite number) := by
  unfold readsNumber at reads
  split at reads
  · rw [of_decide_eq_true reads]
  · cases reads

end Samples

end NodejsPool.Common.LegacyRepair
