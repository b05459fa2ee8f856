import NodejsPool.Common.WorkCodec

/-! Work survives its codec: what is encoded reads back, and an old reader sees the sentinel. -/
namespace NodejsPool.Common.WorkCodec
open Function List
open RemoteShare.ShareStore (Number Value)
open Wire (Byte Field Format Kind Scalar byName byName_some)

section Folds

variable {field : String}

structure Local (change : String → Object → Object) : Prop where
  frame : ∀ field data name, name ≠ field → name ≠ extension field → change field data name = data name
  depends : ∀ field data other, data field = other field → data (extension field) = other (extension field) →
    change field data field = change field other field ∧
      change field data (extension field) = change field other (extension field)

structure Separate (fields : List String) : Prop where
  nodup : fields.Nodup
  apart : ∀ field ∈ fields, ∀ other ∈ fields, extension field ≠ other

theorem extension_injective {other : String} (same : extension field = extension other) : field = other :=
  (String.append_left_inj _).mp same

theorem extension_ne (field : String) : extension field ≠ field := by
  intro same
  have lengths := congrArg String.length same
  simp [extension] at lengths

theorem Separate.tail (separate : Separate (field::fields)) : Separate fields :=
  ⟨(nodup_cons.mp separate.nodup).2,fun one inside other within =>
    separate.apart one (mem_cons_of_mem _ inside) other (mem_cons_of_mem _ within)⟩

variable {change : String → Object → Object} {fields : List String}

theorem fold_other (local_ : Local change) {name : String} (data : Object)
    (unlisted : ∀ field ∈ fields, name ≠ field ∧ name ≠ extension field) :
    fields.foldl (fun data field => change field data) data name = data name := by
  induction fields generalizing data with
  | nil => rfl
  | cons field fields ih =>
    obtain ⟨apart,apart'⟩ := unlisted field mem_cons_self
    rw [foldl_cons,ih _ fun other later => unlisted other (mem_cons_of_mem _ later)]
    exact local_.frame field data name apart apart'

theorem fold_field (local_ : Local change) (separate : Separate fields) (member : field ∈ fields) (data : Object) :
    fields.foldl (fun data field => change field data) data field = change field data field ∧
      fields.foldl (fun data field => change field data) data (extension field) =
        change field data (extension field) := by
  induction fields generalizing data with
  | nil => cases member
  | cons first fields ih =>
    have fresh := (nodup_cons.mp separate.nodup).1
    have apart (one other : String) (inside : one ∈ first::fields) (within : other ∈ first::fields) :
        extension one ≠ other := separate.apart one inside other within
    rw [foldl_cons]
    rcases mem_cons.mp member with rfl | later
    · have rest (name : String) (here : name = field ∨ name = extension field) :
          ∀ other ∈ fields, name ≠ other ∧ name ≠ extension other := by
        intro other within
        have distinct : field ≠ other := fun same => fresh (same ▸ within)
        have inside : other ∈ field::fields := mem_cons_of_mem _ within
        rcases here with rfl | rfl
        · exact ⟨distinct,(apart other name inside member).symm⟩
        · exact ⟨apart field other member inside,fun same => distinct (extension_injective same)⟩
      exact ⟨fold_other local_ _ (rest field (.inl rfl)),fold_other local_ _ (rest _ (.inr rfl))⟩
    · have distinct : field ≠ first := fun same => fresh (same ▸ later)
      have here : change first data field = data field :=
        local_.frame first data field distinct (apart first field mem_cons_self member).symm
      have there : change first data (extension field) = data (extension field) :=
        local_.frame first data _ (apart field first member mem_cons_self)
          fun same => distinct (extension_injective same)
      obtain ⟨one,two⟩ := ih separate.tail later (change first data)
      obtain ⟨one',two'⟩ := local_.depends field (change first data) data here there
      exact ⟨one.trans one',two.trans two'⟩

end Folds

section Preparing

variable {data wire : Ref} {heap : Heap} {fields : List String}

def wireField (message : Object) (field : String) (wire : Object) : Object :=
  let wire := Function.update wire (extension field) .undefined
  if overflows (message field) then
    Function.update (Function.update wire field (.number (.finite 0))) (extension field) (message field)
  else wire

theorem wireField_local (message : Object) : Local (wireField message) := by
  constructor
  · intro field data name apart apart'
    unfold wireField
    split <;> simp [apart,apart']
  · intro field data other same same'
    unfold wireField
    split
    · simp [update_of_ne (extension_ne field).symm]
    · simp [update_of_ne (extension_ne field).symm,same]

theorem prepareFields_frame (heap : Heap) {ref : Ref} (apart : ref ≠ wire) :
    (prepareFields data wire fields heap).2.objects ref = heap.objects ref := by
  induction fields generalizing heap with
  | nil => rfl
  | cons field fields ih =>
    unfold prepareFields
    have assigned (heap : Heap) (name : String) (value : Value) :
        (heap.assign wire name value).objects ref = heap.objects ref := update_of_ne apart _ _
    dsimp only
    split
    · split
      · exact assigned heap _ _
      · split <;> simp [ih,assigned]
    · simp [ih,assigned]

def Work (value : Value) : Prop := ∃ number, value = .number (.finite number) ∧ 0 ≤ number

theorem validateWork_work {value : Value} (work : Work value) (field : String) :
    validateWork value field false = .ok () := by
  obtain ⟨number,rfl,positive⟩ := work
  simp [validateWork,Value.readFinite,not_lt.mpr positive]

theorem prepareFields_run (apart : data ≠ wire)
    (work : ∀ field ∈ fields, isDefined (heap.objects data field) = true → Work (heap.objects data field)) :
    prepareFields data wire fields heap = (.ok (),{heap with
      objects := update heap.objects wire
        (fields.foldl (fun wire field => wireField (heap.objects data) field wire) (heap.objects wire))}) := by
  induction fields generalizing heap with
  | nil => simp [prepareFields]
  | cons field fields ih =>
    have later : ∀ other ∈ fields, isDefined (heap.objects data other) = true → Work (heap.objects data other) :=
      fun other member => work other (mem_cons_of_mem _ member)
    have assigned (heap : Heap) (name : String) (value : Value) :
        (heap.assign wire name value).objects data = heap.objects data := update_of_ne apart _ _
    have same : (heap.assign wire (extension field) .undefined).objects data = heap.objects data := assigned _ _ _
    unfold prepareFields
    simp only [same]
    by_cases defined : isDefined (heap.objects data field) = true
    · rw [if_pos defined,validateWork_work (work field mem_cons_self defined)]
      dsimp only
      by_cases large : overflows (heap.objects data field) = true
      · have step : wireField (heap.objects data) field (heap.objects wire) = update
            (update (update (heap.objects wire) (extension field) .undefined) field
              (.number (.finite 0))) (extension field) (heap.objects data field) := if_pos large
        rw [if_pos large,ih (by simpa only [assigned] using later),foldl_cons,step]
        simp only [assigned]
        simp [Heap.assign]
      · have step : wireField (heap.objects data) field (heap.objects wire) =
            update (heap.objects wire) (extension field) .undefined := if_neg large
        rw [if_neg large,ih (by simpa only [assigned] using later),foldl_cons,step]
        simp only [assigned]
        simp [Heap.assign]
    · have small : overflows (heap.objects data field) = false := by
        cases value : heap.objects data field <;> simp [isDefined,value] at defined <;> rfl
      have step : wireField (heap.objects data) field (heap.objects wire) =
          update (heap.objects wire) (extension field) .undefined := if_neg (by simp [small])
      rw [if_neg defined,ih (by simpa only [assigned] using later),foldl_cons,step]
      simp only [assigned]
      simp [Heap.assign]

theorem prepareWire_run (old : data < heap.next)
    (work : ∀ field ∈ fields, isDefined (heap.objects data field) = true → Work (heap.objects data field)) :
    ∃ after : Heap, prepareWire data fields heap = (.ok heap.next,after) ∧
      (∀ ref < heap.next, after.objects ref = heap.objects ref) ∧
      after.objects heap.next =
        fields.foldl (fun wire field => wireField (heap.objects data) field wire) (heap.objects data) := by
  have apart : data ≠ heap.next := Nat.ne_of_lt old
  have here : update heap.objects heap.next (heap.objects data) data = heap.objects data :=
    update_of_ne apart _ _
  have run := @prepareFields_run data heap.next (heap.spread data).2 fields apart
    (by simpa [Heap.spread,here] using work)
  refine ⟨(prepareFields data heap.next fields (heap.spread data).2).2,?_,?_,?_⟩
  · have spread : heap.spread data = (heap.next,(heap.spread data).2) := rfl
    rw [prepareWire,spread]
    simp only
    rw [run]
  · intro ref below
    rw [prepareFields_frame _ (Nat.ne_of_lt below)]
    exact update_of_ne (Nat.ne_of_lt below) _ _
  · rw [run]
    simp [Heap.spread,here]

end Preparing

section Adopting

variable {data : Object} {field : String} {fields : List String}

def adopted (field : String) (data : Object) : Object :=
  Function.update
    (if isDefined (data (extension field)) && !isZero (data (extension field)) then
      Function.update data field (data (extension field))
    else data)
    (extension field) .undefined

theorem adopted_local : Local adopted := by
  constructor
  · intro field data name apart apart'
    unfold adopted
    split <;> simp [apart,apart']
  · intro field data other same same'
    unfold adopted
    simp only [same']
    split <;> simp [update_of_ne (extension_ne field).symm,same]

/-- A field as the encoder leaves it: plain work, or a large whole number over the sentinel. -/
def Adoptable (data : Object) (field : String) : Prop :=
  (isDefined (data (extension field)) && !isZero (data (extension field))) = false ∧
      (isDefined (data field) = true → Work (data field)) ∨
    ∃ number : ℚ, data (extension field) = .number (.finite number) ∧ INT64_LIMIT ≤ number ∧ number.den = 1 ∧
      data field = .number (.finite 0)

theorem large_positive {number : ℚ} (large : INT64_LIMIT ≤ number) : 0 < number :=
  lt_of_lt_of_le (by norm_num [INT64_LIMIT]) large

theorem adoptField_run (adoptable : Adoptable data field) : adoptField field data = .ok (adopted field data) := by
  have finish (data : Object) (work : isDefined (data field) = true → Work (data field)) :
      (do
        let data := update data (extension field) Value.undefined
        if isDefined (data field) then validateWork (data field) field false
        return data : Except String Object) = .ok (update data (extension field) .undefined) := by
    simp only [update_of_ne (extension_ne field).symm]
    by_cases defined : isDefined (data field) = true
    · rw [if_pos defined,validateWork_work (work defined)]
      rfl
    · rw [if_neg defined]
      rfl
  unfold adoptField adopted
  rcases adoptable with ⟨plain,work⟩ | ⟨number,large,bound,whole,sentinel⟩
  · have same : adoptExtension field data = .ok data := by simp [adoptExtension,plain]
    rw [same,plain]
    exact finish data work
  · have positive := large_positive bound
    have adopts : (isDefined (data (extension field)) && !isZero (data (extension field))) = true := by
      simp [large,isDefined,isZero,positive.ne']
    have same : adoptExtension field data = .ok (update data field (data (extension field))) := by
      simp [adoptExtension,large,sentinel,validateWork,Value.readFinite,whole,not_lt.mpr positive.le,overflows,bound,
        isZero,isDefined,positive.ne']
    rw [same,if_pos adopts]
    refine finish _ fun _ => ⟨number,?_,positive.le⟩
    rw [update_self,large]

theorem adoptFields_run (separate : Separate fields) (adoptable : ∀ field ∈ fields, Adoptable data field) :
    adoptFields fields data = .ok (fields.foldl (fun data field => adopted field data) data) := by
  induction fields generalizing data with
  | nil => rfl
  | cons field fields ih =>
    have fresh := (nodup_cons.mp separate.nodup).1
    have later : ∀ other ∈ fields, Adoptable (adopted field data) other := by
      intro other member
      have distinct : other ≠ field := fun same => fresh (same ▸ member)
      have inside := mem_cons_of_mem field member
      have here : adopted field data other = data other :=
        adopted_local.frame field data other distinct (separate.apart field mem_cons_self other inside).symm
      have there : adopted field data (extension other) = data (extension other) :=
        adopted_local.frame field data _ (separate.apart other inside field mem_cons_self)
          fun same => distinct (extension_injective same)
      unfold Adoptable
      rw [here,there]
      exact adoptable other inside
    unfold adoptFields
    rw [adoptField_run (adoptable field mem_cons_self)]
    exact ih separate.tail later

end Adopting

def truncate (number : ℚ) : ℤ := if number < 0 then ⌈number⌉ else ⌊number⌋

def scalarOf (kind : Kind) (value : Value) : Option Scalar :=
  match kind,value with
  | .int64,.number (.finite number) => some (.int (truncate number))
  | .int32,.number (.finite number) | .uint64,.number (.finite number) | .enum _,.number (.finite number) =>
    if number.den = 1 then some (.int number.num) else none
  | .float,.number (.finite number) | .double,.number (.finite number) => some (.real number)
  | .bool,.boolean value => some (.bool value)
  | .string,.string text => some (.text text)
  | _,_ => none

def valueOf : Scalar → Value
  | .int value => .number (.finite value)
  | .bool value => .boolean value
  | .text text => .string text
  | .real value => .number (.finite value)

theorem scalarOf_valueOf {kind : Kind} {scalar : Scalar} (fits : kind.Fits scalar) :
    scalarOf kind (valueOf scalar) = some scalar := by
  cases kind <;> cases scalar <;> first | exact absurd fits id | simp [scalarOf,valueOf,truncate]

/-- The values the library takes: numbers are doubles, and each property is one of its kind. -/
structure InRange (schema : List Field) (data : Object) : Prop where
  doubles : ∀ field ∈ schema, ∀ number, data field.name = .number (.finite number) → Format.double.Holds number
  fits : ∀ field ∈ schema, isDefined (data field.name) = true →
    ∃ scalar, scalarOf field.kind (data field.name) = some scalar ∧ field.kind.Fits scalar
  present : ∀ field ∈ schema, field.required = true → isDefined (data field.name) = true

def readBack (older : List Field) (data : Object) : Object := fun name =>
  match byName older name with
  | none => .undefined
  | some field =>
    if isDefined (data name) then ((scalarOf field.kind (data name)).map valueOf).getD .undefined
    else valueOf field.kind.default

def place (bytes : List Byte) : Option (List Byte × ℕ) → Option (List Byte)
  | none => some bytes
  | some (buffer,offset) =>
    if offset + bytes.length ≤ buffer.length then
      some (buffer.take offset ++ bytes ++ buffer.drop (offset + bytes.length))
    else none

/-- The library on values in range: it writes some bytes, as many as it says, and they read
back; a schema without some of the fields skips them. -/
structure Correct (protobuf : List Field → Raw) : Prop where
  writes : ∀ schema data, Wire.Distinct schema → InRange schema data → ∃ bytes,
    (∀ target buffer, place bytes target = some buffer →
      (protobuf schema).encode data target = .ok ⟨buffer,bytes.length⟩) ∧
    (protobuf schema).encodingLength data = .ok bytes.length ∧
    ∀ older, older.Sublist schema → ∀ buffer offset end_, window buffer offset end_ = some bytes →
      (protobuf older).decode (some buffer) offset end_ = .ok ⟨readBack older data,bytes.length⟩

section Messages

variable {type : MessageType} {field : String} {value : Value} {number : ℚ}

theorem schema_distinct (type : MessageType) : Wire.Distinct (schema type) := by
  cases type <;> exact ⟨by decide,by decide⟩

theorem workFields_separate (type : MessageType) : Separate (workFields type) := by
  cases type <;> exact ⟨by decide,by decide⟩

theorem work_kind (member : field ∈ workFields type) : (byName (schema type) field).map Field.kind = some .int64 := by
  revert field
  cases type <;> decide

theorem extension_kind (member : field ∈ workFields type) :
    (byName (schema type) (extension field)).map (fun entry => (entry.kind,entry.required)) = some (.double,false) := by
  revert field
  cases type <;> decide

def extensions (type : MessageType) : List String := (workFields type).map extension

/-- A message as the pool builds it: an object of JavaScript numbers, its work finite and
nonnegative, every other property a value of its field. -/
structure Message (type : MessageType) (message : Object) : Prop where
  doubles : ∀ name number, message name = .number (.finite number) → Format.double.Holds number
  work : ∀ field ∈ workFields type, isDefined (message field) = true → Work (message field)
  others : ∀ field ∈ schema type, field.name ∉ workFields type → field.name ∉ extensions type →
    isDefined (message field.name) = true → ∃ scalar, message field.name = valueOf scalar ∧ field.kind.Fits scalar
  present : ∀ field ∈ schema type, field.required = true → isDefined (message field.name) = true

def wholeWork (value : Value) : Value :=
  if overflows value then value
  else
    match value with
    | .number (.finite number) => .number (.finite (truncate number))
    | value => value

theorem wholeWork_large (large : overflows value = true) : wholeWork value = value := by
  unfold wholeWork
  rw [if_pos large]

theorem wholeWork_small (here : value = .number (.finite number))
    (small : ¬overflows value = true) : wholeWork value = .number (.finite (truncate number)) := by
  subst here
  unfold wholeWork
  rw [if_neg small]

def survives (type : MessageType) (message : Object) (field : Field) : Value :=
  if isDefined (message field.name) then
    if field.name ∈ workFields type then wholeWork (message field.name) else message field.name
  else valueOf field.kind.default

def wireMessage (type : MessageType) (message : Object) : Object :=
  (workFields type).foldl (fun wire field => wireField message field wire) message

variable {message : Object}

theorem wireMessage_work (member : field ∈ workFields type) :
    wireMessage type message field = if overflows (message field) then .number (.finite 0) else message field := by
  unfold wireMessage
  rw [(fold_field (wireField_local message) (workFields_separate type) member message).1]
  unfold wireField
  split <;> simp [update_of_ne (extension_ne field).symm]

theorem wireMessage_extension (member : field ∈ workFields type) :
    wireMessage type message (extension field) = if overflows (message field) then message field else .undefined := by
  unfold wireMessage
  rw [(fold_field (wireField_local message) (workFields_separate type) member message).2]
  unfold wireField
  split <;> simp

theorem wireMessage_other {name : String} (other : name ∉ workFields type) (plain : name ∉ extensions type) :
    wireMessage type message name = message name := by
  unfold wireMessage
  refine fold_other (wireField_local message) message fun field member => ⟨?_,?_⟩
  · rintro rfl
    exact other member
  · rintro rfl
    exact plain (mem_map_of_mem member)

theorem overflows_iff : overflows value = true ↔ ∃ number, value = .number (.finite number) ∧ INT64_LIMIT ≤ number := by
  constructor
  · intro large
    obtain ⟨number,reads,bound⟩ := (Option.any_eq_true _ _).mp large
    cases value <;> try cases reads
    case number value =>
      cases value <;> cases reads
      exact ⟨_,rfl,of_decide_eq_true bound⟩
  · rintro ⟨number,rfl,bound⟩
    simpa [overflows,Value.readFinite] using bound

theorem large_whole (double : Format.double.Holds number) (large : INT64_LIMIT ≤ number) : number.den = 1 :=
  double.whole (le_trans (by norm_num [Format.double,INT64_LIMIT]) large)

theorem truncate_fits (positive : 0 ≤ number) (small : ¬INT64_LIMIT ≤ number) :
    0 ≤ truncate number ∧ truncate number < 2 ^ 63 := by
  unfold truncate
  rw [if_neg (not_lt.mpr positive)]
  refine ⟨Int.floor_nonneg.mpr positive,Int.floor_lt.mpr ?_⟩
  have below := not_le.mp small
  unfold INT64_LIMIT at below
  push_cast
  linarith

theorem schema_cases {field : Field} (member : field ∈ schema type) :
    field.name ∈ workFields type ∧ field.kind = .int64 ∨
      (∃ work ∈ workFields type, field.name = extension work ∧ field.kind = .double ∧ field.required = false) ∨
      field.name ∉ workFields type ∧ field.name ∉ extensions type := by
  have named := byName_some (schema_distinct type) member
  by_cases work : field.name ∈ workFields type
  · have kind := work_kind work
    rw [named] at kind
    exact .inl ⟨work,by simpa using kind⟩
  · by_cases extended : field.name ∈ extensions type
    · obtain ⟨base,inside,same⟩ := mem_map.mp extended
      have kind := extension_kind inside
      rw [same,named] at kind
      obtain ⟨double,optional⟩ : field.kind = .double ∧ field.required = false := by simpa using kind
      exact .inr (.inl ⟨base,inside,same.symm,double,optional⟩)
    · exact .inr (.inr ⟨work,extended⟩)

theorem holds_sentinel : Format.double.Holds 0 := Wire.Format.holds_zero (by decide)

theorem wireMessage_inRange (valid : Message type message) : InRange (schema type) (wireMessage type message) := by
  constructor
  · intro field member number here
    rcases schema_cases member with ⟨work,_⟩ | ⟨base,inside,name,_⟩ | ⟨other,plain⟩
    · rw [wireMessage_work work] at here
      split at here
      · cases here
        exact holds_sentinel
      · exact valid.doubles _ _ here
    · rw [name,wireMessage_extension inside] at here
      split at here
      · exact valid.doubles _ _ here
      · cases here
    · rw [wireMessage_other other plain] at here
      exact valid.doubles _ _ here
  · intro field member defined
    rcases schema_cases member with ⟨work,kind⟩ | ⟨base,inside,name,kind,_⟩ | ⟨other,plain⟩
    · rw [wireMessage_work work] at defined ⊢
      rw [kind]
      by_cases large : overflows (message field.name) = true
      · rw [if_pos large]
        exact ⟨.int 0,by simp [scalarOf,truncate],by decide,by decide⟩
      · rw [if_neg large] at defined ⊢
        obtain ⟨number,value,positive⟩ := valid.work _ work defined
        have small : ¬INT64_LIMIT ≤ number := fun bound => large (overflows_iff.mpr ⟨number,value,bound⟩)
        obtain ⟨low,high⟩ := truncate_fits positive small
        rw [value]
        exact ⟨.int (truncate number),rfl,by omega,high⟩
    · rw [name,wireMessage_extension inside] at defined ⊢
      by_cases large : overflows (message base) = true
      · obtain ⟨number,value,_⟩ := overflows_iff.mp large
        rw [if_pos large,kind,value]
        exact ⟨.real number,rfl,valid.doubles _ _ value⟩
      · rw [if_neg large] at defined
        cases defined
    · rw [wireMessage_other other plain] at defined ⊢
      obtain ⟨scalar,value,fits⟩ := valid.others field member other plain defined
      exact ⟨scalar,value ▸ scalarOf_valueOf fits,fits⟩
  · intro field member required
    have defined := valid.present field member required
    rcases schema_cases member with ⟨work,_⟩ | ⟨_,_,_,_,optional⟩ | ⟨other,plain⟩
    · rw [wireMessage_work work]
      split
      · rfl
      · exact defined
    · rw [optional] at required
      cases required
    · rwa [wireMessage_other other plain]

theorem readBack_field {older : List Field} (distinct : Wire.Distinct older) {field : Field} (member : field ∈ older)
    (data : Object) : readBack older data field.name =
      if isDefined (data field.name) then ((scalarOf field.kind (data field.name)).map valueOf).getD .undefined
      else valueOf field.kind.default := by
  unfold readBack
  rw [byName_some distinct member]

theorem named_field {name : String} {kind : Kind} (named : (byName (schema type) name).map Field.kind = some kind) :
    ∃ field ∈ schema type, field.name = name ∧ field.kind = kind := by
  obtain ⟨field,found,same⟩ := Option.map_eq_some_iff.mp named
  exact ⟨field,mem_of_find?_eq_some found,by simpa using find?_some found,same⟩

theorem readBack_work (valid : Message type message) (member : field ∈ workFields type) :
    (∃ number, message field = .number (.finite number) ∧ INT64_LIMIT ≤ number ∧
      readBack (schema type) (wireMessage type message) field = .number (.finite 0) ∧
      readBack (schema type) (wireMessage type message) (extension field) = message field) ∨
    overflows (message field) = false ∧
      readBack (schema type) (wireMessage type message) (extension field) = .number (.finite 0) ∧
      Work (readBack (schema type) (wireMessage type message) field) ∧
      readBack (schema type) (wireMessage type message) field =
        if isDefined (message field) then wholeWork (message field) else .number (.finite 0) := by
  obtain ⟨entry,inside,rfl,kind⟩ := named_field (work_kind member)
  have extended : (byName (schema type) (extension entry.name)).map Field.kind = some .double := by
    have both := extension_kind member
    obtain ⟨found,here,same⟩ := Option.map_eq_some_iff.mp both
    rw [here,Option.map_some,(Prod.mk.inj same).1]
  obtain ⟨entry',inside',name',kind'⟩ := named_field extended
  have here := readBack_field (schema_distinct type) inside (wireMessage type message)
  have there := readBack_field (schema_distinct type) inside' (wireMessage type message)
  rw [name',kind',wireMessage_extension member] at there
  rw [kind,wireMessage_work member] at here
  by_cases large : overflows (message entry.name) = true
  · obtain ⟨number,value,bound⟩ := overflows_iff.mp large
    rw [if_pos large] at here there
    refine .inl ⟨number,value,bound,?_,?_⟩
    · simpa [isDefined,scalarOf,truncate,valueOf] using here
    · rw [there,value]
      rfl
  · have small : overflows (message entry.name) = false := by simpa using large
    rw [if_neg large] at here there
    have whole : readBack (schema type) (wireMessage type message) entry.name =
        if isDefined (message entry.name) then wholeWork (message entry.name) else .number (.finite 0) := by
      rw [here]
      by_cases defined : isDefined (message entry.name) = true
      · obtain ⟨number,value,_⟩ := valid.work _ member defined
        rw [if_pos defined,if_pos defined,wholeWork_small value large,value]
        rfl
      · rw [if_neg defined,if_neg defined]
        rfl
    refine .inr ⟨small,there,?_,whole⟩
    rw [whole]
    by_cases defined : isDefined (message entry.name) = true
    · obtain ⟨number,value,positive⟩ := valid.work _ member defined
      have bounded : ¬INT64_LIMIT ≤ number := fun bound => large (overflows_iff.mpr ⟨number,value,bound⟩)
      rw [if_pos defined,wholeWork_small value large]
      exact ⟨truncate number,rfl,by exact_mod_cast (truncate_fits positive bounded).1⟩
    · rw [if_neg defined]
      exact ⟨0,rfl,le_refl 0⟩

theorem readBack_adoptable (valid : Message type message) (member : field ∈ workFields type) :
    Adoptable (readBack (schema type) (wireMessage type message)) field := by
  rcases readBack_work valid member with ⟨number,value,large,sentinel,extended⟩ | ⟨_,extended,work,_⟩
  · refine .inr ⟨number,extended.trans value,large,?_,sentinel⟩
    exact large_whole (valid.doubles _ _ value) large
  · refine .inl ⟨?_,fun _ => work⟩
    rw [extended]
    rfl

theorem adopted_survives (valid : Message type message) {field : Field} (member : field ∈ schema type)
    (plain : field.name ∉ extensions type) : (workFields type).foldl (fun data field => adopted field data)
      (readBack (schema type) (wireMessage type message)) field.name = survives type message field := by
  unfold survives
  by_cases work : field.name ∈ workFields type
  · rw [(fold_field adopted_local (workFields_separate type) work _).1]
    unfold adopted
    rw [update_of_ne (extension_ne field.name).symm,if_pos work]
    have kind : field.kind = .int64 := by
      rcases schema_cases member with ⟨_,kind⟩ | ⟨base,inside,name,_⟩ | ⟨other,_⟩
      · exact kind
      · exact absurd (name ▸ mem_map_of_mem inside) plain
      · exact absurd work other
    rcases readBack_work valid work with ⟨number,value,large,sentinel,extended⟩ | ⟨_,extended,_,whole⟩
    · have overflown : overflows (message field.name) = true := overflows_iff.mpr ⟨number,value,large⟩
      have defined : isDefined (message field.name) = true := by rw [value]; rfl
      have adopts : (isDefined (message field.name) && !isZero (message field.name)) = true := by
        simp [value,isDefined,isZero,(large_positive large).ne']
      rw [extended,if_pos adopts,update_self,if_pos defined,wholeWork_large overflown]
    · rw [extended,if_neg (by simp [isZero]),whole,kind]
      rfl
  · rw [if_neg work]
    have unlisted : ∀ base ∈ workFields type, field.name ≠ base ∧ field.name ≠ extension base := by
      intro base inside
      exact ⟨fun same => work (same ▸ inside),fun same => plain (same ▸ mem_map_of_mem inside)⟩
    rw [fold_other adopted_local _ unlisted,readBack_field (schema_distinct type) member,
      wireMessage_other work plain]
    by_cases defined : isDefined (message field.name) = true
    · obtain ⟨scalar,value,fits⟩ := valid.others field member work plain defined
      rw [if_pos defined,if_pos defined,value,scalarOf_valueOf fits]
      rfl
    · rw [if_neg defined,if_neg defined]

end Messages

section Library

variable {protobuf : List Field → Raw} {type : MessageType} {message : Object}

theorem decode_wire (valid : Message type message) {buffer : Option (List Byte)} {offset : ℕ}
    {end_ : Option ℕ} {bytes : ℕ} (reads : (protobuf (schema type)).decode buffer offset end_ =
      .ok ⟨readBack (schema type) (wireMessage type message),bytes⟩) :
    ∃ decoded, (adaptWorkCodecs protobuf type).decode buffer offset end_ = .ok ⟨decoded,bytes⟩ ∧
      (∀ field ∈ schema type, field.name ∉ extensions type → decoded field.name = survives type message field) ∧
      ∀ name ∈ extensions type, decoded name = .undefined := by
  refine ⟨_,?_,fun field member plain => adopted_survives valid member plain,?_⟩
  case refine_2 =>
    intro name member
    obtain ⟨field,inside,rfl⟩ := mem_map.mp member
    rw [(fold_field adopted_local (workFields_separate type) inside _).2]
    exact update_self ..
  unfold adaptWorkCodecs wrapCodec originalDecode
  simp only [reads]
  change (adoptFields (workFields type) (readBack (schema type) (wireMessage type message)) >>= fun data =>
    Except.ok (Decoded.mk data bytes)) = _
  rw [adoptFields_run (workFields_separate type) fun field member => readBack_adoptable valid member]
  rfl

theorem readBack_sentinel {older : List Field} (sub : older.Sublist (schema type)) {field : String}
    (member : field ∈ workFields type) (known : field ∈ older.map Field.name)
    (large : overflows (message field) = true) :
    readBack older (wireMessage type message) field = .number (.finite 0) := by
  obtain ⟨entry,inside,rfl⟩ := mem_map.mp known
  rw [readBack_field ((schema_distinct type).sub sub) inside,wireMessage_work member,if_pos large]
  have kind : entry.kind = .int64 := by
    have here := work_kind member
    rw [byName_some (schema_distinct type) (sub.subset inside)] at here
    simpa using here
  simp [isDefined,kind,scalarOf,truncate,valueOf]

/-- Work is encoded in as many bytes as announced, the message itself is left alone, every
property reads back, and a decoder without the extension fields reads large work as zero. -/
theorem work_round_trip (library : Correct protobuf) (heap : Heap) (data : Ref) (old : data < heap.next)
    (valid : Message type (heap.objects data)) : ∃ bytes : List Byte,
      (∀ target buffer, place bytes target = some buffer → ∃ after : Heap,
        (adaptWorkCodecs protobuf type).encode data target heap = (.ok ⟨buffer,bytes.length⟩,after) ∧
          ∀ ref < heap.next, after.objects ref = heap.objects ref) ∧
      (∃ after : Heap, (adaptWorkCodecs protobuf type).encodingLength data heap = (.ok bytes.length,after) ∧
        ∀ ref < heap.next, after.objects ref = heap.objects ref) ∧
      (∀ buffer offset end_, window buffer offset end_ = some bytes → ∃ decoded,
        (adaptWorkCodecs protobuf type).decode (some buffer) offset end_ = .ok ⟨decoded,bytes.length⟩ ∧
          (∀ field ∈ schema type, field.name ∉ extensions type →
            decoded field.name = survives type (heap.objects data) field) ∧
          ∀ name ∈ extensions type, decoded name = .undefined) ∧
      ∀ older, older.Sublist (schema type) → (∀ field ∈ older, field.name ∉ extensions type) →
        ∀ buffer offset end_, window buffer offset end_ = some bytes → ∃ decoded,
          (protobuf older).decode (some buffer) offset end_ = .ok ⟨decoded,bytes.length⟩ ∧
            ∀ field ∈ workFields type, field ∈ older.map Field.name → overflows (heap.objects data field) = true →
              decoded field = .number (.finite 0) := by
  obtain ⟨after,prepared,same,wire⟩ := prepareWire_run old valid.work
  obtain ⟨bytes,encodes,announces,reads⟩ :=
    library.writes (schema type) _ (schema_distinct type) (wireMessage_inRange valid)
  refine ⟨bytes,?_,?_,?_,?_⟩
  · intro target buffer placed
    refine ⟨after,?_,same⟩
    unfold adaptWorkCodecs wrapCodec
    simp only [prepared,wire]
    exact congrArg (fun result => (result,after)) (encodes target buffer placed)
  · refine ⟨after,?_,same⟩
    unfold adaptWorkCodecs wrapCodec
    simp only [prepared,wire]
    exact congrArg (fun result => (result,after)) announces
  · intro buffer offset end_ slice
    exact decode_wire valid (reads _ (List.Sublist.refl _) buffer offset end_ slice)
  · intro older sub _ buffer offset end_ slice
    exact ⟨_,reads older sub buffer offset end_ slice,fun field member known large =>
      readBack_sentinel sub member known large⟩

def toMessage (schema : List Field) (data : Object) : Wire.Message := fun name =>
  (byName schema name).bind fun field => if isDefined (data name) then scalarOf field.kind (data name) else none

def tagged (schema : List Field) : Raw where
  encode data target :=
    let bytes := Wire.write schema (toMessage schema data)
    if schema.all fun field => !field.required || isDefined (data field.name) then
      match place bytes target with
      | none => .error "out of range"
      | some buffer => .ok ⟨buffer,bytes.length⟩
    else .error "required"
  decode buffer offset end_ :=
    match buffer.bind fun buffer => window buffer offset end_ with
    | none => .error "out of range"
    | some bytes =>
      match Wire.read schema bytes with
      | none => .error "malformed"
      | some message => .ok ⟨fun name => ((message name).map valueOf).getD .undefined,bytes.length⟩
  encodingLength data :=
    if schema.all fun field => !field.required || isDefined (data field.name) then
      .ok (Wire.write schema (toMessage schema data)).length
    else .error "required"

theorem toMessage_valid {schema : List Field} {data : Object} (distinct : Wire.Distinct schema)
    (inRange : InRange schema data) : Wire.Valid schema (toMessage schema data) := by
  have here {field : Field} (member : field ∈ schema) : toMessage schema data field.name =
      if isDefined (data field.name) then scalarOf field.kind (data field.name) else none := by
    unfold toMessage
    rw [byName_some distinct member]
    rfl
  constructor
  · intro field member scalar value
    rw [here member] at value
    by_cases defined : isDefined (data field.name) = true
    · obtain ⟨other,same,fits⟩ := inRange.fits field member defined
      rw [if_pos defined,same] at value
      cases value
      exact fits
    · rw [if_neg defined] at value
      cases value
  · intro field member required
    have defined := inRange.present field member required
    obtain ⟨scalar,same,_⟩ := inRange.fits field member defined
    rw [here member,if_pos defined,same]
    rfl

theorem tagged_correct : Correct tagged := by
  constructor
  intro schema data distinct inRange
  have present : (schema.all fun field => !field.required || isDefined (data field.name)) = true := by
    rw [all_eq_true]
    intro field member
    cases required : field.required with
    | false => rfl
    | true => simpa using inRange.present field member required
  refine ⟨Wire.write schema (toMessage schema data),?_,?_,?_⟩
  · intro target buffer placed
    simp only [tagged,present,if_true,placed]
  · simp only [tagged,present,if_true]
  · intro older sub buffer offset end_ slice
    have read := Wire.read_write distinct sub (toMessage_valid distinct inRange)
    simp only [tagged,Option.bind_some,slice,read]
    congr 2
    funext name
    unfold readBack
    cases named : byName older name with
    | none => rfl
    | some field =>
      have inside := mem_of_find?_eq_some named
      obtain rfl : field.name = name := by simpa using find?_some named
      by_cases defined : isDefined (data field.name) = true
      · obtain ⟨scalar,same,_⟩ := inRange.fits field (sub.subset inside) defined
        simp [toMessage,byName_some distinct (sub.subset inside),defined,same]
      · simp [toMessage,byName_some distinct (sub.subset inside),defined]

def sampleBlock : Object :=
  (Value.record [("hash",.string "af"),("difficulty",.number (.finite 0x10000000000000000)),
    ("shares",.number (.finite (3 / 2))),("timestamp",.number (.finite 7)),("poolType",.number (.finite 0)),
    ("unlocked",.boolean false),("valid",.boolean true)]).field

theorem sampleBlock_valid : Message .Block sampleBlock := by
  have timestamp : Format.double.Holds 7 := ⟨7,1074,by decide,by decide,by norm_num [Format.least,Format.double]⟩
  have shares : Format.double.Holds (3 / 2) := ⟨3,1073,by decide,by decide,by norm_num [Format.least,Format.double]⟩
  have difficulty : Format.double.Holds 0x10000000000000000 :=
    ⟨2 ^ 52,1086,by decide,by decide,by norm_num [Format.least,Format.double]⟩
  constructor
  · intro name number here
    unfold sampleBlock Value.field at here
    simp only [find?_cons] at here
    repeat' split at here
    all_goals simp at here
    all_goals subst here
    all_goals first | exact timestamp | exact shares | exact difficulty | exact holds_sentinel
  · intro field member _
    simp only [workFields,mem_cons,not_mem_nil,or_false] at member
    rcases member with rfl | rfl
    · exact ⟨0x10000000000000000,rfl,by norm_num⟩
    · exact ⟨3 / 2,rfl,by norm_num⟩
  · intro field member other plain defined
    simp only [schema,mem_cons,not_mem_nil,or_false] at member
    rcases member with rfl | rfl | rfl | rfl | rfl | rfl | rfl | rfl | rfl | rfl | rfl
    · exact ⟨.text "af",rfl,trivial⟩
    · exact absurd (by decide) other
    · exact absurd (by decide) other
    · exact ⟨.int 7,rfl,by decide,by decide⟩
    · exact ⟨.int 0,rfl,by decide,by decide,by decide⟩
    · exact ⟨.bool false,rfl,trivial⟩
    · exact ⟨.bool true,rfl,trivial⟩
    · cases defined
    · cases defined
    · exact absurd (by decide) plain
    · exact absurd (by decide) plain
  · decide

theorem sampleBlock_round_trip : ∃ bytes decoded,
    (adaptWorkCodecs tagged .Block).encode 0 none ⟨1,fun _ => sampleBlock⟩ = (.ok ⟨bytes,bytes.length⟩,
      ((adaptWorkCodecs tagged .Block).encode 0 none ⟨1,fun _ => sampleBlock⟩).2) ∧
    (adaptWorkCodecs tagged .Block).decode (some bytes) 0 none = .ok ⟨decoded,bytes.length⟩ ∧
    decoded "difficulty" = .number (.finite 0x10000000000000000) ∧ decoded "shares" = .number (.finite 1) := by
  obtain ⟨bytes,encodes,_,decodes,_⟩ :=
    work_round_trip tagged_correct ⟨1,fun _ => sampleBlock⟩ 0 (by decide) sampleBlock_valid
  obtain ⟨after,encoded,_⟩ := encodes none bytes rfl
  obtain ⟨decoded,reads,fields,_⟩ := decodes bytes 0 none (by simp [window,limit])
  refine ⟨bytes,decoded,by rw [encoded],reads,?_,?_⟩
  · have large : overflows (sampleBlock "difficulty") = true := overflows_iff.mpr ⟨_,rfl,by norm_num [INT64_LIMIT]⟩
    rw [fields ⟨2,"difficulty",.int64,true⟩ (by decide) (by decide)]
    exact wholeWork_large large
  · have small : ¬overflows (.number (.finite (3 / 2))) = true := by norm_num [overflows,Value.readFinite,INT64_LIMIT]
    rw [fields ⟨3,"shares",.int64,true⟩ (by decide) (by decide)]
    refine (wholeWork_small rfl small).trans ?_
    norm_num [truncate]

end Library

end NodejsPool.Common.WorkCodec
