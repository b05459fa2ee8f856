import Mathlib.Data.List.Nodup
import NodejsPool.Wire.Binary

/-! Messages of tagged fields: a reader that knows some of the fields skips the others. -/
namespace NodejsPool.Wire
open List

inductive Kind where
  | int32
  | int64
  | uint64
  | bool
  | enum (values : ℕ)
  | string
  | float
  | double
  deriving DecidableEq

inductive Scalar where
  | int (value : ℤ)
  | bool (value : Bool)
  | text (value : String)
  | real (value : ℚ)

namespace Kind

def wireType : Kind → ℕ
  | .int32 | .int64 | .uint64 | .bool | .enum _ => 0
  | .double => 1
  | .string => 2
  | .float => 5

def Fits : Kind → Scalar → Prop
  | .int32,.int value => -(2 ^ 31) ≤ value ∧ value < 2 ^ 31
  | .enum values,.int value => 0 ≤ value ∧ value < values ∧ value < 2 ^ 31
  | .int64,.int value => -(2 ^ 63) ≤ value ∧ value < 2 ^ 63
  | .uint64,.int value => 0 ≤ value ∧ value < 2 ^ 64
  | .bool,.bool _ | .string,.text _ => True
  | .float,.real value => Format.single.Holds value
  | .double,.real value => Format.double.Holds value
  | _,_ => False

def default : Kind → Scalar
  | .int32 | .int64 | .uint64 | .enum _ => .int 0
  | .bool => .bool false
  | .string => .text ""
  | .float | .double => .real 0

end Kind

def utf8 (text : String) : List Byte := text.toUTF8.data.toList.map fun unit => ⟨unit.toNat,unit.toNat_lt⟩

def readUtf8 (bytes : List Byte) : Option String :=
  String.fromUTF8? (bytes.map fun byte => UInt8.ofNat byte.val).toByteArray

@[simp] theorem readUtf8_utf8 (text : String) : readUtf8 (utf8 text) = some text := by
  have same : ((utf8 text).map fun byte => UInt8.ofNat byte.val).toByteArray = text.toByteArray := by
    apply ByteArray.ext
    simp [utf8,map_map,Function.comp_def]
  have valid : text.toByteArray.IsValidUTF8 := text.isValidUTF8
  unfold readUtf8 String.fromUTF8?
  rw [same,dif_pos valid]
  rfl

def takeBytes (count : ℕ) (bytes : List Byte) : Option (List Byte × List Byte) :=
  if count ≤ bytes.length then some (bytes.take count,bytes.drop count) else none

@[simp] theorem takeBytes_append (bytes rest : List Byte) :
    takeBytes bytes.length (bytes ++ rest) = some (bytes,rest) := by simp [takeBytes]

def writeScalar : Kind → Scalar → List Byte
  | .uint64,.int value => Varint.write value.toNat
  | _,.int value => Varint.write (unsigned64 value)
  | _,.bool value => Varint.write value.toNat
  | _,.text value => Varint.write (utf8 value).length ++ utf8 value
  | .float,.real value => littleEndian 4 (Format.single.word value)
  | _,.real value => littleEndian 8 (Format.double.word value)

def readScalar (kind : Kind) (bytes : List Byte) : Option (Scalar × List Byte) := do
  match kind with
  | .int32 | .int64 | .enum _ =>
    let (value,rest) ← Varint.read bytes
    some (.int (signed64 value),rest)
  | .uint64 =>
    let (value,rest) ← Varint.read bytes
    some (.int value,rest)
  | .bool =>
    let (value,rest) ← Varint.read bytes
    some (.bool (value ≠ 0),rest)
  | .string =>
    let (count,rest) ← Varint.read bytes
    let (text,rest) ← takeBytes count rest
    let text ← readUtf8 text
    some (.text text,rest)
  | .float =>
    let (word,rest) ← readLittleEndian 4 bytes
    some (.real (Format.single.readWord word),rest)
  | .double =>
    let (word,rest) ← readLittleEndian 8 bytes
    some (.real (Format.double.readWord word),rest)

def skip (wireType : ℕ) (bytes : List Byte) : Option (List Byte) :=
  match wireType with
  | 0 => (Varint.read bytes).map Prod.snd
  | 1 => (takeBytes 8 bytes).map Prod.snd
  | 2 => do
    let (count,rest) ← Varint.read bytes
    (takeBytes count rest).map Prod.snd
  | 5 => (takeBytes 4 bytes).map Prod.snd
  | _ => none

theorem read_int {value : ℤ} (low : -(2 ^ 63) ≤ value) (high : value < 2 ^ 63) (rest : List Byte) :
    Varint.read (Varint.write (unsigned64 value) ++ rest) = some (unsigned64 value,rest) ∧
      signed64 (unsigned64 value) = value :=
  ⟨Varint.read_write _ _,signed64_unsigned64 low high⟩

theorem read_word {format : Format} {count : ℕ} (wide : 2 ≤ format.exponent)
    (size : 2 ^ (format.fraction + format.exponent + 1) = 256 ^ count) {value : ℚ} (holds : format.Holds value)
    (rest : List Byte) :
    readLittleEndian count (littleEndian count (format.word value) ++ rest) = some (format.word value,rest) ∧
      format.readWord (format.word value) = value := by
  obtain ⟨fits,reads⟩ := Format.readWord_word wide holds
  exact ⟨readLittleEndian_write (size ▸ fits) rest,reads⟩

theorem readScalar_write {kind : Kind} {scalar : Scalar} (fits : kind.Fits scalar) (rest : List Byte) :
    readScalar kind (writeScalar kind scalar ++ rest) = some (scalar,rest) := by
  cases kind <;> cases scalar <;> try exact absurd fits id
  case int32.int value =>
    obtain ⟨low,high⟩ := fits
    obtain ⟨reads,same⟩ := @read_int value (by omega) (by omega) rest
    simp [readScalar,writeScalar,reads,same]
  case enum.int values value =>
    obtain ⟨low,_,high⟩ := fits
    obtain ⟨reads,same⟩ := @read_int value (by omega) (by omega) rest
    simp [readScalar,writeScalar,reads,same]
  case int64.int value =>
    obtain ⟨low,high⟩ := fits
    obtain ⟨reads,same⟩ := read_int low high rest
    simp [readScalar,writeScalar,reads,same]
  case uint64.int value =>
    obtain ⟨low,high⟩ := fits
    simp [readScalar,writeScalar,low]
  case bool.bool value =>
    cases value <;> simp [readScalar,writeScalar]
  case string.text value => simp [readScalar,writeScalar,append_assoc]
  case float.real value =>
    obtain ⟨reads,same⟩ := @read_word .single 4 (by decide) (by decide) _ fits rest
    simp [readScalar,writeScalar,reads,same]
  case double.real value =>
    obtain ⟨reads,same⟩ := @read_word .double 8 (by decide) (by decide) _ fits rest
    simp [readScalar,writeScalar,reads,same]

theorem skip_write {kind : Kind} {scalar : Scalar} (fits : kind.Fits scalar) (rest : List Byte) :
    skip kind.wireType (writeScalar kind scalar ++ rest) = some rest := by
  have fixed (count value : ℕ) : takeBytes count (littleEndian count value ++ rest) =
      some (littleEndian count value,rest) := by
    have whole := takeBytes_append (littleEndian count value) rest
    rwa [littleEndian_length] at whole
  cases kind <;> cases scalar <;> try exact absurd fits id
  all_goals simp [skip,writeScalar,Kind.wireType,append_assoc,fixed]

structure Field where
  tag : ℕ
  name : String
  kind : Kind
  required : Bool
  deriving DecidableEq

abbrev Message := String → Option Scalar

def writeField (message : Message) (field : Field) : List Byte :=
  match message field.name with
  | none => []
  | some scalar => Varint.write (field.kind.wireType + 8 * field.tag) ++ writeScalar field.kind scalar

def write (schema : List Field) (message : Message) : List Byte := schema.flatMap (writeField message)

def byTag (schema : List Field) (tag : ℕ) : Option Field := schema.find? fun field => field.tag = tag

def byName (schema : List Field) (name : String) : Option Field := schema.find? fun field => field.name = name

def readFields (schema : List Field) : ℕ → List Byte → Message → Option Message
  | _,[],message => some message
  | 0,_::_,_ => none
  | fuel + 1,bytes,message => do
    let (key,rest) ← Varint.read bytes
    match byTag schema (key / 8) with
    | some field =>
      guard (key % 8 = field.kind.wireType)
      let (scalar,rest) ← readScalar field.kind rest
      readFields schema fuel rest (Function.update message field.name (some scalar))
    | none =>
      let rest ← skip (key % 8) rest
      readFields schema fuel rest message

def complete (schema : List Field) (message : Message) : Option Message := do
  guard (schema.all fun field => !field.required || (message field.name).isSome)
  some fun name => (byName schema name).map fun field => (message name).getD field.kind.default

def read (schema : List Field) (bytes : List Byte) : Option Message := do
  let message ← readFields schema bytes.length bytes fun _ => none
  complete schema message

structure Distinct (schema : List Field) : Prop where
  tags : (schema.map Field.tag).Nodup
  names : (schema.map Field.name).Nodup

structure Valid (schema : List Field) (message : Message) : Prop where
  fits : ∀ field ∈ schema, ∀ scalar, message field.name = some scalar → field.kind.Fits scalar
  present : ∀ field ∈ schema, field.required = true → (message field.name).isSome

section Reading

variable {older newer : List Field} {message : Message} {field : Field}

theorem find_of_mem {A B : Type} [DecidableEq B] {key : A → B} {items : List A} (distinct : (items.map key).Nodup)
    {item : A} (member : item ∈ items) : items.find? (fun other => key other = key item) = some item := by
  induction items with
  | nil => cases member
  | cons first items ih =>
    obtain ⟨fresh,distinct⟩ := nodup_cons.mp distinct
    rcases mem_cons.mp member with rfl | member
    · simp
    · have other : key first ≠ key item := fun same => fresh (same ▸ mem_map_of_mem member)
      rw [find?_cons_of_neg (by simpa using other)]
      exact ih distinct member

theorem byTag_none (sub : older ⊆ newer) (distinct : Distinct newer) (member : field ∈ newer)
    (unknown : field ∉ older) : byTag older field.tag = none := by
  rw [byTag,find?_eq_none]
  intro other known same
  have equal : other = field := inj_on_of_nodup_map distinct.tags (sub known) member (by simpa using same)
  exact unknown (equal ▸ known)

theorem byTag_some (distinct : Distinct older) (member : field ∈ older) :
    byTag older field.tag = some field := find_of_mem distinct.tags member

theorem byName_some (distinct : Distinct older) (member : field ∈ older) :
    byName older field.name = some field := find_of_mem distinct.names member

theorem Distinct.sub (distinct : Distinct newer) (sub : older.Sublist newer) : Distinct older :=
  ⟨distinct.tags.sublist (sub.map _),distinct.names.sublist (sub.map _)⟩

def readField (older : List Field) (message found : Message) (field : Field) : Message :=
  match message field.name with
  | none => found
  | some scalar => if field ∈ older then Function.update found field.name (some scalar) else found

theorem Kind.wireType_lt (kind : Kind) : kind.wireType < 8 := by cases kind <;> simp [Kind.wireType]

theorem readFields_field (distinct : Distinct newer) (sub : older.Sublist newer)
    (member : field ∈ newer) {scalar : Scalar} (fits : field.kind.Fits scalar) (fuel : ℕ) (rest : List Byte)
    (found : Message) : readFields older (fuel + 1)
        (Varint.write (field.kind.wireType + 8 * field.tag) ++ writeScalar field.kind scalar ++ rest) found =
      readFields older fuel rest
        (if field ∈ older then Function.update found field.name (some scalar) else found) := by
  have small := field.kind.wireType_lt
  have tag : (field.kind.wireType + 8 * field.tag) / 8 = field.tag := by omega
  have wireType : (field.kind.wireType + 8 * field.tag) % 8 = field.kind.wireType := by omega
  have unfolded (bytes : List Byte) (some_ : bytes ≠ []) : readFields older (fuel + 1) bytes found = (do
      let (key,rest) ← Varint.read bytes
      match byTag older (key / 8) with
      | some field =>
        guard (key % 8 = field.kind.wireType)
        let (scalar,rest) ← readScalar field.kind rest
        readFields older fuel rest (Function.update found field.name (some scalar))
      | none =>
        let rest ← skip (key % 8) rest
        readFields older fuel rest found) := by
    cases bytes with
    | nil => exact absurd rfl some_
    | cons => rfl
  rw [append_assoc,unfolded _ (by simp [Varint.write_ne_nil]),Varint.read_write]
  simp only [Option.bind_eq_bind,Option.bind_some,tag,wireType]
  by_cases known : field ∈ older
  · rw [byTag_some (distinct.sub sub) known,if_pos known]
    simp [readScalar_write fits]
  · rw [byTag_none sub.subset distinct member known,if_neg known]
    simp [skip_write fits]

theorem readFields_write (distinct : Distinct newer) (sub : older.Sublist newer) (valid : Valid newer message)
    {fields : List Field} (members : fields ⊆ newer) {fuel : ℕ} (enough : (write fields message).length ≤ fuel)
    (found : Message) :
    readFields older fuel (write fields message) found = some (fields.foldl (readField older message) found) := by
  induction fields generalizing fuel found with
  | nil => cases fuel <;> rfl
  | cons field fields ih =>
    have member : field ∈ newer := members mem_cons_self
    have others : fields ⊆ newer := fun _ later => members (mem_cons_of_mem _ later)
    have split : write (field::fields) message = writeField message field ++ write fields message := flatMap_cons
    rw [split] at enough ⊢
    rw [foldl_cons]
    unfold readField writeField at *
    cases value : message field.name with
    | none =>
      simp only [value,nil_append] at enough ⊢
      exact ih others enough found
    | some scalar =>
      simp only [value] at enough ⊢
      have nonempty := length_pos_iff.mpr (Varint.write_ne_nil (field.kind.wireType + 8 * field.tag))
      obtain ⟨fuel,rfl⟩ : ∃ less, fuel = less + 1 := Nat.exists_eq_succ_of_ne_zero (by
        simp only [length_append] at enough
        omega)
      rw [readFields_field distinct sub member (valid.fits field member scalar value)]
      refine ih others ?_ _
      simp only [length_append] at enough
      omega

theorem found_fields (older fields : List Field) (message found : Message) (name : String) :
    fields.foldl (readField older message) found name =
      if ∃ field ∈ fields, field ∈ older ∧ field.name = name then (message name).or (found name) else found name := by
  induction fields generalizing found with
  | nil => simp
  | cons field fields ih =>
    rw [foldl_cons,ih]
    unfold readField
    by_cases here : field.name = name
    · subst here
      cases value : message field.name with
      | none => simp
      | some scalar => by_cases known : field ∈ older <;> simp [known]
    · cases value : message field.name with
      | none => simp [here]
      | some scalar => by_cases known : field ∈ older <;> simp [known,here,Function.update_of_ne (Ne.symm here)]

theorem read_write (distinct : Distinct newer) (sub : older.Sublist newer) (valid : Valid newer message) :
    read older (write newer message) =
      some fun name => (byName older name).map fun field => (message name).getD field.kind.default := by
  have found : readFields older (write newer message).length (write newer message) (fun _ => none) =
      some (newer.foldl (readField older message) fun _ => none) :=
    readFields_write distinct sub valid (Subset.refl newer) le_rfl _
  have known {field : Field} (member : field ∈ older) :
      newer.foldl (readField older message) (fun _ => none) field.name = message field.name := by
    rw [found_fields,if_pos ⟨field,sub.subset member,member,rfl⟩,Option.or_none]
  unfold read complete
  rw [found]
  have present : (older.all fun field =>
      !field.required || (newer.foldl (readField older message) (fun _ => none) field.name).isSome) = true := by
    rw [all_eq_true]
    intro field member
    rw [known member]
    cases required : field.required with
    | false => rfl
    | true => simpa using valid.present field (sub.subset member) required
  simp only [Option.bind_eq_bind,Option.bind_some,present,guard_true,Option.pure_def,Option.some.injEq]
  funext name
  cases named : byName older name with
  | none => rfl
  | some field =>
    obtain rfl : field.name = name := by simpa using find?_some named
    simp only [Option.map_some,known (mem_of_find?_eq_some named)]

end Reading

end NodejsPool.Wire
