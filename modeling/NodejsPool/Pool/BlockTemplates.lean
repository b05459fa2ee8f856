import Mathlib.Algebra.Order.Field.Rat
import NodejsPool.Common.Buffers
import NodejsPool.Common.Hex

/-! Block templates: the fields a daemon's reply gives them, where the reserve of the pool lies in
their blob, and the buffer their jobs are cut from. -/
namespace NodejsPool.Pool.Templates
open Buffers

abbrev Bytes := List UInt8

section Text

/-- `a || b` on optional texts. -/
def orText (first second : Option String) : Option String :=
  match first with
  | some text => if text = "" then second else some text
  | none => second

def hexDigit (char : Char) : Option ℕ :=
  let digit := Hex.digitValue char.toLower
  if digit < 16 then some digit else none

/-- `Buffer.from(text, "hex")` stops at the first pair that is not two digits. -/
def fromHexList : List Char → Bytes
  | high::low::rest =>
    match hexDigit high, hexDigit low with
    | some left, some right => UInt8.ofNat (16 * left + right) :: fromHexList rest
    | _, _ => []
  | _ => []

def fromHex (text : String) : Bytes := fromHexList text.toList

/-- `buffer.toString("hex")`. -/
def bytesHex (bytes : Bytes) : String :=
  String.ofList (bytes.flatMap fun byte => Hex.padHex (Hex.toHex byte.toNat) 1)

private theorem hex_pairs : ∀ number < 256, (Hex.padHex (Hex.toHex number) 1).map hexDigit =
    [some (number / 16),some (number % 16)] := by
  decide +kernel

theorem fromHex_bytesHex (bytes : Bytes) : fromHex (bytesHex bytes) = bytes := by
  unfold fromHex bytesHex
  rw [String.toList_ofList]
  induction bytes with
  | nil => rfl
  | cons byte bytes ih =>
    have digits := hex_pairs byte.toNat byte.toNat_lt
    rw [List.flatMap_cons]
    cases pair : Hex.padHex (Hex.toHex byte.toNat) 1 with
    | nil => simp [pair] at digits
    | cons high rest =>
      rw [pair] at digits
      obtain ⟨low,rfl⟩ : ∃ low, rest = [low] := by
        rw [← List.length_eq_one_iff]
        simpa using congrArg List.length digits
      simp only [List.map_cons,List.map_nil,List.cons.injEq,and_true] at digits
      simp only [List.cons_append,List.nil_append,fromHexList,digits.1,digits.2,ih]
      rw [show 16 * (byte.toNat / 16) + byte.toNat % 16 = byte.toNat from Nat.div_add_mod _ _,UInt8.ofNat_toNat]

/-- `text.indexOf(pattern)`, with none for -1. -/
def indexOf (pattern : List Char) : List Char → Option ℕ
  | [] => if pattern = [] then some 0 else none
  | char::rest => if pattern.isPrefixOf (char::rest) then some 0 else (indexOf pattern rest).map (· + 1)

/-- A number that can be `NaN`, which is none. -/
abbrev Number := Option ℚ

def parseDigits (radix : ℕ) (text : List Char) : Number :=
  let digits := text.takeWhile fun char => (hexDigit char).any fun digit => digit < radix
  if digits = [] then none
  else some (digits.foldl (fun value char => value * radix + ((hexDigit char).getD 0 : ℕ)) 0)

/-- `parseInt(text, radix)` for the radixes 10 and 16. -/
def parseInt (radix : ℕ) (text : String) : Number :=
  let trimmed := text.toList.dropWhile Char.isWhitespace
  let (sign,unsigned) : ℚ × List Char :=
    match trimmed with
    | '-' :: rest => (-1,rest)
    | '+' :: rest => (1,rest)
    | _ => (1,trimmed)
  let digits :=
    match radix, unsigned with
    | 16, '0' :: 'x' :: rest => rest
    | 16, '0' :: 'X' :: rest => rest
    | _, _ => unsigned
  (parseDigits radix digits).map (sign * ·)

/-- `Math.min`. -/
def minNumber (left right : Number) : Number := left.bind fun left => right.map fun right => min left right

end Text

section Input

structure AuxChain where
  height : String
  difficulty : String

/-- Members of `chains` that are no records are none. -/
structure Aux where
  base_difficulty : Option String
  chains : List (Option AuxChain)

variable (Child : Type)

structure Input where
  coin : String
  port : ℕ
  height : ℚ
  difficulty : Number
  mbl_difficulty : Option ℚ := none
  wide_difficulty : Option String := none
  aux : Option Aux := none
  xtm_block : Option String := none
  bits : Option String := none
  seed_hash : Option String := none
  no_proxy_nonce : Bool := false
  disable_proxy_nonce : Bool := false
  blocktemplate_blob : Option String := none
  blob : Option String := none
  blockhashing_blob : Option String := none
  hash : Option String := none
  hash2 : Option String := none
  reserved_offset : Option ℕ := none
  reservedOffset : Option ℕ := none
  bt_nonce_size : Option ℕ := none
  child_template : Option Child := none
  child_template_buffer : Option Bytes := none
  parent_blocktemplate_blob : Option String := none
  idHash : Option String := none

inductive Kind
  | hashOnly
  | compact
  | full
  deriving DecidableEq

structure BlockTemplate where
  coin : String
  port : ℕ
  height : ℚ
  difficulty : Number
  xmr_difficulty : Number
  xtm_height : Option Number
  xtm_difficulty : Option Number
  xtm_block : Option String
  bits : Option String
  seed_hash : Option String
  disableProxyNonce : Bool
  kind : Kind
  idHash : String
  hash : Option String := none
  hash2 : Option String := none
  blocktemplate_blob : Option String := none
  child_template : Option Child := none
  child_template_buffer : Option Bytes := none
  buffer : Option Bytes := none
  block_version : ℕ := 0
  reserved_offset : Option ℕ := none
  extraNonce : Option ℕ := none
  clientNonceLocation : Option ℕ := none
  clientPoolLocation : Option ℕ := none

inductive BufferField
  | blocktemplate_blob
  | blockhashing_blob

inductive ReserveOffsetSource
  | scanOrTemplate
  | template
  | blob
  | found
  deriving DecidableEq

structure TemplateSettings where
  hashOnly : Bool := false
  bufferField : BufferField := .blocktemplate_blob
  reserveOffsetSource : ReserveOffsetSource := .scanOrTemplate
  isPearl : Bool := false

/-- The coin registry and what the native libraries give; `pearlHash` is the header derived for
this worker, none when its recipe is invalid. -/
structure Runtime where
  templateConfig : ℕ → TemplateSettings
  mm_port_set : ℕ → Option ℕ
  mm_nonce_size : ℕ
  instanceId : Bytes
  md5 : String → String
  pearlHash : Input Child → Option String

end Input

section Reserve

variable {Child : Type}

def poolNonceSize : ℕ := 17

def templateHex (size : ℕ) : List Char :=
  let digits := Hex.toHex (size + 0x100)
  ['0','2'] ++ digits.drop (digits.length - 2) ++ List.replicate (2 * size) '0'

def extra_nonce_template_hex : List Char := templateHex poolNonceSize

def extra_nonce_mm_template_hex (runtime : Runtime Child) : List Char :=
  templateHex (runtime.mm_nonce_size + poolNonceSize)

/-- `a || b` on optional offsets, where zero is false. -/
def orOffset (first second : Option ℕ) : Option ℕ :=
  match first with
  | some 0 => second
  | some offset => some offset
  | none => second

def getReservedOffset (runtime : Runtime Child) (template : Input Child) (is_mm : Bool) (blob : String) : Option ℕ :=
  let source := (runtime.templateConfig template.port).reserveOffsetSource
  if source = .template then template.reserved_offset.or template.reservedOffset
  else
    let template_hex :=
      if (runtime.mm_port_set template.port).isSome && !is_mm then extra_nonce_mm_template_hex runtime
      else extra_nonce_template_hex
    match indexOf template_hex blob.toList with
    | none => orOffset template.reserved_offset template.reservedOffset
    | some found =>
      let offset := found / 2 + 2
      if is_mm || source = .blob || source = .found then some offset
      else
        match template.aux, orOffset template.reserved_offset none with
        | none, some reserved => some reserved
        | _, _ => orOffset template.reservedOffset (some offset)

end Reserve

section Constructor

variable {Child : Type} (runtime : Runtime Child)

def getAuxChainXTM (template : Input Child) : Option AuxChain :=
  match template.aux with
  | some ⟨_,[some chain]⟩ => some chain
  | _ => none

def Input.fullReserve (template : Input Child) : Bool := template.bt_nonce_size.all fun size => 16 ≤ size

def baseTemplate (template : Input Child) (kind : Kind) (idHash : String) : BlockTemplate Child :=
  let difficulty := (template.mbl_difficulty.filter fun value => value ≠ 0).or template.difficulty
  let auxBaseDifficulty := match template.aux.bind Aux.base_difficulty with
    | some text => parseInt 10 text
    | none => difficulty
  let xmr_difficulty := match orText template.wide_difficulty none with
    | some text => parseInt 16 text
    | none => auxBaseDifficulty
  let aux_chain_xtm := getAuxChainXTM template
  let xtm_difficulty := aux_chain_xtm.map fun chain => parseInt 10 chain.difficulty
  { coin := template.coin
    port := template.port
    height := template.height
    difficulty := match xtm_difficulty with
      | some xtm_difficulty => minNumber xmr_difficulty xtm_difficulty
      | none => difficulty
    xmr_difficulty := xmr_difficulty
    xtm_height := aux_chain_xtm.map fun chain => parseInt 10 chain.height
    xtm_difficulty := xtm_difficulty
    xtm_block := template.xtm_block
    bits := template.bits
    seed_hash := template.seed_hash
    disableProxyNonce := template.no_proxy_nonce || template.disable_proxy_nonce
    kind := kind
    idHash := idHash }

def templateBlob (template : Input Child) : Option String :=
    orText (orText template.blocktemplate_blob template.blob) none

def hashTemplate (template : Input Child) : Except String (BlockTemplate Child) :=
  match template.hash with
  | none => .error "Hash-only template requires a hash"
  | some hash =>
    let hash := if (runtime.templateConfig template.port).isPearl then runtime.pearlHash template else some hash
    match hash with
    | none => .error "Invalid Pearl worker template"
    | some hash => .ok {baseTemplate template .hashOnly hash with hash := some hash, hash2 := template.hash2}

def blocktemplateBlob (template : Input Child) : String :=
  (templateBlob template).getD (String.ofList (extra_nonce_mm_template_hex runtime))

def bufferBlob (template : Input Child) : Option String :=
  if template.child_template.isSome then template.parent_blocktemplate_blob
  else
    match (runtime.templateConfig template.port).bufferField with
    | .blocktemplate_blob => orText template.blocktemplate_blob (some (blocktemplateBlob runtime template))
    | .blockhashing_blob => orText template.blockhashing_blob (some (blocktemplateBlob runtime template))

/-- The constructor's path from a blob on; a reserve that is too small for the pool's fields is left alone. -/
def blobTemplate (template : Input Child) (blob : String) : BlockTemplate Child :=
  let buffer := fromHex blob
  let is_mm := template.child_template.isSome
  let offset := (getReservedOffset runtime template is_mm blob).getD 0
  let proxied := template.fullReserve && !template.no_proxy_nonce && !template.disable_proxy_nonce
  {baseTemplate template (if template.fullReserve then .full else .compact) (runtime.md5 blob) with
    blocktemplate_blob := some (blocktemplateBlob runtime template)
    child_template := template.child_template
    child_template_buffer := if is_mm then template.child_template_buffer else none
    buffer := some (if template.fullReserve then overlay buffer (offset + 4) (runtime.instanceId.take 4) else buffer)
    block_version := buffer.head?.elim 0 UInt8.toNat
    reserved_offset := some offset
    extraNonce := some 0
    clientNonceLocation := if proxied then some (offset + 12) else none
    clientPoolLocation := if proxied then some (offset + 8) else none}

/-- `new BlockTemplate(template)`, or the text of the error it throws. -/
def newBlockTemplate (template : Input Child) : Except String (BlockTemplate Child) :=
  if (templateBlob template).isNone && (runtime.templateConfig template.port).hashOnly then
    hashTemplate runtime template
  else
    match bufferBlob runtime template with
    | none => .error "Merged-mining template requires a parent blob"
    | some blob => .ok (blobTemplate runtime template blob)

end Constructor
end NodejsPool.Pool.Templates
