import NodejsPool.Common.Entries
import NodejsPool.Payments.Json
import NodejsPool.Pool.RebuiltBlobs

/-! The RandomX blob of Tari: built from a daemon's template, written to by the pool and its miners, and taken apart
again when its block is submitted. -/
namespace NodejsPool.Coins.TariRandomX
open Async Buffers Payments Pool.Templates List
open Option (isSome_none getD_some filter_eq_some_iff bind_eq_some_iff)

def XTM_T_MINING_HASH_OFFSET : ℕ := 3
def XTM_T_MINING_HASH_SIZE : ℕ := 32
def XTM_T_NONCE_OFFSET : ℕ := XTM_T_MINING_HASH_OFFSET + XTM_T_MINING_HASH_SIZE
def XTM_T_NONCE_SIZE : ℕ := 8
def XTM_T_MINER_NONCE_OFFSET : ℕ := XTM_T_NONCE_OFFSET + 4
def XTM_T_POW_ALGO_OFFSET : ℕ := XTM_T_NONCE_OFFSET + XTM_T_NONCE_SIZE
def XTM_T_POW_DATA_OFFSET : ℕ := XTM_T_POW_ALGO_OFFSET + 1
def XTM_T_POW_DATA_SIZE : ℕ := 32
def XTM_T_RANDOMXT_POW_ALGO : UInt8 := 2
def XTM_T_POOL_RESERVED_OFFSET : ℕ := XTM_T_POW_DATA_OFFSET

section Template

def parseFiniteRpcNumber : Option Json → Option ℚ
  | some (.num value) => some value
  | some (.str text) => if trim text = "" then none else readNumber text
  | _ => none

structure XtmTemplate where
  block : Json
  difficulty : ℚ
  reward : ℚ
  mergeMiningHash : Option Json
  vmKey : Option Json
  height : Option ℚ

def normalizeXtmTemplate (value : Option Json) (includeHeight : Bool) : Option XtmTemplate := do
  let result ← value.filter Json.isRecord
  let block ← result.record "block"
  let minerData ← result.record "miner_data"
  let difficulty ← parseFiniteRpcNumber (minerData.field "target_difficulty")
  let reward ← parseFiniteRpcNumber (minerData.field "reward")
  if difficulty < 0 ∨ reward < 0 then none
  else
    let normalized : XtmTemplate := {
      block := block
      difficulty := difficulty
      reward := reward
      mergeMiningHash := result.field "merge_mining_hash"
      vmKey := result.field "vm_key"
      height := none }
    if !includeHeight then some normalized
    else
      let height ← (block.record "header").bind fun header => parseFiniteRpcNumber (header.field "height")
      if height.den ≠ 1 ∨ height > 2 ^ 53 - 1 ∨ height < 0 then none else some { normalized with height := some height }

def rpcByte : Json → Option UInt8
  | .num value => if value.den = 1 ∧ 0 ≤ value ∧ value ≤ 255 then some (UInt8.ofNat value.num.toNat) else none
  | _ => none

/-- The bytes of an array that `isRpcByteArray` accepts. -/
def rpcByteArray : Option Json → Option Bytes
  | some (.arr values) => values.mapM rpcByte
  | _ => none

/-- `"00".repeat(count)`. -/
def zeroHex (count : ℕ) : String := String.ofList (List.replicate count ['0','0']).flatten

/-- `arr2hex` of bytes is their text. -/
def blocktemplateBlob (mergeMiningHash : Bytes) : String :=
  zeroHex XTM_T_MINING_HASH_OFFSET ++ bytesHex mergeMiningHash ++ zeroHex XTM_T_NONCE_SIZE ++
    String.ofList (Hex.padHex (Hex.toHex XTM_T_RANDOMXT_POW_ALGO.toNat) 1) ++ zeroHex XTM_T_POW_DATA_SIZE

structure RpcTemplate where
  input : Input Unit
  reward : ℚ
  xtm_block : Json

/-- `getBlockTemplate` of XTM-T with the body of a reply; the caller adds the coin and the port. -/
def getBlockTemplate (port : ℕ) (body : Json) : Except Json RpcTemplate :=
  let result := if body.isRecord then body.field "result" else none
  let failed : Json :=
    match if body.isRecord then body.field "error" else none with
    | some error => if error.truthy then error else .str "Invalid Tari RandomXT block template"
    | none => .str "Invalid Tari RandomXT block template"
  match normalizeXtmTemplate result true with
  | none => .error failed
  | some template =>
    match rpcByteArray template.mergeMiningHash,rpcByteArray template.vmKey with
    | some mergeMiningHash,some vmKey => .ok {
        input := {
          coin := "XTM-T"
          port := port
          height := template.height.getD 0
          difficulty := some template.difficulty
          blocktemplate_blob := some (blocktemplateBlob mergeMiningHash)
          seed_hash := some (bytesHex vmKey)
          reserved_offset := some XTM_T_POOL_RESERVED_OFFSET
          xtm_block := some template.block.stringify }
        reward := template.reward
        xtm_block := template.block }
    | _,_ => .error failed

/-- The blob functions of `xtmT`. -/
def blobs : Blobs where
  convert blobBuffer := some blobBuffer
  construct blockTemplateBuffer params :=
    some (overlay blockTemplateBuffer XTM_T_MINER_NONCE_OFFSET (fromHex params.nonce))

end Template

section Submit

def getUint32 (buffer : Bytes) (offset : ℕ) : Option ℕ :=
  match buffer.drop offset with
  | first::second::third::fourth::_ =>
    some (first.toNat * 2 ^ 24 + second.toNat * 2 ^ 16 + third.toNat * 2 ^ 8 + fourth.toNat)
  | _ => none

/-- None is the `RangeError` of a read past the end. -/
def readUInt64BufferBE (buffer : Bytes) (offset : ℕ) : Option ℕ := do
  let hi ← getUint32 buffer offset
  let lo ← getUint32 buffer (offset + 4)
  return (hi <<< 32) ||| lo

def powDataEnd (blockData : Bytes) : ℕ → ℕ
  | 0 => 0
  | last+1 =>
    if last + 1 > XTM_T_POW_DATA_OFFSET ∧ blockData[last]? = some 0 then powDataEnd blockData last else last + 1

def powData (blockData : Bytes) : Bytes :=
  (blockData.take (powDataEnd blockData blockData.length)).drop XTM_T_POW_DATA_OFFSET

/-- `value[key] = field`: an array keeps no named field when it is sent, and none is a `TypeError`. -/
def setField (value : Json) (key : String) (field : Json) : Option Json :=
  match value with
  | .obj fields => some (.obj (Entries.put fields key field))
  | .arr values => some (.arr values)
  | _ => none

inductive Reply
  | error (message : String)
  | sent (xtmBlock : Json)
  | thrown

def filled (sourceBlock : Json) (nonce : String) (powData : Bytes) : Option Json := do
  let header ← sourceBlock.field "header"
  let header ← setField header "nonce" (.str nonce)
  let pow ← header.field "pow"
  let pow ← setField pow "pow_data" (.arr (powData.map fun byte => .num byte.toNat))
  let header ← setField header "pow" pow
  setField sourceBlock "header" header

def invalidPowAlgo (actual : String) : Reply :=
  .error ("Invalid XTM-T pow_algo byte " ++ actual ++ "; expected " ++ toString XTM_T_RANDOMXT_POW_ALGO)

def submitXtmRxBlock (blockData : Option Bytes) (xtm_block : Option Json) : Reply :=
  match blockData with
  | none => invalidPowAlgo "missing"
  | some blockData =>
    match blockData[XTM_T_POW_ALGO_OFFSET]? with
    | none => invalidPowAlgo "missing"
    | some actual =>
      if actual ≠ XTM_T_RANDOMXT_POW_ALGO then invalidPowAlgo (toString actual)
      else
        match xtm_block with
        | none => .error "Missing XTM template"
        | some sourceBlock =>
          match readUInt64BufferBE blockData XTM_T_NONCE_OFFSET with
          | none => .thrown
          | some nonce =>
            match filled sourceBlock (toString nonce) (powData blockData) with
            | none => .thrown
            | some xtmBlock => .sent xtmBlock

end Submit

section Layout

variable {miningHash : Bytes}

def templateBytes (miningHash : Bytes) : Bytes :=
  List.replicate 3 0 ++ miningHash ++ List.replicate 8 0 ++ [2] ++ List.replicate 32 0

private theorem bytesHex_append (left right : Bytes) : bytesHex (left ++ right) = bytesHex left ++ bytesHex right := by
  unfold bytesHex
  rw [flatMap_append,String.ofList_append]

private theorem zeroHex_eq (count : ℕ) : zeroHex count = bytesHex (replicate count 0) := by
  unfold zeroHex bytesHex
  rw [flatMap,map_replicate]
  rfl

theorem blocktemplateBlob_eq (miningHash : Bytes) :
    blocktemplateBlob miningHash = bytesHex (templateBytes miningHash) := by
  unfold blocktemplateBlob templateBytes
  rw [bytesHex_append,bytesHex_append,bytesHex_append,bytesHex_append,zeroHex_eq,zeroHex_eq,zeroHex_eq]
  rfl

theorem length_templateBytes (sized : miningHash.length = 32) : (templateBytes miningHash).length = 76 := by
  simp [templateBytes,sized]

variable {runtime : Runtime Unit} {port : ℕ} {body : Json} {template : RpcTemplate}

theorem getBlockTemplate_input (built : getBlockTemplate port body = .ok template) :
    ∃ miningHash vmKey height difficulty, template.input = {
      coin := "XTM-T"
      port := port
      height := height
      difficulty := some difficulty
      blocktemplate_blob := some (blocktemplateBlob miningHash)
      seed_hash := some (bytesHex vmKey)
      reserved_offset := some XTM_T_POOL_RESERVED_OFFSET
      xtm_block := some template.xtm_block.stringify } := by
  unfold getBlockTemplate at built
  dsimp only at built
  split at built
  · cases built
  · split at built
    · cases built
      exact ⟨_,_,_,_,rfl⟩
    · cases built

/-- The settings of `directReserve` templates. -/
def directReserve : TemplateSettings := { reserveOffsetSource := .template }

theorem newBlockTemplate_made (built : getBlockTemplate port body = .ok template)
    (blob : template.input.blocktemplate_blob = some (blocktemplateBlob miningHash))
    (configured : runtime.templateConfig port = directReserve) {bt : BlockTemplate Unit}
    (made : newBlockTemplate runtime template.input = .ok bt) : template.input.fullReserve = true ∧
    Reserved template.input bt (overlay (templateBytes miningHash) 48 (runtime.instanceId.take 4)) 44 := by
  obtain ⟨hash,vmKey,height,difficulty,same⟩ := getBlockTemplate_input built
  have full : template.input.fullReserve = true := by
    rw [same]
    rfl
  have written : blocktemplateBlob miningHash ≠ "" := by
    intro empty
    have bytes := fromHex_bytesHex (templateBytes miningHash)
    rw [← blocktemplateBlob_eq,empty] at bytes
    have none := congrArg length bytes
    simp [templateBytes,fromHex,fromHexList] at none
  have some : templateBlob template.input = some (blocktemplateBlob miningHash) := by
    unfold templateBlob
    rw [blob]
    simp [orText,written]
  have childless : template.input.child_template = none := by rw [same]
  have source : (runtime.templateConfig template.input.port) = directReserve := by
    rw [same]
    exact configured
  have read : bufferBlob runtime template.input = Option.some (blocktemplateBlob miningHash) := by
    unfold bufferBlob
    rw [childless,source,blob]
    simp [directReserve,orText,written]
  have offset : getReservedOffset runtime template.input false (blocktemplateBlob miningHash) = Option.some 44 := by
    unfold getReservedOffset
    rw [source,same]
    rfl
  unfold newBlockTemplate at made
  rw [some,read] at made
  obtain rfl := Except.ok.inj made
  refine ⟨full,?_,?_,?_,?_,?_,fun _ => full⟩
  · simp only [blobTemplate,childless,isSome_none,offset,full,if_true,getD_some]
    rw [blocktemplateBlob_eq,fromHex_bytesHex]
  · simp only [blobTemplate,childless,isSome_none,offset,getD_some]
  · rfl
  · simp only [blobTemplate,childless,isSome_none,offset,getD_some]
    split
    · exact .inl rfl
    · exact .inr rfl
  · simp only [blobTemplate]
    split <;> rfl

end Layout

section Submission

variable {blob : Bytes}

def uint64BE (value : ℕ) : Bytes := uint32BE (value / 2 ^ 32) ++ uint32BE (value % 2 ^ 32)

private theorem uint32BE_bytes (first second third fourth : UInt8) :
    uint32BE (first.toNat * 2 ^ 24 + second.toNat * 2 ^ 16 + third.toNat * 2 ^ 8 + fourth.toNat) =
      [first,second,third,fourth] := by
  have one := first.toNat_lt
  have two := second.toNat_lt
  have three := third.toNat_lt
  have four := fourth.toNat_lt
  unfold uint32BE
  simp only [map_cons,map_nil,cons.injEq,and_true,← UInt8.toNat_inj,UInt8.toNat_ofNat']
  omega

private theorem getUint32_spec (blob : Bytes) {offset : ℕ} (inside : offset + 4 ≤ blob.length) :
    ∃ value < 2 ^ 32, getUint32 blob offset = some value ∧ uint32BE value = (blob.drop offset).take 4 := by
  have long : 4 ≤ (blob.drop offset).length := by
    rw [length_drop]
    omega
  unfold getUint32
  match blob.drop offset,long with
  | first::second::third::fourth::rest,_ =>
    have one := first.toNat_lt
    have two := second.toNat_lt
    have three := third.toNat_lt
    have four := fourth.toNat_lt
    exact ⟨_,by omega,rfl,uint32BE_bytes first second third fourth⟩

theorem readUInt64BufferBE_spec (blob : Bytes) {offset : ℕ} (inside : offset + 8 ≤ blob.length) :
    ∃ value < 2 ^ 64, readUInt64BufferBE blob offset = some value ∧ uint64BE value = (blob.drop offset).take 8 := by
  obtain ⟨hi,highest,read,written⟩ := getUint32_spec blob (show offset + 4 ≤ blob.length by omega)
  obtain ⟨lo,lowest,readLow,writtenLow⟩ := getUint32_spec blob (show offset + 4 + 4 ≤ blob.length by omega)
  have value : (hi <<< 32) ||| lo = hi * 2 ^ 32 + lo := by
    rw [← Nat.shiftLeft_add_eq_or_of_lt lowest,Nat.shiftLeft_eq]
  refine ⟨hi * 2 ^ 32 + lo,by omega,?_,?_⟩
  · unfold readUInt64BufferBE
    rw [read,readLow,← value]
    rfl
  · have high : (hi * 2 ^ 32 + lo) / 2 ^ 32 = hi := by omega
    have low : (hi * 2 ^ 32 + lo) % 2 ^ 32 = lo := by omega
    rw [uint64BE,high,low,written,writtenLow,← drop_drop,← take_add]

theorem powDataEnd_spec (blob : Bytes) : ∀ last, 44 ≤ last → 44 ≤ powDataEnd blob last ∧ powDataEnd blob last ≤ last ∧
    (∀ i, powDataEnd blob last ≤ i → i < last → blob[i]? = some 0) ∧
    (powDataEnd blob last = 44 ∨ blob[powDataEnd blob last - 1]? ≠ some 0)
  | 0,long => by omega
  | last+1,long => by
    unfold powDataEnd
    split
    next zero =>
      obtain ⟨past,byte⟩ := zero
      change last + 1 > 44 at past
      obtain ⟨low,high,zeros,top⟩ := powDataEnd_spec blob last (by omega)
      refine ⟨low,by omega,fun i from_ below => ?_,top⟩
      rcases Nat.lt_or_ge i last with before | here
      · exact zeros i from_ before
      · obtain rfl : i = last := by omega
        exact byte
    next kept =>
      refine ⟨long,le_rfl,fun i from_ below => by omega,?_⟩
      rw [Nat.add_sub_cancel]
      by_cases short : last + 1 = 44
      · exact .inl short
      · refine .inr fun byte => kept ⟨?_,byte⟩
        change last + 1 > 44
        omega

def padded (powData : Bytes) : Bytes := powData ++ List.replicate (XTM_T_POW_DATA_SIZE - powData.length) 0

theorem powData_spec (sized : blob.length = 76) : padded (powData blob) = blob.drop 44 ∧
    ∀ other, padded other = padded (powData blob) → (powData blob).length ≤ other.length := by
  obtain ⟨low,high,zeros,top⟩ := powDataEnd_spec blob blob.length (by omega)
  have length : (powData blob).length = powDataEnd blob blob.length - 44 := by
    unfold powData
    rw [length_drop,length_take,show XTM_T_POW_DATA_OFFSET = 44 from rfl]
    omega
  have field : padded (powData blob) = blob.drop 44 := by
    apply ext_getElem?
    intro i
    unfold padded
    rw [getElem?_drop]
    rcases Nat.lt_or_ge i (powData blob).length with inside | past
    · rw [getElem?_append_left inside]
      unfold powData
      rw [getElem?_drop,getElem?_take,show XTM_T_POW_DATA_OFFSET = 44 from rfl,if_pos (by omega)]
    · rw [getElem?_append_right past,getElem?_replicate,show XTM_T_POW_DATA_SIZE = 32 from rfl]
      split
      next small => exact (zeros (44 + i) (by omega) (by omega)).symm
      next large => exact (getElem?_eq_none (by omega)).symm
  refine ⟨field,fun other same => ?_⟩
  by_contra shorter
  have nonempty : powDataEnd blob blob.length ≠ 44 := by omega
  refine (top.resolve_left nonempty) ?_
  have byte : (padded other)[(powData blob).length - 1]? = some 0 := by
    unfold padded
    rw [getElem?_append_right (by omega),getElem?_replicate,show XTM_T_POW_DATA_SIZE = 32 from rfl,
      if_pos (by omega)]
  rw [same,field,getElem?_drop] at byte
  rw [show powDataEnd blob blob.length - 1 = 44 + ((powData blob).length - 1) by omega]
  exact byte

def headerBlob (miningHash : Bytes) (nonce : ℕ) (powData : Bytes) : Bytes :=
  List.replicate 3 0 ++ miningHash ++ uint64BE nonce ++ [2] ++ padded powData

def Written (i : ℕ) : Prop := Within 39 4 i ∨ Within 44 32 i

variable {miningHash : Bytes}

private theorem agree_take {left right : Bytes} {changed : ℕ → Prop} (agree : AgreeOff changed left right) {count : ℕ}
    (before : ∀ i, i < count → ¬ changed i) : left.take count = right.take count := by
  apply ext_getElem?
  intro i
  rw [getElem?_take,getElem?_take]
  split
  next inside => exact agree.same i (before i inside)
  · rfl

theorem templateBytes_algo (sized : miningHash.length = 32) : (templateBytes miningHash)[43]? = some 2 := by
  unfold templateBytes
  rw [getElem?_append_left (by simp [sized]),getElem?_append_right (by simp [sized])]
  simp [sized]

theorem headerBlob_eq (sized : miningHash.length = 32) (agree : AgreeOff Written blob (templateBytes miningHash))
    {nonce : ℕ}
    (read : uint64BE nonce = (blob.drop 35).take 8) : headerBlob miningHash nonce (powData blob) = blob := by
  have length : blob.length = 76 := agree.length.trans (length_templateBytes sized)
  have front : blob.take 35 = replicate 3 0 ++ miningHash := by
    rw [agree_take agree fun i inside => by unfold Written Within; omega]
    unfold templateBytes
    rw [append_assoc,append_assoc,append_assoc,← append_assoc,take_left' (by simp [sized])]
  have algo : (blob.drop 43).take 1 = [2] := by
    rw [take_one,head?_drop,agree.same 43 (by unfold Written Within; omega),templateBytes_algo sized]
    rfl
  rw [headerBlob,(powData_spec length).1,read,← front,← algo,← take_add,← take_add,take_append_drop]

private theorem setField_record {value : Json} (record : value.isRecord = true) (key : String) (field : Json) :
    ∃ set, setField value key field = some set ∧ set.isRecord = true ∧ set.field key = some field ∧
      ∀ other, other ≠ key → set.field other = value.field other := by
  cases value with
  | obj fields => exact ⟨_,rfl,rfl,Entries.get_put_self,fun other apart => Entries.get_put_other apart⟩
  | _ => cases record

theorem filled_fields {sourceBlock header pow : Json} (headed : sourceBlock.record "header" = some header)
    (worked : header.record "pow" = some pow) (nonce : String) (powData : Bytes) :
    ∃ xtmBlock sentHeader sentPow, filled sourceBlock nonce powData = some xtmBlock ∧
      xtmBlock.record "header" = some sentHeader ∧ sentHeader.field "nonce" = some (.str nonce) ∧
      sentHeader.record "pow" = some sentPow ∧
      sentPow.field "pow_data" = some (.arr (powData.map fun byte => .num byte.toNat)) := by
  obtain ⟨foundHeader,headerRecord⟩ := filter_eq_some_iff.mp headed
  obtain ⟨foundPow,powRecord⟩ := filter_eq_some_iff.mp worked
  have blockRecord : sourceBlock.isRecord = true := by
    cases sourceBlock with
    | obj fields => rfl
    | _ => cases foundHeader
  obtain ⟨numbered,setNonce,numberedRecord,nonceField,kept⟩ := setField_record headerRecord "nonce" (.str nonce)
  obtain ⟨sentPow,setData,sentRecord,dataField,_⟩ :=
    setField_record powRecord "pow_data" (.arr (powData.map fun byte => .num byte.toNat))
  obtain ⟨sentHeader,setPow,sentHeaderRecord,powField,others⟩ := setField_record numberedRecord "pow" sentPow
  obtain ⟨xtmBlock,setHeader,_,headerField,_⟩ := setField_record blockRecord "header" sentHeader
  refine ⟨xtmBlock,sentHeader,sentPow,?_,?_,?_,?_,dataField⟩
  · unfold filled
    simp only [Option.bind_eq_bind,foundHeader,setNonce,kept "pow" (by decide),foundPow,setData,setPow,setHeader,
      Option.bind_some]
  · exact filter_eq_some_iff.mpr ⟨headerField,sentHeaderRecord⟩
  · rw [others "nonce" (by decide),nonceField]
  · exact filter_eq_some_iff.mpr ⟨powField,sentRecord⟩

end Submission

section Runs

variable {runtime : Runtime Unit} {settings : PoolSettings} {blobs : Blobs} {input : Input Unit}
    {base : BlockTemplate Unit} {buffer : Bytes} {offset : ℕ} {world : World Unit} {miningHash : Bytes} {job : Job}

def mined (job : Job) (bytes : Bytes) (params : Params) : Option Bytes :=
  if job.usesProxyNonce then do
    let poolNonce ← params.poolNonce
    let workerNonce ← params.workerNonce
    let clientPoolLocation ← job.clientPoolLocation
    let clientNonceLocation ← job.clientNonceLocation
    let bytes ← writeUInt32BE bytes poolNonce clientPoolLocation
    let bytes ← writeUInt32BE bytes workerNonce clientNonceLocation
    return overlay bytes XTM_T_MINER_NONCE_OFFSET (fromHex params.nonce)
  else some (overlay bytes XTM_T_MINER_NONCE_OFFSET (fromHex params.nonce))

theorem cutting_of_made (made : newBlockTemplate runtime input = .ok base)
    (reserved : Reserved input base buffer offset)
    (full : input.fullReserve = true) (reachable : (jobs runtime input settings blobs).Reachable world) :
    Cutting settings blobs base buffer offset world := by
  refine reachable.invariant (Cutting settings blobs base buffer offset) ?_ ?_
  · rintro world ⟨start,empty⟩
    obtain rfl : base = world.bt := Except.ok.inj (made.symm.trans start)
    exact cutting_start reserved empty
  · intro world after miner cutting _ moved
    exact cutting.step reserved full moved

theorem Cut.bytes {cut : Bytes} {sent : Sent} (made : Cut settings TariRandomX.blobs buffer offset cut job sent) :
    sent = .blob cut := by
  cases proxied : job.usesProxyNonce with
  | true => exact (made.proxy proxied).1
  | false =>
    obtain ⟨blob,converted,sending⟩ := made.direct proxied
    cases converted
    exact sending

theorem getShareBuffer_mined (reserved : Reserved input base buffer 44)
    (cutting : Cutting settings TariRandomX.blobs base buffer 44 world)
    (unshared : settings.sharedTemplateNonces = false)
    {cut : Bytes} {sent : Sent} (made : Cut settings TariRandomX.blobs buffer 44 cut job sent) (params : Params) :
    getShareBuffer TariRandomX.blobs job world.bt params = mined job cut params := by
  unfold mined
  cases proxied : job.usesProxyNonce with
  | true =>
    obtain ⟨_,pool,worker⟩ := made.proxy proxied
    rw [getShareBuffer_proxy reserved cutting made unshared proxied,if_pos rfl,pool,worker]
    rfl
  | false => exact getShareBuffer_direct reserved cutting made unshared proxied params

private theorem mined_agrees {bytes blob : Bytes} {params : Params} (short : (fromHex params.nonce).length = 4)
    (pool : job.usesProxyNonce = true → job.clientPoolLocation = some 52 ∧ job.clientNonceLocation = some 56)
    (hashed : mined job bytes params = some blob) : AgreeOff Written blob bytes := by
  have nonce : ∀ bytes, AgreeOff Written (overlay bytes XTM_T_MINER_NONCE_OFFSET (fromHex params.nonce)) bytes := by
    intro bytes
    refine (agree_overlay bytes _ _).mono fun i inside => .inl ?_
    rw [short] at inside
    exact inside
  unfold mined at hashed
  split at hashed
  next proxied =>
    obtain ⟨poolNonce,_,hashed⟩ := bind_eq_some_iff.mp hashed
    obtain ⟨workerNonce,_,hashed⟩ := bind_eq_some_iff.mp hashed
    rw [(pool proxied).1,(pool proxied).2] at hashed
    obtain ⟨_,poolPlace,hashed⟩ := bind_eq_some_iff.mp hashed
    obtain ⟨_,workerPlace,hashed⟩ := bind_eq_some_iff.mp hashed
    cases poolPlace
    cases workerPlace
    obtain ⟨first,poolWritten,hashed⟩ := bind_eq_some_iff.mp hashed
    obtain ⟨second,workerWritten,hashed⟩ := bind_eq_some_iff.mp hashed
    cases hashed
    have inside : ∀ offset, 44 ≤ offset → offset + 4 ≤ 76 → ∀ i, Within offset 4 i → Written i := by
      intro offset low high i here
      unfold Within at here
      refine .inr ?_
      unfold Within
      omega
    exact (nonce second).trans (((writeUInt32BE_agree workerWritten).mono (inside 56 (by omega) (by omega))).trans
      ((writeUInt32BE_agree poolWritten).mono (inside 52 (by omega) (by omega))))
  · cases hashed
    exact nonce bytes

structure Reproduced (sourceBlock : Json) (miningHash blob : Bytes) : Prop where
  written : AgreeOff Written blob (templateBytes miningHash)
  submitted : ∀ header pow, sourceBlock.record "header" = some header → header.record "pow" = some pow →
    ∃ xtmBlock sentHeader sentPow, ∃ nonce < 2 ^ 64, ∃ data,
      submitXtmRxBlock (some blob) (some sourceBlock) = .sent xtmBlock ∧
      xtmBlock.record "header" = some sentHeader ∧ sentHeader.field "nonce" = some (.str (toString nonce)) ∧
      sentHeader.record "pow" = some sentPow ∧
      sentPow.field "pow_data" = some (.arr (data.map fun byte => .num byte.toNat)) ∧
      headerBlob miningHash nonce data = blob ∧ ∀ other, padded other = padded data → data.length ≤ other.length

private theorem reproduced_of_agree (sourceBlock : Json) (sized : miningHash.length = 32) {blob : Bytes}
    (agree : AgreeOff Written blob (templateBytes miningHash)) : Reproduced sourceBlock miningHash blob := by
  refine ⟨agree,fun header pow headed worked => ?_⟩
  have length : blob.length = 76 := agree.length.trans (length_templateBytes sized)
  obtain ⟨nonce,bounded,read,bytes⟩ := readUInt64BufferBE_spec blob (show 35 + 8 ≤ blob.length by omega)
  obtain ⟨xtmBlock,sentHeader,sentPow,made,sentHeaded,nonceField,sentWorked,dataField⟩ :=
    filled_fields headed worked (toString nonce) (powData blob)
  refine ⟨xtmBlock,sentHeader,sentPow,nonce,bounded,powData blob,?_,sentHeaded,nonceField,sentWorked,dataField,
    headerBlob_eq sized agree bytes,(powData_spec length).2⟩
  have algo : blob[XTM_T_POW_ALGO_OFFSET]? = some 2 := by
    rw [← templateBytes_algo sized]
    exact agree.same 43 (by unfold Written Within; omega)
  have value : readUInt64BufferBE blob XTM_T_NONCE_OFFSET = some nonce := read
  have known : ¬(2 : UInt8) ≠ XTM_T_RANDOMXT_POW_ALGO := fun other => other rfl
  simp only [submitXtmRxBlock,algo,known,if_false,value,made]

/-- The pool and its miners write the miner's nonce and the data only, and what is submitted for a blob makes it
again. -/
theorem submit_reproduces {port : ℕ} {body : Json} {template : RpcTemplate}
    (built : getBlockTemplate port body = .ok template)
    (blob : template.input.blocktemplate_blob = some (blocktemplateBlob miningHash)) (sized : miningHash.length = 32)
    (configured : runtime.templateConfig port = directReserve) {world : World Unit}
    (reachable : (jobs runtime template.input {} TariRandomX.blobs).Reachable world) :
    (∀ field ∈ fields world.bt, 44 ≤ field ∧ field + 4 ≤ 76) ∧
    ∀ job sent, (job,sent) ∈ world.handed → ∃ bytes, sent = .blob bytes ∧
      AgreeOff (Within 44 32) bytes (templateBytes miningHash) ∧
      ∀ params, (fromHex params.nonce).length = 4 →
        getShareBuffer TariRandomX.blobs job world.bt params = mined job bytes params ∧
        ∀ hashed, mined job bytes params = some hashed → Reproduced template.xtm_block miningHash hashed := by
  have started : ∃ base, newBlockTemplate runtime template.input = .ok base :=
    reachable.invariant (fun _ => ∃ base, newBlockTemplate runtime template.input = .ok base)
      (fun _ start => ⟨_,start.1⟩) (fun _ _ _ kept _ _ => kept)
  obtain ⟨base,made⟩ := started
  obtain ⟨full,reserved⟩ := newBlockTemplate_made built blob configured made
  have cutting := cutting_of_made made reserved full reachable
  have size : reserveSize template.input = 17 := by
    obtain ⟨hash,vmKey,height,difficulty,same⟩ := getBlockTemplate_input built
    rw [same]
    rfl
  refine ⟨fun field held => ?_,fun job sent handed => ?_⟩
  · have inside := fields_inside cutting.stands reserved full field held
    omega
  · obtain ⟨cut,cutOut⟩ := cutting.handed job sent handed
    obtain ⟨value,_,counted⟩ := cutOut.counted rfl
    have identified : AgreeOff (Within 44 32) (overlay (templateBytes miningHash) 48 (runtime.instanceId.take 4))
        (templateBytes miningHash) := by
      refine (agree_overlay _ _ _).mono fun i inside => ?_
      have short : (runtime.instanceId.take 4).length ≤ 4 := List.length_take_le ..
      unfold Within at *
      omega
    have agree : AgreeOff (Within 44 32) cut (templateBytes miningHash) := by
      refine ((writeUInt32BE_agree counted).mono fun i inside => ?_).trans identified
      unfold Within at *
      omega
    refine ⟨cut,Cut.bytes cutOut,agree,fun params short => ⟨getShareBuffer_mined reserved cutting rfl cutOut params,?_⟩⟩
    intro hashed same
    refine reproduced_of_agree template.xtm_block sized ?_
    refine (mined_agrees short ?_ same).trans (agree.mono fun i inside => .inr inside)
    intro proxied
    exact (cutOut.proxy proxied).2

def reply (size : ℕ) : Json :=
  let pow : Json := .obj [("pow_algo",.num 2),("pow_data",.arr [])]
  let header : Json := .obj [("height",.num 5),("nonce",.str "0"),("pow",pow)]
  .obj [("result",.obj [("block",.obj [("header",header)]),
    ("miner_data",.obj [("target_difficulty",.num 1000),("reward",.num 7)]),
    ("merge_mining_hash",.arr (List.replicate size (.num 7))),("vm_key",.arr (List.replicate 32 (.num 9)))])]

def replyRun (size : ℕ) : Option (RpcTemplate × World Unit) := do
  let template ← (getBlockTemplate 18146 (reply size)).toOption
  let bt ← (newBlockTemplate headerRuntime template.input).toOption
  let world ← (jobs headerRuntime template.input {} TariRandomX.blobs).run ⟨bt,[]⟩ [⟨false,none⟩,⟨true,none⟩]
  return (template,world)

theorem replyRun_reachable {size : ℕ} {template : RpcTemplate}
    (ran : replyRun size = some (template,world)) : getBlockTemplate 18146 (reply size) = .ok template ∧
      (jobs headerRuntime template.input {} TariRandomX.blobs).Reachable world := by
  obtain ⟨_,built,ran⟩ := bind_eq_some_iff.mp ran
  obtain ⟨_,made,ran⟩ := bind_eq_some_iff.mp ran
  obtain ⟨_,moved,ran⟩ := bind_eq_some_iff.mp ran
  cases ran
  refine ⟨?_,Machine.reachable_run ⟨toOption_ok made,rfl⟩ moved⟩
  cases reading : getBlockTemplate 18146 (reply size) with
  | error _ =>
    rw [reading] at built
    cases built
  | ok _ =>
    rw [reading] at built
    exact congrArg Except.ok (Option.some.inj built)

theorem submit_reproduces_reply : ∃ template world, replyRun 32 = some (template,world) ∧ world.handed.length = 2 ∧
    ∀ job sent, (job,sent) ∈ world.handed → ∃ bytes, sent = .blob bytes ∧
      ∀ hashed, mined job bytes { nonce := "0a0b0c0d", poolNonce := some 3, workerNonce := some 4 } = some hashed →
        Reproduced template.xtm_block (List.replicate 32 7) hashed := by
  have ran : (replyRun 32).any (fun (template,world) => world.handed.length = 2 ∧
      template.input.blocktemplate_blob = some (blocktemplateBlob (List.replicate 32 7))) = true := by decide +kernel
  obtain ⟨⟨template,world⟩,run,told⟩ := (Option.any_eq_true _ _).mp ran
  obtain ⟨handed,blob⟩ := of_decide_eq_true told
  obtain ⟨built,reachable⟩ := replyRun_reachable run
  refine ⟨template,world,run,handed,fun job sent told => ?_⟩
  obtain ⟨bytes,sending,_,shares⟩ :=
    (submit_reproduces built blob (List.length_replicate ..) rfl reachable).2 job sent told
  exact ⟨bytes,sending,(shares _ (by decide +kernel)).2⟩

def refused : Reply → Bool
  | .error _ => true
  | _ => false

/-- With a shorter hash the nonce of a share lies over the byte of the algorithm. -/
theorem short_hash_refused : ¬∀ (runtime : Runtime Unit) (port : ℕ) (body : Json) (template : RpcTemplate)
    (miningHash : Bytes),getBlockTemplate port body = .ok template →
    template.input.blocktemplate_blob = some (blocktemplateBlob miningHash) →
    runtime.templateConfig port = directReserve →
    ∀ world, (jobs runtime template.input {} TariRandomX.blobs).Reachable world →
    ∀ job sent, (job,sent) ∈ world.handed → ∀ params, (fromHex params.nonce).length = 4 →
    ∀ hashed, getShareBuffer TariRandomX.blobs job world.bt params = some hashed →
      Reproduced template.xtm_block miningHash hashed := by
  intro reproduced
  have ran : (replyRun 31).any (fun ran => ((ran.1.xtm_block.record "header").bind (Json.record · "pow")).isSome &&
      ran.2.handed.any fun given => (getShareBuffer TariRandomX.blobs given.1 ran.2.bt { nonce := "0a0b0c0d" }).any
      fun hashed =>
        refused (submitXtmRxBlock (some hashed) (some ran.1.xtm_block))) = true := by decide +kernel
  obtain ⟨⟨template,world⟩,run,told⟩ := (Option.any_eq_true _ _).mp ran
  obtain ⟨worked,told⟩ := Bool.and_eq_true_iff.mp told
  obtain ⟨⟨job,sent⟩,handed,told⟩ := List.any_eq_true.mp told
  obtain ⟨hashed,rebuilt,error⟩ := (Option.any_eq_true _ _).mp told
  obtain ⟨pow,worked⟩ := Option.isSome_iff_exists.mp worked
  obtain ⟨header,headed,worked⟩ := Option.bind_eq_some_iff.mp worked
  obtain ⟨built,reachable⟩ := replyRun_reachable run
  obtain ⟨miningHash,_,_,_,same⟩ := getBlockTemplate_input built
  have known := reproduced headerRuntime 18146 (reply 31) template miningHash built (by rw [same]) rfl
    world reachable job sent handed _ (by decide +kernel) hashed rebuilt
  obtain ⟨_,_,_,_,_,_,submitted,_⟩ := known.submitted header pow headed worked
  rw [submitted] at error
  cases error

end Runs
end NodejsPool.Coins.TariRandomX
