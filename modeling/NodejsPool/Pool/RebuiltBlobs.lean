import NodejsPool.Pool.ShareBlobs

/-! A share's blob is rebuilt from the buffer its job was cut from: the jobs cut since then have
only moved the extra nonce, which the rebuild writes back. -/
namespace NodejsPool.Pool.Templates
open Async Buffers
open Option (bind_eq_some_iff bind_some map_eq_some_iff mem_toList)

variable {Child : Type} {runtime : Runtime Child} {input : Input Child}

section Templates

variable {bt : BlockTemplate Child}

structure Reserved (input : Input Child) (bt : BlockTemplate Child) (buffer : Bytes) (offset : ℕ) : Prop where
  kept : bt.buffer = some buffer
  reserved_offset : bt.reserved_offset = some offset
  kind : bt.kind = if input.fullReserve then .full else .compact
  pool : bt.clientPoolLocation = some (offset + 8) ∨ bt.clientPoolLocation = none
  nonce : bt.clientNonceLocation = bt.clientPoolLocation.map (· + 4)
  proxied : bt.clientPoolLocation ≠ none → input.fullReserve = true

private theorem blobTemplate_reserved (input : Input Child) (blob : String) :
    ∃ buffer offset, Reserved input (blobTemplate runtime input blob) buffer offset := by
  refine ⟨_,_,rfl,rfl,rfl,?_,?_,?_⟩
  · simp only [blobTemplate]
    split
    · exact .inl rfl
    · exact .inr rfl
  · simp only [blobTemplate]
    split <;> rfl
  · intro some
    by_contra compact
    simp [blobTemplate,compact] at some

theorem hashTemplate_kind (made : hashTemplate runtime input = .ok bt) : bt.kind = .hashOnly ∧ bt.buffer = none := by
  unfold hashTemplate at made
  split at made
  · cases made
  · dsimp only at made
    split at made
    · cases made
    · obtain rfl := Except.ok.inj made
      exact ⟨rfl,rfl⟩

theorem newBlockTemplate_reserved (made : newBlockTemplate runtime input = .ok bt) :
    (bt.kind = .hashOnly ∧ bt.buffer = none) ∨ ∃ buffer offset, Reserved input bt buffer offset := by
  unfold newBlockTemplate at made
  split at made
  · exact .inl (hashTemplate_kind made)
  · split at made
    · cases made
    · obtain rfl := Except.ok.inj made
      exact .inr (blobTemplate_reserved ..)

end Templates

section Writes

variable {buffer after : Bytes} {value : ℤ} {offset : ℕ}

theorem writeUInt32BE_some (written : writeUInt32BE buffer value offset = some after) :
    0 ≤ value ∧ value ≤ 0xffffffff ∧ offset + 4 ≤ buffer.length ∧
    after = overlay buffer offset (uint32BE value.toNat) := by
  unfold writeUInt32BE at written
  split at written
  next fits => exact ⟨fits.1,fits.2.1,fits.2.2,(Option.some.inj written).symm⟩
  · cases written

def Fits (value : ℤ) : Prop := 0 ≤ value ∧ value ≤ 0xffffffff

theorem writeUInt32BE_fits (fits : Fits value) (inside : offset + 4 ≤ buffer.length) :
    writeUInt32BE buffer value offset = some (overlay buffer offset (uint32BE value.toNat)) :=
  if_pos ⟨fits.1,fits.2,inside⟩

theorem writeUInt32BE_agree
    (written : writeUInt32BE buffer value offset = some after) : AgreeOff (Within offset 4) after buffer := by
  obtain ⟨_,_,_,rfl⟩ := writeUInt32BE_some written
  exact agree_overlay buffer offset (uint32BE value.toNat)

structure Alike (offset : ℕ) (first second : Bytes) : Prop where
  length : first.length = second.length
  rewritten : ∀ value, overlay first offset (uint32BE value) = overlay second offset (uint32BE value)

theorem Alike.write {first second : Bytes} (alike : Alike offset first second) (value : ℤ) :
    writeUInt32BE first value offset = writeUInt32BE second value offset := by
  unfold writeUInt32BE
  rw [alike.length,alike.rewritten]

theorem alike_write {first second : Bytes} (alike : Alike offset first second)
    (written : writeUInt32BE first value offset = some after) : Alike offset after second := by
  obtain ⟨_,_,_,rfl⟩ := writeUInt32BE_some written
  refine ⟨(length_overlay ..).trans alike.length,?_⟩
  intro other
  have same : (uint32BE value.toNat).length = (uint32BE other).length := rfl
  rw [overlay_overlay first offset same]
  exact alike.rewritten other

end Writes

section Jobs

variable (settings : PoolSettings) (blobs : Blobs) {base bt : BlockTemplate Child}

structure Cut (base : Bytes) (offset : ℕ) (cut : Bytes) (job : Job) (sent : Sent) : Prop where
  counted : settings.sharedTemplateNonces = false →
    ∃ value : ℕ, job.extraNonce = some (.number value) ∧ writeUInt32BE base value offset = some cut
  shared : settings.sharedTemplateNonces = true → ∀ value, job.extraNonce ≠ some (.number value)
  proxy : job.usesProxyNonce = true → sent = .blob cut ∧ job.clientPoolLocation = some (offset + 8) ∧
    job.clientNonceLocation = some (offset + 12)
  direct : job.usesProxyNonce = false → ∃ blob, blobs.convert cut = some blob ∧ sent = .blob blob

structure Stands (base bt : BlockTemplate Child) : Prop where
  reserved_offset : bt.reserved_offset = base.reserved_offset
  kind : bt.kind = base.kind
  pool : bt.clientPoolLocation = base.clientPoolLocation
  nonce : bt.clientNonceLocation = base.clientNonceLocation

theorem Stands.trans {middle : BlockTemplate Child} (first : Stands base middle) (second : Stands middle bt) :
    Stands base bt :=
  ⟨second.reserved_offset.trans first.reserved_offset,second.kind.trans first.kind,second.pool.trans first.pool,
    second.nonce.trans first.nonce⟩

private theorem writeExtraNonce_cases {current : Bytes} {offset : ℕ}
    (buffer : bt.buffer = some current) (reserved : bt.reserved_offset = some offset) :
    Stands bt (writeExtraNonce bt).1 ∧ (((writeExtraNonce bt).2 = none ∧ (writeExtraNonce bt).1.buffer = some current) ∨
      ∃ cut value, writeUInt32BE current (value : ℕ) offset = some cut ∧ (writeExtraNonce bt).2 = some cut ∧
        (writeExtraNonce bt).1.buffer = some cut ∧ (writeExtraNonce bt).1.extraNonce = some value) := by
  unfold writeExtraNonce
  dsimp only
  split
  · exact ⟨⟨rfl,rfl,rfl,rfl⟩,.inl ⟨rfl,buffer⟩⟩
  next cut written =>
    rw [buffer,reserved,bind_some,Option.getD_some] at written
    exact ⟨⟨rfl,rfl,rfl,rfl⟩,.inr ⟨cut,bt.extraNonce.getD 0 + 1,written,rfl,rfl,rfl⟩⟩

theorem getCoinJob_kind (miner : Miner) (bt : BlockTemplate Child) :
    (getCoinJob blobs settings miner bt).1.kind = bt.kind := by
  have write : (writeExtraNonce bt).1.kind = bt.kind := by
    unfold writeExtraNonce
    dsimp only
    split <;> rfl
  unfold getCoinJob
  split
  · cases kind : bt.kind <;> simp [nextBlobWithChildNonceHex,kind,write]
  · cases kind : bt.kind <;> simp [nextBlobHex,kind,write]

structure Cutting (base : BlockTemplate Child) (buffer : Bytes) (offset : ℕ) (world : World Child) : Prop where
  stands : Stands base world.bt
  alike : ∃ current, world.bt.buffer = some current ∧ Alike offset current buffer
  handed : ∀ job sent, (job,sent) ∈ world.handed → ∃ cut, Cut settings blobs buffer offset cut job sent

theorem getCoinJob_hashOnly (hash : bt.kind = .hashOnly) (miner : Miner) :
    (getCoinJob blobs settings miner bt).1.buffer = bt.buffer := by
  unfold getCoinJob
  split
  · simp [nextBlobWithChildNonceHex,hash]
  · simp [nextBlobHex,hash]

private theorem getCoinJob_cut {buffer : Bytes} {offset : ℕ}
    (reserved : Reserved input base buffer offset) (full : input.fullReserve = true) (stands : Stands base bt)
    {current : Bytes} (kept : bt.buffer = some current) (alike : Alike offset current buffer) (miner : Miner) :
    Stands base (getCoinJob blobs settings miner bt).1 ∧
      (∃ after, (getCoinJob blobs settings miner bt).1.buffer = some after ∧ Alike offset after buffer) ∧
      ∀ job sent, (getCoinJob blobs settings miner bt).2 = some (job,sent) →
        ∃ cut, Cut settings blobs buffer offset cut job sent := by
  have kind : bt.kind = .full := by rw [stands.kind,reserved.kind,if_pos full]
  have place : bt.reserved_offset = some offset := stands.reserved_offset.trans reserved.reserved_offset
  obtain ⟨still,steps⟩ := writeExtraNonce_cases kept place
  have after : ∃ after, (writeExtraNonce bt).1.buffer = some after ∧ Alike offset after buffer := by
    rcases steps with ⟨_,same⟩ | ⟨cut,value,written,_,same,_⟩
    · exact ⟨current,same,alike⟩
    · exact ⟨cut,same,alike_write alike written⟩
  unfold getCoinJob
  split
  next proxied =>
    simp only [nextBlobWithChildNonceHex,kind]
    refine ⟨stands.trans still,after,?_⟩
    intro job sent handed
    rcases steps with ⟨failed,_⟩ | ⟨cut,value,written,told,_,counter⟩
    · simp [failed] at handed
    · simp only [told,counter,Option.map_some,Option.some.injEq,Prod.mk.injEq] at handed
      obtain ⟨rfl,rfl⟩ := handed
      have unshared : settings.sharedTemplateNonces = false := by
        simp only [usesProxyNonce,Bool.and_eq_true,Bool.not_eq_true'] at proxied
        exact proxied.1.1.1.1.2
      have locations : base.clientPoolLocation = some (offset + 8) := by
        rcases reserved.pool with some | none
        · exact some
        · simp only [usesProxyNonce,stands.pool,none,Option.isSome_none,Bool.and_false,Bool.false_and] at proxied
          cases proxied
      refine ⟨cut,?_,?_,?_,?_⟩
      · intro _
        exact ⟨value,rfl,(alike.write value).symm.trans written⟩
      · intro shared
        rw [shared] at unshared
        cases unshared
      · intro _
        refine ⟨rfl,(still.pool.trans stands.pool).trans locations,?_⟩
        change (writeExtraNonce bt).1.clientNonceLocation = _
        rw [still.nonce,stands.nonce,reserved.nonce,locations]
        rfl
      · intro no
        cases no
  · simp only [nextBlobHex,kind]
    refine ⟨stands.trans still,after,?_⟩
    intro job sent handed
    rcases steps with ⟨failed,_⟩ | ⟨cut,value,written,told,_,counter⟩
    · simp [failed] at handed
    · rw [told,bind_some] at handed
      obtain ⟨payload,converted,same⟩ := map_eq_some_iff.mp handed
      obtain ⟨blob,cutting,rfl⟩ := map_eq_some_iff.mp converted
      obtain ⟨rfl,rfl⟩ := Prod.mk.inj same
      refine ⟨cut,?_,?_,?_,?_⟩
      · intro unshared
        refine ⟨value,?_,(alike.write value).symm.trans written⟩
        simp [unshared,counter]
      · intro shared number same
        simp only [shared,if_true] at same
        obtain ⟨_,_,clash⟩ := map_eq_some_iff.mp same
        cases clash
      · intro no
        cases no
      · intro _
        exact ⟨blob,cutting,rfl⟩

variable {settings blobs} in
theorem cutting_start {world : World Child} (reserved : Reserved input world.bt buffer offset)
    (empty : world.handed = []) : Cutting settings blobs world.bt buffer offset world := by
  refine ⟨⟨rfl,rfl,rfl,rfl⟩,⟨buffer,reserved.kept,rfl,fun _ => rfl⟩,?_⟩
  intro job sent handed
  rw [empty] at handed
  cases handed

variable {settings blobs} in
theorem Cutting.step {world after : World Child} {miner : Miner}
    (cutting : Cutting settings blobs base buffer offset world) (reserved : Reserved input base buffer offset)
    (full : input.fullReserve = true) (moved : (jobs runtime input settings blobs).step world miner = some after) :
    Cutting settings blobs base buffer offset after := by
  cases moved
  obtain ⟨current,kept,alike⟩ := cutting.alike
  obtain ⟨stands,next,cut⟩ := getCoinJob_cut settings blobs reserved full cutting.stands kept alike miner
  refine ⟨stands,next,?_⟩
  intro job sent handed
  rcases List.mem_append.mp handed with old | new
  · exact cutting.handed job sent old
  · exact cut job sent (mem_toList.mp new)

theorem cutting_reachable {world : World Child} (reachable : (jobs runtime input settings blobs).Reachable world)
    (full : input.fullReserve = true) (buffered : world.bt.kind ≠ .hashOnly) :
    ∃ base buffer offset, Reserved input base buffer offset ∧ Cutting settings blobs base buffer offset world := by
  have invariant : world.bt.kind = .hashOnly ∨ ∃ base buffer offset, Reserved input base buffer offset ∧
      Cutting settings blobs base buffer offset world := by
    refine reachable.invariant (fun world => world.bt.kind = .hashOnly ∨ ∃ base buffer offset,
      Reserved input base buffer offset ∧ Cutting settings blobs base buffer offset world) ?_ ?_
    · intro world start
      obtain ⟨made,empty⟩ := start
      rcases newBlockTemplate_reserved made with ⟨hash,_⟩ | ⟨buffer,offset,reserved⟩
      · exact .inl hash
      · exact .inr ⟨world.bt,buffer,offset,reserved,cutting_start reserved empty⟩
    · intro world after miner invariant _ moved
      rcases invariant with hash | ⟨base,buffer,offset,reserved,cutting⟩
      · cases moved
        exact .inl ((getCoinJob_kind settings blobs miner world.bt).trans hash)
      · exact .inr ⟨base,buffer,offset,reserved,cutting.step reserved full moved⟩
  exact invariant.resolve_left buffered

end Jobs

section Rebuild

variable {settings : PoolSettings} {blobs : Blobs} {base : BlockTemplate Child} {buffer : Bytes} {offset : ℕ}
  {world : World Child} {cut : Bytes} {job : Job} {sent : Sent}

section

variable (reserved : Reserved input base buffer offset) (cutting : Cutting settings blobs base buffer offset world)
include reserved cutting

theorem Cutting.rewrite : ∃ current, world.bt.buffer = some current ∧ world.bt.reserved_offset = some offset ∧
      ∀ value : ℤ, writeUInt32BE current value offset = writeUInt32BE buffer value offset := by
  obtain ⟨current,kept,alike⟩ := cutting.alike
  exact ⟨current,kept,cutting.stands.reserved_offset.trans reserved.reserved_offset,alike.write⟩

theorem getShareBuffer_direct (made : Cut settings blobs buffer offset cut job sent)
    (unshared : settings.sharedTemplateNonces = false) (direct : job.usesProxyNonce = false) (params : Params) :
    getShareBuffer blobs job world.bt params = blobs.construct cut params := by
  obtain ⟨current,kept,place,rewrite⟩ := cutting.rewrite reserved
  obtain ⟨value,counted,written⟩ := made.counted unshared
  simp [getShareBuffer,kept,place,counted,rewrite,written,direct]

theorem getShareBuffer_proxy (made : Cut settings blobs buffer offset cut job sent)
    (unshared : settings.sharedTemplateNonces = false) (proxied : job.usesProxyNonce = true) (params : Params) :
    getShareBuffer blobs job world.bt params = (do
      let poolNonce ← params.poolNonce
      let workerNonce ← params.workerNonce
      let template ← writeUInt32BE cut poolNonce (offset + 8)
      let template ← writeUInt32BE template workerNonce (offset + 12)
      blobs.construct template params) := by
  obtain ⟨current,kept,place,rewrite⟩ := cutting.rewrite reserved
  obtain ⟨value,counted,written⟩ := made.counted unshared
  obtain ⟨_,pool,worker⟩ := made.proxy proxied
  simp [getShareBuffer,kept,place,counted,rewrite,written,proxied,pool,worker]

end

private theorem getShareBuffer_shared (made : Cut settings blobs buffer offset cut job sent)
    (shared : settings.sharedTemplateNonces = true) (params : Params) :
    getShareBuffer blobs job world.bt params = none := by
  have text := made.shared shared
  unfold getShareBuffer
  cases world.bt.buffer with
  | none => rfl
  | some current =>
    cases world.bt.reserved_offset with
    | none => rfl
    | some place =>
      cases extraNonce : job.extraNonce with
      | none => rfl
      | some nonce =>
        cases nonce with
        | number value => exact absurd extraNonce (text value)
        | text value => rfl

structure OnlyNonce (nonce : ℕ → Prop) (blobs : Blobs) : Prop where
  convert : ∀ buffer blob, blobs.convert buffer = some blob → AgreeOff nonce blob buffer
  construct : ∀ buffer params blob, blobs.construct buffer params = some blob → AgreeOff nonce blob buffer

def Submitted (nonce : ℕ → Prop) (job : Job) (i : ℕ) : Prop :=
  nonce i ∨ job.usesProxyNonce = true ∧
    ∃ field, (job.clientPoolLocation = some field ∨ job.clientNonceLocation = some field) ∧ Within field 4 i

theorem rebuilt_agrees {nonce : ℕ → Prop} (natives : OnlyNonce nonce blobs)
    (reserved : Reserved input base buffer offset) (cutting : Cutting settings blobs base buffer offset world)
    (made : Cut settings blobs buffer offset cut job sent) {params : Params} {rebuilt : Bytes}
    (built : getShareBuffer blobs job world.bt params = some rebuilt) :
    ∃ blob, sent = .blob blob ∧ AgreeOff (Submitted nonce job) rebuilt blob := by
  cases shared : settings.sharedTemplateNonces with
  | true =>
    rw [getShareBuffer_shared made shared] at built
    cases built
  | false =>
    cases proxied : job.usesProxyNonce with
    | false =>
      rw [getShareBuffer_direct reserved cutting made shared proxied] at built
      obtain ⟨blob,converted,sending⟩ := made.direct proxied
      refine ⟨blob,sending,?_⟩
      have agree := (natives.construct _ _ _ built).trans (natives.convert _ _ converted).symm
      exact agree.mono fun _ here => .inl here
    | true =>
      rw [getShareBuffer_proxy reserved cutting made shared proxied] at built
      obtain ⟨sending,pool,worker⟩ := made.proxy proxied
      obtain ⟨poolNonce,_,built⟩ := bind_eq_some_iff.mp built
      obtain ⟨workerNonce,_,built⟩ := bind_eq_some_iff.mp built
      obtain ⟨first,poolWritten,built⟩ := bind_eq_some_iff.mp built
      obtain ⟨second,workerWritten,built⟩ := bind_eq_some_iff.mp built
      refine ⟨cut,sending,?_⟩
      have constructed : AgreeOff (Submitted nonce job) rebuilt second :=
        (natives.construct _ _ _ built).mono fun _ here => .inl here
      have workerAgrees : AgreeOff (Submitted nonce job) second first :=
        (writeUInt32BE_agree workerWritten).mono fun _ here => .inr ⟨proxied,_,.inr worker,here⟩
      have poolAgrees : AgreeOff (Submitted nonce job) first cut :=
        (writeUInt32BE_agree poolWritten).mono fun _ here => .inr ⟨proxied,_,.inl pool,here⟩
      exact constructed.trans (workerAgrees.trans poolAgrees)

end Rebuild

section Fields

variable {base bt : BlockTemplate Child} {buffer : Bytes} {offset : ℕ}

def fields (bt : BlockTemplate Child) : List ℕ :=
  match bt.reserved_offset with
  | none => []
  | some offset => [offset,offset + 4] ++ bt.clientPoolLocation.toList ++ bt.clientNonceLocation.toList

def reserveSize (input : Input Child) : ℕ := input.bt_nonce_size.getD poolNonceSize

private theorem fullReserve_size (full : input.fullReserve = true) : 16 ≤ reserveSize input := by
  unfold Input.fullReserve at full
  unfold reserveSize
  cases size : input.bt_nonce_size with
  | none => decide
  | some value =>
    rw [size] at full
    simpa using full

theorem fields_cases (stands : Stands base bt) (reserved : Reserved input base buffer offset) :
    fields bt = [offset,offset + 4,offset + 8,offset + 12] ∨ fields bt = [offset,offset + 4] := by
  have place : bt.reserved_offset = some offset := stands.reserved_offset.trans reserved.reserved_offset
  have pool : bt.clientPoolLocation = base.clientPoolLocation := stands.pool
  have worker : bt.clientNonceLocation = base.clientPoolLocation.map (· + 4) := stands.nonce.trans reserved.nonce
  rcases reserved.pool with proxied | direct
  · exact .inl (by simp [fields,place,pool,worker,proxied])
  · exact .inr (by simp [fields,place,pool,worker,direct])

def Apart (left right : ℕ) : Prop := ∀ i, ¬(Within left 4 i ∧ Within right 4 i)

private theorem apart_of_le {left right : ℕ} (after : left + 4 ≤ right) : Apart left right := by
  intro i here
  unfold Within at here
  omega

theorem fields_apart (stands : Stands base bt)
    (reserved : Reserved input base buffer offset) : (fields bt).Pairwise Apart := by
  have spaced : (fields bt).Pairwise fun left right => left + 4 ≤ right := by
    rcases fields_cases stands reserved with all | short
    · simp [all]
    · simp [short]
  exact spaced.imp apart_of_le

theorem fields_inside (stands : Stands base bt)
    (reserved : Reserved input base buffer offset) (full : input.fullReserve = true) :
    ∀ field ∈ fields bt, offset ≤ field ∧ field + 4 ≤ offset + reserveSize input := by
  have size := fullReserve_size full
  rcases fields_cases stands reserved with all | short
  · simp only [all,List.mem_cons,List.not_mem_nil,or_false]
    omega
  · simp only [short,List.mem_cons,List.not_mem_nil,or_false]
    omega

end Fields

section Compact

variable (settings : PoolSettings) (blobs : Blobs) {world : World Child} {bt : BlockTemplate Child}

/-- A template whose reserve is too small is never written to. -/
structure Untouched (kept : Bytes) (world : World Child) : Prop where
  kind : world.bt.kind = .compact
  buffer : world.bt.buffer = some kept
  pool : world.bt.clientPoolLocation = none
  handed : ∀ job sent, (job,sent) ∈ world.handed →
    job.usesProxyNonce = false ∧ ∃ blob, blobs.convert kept = some blob ∧ sent = .blob blob

private theorem getCoinJob_compact (kind : bt.kind = .compact) (pool : bt.clientPoolLocation = none)
    (miner : Miner) : (getCoinJob blobs settings miner bt).1 = bt ∧
      ∀ job sent, (getCoinJob blobs settings miner bt).2 = some (job,sent) →
        job.usesProxyNonce = false ∧ ∃ blob, bt.buffer.bind blobs.convert = some blob ∧ sent = .blob blob := by
  have direct : usesProxyNonce settings miner bt = false := by simp [usesProxyNonce,pool]
  simp only [getCoinJob,direct,nextBlobHex,kind,Bool.false_eq_true,if_false]
  refine ⟨trivial,?_⟩
  intro job sent handed
  obtain ⟨payload,converted,same⟩ := map_eq_some_iff.mp handed
  obtain ⟨blob,cutting,rfl⟩ := map_eq_some_iff.mp converted
  obtain ⟨rfl,rfl⟩ := Prod.mk.inj same
  exact ⟨rfl,blob,cutting,rfl⟩

private theorem newBlockTemplate_compact (compact : input.fullReserve = false)
    (made : newBlockTemplate runtime input = .ok bt) (buffered : bt.kind ≠ .hashOnly) :
    ∃ blob, bufferBlob runtime input = some blob ∧ bt.kind = .compact ∧ bt.buffer = some (fromHex blob) ∧
      bt.clientPoolLocation = none := by
  unfold newBlockTemplate at made
  split at made
  · exact absurd (hashTemplate_kind made).1 buffered
  · split at made
    · cases made
    next blob read =>
      obtain rfl := Except.ok.inj made
      refine ⟨blob,read,?_,?_,?_⟩ <;> simp [blobTemplate,baseTemplate,compact]

theorem untouched_reachable (reachable : (jobs runtime input settings blobs).Reachable world)
    (compact : input.fullReserve = false) (buffered : world.bt.kind ≠ .hashOnly) :
    ∃ blob, bufferBlob runtime input = some blob ∧ Untouched blobs (fromHex blob) world := by
  have invariant : world.bt.kind = .hashOnly ∨
      ∃ blob, bufferBlob runtime input = some blob ∧ Untouched blobs (fromHex blob) world := by
    refine reachable.invariant (fun world => world.bt.kind = .hashOnly ∨
      ∃ blob, bufferBlob runtime input = some blob ∧ Untouched blobs (fromHex blob) world) ?_ ?_
    · intro world start
      obtain ⟨made,empty⟩ := start
      by_cases hash : world.bt.kind = .hashOnly
      · exact .inl hash
      · obtain ⟨blob,read,kind,buffer,pool⟩ := newBlockTemplate_compact compact made hash
        refine .inr ⟨blob,read,kind,buffer,pool,?_⟩
        intro job sent handed
        rw [empty] at handed
        cases handed
    · intro world after miner invariant _ moved
      cases moved
      rcases invariant with hash | ⟨blob,read,untouched⟩
      · exact .inl ((getCoinJob_kind settings blobs miner world.bt).trans hash)
      · obtain ⟨same,cut⟩ := getCoinJob_compact settings blobs untouched.kind untouched.pool miner
        refine .inr ⟨blob,read,?_,?_,?_,?_⟩
        · exact (congrArg BlockTemplate.kind same).trans untouched.kind
        · exact (congrArg BlockTemplate.buffer same).trans untouched.buffer
        · exact (congrArg BlockTemplate.clientPoolLocation same).trans untouched.pool
        · intro job sent handed
          rcases List.mem_append.mp handed with old | new
          · exact untouched.handed job sent old
          · have told := cut job sent (mem_toList.mp new)
            rw [untouched.buffer,bind_some] at told
            exact told
  exact invariant.resolve_left buffered

end Compact

section Statement

variable {settings : PoolSettings} {world : World Child}

structure Rebuilds (nonce : ℕ → Prop) (settings : PoolSettings) (blobs : Blobs) (bt : BlockTemplate Child) (job : Job)
    (sent : Sent) : Prop where
  agrees : ∀ params rebuilt, getShareBuffer blobs job bt params = some rebuilt →
    ∃ blob, sent = .blob blob ∧ AgreeOff (Submitted nonce job) rebuilt blob
  direct : settings.sharedTemplateNonces = false → job.usesProxyNonce = false →
    ∃ cut, (blobs.convert cut).map Sent.blob = some sent ∧
      ∀ params, getShareBuffer blobs job bt params = blobs.construct cut params
  proxied : settings.sharedTemplateNonces = false → job.usesProxyNonce = true →
    ∃ cut pool worker, sent = .blob cut ∧ job.clientPoolLocation = some pool ∧ job.clientNonceLocation = some worker ∧
      ∀ params poolNonce workerNonce, params.poolNonce = some poolNonce → params.workerNonce = some workerNonce →
        Fits poolNonce → Fits workerNonce → worker + 4 ≤ cut.length →
        getShareBuffer blobs job bt params = blobs.construct
          (overlay (overlay cut pool (uint32BE poolNonce.toNat)) worker (uint32BE workerNonce.toNat)) params

private theorem cut_rebuilds {blobs : Blobs} {base : BlockTemplate Child} {buffer : Bytes} {offset : ℕ}
    {cut : Bytes} {job : Job} {sent : Sent} {nonce : ℕ → Prop} (natives : OnlyNonce nonce blobs)
    (reserved : Reserved input base buffer offset) (cutting : Cutting settings blobs base buffer offset world)
    (made : Cut settings blobs buffer offset cut job sent) : Rebuilds nonce settings blobs world.bt job sent := by
  refine ⟨?_,?_,?_⟩
  · intro params rebuilt built
    exact rebuilt_agrees natives reserved cutting made built
  · intro unshared direct
    obtain ⟨blob,converted,sending⟩ := made.direct direct
    refine ⟨cut,?_,getShareBuffer_direct reserved cutting made unshared direct⟩
    rw [converted,sending]
    rfl
  · intro unshared proxied
    obtain ⟨sending,pool,worker⟩ := made.proxy proxied
    refine ⟨cut,offset + 8,offset + 12,sending,pool,worker,?_⟩
    intro params poolNonce workerNonce poolSent workerSent poolFits workerFits inside
    rw [getShareBuffer_proxy reserved cutting made unshared proxied,poolSent,workerSent]
    simp only [Option.bind_eq_bind,bind_some]
    rw [writeUInt32BE_fits poolFits (by omega),bind_some,writeUInt32BE_fits workerFits (by simpa using inside),
      bind_some]

private theorem hashOnly_reachable {blobs : Blobs} (reachable : (jobs runtime input settings blobs).Reachable world) :
    world.bt.kind = .hashOnly → world.bt.buffer = none := by
  refine reachable.invariant (fun world => world.bt.kind = .hashOnly → world.bt.buffer = none) ?_ ?_
  · intro world start hash
    rcases newBlockTemplate_reserved start.1 with ⟨_,none⟩ | ⟨buffer,offset,reserved⟩
    · exact none
    · rw [reserved.kind] at hash
      split at hash <;> cases hash
  · intro world after miner invariant _ moved hash
    cases moved
    by_cases before : world.bt.kind = .hashOnly
    · exact (getCoinJob_hashOnly settings blobs before miner).trans (invariant before)
    · exact absurd ((getCoinJob_kind settings blobs miner world.bt).symm.trans hash) before

/-- The blob of every share is the one its job was sent with, but for the nonces the share brings, and
the pool's fields lie apart in the reserve; a reserve that is too small is left as the daemon sent it. -/
theorem share_blobs_rebuilt (runtime : Runtime Child) (input : Input Child) (settings : PoolSettings) (blobs : Blobs)
    (nonce : ℕ → Prop) (natives : OnlyNonce nonce blobs) {world : World Child}
    (reachable : (jobs runtime input settings blobs).Reachable world) :
    (world.bt.kind = .hashOnly → ∀ job params, getShareBuffer blobs job world.bt params = none) ∧
    (world.bt.kind ≠ .hashOnly → input.fullReserve = true →
      (∀ job sent, (job,sent) ∈ world.handed → Rebuilds nonce settings blobs world.bt job sent) ∧
      (fields world.bt).Pairwise Apart ∧
      ∃ offset, world.bt.reserved_offset = some offset ∧
        ∀ field ∈ fields world.bt, offset ≤ field ∧ field + 4 ≤ offset + reserveSize input) ∧
    (world.bt.kind ≠ .hashOnly → input.fullReserve = false →
      ∃ blob, bufferBlob runtime input = some blob ∧ world.bt.buffer = some (fromHex blob) ∧
        ∀ job sent, (job,sent) ∈ world.handed → job.usesProxyNonce = false ∧
          ∃ bytes, sent = .blob bytes ∧ AgreeOff nonce (fromHex blob) bytes) := by
  refine ⟨?_,?_,?_⟩
  · intro hash job params
    simp [getShareBuffer,hashOnly_reachable reachable hash]
  · intro buffered full
    obtain ⟨base,buffer,offset,reserved,cutting⟩ := cutting_reachable settings blobs reachable full buffered
    refine ⟨?_,fields_apart cutting.stands reserved,offset,?_,fields_inside cutting.stands reserved full⟩
    · intro job sent handed
      obtain ⟨cut,made⟩ := cutting.handed job sent handed
      exact cut_rebuilds natives reserved cutting made
    · exact cutting.stands.reserved_offset.trans reserved.reserved_offset
  · intro buffered compact
    obtain ⟨blob,read,untouched⟩ := untouched_reachable settings blobs reachable compact buffered
    refine ⟨blob,read,untouched.buffer,?_⟩
    intro job sent handed
    obtain ⟨direct,bytes,converted,sending⟩ := untouched.handed job sent handed
    exact ⟨direct,bytes,sending,(natives.convert _ _ converted).symm⟩

theorem toOption_ok {made : Except String (BlockTemplate Child)} {bt : BlockTemplate Child}
    (some : made.toOption = some bt) : made = .ok bt := by
  cases made with
  | error _ => cases some
  | ok _ => exact congrArg Except.ok (Option.some.inj some)

def headerBlobs : Blobs where
  convert := some
  construct buffer params := some (overlay buffer 39 ((fromHex params.nonce).take 4))

private theorem headerBlobs_onlyNonce : OnlyNonce (Within 39 4) headerBlobs := by
  refine ⟨?_,?_⟩
  · intro buffer blob converted
    cases converted
    exact agree_refl _ _
  · intro buffer params blob constructed
    cases constructed
    refine (agree_overlay buffer 39 _).mono ?_
    intro i here
    have short : ((fromHex params.nonce).take 4).length ≤ 4 := List.length_take_le ..
    unfold Within at *
    omega

def headerRuntime : Runtime Unit where
  templateConfig _ := {reserveOffsetSource := .template}
  mm_port_set _ := none
  mm_nonce_size := 0
  instanceId := [7,0,1,2]
  md5 _ := "4a3f01e050ad23ea4a06d8a87c246e4c"
  pearlHash _ := none

def headerInput : Input Unit where
  coin := "XTM-T"
  port := 18146
  height := 5
  difficulty := some 1000
  blocktemplate_blob := some (String.ofList (List.replicate 152 '0'))
  reserved_offset := some 44

def headerRun : Option (World Unit) :=
  (newBlockTemplate headerRuntime headerInput).toOption.bind fun bt =>
    (jobs headerRuntime headerInput {} headerBlobs).run ⟨bt,[]⟩ [⟨false,none⟩,⟨true,none⟩,⟨false,none⟩]

theorem share_blobs_rebuilt_headers : ∃ world, headerRun = some world ∧ world.handed.length = 3 ∧
    ∀ job sent, (job,sent) ∈ world.handed → Rebuilds (Within 39 4) {} headerBlobs world.bt job sent := by
  have ran : headerRun.any (fun world => world.handed.length = 3 ∧ world.bt.kind = .full) = true := by decide +kernel
  obtain ⟨world,run,told⟩ := (Option.any_eq_true _ _).mp ran
  obtain ⟨sized,kind⟩ := of_decide_eq_true told
  refine ⟨world,run,sized,?_⟩
  have reachable : (jobs headerRuntime headerInput {} headerBlobs).Reachable world := by
    unfold headerRun at run
    obtain ⟨bt,made,moved⟩ := bind_eq_some_iff.mp run
    exact Machine.reachable_run ⟨toOption_ok made,rfl⟩ moved
  have buffered : world.bt.kind ≠ .hashOnly := by simp [kind]
  have full : headerInput.fullReserve = true := by simp [Input.fullReserve,headerInput]
  exact ((share_blobs_rebuilt headerRuntime headerInput {} headerBlobs _ headerBlobs_onlyNonce reachable).2.1
    buffered full).1

end Statement
end NodejsPool.Pool.Templates
