import NodejsPool.Pool.MergedTemplates

/-! Merged mining does not depend on the order of its templates where the parent's reply has nothing
that a template forgets: deriving the parent from the active template then gives what its reply gives. -/
namespace NodejsPool.Pool.Merged
open Async Templates Buffers Function

section Specification

variable {settings : Settings} (pair : Pair settings)

def parentInput (reply : Reply) : Input Active := {reply.template with coin := pair.parentCoin, port := pair.parentPort}

def childInput (reply : Reply) : Input Active := {reply.template with coin := pair.childCoin, port := pair.childPort}

def mergedInput (reply : Reply) (child : BlockTemplate Active) : Input Active :=
  {parentInput pair reply with
    child_template := some (.mk child)
    child_template_buffer := child.buffer
    parent_blocktemplate_blob := (settings.constructMMParentBlockBlob
      (fromHex (reply.template.blocktemplate_blob.getD "")) pair.parentPort (child.buffer.getD [])).map bytesHex}

structure SameTemplate (own held : BlockTemplate Active) : Prop where
  fields : held = {own with buffer := held.buffer}
  buffers : ∃ bytes other offset, own.buffer = some bytes ∧ held.buffer = some other ∧
    own.reserved_offset = some offset ∧ AgreeOff (Within (offset + 4) 4) other bytes

/-- The templates of the latest replies: the parent's is that of its reply joined with the child's, and
workers with no message left hold the same two. -/
structure Settled (world : World) (reply childReply : Reply) (parent child : BlockTemplate Active) : Prop where
  childActive : world.pool.master pair.childCoin = some (.mk child)
  parentActive : world.pool.master pair.parentCoin = some (.mk parent)
  ofReply : newBlockTemplate settings.runtime (childInput pair childReply) = .ok child
  joined : newBlockTemplate settings.runtime (mergedInput pair reply child) = .ok parent
  references : parent.child_template = some (.mk child) ∧ parent.child_template_buffer = child.buffer
  buffer : ∃ buffer bytes offset, child.buffer = some buffer ∧ settings.constructMMParentBlockBlob
      (fromHex (reply.template.blocktemplate_blob.getD "")) pair.parentPort buffer = some bytes ∧
    parent.reserved_offset = some offset ∧
    parent.buffer = some (overlay bytes (offset + 4) (settings.runtime.instanceId.take 4))
  workers : ∀ worker ∈ world.pool.workers, worker.queue = [] → ∃ heldParent heldChild,
    worker.activeBlockTemplates pair.parentCoin = some (.mk heldParent) ∧
    worker.activeBlockTemplates pair.childCoin = some (.mk heldChild) ∧
    SameTemplate parent heldParent ∧ SameTemplate child heldChild

def ownDifficulty (template : Input Active) : Number :=
  (template.mbl_difficulty.filter fun value => value ≠ 0).or template.difficulty

def widerDifficulty (template : Input Active) : Option Number :=
  match orText template.wide_difficulty none with
  | some text => some (parseInt 16 text)
  | none => (template.aux.bind Aux.base_difficulty).map (parseInt 10)

structure Survives (template : Input Active) : Prop where
  blob : ∃ text, template.blocktemplate_blob = some text ∧ text ≠ ""
  wide : ∀ number, widerDifficulty template = some number → number = ownDifficulty template
  unmerged : getAuxChainXTM template = none
  proxied : template.no_proxy_nonce = false ∧ template.disable_proxy_nonce = false
  reserve : template.fullReserve = true

def Buffered (reply : Reply) : Prop :=
  (templateBlob reply.template).isSome = true ∨ (settings.runtime.templateConfig pair.childPort).hashOnly = false

def fallbackOffset (template : Input Active) : ℕ := (orOffset template.reserved_offset template.reservedOffset).getD 0

def derivedInput (parent child : BlockTemplate Active) : Input Active :=
  {assigned parent with
    coin := pair.parentCoin
    port := pair.parentPort
    child_template := some (.mk child)
    child_template_buffer := child.buffer
    parent_blocktemplate_blob := (settings.constructMMParentBlockBlob
      (fromHex (parent.blocktemplate_blob.getD "")) pair.parentPort (child.buffer.getD [])).map bytesHex}

/-- The reserve of the derived parent is found again in its blob, or not scanned for, or the active
parent has the offset of the reply. -/
def Refinds (reply : Reply) (parent child : BlockTemplate Active) : Prop :=
  (settings.runtime.templateConfig pair.parentPort).reserveOffsetSource = .template ∨
    (∃ blob, (mergedInput pair reply child).parent_blocktemplate_blob = some blob ∧
      (indexOf extra_nonce_template_hex blob.toList).isSome = true) ∨
    parent.reserved_offset = some (fallbackOffset reply.template)

end Specification

section Constructor

variable {runtime : Runtime Active} {template : Input Active}

theorem templateBlob_text {text : String} (blob : template.blocktemplate_blob = some text) (full : text ≠ "") :
    templateBlob template = some text := by
  simp [templateBlob,orText,blob,full]

structure Carries (runtime : Runtime Active) (template : Input Active) (built : BlockTemplate Active) : Prop where
  height : built.height = template.height
  difficulty : built.difficulty = ownDifficulty template
  xtm_block : built.xtm_block = template.xtm_block
  bits : built.bits = template.bits
  seed_hash : built.seed_hash = template.seed_hash
  blob : built.blocktemplate_blob = template.blocktemplate_blob
  reserved : ∃ offset, built.reserved_offset = some offset
  unscanned : (runtime.templateConfig template.port).reserveOffsetSource = .template →
    built.reserved_offset = some ((template.reserved_offset.or template.reservedOffset).getD 0)

theorem baseTemplate_plain (template : Input Active) (kind : Kind) (idHash : String)
    (wide : ∀ number, widerDifficulty template = some number → number = ownDifficulty template)
    (unmerged : getAuxChainXTM template = none)
    (proxied : template.no_proxy_nonce = false ∧ template.disable_proxy_nonce = false) :
    baseTemplate template kind idHash =
      { coin := template.coin
        port := template.port
        height := template.height
        difficulty := ownDifficulty template
        xmr_difficulty := ownDifficulty template
        xtm_height := none
        xtm_difficulty := none
        xtm_block := template.xtm_block
        bits := template.bits
        seed_hash := template.seed_hash
        disableProxyNonce := false
        kind := kind
        idHash := idHash } := by
  have same : (baseTemplate template kind idHash).xmr_difficulty = ownDifficulty template := by
    unfold widerDifficulty at wide
    unfold baseTemplate
    dsimp only
    split
    · next text found =>
      rw [found] at wide
      exact wide _ rfl
    · next missing =>
      rw [missing] at wide
      split
      · next text found =>
        rw [found] at wide
        exact wide _ rfl
      · rfl
  have chainless : baseTemplate template kind idHash =
      { coin := template.coin
        port := template.port
        height := template.height
        difficulty := ownDifficulty template
        xmr_difficulty := (baseTemplate template kind idHash).xmr_difficulty
        xtm_height := none
        xtm_difficulty := none
        xtm_block := template.xtm_block
        bits := template.bits
        seed_hash := template.seed_hash
        disableProxyNonce := false
        kind := kind
        idHash := idHash } := by
    unfold baseTemplate
    dsimp only
    rw [unmerged,proxied.1,proxied.2]
    rfl
  rw [chainless,same]

theorem newBlockTemplate_blob {blob : String} (buffered : (templateBlob template).isSome = true ∨
      (runtime.templateConfig template.port).hashOnly = false) (from_blob : bufferBlob runtime template = some blob) :
    newBlockTemplate runtime template = .ok (blobTemplate runtime template blob) := by
  have path : ¬((templateBlob template).isNone && (runtime.templateConfig template.port).hashOnly) = true := by
    rcases buffered with full | blobs
    · simp [Option.isNone_eq_false_iff.mpr full]
    · simp [blobs]
  unfold newBlockTemplate
  rw [if_neg path,from_blob]

theorem bufferBlob_own (runtime : Runtime Active) (alone : template.child_template = none) :
    ∃ blob, bufferBlob runtime template = some blob := by
  have given (first : Option String) (second : String) : ∃ blob, orText first (some second) = some blob := by
    unfold orText
    split
    · split
      · exact ⟨_,rfl⟩
      · exact ⟨_,rfl⟩
    · exact ⟨_,rfl⟩
  unfold bufferBlob
  rw [alone]
  dsimp only [Option.isSome_none]
  rw [if_neg Bool.false_ne_true]
  split
  · exact given _ _
  · exact given _ _

theorem bufferBlob_merged (runtime : Runtime Active) {child : Active} (merged : template.child_template = some child) :
    bufferBlob runtime template = template.parent_blocktemplate_blob := by
  unfold bufferBlob
  rw [merged]
  rfl

theorem getReservedOffset_unscanned (template : Input Active) (merged : Bool) (blob : String)
    (unscanned : (runtime.templateConfig template.port).reserveOffsetSource = .template) :
    getReservedOffset runtime template merged blob = template.reserved_offset.or template.reservedOffset := by
  unfold getReservedOffset
  dsimp only
  rw [if_pos unscanned]

theorem Survives.carries (survives : Survives template) (blob : String) :
    Carries runtime template (blobTemplate runtime template blob) := by
  obtain ⟨text,own,full⟩ := survives.blob
  have plain := baseTemplate_plain template (if template.fullReserve then .full else .compact) (runtime.md5 blob)
    survives.wide survives.unmerged survives.proxied
  constructor
  · rfl
  · exact congrArg BlockTemplate.difficulty plain
  · rfl
  · rfl
  · rfl
  · change some (blocktemplateBlob runtime template) = _
    rw [blocktemplateBlob,templateBlob_text own full,own]
    rfl
  · exact ⟨_,rfl⟩
  · intro unscanned
    exact congrArg (fun offset => some (offset.getD 0)) (getReservedOffset_unscanned template _ blob unscanned)

theorem getReservedOffset_merged (blob : String)
    (scanned : (runtime.templateConfig template.port).reserveOffsetSource ≠ .template) :
    (getReservedOffset runtime template true blob).getD 0 =
      match indexOf extra_nonce_template_hex blob.toList with
      | none => fallbackOffset template
      | some found => found / 2 + 2 := by
  unfold getReservedOffset
  dsimp only
  rw [if_neg scanned]
  simp only [Bool.not_true,Bool.and_false,Bool.false_eq_true,if_false,Bool.true_or,if_true]
  cases indexOf extra_nonce_template_hex blob.toList <;> rfl

theorem blobTemplate_congr {other : Input Active} {blob : String}
    (base : baseTemplate template .full (runtime.md5 blob) = baseTemplate other .full (runtime.md5 blob))
    (reserves : template.fullReserve = true ∧ other.fullReserve = true)
    (proxied : (template.no_proxy_nonce = false ∧ template.disable_proxy_nonce = false) ∧
      other.no_proxy_nonce = false ∧ other.disable_proxy_nonce = false)
    (blobs : blocktemplateBlob runtime template = blocktemplateBlob runtime other)
    (child : template.child_template = other.child_template)
    (buffer : template.child_template_buffer = other.child_template_buffer)
    (offset : (getReservedOffset runtime template template.child_template.isSome blob).getD 0 =
      (getReservedOffset runtime other other.child_template.isSome blob).getD 0) :
    blobTemplate runtime template blob = blobTemplate runtime other blob := by
  unfold blobTemplate
  dsimp only
  simp only [reserves.1,reserves.2,if_true]
  rw [base,offset,blobs,child,buffer,proxied.1.1,proxied.1.2,proxied.2.1,proxied.2.2]

end Constructor

section Derivation

variable {settings : Settings} {pair : Pair settings} {reply : Reply} {parent child : BlockTemplate Active}
  {runtime : Runtime Active}

structure Sibling (settings : Settings) (runtime : Runtime Active) : Prop where
  templateConfig : runtime.templateConfig = settings.runtime.templateConfig
  mm_port_set : runtime.mm_port_set = settings.runtime.mm_port_set
  mm_nonce_size : runtime.mm_nonce_size = settings.runtime.mm_nonce_size
  md5 : runtime.md5 = settings.runtime.md5

variable {blob : String} (carries : Carries settings.runtime (parentInput pair reply) parent)
  (refinds : Refinds pair reply parent child) (sibling : Sibling settings runtime)
  (joined : (mergedInput pair reply child).parent_blocktemplate_blob = some blob)

include carries refinds sibling joined

private theorem derived_offset : (getReservedOffset runtime (derivedInput pair parent child) true blob).getD 0 =
      (getReservedOffset runtime (mergedInput pair reply child) true blob).getD 0 := by
  obtain ⟨offset,reserved⟩ := carries.reserved
  by_cases unscanned : (settings.runtime.templateConfig pair.parentPort).reserveOffsetSource = .template
  · have own := carries.unscanned unscanned
    rw [← sibling.templateConfig] at unscanned
    rw [getReservedOffset_unscanned (derivedInput pair parent child) _ _ unscanned,
      getReservedOffset_unscanned (mergedInput pair reply child) _ _ unscanned]
    change (parent.reserved_offset.or none).getD 0 = _
    rw [own]
    rfl
  · have scanned : (runtime.templateConfig pair.parentPort).reserveOffsetSource ≠ .template := by
      rw [sibling.templateConfig]
      exact unscanned
    rw [getReservedOffset_merged blob scanned,getReservedOffset_merged blob scanned]
    rcases refinds with source | ⟨other,same,found⟩ | kept
    · exact absurd source unscanned
    · cases joined.symm.trans same
      obtain ⟨place,found⟩ := Option.isSome_iff_exists.mp found
      rw [found]
    · have fallback : fallbackOffset (derivedInput pair parent child) =
          fallbackOffset (mergedInput pair reply child) := by
        change (orOffset parent.reserved_offset none).getD 0 = fallbackOffset reply.template
        rw [kept]
        cases fallbackOffset reply.template <;> rfl
      rw [fallback]

theorem derived_same (survives : Survives reply.template) :
    (derivedInput pair parent child).parent_blocktemplate_blob = some blob ∧
      newBlockTemplate runtime (derivedInput pair parent child) =
        .ok (blobTemplate runtime (mergedInput pair reply child) blob) ∧
      newBlockTemplate runtime (mergedInput pair reply child) =
        .ok (blobTemplate runtime (mergedInput pair reply child) blob) := by
  obtain ⟨text,own,full⟩ := survives.blob
  have kept : parent.blocktemplate_blob = reply.template.blocktemplate_blob := carries.blob
  have derived : (derivedInput pair parent child).parent_blocktemplate_blob = some blob := by
    rw [← joined]
    unfold derivedInput mergedInput
    dsimp only
    rw [kept]
  have ownText : templateBlob (mergedInput pair reply child) = some text := templateBlob_text own full
  have derivedText : templateBlob (derivedInput pair parent child) = some text :=
    templateBlob_text (kept.trans own) full
  have merged := newBlockTemplate_blob (.inl (by rw [ownText]; rfl)) ((bufferBlob_merged runtime rfl).trans joined)
  refine ⟨derived,?_,merged⟩
  rw [newBlockTemplate_blob (.inl (by rw [derivedText]; rfl)) ((bufferBlob_merged runtime rfl).trans derived)]
  have difficulty : ownDifficulty (derivedInput pair parent child) = ownDifficulty (mergedInput pair reply child) :=
    carries.difficulty
  refine congrArg Except.ok (blobTemplate_congr ?_ ⟨rfl,survives.reserve⟩ ⟨⟨rfl,rfl⟩,survives.proxied⟩ ?_ rfl rfl ?_)
  · have narrow : ∀ number, widerDifficulty (derivedInput pair parent child) = some number →
        number = ownDifficulty (derivedInput pair parent child) := by
      intro number wider
      cases wider
    have height : (derivedInput pair parent child).height = (mergedInput pair reply child).height := carries.height
    have xtm_block : (derivedInput pair parent child).xtm_block = (mergedInput pair reply child).xtm_block :=
      carries.xtm_block
    have bits : (derivedInput pair parent child).bits = (mergedInput pair reply child).bits := carries.bits
    have seed_hash : (derivedInput pair parent child).seed_hash = (mergedInput pair reply child).seed_hash :=
      carries.seed_hash
    rw [baseTemplate_plain (derivedInput pair parent child) _ _ narrow rfl ⟨rfl,rfl⟩,
      baseTemplate_plain (mergedInput pair reply child) _ _ survives.wide survives.unmerged survives.proxied,
      difficulty,height,xtm_block,bits,seed_hash]
    rfl
  · unfold blocktemplateBlob
    rw [derivedText,ownText]
  · exact derived_offset carries refinds sibling joined

end Derivation

section Processes

variable {settings : Settings} (pair : Pair settings)

def HoldsChild (runtime : Runtime Active) (active : ActiveTemplates) : Option Reply → Prop
  | none => active pair.childCoin = none
  | some reply => ∃ child, newBlockTemplate runtime (childInput pair reply) = .ok child ∧
      active pair.childCoin = some (.mk child)

/-- The parent is the one of its latest reply, alone or with the child that the master has for the child's. -/
def HoldsParent (runtime : Runtime Active) (active : ActiveTemplates) : Option Reply → Option Reply → Prop
  | none,_ => active pair.parentCoin = none
  | some reply,none => ∃ parent, newBlockTemplate runtime (parentInput pair reply) = .ok parent ∧
      active pair.parentCoin = some (.mk parent)
  | some reply,some childReply => ∃ child parent, newBlockTemplate settings.runtime (childInput pair childReply) =
      .ok child ∧
      newBlockTemplate runtime (mergedInput pair reply child) = .ok parent ∧ active pair.parentCoin = some (.mk parent)

structure Holds (runtime : Runtime Active) (active : ActiveTemplates) (parent child : Option Reply) : Prop where
  ofChild : HoldsChild pair runtime active child
  ofParent : HoldsParent pair runtime active parent child

variable {pair} {runtime : Runtime Active} {active : ActiveTemplates} {parent? child? : Option Reply}
  {template : Input Active} {reply childReply : Reply} {child : BlockTemplate Active} {blob : String}

theorem setNewBlockTemplate_installs {built : BlockTemplate Active}
    (made : newBlockTemplate runtime template = .ok built)
    (fresh : template.idHash = none ∨ template.parent_blocktemplate_blob.isSome = true) :
    setNewBlockTemplate runtime active template = update active template.coin (some (.mk built)) := by
  have passes : ¬(((active template.coin).any fun previousTemplate =>
      some previousTemplate.template.idHash = template.idHash) ∧ template.parent_blocktemplate_blob = none) := by
    rintro ⟨known,unmerged⟩
    rcases fresh with unnamed | merged
    · obtain ⟨previous,_,same⟩ := (Option.any_eq_true _ _).mp known
      rw [unnamed] at same
      simp at same
    · rw [unmerged] at merged
      cases merged
  unfold setNewBlockTemplate
  rw [if_neg passes,made]

theorem receive_told (told : template.difficulty.isSome = true) :
    receive runtime active template = setNewBlockTemplate runtime active template := by
  unfold receive
  rw [Option.isNone_eq_false_iff.mpr told,if_neg Bool.false_ne_true]

theorem Survives.buffered (survives : Survives reply.template) : (templateBlob reply.template).isSome = true := by
  obtain ⟨text,own,full⟩ := survives.blob
  rw [templateBlob_text own full]
  rfl

theorem child_built (buffered : Buffered pair reply) (sibling : Sibling settings runtime) :
    ∃ child buffer, newBlockTemplate runtime (childInput pair reply) = .ok child ∧ child.buffer = some buffer := by
  obtain ⟨blob,from_blob⟩ := bufferBlob_own runtime (show (childInput pair reply).child_template =
    none from reply.child_template)
  rw [Buffered,← sibling.templateConfig] at buffered
  exact ⟨_,_,newBlockTemplate_blob buffered from_blob,rfl⟩

private theorem parent_built (survives : Survives reply.template) (runtime : Runtime Active) :
    ∃ parent, newBlockTemplate runtime (parentInput pair reply) = .ok parent := by
  obtain ⟨blob,from_blob⟩ := bufferBlob_own runtime (show (parentInput pair reply).child_template =
    none from reply.child_template)
  exact ⟨_,newBlockTemplate_blob (.inl survives.buffered) from_blob⟩

theorem merged_built (survives : Survives reply.template)
    (runtime : Runtime Active) (joined : (mergedInput pair reply child).parent_blocktemplate_blob = some blob) :
    newBlockTemplate runtime (mergedInput pair reply child) =
      .ok (blobTemplate runtime (mergedInput pair reply child) blob) :=
  newBlockTemplate_blob (.inl survives.buffered) ((bufferBlob_merged runtime rfl).trans joined)

theorem Holds.parentAlone (holds : Holds pair runtime active parent? none) (survives : Survives reply.template) :
    Holds pair runtime (setNewBlockTemplate runtime active (parentInput pair reply)) (some reply) none := by
  obtain ⟨parent,made⟩ := parent_built survives runtime
  rw [setNewBlockTemplate_installs made (.inl reply.idHash)]
  constructor
  · exact (update_of_ne pair.apart.symm _ _).trans holds.ofChild
  · exact ⟨parent,made,update_self _ _ _⟩

theorem Holds.parentMerged
    (holds : Holds pair runtime active parent? (some childReply)) (survives : Survives reply.template)
    (own : newBlockTemplate settings.runtime (childInput pair childReply) = .ok child)
    (joined : (mergedInput pair reply child).parent_blocktemplate_blob = some blob) :
    Holds pair runtime (setNewBlockTemplate runtime active (mergedInput pair reply child)) (some reply)
    (some childReply) := by
  have made := merged_built survives runtime joined
  rw [setNewBlockTemplate_installs made (.inl reply.idHash)]
  constructor
  · obtain ⟨held,built,there⟩ := holds.ofChild
    exact ⟨held,built,(update_of_ne pair.apart.symm _ _).trans there⟩
  · exact ⟨child,_,own,made,update_self _ _ _⟩

theorem Holds.childAlone (holds : Holds pair runtime active none child?) (buffered : Buffered pair reply)
    (sibling : Sibling settings runtime) :
    Holds pair runtime (setNewBlockTemplate runtime active (childInput pair reply)) none (some reply) := by
  obtain ⟨child,_,made,_⟩ := child_built buffered sibling
  rw [setNewBlockTemplate_installs made (.inl reply.idHash)]
  constructor
  · exact ⟨child,made,update_self _ _ _⟩
  · exact (update_of_ne pair.apart _ _).trans holds.ofParent

theorem Holds.childMerged {parent : BlockTemplate Active}
    (survives : Survives reply.template) (carries : Carries settings.runtime (parentInput pair reply) parent)
    (refinds : Refinds pair reply parent child) (buffered : Buffered pair childReply)
    (sibling : Sibling settings runtime)
    (own : newBlockTemplate settings.runtime (childInput pair childReply) = .ok child)
    (joined : (mergedInput pair reply child).parent_blocktemplate_blob = some blob) :
    Holds pair runtime (setNewBlockTemplate runtime (setNewBlockTemplate runtime active (childInput pair childReply))
      (derivedInput pair parent child)) (some reply) (some childReply) := by
  obtain ⟨held,_,made,_⟩ := child_built buffered sibling
  obtain ⟨derivedBlob,derived,merged⟩ := derived_same carries refinds sibling joined survives
  rw [setNewBlockTemplate_installs made (.inl childReply.idHash),
    setNewBlockTemplate_installs derived (.inr (by rw [derivedBlob]; rfl))]
  constructor
  · exact ⟨held,made,(update_of_ne pair.apart.symm _ _).trans (update_self _ _ _)⟩
  · exact ⟨child,_,own,merged,update_self _ _ _⟩

end Processes

section Master

variable {settings : Settings} {pair : Pair settings} {pool : Processes} {active : ActiveTemplates}

def Only (pair : Pair settings) (active : ActiveTemplates) : Prop :=
  ∀ coin, coin ≠ pair.parentCoin → coin ≠ pair.childCoin → active coin = none

theorem Only.update (only : Only pair active) {coin : String} (value : Option Active)
    (own : coin = pair.parentCoin ∨ coin = pair.childCoin) : Only pair (update active coin value) := by
  intro other parent child
  rw [update_of_ne]
  · exact only other parent child
  · rintro rfl
    exact own.elim parent child

theorem Only.set {runtime : Runtime Active} (only : Only pair active) {template : Input Active}
    (own : template.coin = pair.parentCoin ∨ template.coin = pair.childCoin) :
    Only pair (setNewBlockTemplate runtime active template) := by
  unfold setNewBlockTemplate
  split
  · exact only
  · split
    · exact only
    · exact only.update _ own

theorem named_child (pair : Pair settings) : settings.PORT2COIN pair.childPort = some pair.childCoin :=
  (pair.childNamed _).mpr rfl

theorem named_parent (pair : Pair settings) : settings.PORT2COIN pair.parentPort = some pair.parentCoin :=
  (pair.parentNamed _).mpr rfl

theorem processRpcTemplate_child (only : Only pair active) (rpcTemplate : Input Active) :
    processRpcTemplate settings active rpcTemplate pair.childCoin pair.childPort =
      {rpcTemplate with coin := pair.childCoin, port := pair.childPort} := by
  unfold processRpcTemplate
  dsimp only
  split
  · rfl
  · next port merged =>
    have leaf := pair.leaf port merged
    have absent : (settings.PORT2COIN port).bind active = none := by
      cases named : settings.PORT2COIN port with
      | none => rfl
      | some coin =>
        apply only coin
        · rintro rfl
          exact leaf.1 ((pair.parentNamed port).mp named)
        · rintro rfl
          exact leaf.2 ((pair.childNamed port).mp named)
    rw [absent]

theorem processRpcTemplate_alone (absent : active pair.childCoin = none)
    (rpcTemplate : Input Active) : processRpcTemplate settings active rpcTemplate pair.parentCoin pair.parentPort =
      {rpcTemplate with coin := pair.parentCoin, port := pair.parentPort} := by
  have missing : (settings.PORT2COIN pair.childPort).bind active = none := by
    rw [named_child]
    exact absent
  unfold processRpcTemplate
  dsimp only
  rw [pair.merged]
  dsimp only
  rw [missing]

theorem processRpcTemplate_merged {child : BlockTemplate Active} {buffer bytes : Bytes}
    (present : active pair.childCoin = some (.mk child)) (buffered : child.buffer = some buffer)
    (rpcTemplate : Input Active)
    (joined : settings.constructMMParentBlockBlob (fromHex (rpcTemplate.blocktemplate_blob.getD ""))
      pair.parentPort buffer =
      some bytes) : processRpcTemplate settings active rpcTemplate pair.parentCoin pair.parentPort =
      {rpcTemplate with
        coin := pair.parentCoin
        port := pair.parentPort
        child_template := some (.mk child)
        child_template_buffer := some buffer
        parent_blocktemplate_blob := some (bytesHex bytes)} := by
  have found : (settings.PORT2COIN pair.childPort).bind active = some (.mk child) := by
    rw [named_child]
    exact present
  unfold processRpcTemplate
  dsimp only
  rw [pair.merged]
  dsimp only
  rw [found]
  dsimp only [Active.template]
  rw [buffered]
  dsimp only
  rw [joined]
  rfl

theorem processRpcTemplate_coin (active : ActiveTemplates) (rpcTemplate : Input Active) (coin : String) (port : ℕ) :
    (processRpcTemplate settings active rpcTemplate coin port).coin = coin := by
  unfold processRpcTemplate
  dsimp only
  split
  · rfl
  · split
    · rfl
    · split <;> rfl

private theorem ports_apart : pair.parentPort ≠ pair.childPort := by
  intro same
  have parent := named_parent pair
  rw [same,named_child] at parent
  exact pair.apart (Option.some.inj parent).symm

theorem refreshParent_absent {port : ℕ} (absent : ∀ coin, settings.PORT2COIN port = some coin →
      pool.master coin = none) :
    refreshParent settings pool port = pool := by
  unfold refreshParent
  split
  · rfl
  · next coin named =>
    rw [absent coin named]

theorem foldl_refreshParent_absent (ports : List ℕ)
    (absent : ∀ port ∈ ports, ∀ coin, settings.PORT2COIN port = some coin → pool.master coin = none) :
    ports.foldl (refreshParent settings) pool = pool := by
  induction ports with
  | nil => rfl
  | cons port ports ih =>
    obtain ⟨head,tail⟩ := List.forall_mem_cons.mp absent
    rw [List.foldl_cons,refreshParent_absent head]
    exact ih tail

theorem templateUpdate3_parent (rpcTemplate : Input Active) (only : Only pair pool.master) :
    templateUpdate3 settings pair.parentCoin pair.parentPort rpcTemplate pool =
      pool.publish settings (processRpcTemplate settings pool.master rpcTemplate pair.parentCoin pair.parentPort) := by
  unfold templateUpdate3
  apply foldl_refreshParent_absent
  intro port inside coin named
  have merged := (settings.linked _ _).mp inside
  have kept : Only pair (pool.publish settings (processRpcTemplate settings pool.master rpcTemplate pair.parentCoin
      pair.parentPort)).master := by
    exact only.set (.inl (processRpcTemplate_coin _ _ _ _))
  apply kept coin
  · rintro rfl
    obtain rfl := (pair.parentNamed port).mp named
    exact ports_apart (Option.some.inj (merged.symm.trans pair.merged))
  · rintro rfl
    obtain rfl := (pair.childNamed port).mp named
    exact (pair.leaf _ merged).1 rfl

theorem templateUpdate3_child (rpcTemplate : Input Active) (only : Only pair pool.master) :
    templateUpdate3 settings pair.childCoin pair.childPort rpcTemplate pool =
      refreshParent settings (pool.publish settings
        {rpcTemplate with coin := pair.childCoin, port := pair.childPort}) pair.parentPort := by
  obtain ⟨before,after,split⟩ := List.append_of_mem ((settings.linked _ _).mpr pair.merged)
  have distinct := settings.distinct pair.childPort
  rw [split] at distinct
  have kept (template : Input Active) (own : template.coin = pair.parentCoin ∨ template.coin = pair.childCoin)
      (pool : Processes) (only : Only pair pool.master) : Only pair (pool.publish settings template).master :=
      only.set own
  have absent (port : ℕ) (inside : port ∈ settings.mm_child_port_set pair.childPort) (other : port ≠ pair.parentPort)
      (pool : Processes) (only : Only pair pool.master) (coin : String) (named : settings.PORT2COIN port = some coin) :
      pool.master coin = none := by
    have merged := (settings.linked _ _).mp inside
    apply only coin
    · rintro rfl
      exact other ((pair.parentNamed port).mp named)
    · rintro rfl
      obtain rfl := (pair.childNamed port).mp named
      exact (pair.leaf _ merged).2 rfl
  have published := kept {rpcTemplate with coin := pair.childCoin, port := pair.childPort} (.inr rfl) pool only
  have refreshed : Only pair (refreshParent settings (pool.publish settings
      {rpcTemplate with coin := pair.childCoin, port := pair.childPort}) pair.parentPort).master := by
    unfold refreshParent
    rw [named_parent]
    dsimp only
    split
    · exact published
    · exact kept _ (.inl (processRpcTemplate_coin _ _ _ _)) _ published
  unfold templateUpdate3
  dsimp only
  rw [processRpcTemplate_child only,split,List.foldl_append,List.foldl_cons]
  rw [foldl_refreshParent_absent before,foldl_refreshParent_absent after]
  · intro port inside
    refine absent port ?_ ?_ _ refreshed
    · rw [split]
      exact List.mem_append_right _ (List.mem_cons_of_mem _ inside)
    · rintro rfl
      exact (List.nodup_cons.mp (List.nodup_append.mp distinct).2.1).1 inside
  · intro port inside
    refine absent port ?_ ?_ _ published
    · rw [split]
      exact List.mem_append_left _ inside
    · rintro rfl
      exact (List.nodup_append.mp distinct).2.2 _ inside _ List.mem_cons_self rfl

end Master

section Runs

variable {settings : Settings} (pair : Pair settings)

def Worker.settled (settings : Settings) (worker : Worker) : ActiveTemplates :=
  worker.queue.foldl (receive (worker.runtime settings)) worker.activeBlockTemplates

def Plain (world : World) : Label → Prop
  | .parent reply => Survives reply.template
  | .child reply => Buffered pair reply ∧ ∀ parentReply parent child, world.parent = some parentReply →
      world.pool.master pair.parentCoin = some (.mk parent) →
      newBlockTemplate settings.runtime (childInput pair reply) = .ok child → Refinds pair parentReply parent child
  | .deliver _ => True

structure Joined (world : World) : Prop where
  only : Only pair world.pool.master
  survives : ∀ reply, world.parent = some reply → Survives reply.template
  buffered : ∀ reply, world.child = some reply → Buffered pair reply
  master : Holds pair settings.runtime world.pool.master world.parent world.child
  workers : ∀ worker ∈ world.pool.workers,
    Holds pair (worker.runtime settings) (worker.settled settings) world.parent world.child

variable {pair} {pool : Processes} {template : Input Active} {child? : Option Reply} {world : World} {reply : Reply}

theorem sibling_own : Sibling settings settings.runtime := ⟨rfl,rfl,rfl,rfl⟩

theorem sibling_worker (worker : Worker) : Sibling settings (worker.runtime settings) := ⟨rfl,rfl,rfl,rfl⟩

theorem settled_publish {worker : Worker}
    (member : worker ∈ (pool.publish settings template).workers) : ∃ before ∈ pool.workers,
      worker.runtime settings = before.runtime settings ∧
        worker.settled settings = receive (before.runtime settings) (before.settled settings) template := by
  obtain ⟨before,inside,rfl⟩ := List.mem_map.mp member
  refine ⟨before,inside,rfl,?_⟩
  unfold Worker.settled
  dsimp only
  rw [List.foldl_append]
  rfl

theorem holds_publish {parent? : Option Reply} (told : template.difficulty.isSome = true)
    (master : Holds pair settings.runtime (setNewBlockTemplate settings.runtime pool.master template) parent? child?)
    (workers : ∀ worker ∈ pool.workers, Holds pair (worker.runtime settings)
      (setNewBlockTemplate (worker.runtime settings) (worker.settled settings) template) parent? child?) :
    Holds pair settings.runtime (pool.publish settings template).master parent? child? ∧
      ∀ worker ∈ (pool.publish settings template).workers,
        Holds pair (worker.runtime settings) (worker.settled settings) parent? child? := by
  refine ⟨master,?_⟩
  intro worker member
  obtain ⟨before,inside,runtime,settled⟩ := settled_publish member
  rw [runtime,settled,receive_told told]
  exact workers before inside

def Constructs (settings : Settings) : Prop := ∀ blob port buffer,
  (settings.constructMMParentBlockBlob blob port buffer).isSome = true

theorem joined_blob (pair : Pair settings) (succeeds : Constructs settings)
    (reply : Reply) (child : BlockTemplate Active) :
    ∃ bytes, settings.constructMMParentBlockBlob (fromHex (reply.template.blocktemplate_blob.getD "")) pair.parentPort
      (child.buffer.getD []) = some bytes ∧
      (mergedInput pair reply child).parent_blocktemplate_blob = some (bytesHex bytes) := by
  obtain ⟨bytes,joined⟩ := Option.isSome_iff_exists.mp (succeeds
    (fromHex (reply.template.blocktemplate_blob.getD "")) pair.parentPort (child.buffer.getD []))
  refine ⟨bytes,joined,?_⟩
  unfold mergedInput
  dsimp only
  rw [joined]
  rfl

theorem joined_parent (succeeds : Constructs settings)
    (joined : Joined pair world) (survives : Survives reply.template) : Joined pair {world with
      pool := templateUpdate3 settings pair.parentCoin pair.parentPort reply.template world.pool
      parent := some reply} := by
  have updated := templateUpdate3_parent reply.template joined.only
  have only : Only pair (templateUpdate3 settings pair.parentCoin pair.parentPort reply.template
      world.pool).master := by
    rw [updated]
    exact joined.only.set (.inl (processRpcTemplate_coin _ _ _ _))
  suffices held : Holds pair settings.runtime
      (templateUpdate3 settings pair.parentCoin pair.parentPort reply.template world.pool).master
      (some reply) world.child ∧
      ∀ worker ∈ (templateUpdate3 settings pair.parentCoin pair.parentPort reply.template world.pool).workers,
        Holds pair (worker.runtime settings) (worker.settled settings) (some reply) world.child by
    refine ⟨only,?_,joined.buffered,held.1,held.2⟩
    intro other same
    cases same
    exact survives
  rw [updated]
  have master := joined.master
  have workers := joined.workers
  cases latest : world.child with
  | none =>
    rw [latest] at master workers
    rw [processRpcTemplate_alone master.ofChild]
    apply holds_publish
    · exact reply.difficulty
    · exact master.parentAlone survives
    · intro worker inside
      exact (workers worker inside).parentAlone survives
  | some childReply =>
    rw [latest] at master workers
    obtain ⟨child,own,present⟩ := master.ofChild
    obtain ⟨other,buffer,built,buffered⟩ := child_built (joined.buffered childReply latest) sibling_own
    cases own.symm.trans built
    obtain ⟨bytes,constructed,blob⟩ := joined_blob pair succeeds reply child
    have merged : processRpcTemplate settings world.pool.master reply.template pair.parentCoin pair.parentPort =
        mergedInput pair reply child := by
      have constructed' := constructed
      rw [buffered] at constructed'
      rw [processRpcTemplate_merged present buffered _ constructed']
      unfold mergedInput
      dsimp only
      rw [constructed,buffered]
      rfl
    rw [merged]
    apply holds_publish
    · exact reply.difficulty
    · exact master.parentMerged survives own blob
    · intro worker inside
      exact (workers worker inside).parentMerged survives own blob

private theorem survives_merged {child : BlockTemplate Active} (survives : Survives reply.template) :
    Survives (mergedInput pair reply child) :=
  ⟨survives.blob,survives.wide,survives.unmerged,survives.proxied,survives.reserve⟩

private theorem survives_parent (survives : Survives reply.template) : Survives (parentInput pair reply) :=
  ⟨survives.blob,survives.wide,survives.unmerged,survives.proxied,survives.reserve⟩

theorem held_carries (succeeds : Constructs settings) {active : ActiveTemplates} (survives : Survives reply.template)
    (held : HoldsParent pair settings.runtime active (some reply) child?) :
    ∃ parent, active pair.parentCoin = some (.mk parent) ∧
    Carries settings.runtime (parentInput pair reply) parent := by
  cases child? with
  | none =>
    obtain ⟨parent,made,present⟩ := held
    obtain ⟨blob,from_blob⟩ := bufferBlob_own settings.runtime
      (show (parentInput pair reply).child_template = none from reply.child_template)
    cases made.symm.trans (newBlockTemplate_blob (.inl survives.buffered) from_blob)
    exact ⟨_,present,(survives_parent survives).carries blob⟩
  | some childReply =>
    obtain ⟨child,parent,_,made,present⟩ := held
    obtain ⟨bytes,_,joined⟩ := joined_blob pair succeeds reply child
    cases made.symm.trans (merged_built survives settings.runtime joined)
    have carries : Carries settings.runtime (mergedInput pair reply child) _ :=
      (survives_merged survives).carries (bytesHex bytes)
    exact ⟨_,present,carries.height,carries.difficulty,carries.xtm_block,carries.bits,carries.seed_hash,carries.blob,
      carries.reserved,carries.unscanned⟩

private theorem ownDifficulty_told (reply : Reply) : (ownDifficulty reply.template).isSome = true := by
  unfold ownDifficulty
  rw [Option.isSome_or,reply.difficulty,Bool.or_true]

private theorem joined_child (succeeds : Constructs settings)
    (joined : Joined pair world) (plain : Plain pair world (.child reply)) : Joined pair {world with
      pool := templateUpdate3 settings pair.childCoin pair.childPort reply.template world.pool
      child := some reply} := by
  obtain ⟨buffered,refinds⟩ := plain
  have updated := templateUpdate3_child reply.template joined.only
  have first : Only pair (world.pool.publish settings (childInput pair reply)).master := joined.only.set (.inr rfl)
  have others : ∀ other, some reply = some other → Buffered pair other := by
    intro other same
    cases same
    exact buffered
  cases latest : world.parent with
  | none =>
    have absent : world.pool.master pair.parentCoin = none := by
      have held := joined.master.ofParent
      rw [latest] at held
      exact held
    have held := holds_publish (show (childInput pair reply).difficulty.isSome = true from reply.difficulty)
      (Holds.childAlone (latest ▸ joined.master) buffered sibling_own)
      (fun worker inside => Holds.childAlone (latest ▸ joined.workers worker inside) buffered (sibling_worker worker))
    have quiet : refreshParent settings (world.pool.publish settings (childInput pair reply)) pair.parentPort =
        world.pool.publish settings (childInput pair reply) := by
      apply refreshParent_absent
      intro coin named
      obtain rfl := Option.some.inj (named.symm.trans (named_parent pair))
      exact held.1.ofParent
    have whole : templateUpdate3 settings pair.childCoin pair.childPort reply.template world.pool =
        world.pool.publish settings (childInput pair reply) := updated.trans quiet
    rw [whole]
    refine ⟨first,?_,others,held.1,held.2⟩
    intro other same
    cases same
  | some parentReply =>
    have survives := joined.survives parentReply latest
    obtain ⟨parent,present,carries⟩ := held_carries succeeds survives (latest ▸ joined.master.ofParent)
    obtain ⟨child,buffer,own,childBuffer⟩ := child_built buffered sibling_own
    have refinds := refinds parentReply parent child latest present own
    obtain ⟨bytes,constructed,blob⟩ := joined_blob pair succeeds parentReply child
    have kept : parent.blocktemplate_blob = parentReply.template.blocktemplate_blob := carries.blob
    have published : (world.pool.publish settings (childInput pair reply)).master =
        update world.pool.master pair.childCoin (some (.mk child)) :=
      setNewBlockTemplate_installs own (.inl reply.idHash)
    have constructed' : settings.constructMMParentBlockBlob
        (fromHex ((assigned parent).blocktemplate_blob.getD "")) pair.parentPort buffer = some bytes := by
      change settings.constructMMParentBlockBlob (fromHex (parent.blocktemplate_blob.getD "")) _ _ = _
      rw [kept,← constructed,childBuffer]
      rfl
    have derived : processRpcTemplate settings (world.pool.publish settings (childInput pair reply)).master
        (assigned parent) pair.parentCoin pair.parentPort = derivedInput pair parent child := by
      have there : (world.pool.publish settings (childInput pair reply)).master pair.childCoin = some (.mk child) := by
        rw [published,update_self]
      rw [processRpcTemplate_merged there childBuffer _ constructed']
      unfold derivedInput
      dsimp only
      rw [kept,constructed,childBuffer]
      rfl
    have refreshed : refreshParent settings (world.pool.publish settings (childInput pair reply)) pair.parentPort =
        (world.pool.publish settings (childInput pair reply)).publish settings (derivedInput pair parent child) := by
      unfold refreshParent
      rw [named_parent]
      dsimp only
      rw [← derived,published,update_of_ne pair.apart,present]
      rfl
    have whole : templateUpdate3 settings pair.childCoin pair.childPort reply.template world.pool = _ :=
      updated.trans refreshed
    have derivedTold : (derivedInput pair parent child).difficulty.isSome = true := by
      change parent.difficulty.isSome = true
      rw [carries.difficulty]
      exact ownDifficulty_told parentReply
    rw [whole]
    refine ⟨first.set (.inl rfl),?_,others,?_,?_⟩
    · intro other same
      cases same
      exact survives
    · exact Holds.childMerged survives carries refinds buffered sibling_own own blob
    · intro worker member
      obtain ⟨middle,inside,runtime,settled⟩ := settled_publish member
      obtain ⟨before,_,beforeRuntime,beforeSettled⟩ := settled_publish inside
      have childTold : (childInput pair reply).difficulty.isSome = true := reply.difficulty
      rw [runtime,settled,receive_told derivedTold,beforeRuntime,beforeSettled,receive_told childTold]
      exact Holds.childMerged survives carries refinds buffered (sibling_worker before) own blob

private theorem joined_deliver {index : ℕ} (joined : Joined pair world)
    (delivered : deliver settings index world.pool = some pool) : Joined pair {world with pool := pool} := by
  obtain ⟨worker,found,delivered⟩ := Option.bind_eq_some_iff.mp delivered
  cases queued : worker.queue with
  | nil => simp [queued] at delivered
  | cons message queue =>
    simp only [queued,Option.some.injEq] at delivered
    subst delivered
    refine ⟨joined.only,joined.survives,joined.buffered,joined.master,?_⟩
    intro other member
    rcases List.mem_or_eq_of_mem_set member with old | rfl
    · exact joined.workers other old
    · have held := joined.workers worker (List.mem_of_getElem? found)
      have settled : worker.settled settings = queue.foldl (receive (worker.runtime settings))
          (receive (worker.runtime settings) worker.activeBlockTemplates message) := by
        rw [Worker.settled,queued]
        rfl
      rw [settled] at held
      exact held

theorem reachable_joined (succeeds : Constructs settings)
    (reachable : (mergedMining pair).ReachableBy (Plain pair) world) : Joined pair world := by
  refine reachable.invariant (Joined pair) ?_ ?_
  · intro world start
    obtain ⟨noParent,noChild,empty,idle⟩ := start
    have nothing (runtime : Runtime Active) {active : ActiveTemplates} (empty : ∀ coin, active coin = none) :
        Holds pair runtime active world.parent world.child := by
      rw [noParent,noChild]
      exact ⟨empty _,empty _⟩
    refine ⟨fun coin _ _ => empty coin,?_,?_,nothing _ empty,?_⟩
    · intro reply same
      rw [noParent] at same
      cases same
    · intro reply same
      rw [noChild] at same
      cases same
    · intro worker member
      obtain ⟨done,blank⟩ := idle worker member
      apply nothing
      rw [Worker.settled,done]
      exact blank
  · intro world next label joined plain moved
    cases label with
    | parent reply =>
      cases moved
      exact joined_parent succeeds joined plain
    | child reply =>
      cases moved
      exact joined_child succeeds joined plain
    | deliver index =>
      obtain ⟨pool,delivered,rfl⟩ := Option.map_eq_some_iff.mp moved
      exact joined_deliver joined delivered

end Runs

section Order

variable {settings : Settings} {pair : Pair settings}

private theorem sameTemplate_blob (worker : Worker) (template : Input Active) (blob : String) :
    SameTemplate (blobTemplate settings.runtime template blob)
    (blobTemplate (worker.runtime settings) template blob) := by
  refine ⟨rfl,_,_,_,rfl,rfl,rfl,?_⟩
  have written (buffer : Bytes) (offset : ℕ) (source : Bytes) : AgreeOff (Within offset 4)
      (overlay buffer offset (source.take 4)) buffer := by
    apply (agree_overlay buffer offset (source.take 4)).mono
    intro i inside
    have short : (source.take 4).length ≤ 4 := List.length_take_le ..
    unfold Within at *
    omega
  split
  · exact (written _ _ _).trans (written _ _ _).symm
  · exact agree_refl _ _

private theorem settled_of_joined (succeeds : Constructs settings)
    {world : World} {reply childReply : Reply} {parent child : BlockTemplate Active} (joined : Joined pair world)
    (latest : world.parent = some reply) (latestChild : world.child = some childReply)
    (ofReply : newBlockTemplate settings.runtime (childInput pair childReply) = .ok child)
    (merged : newBlockTemplate settings.runtime (mergedInput pair reply child) = .ok parent) :
    Settled pair world reply childReply parent child := by
  have survives := joined.survives reply latest
  have master := joined.master
  rw [latest,latestChild] at master
  obtain ⟨_,own,childActive⟩ := master.ofChild
  cases ofReply.symm.trans own
  obtain ⟨_,_,again,made,parentActive⟩ := master.ofParent
  cases ofReply.symm.trans again
  cases merged.symm.trans made
  obtain ⟨bytes,constructed,blob⟩ := joined_blob pair succeeds reply child
  cases made.symm.trans (merged_built survives settings.runtime blob)
  obtain ⟨_,buffer,built,buffered⟩ := child_built (joined.buffered childReply latestChild) sibling_own
  cases ofReply.symm.trans built
  refine ⟨childActive,parentActive,ofReply,merged,⟨rfl,rfl⟩,?_,?_⟩
  · refine ⟨buffer,bytes,_,buffered,?_,rfl,?_⟩
    · rw [← constructed,buffered]
      rfl
    · change some (if (mergedInput pair reply child).fullReserve then _ else _) = _
      have full : (mergedInput pair reply child).fullReserve = true := survives.reserve
      rw [if_pos full,fromHex_bytesHex]
  · intro worker member idle
    have held := joined.workers worker member
    have settled : worker.settled settings = worker.activeBlockTemplates := by
      rw [Worker.settled,idle]
      rfl
    rw [settled,latest,latestChild] at held
    obtain ⟨heldChild,builtThere,childThere⟩ := held.ofChild
    obtain ⟨_,heldParent,again,madeThere,parentThere⟩ := held.ofParent
    cases ofReply.symm.trans again
    cases madeThere.symm.trans (merged_built survives (worker.runtime settings) blob)
    obtain ⟨childBlob,from_blob⟩ := bufferBlob_own settings.runtime
      (show (childInput pair childReply).child_template = none from childReply.child_template)
    have buffers := joined.buffered childReply latestChild
    cases ofReply.symm.trans (newBlockTemplate_blob buffers from_blob)
    have workerBuilt : newBlockTemplate (worker.runtime settings) (childInput pair childReply) =
        .ok (blobTemplate (worker.runtime settings) (childInput pair childReply) childBlob) :=
      newBlockTemplate_blob buffers from_blob
    cases builtThere.symm.trans workerBuilt
    exact ⟨_,_,parentThere,childThere,sameTemplate_blob worker _ _,sameTemplate_blob worker _ _⟩

/-- Any two runs that end with the same replies for a parent and its child end with the same templates,
whichever of the two came last and whatever came before. -/
theorem merged_order_free (pair : Pair settings)
    (succeeds : ∀ blob port buffer, (settings.constructMMParentBlockBlob blob port buffer).isSome = true)
    {first second : World} {reply childReply : Reply}
    (reachedFirst : (mergedMining pair).ReachableBy (Plain pair) first)
    (reachedSecond : (mergedMining pair).ReachableBy (Plain pair) second)
    (latestFirst : first.parent = some reply ∧ first.child = some childReply)
    (latestSecond : second.parent = some reply ∧ second.child = some childReply) :
    ∃ parent child, Settled pair first reply childReply parent child ∧
    Settled pair second reply childReply parent child := by
  have joinedFirst := reachable_joined succeeds reachedFirst
  have joinedSecond := reachable_joined succeeds reachedSecond
  obtain ⟨child,_,ofReply,_⟩ := child_built (joinedFirst.buffered childReply latestFirst.2) sibling_own
  obtain ⟨bytes,_,blob⟩ := joined_blob pair succeeds reply child
  have merged := merged_built (joinedFirst.survives reply latestFirst.1) settings.runtime blob
  exact ⟨_,child,settled_of_joined succeeds joinedFirst latestFirst.1 latestFirst.2 ofReply merged,
    settled_of_joined succeeds joinedSecond latestSecond.1 latestSecond.2 ofReply merged⟩

end Order

section Samples

def sampleSettings : Settings where
  runtime :=
    { templateConfig := fun _ => {reserveOffsetSource := .template}
      mm_port_set := fun port => if port = 18081 then some 18144 else none
      mm_nonce_size := 0
      instanceId := [1,2,3,4]
      md5 := fun blob =>
        if blob = "00000000000000000000" then "cc545187d0745132de1e9941db0ef6ce"
        else if blob = "0101010101010101" then "45f4a7638ea2a99c19a83658342c725d"
        else "e2261d80d0aa06fc3825933ad9848dbb"
      pearlHash := fun _ => none }
  PORT2COIN port := if port = 18081 then some "" else if port = 18144 then some "XTM-R" else none
  mm_child_port_set port := if port = 18144 then [18081] else []
  linked parentPort childPort := by
    by_cases parent : parentPort = 18081
    · by_cases child : childPort = 18144
      · simp [parent,child]
      · simp [parent,child,Ne.symm child]
    · by_cases child : childPort = 18144
      · simp [parent,child]
      · simp [parent,child]
  distinct childPort := by
    split <;> simp
  constructMMParentBlockBlob blob _ buffer := some (blob ++ buffer)

def samplePair : Pair sampleSettings where
  parentCoin := ""
  parentPort := 18081
  childCoin := "XTM-R"
  childPort := 18144
  merged := rfl
  parentNamed port := by
    by_cases parent : port = 18081
    · simp [sampleSettings,parent]
    · by_cases child : port = 18144
      · simp [sampleSettings,child]
      · simp [sampleSettings,parent,child]
  childNamed port := by
    by_cases parent : port = 18081
    · simp [sampleSettings,parent]
    · by_cases child : port = 18144
      · simp [sampleSettings,child]
      · simp [sampleSettings,parent,child]
  apart := by decide
  leaf port merged := by cases merged

def sampleTemplate : Input Active where
  coin := ""
  port := 0
  height := 10
  difficulty := some 1000
  blocktemplate_blob := some "00000000000000000000"
  reserved_offset := some 2

def sampleReply : Reply := ⟨sampleTemplate,rfl,rfl,rfl,rfl⟩

def chainedReply : Reply :=
  ⟨{sampleTemplate with aux := some ⟨some "1000",[some ⟨"5","700"⟩]⟩},rfl,rfl,rfl,rfl⟩

def sampleChild : Reply :=
  ⟨{sampleTemplate with height := 7, difficulty := some 300, blocktemplate_blob := some "0101010101010101"},
    rfl,rfl,rfl,rfl⟩

def sampleWorld : World := ⟨⟨fun _ => none,[⟨[5,6,7,8],fun _ => none,fun _ => none,[]⟩]⟩,none,none⟩

theorem sampleWorld_initial : (mergedMining samplePair).initial sampleWorld := by
  refine ⟨rfl,rfl,fun _ => rfl,?_⟩
  intro worker member
  obtain rfl := List.mem_singleton.mp member
  exact ⟨rfl,fun _ => rfl⟩

private theorem sample_survives : Survives sampleReply.template := by
  refine ⟨⟨_,rfl,by decide⟩,?_,rfl,⟨rfl,rfl⟩,rfl⟩
  intro number wider
  cases wider

def Processes.idle (pool : Processes) : Bool := pool.workers.all fun worker => worker.queue.isEmpty

def parentFirst : List Label := [.parent sampleReply,.child sampleChild,.deliver 0,.deliver 0,.deliver 0]

def childFirst : List Label := [.child sampleChild,.parent sampleReply,.deliver 0,.deliver 0]

theorem merged_order_free_sample : ∃ first second : World,
    (mergedMining samplePair).run sampleWorld parentFirst = some first ∧
    (mergedMining samplePair).run sampleWorld childFirst = some second ∧
    first.pool.idle = true ∧ second.pool.idle = true ∧
    ∃ parent child, Settled samplePair first sampleReply sampleChild parent child ∧
      Settled samplePair second sampleReply sampleChild parent child := by
  have plain (label : Label) (inside : label ∈ [Label.parent sampleReply,.child sampleChild,.deliver 0])
    (world : World) :
      Plain samplePair world label := by
    rcases List.mem_cons.mp inside with rfl | inside
    · exact sample_survives
    · rcases List.mem_cons.mp inside with rfl | inside
      · exact ⟨.inr rfl,fun _ _ _ _ _ _ => .inl rfl⟩
      · obtain rfl := List.mem_singleton.mp inside
        exact trivial
  have reached {world : World} {labels : List Label}
    (known : labels ⊆ [.parent sampleReply,.child sampleChild,.deliver 0])
      (ran : (mergedMining samplePair).run sampleWorld labels = some world) :
      (mergedMining samplePair).ReachableBy (Plain samplePair) world :=
    Machine.ReachableBy.run (.initial sampleWorld_initial) (fun label inside => plain label (known inside)) ran
  have idleFirst : ((mergedMining samplePair).run sampleWorld parentFirst).any (fun world => world.pool.idle) =
      true := by
    decide +kernel
  have idleSecond : ((mergedMining samplePair).run sampleWorld childFirst).any (fun world => world.pool.idle) =
      true := by
    decide +kernel
  have lastFirst : ((mergedMining samplePair).run sampleWorld parentFirst).map (fun world =>
    (world.parent,world.child)) =
      some (some sampleReply,some sampleChild) := rfl
  have lastSecond : ((mergedMining samplePair).run sampleWorld childFirst).map (fun world =>
    (world.parent,world.child)) =
      some (some sampleReply,some sampleChild) := rfl
  obtain ⟨first,ranFirst,idleFirst⟩ := (Option.any_eq_true _ _).mp idleFirst
  obtain ⟨second,ranSecond,idleSecond⟩ := (Option.any_eq_true _ _).mp idleSecond
  rw [ranFirst] at lastFirst
  rw [ranSecond] at lastSecond
  refine ⟨first,second,ranFirst,ranSecond,idleFirst,idleSecond,?_⟩
  apply merged_order_free samplePair (fun _ _ _ => rfl) (reached ?_ ranFirst) (reached ?_ ranSecond)
  · exact Prod.mk.inj (Option.some.inj lastFirst)
  · exact Prod.mk.inj (Option.some.inj lastSecond)
  · simp [parentFirst]
  · simp [childFirst]

def chainOf (world : World) : Option (Number × Option Number) :=
  (world.pool.master "").map fun parent => (parent.template.xmr_difficulty,parent.template.xtm_height)

/-- When the child comes last, the parent loses the chain that its reply merges. -/
theorem merged_chain_lost : ∃ first second : World,
    (mergedMining samplePair).Reachable first ∧ (mergedMining samplePair).Reachable second ∧
    first.parent = some chainedReply ∧ first.child = some sampleChild ∧
    second.parent = some chainedReply ∧ second.child = some sampleChild ∧
    ¬∃ parent child, Settled samplePair first chainedReply sampleChild parent child ∧
      Settled samplePair second chainedReply sampleChild parent child := by
  have chainFirst : ((mergedMining samplePair).run sampleWorld [.parent chainedReply,.child sampleChild]).any
      (fun world => chainOf world = some (some 700,none)) = true := by decide +kernel
  have chainSecond : ((mergedMining samplePair).run sampleWorld [.child sampleChild,.parent chainedReply]).any
      (fun world => chainOf world = some (some 1000,some (some 5))) = true := by decide +kernel
  have lastFirst : ((mergedMining samplePair).run sampleWorld [.parent chainedReply,.child sampleChild]).map
      (fun world => (world.parent,world.child)) = some (some chainedReply,some sampleChild) := rfl
  have lastSecond : ((mergedMining samplePair).run sampleWorld [.child sampleChild,.parent chainedReply]).map
      (fun world => (world.parent,world.child)) = some (some chainedReply,some sampleChild) := rfl
  obtain ⟨first,ranFirst,chainFirst⟩ := (Option.any_eq_true _ _).mp chainFirst
  obtain ⟨second,ranSecond,chainSecond⟩ := (Option.any_eq_true _ _).mp chainSecond
  rw [ranFirst] at lastFirst
  rw [ranSecond] at lastSecond
  obtain ⟨firstParent,firstChild⟩ := Prod.mk.inj (Option.some.inj lastFirst)
  obtain ⟨secondParent,secondChild⟩ := Prod.mk.inj (Option.some.inj lastSecond)
  refine ⟨first,second,Machine.reachable_run sampleWorld_initial ranFirst,
    Machine.reachable_run sampleWorld_initial ranSecond,firstParent,firstChild,secondParent,secondChild,?_⟩
  rintro ⟨parent,child,settledFirst,settledSecond⟩
  have parentFirst : first.pool.master "" = some (.mk parent) := settledFirst.parentActive
  have parentSecond : second.pool.master "" = some (.mk parent) := settledSecond.parentActive
  have seenFirst := of_decide_eq_true chainFirst
  have seenSecond := of_decide_eq_true chainSecond
  rw [chainOf,parentFirst] at seenFirst
  rw [chainOf,parentSecond] at seenSecond
  have same := seenFirst.symm.trans seenSecond
  simp at same

end Samples

end NodejsPool.Pool.Merged
