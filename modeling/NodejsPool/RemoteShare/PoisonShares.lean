import NodejsPool.Common.WorkRoundTrip
import NodejsPool.RemoteShare.BatchStoring

/-! Which received shares can be stored: a share that no batch can hold stops the whole intake, and is
one with a key or a record that the database refuses, or with a cached value that is no entry. -/
namespace NodejsPool.RemoteShare.PoisonShares
open Common.WorkCodec ShareStore
open Wire (Byte Field)

section Keys

variable (settings : Settings)

def portSuffix (share : Share) : String :=
  if sharePortSuffix settings share = "" then "_" ++ toString (defaultStatsPort settings)
    else sharePortSuffix settings share

def touchedKeys (share : Share) : List String :=
  shareKeys share ++ [statsTypeKey share ++ portSuffix settings share,globalStatsKey ++ portSuffix settings share]

theorem keys_share (updates : CacheUpdates) (share : Share) (key : String) :
    key ∈ keysOf (applyShareCacheUpdates settings updates share) ↔ key ∈ touchedKeys settings share ∨
    key ∈ keysOf updates := by
  unfold applyShareCacheUpdates touchedKeys portSuffix
  dsimp only
  by_cases daemon : sharePortSuffix settings share = ""
  · simp only [if_pos daemon,keys_shares,keys_port,keys_hashes,keys_entries,List.mem_append,List.mem_cons,
      List.not_mem_nil]
    tauto
  · simp only [if_neg daemon,keys_shares,keys_port,keys_entries,List.mem_append,List.mem_cons,List.not_mem_nil]
    tauto

private theorem keys_fold (shares : List Share) (updates : CacheUpdates) (key : String) :
    key ∈ keysOf (shares.foldl (applyShareCacheUpdates settings) updates) ↔
      (∃ share ∈ shares, key ∈ touchedKeys settings share) ∨ key ∈ keysOf updates := by
  induction shares generalizing updates with
  | nil => simp
  | cons share shares ih =>
    rw [List.foldl_cons,ih,keys_share,List.exists_mem_cons_iff]
    exact or_left_comm.trans or_assoc.symm

theorem keys_batch (shares : List Share) (key : String) :
    key ∈ keysOf (batchUpdates settings shares) ↔ (∃ share ∈ shares, key ∈ touchedKeys settings share) ∨
    key = globalStatsKey := by
  unfold batchUpdates
  rw [keys_fold]
  simp [keysOf]

end Keys

section Encoding

variable (protobuf : List Field → Raw)

def received (data : Object) : Value := .record ((schema .Share).map fun field => (field.name,data field.name))

def integer (value : ℤ) : Value := .number (.finite value)

def optional (value : Option Value) : Value := value.getD .undefined

/-- The object a storable share is encoded from; a payment id that is `null` was left out. -/
def shareObject (share : Share) : Object :=
  (Value.record [("paymentAddress",.string share.paymentAddress),("identifier",.string share.identifier),
    ("poolType",integer (match share.poolType with | .PPLNS => 0 | .PPS => 1 | .PROP => 2 | .SOLO => 3)),
    ("raw_shares",.number (.finite share.raw_shares)),("blockHeight",integer share.blockHeight),
    ("foundBlock",.boolean share.foundBlock),("trustedShare",.boolean share.trustedShare),
      ("poolID",integer share.poolID),
    ("blockDiff",integer share.blockDiff),("timestamp",integer share.timestamp),
    ("paymentID",optional (share.paymentID.map .string)),("port",optional (share.port.map integer)),
    ("shares",optional (share.shares.map integer)),("shares2",optional (share.shares2.map integer)),
    ("share_num",optional (share.share_num.map integer))]).field

def encodeShare (share : Share) : Option (List Byte) :=
  match ((adaptWorkCodecs protobuf .Share).encode 0 none ⟨1,fun _ => shareObject share⟩).1 with
  | .ok written => some written.buffer
  | .error _ => none

/-- `Share.encodingLength(share)`; none where it throws. -/
def shareLength (share : Share) : Option ℕ :=
  match ((adaptWorkCodecs protobuf .Share).encodingLength 0 ⟨1,fun _ => shareObject share⟩).1 with
  | .ok length => some length
  | .error _ => none

/-- The library writes a message to a buffer of its own exactly when it has a length for it, and of that length. -/
structure Lengths (raw : Raw) : Prop where
  written : ∀ object written, raw.encode object none = .ok written →
    raw.encodingLength object = .ok written.buffer.length
  writes : ∀ object length, raw.encodingLength object = .ok length → ∃ written, raw.encode object none = .ok written

variable {protobuf}

private theorem encodeShare_length (library : Lengths (protobuf (schema .Share))) (share : Share) :
    (encodeShare protobuf share).map List.length = shareLength protobuf share := by
  unfold encodeShare shareLength adaptWorkCodecs wrapCodec
  dsimp only
  cases prepareWire 0 (workFields .Share) ⟨1,fun _ => shareObject share⟩ with
  | mk prepared heap =>
    cases prepared with
    | error failure => rfl
    | ok wire =>
      dsimp only
      cases encoded : (protobuf (schema .Share)).encode (heap.objects wire) none with
      | ok written => rw [library.written _ _ encoded]; rfl
      | error failure =>
        cases announced : (protobuf (schema .Share)).encodingLength (heap.objects wire) with
        | error => rfl
        | ok length =>
          obtain ⟨written,wrote⟩ := library.writes _ _ announced
          rw [encoded] at wrote
          cases wrote

end Encoding

section Storing

variable {protobuf : List Field → Raw} {backend : Backend (List Byte)}

/-- What LMDB admits: a key is stored as UTF-16 with a terminator, and the records of one height, as the
duplicates of a key, are bounded as keys are. -/
structure Lmdb (backend : Backend (List Byte)) (maxKeySize : ℕ) : Prop where
  keys : ∀ key, backend.keyFits key = true ↔ 2 * (utf16Length key + 1) ≤ maxKeySize
  values : ∀ record, backend.valueFits record = true ↔ record.length ≤ maxKeySize

def Open (maxKeySize : ℕ) (db : Db (List Byte)) (key : String) : Prop :=
  2 * (utf16Length key + 1) ≤ maxKeySize ∧ db.cacheDB key ≠ some .malformed

structure Harmless (protobuf : List Field → Raw) (maxKeySize : ℕ) (settings : Settings) (db : Db (List Byte))
    (share : Share) : Prop where
  keys : ∀ key ∈ touchedKeys settings share, Open maxKeySize db key
  record : ∃ length, shareLength protobuf share = some length ∧ length ≤ maxKeySize

theorem storable_iff (library : Lengths (protobuf (schema .Share))) {maxKeySize : ℕ} (lmdb : Lmdb backend maxKeySize)
    (encoder : backend.encode = encodeShare protobuf) (settings : Settings) (db : Db (List Byte))
    (shares : List Share) :
    Storable backend settings shares db ↔
      Open maxKeySize db globalStatsKey ∧ ∀ share ∈ shares, Harmless protobuf maxKeySize settings db share := by
  have open_ : ∀ key, (backend.keyFits key = true ∧ db.cacheDB key ≠ some .malformed) ↔ Open maxKeySize db key :=
    fun key => and_congr_left fun _ => lmdb.keys key
  have record : ∀ share, (∃ record, backend.encode share = some record ∧ backend.valueFits record = true) ↔
      ∃ length, shareLength protobuf share = some length ∧ length ≤ maxKeySize := by
    intro share
    rw [encoder,← encodeShare_length library]
    constructor
    · rintro ⟨record,encoded,fits⟩
      exact ⟨record.length,by rw [encoded]; rfl,(lmdb.values record).mp fits⟩
    · rintro ⟨length,announced,fits⟩
      obtain ⟨record,encoded,rfl⟩ := Option.map_eq_some_iff.mp announced
      exact ⟨record,encoded,(lmdb.values record).mpr fits⟩
  unfold Storable Admits Encodes
  constructor
  · rintro ⟨admits,encodes⟩
    refine ⟨(open_ _).mp (admits _ ((keys_batch settings shares _).mpr (.inr rfl))),fun share member => ⟨?_,?_⟩⟩
    · intro key touched
      exact (open_ key).mp (admits key ((keys_batch settings shares key).mpr (.inl ⟨share,member,touched⟩)))
    · exact (record share).mp (encodes share member)
  · rintro ⟨global,harmless⟩
    refine ⟨fun key member => (open_ key).mpr ?_,fun share member => (record share).mpr (harmless share member).record⟩
    rcases (keys_batch settings shares key).mp member with ⟨share,inside,touched⟩ | rfl
    · exact (harmless share inside).keys key touched
    · exact global

/-- A batch is stored exactly when every share of it is harmless. -/
theorem storeShares_ok_iff (library : Lengths (protobuf (schema .Share))) {maxKeySize : ℕ}
    (lmdb : Lmdb backend maxKeySize)
    (encoder : backend.encode = encodeShare protobuf) (settings : Settings) (shares : List Value)
    (db : Db (List Byte)) :
    (storeShares backend settings shares {} db).1.isOk = true ↔
      shares = [] ∨ (Open maxKeySize db globalStatsKey ∧
        ∀ share ∈ shares.filterMap isStorableShare, Harmless protobuf maxKeySize settings db share) := by
  by_cases none : shares = []
  · subst none
    exact iff_of_true rfl (.inl rfl)
  rw [← storable_iff library lmdb encoder,or_iff_right none]
  constructor
  · intro ok
    by_contra refused
    obtain ⟨failure,failed⟩ := storeShares_fails none refused
    rw [failed] at ok
    cases ok
  · intro storable
    obtain ⟨after,ran,-⟩ := storeShares_runs none storable
    rw [ran]
    rfl

end Storing

section Samples

theorem tagged_lengths (schema : List Field) : Lengths (tagged schema) := by
  constructor
  · intro object written encoded
    unfold tagged at encoded ⊢
    dsimp only at encoded ⊢
    split at encoded
    next present =>
      rw [if_pos present]
      split at encoded
      · cases encoded
      next buffer placed =>
        cases encoded
        cases placed
        rfl
    · cases encoded
  · intro object length announced
    unfold tagged at announced ⊢
    dsimp only at announced ⊢
    split at announced
    next present =>
      rw [if_pos present]
      exact ⟨_,rfl⟩
    · cases announced

def usualBackend : Backend (List Byte) where
  encode := encodeShare tagged
  keyFits key := 2 * (utf16Length key + 1) ≤ 511
  valueFits record := record.length ≤ 511

theorem usual_lmdb : Lmdb usualBackend 511 := ⟨fun _ => decide_eq_true_iff,fun _ => decide_eq_true_iff⟩

def aShare (paymentAddress : String) : Share :=
  ⟨paymentAddress,"rig",.PPLNS,7,5,false,false,1,9,3,some "",some 0,some 0,some 7,some 0⟩

def frame (share : Share) : List Byte := (encodeShare tagged share).getD []

def afterPayments : Db (List Byte) := ⟨∅,fun key => if key = "lastPaymentCycle" then some .malformed else none⟩

def decoded (bytes : List Byte) : Option Value :=
  match (adaptWorkCodecs tagged .Share).decode (some bytes) 0 none with
  | .ok decoded => some (received decoded.data)
  | .error _ => none

def storesFrame (db : Db (List Byte)) (bytes : List Byte) : Option (Option Share × Bool) :=
  (decoded bytes).map fun value => (isStorableShare value,(storeShares usualBackend plainSettings [value] {} db).1.isOk)

theorem storeShares_ok_sample : ∃ value, decoded (frame (aShare "A")) = some value ∧
    isStorableShare value = some (aShare "A") ∧
    (storeShares usualBackend plainSettings [value] {} afterPayments).1.isOk = true ∧
    ∀ share ∈ [value].filterMap isStorableShare, Harmless tagged 511 plainSettings afterPayments share := by
  have outcome : storesFrame afterPayments (frame (aShare "A")) = some (some (aShare "A"),true) := by decide +kernel
  obtain ⟨value,read,seen⟩ := Option.map_eq_some_iff.mp outcome
  have stored := (Prod.ext_iff.mp seen).2
  refine ⟨value,read,(Prod.ext_iff.mp seen).1,stored,?_⟩
  rcases (storeShares_ok_iff (tagged_lengths _) usual_lmdb rfl plainSettings [value] afterPayments).mp stored
    with none | harmless
  · cases none
  · exact harmless.2

def longAddress : String := String.ofList (List.replicate 255 'A')

def longShare : Value := received (shareObject (aShare longAddress))

/-- A received share that is paid to the key of the last payment cycle stops the store, and so does a storable one
with an address that is longer than a key may be. -/
theorem poison_shares : storesFrame afterPayments (frame (aShare "lastPaymentCycle")) =
      some (some (aShare "lastPaymentCycle"),false) ∧
    isStorableShare longShare = some (aShare longAddress) ∧
    (storeShares usualBackend plainSettings [longShare] {} ⟨∅,fun _ => none⟩).1.isOk = false := by
  have storable : isStorableShare longShare = some (aShare longAddress) := rfl
  refine ⟨by decide +kernel,storable,?_⟩
  have refused : ¬Storable usualBackend plainSettings ([longShare].filterMap isStorableShare) ⟨∅,fun _ => none⟩ := by
    intro stored
    obtain ⟨-,harmless⟩ := (storable_iff (tagged_lengths _) usual_lmdb rfl _ _ _).mp stored
    have one := harmless (aShare longAddress) (List.mem_filterMap.mpr ⟨longShare,List.mem_singleton_self _,storable⟩)
    have fits := (one.keys longAddress (by simp [touchedKeys,shareKeys,getMinerId,aShare,utf16Length])).1
    have size : utf16Length longAddress = 255 := by
      unfold utf16Length longAddress
      rw [String.toList_ofList,List.map_replicate,List.sum_replicate]
      rfl
    omega
  obtain ⟨failure,failed⟩ := storeShares_fails (List.cons_ne_nil _ _) refused
  rw [failed]
  rfl

end Samples

end NodejsPool.RemoteShare.PoisonShares
