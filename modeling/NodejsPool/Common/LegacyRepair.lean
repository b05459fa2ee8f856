import NodejsPool.Common.WorkRoundTrip

/-! Frames of producers that wrote work as a varint of any length: what the repair accepts, what
it makes of them, and what the adapted decoder reads. -/
namespace NodejsPool.Common.LegacyRepair
open RemoteShare.ShareStore (Number Value)
open Wire (Byte Field Format Kind Scalar byName byte byte_val)
open WorkCodec List
open Wire.Varint (write write_ne_nil write_small write_large)
open Option (some bind_eq_some_iff bind_eq_bind bind_some guard_eq_some' getD_some)

section Varints

variable {maxBytes count value : ℕ} {bytes rest : List Byte}

theorem readVarint_write (started : count = 0 ∨ 0 < value) (fits : (write value).length ≤ maxBytes)
    (read : ℕ) : readVarint maxBytes count read (write value ++ rest) =
      some (read + value * 128 ^ count,rest) := by
  induction value using Nat.strongRecOn generalizing maxBytes count read with
  | ind value ih =>
    obtain ⟨maxBytes,rfl⟩ : ∃ less, maxBytes = less + 1 := Nat.exists_eq_succ_of_ne_zero (by
      have nonempty := length_pos_iff.mpr (write_ne_nil value)
      omega)
    by_cases small : value < 128
    · have here : (byte value).val = value := byte_val (by omega)
      have last : ¬(0 < count ∧ value = 0) := by omega
      rw [write_small small,singleton_append,readVarint]
      simp only [here,Nat.mod_eq_of_lt small,if_pos small,if_neg last]
    · have here : (byte (value % 128 + 128)).val = value % 128 + 128 := byte_val (by omega)
      rw [write_large (by omega)] at fits ⊢
      rw [cons_append,readVarint]
      simp only [here,Nat.add_mod_right,Nat.mod_mod,if_neg (by omega : ¬value % 128 + 128 < 128)]
      rw [ih (value / 128) (by omega) (.inr (by omega)) (Nat.le_of_succ_le_succ fits)]
      congr 2
      calc
        read + value % 128 * 128 ^ count + value / 128 * 128 ^ (count + 1) =
            read + (value % 128 + 128 * (value / 128)) * 128 ^ count := by ring
        _ = read + value * 128 ^ count := by rw [Nat.mod_add_div]

theorem write_of_readVarint {read : ℕ} (reads : readVarint maxBytes count read bytes = some (value,rest)) :
    ∃ more, (count = 0 ∨ 0 < more) ∧ value = read + more * 128 ^ count ∧
      bytes = write more ++ rest ∧ (write more).length ≤ maxBytes := by
  induction maxBytes generalizing count read bytes with
  | zero => cases reads
  | succ maxBytes ih =>
    cases bytes with
    | nil => cases reads
    | cons low bytes =>
      unfold readVarint at reads
      dsimp only at reads
      split at reads
      next small =>
        split at reads
        · cases reads
        next last =>
          cases reads
          refine ⟨low.val,by omega,by rw [Nat.mod_eq_of_lt small],?_,?_⟩
          · rw [write_small small]
            simp [byte]
          · rw [write_small small]
            simp
      next high =>
        obtain ⟨more,started,rfl,rfl,fits⟩ := ih reads
        have bound := low.isLt
        have positive : 0 < more := by omega
        have large : 128 ≤ low.val % 128 + 128 * more := by omega
        have parts : (low.val % 128 + 128 * more) % 128 = low.val % 128 := by omega
        have quotient : (low.val % 128 + 128 * more) / 128 = more := by omega
        have same : byte (low.val % 128 + 128) = low := Fin.ext (by
          rw [byte_val (by omega)]
          omega)
        refine ⟨low.val % 128 + 128 * more,by omega,by ring,?_,?_⟩
        · rw [write_large large,parts,quotient,same]
          rfl
        · rw [write_large large,quotient]
          exact Nat.succ_le_succ fits

theorem readVarint_iff : readVarint maxBytes 0 0 bytes = some (value,rest) ↔
    bytes = write value ++ rest ∧ (write value).length ≤ maxBytes := by
  constructor
  · intro reads
    obtain ⟨more,_,same,split,fits⟩ := write_of_readVarint reads
    obtain rfl : value = more := by simpa using same
    exact ⟨split,fits⟩
  · rintro ⟨rfl,fits⟩
    rw [readVarint_write (.inl rfl) fits]
    simp

theorem write_length_le_iff : (write value).length ≤ maxBytes + 1 ↔ value < 128 ^ (maxBytes + 1) :=
  ⟨fun fits => lt_of_lt_of_le (Wire.Varint.lt_write_length value) (Nat.pow_le_pow_right (by decide) fits),
    Wire.Varint.write_length_le⟩

theorem tagBytes_write {key : ℕ} (two : key < 16384) : tagBytes key = write key := by
  unfold tagBytes
  split
  next small => rw [write_small small]
  next large =>
    rw [write_large (by omega),write_small (by omega)]

end Varints

theorem toNumber_finite {value : ℕ} {number : ℚ} (large : 2 ^ 64 ≤ value) (finite : toNumber value = .finite number) :
    value < 2 ^ 1024 ∧ ∃ whole : ℕ, number = whole ∧ 2 ^ 64 ≤ whole ∧ Format.double.Holds whole := by
  obtain ⟨shift,log⟩ : ∃ shift, value.log2 = shift + 52 := by
    have wide : 64 ≤ value.log2 := (Nat.le_log2 (by omega)).mpr large
    exact ⟨value.log2 - 52,by omega⟩
  have nonzero : value ≠ 0 := by
    rintro rfl
    simp at large
  have low : 2 ^ (shift + 52) ≤ value := log ▸ Nat.log2_self_le nonzero
  have high : value < 2 ^ (shift + 53) := by
    have below : value < 2 ^ (value.log2 + 1) := Nat.lt_log2_self
    rwa [log] at below
  have positive : 0 < 2 ^ shift := by positivity
  have least : 2 ^ 52 ≤ value / 2 ^ shift := by
    rw [Nat.le_div_iff_mul_le positive,← pow_add,Nat.add_comm]
    exact low
  have most : value / 2 ^ shift < 2 ^ 53 := by
    rw [Nat.div_lt_iff_lt_mul positive,← pow_add,Nat.add_comm]
    exact high
  unfold toNumber at finite
  dsimp only [Format.double] at finite
  rw [log,Nat.add_sub_cancel] at finite
  generalize mantissa : (if 2 ^ shift < 2 * (value % 2 ^ shift) ∨
    2 ^ shift = 2 * (value % 2 ^ shift) ∧ value / 2 ^ shift % 2 = 1 then value / 2 ^ shift + 1
    else value / 2 ^ shift) = rounded at finite
  have below : value / 2 ^ shift ≤ rounded ∧ rounded ≤ 2 ^ 53 := by
    rw [← mantissa]
    split <;> omega
  split at finite
  next fits =>
    have same : number = (rounded * 2 ^ shift : ℕ) := by
      injection finite with same
      exact same.symm
    have short : 2 ^ (shift + 52) < 2 ^ 1024 := by
      calc
        2 ^ (shift + 52) = 2 ^ 52 * 2 ^ shift := by rw [pow_add,Nat.mul_comm]
        _ ≤ rounded * 2 ^ shift := Nat.mul_le_mul_right _ (least.trans below.1)
        _ < 2 ^ 1024 := fits
    have shifts : shift + 52 < 1024 := (pow_lt_pow_iff_right₀ Nat.one_lt_two).mp short
    refine ⟨lt_of_lt_of_le high (pow_le_pow_right₀ one_le_two shifts),rounded * 2 ^ shift,same,?_,?_⟩
    · have wide : 64 ≤ value.log2 := (Nat.le_log2 nonzero).mpr large
      calc
        2 ^ 64 ≤ 2 ^ (52 + shift) := Nat.pow_le_pow_right (by decide) (by omega)
        _ = 2 ^ 52 * 2 ^ shift := pow_add 2 52 shift
        _ ≤ rounded * 2 ^ shift := Nat.mul_le_mul_right _ (least.trans below.1)
    · rcases Nat.lt_or_eq_of_le below.2 with less | full
      · exact Format.holds_places less shifts
      · have another : 2 ^ (shift + 1 + 52) < 2 ^ 1024 := by
          rw [full,← pow_add,show 53 + shift = shift + 1 + 52 by ring] at fits
          exact fits
        have steps : shift + 1 + 52 < 1024 := (pow_lt_pow_iff_right₀ Nat.one_lt_two).mp another
        have carried : rounded * 2 ^ shift = 2 ^ 52 * 2 ^ (shift + 1) := by
          rw [full]
          ring
        rw [carried]
        exact Format.holds_places (by decide) steps
  · cases finite

theorem toNumber_bounded {value : ℕ} (bounded : value < 2 ^ 1024 - 2 ^ 970) :
    ∃ number, toNumber value = .finite number := by
  obtain ⟨shift,same⟩ : ∃ shift, value.log2 - 52 = shift := ⟨_,rfl⟩
  have split : value / 2 ^ shift * 2 ^ shift + value % 2 ^ shift = value := Nat.div_add_mod' value _
  have rest : value % 2 ^ shift < 2 ^ shift := Nat.mod_lt _ (by positivity)
  have mantissa : value / 2 ^ shift < 2 ^ 53 := by
    rw [Nat.div_lt_iff_lt_mul (by positivity),← pow_add]
    calc
      value < 2 ^ (value.log2 + 1) := Nat.lt_log2_self
      _ ≤ 2 ^ (53 + shift) := pow_le_pow_right₀ one_le_two (by omega)
  have places : shift ≤ 970 + 1 := by
    by_contra many
    have nonzero : value ≠ 0 := by
      rintro rfl
      simp at same
      omega
    have least : 2 ^ 1024 ≤ value := by
      calc
        2 ^ 1024 ≤ 2 ^ value.log2 := pow_le_pow_right₀ one_le_two (by omega)
        _ ≤ value := Nat.log2_self_le nonzero
    exact absurd (lt_of_lt_of_le bounded (Nat.sub_le _ _)) (not_lt.mpr least)
  unfold toNumber
  dsimp only [Format.double]
  rw [same]
  generalize mantissa' : (if 2 ^ shift < 2 * (value % 2 ^ shift) ∨
    2 ^ shift = 2 * (value % 2 ^ shift) ∧ value / 2 ^ shift % 2 = 1 then value / 2 ^ shift + 1
    else value / 2 ^ shift) = rounded
  suffices fits : rounded * 2 ^ shift < 2 ^ 1024 by exact ⟨_,if_pos fits⟩
  have half : (2 : ℕ) ^ (970 + 1) = 2 * 2 ^ 970 := pow_succ' 2 970
  have whole : (2 : ℕ) ^ 1024 = 2 ^ 53 * (2 * 2 ^ 970) := by rw [← half,← pow_add]
  have step : 2 ^ shift ≤ 2 * 2 ^ 970 := by
    rw [← half]
    exact pow_le_pow_right₀ one_le_two places
  have most : rounded ≤ 2 ^ 53 := by
    rw [← mantissa']
    split <;> omega
  have places' : 2 ^ shift ≤ 2 ^ 970 ∨ 2 ^ shift = 2 * 2 ^ 970 := by
    rcases Nat.lt_or_eq_of_le places with fewer | rfl
    · exact .inl (pow_le_pow_right₀ one_le_two (Nat.le_of_lt_succ fewer))
    · exact .inr half
  rw [whole] at bounded ⊢
  clear half whole places
  have positive : 0 < 2 ^ 970 := by positivity
  generalize 2 ^ 970 = unit at *
  generalize 2 ^ shift = place at *
  rcases Nat.lt_or_eq_of_le most with less | full
  · calc
      rounded * place ≤ (2 ^ 53 - 1) * (2 * unit) := Nat.mul_le_mul (by omega) step
      _ < 2 ^ 53 * (2 * unit) := by omega
  · rcases places' with fewer | last
    · rw [full]
      omega
    · -- the largest mantissa is rounded up from half a last place on
      subst last
      split at mantissa'
      next up =>
        have largest : value / (2 * unit) = 2 ^ 53 - 1 := by omega
        rw [largest] at split up
        omega
      next => omega

/-- A field of a frame: one to keep, or work of more than 64 bits with the number it stands for. -/
inductive Item where
  | kept (key : ℕ) (payload : List Byte)
  | overflow (key value extensionTag : ℕ) (number : ℚ)

namespace Item

def key : Item → ℕ
  | .kept key _ | .overflow key _ _ _ => key

def tag (item : Item) : ℕ := item.key / 8

def source : Item → List Byte
  | .kept key payload => Wire.Varint.write key ++ payload
  | .overflow key value _ _ => Wire.Varint.write key ++ Wire.Varint.write value

def target : Item → List Byte
  | .kept key payload => Wire.Varint.write key ++ payload
  | .overflow key _ extensionTag number =>
    Wire.Varint.write key ++ Wire.Varint.write 0 ++ Wire.Varint.write (extensionTag * 8 + 1) ++
      Wire.littleEndian 8 (Format.double.word number)

def overflows : Item → Bool
  | .kept _ _ => false
  | .overflow _ _ _ _ => true

end Item

def Payload (wireType : ℕ) (payload : List Byte) : Prop :=
  match wireType with
  | 0 => ∃ value < 2 ^ 64, payload = Wire.Varint.write value
  | 1 => payload.length = 8
  | 2 => ∃ body : List Byte, body.length < 2 ^ 35 ∧ payload = Wire.Varint.write body.length ++ body
  | 5 => payload.length = 4
  | _ => False

def Sound (tags : List (ℕ × ℕ)) : Item → Prop
  | .kept key payload => key < 2 ^ 32 ∧ key / 8 ≠ 0 ∧ ((extensionOf tags (key / 8)).isSome → key % 8 = 0) ∧
      Payload (key % 8) payload
  | .overflow key value extensionTag number => key < 2 ^ 32 ∧ key / 8 ≠ 0 ∧ key % 8 = 0 ∧
      extensionOf tags (key / 8) = some extensionTag ∧ 2 ^ 64 ≤ value ∧ toNumber value = .finite number

section Scan

variable {tags : List (ℕ × ℕ)} {extensionTag : Option ℕ} {wireType : ℕ} {bytes rest : List Byte}
  {fuel : ℕ} {state final : Repairing}

theorem fixed_iff {count : ℕ} :
    (if count ≤ bytes.length then some (bytes.drop count,(none : Option ℚ)) else none) = some (rest,none) ↔
      ∃ payload : List Byte, payload.length = count ∧ bytes = payload ++ rest := by
  constructor
  · intro passed
    split at passed
    next enough =>
      obtain ⟨rfl,_⟩ := Prod.mk.inj (some.inj passed)
      exact ⟨bytes.take count,by simp [enough],(take_append_drop count bytes).symm⟩
    · cases passed
  · rintro ⟨payload,rfl,rfl⟩
    simp

theorem fixed_none {count : ℕ} {number : ℚ} :
    (if count ≤ bytes.length then some (bytes.drop count,none) else none) ≠ some (rest,some number) := by
  split <;> simp

theorem passField_kept : passField extensionTag wireType bytes = some (rest,none) ↔
    ∃ payload, Payload wireType payload ∧ bytes = payload ++ rest := by
  match wireType with
  | 0 =>
    constructor
    · intro passed
      obtain ⟨⟨value,after⟩,reads,passed⟩ := bind_eq_some_iff.mp passed
      dsimp only at passed
      split at passed
      next small =>
        obtain ⟨rfl,_⟩ := Prod.mk.inj (some.inj passed)
        have split : bytes = write value ++ after := by
          split at reads <;> exact (readVarint_iff.mp reads).1
        exact ⟨_,⟨value,by omega,rfl⟩,split⟩
      next =>
        obtain ⟨_,_,passed⟩ := bind_eq_some_iff.mp passed
        split at passed
        · cases (Prod.mk.inj (some.inj passed)).2
        · cases passed
    · rintro ⟨_,⟨value,small,rfl⟩,rfl⟩
      have fits : (write value).length ≤ 10 := write_length_le_iff.mpr (by omega)
      have reads : readVarint (if extensionTag.isSome then 147 else 10) 0 0 (write value ++ rest) =
          some (value,rest) := by
        refine readVarint_iff.mpr ⟨rfl,fits.trans ?_⟩
        split <;> decide
      unfold passField
      simp only [reads,bind_eq_bind,bind_some]
      rw [if_pos (by omega)]
  | 1 => exact fixed_iff
  | 2 =>
    constructor
    · intro passed
      obtain ⟨⟨length,after⟩,reads,inside⟩ := bind_eq_some_iff.mp passed
      obtain ⟨rfl,fits⟩ := readVarint_iff.mp reads
      obtain ⟨body,rfl,rfl⟩ := fixed_iff.mp inside
      exact ⟨_,⟨body,write_length_le_iff.mp fits,rfl⟩,(append_assoc _ _ _).symm⟩
    · rintro ⟨_,⟨body,small,rfl⟩,rfl⟩
      have reads : readVarint 5 0 0 (write body.length ++ (body ++ rest)) =
          some (body.length,body ++ rest) := readVarint_iff.mpr ⟨rfl,write_length_le_iff.mpr small⟩
      unfold passField
      rw [append_assoc]
      simp only [reads,bind_eq_bind,bind_some]
      exact fixed_iff.mpr ⟨body,rfl,rfl⟩
  | 5 => exact fixed_iff
  | 3 | 4 | _ + 6 => simp [passField,Payload]

theorem passField_overflow {number : ℚ} : passField extensionTag wireType bytes = some (rest,some number) ↔
    wireType = 0 ∧ extensionTag.isSome ∧ ∃ value, 2 ^ 64 ≤ value ∧ toNumber value = .finite number ∧
      bytes = write value ++ rest := by
  constructor
  · intro passed
    match wireType,passed with
    | 0,passed =>
      obtain ⟨⟨value,after⟩,reads,passed⟩ := bind_eq_some_iff.mp passed
      dsimp only at passed
      split at passed
      · cases (Prod.mk.inj (some.inj passed)).2
      next large =>
        obtain ⟨_,guarded,passed⟩ := bind_eq_some_iff.mp passed
        have mapped : extensionTag.isSome := Option.isSome_iff_ne_none.mpr (by simpa [guard] using guarded)
        split at passed
        next finite =>
          obtain ⟨rfl,same⟩ := Prod.mk.inj (some.inj passed)
          cases same
          rw [if_pos mapped] at reads
          exact ⟨rfl,mapped,value,by omega,finite,(readVarint_iff.mp reads).1⟩
        · cases passed
    | 2,passed =>
      obtain ⟨_,_,passed⟩ := bind_eq_some_iff.mp passed
      exact absurd passed fixed_none
    | 1,passed | 5,passed => exact absurd passed fixed_none
    | 3,passed | 4,passed | _ + 6,passed => simp [passField] at passed
  · rintro ⟨rfl,mapped,value,large,finite,rfl⟩
    have bits : value < 128 ^ 147 := by
      calc
        value < 2 ^ 1024 := (toNumber_finite large finite).1
        _ ≤ 2 ^ (7 * 147) := pow_le_pow_right₀ one_le_two (by decide)
        _ = 128 ^ 147 := pow_mul 2 7 147
    have reads : readVarint 147 0 0 (write value ++ rest) = some (value,rest) :=
      readVarint_iff.mpr ⟨rfl,write_length_le_iff.mpr bits⟩
    unfold passField
    simp only [if_pos mapped,reads,bind_eq_bind,bind_some]
    rw [if_neg (by omega),mapped]
    simp [guard,finite]

theorem note_parts (tag : ℕ) (state : Repairing) :
    (note tags tag state).parts = state.parts ∧ (note tags tag state).repaired = state.repaired := by
  unfold note
  split <;> exact ⟨rfl,rfl⟩

def advance (tags : List (ℕ × ℕ)) (state : Repairing) (item : Item) : Repairing :=
  {note tags item.tag state with
    parts := state.parts ++ item.target
    repaired := state.repaired || item.overflows}

def Short (tags : List (ℕ × ℕ)) : Prop := ∀ entry ∈ tags, entry.1 < 2048 ∧ entry.2 < 2048

theorem extensionOf_mem {tag extensionTag : ℕ} (found : extensionOf tags tag = some extensionTag) :
    (tag,extensionTag) ∈ tags := by
  obtain ⟨⟨first,second⟩,inside,rfl⟩ := Option.map_eq_some_iff.mp found
  obtain rfl : first = tag := by simpa using find?_some inside
  exact mem_of_find?_eq_some inside

theorem replacement_target (short : Short tags) {key extensionTag : ℕ} (value : ℕ) (number : ℚ) (plain : key % 8 = 0)
    (found : extensionOf tags (key / 8) = some extensionTag) :
    replacement key extensionTag number = (Item.overflow key value extensionTag number).target := by
  obtain ⟨first,second⟩ := short _ (extensionOf_mem found)
  have sentinel : write 0 = [byte 0] := rfl
  unfold replacement Item.target
  rw [tagBytes_write (by omega),tagBytes_write (by omega),sentinel]

theorem take_front (front rest : List Byte) : (front ++ rest).take ((front ++ rest).length - rest.length) = front := by
  rw [length_append,Nat.add_sub_cancel,take_left]

theorem repairFields_succ (short : Short tags) (some_ : bytes ≠ []) :
    repairFields tags (fuel + 1) bytes state = some final ↔ ∃ item rest, bytes = item.source ++ rest ∧
      Sound tags item ∧ repairFields tags fuel rest (advance tags state item) = some final := by
  obtain ⟨low,high,split⟩ := exists_cons_of_ne_nil some_
  constructor
  · intro run
    subst split
    obtain ⟨⟨key,after⟩,reads,run⟩ := bind_eq_some_iff.mp run
    obtain ⟨split,_⟩ := readVarint_iff.mp reads
    obtain ⟨_,bounded,run⟩ := bind_eq_some_iff.mp run
    obtain ⟨_,tagged,run⟩ := bind_eq_some_iff.mp run
    obtain ⟨_,plain,run⟩ := bind_eq_some_iff.mp run
    obtain ⟨⟨rest,number⟩,passed,ran⟩ := bind_eq_some_iff.mp run
    have bound : key < 2 ^ 32 := Nat.lt_succ_of_le ((guard_eq_some' _).mp bounded)
    have own : key / 8 ≠ 0 := (guard_eq_some' _).mp tagged
    have mapped : extensionOf tags (key / 8) = none ∨ key % 8 = 0 := by
      simpa using (guard_eq_some' _).mp plain
    cases number with
    | none =>
      obtain ⟨payload,sound,rfl⟩ := passField_kept.mp passed
      refine ⟨.kept key payload,rest,?_,⟨bound,own,?_,sound⟩,?_⟩
      · rw [split,Item.source,append_assoc]
      · intro found
        exact mapped.resolve_left (Option.isSome_iff_ne_none.mp found)
      · rw [← ran]
        have taken : (low::high).take ((low::high).length - rest.length) = (Item.kept key payload).target := by
          rw [split,Item.target,← append_assoc]
          exact take_front _ rest
        dsimp only
        rw [taken]
        simp [advance,Item.overflows,Item.tag,Item.key,note_parts]
    | some number =>
      obtain ⟨zero,found,value,large,finite,rfl⟩ := passField_overflow.mp passed
      obtain ⟨extensionTag,found⟩ := Option.isSome_iff_exists.mp found
      refine ⟨.overflow key value extensionTag number,rest,?_,⟨bound,own,zero,found,large,finite⟩,?_⟩
      · rw [split,Item.source,append_assoc]
      · rw [← ran]
        have replaced := replacement_target short value number zero found
        dsimp only
        rw [found,getD_some,replaced]
        simp [advance,Item.overflows,Item.tag,Item.key,note_parts]
  · rintro ⟨item,rest,split',sound,run⟩
    subst split
    cases item with
    | kept key payload =>
      obtain ⟨bound,own,mapped,sound⟩ := sound
      rw [Item.source,append_assoc] at split'
      have fits : (write key).length ≤ 5 := write_length_le_iff.mpr (by omega)
      refine bind_eq_some_iff.mpr ⟨⟨key,payload ++ rest⟩,readVarint_iff.mpr ⟨split',fits⟩,?_⟩
      refine bind_eq_some_iff.mpr ⟨(),(guard_eq_some' _).mpr (Nat.le_of_lt_succ bound),?_⟩
      refine bind_eq_some_iff.mpr ⟨(),(guard_eq_some' _).mpr own,?_⟩
      refine bind_eq_some_iff.mpr ⟨(),(guard_eq_some' _).mpr ?_,?_⟩
      · cases found : extensionOf tags (key / 8) with
        | none => rfl
        | some extensionTag => simpa using mapped (by simp [found])
      refine bind_eq_some_iff.mpr ⟨⟨rest,none⟩,passField_kept.mpr ⟨payload,sound,rfl⟩,?_⟩
      have taken : (low::high).take ((low::high).length - rest.length) = (Item.kept key payload).target := by
        rw [split',Item.target,← append_assoc]
        exact take_front _ rest
      dsimp only
      rw [taken,← run]
      simp [advance,Item.overflows,Item.tag,Item.key,note_parts]
    | overflow key value extensionTag number =>
      obtain ⟨bound,own,plain,found,large,finite⟩ := sound
      rw [Item.source,append_assoc] at split'
      have fits : (write key).length ≤ 5 := write_length_le_iff.mpr (by omega)
      refine bind_eq_some_iff.mpr ⟨⟨key,write value ++ rest⟩,readVarint_iff.mpr ⟨split',fits⟩,?_⟩
      refine bind_eq_some_iff.mpr ⟨(),(guard_eq_some' _).mpr (Nat.le_of_lt_succ bound),?_⟩
      refine bind_eq_some_iff.mpr ⟨(),(guard_eq_some' _).mpr own,?_⟩
      refine bind_eq_some_iff.mpr ⟨(),(guard_eq_some' _).mpr (by simp [plain]),?_⟩
      have passed : passField (extensionOf tags (key / 8)) (key % 8) (write value ++ rest) =
          some (rest,some number) := passField_overflow.mpr ⟨plain,by simp [found],value,large,finite,rfl⟩
      refine bind_eq_some_iff.mpr ⟨_,passed,?_⟩
      dsimp only
      rw [found,getD_some,replacement_target short value number plain found,← run]
      simp [advance,Item.overflows,Item.tag,Item.key,note_parts]

theorem source_ne_nil (item : Item) : item.source ≠ [] := by
  cases item <;> simp [Item.source,write_ne_nil]

theorem repairFields_nil :
    repairFields tags fuel [] state = some final ↔ ∃ items : List Item, [] = items.flatMap Item.source ∧
      (∀ item ∈ items, Sound tags item) ∧ final = items.foldl (advance tags) state := by
  have run : repairFields tags fuel [] state = some state := by cases fuel <;> rfl
  rw [run]
  constructor
  · intro same
    exact ⟨[],rfl,by simp,(some.inj same).symm⟩
  · rintro ⟨items,split,sound,rfl⟩
    cases items with
    | nil => rfl
    | cons item items => exact absurd (append_eq_nil_iff.mp split.symm).1 (source_ne_nil item)

theorem repairFields_iff (short : Short tags) (enough : bytes.length ≤ fuel) :
    repairFields tags fuel bytes state = some final ↔ ∃ items : List Item, bytes = items.flatMap Item.source ∧
      (∀ item ∈ items, Sound tags item) ∧ final = items.foldl (advance tags) state := by
  induction fuel generalizing bytes state with
  | zero =>
    obtain rfl := length_eq_zero_iff.mp (Nat.le_zero.mp enough)
    exact repairFields_nil
  | succ fuel ih =>
    by_cases empty : bytes = []
    · subst empty
      exact repairFields_nil
    · have shorter (item : Item) (rest : List Byte) (split : bytes = item.source ++ rest) : rest.length ≤ fuel := by
        have nonempty := length_pos_iff.mpr (source_ne_nil item)
        rw [split,length_append] at enough
        omega
      rw [repairFields_succ short empty]
      constructor
      · rintro ⟨item,rest,split,sound,run⟩
        obtain ⟨items,rfl,sound',rfl⟩ := (ih (shorter item rest split)).mp run
        exact ⟨item::items,split,forall_mem_cons.mpr ⟨sound,sound'⟩,rfl⟩
      · rintro ⟨items,split,sound,rfl⟩
        cases items with
        | nil => exact absurd split empty
        | cons item items =>
          obtain ⟨sound,sound'⟩ := forall_mem_cons.mp sound
          exact ⟨item,_,split,sound,(ih (shorter item _ split)).mpr ⟨items,rfl,sound',rfl⟩⟩

def workOf (tags : List (ℕ × ℕ)) (items : List Item) : List ℕ :=
  (items.map Item.tag).filter fun tag => (extensionOf tags tag).isSome

def isExtension (tags : List (ℕ × ℕ)) (tag : ℕ) : Bool := tags.any fun entry => entry.2 = tag

theorem advanced (tags : List (ℕ × ℕ)) (items : List Item) (state : Repairing) :
    (items.foldl (advance tags) state).parts = state.parts ++ items.flatMap Item.target ∧
      (items.foldl (advance tags) state).repaired = (state.repaired || items.any Item.overflows) ∧
      (items.foldl (advance tags) state).hasExtension =
        (state.hasExtension || items.any fun item => isExtension tags item.tag) := by
  induction items generalizing state with
  | nil => simp
  | cons item items ih =>
    obtain ⟨parts,repaired,extensions⟩ := ih (advance tags state item)
    have noted : (advance tags state item).hasExtension = (state.hasExtension || isExtension tags item.tag) := by
      unfold advance note
      split <;> rfl
    rw [foldl_cons,parts,repaired,extensions,noted]
    simp [advance,Bool.or_assoc]

theorem advanced_duplicate (tags : List (ℕ × ℕ)) (items : List Item) (state : Repairing) :
    (items.foldl (advance tags) state).duplicateWork = false ↔ state.duplicateWork = false ∧
      (workOf tags items).Nodup ∧ ∀ tag ∈ workOf tags items, tag ∉ state.seenWork := by
  induction items generalizing state with
  | nil => simp [workOf]
  | cons item items ih =>
    rw [foldl_cons,ih]
    unfold workOf at *
    rw [map_cons,filter_cons]
    unfold advance note
    split
    next =>
      simp only [Bool.or_eq_false_iff,contains_eq_mem,decide_eq_false_iff_not,nodup_cons,mem_cons]
      grind
    next =>
      rfl

/-- The frames there is something to repair in: some work overflows, no work comes twice and
there is no extension field. -/
structure Repairable (tags : List (ℕ × ℕ)) (items : List Item) : Prop where
  sound : ∀ item ∈ items, Sound tags item
  overflown : ∃ item ∈ items, item.overflows = true
  legacy : ∀ item ∈ items, ∀ entry ∈ tags, entry.2 ≠ item.tag
  single : (workOf tags items).Nodup

theorem repairLegacyOverflow_iff (short : Short tags) {buffer : Option (List Byte)} {offset : ℕ} {end_ : Option ℕ}
    {parts : List Byte} : repairLegacyOverflow buffer offset end_ tags = some parts ↔
      ∃ items, (buffer.bind fun buffer => window buffer offset end_) = some (items.flatMap Item.source) ∧
        Repairable tags items ∧ parts = items.flatMap Item.target := by
  have legacy_iff (items : List Item) : (items.any fun item => isExtension tags item.tag) = false ↔
      ∀ item ∈ items, ∀ entry ∈ tags, entry.2 ≠ item.tag := by
    simp only [isExtension,any_eq_false,any_eq_true,decide_eq_true_eq,not_exists,not_and]
  constructor
  · intro repairs
    obtain ⟨frame,rfl,repairs⟩ := bind_eq_some_iff.mp repairs
    obtain ⟨bytes,within,repairs⟩ := bind_eq_some_iff.mp repairs
    obtain ⟨state,scanned,repairs⟩ := bind_eq_some_iff.mp repairs
    obtain ⟨_,guarded,same⟩ := bind_eq_some_iff.mp repairs
    obtain ⟨items,split,sound,rfl⟩ := (repairFields_iff short (Nat.le_refl _)).mp scanned
    obtain ⟨parts',repaired,extensions⟩ := advanced tags items {}
    have flags := (guard_eq_some' _).mp guarded
    simp only [repaired,extensions,Bool.false_or,Bool.and_eq_true,Bool.not_eq_true'] at flags
    obtain ⟨⟨overflown,legacy⟩,single⟩ := flags
    refine ⟨items,split ▸ within,⟨sound,any_eq_true.mp overflown,(legacy_iff items).mp legacy,?_⟩,?_⟩
    · exact ((advanced_duplicate tags items {}).mp single).2.1
    · rw [← some.inj same,parts']
      rfl
  · rintro ⟨items,within,⟨sound,overflown,legacy,single⟩,rfl⟩
    obtain ⟨frame,rfl,within⟩ := bind_eq_some_iff.mp within
    obtain ⟨parts',repaired,extensions⟩ := advanced tags items {}
    have duplicates := (advanced_duplicate tags items {}).mpr ⟨rfl,single,by simp⟩
    refine bind_eq_some_iff.mpr ⟨_,within,?_⟩
    refine bind_eq_some_iff.mpr ⟨_,(repairFields_iff short (Nat.le_refl _)).mpr ⟨items,rfl,sound,rfl⟩,?_⟩
    refine bind_eq_some_iff.mpr ⟨(),(guard_eq_some' _).mpr ?_,?_⟩
    · rw [repaired,extensions,duplicates,(legacy_iff items).mpr legacy]
      simpa using overflown
    · rw [parts']
      rfl

end Scan

end NodejsPool.Common.LegacyRepair
