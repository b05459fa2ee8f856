import NodejsPool.Wire.Binary

/-! Rounding to a binary interchange format: the nearest number that the format holds, the even one
of two. -/
namespace NodejsPool.Wire

def nearestEven (value : ℚ) : ℕ :=
  let below := ⌊value⌋.toNat
  let rest := value - below
  if 1 / 2 < rest ∨ (rest = 1 / 2 ∧ below % 2 = 1) then below + 1 else below

theorem nearestEven_le {value : ℚ} {bound : ℕ} (positive : 0 ≤ value) (le : value ≤ bound) :
    nearestEven value ≤ bound := by
  have floor : ((⌊value⌋.toNat : ℕ) : ℤ) = ⌊value⌋ := Int.toNat_of_nonneg (Int.floor_nonneg.mpr positive)
  have least : ((⌊value⌋.toNat : ℕ) : ℚ) ≤ value := by
    rw [← Int.cast_natCast,floor]
    exact Int.floor_le value
  have within : ⌊value⌋.toNat ≤ bound := by exact_mod_cast least.trans le
  unfold nearestEven
  dsimp only
  split
  next up =>
    rcases within.lt_or_eq with less | same
    · exact less
    · -- a whole number has no rest
      rw [same] at up
      have none : value - bound ≤ 0 := sub_nonpos.mpr le
      rcases up with more | ⟨half,_⟩ <;> linarith
  · exact within

theorem le_nearestEven {value : ℚ} {bound : ℕ} (le : (bound : ℚ) ≤ value) : bound ≤ nearestEven value := by
  have whole : (bound : ℤ) ≤ ⌊value⌋ := Int.le_floor.mpr (by exact_mod_cast le)
  have below : bound ≤ ⌊value⌋.toNat := by omega
  unfold nearestEven
  dsimp only
  split
  · exact below.trans (Nat.le_succ _)
  · exact below

theorem nearestEven_natCast (value : ℕ) : nearestEven value = value :=
  le_antisymm (nearestEven_le (Nat.cast_nonneg _) le_rfl) (le_nearestEven le_rfl)

namespace Format

variable (format : Format)

def place (value : ℚ) : ℚ := (2 : ℚ) ^ (format.least + format.step value)

def roundMagnitude (value : ℚ) : ℚ := nearestEven (value / format.place value) * format.place value

def limit : ℚ := (2 : ℚ) ^ (format.fraction + format.least + format.exponents)

/-- As if the format went on beyond its largest number. -/
def nearest (value : ℚ) : ℚ := if value < 0 then -format.roundMagnitude |value| else format.roundMagnitude |value|

/-- The number of the format that stands for a value, unless it is too large. -/
def round (value : ℚ) : Option ℚ :=
  if format.roundMagnitude |value| < format.limit then
    some (if value < 0 then -format.roundMagnitude |value| else format.roundMagnitude |value|)
  else none

def readFinite (bits : ℕ) : Option ℚ :=
  if bits / 2 ^ format.fraction % 2 ^ format.exponent = 2 ^ format.exponent - 1 then none
    else some (format.readWord bits)

variable {format} {value : ℚ}

theorem place_pos (value : ℚ) : 0 < format.place value := zpow_pos (by norm_num) _

theorem scaled_lt : value / format.place value < 2 ^ (format.fraction + 1) := by
  have two : (2 : ℚ) ≠ 0 := by norm_num
  rw [div_lt_iff₀ (place_pos value)]
  calc
    value < (2 : ℚ) ^ (Int.log 2 value + 1) := Int.lt_zpow_succ_log_self (by norm_num) value
    _ ≤ (2 : ℚ) ^ ((format.fraction : ℤ) + 1 + (format.least + format.step value)) := by
      apply zpow_le_zpow_right₀ (by norm_num)
      unfold step
      omega
    _ = 2 ^ (format.fraction + 1) * format.place value := by
      rw [zpow_add₀ two,place]
      norm_cast

theorem le_scaled (positive : 0 < value) (above : 0 < format.step value) :
    2 ^ format.fraction ≤ value / format.place value := by
  have two : (2 : ℚ) ≠ 0 := by norm_num
  rw [le_div_iff₀ (place_pos value)]
  calc
    2 ^ format.fraction * format.place value = (2 :
    ℚ) ^ ((format.fraction : ℤ) + (format.least + format.step value)) := by
      rw [zpow_add₀ two,place]
      norm_cast
    _ = (2 : ℚ) ^ Int.log 2 value := by
      congr 1
      unfold step at above ⊢
      omega
    _ ≤ value := Int.zpow_log_le_self (by norm_num) positive

theorem roundMagnitude_nonneg (value : ℚ) : 0 ≤ format.roundMagnitude value :=
  mul_nonneg (Nat.cast_nonneg _) (place_pos value).le

theorem roundMagnitude_pos (positive : 0 < value) (above : (2 : ℚ) ^ format.least ≤ value) :
    0 < format.roundMagnitude value := by
  have scaled : (1 : ℕ) ≤ value / format.place value := by
    rcases Nat.eq_zero_or_pos (format.step value) with zero | some_step
    · rw [Nat.cast_one,le_div_iff₀ (place_pos value),one_mul,place,zero,Nat.cast_zero,add_zero]
      exact above
    · exact_mod_cast (one_le_pow₀ (by norm_num : (1 : ℚ) ≤ 2)).trans (le_scaled positive some_step)
  exact mul_pos (Nat.cast_pos.mpr (le_nearestEven scaled)) (place_pos value)

theorem holds_roundMagnitude (some_step : 0 < format.exponents) (nonneg : 0 ≤ value)
    (finite : format.roundMagnitude value < format.limit) : format.Holds (format.roundMagnitude value) := by
  have two : (2 : ℚ) ≠ 0 := by norm_num
  have size := abs_of_nonneg (format.roundMagnitude_nonneg value)
  rcases nonneg.lt_or_eq with positive | rfl
  · have scaled : 0 ≤ value / format.place value := div_nonneg nonneg (place_pos value).le
    have most : nearestEven (value / format.place value) ≤ 2 ^ (format.fraction + 1) :=
      nearestEven_le scaled (by exact_mod_cast scaled_lt.le)
    rcases most.lt_or_eq with fewer | carried
    · refine ⟨_,format.step value,fewer,?_,size⟩
      rcases Nat.eq_zero_or_pos (format.step value) with zero | above
      · rwa [zero]
      · have full : 2 ^ format.fraction ≤ nearestEven (value / format.place value) :=
          le_nearestEven (by exact_mod_cast le_scaled positive above)
        have low : (2 : ℚ) ^ ((format.fraction : ℤ) + (format.least + format.step value)) ≤
            format.roundMagnitude value := by
          rw [zpow_add₀ two,roundMagnitude,place]
          apply mul_le_mul_of_nonneg_right _ (place_pos value).le
          exact_mod_cast full
        have less := (zpow_lt_zpow_iff_right₀ (by norm_num : (1 : ℚ) < 2)).mp (low.trans_lt finite)
        omega
    · -- the carry makes the next power of two
      have next : format.roundMagnitude value = (2 ^ format.fraction : ℕ) * (2 :
          ℚ) ^ (format.least + (format.step value + 1 : ℕ)) := by
        rw [roundMagnitude,carried,place]
        push_cast
        rw [← add_assoc,zpow_add_one₀ two,pow_succ]
        ring
      have power : format.roundMagnitude value =
          (2 : ℚ) ^ ((format.fraction : ℤ) + (format.least + (format.step value + 1 : ℕ))) := by
        rw [next,zpow_add₀ two (format.fraction : ℤ),zpow_natCast]
        push_cast
        rfl
      refine ⟨2 ^ format.fraction,format.step value + 1,Nat.pow_lt_pow_right (by decide)
        (Nat.lt_succ_self _),?_,size.trans next⟩
      rw [power] at finite
      have less := (zpow_lt_zpow_iff_right₀ (by norm_num : (1 : ℚ) < 2)).mp finite
      omega
  · have zero : format.roundMagnitude 0 = 0 := by
      have none : nearestEven 0 = 0 := by exact_mod_cast nearestEven_natCast 0
      rw [roundMagnitude,zero_div,none,Nat.cast_zero,zero_mul]
    rw [zero]
    exact holds_zero some_step

theorem Holds.neg (holds : format.Holds value) : format.Holds (-value) := by
  obtain ⟨mantissa,step,bound,finite,same⟩ := holds
  exact ⟨mantissa,step,bound,finite,(abs_neg value).trans same⟩

theorem holds_abs : format.Holds |value| ↔ format.Holds value := by
  unfold Holds
  rw [abs_abs]

theorem holds_round {rounded : ℚ} (some_step : 0 < format.exponents) (same : format.round value = some rounded) :
    format.Holds rounded := by
  unfold round at same
  split at same
  next finite =>
    cases same
    have holds := holds_roundMagnitude some_step (abs_nonneg value) finite
    split
    · exact holds.neg
    · exact holds
  · cases same

theorem roundMagnitude_of_holds (positive : 0 < value) (holds : format.Holds value) :
    format.roundMagnitude value = value ∧ value < format.limit := by
  have two : (2 : ℚ) ≠ 0 := by norm_num
  obtain ⟨bound,finite,_,same⟩ := parts_of positive holds
  have scaled : value / format.place value = format.mantissa value := by
    rw [div_eq_iff (place_pos value).ne']
    exact same
  refine ⟨?_,?_⟩
  · rw [roundMagnitude,scaled,nearestEven_natCast]
    exact same.symm
  · calc
      value < 2 ^ (format.fraction + 1) * format.place value := (div_lt_iff₀ (place_pos value)).mp scaled_lt
      _ = (2 : ℚ) ^ ((format.fraction : ℤ) + 1 + (format.least + format.step value)) := by
        rw [zpow_add₀ two,place]
        norm_cast
      _ ≤ format.limit := zpow_le_zpow_right₀ (by norm_num) (by omega)

theorem round_of_holds (holds : format.Holds value) : format.round value = some value := by
  rcases (abs_nonneg value).lt_or_eq with positive | zero
  · obtain ⟨same,below⟩ := roundMagnitude_of_holds positive (holds_abs.mpr holds)
    rw [round,same,if_pos below]
    split
    next negative => rw [abs_of_neg negative,neg_neg]
    next positive => rw [abs_of_nonneg (not_lt.mp positive)]
  · obtain rfl : value = 0 := abs_eq_zero.mp zero.symm
    have none : format.roundMagnitude 0 = 0 := by
      have zero : nearestEven 0 = 0 := by exact_mod_cast nearestEven_natCast 0
      rw [roundMagnitude,zero_div,zero,Nat.cast_zero,zero_mul]
    have below : (0 : ℚ) < format.limit := zpow_pos (by norm_num) _
    rw [round,abs_zero,none,if_pos below,if_neg (lt_irrefl 0)]

theorem nearest_of_holds (holds : format.Holds value) : format.nearest value = value := by
  have rounds := round_of_holds holds
  unfold round at rounds
  split at rounds
  · exact Option.some.inj rounds
  · cases rounds

theorem nearest_pos (positive : 0 < value) (above : (2 : ℚ) ^ format.least ≤ value) : 0 < format.nearest value := by
  rw [nearest,if_neg positive.not_gt,abs_of_pos positive]
  exact roundMagnitude_pos positive above

theorem magnitude_lt (wide : 2 ≤ format.exponent) (holds : format.Holds value) :
    format.magnitude |value| / 2 ^ format.fraction < 2 ^ format.exponent - 1 := by
  have four : 2 ^ 2 ≤ 2 ^ format.exponent := Nat.pow_le_pow_right (by decide) wide
  rw [Nat.div_lt_iff_lt_mul (by positivity)]
  unfold magnitude
  split
  · exact Nat.mul_pos (by omega) (by positivity)
  next nonzero =>
    have positive : 0 < |value| := lt_of_le_of_ne (abs_nonneg value) (Ne.symm nonzero)
    obtain ⟨bound,finite,_,_⟩ := parts_of positive (holds_abs.mpr holds)
    unfold exponents at finite
    calc
      format.step |value| * 2 ^ format.fraction + format.mantissa |value| <
          format.step |value| * 2 ^ format.fraction + 2 ^ (format.fraction + 1) := by omega
      _ = (format.step |value| + 2) * 2 ^ format.fraction := by ring
      _ ≤ (2 ^ format.exponent - 1) * 2 ^ format.fraction := Nat.mul_le_mul_right _ (by omega)

theorem readFinite_word (wide : 2 ≤ format.exponent) (holds : format.Holds value) :
    format.readFinite (format.word value) = some value := by
  have below := magnitude_lt wide holds
  have field : format.word value / 2 ^ format.fraction % 2 ^ format.exponent =
      format.magnitude |value| / 2 ^ format.fraction := by
    have positive : 0 < 2 ^ format.fraction := by positivity
    have small := below.trans_le (Nat.sub_le _ 1)
    unfold word
    split
    · rw [pow_add,Nat.mul_comm,Nat.add_comm,Nat.add_mul_div_right _ _ positive,Nat.add_mod_right,Nat.mod_eq_of_lt small]
    · rw [Nat.zero_add,Nat.mod_eq_of_lt small]
  rw [readFinite,if_neg (by omega),(readWord_word wide holds).2]

theorem holds_places {mantissa places : ℕ} (bound : mantissa < 2 ^ 53) (finite : places + 52 < 1024) :
    double.Holds (mantissa * 2 ^ places : ℕ) := by
  have exponent : double.least + (1074 + places : ℕ) = places := by
    simp only [least,double]
    omega
  have exponents : double.exponents = 2046 := rfl
  have fraction : double.fraction = 52 := rfl
  refine ⟨mantissa,1074 + places,?_,?_,?_⟩
  · rw [fraction]
    exact bound
  · rw [exponents]
    omega
  · rw [exponent,zpow_natCast,abs_of_nonneg (by positivity)]
    push_cast
    rfl

theorem holds_whole (low : format.least ≤ 0) (range : format.least.natAbs < format.exponents) {value : ℕ}
    (small : value < 2 ^ (format.fraction + 1)) : format.Holds value := by
  have one : format.least + format.least.natAbs = 0 := by omega
  exact ⟨value,_,small,range,by rw [one,zpow_zero,mul_one,Nat.abs_cast]⟩

theorem holds_natCast {value : ℕ} (small : value < 2 ^ 53) : double.Holds value := holds_whole (by decide)
    (by decide) small

end Format
end NodejsPool.Wire
