import NodejsPool.Pool.ShareAccumulator

/-! The payout split of a login: its text is parsed to percentages of payees, and every share
record of the miner is cut along them. -/
namespace NodejsPool.Pool.PayoutSplits
open Entries ShareAccumulator List

section Text

/-- `text.split(separator)`. -/
def split (separator : Char) (text : String) : List String := (text.toList.splitOn separator).map String.ofList

def isWhitespace (char : Char) : Bool :=
  char.toNat ∈ [0x9,0xa,0xb,0xc,0xd,0x20,0xa0,0x1680,0x2028,0x2029,0x202f,0x205f,0x3000,0xfeff] ||
    (0x2000 ≤ char.toNat && char.toNat ≤ 0x200a)

def isDigit (char : Char) : Bool := '0' ≤ char && char ≤ '9'

def decimal (digits : List Char) : ℕ := digits.foldl (fun value digit => 10 * value + (digit.toNat - '0'.toNat)) 0

inductive Parsed where
  | nan
  | infinite (negative : Bool)
  | finite (value : ℚ)

def exponent : List Char → ℤ
  | [] => 0
  | mark::rest =>
    if mark = 'e' ∨ mark = 'E' then
      match rest with
      | '-' :: digits => -decimal (digits.takeWhile isDigit)
      | '+' :: digits => decimal (digits.takeWhile isDigit)
      | digits => decimal (digits.takeWhile isDigit)
    else 0

def parseUnsigned (text : List Char) : Option ℚ :=
  let whole := text.takeWhile isDigit
  let afterWhole := text.dropWhile isDigit
  let afterPoint :=
    match afterWhole with
    | '.' :: rest => some rest
    | _ => none
  let fraction := afterPoint.elim [] (List.takeWhile isDigit)
  if whole = [] ∧ fraction = [] then none
  else some (decimal (whole ++ fraction) *
    10^(exponent (afterPoint.elim afterWhole (List.dropWhile isDigit)) - fraction.length : ℤ))

/-- `parseFloat(text)`: the longest number the text starts with, read exactly. -/
def parseFloat (text : String) : Parsed :=
  let trimmed := text.toList.dropWhile isWhitespace
  let (negative,unsigned) :=
    match trimmed with
    | '-' :: rest => (true,rest)
    | '+' :: rest => (false,rest)
    | _ => (false,trimmed)
  if "Infinity".toList.isPrefixOf unsigned then .infinite negative
  else
    match parseUnsigned unsigned with
    | none => .nan
    | some value => .finite (if negative then -value else value)

def prototypeKeys : List String :=
  ["constructor","__defineGetter__","__defineSetter__","hasOwnProperty","__lookupGetter__","__lookupSetter__",
    "isPrototypeOf","propertyIsEnumerable","toString","valueOf","__proto__","toLocaleString"]

/-- `key in object`. -/
def inObject (key : String) (keys : List String) : Bool := key ∈ keys || key ∈ prototypeKeys

end Text

section Login

/-- What a login is checked against: the ban lists of the worker and the coin's address codec. -/
structure Checks where
  bannedAddresses : List (String × String)
  bannedTmpWallets : List String
  bannedBigTmpWallets : List String
  validatePlainAddress : String → Bool
  validateAddress : String → Bool
  /-- A number in a message. -/
  numberText : Parsed → String
  activeBlockTemplate : Bool

/-- What `rejectMiner` leaves on the miner. -/
structure Rejection where
  error : String
  invalidLogKey : Option String := none
  delay_reply : Option ℕ := none
  workerLimitLogin : Bool := false
  deriving DecidableEq

structure Login where
  payout : String
  address : String
  identifier : String
  deriving DecidableEq

variable (checks : Checks)

def maxKeyLength : ℕ := 255

def trim (text : List Char) : List Char := ((text.dropWhile isWhitespace).reverse.dropWhile isWhitespace).reverse

def normalizeInvalidLogValue (value : String) : Option String :=
  let trimmed := trim value.toList
  if trimmed = [] then none else some (String.ofList (trimmed.take maxKeyLength))

def LOGIN_FORMAT_ERROR : String :=
  "Please use monero_address[(%N%monero_address_95char)+][+difficulty_number] login/user format"

def LEGACY_PAYMENT_ID_ERROR : String :=
  "Legacy Wallet.PaymentID logins are no longer supported. " ++
    "Please use a wallet address, subaddress, or integrated address directly."

def hexMatch (text : String) : Bool :=
  let digits := text.toList
  digits ≠ [] && digits.length % 2 = 0 && digits.all fun char => char ∈ "0123456789abcdef".toList

def validatePayoutAddress (address : String) (requirePlainAddress : Bool) : Except Rejection Unit :=
  let logKey := normalizeInvalidLogValue address
  match get checks.bannedAddresses address with
  | some reason => .error ⟨"Permanently banned payment address " ++ address ++ " provided: " ++ reason,
    logKey,some 30,false⟩
  | none =>
    let isValid := if requirePlainAddress then checks.validatePlainAddress address else checks.validateAddress address
    if !isValid then
      .error ⟨"Invalid payment address provided: " ++ address ++
      ". Please use 95_char_long_monero_wallet_address format",logKey,none,false⟩
    else if inObject address checks.bannedTmpWallets then
      .error ⟨"Temporary (10 minutes max) banned payment address " ++ address,logKey,none,false⟩
    else if inObject address checks.bannedBigTmpWallets then
      .error ⟨"Temporary (one hour max) ban since you connected too many workers. " ++
        "Please use proxy (https://github.com/MoneroOcean/xmrig-proxy)",logKey,some 30,true⟩
    else .ok ()

def validateLoginAndPayout (login : Login) (loginDiffSplit loginDivSplit : List String) (loginBase : String)
    (dottedSuffix : Option String) : Except Rejection Login :=
  match get checks.bannedAddresses login.payout with
  | some reason => .error ⟨"Permanently banned payment address " ++ login.payout ++ " provided: " ++ reason,
      normalizeInvalidLogValue login.payout,some 30,false⟩
  | none =>
    if dottedSuffix.any (fun suffix => suffix.toList.length = 64 && hexMatch suffix) ∧
      checks.validatePlainAddress login.address then
      .error ⟨LEGACY_PAYMENT_ID_ERROR,normalizeInvalidLogValue loginBase,none,false⟩
    else
      let named := match dottedSuffix with
        | some suffix => if login.identifier =
          "x" then { login with identifier := String.ofList (suffix.toList.take 64) } else login
        | none => login
      if 2 < loginDiffSplit.length then .error ⟨LOGIN_FORMAT_ERROR,none,none,false⟩
      else if loginDivSplit.length % 2 = 0 ∨ 5 < loginDivSplit.length then .error ⟨LOGIN_FORMAT_ERROR,none,none,false⟩
      else (validatePayoutAddress checks login.payout false).map fun _ => named

def addDivisions : List String → List (String × ℚ) → ℚ → Except Rejection (List (String × ℚ) × ℚ)
  | percentText::address::rest, payout_div, payoutPercentLeft =>
    let parsed := parseFloat percentText
    let below := "Your payment divide split " ++ checks.numberText parsed ++ " is below 0.1% and can't be processed"
    let above := "Your payment divide split " ++ checks.numberText parsed ++ " is above 99.9% and can't be processed"
    match parsed with
    | .nan => .error ⟨below,none,none,false⟩
    | .infinite negative => .error ⟨if negative then below else above,none,none,false⟩
    | .finite percent =>
      if percent < 1 / 10 then .error ⟨below,none,none,false⟩
      else if 999 / 10 < percent then .error ⟨above,none,none,false⟩
      else if payoutPercentLeft - percent < 1 / 10 then
        .error ⟨"Your summary payment divide split exceeds 99.9% and can't be processed",none,none,false⟩
      else
        match validatePayoutAddress checks address true with
        | .error invalidSplitAddress => .error invalidSplitAddress
        | .ok _ =>
          if inObject address (payout_div.map Prod.fst) then
            .error ⟨"You can't repeat payment split address " ++ address,none,none,false⟩
          else addDivisions rest (put payout_div address percent) (payoutPercentLeft - percent)
  | _, payout_div, payoutPercentLeft => .ok (payout_div,payoutPercentLeft)

def applyPayoutDivisions (login : Login) (loginDivSplit : List String) :
    Except Rejection (Option (List (String × ℚ))) :=
  match addDivisions checks loginDivSplit.tail [] 100 with
  | .error invalid => .error invalid
  | .ok (payout_div,payoutPercentLeft) =>
    if payoutPercentLeft = 100 then .ok none
    else if inObject login.payout (payout_div.map Prod.fst) then
      .error ⟨"You can't repeat payment split address " ++ login.payout,none,none,false⟩
    else .ok (some (put payout_div login.payout payoutPercentLeft))

def validateNewMiner (login : Login) (passSplit loginDiffSplit loginDivSplit : List String) (loginBase : String)
    (dottedSuffix : Option String) : Except Rejection (Login × Option (List (String × ℚ))) :=
  if 3 < passSplit.length then
    .error ⟨"Please use worker_name[:email_or_pass[:monero_address]][~algo_name] password format",none,none,false⟩
  else
    match validateLoginAndPayout checks login loginDiffSplit loginDivSplit loginBase dottedSuffix with
    | .error invalidLogin => .error invalidLogin
    | .ok named =>
      match applyPayoutDivisions checks named loginDivSplit with
      | .error invalidPayoutDivisions => .error invalidPayoutDivisions
      | .ok payout_div =>
        if !checks.activeBlockTemplate then .error ⟨"No active block template",none,none,false⟩
        else .ok (named,payout_div)

/-- The login part of `createMiner`; `identifier` is the name the miner's password or rig gave it. -/
def createMiner (login : String) (passSplit : List String) (identifier : String) :
    Except Rejection (Login × Option (List (String × ℚ))) :=
  let loginDiffSplit := split '+' login
  let loginDivSplit := split '%' (loginDiffSplit.headD "")
  let loginBase := loginDivSplit.headD ""
  let loginDotSplit := split '.' loginBase
  let passwordAddress := passSplit[2]?.filter fun address => address ≠ ""
  let payout := (if passSplit.length = 3 then passwordAddress else none).getD (loginDotSplit.headD "")
  validateNewMiner checks ⟨payout,payout,identifier⟩ passSplit loginDiffSplit loginDivSplit loginBase loginDotSplit[1]?

end Login

section Parsing

variable {checks : Checks} {payout_div : List (String × ℚ)} {loginDivSplit : List String}

structure Divided (payout_div : List (String × ℚ)) (payoutPercentLeft : ℚ) : Prop where
  least : ∀ leg ∈ payout_div, 1 / 10 ≤ leg.2
  most : ∀ leg ∈ payout_div, leg.2 ≤ 999 / 10
  total : (payout_div.map Prod.snd).sum + payoutPercentLeft = 100
  left : 1 / 10 ≤ payoutPercentLeft
  distinct : (payout_div.map Prod.fst).Nodup

theorem absent_of_inObject {key : String} {entries : List (String × ℚ)}
    (fresh : inObject key (entries.map Prod.fst) = false) : get entries key = none := by
  cases found : get entries key with
  | none => rfl
  | some value =>
    have member : key ∈ entries.map Prod.fst := mem_map_of_mem (f := Prod.fst) (mem_of_get found)
    rw [inObject,Bool.or_eq_false_iff] at fresh
    exact absurd member (of_decide_eq_false fresh.1)

theorem Divided.initial : Divided [] 100 where
  least _ member := absurd member not_mem_nil
  most _ member := absurd member not_mem_nil
  total := by norm_num
  left := by norm_num
  distinct := nodup_nil

theorem Divided.put {payoutPercentLeft percent : ℚ} {address : String}
    (divided : Divided payout_div payoutPercentLeft) (least : 1 / 10 ≤ percent) (most : percent ≤ 999 / 10)
    (enough : 1 / 10 ≤ payoutPercentLeft - percent) (fresh : inObject address (payout_div.map Prod.fst) = false) :
    Divided (put payout_div address percent) (payoutPercentLeft - percent) := by
  have absent := absent_of_inObject fresh
  refine ⟨?_,?_,?_,enough,put_distinct divided.distinct⟩
  · intro leg member
    rcases mem_put member with before | rfl
    · exact divided.least leg before
    · exact least
  · intro leg member
    rcases mem_put member with before | rfl
    · exact divided.most leg before
    · exact most
  · rw [put_absent absent,map_append,sum_append,← divided.total]
    simp only [map_cons,map_nil,sum_cons,sum_nil]
    ring

private theorem addDivisions_ok : ∀ (divisions : List String) {payout_div taken : List (String × ℚ)}
    {payoutPercentLeft left : ℚ},
    Divided payout_div payoutPercentLeft → addDivisions checks divisions payout_div payoutPercentLeft =
      .ok (taken,left) →
    Divided taken left
  | [],_,_,_,_,divided,ok => by
    cases ok
    exact divided
  | [_],_,_,_,_,divided,ok => by
    cases ok
    exact divided
  | percentText::address::rest,payout_div,taken,payoutPercentLeft,left,divided,ok => by
    unfold addDivisions at ok
    dsimp only at ok
    split at ok
    · cases ok
    · cases ok
    · next percent parsed =>
      split at ok
      · cases ok
      next least =>
        split at ok
        · cases ok
        next most =>
          split at ok
          · cases ok
          next enough =>
            split at ok
            · cases ok
            · split at ok
              · cases ok
              next fresh =>
                exact addDivisions_ok rest
                  (divided.put (not_lt.mp least) (not_lt.mp most) (not_lt.mp enough) (Bool.eq_false_iff.mpr fresh)) ok

private theorem sum_nonneg_of_least {legs : List (String × ℚ)} (least : ∀ leg ∈ legs, 1 / 10 ≤ leg.2) :
    0 ≤ (legs.map Prod.snd).sum :=
  sum_nonneg fun percent member => by
    obtain ⟨leg,here,rfl⟩ := mem_map.mp member
    exact (by norm_num : (0 : ℚ) ≤ 1 / 10).trans (least leg here)

structure Accepted (login : Login) (payout_div : List (String × ℚ)) : Prop where
  bounds : ∀ leg ∈ payout_div, 1 / 10 ≤ leg.2 ∧ leg.2 ≤ 100
  total : (payout_div.map Prod.snd).sum = 100
  primary : ∃ explicit, payout_div = explicit ++ [(login.payout,100 - (explicit.map Prod.snd).sum)]
  distinct : (payout_div.map Prod.fst).Nodup

private theorem applyPayoutDivisions_ok {login : Login}
    (ok : applyPayoutDivisions checks login loginDivSplit = .ok (some payout_div)) : Accepted login payout_div := by
  unfold applyPayoutDivisions at ok
  split at ok
  · cases ok
  next explicit left divisions =>
    have divided := addDivisions_ok _ Divided.initial divisions
    split at ok
    · cases ok
    split at ok
    · cases ok
    next fresh =>
      have absent := absent_of_inObject (Bool.eq_false_iff.mpr fresh)
      have result : payout_div = explicit ++ [(login.payout,left)] := by
        rw [← put_absent absent]
        exact (Option.some.inj (Except.ok.inj ok)).symm
      have rest : left = 100 - (explicit.map Prod.snd).sum := by linarith [divided.total]
      have used := sum_nonneg_of_least divided.least
      subst result
      refine ⟨?_,?_,⟨explicit,by rw [rest]⟩,?_⟩
      · intro leg member
        rcases mem_append.mp member with given | primary
        · exact ⟨divided.least leg given,by linarith [divided.most leg given]⟩
        · rw [mem_singleton.mp primary]
          exact ⟨divided.left,by linarith⟩
      · rw [map_append,sum_append,← divided.total]
        simp
      · rw [← put_absent absent]
        exact put_distinct divided.distinct

theorem validateNewMiner_ok {login named : Login} {passSplit loginDiffSplit : List String} {loginBase : String}
    {dottedSuffix : Option String}
    (ok : validateNewMiner checks login passSplit loginDiffSplit loginDivSplit loginBase dottedSuffix =
      .ok (named,some payout_div)) :
    Accepted named payout_div := by
  unfold validateNewMiner at ok
  split at ok
  · cases ok
  split at ok
  · cases ok
  split at ok
  · cases ok
  next divisions =>
    split at ok
    · cases ok
    · cases ok
      exact applyPayoutDivisions_ok divisions

end Parsing

section Parts

theorem floor_parts : ∀ parts : List ℚ, ((parts.map fun part => ((⌊part⌋ : ℤ) : ℚ))).sum ≤ parts.sum ∧
    (parts ≠ [] → parts.sum - (parts.map fun part => ((⌊part⌋ : ℤ) : ℚ)).sum < parts.length)
  | [] => by simp
  | part::parts => by
    obtain ⟨atMost,lost⟩ := floor_parts parts
    have down := Int.floor_le part
    have near := Int.lt_floor_add_one part
    simp only [map_cons,sum_cons,length_cons,Nat.cast_succ]
    refine ⟨by linarith,fun _ => ?_⟩
    rcases parts with _ | ⟨next,rest⟩
    · simp only [map_nil,sum_nil,length_nil,Nat.cast_zero]
      linarith
    · linarith [lost (cons_ne_nil _ _)]

variable {payout_div : List (String × ℚ)} {miner : Miner}

private theorem storeShareDiv_parts (settings : Settings) (worker : ShareWorker) (workerName : String) (btPort : ℕ)
    (trusted : Bool) (divided : miner.payout_div = some (payout_div.map fun leg => (leg.1,some leg.2))) :
    (storeShareDiv settings miner worker workerName btPort trusted).map ShareRecord.shares2 =
        (payout_div.map fun leg => worker.acc2 * leg.2 / 100).map (fun part => ((⌊part⌋ : ℤ) : ℚ)) ∧
      (storeShareDiv settings miner worker workerName btPort trusted).map ShareRecord.raw_shares =
        payout_div.map fun leg => worker.raw_acc * leg.2 / 100 := by
  unfold storeShareDiv
  rw [divided]
  dsimp only
  induction payout_div with
  | nil => exact ⟨rfl,rfl⟩
  | cons leg legs ih => simp_all

theorem sum_parts (weight : ℚ) (legs : List (String × ℚ)) :
    (legs.map fun leg => weight * leg.2 / 100).sum = weight * (legs.map Prod.snd).sum / 100 := by
  induction legs with
  | nil => simp
  | cons leg legs ih =>
    simp only [map_cons,sum_cons,ih]
    ring

end Parts

/-- A split login's legs are in order, and every weight it stores is cut to parts that lose less than a unit each. -/
theorem split_arithmetic (checks : Checks) {login : String} {passSplit : List String}
    {identifier : String} {named : Login}
    {payout_div : List (String × ℚ)} (accepted : createMiner checks login passSplit identifier =
      .ok (named,some payout_div)) :
    Accepted named payout_div ∧
      ∀ (settings : Settings) (miner : Miner) (worker : ShareWorker) (workerName : String) (btPort : ℕ)
      (trusted : Bool),miner.payout_div = some (payout_div.map fun leg => (leg.1,some leg.2)) →
        let stored := storeShareDiv settings miner worker workerName btPort trusted
        stored.length = payout_div.length ∧
        (stored.map ShareRecord.shares2).sum ≤ worker.acc2 ∧
        worker.acc2 - (stored.map ShareRecord.shares2).sum < payout_div.length ∧
        (stored.map ShareRecord.raw_shares).sum = worker.raw_acc := by
  have split := validateNewMiner_ok accepted
  refine ⟨split,?_⟩
  intro settings miner worker workerName btPort trusted divided stored
  obtain ⟨parts,raw⟩ := storeShareDiv_parts settings worker workerName btPort trusted divided
  have nonempty : payout_div ≠ [] := by
    obtain ⟨explicit,shape⟩ := split.primary
    rw [shape]
    exact List.append_ne_nil_of_right_ne_nil _ (List.cons_ne_nil _ _)
  have whole : (payout_div.map fun leg => worker.acc2 * leg.2 / 100).sum = worker.acc2 := by
    rw [sum_parts,split.total]
    ring
  obtain ⟨atMost,lost⟩ := floor_parts (payout_div.map fun leg => worker.acc2 * leg.2 / 100)
  rw [whole,← parts] at atMost lost
  refine ⟨?_,atMost,?_,?_⟩
  · simpa using congrArg List.length raw
  · simpa using lost (by simpa using nonempty)
  · rw [raw,sum_parts,split.total]
    ring

def sampleChecks : Checks where
  bannedAddresses := []
  bannedTmpWallets := []
  bannedBigTmpWallets := []
  validatePlainAddress address := address.length = 1
  validateAddress address := address.length = 1
  numberText _ := ""
  activeBlockTemplate := true

def sampleMiner : Miner := ⟨0,"P",none,"","w","P",none,.PPLNS,some [("A",some (21 / 2)),("P",some (179 / 2))]⟩

theorem split_arithmetic_sample : (∃ named, createMiner sampleChecks "P%10.5%A+5000" ["w"] "w" =
      .ok (named,some [("A",21 / 2),("P",179 / 2)])) ∧
    ∀ (settings : Settings) (worker : ShareWorker),
      worker.acc2 - ((storeShareDiv settings sampleMiner worker "w" 18081 true).map ShareRecord.shares2).sum < 2 := by
  have accepted : createMiner sampleChecks "P%10.5%A+5000" ["w"] "w" =
      .ok (⟨"P","P","w"⟩,some [("A",21 / 2),("P",179 / 2)]) := by decide +kernel
  refine ⟨⟨_,accepted⟩,fun settings worker => ?_⟩
  obtain ⟨-,parts⟩ := split_arithmetic sampleChecks accepted
  exact (parts settings sampleMiner worker "w" 18081 true rfl).2.2.1

end NodejsPool.Pool.PayoutSplits
