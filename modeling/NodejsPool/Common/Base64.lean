import Mathlib.Data.List.Basic

/-! Bytes as base64 text, as a buffer writes and reads it. -/
namespace NodejsPool.Base64

def alphabet : List Char := "ABCDEFGHIJKLMNOPQRSTUVWXYZabcdefghijklmnopqrstuvwxyz0123456789+/".toList

def digit (value : ℕ) : Char := alphabet.getD value 'A'

def encodeBytes : List UInt8 → List Char
  | [] => []
  | [first] => [digit (first.toNat / 4),digit (first.toNat % 4 * 16),'=','=']
  | [first,second] =>
    [digit (first.toNat / 4),digit (first.toNat % 4 * 16 + second.toNat / 16),digit (second.toNat % 16 * 4),'=']
  | first::second::third::rest =>
    digit (first.toNat / 4)::digit (first.toNat % 4 * 16 + second.toNat / 16)::
      digit (second.toNat % 16 * 4 + third.toNat / 64)::digit (third.toNat % 64)::encodeBytes rest

/-- `buffer.toString("base64")`. -/
def encode (bytes : List UInt8) : String := String.ofList (encodeBytes bytes)

/-- What a character stands for, also in the alphabet for URLs. -/
def sextet (char : Char) : Option ℕ :=
  if char = '-' then some 62
  else if char = '_' then some 63
  else if char ∈ alphabet then some (alphabet.idxOf char)
  else none

def sextets (text : List Char) : List ℕ := (text.takeWhile fun char => char ≠ '=').filterMap sextet

def decodeSextets : List ℕ → List UInt8
  | first::second::third::fourth::rest =>
    UInt8.ofNat (first * 4 + second / 16)::UInt8.ofNat (second % 16 * 16 + third / 4)::
      UInt8.ofNat (third % 4 * 64 + fourth)::decodeSextets rest
  | [first,second,third] => [UInt8.ofNat (first * 4 + second / 16),UInt8.ofNat (second % 16 * 16 + third / 4)]
  | [first,second] => [UInt8.ofNat (first * 4 + second / 16)]
  | _ => []

/-- `Buffer.from(text, "base64")`. -/
def decode (text : String) : List UInt8 := decodeSextets (sextets text.toList)

theorem sextet_digit : ∀ value < 64, sextet (digit value) = some value ∧ digit value ≠ '=' := by decide +kernel

theorem sextets_digit {value : ℕ} (small : value < 64) (text : List Char) :
    sextets (digit value::text) = value::sextets text := by
  obtain ⟨same,digits⟩ := sextet_digit value small
  unfold sextets
  rw [List.takeWhile_cons_of_pos (by simpa using digits),List.filterMap_cons_some same]

theorem sextets_padding (text : List Char) : sextets ('='::text) = [] := rfl

theorem ofNat_eq {value : ℕ} (byte : UInt8) (same : value = byte.toNat) : UInt8.ofNat value = byte := by
  rw [same,UInt8.ofNat_toNat]

theorem decode_encode (bytes : List UInt8) : decode (encode bytes) = bytes := by
  rw [decode,encode,String.toList_ofList]
  induction bytes using encodeBytes.induct with
  | case1 => rfl
  | case2 first =>
    have one := first.toNat_lt
    rw [encodeBytes,sextets_digit (by omega),sextets_digit (by omega),sextets_padding,decodeSextets,
      ofNat_eq first (by omega)]
  | case3 first second =>
    have one := first.toNat_lt
    have two := second.toNat_lt
    rw [encodeBytes,sextets_digit (by omega),sextets_digit (by omega),sextets_digit (by omega),sextets_padding,
      decodeSextets,
      ofNat_eq first (by omega),ofNat_eq second (by omega)]
  | case4 first second third rest ih =>
    have one := first.toNat_lt
    have two := second.toNat_lt
    have three := third.toNat_lt
    rw [encodeBytes,sextets_digit (by omega),sextets_digit (by omega),sextets_digit (by omega),sextets_digit (by omega),
      decodeSextets,ih,ofNat_eq first (by omega),ofNat_eq second (by omega),
      ofNat_eq third (by omega)]

section Canonical

def toSextets : List UInt8 → List ℕ
  | [] => []
  | [first] => [first.toNat / 4,first.toNat % 4 * 16]
  | [first,second] => [first.toNat / 4,first.toNat % 4 * 16 + second.toNat / 16,second.toNat % 16 * 4]
  | first::second::third::rest =>
    first.toNat / 4::(first.toNat % 4 * 16 + second.toNat / 16)::(second.toNat % 16 * 4 + third.toNat / 64)::
      (third.toNat % 64)::toSextets rest

def padding (digits : ℕ) : ℕ := (4 - digits % 4) % 4

theorem encodeBytes_eq (bytes : List UInt8) :
    encodeBytes bytes = (toSextets bytes).map digit ++ List.replicate (padding (toSextets bytes).length) '=' := by
  induction bytes using encodeBytes.induct with
  | case1 | case2 first | case3 first second => rfl
  | case4 first second third rest ih =>
    have filled : padding ((toSextets rest).length + 1 + 1 + 1 + 1) = padding (toSextets rest).length := by
      unfold padding
      omega
    simp only [encodeBytes,toSextets,List.map_cons,List.cons_append,List.length_cons,ih,filled]

def Tight : List ℕ → Prop
  | [] => True
  | [_] => False
  | [first,second] => first < 64 ∧ second < 64 ∧ second % 16 = 0
  | [first,second,third] => first < 64 ∧ second < 64 ∧ third < 64 ∧ third % 4 = 0
  | first::second::third::fourth::rest => first < 64 ∧ second < 64 ∧ third < 64 ∧ fourth < 64 ∧ Tight rest

theorem tight_toSextets (bytes : List UInt8) : Tight (toSextets bytes) := by
  induction bytes using encodeBytes.induct with
  | case1 => trivial
  | case2 first =>
    have one := first.toNat_lt
    exact ⟨by omega,by omega,by omega⟩
  | case3 first second =>
    have one := first.toNat_lt
    have two := second.toNat_lt
    exact ⟨by omega,by omega,by omega,by omega⟩
  | case4 first second third rest ih =>
    have one := first.toNat_lt
    have two := second.toNat_lt
    have three := third.toNat_lt
    exact ⟨by omega,by omega,by omega,by omega,ih⟩

theorem toSextets_decodeSextets {digits : List ℕ} (tight : Tight digits) :
    toSextets (decodeSextets digits) = digits := by
  induction digits using Tight.induct with
  | case1 => rfl
  | case2 only => exact tight.elim
  | case3 first second =>
    obtain ⟨one,two,rest⟩ := tight
    simp only [decodeSextets,toSextets,UInt8.toNat_ofNat',List.cons.injEq,and_true]
    omega
  | case4 first second third =>
    obtain ⟨one,two,three,rest⟩ := tight
    simp only [decodeSextets,toSextets,UInt8.toNat_ofNat',List.cons.injEq,and_true]
    omega
  | case5 first second third fourth rest ih =>
    obtain ⟨one,two,three,four,more⟩ := tight
    simp only [decodeSextets,toSextets,UInt8.toNat_ofNat',List.cons.injEq,ih more,and_true]
    omega

theorem tight_iff (digits : List ℕ) : Tight digits ↔ (∀ digit ∈ digits, digit < 64) ∧ digits.length % 4 ≠ 1 ∧
    (digits.length % 4 = 2 → digits.getLast?.getD 0 % 16 = 0) ∧
      (digits.length % 4 = 3 → digits.getLast?.getD 0 % 4 = 0) := by
  induction digits using Tight.induct with
  | case1 | case2 only => simp [Tight]
  | case3 first second | case4 first second third => simp [Tight,and_assoc]
  | case5 first second third fourth rest ih =>
    have last :
        (first::second::third::fourth::rest).getLast?.getD 0 = if rest = [] then fourth else rest.getLast?.getD 0 := by
      cases rest <;> simp
    rw [Tight,ih,last]
    simp only [List.forall_mem_cons,List.length_cons]
    cases rest with
    | nil => simp
    | cons next rest =>
      rw [if_neg (List.cons_ne_nil _ _),
        show ((next::rest).length + 1 + 1 + 1 + 1) % 4 = (next::rest).length % 4 by omega]
      tauto

theorem sextets_digits {digits : List ℕ} (small : ∀ digit ∈ digits, digit < 64) (count : ℕ) :
    sextets (digits.map digit ++ List.replicate count '=') = digits := by
  induction digits with
  | nil => cases count <;> rfl
  | cons first rest ih =>
    obtain ⟨one,more⟩ := List.forall_mem_cons.mp small
    rw [List.map_cons,List.cons_append,sextets_digit one,ih more]

theorem decodeSextets_toSextets (bytes : List UInt8) : decodeSextets (toSextets bytes) = bytes := by
  have back := decode_encode bytes
  rw [decode,encode,String.toList_ofList,encodeBytes_eq,
    sextets_digits ((tight_iff _).mp (tight_toSextets bytes)).1] at back
  exact back

end Canonical

end NodejsPool.Base64
