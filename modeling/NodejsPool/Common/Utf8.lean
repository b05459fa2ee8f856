import Mathlib.Data.List.Basic
import Mathlib.Tactic.IntervalCases

/-! A UTF-8 decoder that is given its bytes in pieces: what is not yet a character waits for the next. -/
namespace NodejsPool.Utf8

structure Decoder where
  codePoint : ℕ
  bytesNeeded : ℕ
  lower : ℕ
  upper : ℕ

def idle : Decoder := ⟨0,0,0x80,0xBF⟩

def replacement : Char := Char.ofNat 0xFFFD

def lead (byte : ℕ) : List Char × Decoder :=
  if byte ≤ 0x7F then ([Char.ofNat byte],idle)
  else if 0xC2 ≤ byte ∧ byte ≤ 0xDF then ([],⟨byte % 32,1,0x80,0xBF⟩)
  else if 0xE0 ≤ byte ∧ byte ≤ 0xEF then
    ([],⟨byte % 16,2,if byte = 0xE0 then 0xA0 else 0x80,if byte = 0xED then 0x9F else 0xBF⟩)
  else if 0xF0 ≤ byte ∧ byte ≤ 0xF4 then
    ([],⟨byte % 8,3,if byte = 0xF0 then 0x90 else 0x80,if byte = 0xF4 then 0x8F else 0xBF⟩)
  else ([replacement],idle)

def push (decoder : Decoder) (byte : ℕ) : List Char × Decoder :=
  if decoder.bytesNeeded = 0 then lead byte
  else if decoder.lower ≤ byte ∧ byte ≤ decoder.upper then
    let codePoint := decoder.codePoint * 64 + byte % 64
    if decoder.bytesNeeded = 1 then ([Char.ofNat codePoint],idle)
    else ([],⟨codePoint,decoder.bytesNeeded - 1,0x80,0xBF⟩)
  else (replacement::(lead byte).1,(lead byte).2)

def write (decoder : Decoder) : List UInt8 → List Char × Decoder
  | [] => ([],decoder)
  | byte::bytes =>
    let pushed := push decoder byte.toNat
    let rest := write pushed.2 bytes
    (pushed.1 ++ rest.1,rest.2)

def encode (text : List Char) : List UInt8 := text.flatMap String.utf8EncodeChar

theorem write_append (decoder : Decoder) (front back : List UInt8) : write decoder (front ++ back) =
      ((write decoder front).1 ++ (write (write decoder front).2 back).1,(write (write decoder front).2 back).2) := by
  induction front generalizing decoder with
  | nil => rfl
  | cons byte front ih => simp only [List.cons_append,write,ih,List.append_assoc]

section Characters

variable {decoder : Decoder} {byte : ℕ}

theorem write_cons (small : byte < 256) (bytes : List UInt8) : write decoder (UInt8.ofNat byte::bytes) =
    ((push decoder byte).1 ++ (write (push decoder byte).2 bytes).1,(write (push decoder byte).2 bytes).2) := by
  have same : (UInt8.ofNat byte).toNat = byte := by
    rw [UInt8.toNat_ofNat']
    exact Nat.mod_eq_of_lt small
  rw [write,same]

theorem push_next (needs : 1 < decoder.bytesNeeded) (within : decoder.lower ≤ byte ∧ byte ≤ decoder.upper) :
    push decoder byte = ([],⟨decoder.codePoint * 64 + byte % 64,decoder.bytesNeeded - 1,0x80,0xBF⟩) := by
  rw [push,if_neg (by omega),if_pos within]
  exact if_neg (by omega)

theorem push_last (needs : decoder.bytesNeeded = 1) (within : decoder.lower ≤ byte ∧ byte ≤ decoder.upper) :
    push decoder byte = ([Char.ofNat (decoder.codePoint * 64 + byte % 64)],idle) := by
  rw [push,if_neg (by omega),if_pos within]
  exact if_pos needs

theorem push_idle (byte : ℕ) : push idle byte = lead byte := if_pos rfl

theorem lead_two (within : 0xC2 ≤ byte ∧ byte ≤ 0xDF) : push idle byte = ([],⟨byte % 32,1,0x80,0xBF⟩) := by
  rw [push_idle,lead,if_neg (by omega),if_pos within]

theorem lead_three (within : 0xE0 ≤ byte ∧ byte ≤ 0xEF) : push idle byte =
    ([],⟨byte % 16,2,if byte = 0xE0 then 0xA0 else 0x80,if byte = 0xED then 0x9F else 0xBF⟩) := by
  rw [push_idle,lead,if_neg (by omega),if_neg (by omega),if_pos within]

theorem lead_four (within : 0xF0 ≤ byte ∧ byte ≤ 0xF4) : push idle byte =
    ([],⟨byte % 8,3,if byte = 0xF0 then 0x90 else 0x80,if byte = 0xF4 then 0x8F else 0xBF⟩) := by
  rw [push_idle,lead,if_neg (by omega),if_neg (by omega),if_neg (by omega),if_pos within]

theorem write_char (char : Char) : write idle (String.utf8EncodeChar char) = ([char],idle) := by
  have valid : char.val.toNat < 0xD800 ∨ 0xDFFF < char.val.toNat ∧ char.val.toNat < 0x110000 := char.valid
  have back : Char.ofNat char.val.toNat = char := Char.ofNat_toNat char
  rw [String.utf8EncodeChar]
  generalize char.val.toNat = code at valid back
  by_cases one : code ≤ 0x7F
  · rw [if_pos one,write_cons (by omega),push_idle,lead,if_pos one,back]
    rfl
  by_cases two : code ≤ 0x7FF
  · rw [if_neg one,if_pos two,write_cons (by omega),lead_two (by omega),write_cons (by omega),
      push_last rfl ⟨by dsimp only; omega,by dsimp only; omega⟩]
    dsimp only
    rw [show (code / 64 % 32 + 192) % 32 * 64 + (code % 64 + 128) % 64 = code by omega,back]
    rfl
  by_cases three : code ≤ 0xFFFF
  · rw [if_neg one,if_neg two,if_pos three,write_cons (by omega),lead_three (by omega),write_cons (by omega),
      push_next (by decide : 1 < 2) ⟨by dsimp only; split <;> omega,by dsimp only; split <;> omega⟩,
      write_cons (by omega),push_last rfl ⟨by dsimp only; omega,by dsimp only; omega⟩]
    dsimp only
    rw [show ((code / 4096 % 16 + 224) % 16 * 64 + (code / 64 % 64 + 128) % 64) * 64 +
      (code % 64 + 128) % 64 = code by omega,back]
    rfl
  · rw [if_neg one,if_neg two,if_neg three,write_cons (by omega),lead_four (by omega),write_cons (by omega),
      push_next (by decide : 1 < 3) ⟨by dsimp only; split <;> omega,by dsimp only; split <;> omega⟩,
      write_cons (by omega),push_next (by decide : 1 < 2) ⟨by dsimp only; omega,by dsimp only; omega⟩,
      write_cons (by omega),push_last rfl ⟨by dsimp only; omega,by dsimp only; omega⟩]
    dsimp only
    rw [show (((code / 262144 % 8 + 240) % 8 * 64 + (code / 4096 % 64 + 128) % 64) * 64 + (code / 64 % 64 + 128) % 64) *
      64 +
      (code % 64 + 128) % 64 = code by omega,back]
    rfl

end Characters

theorem write_encode (text : List Char) : write idle (encode text) = (text,idle) := by
  induction text with
  | nil => rfl
  | cons char text ih =>
    rw [encode,List.flatMap_cons,write_append,write_char,← encode]
    simp only [ih,List.singleton_append]

end NodejsPool.Utf8
