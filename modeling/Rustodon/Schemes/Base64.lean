import Mathlib.Data.List.Basic
import Mathlib.Tactic.SplitIfs

/-! @scheme base64 | name:Standard Base64

    The standard alphabet with padding. The decoder takes exactly what the encoder writes: padding is
    required, and the bits that padding leaves over are zero. -/

namespace Schemes.Base64

/-- The character of a digit below 64. -/
def encodeDigit (n : ℕ) : Char :=
  if n < 26 then Char.ofNat (65 + n)
  else if n < 52 then Char.ofNat (71 + n)
  else if n < 62 then Char.ofNat (n - 4)
  else if n = 62 then '+' else '/'

def decodeDigit (c : Char) : Option ℕ :=
  if 65 ≤ c.toNat ∧ c.toNat ≤ 90 then some (c.toNat - 65)
  else if 97 ≤ c.toNat ∧ c.toNat ≤ 122 then some (c.toNat - 71)
  else if 48 ≤ c.toNat ∧ c.toNat ≤ 57 then some (c.toNat + 4)
  else if c = '+' then some 62
  else if c = '/' then some 63 else none

/-- Three bytes make four digits; one or two left over are padded. -/
def encode : List UInt8 → List Char
  | [] => []
  | [a] => [encodeDigit (a.toNat / 4), encodeDigit (a.toNat % 4 * 16), '=', '=']
  | [a, b] =>
    [encodeDigit (a.toNat / 4), encodeDigit (a.toNat % 4 * 16 + b.toNat / 16),
      encodeDigit (b.toNat % 16 * 4), '=']
  | a :: b :: c :: rest =>
    encodeDigit (a.toNat / 4) :: encodeDigit (a.toNat % 4 * 16 + b.toNat / 16) ::
      encodeDigit (b.toNat % 16 * 4 + c.toNat / 64) :: encodeDigit (c.toNat % 64) :: encode rest

/-- The alphabet for URLs, without padding. -/
def encodeUrl (bytes : List UInt8) : List Char :=
  ((encode bytes).filter (· != '=')).map fun c => if c = '+' then '-' else if c = '/' then '_' else c

/-- One byte from two digits, whose last four bits are not used. -/
def decodeOne (w x : Char) : Option (List UInt8) := do
  let w ← decodeDigit w
  let x ← decodeDigit x
  if x % 16 = 0 then some [UInt8.ofNat (w * 4 + x / 16)] else none

/-- Two bytes from three digits, whose last two bits are not used. -/
def decodeTwo (w x y : Char) : Option (List UInt8) := do
  let w ← decodeDigit w
  let x ← decodeDigit x
  let y ← decodeDigit y
  if y % 4 = 0 then some [UInt8.ofNat (w * 4 + x / 16), UInt8.ofNat (x % 16 * 16 + y / 4)] else none

def decodeThree (w x y z : Char) : Option (List UInt8) := do
  let w ← decodeDigit w
  let x ← decodeDigit x
  let y ← decodeDigit y
  let z ← decodeDigit z
  some [UInt8.ofNat (w * 4 + x / 16), UInt8.ofNat (x % 16 * 16 + y / 4), UInt8.ofNat (y % 4 * 64 + z)]

def decode : List Char → Option (List UInt8)
  | [] => some []
  | w :: x :: y :: z :: rest =>
    if rest = [] ∧ z = '=' then if y = '=' then decodeOne w x else decodeTwo w x y
    else do
      let bytes ← decodeThree w x y z
      let more ← decode rest
      some (bytes ++ more)
  | _ => none

theorem decode_encodeDigit {n : ℕ} (h : n < 64) : decodeDigit (encodeDigit n) = some n := by
  have hall : ∀ n < 64, decodeDigit (encodeDigit n) = some n := by decide
  exact hall n h

theorem encodeDigit_ne_pad {n : ℕ} (h : n < 64) : encodeDigit n ≠ '=' := by
  have hall : ∀ n < 64, encodeDigit n ≠ '=' := by decide
  exact hall n h

theorem ofNat_eq {n : ℕ} {a : UInt8} (h : n = a.toNat) : UInt8.ofNat n = a := by
  rw [h, UInt8.ofNat_toNat]

/-- CORRECT: what is encoded is decoded. -/
theorem decode_encode : ∀ bytes : List UInt8, decode (encode bytes) = some bytes
  | [] => rfl
  | [a] => by
    have ha := a.toNat_lt
    rw [encode, decode, if_pos ⟨rfl, rfl⟩, if_pos rfl, decodeOne, decode_encodeDigit (by omega),
      decode_encodeDigit (by omega)]
    simp only [Option.bind_eq_bind, Option.bind_some]
    rw [if_pos (by omega), ofNat_eq (a := a) (by omega)]
  | [a, b] => by
    have ha := a.toNat_lt
    have hb := b.toNat_lt
    rw [encode, decode, if_pos ⟨rfl, rfl⟩, if_neg (encodeDigit_ne_pad (by omega)), decodeTwo,
      decode_encodeDigit (by omega), decode_encodeDigit (by omega), decode_encodeDigit (by omega)]
    simp only [Option.bind_eq_bind, Option.bind_some]
    rw [if_pos (by omega), ofNat_eq (a := a) (by omega), ofNat_eq (a := b) (by omega)]
  | a :: b :: c :: rest => by
    have ha := a.toNat_lt
    have hb := b.toNat_lt
    have hc := c.toNat_lt
    rw [encode, decode, if_neg fun h => encodeDigit_ne_pad (by omega) h.2, decodeThree,
      decode_encodeDigit (by omega), decode_encodeDigit (by omega), decode_encodeDigit (by omega),
      decode_encodeDigit (by omega), decode_encode rest]
    simp only [Option.bind_eq_bind, Option.bind_some]
    rw [ofNat_eq (a := a) (by omega), ofNat_eq (a := b) (by omega), ofNat_eq (a := c) (by omega)]
    rfl

/-- The characters of the alphabet, and the padding. -/
def isDigit (c : Char) : Bool := (decodeDigit c).isSome || c == '='

theorem isDigit_encodeDigit {n : ℕ} (h : n < 64) : isDigit (encodeDigit n) = true := by
  rw [isDigit, decode_encodeDigit h]
  rfl

/-- Only digits and padding are written. -/
theorem isDigit_of_mem_encode : ∀ (bytes : List UInt8) {c : Char}, c ∈ encode bytes →
    isDigit c = true
  | [], c, h => by simp [encode] at h
  | [a], c, h => by
    have ha := a.toNat_lt
    simp only [encode, List.mem_cons, List.not_mem_nil, or_false] at h
    rcases h with rfl | rfl | rfl | rfl
    · exact isDigit_encodeDigit (by omega)
    · exact isDigit_encodeDigit (by omega)
    · rfl
    · rfl
  | [a, b], c, h => by
    have ha := a.toNat_lt
    have hb := b.toNat_lt
    simp only [encode, List.mem_cons, List.not_mem_nil, or_false] at h
    rcases h with rfl | rfl | rfl | rfl
    · exact isDigit_encodeDigit (by omega)
    · exact isDigit_encodeDigit (by omega)
    · exact isDigit_encodeDigit (by omega)
    · rfl
  | a :: b :: c' :: rest, c, h => by
    have ha := a.toNat_lt
    have hb := b.toNat_lt
    have hc := c'.toNat_lt
    simp only [encode, List.mem_cons] at h
    rcases h with rfl | rfl | rfl | rfl | h
    · exact isDigit_encodeDigit (by omega)
    · exact isDigit_encodeDigit (by omega)
    · exact isDigit_encodeDigit (by omega)
    · exact isDigit_encodeDigit (by omega)
    · exact isDigit_of_mem_encode rest h

end Schemes.Base64
