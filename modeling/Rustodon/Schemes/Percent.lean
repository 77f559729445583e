import Rustodon.Schemes.Bytes

/-! @scheme percent encoding | name:Bytes as percent signs and digits

    The bytes that are not plain stand as a percent sign with two hexadecimal digits, and decoding
    gives them back. -/

namespace Schemes.Percent
open Schemes.Bytes

/-- `%`. -/
def percent : UInt8 := 37

def hexDigit (n : ℕ) : UInt8 := UInt8.ofNat (if n < 10 then 48 + n else 55 + n)

def hexValue (b : UInt8) : Option ℕ :=
  if 48 ≤ b.toNat ∧ b.toNat ≤ 57 then some (b.toNat - 48)
  else if 65 ≤ b.toNat ∧ b.toNat ≤ 70 then some (b.toNat - 55)
  else if 97 ≤ b.toNat ∧ b.toNat ≤ 102 then some (b.toNat - 87)
  else none

section Encode

variable (plain : UInt8 → Bool)

def encodeByte (b : UInt8) : Bytes :=
  if plain b then [b] else [percent, hexDigit (b.toNat / 16), hexDigit (b.toNat % 16)]

def encode (bytes : Bytes) : Bytes := bytes.flatMap (encodeByte plain)

end Encode

/-- A percent sign without two digits stands for itself. -/
def decode : Bytes → Bytes
  | b :: high :: low :: rest =>
    if b = percent then
      match hexValue high, hexValue low with
      | some high, some low => UInt8.ofNat (16 * high + low) :: decode rest
      | _, _ => b :: decode (high :: low :: rest)
    else b :: decode (high :: low :: rest)
  | b :: rest => b :: decode rest
  | [] => []

theorem decode_cons {b : UInt8} (h : b ≠ percent) (rest : Bytes) :
    decode (b :: rest) = b :: decode rest := by
  match rest with
  | [] => rfl
  | [_] => rfl
  | _ :: _ :: _ => rw [decode, if_neg h]

theorem hexValue_hexDigit : ∀ {n : ℕ}, n < 16 → hexValue (hexDigit n) = some n := by
  decide

variable {plain : UInt8 → Bool}

theorem decode_encodeByte (hplain : plain percent = false) (b : UInt8) (rest : Bytes) :
    decode (encodeByte plain b ++ rest) = b :: decode rest := by
  have hb := b.toNat_lt
  rw [encodeByte]
  split_ifs with h
  · have hne : b ≠ percent := by
      rintro rfl
      rw [hplain] at h
      cases h
    exact decode_cons hne rest
  · have hhigh : b.toNat / 16 < 16 := by omega
    have hlow : b.toNat % 16 < 16 := by omega
    simp only [List.cons_append, List.nil_append]
    rw [decode, if_pos rfl]
    simp only [hexValue_hexDigit hhigh, hexValue_hexDigit hlow]
    rw [Nat.div_add_mod, UInt8.ofNat_toNat]

theorem decode_encode (hplain : plain percent = false) (bytes : Bytes) :
    decode (encode plain bytes) = bytes := by
  induction bytes with
  | nil => rfl
  | cons b bytes ih => rw [encode, List.flatMap_cons, decode_encodeByte hplain, ← encode, ih]

/-- A byte of an encoding is plain, a percent sign or a digit. -/
theorem mem_encode {bytes : Bytes} {b : UInt8} (h : b ∈ encode plain bytes) :
    plain b = true ∨ b = percent ∨ ∃ n < 16, b = hexDigit n := by
  obtain ⟨b', -, h⟩ := List.mem_flatMap.mp h
  have hb := b'.toNat_lt
  rw [encodeByte] at h
  split_ifs at h with hplain
  · obtain rfl := List.mem_singleton.mp h
    exact .inl hplain
  · simp only [List.mem_cons, List.not_mem_nil, or_false] at h
    rcases h with rfl | rfl | rfl
    · exact .inr (.inl rfl)
    · exact .inr (.inr ⟨_, by omega, rfl⟩)
    · exact .inr (.inr ⟨_, by omega, rfl⟩)

end Schemes.Percent
