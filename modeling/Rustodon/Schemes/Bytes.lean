import Rustodon.Schemes.Utf8

/-! @scheme bytes | name:Bytes of texts, and delimiters in bytes

    The UTF-8 encoding of a text, in which a byte below 128 stands for a character, and the first
    occurrence of a needle. A delimiter whose first element does not come again in it is found where
    it has been put, as long as it does not occur in what precedes it. -/

namespace Schemes.Bytes
open Schemes.Utf8

abbrev Bytes := List UInt8

def utf8 (s : Text) : Bytes := s.flatMap String.utf8EncodeChar

/-- `str::from_utf8`. -/
def fromUtf8 (bytes : Bytes) : Option Text := bytes.toByteArray.utf8Decode?.map Array.toList

@[simp] theorem utf8_nil : utf8 [] = [] := rfl

@[simp] theorem utf8_cons (c : Char) (s : Text) : utf8 (c :: s) = String.utf8EncodeChar c ++ utf8 s :=
  rfl

@[simp] theorem utf8_append (s t : Text) : utf8 (s ++ t) = utf8 s ++ utf8 t := by
  simp [utf8]

theorem fromUtf8_utf8 (s : Text) : fromUtf8 (utf8 s) = some s := by
  have h := @List.utf8Decode?_utf8Encode s
  rw [List.utf8Encode] at h
  rw [fromUtf8, utf8, h]
  simp

/-- A byte below 128 is a character. -/
theorem mem_utf8EncodeChar {b : UInt8} {c : Char} (h : b ∈ String.utf8EncodeChar c)
    (hb : b.toNat < 128) : c.toNat = b.toNat := by
  have htoNat : c.toNat = c.val.toNat := rfl
  simp only [String.utf8EncodeChar] at h
  split_ifs at h with h₁ h₂ h₃
  · obtain rfl := List.mem_singleton.mp h
    simp only [UInt8.toNat_ofNat']
    omega
  all_goals
    have hlow : ∀ n, b = UInt8.ofNat n → n % 256 < 128 := by
      rintro n rfl
      simpa using hb
    simp only [List.mem_cons, List.not_mem_nil, or_false] at h
  · rcases h with h | h
    all_goals
      have := hlow _ h
      omega
  · rcases h with h | h | h
    all_goals
      have := hlow _ h
      omega
  · rcases h with h | h | h | h
    all_goals
      have := hlow _ h
      omega

theorem mem_utf8 {b : UInt8} {s : Text} (h : b ∈ utf8 s) (hb : b.toNat < 128) :
    ∃ c ∈ s, c.toNat = b.toNat := by
  obtain ⟨c, hc, hmem⟩ := List.mem_flatMap.mp h
  exact ⟨c, hc, mem_utf8EncodeChar hmem hb⟩

theorem not_mem_utf8 {c : Char} {s : Text} (h : c ∉ s) (hc : c.toNat < 128) :
    UInt8.ofNat c.toNat ∉ utf8 s := by
  intro hmem
  have hbyte : (UInt8.ofNat c.toNat).toNat = c.toNat := by simp; omega
  obtain ⟨c', hc', heq⟩ := mem_utf8 hmem (by omega)
  rw [hbyte] at heq
  exact h (Char.toNat_inj.mp heq ▸ hc')

theorem utf8_ascii {c : Char} (h : c.toNat < 128) :
    String.utf8EncodeChar c = [UInt8.ofNat c.toNat] := by
  have htoNat : c.toNat = c.val.toNat := rfl
  rw [String.utf8EncodeChar, if_pos (by omega)]
  rfl

/-! ### Delimiters -/

section Search

universe u

variable {α : Type u} [DecidableEq α]

/-- The index of the first occurrence of a needle. -/
def findBytes : List α → List α → Option ℕ
  | [], needle => if needle = [] then some 0 else none
  | a :: haystack, needle =>
    if needle.isPrefixOf (a :: haystack) then some 0
    else (findBytes haystack needle).map (· + 1)

variable {a : α} {before after needle : List α}

theorem findBytes_here (needle after : List α) : findBytes (needle ++ after) needle = some 0 := by
  cases h : needle ++ after with
  | nil =>
    obtain ⟨rfl, -⟩ := List.append_eq_nil_iff.mp h
    rfl
  | cons a haystack =>
    rw [findBytes, if_pos]
    rw [← h]
    simp

theorem findBytes_next (h : needle.isPrefixOf (a :: after) = false) :
    findBytes (a :: after) needle = (findBytes after needle).map (· + 1) := by
  rw [findBytes, h]
  rfl

/-- What does not have the first element of the needle is skipped. -/
theorem findBytes_skip (h : a ∉ before) :
    findBytes (before ++ after) (a :: needle) =
      (findBytes after (a :: needle)).map (before.length + ·) := by
  induction before with
  | nil => simp
  | cons b before ih =>
    have hne : a ≠ b := fun heq => h (heq ▸ List.mem_cons_self)
    have hnext : (a :: needle).isPrefixOf (b :: (before ++ after)) = false := by
      simp [List.isPrefixOf, hne]
    rw [List.cons_append, findBytes_next hnext, ih fun hmem => h (List.mem_cons_of_mem b hmem),
      Option.map_map]
    congr 1
    funext n
    simp only [Function.comp_apply, List.length_cons]
    omega

/-- A delimiter is found where it is put. -/
theorem findBytes_delimiter (hneedle : a ∉ needle) (h : ¬ (a :: needle) <:+: before) :
    findBytes (before ++ (a :: needle) ++ after) (a :: needle) = some before.length := by
  induction before with
  | nil => exact findBytes_here _ _
  | cons b before ih =>
    have hnext : (a :: needle).isPrefixOf (b :: (before ++ (a :: needle) ++ after)) = false := by
      rw [Bool.eq_false_iff]
      intro hprefix
      have hprefix := List.isPrefixOf_iff_prefix.mp hprefix
      have hbefore : (b :: before) <+: b :: (before ++ (a :: needle) ++ after) :=
        ⟨(a :: needle) ++ after, by simp⟩
      rcases List.prefix_or_prefix_of_prefix hprefix hbefore with hle | hle
      · exact h hle.isInfix
      · -- An occurrence that reaches beyond what precedes would repeat its first element.
        obtain ⟨rest, hrest⟩ := hle
        obtain ⟨tail, htail⟩ := hprefix
        have hcut : rest ++ tail = (a :: needle) ++ after := by
          have happend : (b :: before) ++ (rest ++ tail) =
              (b :: before) ++ ((a :: needle) ++ after) := by
            rw [← List.append_assoc, hrest, htail]
            simp
          exact List.append_cancel_left happend
        cases rest with
        | nil =>
          rw [List.append_nil] at hrest
          exact h (hrest ▸ List.infix_rfl)
        | cons r rest =>
          obtain ⟨rfl, -⟩ := List.cons.inj hcut
          obtain ⟨-, hneedle'⟩ := List.cons.inj hrest
          exact hneedle (hneedle' ▸ List.mem_append_right before List.mem_cons_self)
    rw [List.cons_append, List.cons_append, findBytes_next hnext,
      ih fun hocc => h (hocc.trans (List.suffix_cons b before).isInfix)]
    rfl

end Search

end Schemes.Bytes
