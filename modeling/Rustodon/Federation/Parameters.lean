import Mathlib.Algebra.Group.Nat.Defs
import Mathlib.Data.List.TakeWhile
import Rustodon.Schemes.Segments
import Rustodon.Web.RackRoundTrip

/-! @src web.rs, web/federation.rs | name:Parameters of federation requests | scheme:numbers |
    family:federation

    The parameters of a query and the numbers in them, which are read as they were written. -/

namespace Rustodon.Federation
open Schemes.Percent Schemes.Segments Schemes.Utf8 Web

/-! ### Numbers -/

/-- `trim_ascii_start`. -/
def trimAsciiStart (value : Text) : Text :=
  value.dropWhile fun c => [' ', '\t', '\n', '\r', '\x0b', '\x0c'].contains c

/-- A checked operation on an `i64`. -/
def checkedI64 (value : ℤ) : Option ℤ :=
  if -2 ^ 63 ≤ value ∧ value < 2 ^ 63 then some value else none

/-- The loop over the digits of `parse_path_id`. -/
def pathDigits (negative : Bool) : ℤ → Text → Option ℤ
  | value, [] => some value
  | value, digit :: digits => do
    let scaled ← checkedI64 (value * 10)
    let place : ℤ := ((digit.toNat - '0'.toNat : ℕ) : ℤ)
    pathDigits negative (← checkedI64 (if negative then scaled - place else scaled + place)) digits

/-- The sign of a number, and what follows it. -/
def pathSign : Text → Bool × Text
  | '-' :: digits => (true, digits)
  | '+' :: digits => (false, digits)
  | digits => (false, digits)

/-- `parse_path_id(value, false)`. -/
def routePathId (value : Text) : Option ℤ :=
  let (negative, digits) := pathSign (trimAsciiStart value)
  let digits := digits.takeWhile Char.isDigit
  if digits.isEmpty then none else pathDigits negative 0 digits

/-- `activitypub_truthy`. -/
def activitypubTruthy (value : Text) : Bool :=
  !value.isEmpty && !(["0", "f", "F", "false", "FALSE", "off", "OFF"].contains (String.ofList value))

/-! ### Queries -/

/-- `Query<HashMap<String, String>>`: of pairs with one name the last counts. -/
def queryParameters (query : Text) : List (Text × Text) :=
  (query.splitOn '&').filterMap standardForm.parse

def parameter (parameters : List (Text × Text)) (name : String) : Option Text :=
  parameters.reverse.lookup name.toList

/-- `format!("{name}={value}")`. -/
def writtenPair (pair : Text × Text) : Text := pair.1 ++ '=' :: pair.2

/-- `query.join("&")`. -/
def writtenQuery (pairs : List (Text × Text)) : Text := ['&'].intercalate (pairs.map writtenPair)

/-! ### Numbers that are written -/

theorem checkedI64_eq {value : ℤ} (h : -2 ^ 63 ≤ value ∧ value < 2 ^ 63) : checkedI64 value = some value :=
  if_pos h

theorem le_ofDigitChars (digits : Text) (value : ℕ) : value ≤ Nat.ofDigitChars 10 digits value := by
  induction digits generalizing value with
  | nil => rw [Nat.ofDigitChars_nil]
  | cons digit digits ih =>
    rw [Nat.ofDigitChars_cons]
    exact le_trans (by omega) (ih _)

/-- One digit of the loop. -/
theorem pathDigits_cons {negative : Bool} {value next : ℤ} {digit : Char} (digits : Text)
    (hscaled : -2 ^ 63 ≤ value * 10 ∧ value * 10 < 2 ^ 63)
    (hnext : next = if negative then value * 10 - ((digit.toNat - '0'.toNat : ℕ) : ℤ)
      else value * 10 + ((digit.toNat - '0'.toNat : ℕ) : ℤ))
    (hrange : -2 ^ 63 ≤ next ∧ next < 2 ^ 63) :
    pathDigits negative value (digit :: digits) = pathDigits negative next digits := by
  rw [pathDigits, checkedI64_eq hscaled]
  simp only [Option.bind_eq_bind, Option.bind_some]
  rw [← hnext, checkedI64_eq hrange, Option.bind_some]

/-- The digits of a number in range are read up to its last. -/
theorem pathDigits_eq {negative : Bool} {digits : Text} {value : ℕ}
    (h : Nat.ofDigitChars 10 digits value < 2 ^ 63 + negative.toNat) :
    pathDigits negative (if negative then -(value : ℤ) else value) digits =
      some (if negative then -((Nat.ofDigitChars 10 digits value : ℕ) : ℤ)
        else (Nat.ofDigitChars 10 digits value : ℕ)) := by
  induction digits generalizing value with
  | nil => rw [pathDigits, Nat.ofDigitChars_nil]
  | cons digit digits ih =>
    rw [Nat.ofDigitChars_cons] at h ⊢
    have hle := le_ofDigitChars digits (10 * value + (digit.toNat - '0'.toNat))
    rw [← ih h]
    cases negative
    · change _ < 2 ^ 63 + 0 at h
      refine pathDigits_cons digits ?_ ?_ ?_ <;> simp only [Bool.false_eq_true, if_false] <;> omega
    · change _ < 2 ^ 63 + 1 at h
      refine pathDigits_cons digits ?_ ?_ ?_ <;> simp only [if_true] <;> omega

theorem isDigit_of_mem_toDigits {n : ℕ} {c : Char} (h : c ∈ Nat.toDigits 10 n) : c.isDigit = true :=
  Nat.isDigit_of_mem_toDigits (by decide) (by decide) h

/-- A number is read as it is written. -/
theorem routePathId_toString {id : ℤ} (h : -2 ^ 63 ≤ id ∧ id < 2 ^ 63) :
    routePathId (toString id).toList = some id := by
  have htake (n : ℕ) : (Nat.toDigits 10 n).takeWhile Char.isDigit = Nat.toDigits 10 n :=
    List.takeWhile_eq_self_iff.mpr fun c hc => isDigit_of_mem_toDigits hc
  have hnonempty (n : ℕ) : (Nat.toDigits 10 n).isEmpty = false := by
    rw [List.isEmpty_eq_false_iff]
    exact Nat.toDigits_ne_nil
  rcases toString_cases id with ⟨n, rfl, hn⟩ | ⟨n, rfl, hn⟩
  · rw [hn, toList_repr]
    obtain ⟨c, rest, hdigits⟩ := List.exists_cons_of_ne_nil (@Nat.toDigits_ne_nil n 10)
    have hmem : c ∈ Nat.toDigits 10 n := by
      rw [hdigits]
      exact List.mem_cons_self
    have hc : c.isDigit = true := isDigit_of_mem_toDigits hmem
    have htrim : trimAsciiStart (c :: rest) = c :: rest := by
      rw [trimAsciiStart, List.dropWhile_cons_of_neg]
      intro hblank
      simp only [List.contains_eq_mem, List.mem_cons, List.not_mem_nil, or_false, decide_eq_true_eq] at hblank
      rcases hblank with rfl | rfl | rfl | rfl | rfl | rfl <;> exact absurd hc (by decide)
    have hminus : c ≠ '-' := by rintro rfl; exact absurd hc (by decide)
    have hplus : c ≠ '+' := by rintro rfl; exact absurd hc (by decide)
    have hsign : pathSign (c :: rest) = (false, c :: rest) := by
      rw [pathSign]
      · rintro digits heq
        exact hminus (List.cons.inj heq).1
      · rintro digits heq
        exact hplus (List.cons.inj heq).1
    have hread := @pathDigits_eq false (Nat.toDigits 10 n) 0
    rw [Nat.ofDigitChars_ten_toDigits] at hread
    rw [hdigits, routePathId, htrim, hsign, ← hdigits]
    simp only
    rw [htake, hnonempty, if_neg Bool.false_ne_true]
    exact hread (by omega)
  · have htrim : trimAsciiStart ('-' :: (n + 1).repr.toList) = '-' :: (n + 1).repr.toList := rfl
    have hread := @pathDigits_eq true (Nat.toDigits 10 (n + 1)) 0
    rw [Nat.ofDigitChars_ten_toDigits] at hread
    rw [hn, routePathId, htrim, pathSign]
    simp only
    rw [toList_repr, htake, hnonempty, if_neg Bool.false_ne_true]
    exact hread (by change _ < 2 ^ 63 + 1; omega)

/-! ### Queries that are written -/

/-- A text that is written as it is in a query. -/
def IsPlain (text : Text) : Prop := formSerialize text = text

theorem formSerialize_cons (c : Char) (text : Text) :
    formSerialize (c :: text) = formSerialize [c] ++ formSerialize text := by
  simp [formSerialize, encode]

theorem exists_digitChar {c : Char} (h : c.isDigit = true) : ∃ n < 10, Nat.digitChar n = c := by
  simp only [Char.isDigit, Bool.and_eq_true, decide_eq_true_iff] at h
  have hlow : 48 ≤ c.toNat := UInt32.le_iff_toNat_le.mp h.1
  have hhigh : c.toNat ≤ 57 := UInt32.le_iff_toNat_le.mp h.2
  have hchar : ∀ n < 10, Nat.digitChar n = Char.ofNat (48 + n) := by decide
  refine ⟨c.toNat - 48, by omega, ?_⟩
  rw [hchar _ (by omega), Nat.add_sub_cancel' hlow, Char.ofNat_toNat]

theorem isPlain_of_digits {text : Text} (h : ∀ c ∈ text, c.isDigit = true) : IsPlain text := by
  induction text with
  | nil => rfl
  | cons c text ih =>
    have hdigit : ∀ n < 10, formSerialize [Nat.digitChar n] = [Nat.digitChar n] := by decide
    obtain ⟨n, hn, rfl⟩ := exists_digitChar (h c List.mem_cons_self)
    rw [IsPlain, formSerialize_cons, hdigit n hn, ih fun c hc => h c (List.mem_cons_of_mem _ hc)]
    rfl

theorem isPlain_toString (id : ℤ) : IsPlain (toString id).toList := by
  rcases toString_cases id with ⟨n, -, hn⟩ | ⟨n, -, hn⟩
  · rw [hn]
    exact isPlain_of_digits fun c hc => isDigit_of_mem_repr hc
  · have hdigits : IsPlain (n + 1).repr.toList := isPlain_of_digits fun c hc => isDigit_of_mem_repr hc
    rw [hn, IsPlain, formSerialize_cons, hdigits]
    rfl

theorem parse_writtenPair {pair : Text × Text} (h : IsPlain pair.1 ∧ IsPlain pair.2) :
    standardForm.parse (writtenPair pair) = some pair := by
  have hparse := standardForm_lawful.parse_pair pair.1 pair.2
  rw [show standardForm.serialize pair.1 = pair.1 from h.1,
    show standardForm.serialize pair.2 = pair.2 from h.2] at hparse
  exact hparse

/-- The pairs of a query are read as they are written. -/
theorem queryParameters_writtenQuery {pairs : List (Text × Text)} (hne : pairs ≠ [])
    (h : ∀ pair ∈ pairs, IsPlain pair.1 ∧ IsPlain pair.2) :
    queryParameters (writtenQuery pairs) = pairs := by
  have hseparator : ∀ piece ∈ pairs.map writtenPair, '&' ∉ piece := by
    intro piece hpiece
    obtain ⟨pair, hpair, rfl⟩ := List.mem_map.mp hpiece
    obtain ⟨hname, hvalue⟩ := h pair hpair
    have hnot {text : Text} (hplain : IsPlain text) : '&' ∉ text := by
      rw [← hplain]
      exact standardForm_lawful.serialize_plain text
    simpa [writtenPair] using ⟨hnot hname, hnot hvalue⟩
  rw [queryParameters, writtenQuery, List.splitOn_intercalate '&' hseparator (by simpa using hne),
    List.filterMap_map]
  have hread : ∀ pair ∈ pairs, (standardForm.parse ∘ writtenPair) pair = some pair :=
    fun pair hpair => parse_writtenPair (h pair hpair)
  rw [List.filterMap_congr hread]
  simp

end Rustodon.Federation
