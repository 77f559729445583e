import Mathlib.Data.List.Basic
import Rustodon.Schemes.Bytes
import Rustodon.Schemes.FirstSeen

/-! @src mastodon/repository.rs, rest/loader.rs | name:Shortcodes of custom emojis | scheme:utf8-text, first seen |
    family:emoji

    Two scanners go through the bytes of a text from colon to colon and take what is between two colons for
    a name. Both go on behind the second colon, whether or not it was a name, so that a name is only found if
    the number of colons in front of it is even. One looks at the characters beside the colons and one at the
    bytes. -/

namespace Rustodon.Emoji
open Schemes.Bytes (Bytes utf8)
open Schemes.FirstSeen
open Schemes.Utf8 (Text byteLen truncate sliceFrom)

/-! ### The scanners -/

def isAsciiAlphanumeric (byte : UInt8) : Bool :=
  (48 ≤ byte.toNat && byte.toNat ≤ 57) || (65 ≤ byte.toNat && byte.toNat ≤ 90) ||
    (97 ≤ byte.toNat && byte.toNat ≤ 122)

def isNameByte (byte : UInt8) : Bool := isAsciiAlphanumeric byte || byte == 95

/-- Where the next colon is, from an index on. -/
def position (bytes : Bytes) (start : ℕ) : Option ℕ := (bytes.drop start).findIdx? (· == 58)

/-- The text of bytes that are all below 128. -/
def asciiText (bytes : Bytes) : Text := bytes.map fun byte => Char.ofNat byte.toNat

/-- The loop of both scanners. It fails if an index is out of bounds or inside a character. -/
def scan (validBoundary : ℕ → ℕ → Option Bool) (bytes : Bytes) : ℕ → ℕ → List Text → Option (List Text)
  | 0, _, _ => none
  | fuel + 1, start, shortcodes =>
    match position bytes start with
    | none => some shortcodes
    | some relative =>
      let opening := start + relative
      let contentStart := opening + 1
      match position bytes contentStart with
      | none => some shortcodes
      | some relative =>
        let closing := contentStart + relative
        let shortcode := (bytes.drop contentStart).take relative
        match validBoundary opening closing with
        | none => none
        | some valid =>
          scan validBoundary bytes fuel (closing + 1)
            (if decide (2 ≤ shortcode.length) && shortcode.all isNameByte && valid then
              see shortcodes (asciiText shortcode)
            else shortcodes)

/-- No alphanumeric character and no colon is beside a colon. -/
def beside (isAlphanumeric : Char → Bool) (neighbour : Option Char) : Bool :=
  neighbour.all fun character => !isAlphanumeric character && character != ':'

def characterBoundary (isAlphanumeric : Char → Bool) (text : Text) (opening closing : ℕ) : Option Bool := do
  let before ← truncate text opening
  let after ← sliceFrom text (closing + 1)
  some (beside isAlphanumeric before.getLast? && beside isAlphanumeric after.head?)

def byteBeside (byte : UInt8) : Bool := !isAsciiAlphanumeric byte && byte != 58

def leftBoundary (bytes : Bytes) (opening : ℕ) : Option Bool :=
  if opening = 0 then some true else bytes[opening - 1]?.map byteBeside

def rightBoundary (bytes : Bytes) (closing : ℕ) : Option Bool :=
  if closing + 1 = bytes.length then some true else bytes[closing + 1]?.map byteBeside

def byteBoundary (bytes : Bytes) (opening closing : ℕ) : Option Bool := do
  let left ← leftBoundary bytes opening
  let right ← rightBoundary bytes closing
  some (left && right)

def activitypubEmojiShortcodes (isAlphanumeric : Char → Bool) (texts : List Text) : Option (List Text) :=
  texts.foldlM (fun shortcodes text =>
    scan (characterBoundary isAlphanumeric text) (utf8 text) ((utf8 text).length + 1) 0 shortcodes) []

def emojiShortcodes (texts : List Text) : Option (List Text) :=
  texts.foldlM (fun shortcodes text =>
    scan (byteBoundary (utf8 text)) (utf8 text) ((utf8 text).length + 1) 0 shortcodes) []

/-! ### The grammar -/

def isNameChar (character : Char) : Bool := character.isAlphanum || character == '_'

/-- The name behind a colon that another colon ends, and what follows it. -/
def opened (rest : Text) : Option (Text × Text) :=
  match rest.dropWhile isNameChar with
  | ':' :: after =>
    if 2 ≤ (rest.takeWhile isNameChar).length then some (rest.takeWhile isNameChar, after) else none
  | _ => none

/-- The shortcode that starts with a colon in its place in the text. -/
def found (isAlphanumeric : Char → Bool) (previous : Option Char) (rest : Text) : Option Text :=
  match opened rest with
  | some (name, after) =>
    if beside isAlphanumeric previous && beside isAlphanumeric after.head? then some name else none
  | none => none

/-- A name between colons beside which there is no ASCII alphanumeric character and no colon. -/
structure Occurrence where
  name : Text
  /-- The number of colons in front of it is even. -/
  scanned : Bool
  /-- There is no other alphanumeric character beside it either. -/
  clear : Bool
  deriving DecidableEq

def occurrences (isAlphanumeric : Char → Bool) (previous : Option Char) (scanned : Bool) :
    Text → List Occurrence
  | [] => []
  | c :: rest =>
    if c = ':' then
      (found Char.isAlphanum previous rest).toList.map
        (fun name => ⟨name, scanned, (found isAlphanumeric previous rest).isSome⟩) ++
        occurrences isAlphanumeric (some c) (!scanned) rest
    else occurrences isAlphanumeric (some c) scanned rest

/-- The names of the occurrences of a kind. -/
def names (isAlphanumeric : Char → Bool) (kind : Occurrence → Bool) (texts : List Text) : List Text :=
  ((texts.flatMap (occurrences isAlphanumeric none true)).filter kind).map Occurrence.name

/-- The distinct shortcodes of the texts. -/
def shortcodes (isAlphanumeric : Char → Bool) (texts : List Text) : List Text :=
  firsts (names isAlphanumeric Occurrence.clear texts)

/-! ### Bytes and characters -/

/-- A class of ASCII characters says the same of a character and of its bytes. -/
theorem class_byte {P : UInt8 → Bool} {Q : Char → Bool} {c : Char} {byte : UInt8}
    (hlow : ∀ n < 128, P (UInt8.ofNat n) = Q (Char.ofNat n)) (hbyte : ∀ b : UInt8, 128 ≤ b.toNat → P b = false)
    (hchar : ∀ c : Char, 128 ≤ c.toNat → Q c = false) (h : byte ∈ String.utf8EncodeChar c) : P byte = Q c := by
  by_cases hc : c.toNat < 128
  · rw [Schemes.Bytes.utf8_ascii hc, List.mem_singleton] at h
    rw [h, hlow _ hc, Char.ofNat_toNat]
  · rw [hchar c (by omega)]
    refine hbyte byte (not_lt.mp fun hb => hc ?_)
    rw [Schemes.Bytes.mem_utf8EncodeChar h hb]
    exact hb

theorem isAsciiAlphanumeric_high {byte : UInt8} (h : 128 ≤ byte.toNat) : isAsciiAlphanumeric byte = false := by
  simp only [isAsciiAlphanumeric, Bool.or_eq_false_iff, Bool.and_eq_false_iff, decide_eq_false_iff_not]
  omega

theorem isAlphanum_high {c : Char} (h : 128 ≤ c.toNat) : c.isAlphanum = false := by
  have htoNat : c.toNat = c.val.toNat := rfl
  unfold Char.isAlphanum Char.isAlpha Char.isUpper Char.isLower Char.isDigit
  simp only [Bool.or_eq_false_iff, decide_eq_false_iff_not, UInt32.le_iff_toNat_le, ge_iff_le]
  simp
  omega

theorem ne_of_high {c d : Char} (h : 128 ≤ c.toNat) (hd : d.toNat < 128) : c ≠ d := by
  rintro rfl
  omega

theorem isNameByte_eq {c : Char} {byte : UInt8} (h : byte ∈ String.utf8EncodeChar c) :
    isNameByte byte = isNameChar c := by
  refine class_byte (by decide) (fun b hb => ?_) (fun c hc => ?_) h
  · have hne : b ≠ 95 := by
      rintro rfl
      simp at hb
    simp [isNameByte, isAsciiAlphanumeric_high hb, hne]
  · simp [isNameChar, isAlphanum_high hc, ne_of_high (d := '_') hc (by decide)]

theorem byteBeside_eq {c : Char} {byte : UInt8} (h : byte ∈ String.utf8EncodeChar c) :
    byteBeside byte = beside Char.isAlphanum (some c) := by
  have hsame : (!byteBeside byte) = !beside Char.isAlphanum (some c) := by
    refine class_byte (P := fun byte => !byteBeside byte) (Q := fun c => !beside Char.isAlphanum (some c))
      (by decide) (fun b hb => ?_) (fun c hc => ?_) h
    · have hne : b ≠ 58 := by
        rintro rfl
        simp at hb
      simp [byteBeside, isAsciiAlphanumeric_high hb, hne]
    · simp [beside, isAlphanum_high hc, ne_of_high (d := ':') hc (by decide)]
  simpa using hsame

theorem length_utf8 : ∀ text : Text, (utf8 text).length = byteLen text
  | [] => rfl
  | c :: text => by
    rw [Schemes.Bytes.utf8_cons, List.length_append, String.length_utf8EncodeChar, length_utf8 text]
    rfl

theorem drop_utf8 (before rest : Text) : (utf8 (before ++ rest)).drop (byteLen before) = utf8 rest := by
  rw [Schemes.Bytes.utf8_append, ← length_utf8, List.drop_left]

theorem colon_byte (c : Char) (h : c ≠ ':') : ∀ byte ∈ String.utf8EncodeChar c, (byte == 58) = false := by
  intro byte hmem
  have hsame := Schemes.Bytes.not_mem_utf8 (c := ':') (s := [c]) (by simpa using Ne.symm h) (by decide)
  refine beq_eq_false_iff_ne.mpr ?_
  rintro rfl
  exact hsame (by simpa [utf8] using hmem)

theorem findIdx_colon {segment : Text} (rest : Text) (h : ':' ∉ segment) :
    (utf8 (segment ++ ':' :: rest)).findIdx? (· == 58) = some (byteLen segment) := by
  have hnone : (utf8 segment).findIdx? (· == 58) = none := by
    refine List.findIdx?_eq_none_iff.mpr fun byte hbyte => ?_
    obtain ⟨c, hc, hmem⟩ := List.mem_flatMap.mp hbyte
    exact colon_byte c (fun heq => h (heq ▸ hc)) byte hmem
  rw [Schemes.Bytes.utf8_append, List.findIdx?_append, hnone, Option.none_or, Schemes.Bytes.utf8_cons,
    Schemes.Bytes.utf8_ascii (by decide), length_utf8]
  simp [List.findIdx?_cons]

theorem position_colon {segment : Text} (before rest : Text) (h : ':' ∉ segment) :
    position (utf8 (before ++ (segment ++ ':' :: rest))) (byteLen before) = some (byteLen segment) := by
  rw [position, drop_utf8, findIdx_colon rest h]

theorem position_none {rest : Text} (before : Text) (h : ':' ∉ rest) :
    position (utf8 (before ++ rest)) (byteLen before) = none := by
  rw [position, drop_utf8]
  refine List.findIdx?_eq_none_iff.mpr fun byte hbyte => ?_
  obtain ⟨c, hc, hmem⟩ := List.mem_flatMap.mp hbyte
  exact colon_byte c (fun heq => h (heq ▸ hc)) byte hmem

/-- A text has no colon, or can be cut at its first one. -/
theorem colon_cases (text : Text) :
    ':' ∉ text ∨ ∃ segment rest, text = segment ++ ':' :: rest ∧ ':' ∉ segment := by
  induction text with
  | nil => exact .inl (List.not_mem_nil)
  | cons c text ih =>
    by_cases hc : c = ':'
    · exact .inr ⟨[], text, by rw [hc]; rfl, List.not_mem_nil⟩
    · rcases ih with h | ⟨segment, rest, rfl, h⟩
      · exact .inl (by simp [Ne.symm hc, h])
      · exact .inr ⟨c :: segment, rest, rfl, by simp [Ne.symm hc, h]⟩

theorem all_isNameByte : ∀ text : Text, (utf8 text).all isNameByte = text.all isNameChar
  | [] => rfl
  | c :: text => by
    rw [Schemes.Bytes.utf8_cons, List.all_append, all_isNameByte text, List.all_cons]
    congr 1
    cases hc : isNameChar c with
    | true => exact List.all_eq_true.mpr fun byte hbyte => (isNameByte_eq hbyte).trans hc
    | false =>
      have hne : String.utf8EncodeChar c ≠ [] := by
        intro hnil
        have hlen := String.length_utf8EncodeChar c
        rw [hnil] at hlen
        exact absurd hlen.symm (by have := c.utf8Size_pos; simp; omega)
      obtain ⟨byte, hbyte⟩ := List.exists_mem_of_ne_nil _ hne
      exact List.all_eq_false.mpr ⟨byte, hbyte, by simp [isNameByte_eq hbyte, hc]⟩

theorem toNat_lt_of_isNameChar {c : Char} (h : isNameChar c = true) : c.toNat < 128 := by
  by_contra hc
  have hhigh : 128 ≤ c.toNat := by omega
  rw [isNameChar, isAlphanum_high hhigh] at h
  exact ne_of_high (d := '_') hhigh (by decide) (by simpa using h)

/-- A name is the text of its bytes. -/
theorem asciiText_utf8 : ∀ {name : Text}, name.all isNameChar = true → asciiText (utf8 name) = name
  | [], _ => rfl
  | c :: name, h => by
    rw [List.all_cons, Bool.and_eq_true] at h
    have hc := toNat_lt_of_isNameChar h.1
    have hbyte : (UInt8.ofNat c.toNat).toNat = c.toNat := by simp; omega
    have ih := asciiText_utf8 h.2
    rw [asciiText] at ih
    rw [Schemes.Bytes.utf8_cons, Schemes.Bytes.utf8_ascii hc, asciiText, List.map_append, ih]
    simp [hbyte]

theorem byteLen_name : ∀ {name : Text}, name.all isNameChar = true → byteLen name = name.length
  | [], _ => rfl
  | c :: name, h => by
    rw [List.all_cons, Bool.and_eq_true] at h
    have hc := toNat_lt_of_isNameChar h.1
    have hsize : c.utf8Size = 1 := by
      rw [← String.length_utf8EncodeChar, Schemes.Bytes.utf8_ascii hc]
      rfl
    rw [Schemes.Utf8.byteLen_cons, byteLen_name h.2, hsize, List.length_cons, Nat.add_comm]

/-! ### What is found behind a colon -/

variable {isAlphanumeric : Char → Bool}

theorem opened_colon {name : Text} (rest : Text) (h : ':' ∉ name) :
    opened (name ++ ':' :: rest) = if name.all isNameChar ∧ 2 ≤ name.length then some (name, rest) else none := by
  have hcolon : isNameChar ':' = false := by decide
  by_cases hall : name.all isNameChar = true
  · have htake : (name ++ ':' :: rest).takeWhile isNameChar = name := by
      rw [List.takeWhile_append_of_pos (List.all_eq_true.mp hall), List.takeWhile_cons_of_neg (by simp [hcolon]),
        List.append_nil]
    have hdrop : (name ++ ':' :: rest).dropWhile isNameChar = ':' :: rest := by
      rw [List.dropWhile_append_of_pos (List.all_eq_true.mp hall), List.dropWhile_cons_of_neg (by simp [hcolon])]
    rw [opened, hdrop, htake]
    simp [hall]
  · rw [if_neg (fun hand => hall hand.1)]
    -- The name ends before the next colon.
    have hdrop : ∃ c tail, (name ++ ':' :: rest).dropWhile isNameChar = c :: tail ∧ c ≠ ':' := by
      induction name with
      | nil => exact absurd rfl hall
      | cons c name ih =>
        rw [List.cons_append]
        by_cases hc : isNameChar c = true
        · rw [List.dropWhile_cons_of_pos hc]
          refine ih (fun hmem => h (List.mem_cons_of_mem c hmem)) fun hrest => hall ?_
          rw [List.all_cons, hc, hrest]
          rfl
        · rw [List.dropWhile_cons_of_neg hc]
          exact ⟨c, _, rfl, fun heq => h (heq ▸ List.mem_cons_self)⟩
    obtain ⟨c, tail, hdrop, hne⟩ := hdrop
    rw [opened, hdrop]
    split
    · rename_i heq
      exact absurd (List.cons.inj heq).1 hne
    · rfl

theorem found_colon {name : Text} (previous : Option Char) (rest : Text) (h : ':' ∉ name) :
    found isAlphanumeric previous (name ++ ':' :: rest) =
      if (decide (2 ≤ name.length) && name.all isNameChar &&
        (beside isAlphanumeric previous && beside isAlphanumeric rest.head?)) = true then some name else none := by
  rw [found, opened_colon rest h]
  by_cases hall : name.all isNameChar = true <;> by_cases hlen : 2 ≤ name.length <;> simp [hall, hlen]

theorem opened_none {rest : Text} (h : ':' ∉ rest) : opened rest = none := by
  rw [opened]
  split
  · rename_i after hdrop
    exact absurd ((List.dropWhile_suffix _).subset (hdrop ▸ List.mem_cons_self)) h
  · rfl

theorem opened_eq_some {rest name after : Text} (h : opened rest = some (name, after)) :
    rest = name ++ ':' :: after ∧ name.all isNameChar = true ∧ 2 ≤ name.length := by
  rw [opened] at h
  split at h
  · rename_i tail hdrop
    split at h
    · rename_i hlen
      obtain ⟨rfl, rfl⟩ := Prod.mk.inj (Option.some.inj h)
      refine ⟨?_, List.all_takeWhile, hlen⟩
      rw [← hdrop, List.takeWhile_append_dropWhile]
    · cases h
  · cases h

/-- The names behind colons in front of which the number of colons is even. -/
def scannedNames (isAlphanumeric : Char → Bool) (previous : Option Char) (scanned : Bool) : Text → List Text
  | [] => []
  | c :: rest =>
    if c = ':' then
      (if scanned then (found isAlphanumeric previous rest).toList else []) ++
        scannedNames isAlphanumeric (some c) (!scanned) rest
    else scannedNames isAlphanumeric (some c) scanned rest

theorem scannedNames_segment (isAlphanumeric : Char → Bool) (scanned : Bool) (rest : Text) : ∀ (segment before : Text), ':' ∉ segment →
    scannedNames isAlphanumeric before.getLast? scanned (segment ++ rest) =
      scannedNames isAlphanumeric (before ++ segment).getLast? scanned rest
  | [], before, _ => by rw [List.nil_append, List.append_nil]
  | c :: segment, before, h => by
    have hne : c ≠ ':' := fun heq => h (heq ▸ List.mem_cons_self)
    have hlast : (before ++ [c]).getLast? = some c := by simp
    rw [List.cons_append, scannedNames, if_neg hne, ← hlast,
      scannedNames_segment isAlphanumeric scanned rest segment (before ++ [c]) fun hmem => h (List.mem_cons_of_mem c hmem),
      List.append_assoc, List.singleton_append]

theorem scannedNames_none (scanned : Bool) : ∀ (previous : Option Char) {rest : Text}, ':' ∉ rest →
    scannedNames isAlphanumeric previous scanned rest = []
  | _, [], _ => rfl
  | _, c :: rest, h => by
    have hne : c ≠ ':' := fun heq => h (heq ▸ List.mem_cons_self)
    rw [scannedNames, if_neg hne]
    exact scannedNames_none scanned _ fun hmem => h (List.mem_cons_of_mem c hmem)

/-! ### The loop -/

/-- The boundary of two colons, as the characters beside them have it. -/
def IsBoundary (isAlphanumeric : Char → Bool) (text : Text) (validBoundary : ℕ → ℕ → Option Bool) : Prop :=
  ∀ before name rest, text = before ++ ':' :: (name ++ ':' :: rest) →
    validBoundary (byteLen before) (byteLen before + 1 + byteLen name) =
      some (beside isAlphanumeric before.getLast? && beside isAlphanumeric rest.head?)

/-- A round of the loop takes the name between two colons, if it is one. -/
theorem scan_round {text : Text} {valid : ℕ → ℕ → Option Bool} (hvalid : IsBoundary isAlphanumeric text valid)
    {before segment name rest : Text} (htext : text = before ++ (segment ++ ':' :: (name ++ ':' :: rest)))
    (hsegment : ':' ∉ segment) (hname : ':' ∉ name) (fuel : ℕ) (seen : List Text) :
    scan valid (utf8 text) (fuel + 1) (byteLen before) seen =
      scan valid (utf8 text) fuel (byteLen (before ++ segment ++ ':' :: (name ++ [':'])))
        (seeAll seen (found isAlphanumeric (before ++ segment).getLast? (name ++ ':' :: rest)).toList) := by
  have hcolon : Char.utf8Size ':' = 1 := by decide
  have hstart : byteLen before + byteLen segment + 1 = byteLen (before ++ segment ++ [':']) := by
    simp [hcolon, Nat.add_assoc]
  have htext' : text = before ++ segment ++ [':'] ++ (name ++ ':' :: rest) := by simp [htext]
  have hfirst : position (utf8 text) (byteLen before) = some (byteLen segment) := by
    rw [htext]
    exact position_colon before _ hsegment
  have hsecond : position (utf8 text) (byteLen before + byteLen segment + 1) = some (byteLen name) := by
    rw [hstart, htext']
    exact position_colon _ rest hname
  have hbytes : ((utf8 text).drop (byteLen before + byteLen segment + 1)).take (byteLen name) = utf8 name := by
    rw [hstart, htext', drop_utf8, Schemes.Bytes.utf8_append, ← length_utf8, List.take_left]
  have hbound := hvalid (before ++ segment) name rest (by simp [htext])
  rw [Schemes.Utf8.byteLen_append] at hbound
  have hend : byteLen before + byteLen segment + 1 + byteLen name + 1 =
      byteLen (before ++ segment ++ ':' :: (name ++ [':'])) := by
    simp [hcolon]
    omega
  rw [scan, hfirst]
  dsimp only
  rw [hsecond]
  dsimp only
  rw [hbound]
  dsimp only
  rw [hbytes, hend, all_isNameByte, length_utf8, found_colon _ rest hname]
  congr 1
  generalize (beside isAlphanumeric (before ++ segment).getLast? && beside isAlphanumeric rest.head?) = clear
  by_cases hall : name.all isNameChar = true
  · rw [byteLen_name hall, asciiText_utf8 hall]
    by_cases hlen : 2 ≤ name.length <;> cases clear <;> simp [hall, hlen]
  · simp [hall]

theorem scan_eq {text : Text} {valid : ℕ → ℕ → Option Bool} (hvalid : IsBoundary isAlphanumeric text valid) :
    ∀ (fuel : ℕ) (before rest : Text) (seen : List Text), rest.length < fuel → text = before ++ rest →
      scan valid (utf8 text) fuel (byteLen before) seen =
        some (seeAll seen (scannedNames isAlphanumeric before.getLast? true rest)) := by
  intro fuel
  induction fuel with
  | zero => exact fun before rest seen hlen => absurd hlen (Nat.not_lt_zero _)
  | succ fuel ih =>
    intro before rest seen hlen htext
    rcases colon_cases rest with hnone | ⟨segment, tail, rfl, hsegment⟩
    · rw [scannedNames_none true _ hnone, scan, htext, position_none before hnone]
      rfl
    · rw [scannedNames_segment isAlphanumeric true _ segment before hsegment, scannedNames, if_pos rfl, if_pos rfl]
      rcases colon_cases tail with hnone | ⟨name, rest, rfl, hname⟩
      · have hcolon : byteLen before + byteLen segment + 1 = byteLen (before ++ segment ++ [':']) := by
          simp [show Char.utf8Size ':' = 1 by decide, Nat.add_assoc]
        have hfirst : position (utf8 text) (byteLen before) = some (byteLen segment) := by
          rw [htext]
          exact position_colon before _ hsegment
        have hsecond : position (utf8 text) (byteLen before + byteLen segment + 1) = none := by
          have htext' : text = before ++ segment ++ [':'] ++ tail := by simp [htext]
          rw [hcolon, htext']
          exact position_none _ hnone
        rw [scan, hfirst]
        dsimp only
        rw [hsecond, found, opened_none hnone, scannedNames_none _ _ hnone]
        rfl
      · rw [scan_round hvalid htext hsegment hname, ih _ rest _ ?_ (by simp [htext])]
        · have hlast : (before ++ segment ++ ':' :: (name ++ [':'])).getLast? = some ':' := by
            rw [← List.cons_append, ← List.append_assoc, List.getLast?_concat]
          have hmiddle := scannedNames_segment isAlphanumeric false (':' :: rest) name
            (before ++ segment ++ [':']) hname
          rw [List.getLast?_concat] at hmiddle
          rw [hlast, Bool.not_true, hmiddle, scannedNames, if_pos rfl, seeAll_append]
          rfl
        · simp only [List.length_append, List.length_cons] at hlen
          omega

/-! ### The boundaries -/

theorem characterBoundary_isBoundary (text : Text) :
    IsBoundary isAlphanumeric text (characterBoundary isAlphanumeric text) := by
  intro before name rest htext
  have hend : byteLen before + 1 + byteLen name + 1 = byteLen (before ++ ':' :: (name ++ [':'])) := by
    simp [show Char.utf8Size ':' = 1 by decide]
    omega
  have htext' : text = before ++ ':' :: (name ++ [':']) ++ rest := by simp [htext]
  have hafter : sliceFrom text (byteLen before + 1 + byteLen name + 1) = some rest := by
    rw [hend, htext', Schemes.Utf8.sliceFrom_append]
  rw [characterBoundary, hafter, htext, Schemes.Utf8.truncate_append]
  rfl

/-- The bytes of a character are one or more. -/
theorem exists_encode (c : Char) : ∃ first bytes, String.utf8EncodeChar c = first :: bytes := by
  cases henc : String.utf8EncodeChar c with
  | nil =>
    have hlen := String.length_utf8EncodeChar c
    have hpos := c.utf8Size_pos
    rw [henc, List.length_nil] at hlen
    omega
  | cons first bytes => exact ⟨first, bytes, rfl⟩

/-- The first byte says of a neighbour what the character does. -/
theorem byteBeside_head (rest : Text) :
    rest = [] ∨ (utf8 rest)[0]?.map byteBeside = some (beside Char.isAlphanum rest.head?) := by
  cases rest with
  | nil => exact .inl rfl
  | cons c rest =>
    right
    obtain ⟨first, bytes, henc⟩ := exists_encode c
    have hmem : first ∈ String.utf8EncodeChar c := henc ▸ List.mem_cons_self
    rw [Schemes.Bytes.utf8_cons, henc, List.cons_append, List.getElem?_cons_zero, Option.map_some,
      byteBeside_eq hmem]
    rfl

/-- And so does the last byte. -/
theorem byteBeside_last (before rest : Text) :
    before = [] ∨ (utf8 (before ++ rest))[byteLen before - 1]?.map byteBeside =
      some (beside Char.isAlphanum before.getLast?) := by
  rcases List.eq_nil_or_concat before with rfl | ⟨init, c, rfl⟩
  · exact .inl rfl
  · right
    obtain ⟨first, bytes, henc⟩ := exists_encode c
    have hlast : (utf8 (init ++ [c])).getLast? = some ((first :: bytes).getLast (List.cons_ne_nil _ _)) := by
      rw [Schemes.Bytes.utf8_append, Schemes.Bytes.utf8_cons, henc, Schemes.Bytes.utf8_nil, List.append_nil,
        List.getLast?_append_of_ne_nil _ (List.cons_ne_nil _ _), List.getLast?_eq_some_getLast]
    have hmem : (first :: bytes).getLast (List.cons_ne_nil _ _) ∈ String.utf8EncodeChar c := by
      rw [henc]
      exact List.getLast_mem _
    have hpos : 0 < byteLen (init ++ [c]) := by
      have := c.utf8Size_pos
      simp
      omega
    rw [List.concat_eq_append, Schemes.Bytes.utf8_append,
      List.getElem?_append_left (by rw [length_utf8]; omega), ← length_utf8, ← List.getLast?_eq_getElem?, hlast,
      Option.map_some, byteBeside_eq hmem, List.getLast?_concat]

theorem byteLen_eq_zero {text : Text} : byteLen text = 0 ↔ text = [] := by
  cases text with
  | nil => simp
  | cons c text =>
    have := c.utf8Size_pos
    simp
    omega

theorem byteBoundary_isBoundary (text : Text) :
    IsBoundary Char.isAlphanum text (byteBoundary (utf8 text)) := by
  intro before name rest htext
  have hend : byteLen before + 1 + byteLen name + 1 = byteLen (before ++ ':' :: (name ++ [':'])) := by
    simp [show Char.utf8Size ':' = 1 by decide]
    omega
  have htext' : text = before ++ ':' :: (name ++ [':']) ++ rest := by simp [htext]
  have hleft : leftBoundary (utf8 text) (byteLen before) = some (beside Char.isAlphanum before.getLast?) := by
    unfold leftBoundary
    rcases byteBeside_last before (':' :: (name ++ ':' :: rest)) with rfl | hlast
    · rfl
    · by_cases hnil : before = []
      · rw [hnil]
        rfl
      · rw [if_neg (fun hzero => hnil (byteLen_eq_zero.mp hzero)), htext, hlast]
  have hright : rightBoundary (utf8 text) (byteLen before + 1 + byteLen name) =
      some (beside Char.isAlphanum rest.head?) := by
    rw [rightBoundary, hend, htext', length_utf8, Schemes.Utf8.byteLen_append (before ++ ':' :: (name ++ [':']))]
    rcases byteBeside_head rest with rfl | hhead
    · simp [beside]
    · by_cases hnil : rest = []
      · rw [hnil]
        simp [beside]
      · have hpos : 0 < byteLen rest := Nat.pos_of_ne_zero fun hzero => hnil (byteLen_eq_zero.mp hzero)
        rw [if_neg (by omega), Schemes.Bytes.utf8_append, ← length_utf8,
          List.getElem?_append_right (Nat.le_refl _), Nat.sub_self, hhead]
  rw [byteBoundary, hleft, hright]
  rfl

/-! ### Both scanners -/

theorem length_le_byteLen : ∀ text : Text, text.length ≤ byteLen text
  | [] => Nat.le_refl 0
  | c :: text => by
    have ih := length_le_byteLen text
    have hpos := c.utf8Size_pos
    rw [Schemes.Utf8.byteLen_cons, List.length_cons]
    omega

theorem scan_text {text : Text} {valid : ℕ → ℕ → Option Bool} (hvalid : IsBoundary isAlphanumeric text valid)
    (seen : List Text) : scan valid (utf8 text) ((utf8 text).length + 1) 0 seen =
      some (seeAll seen (scannedNames isAlphanumeric none true text)) := by
  refine scan_eq hvalid _ [] text seen ?_ rfl
  rw [length_utf8]
  exact Nat.lt_succ_of_le (length_le_byteLen text)

theorem foldlM_seeAll {g : Text → List Text} : ∀ (texts seen : List Text),
    texts.foldlM (fun seen text => some (seeAll seen (g text))) seen = some (seeAll seen (texts.flatMap g))
  | [], seen => rfl
  | text :: texts, seen => by
    rw [List.foldlM_cons, List.flatMap_cons, seeAll_append]
    exact foldlM_seeAll texts _

theorem beside_of_beside (hascii : ∀ c : Char, c.isAlphanum = true → isAlphanumeric c = true)
    {neighbour : Option Char} (h : beside isAlphanumeric neighbour = true) :
    beside Char.isAlphanum neighbour = true := by
  cases neighbour with
  | none => rfl
  | some c =>
    simp only [beside, Option.all_some, Bool.and_eq_true, Bool.not_eq_true'] at h ⊢
    refine ⟨?_, h.2⟩
    cases hc : c.isAlphanum with
    | false => rfl
    | true => rw [hascii c hc] at h; exact absurd h.1 (by simp)

theorem found_of_found (hascii : ∀ c : Char, c.isAlphanum = true → isAlphanumeric c = true)
    {previous : Option Char} {rest name : Text} (h : found isAlphanumeric previous rest = some name) :
    found Char.isAlphanum previous rest = some name := by
  unfold found at h ⊢
  split at h
  · rename_i name' after _
    split at h
    · rename_i hbeside
      rw [Bool.and_eq_true] at hbeside
      rw [if_pos]
      · exact h
      · rw [beside_of_beside hascii hbeside.1, beside_of_beside hascii hbeside.2]
        rfl
    · cases h
  · cases h

theorem scannedNames_ascii (isAlphanumeric : Char → Bool) : ∀ (previous : Option Char) (scanned : Bool) (rest : Text),
    scannedNames Char.isAlphanum previous scanned rest =
      ((occurrences isAlphanumeric previous scanned rest).filter Occurrence.scanned).map Occurrence.name
  | _, _, [] => rfl
  | previous, scanned, c :: rest => by
    rw [scannedNames, occurrences]
    split
    · rw [List.filter_append, List.map_append, scannedNames_ascii isAlphanumeric (some c) (!scanned) rest]
      congr 1
      cases found Char.isAlphanum previous rest <;> cases scanned <;> rfl
    · exact scannedNames_ascii isAlphanumeric (some c) scanned rest

theorem scannedNames_clear (hascii : ∀ c : Char, c.isAlphanum = true → isAlphanumeric c = true) :
    ∀ (previous : Option Char) (scanned : Bool) (rest : Text),
      scannedNames isAlphanumeric previous scanned rest =
        ((occurrences isAlphanumeric previous scanned rest).filter fun o => o.clear && o.scanned).map
          Occurrence.name
  | _, _, [] => rfl
  | previous, scanned, c :: rest => by
    rw [scannedNames, occurrences]
    split
    · rw [List.filter_append, List.map_append, scannedNames_clear hascii (some c) (!scanned) rest]
      congr 1
      cases hfound : found isAlphanumeric previous rest with
      | none => cases found Char.isAlphanum previous rest <;> cases scanned <;> rfl
      | some name =>
        rw [found_of_found hascii hfound]
        cases scanned <;> rfl
    · exact scannedNames_clear hascii (some c) scanned rest

theorem names_eq (kind : Occurrence → Bool) (texts : List Text) :
    names isAlphanumeric kind texts = texts.flatMap fun text =>
      ((occurrences isAlphanumeric none true text).filter kind).map Occurrence.name := by
  rw [names, List.filter_flatMap, List.map_flatMap]

/-- The names that the scanner of characters comes across. -/
theorem activitypubEmojiShortcodes_eq (hascii : ∀ c : Char, c.isAlphanum = true → isAlphanumeric c = true)
    (texts : List Text) : activitypubEmojiShortcodes isAlphanumeric texts =
      some (firsts (names isAlphanumeric (fun o => o.clear && o.scanned) texts)) := by
  have hscan : (fun shortcodes text =>
      scan (characterBoundary isAlphanumeric text) (utf8 text) ((utf8 text).length + 1) 0 shortcodes) =
      fun seen text => some (seeAll seen (scannedNames isAlphanumeric none true text)) := by
    funext seen text
    exact scan_text (characterBoundary_isBoundary text) seen
  rw [activitypubEmojiShortcodes, hscan, foldlM_seeAll, names_eq]
  exact congrArg (fun g => some (firsts (texts.flatMap g)))
    (funext fun text => scannedNames_clear hascii none true text)

/-- The names that the scanner of bytes comes across. -/
theorem emojiShortcodes_eq (isAlphanumeric : Char → Bool) (texts : List Text) :
    emojiShortcodes texts = some (firsts (names isAlphanumeric Occurrence.scanned texts)) := by
  have hscan : (fun shortcodes text =>
      scan (byteBoundary (utf8 text)) (utf8 text) ((utf8 text).length + 1) 0 shortcodes) =
      fun seen text => some (seeAll seen (scannedNames Char.isAlphanum none true text)) := by
    funext seen text
    exact scan_text (byteBoundary_isBoundary text) seen
  rw [emojiShortcodes, hscan, foldlM_seeAll, names_eq]
  exact congrArg (fun g => some (firsts (texts.flatMap g)))
    (funext fun text => scannedNames_ascii isAlphanumeric none true text)

/-! ### Where they agree -/

/-- What makes up for the names that are passed over and for those that are taken too many: every shortcode
    is scanned, every name that is scanned is a shortcode, and they are first scanned in the order in which
    they first occur. -/
structure Covered (isAlphanumeric : Char → Bool) (texts : List Text) : Prop where
  scanned : ∀ name ∈ names isAlphanumeric Occurrence.clear texts,
    name ∈ names isAlphanumeric (fun o => o.clear && o.scanned) texts
  scannedInOrder : ∀ x y, Before (names isAlphanumeric Occurrence.clear texts) x y →
    Before (names isAlphanumeric (fun o => o.clear && o.scanned) texts) x y
  clear : ∀ name ∈ names isAlphanumeric Occurrence.scanned texts,
    name ∈ names isAlphanumeric (fun o => o.clear && o.scanned) texts
  clearInOrder : ∀ x y, Before (names isAlphanumeric Occurrence.scanned texts) x y →
    Before (names isAlphanumeric (fun o => o.clear && o.scanned) texts) x y

theorem names_subset (isAlphanumeric : Char → Bool) {kind kind' : Occurrence → Bool} (h : ∀ o, kind o = true → kind' o = true)
    (texts : List Text) : ∀ name ∈ names isAlphanumeric kind texts, name ∈ names isAlphanumeric kind' texts := by
  intro name hname
  obtain ⟨o, ho, rfl⟩ := List.mem_map.mp hname
  obtain ⟨hmem, hkind⟩ := List.mem_filter.mp ho
  exact List.mem_map_of_mem (List.mem_filter.mpr ⟨hmem, h o hkind⟩)

/-- Which texts are a shortcode of a text, whatever the scanners make of it. -/
theorem mem_clear (hascii : ∀ c : Char, c.isAlphanum = true → isAlphanumeric c = true) (name : Text) :
    ∀ (previous : Text) (scanned : Bool) (text : Text),
      name ∈ ((occurrences isAlphanumeric previous.getLast? scanned text).filter Occurrence.clear).map
          Occurrence.name ↔
        ∃ before after, text = before ++ ':' :: (name ++ ':' :: after) ∧ name.all isNameChar = true ∧
          2 ≤ name.length ∧ beside isAlphanumeric (previous ++ before).getLast? = true ∧
          beside isAlphanumeric after.head? = true
  | previous, scanned, [] => by simp [occurrences]
  | previous, scanned, c :: rest => by
    have hrest (scanned : Bool) := mem_clear hascii name (previous ++ [c]) scanned rest
    rw [List.getLast?_concat] at hrest
    -- An occurrence starts here or further on.
    have hsplit : (∃ before after, c :: rest = before ++ ':' :: (name ++ ':' :: after) ∧
        name.all isNameChar = true ∧ 2 ≤ name.length ∧
        beside isAlphanumeric (previous ++ before).getLast? = true ∧ beside isAlphanumeric after.head? = true) ↔
        (c = ':' ∧ found isAlphanumeric previous.getLast? rest = some name) ∨
        ∃ before after, rest = before ++ ':' :: (name ++ ':' :: after) ∧ name.all isNameChar = true ∧
          2 ≤ name.length ∧ beside isAlphanumeric (previous ++ [c] ++ before).getLast? = true ∧
          beside isAlphanumeric after.head? = true := by
      constructor
      · rintro ⟨before, after, heq, hall, hlen, hleft, hright⟩
        cases before with
        | nil =>
          obtain ⟨rfl, rfl⟩ := List.cons.inj heq
          have hname : ':' ∉ name := fun hmem => absurd (List.all_eq_true.mp hall ':' hmem) (by decide)
          refine .inl ⟨rfl, ?_⟩
          rw [List.append_nil] at hleft
          rw [found_colon _ after hname, hall, hleft, hright]
          simp [hlen]
        | cons d before =>
          obtain ⟨rfl, rfl⟩ := List.cons.inj heq
          exact .inr ⟨before, after, rfl, hall, hlen, by simpa using hleft, hright⟩
      · rintro (⟨rfl, hfound⟩ | ⟨before, after, rfl, hall, hlen, hleft, hright⟩)
        · unfold found at hfound
          split at hfound
          · rename_i name' after hopened
            split at hfound
            · rename_i hbeside
              obtain rfl := Option.some.inj hfound
              obtain ⟨rfl, hall, hlen⟩ := opened_eq_some hopened
              rw [Bool.and_eq_true] at hbeside
              exact ⟨[], after, rfl, hall, hlen, by simpa using hbeside.1, hbeside.2⟩
            · cases hfound
          · cases hfound
        · exact ⟨c :: before, after, rfl, hall, hlen, by simpa using hleft, hright⟩
    rw [hsplit, occurrences]
    by_cases hc : c = ':'
    · rw [if_pos hc, List.filter_append, List.map_append, List.mem_append, hrest (!scanned)]
      refine or_congr_left ?_
      cases hfound : found isAlphanumeric previous.getLast? rest with
      | none => cases found Char.isAlphanum previous.getLast? rest <;> simp [hc]
      | some found' =>
        rw [found_of_found hascii hfound]
        simp [hc, eq_comm]
    · rw [if_neg hc, hrest scanned]
      simp [hc]

/-- The shortcodes are the names that some text has between colons with nothing alphanumeric and no colon
    beside them. -/
theorem mem_shortcodes (hascii : ∀ c : Char, c.isAlphanum = true → isAlphanumeric c = true) {name : Text}
    {texts : List Text} : name ∈ shortcodes isAlphanumeric texts ↔
      ∃ text ∈ texts, ∃ before after, text = before ++ ':' :: (name ++ ':' :: after) ∧
        name.all isNameChar = true ∧ 2 ≤ name.length ∧ beside isAlphanumeric before.getLast? = true ∧
        beside isAlphanumeric after.head? = true := by
  rw [shortcodes, mem_firsts, names_eq, List.mem_flatMap]
  exact exists_congr fun text => and_congr_right fun _ => mem_clear hascii name [] true text

/-- CORRECT (one grammar): both scanners return the shortcodes exactly when what they pass over or take too
    many is made up for elsewhere. -/
theorem emoji_shortcodes_agree_iff (hascii : ∀ c : Char, c.isAlphanum = true → isAlphanumeric c = true)
    (texts : List Text) :
    (activitypubEmojiShortcodes isAlphanumeric texts = some (shortcodes isAlphanumeric texts) ∧
      emojiShortcodes texts = some (shortcodes isAlphanumeric texts)) ↔ Covered isAlphanumeric texts := by
  have hclearKind : ∀ o : Occurrence, (o.clear && o.scanned) = true → o.clear = true :=
    fun o h => (Bool.and_eq_true_iff.mp h).1
  have hscannedKind : ∀ o : Occurrence, (o.clear && o.scanned) = true → o.scanned = true :=
    fun o h => (Bool.and_eq_true_iff.mp h).2
  have hscanned := firsts_eq_iff (names_subset isAlphanumeric hclearKind texts)
  have hclear := firsts_eq_iff (names_subset isAlphanumeric hscannedKind texts)
  rw [activitypubEmojiShortcodes_eq hascii, emojiShortcodes_eq isAlphanumeric, Option.some_inj, Option.some_inj,
    shortcodes]
  constructor
  · rintro ⟨hfirst, hsecond⟩
    obtain ⟨hall, horder⟩ := hscanned.mp hfirst
    obtain ⟨hall', horder'⟩ := hclear.mp (hfirst.trans hsecond.symm)
    exact ⟨hall, horder, hall', horder'⟩
  · intro h
    have hfirst := hscanned.mpr ⟨h.scanned, h.scannedInOrder⟩
    have hsecond := hclear.mpr ⟨h.clear, h.clearInOrder⟩
    exact ⟨hfirst, hsecond.symm.trans hfirst⟩

/-- ASCII and the letter `é`. -/
def exampleAlphanumeric (c : Char) : Bool := c.isAlphanum || c == 'é'

/-- A time in front of a shortcode hides it from both scanners, and only one of them minds a letter beside a
    colon that is not ASCII. -/
theorem emoji_shortcodes_differ :
    (activitypubEmojiShortcodes exampleAlphanumeric ["12:30 :blob:".toList] = some [] ∧
      emojiShortcodes ["12:30 :blob:".toList] = some [] ∧
      shortcodes exampleAlphanumeric ["12:30 :blob:".toList] = ["blob".toList]) ∧
    activitypubEmojiShortcodes exampleAlphanumeric ["é:blob:".toList] = some [] ∧
      emojiShortcodes ["é:blob:".toList] = some ["blob".toList] := by
  decide

theorem emoji_shortcodes_agree_iff_example :
    (activitypubEmojiShortcodes exampleAlphanumeric [":blob: :cat:".toList, "12:30 :blob:".toList] =
        some (shortcodes exampleAlphanumeric [":blob: :cat:".toList, "12:30 :blob:".toList]) ∧
      emojiShortcodes [":blob: :cat:".toList, "12:30 :blob:".toList] =
        some (shortcodes exampleAlphanumeric [":blob: :cat:".toList, "12:30 :blob:".toList])) ∧
    Covered exampleAlphanumeric [":blob: :cat:".toList, "12:30 :blob:".toList] := by
  have hboth : activitypubEmojiShortcodes exampleAlphanumeric [":blob: :cat:".toList, "12:30 :blob:".toList] =
        some (shortcodes exampleAlphanumeric [":blob: :cat:".toList, "12:30 :blob:".toList]) ∧
      emojiShortcodes [":blob: :cat:".toList, "12:30 :blob:".toList] =
        some (shortcodes exampleAlphanumeric [":blob: :cat:".toList, "12:30 :blob:".toList]) := by
    decide
  exact ⟨hboth, (emoji_shortcodes_agree_iff (fun c hc => by rw [exampleAlphanumeric, hc]; rfl) _).mp hboth⟩

end Rustodon.Emoji
