import Rustodon.Schemes.Json
import Rustodon.Schemes.Utf8
import Mathlib.Data.String.Basic

/-! @scheme json-text | name:JSON texts

    The grammar of JSON as a reader and a writer of documents, which keep strings and keys as they are
    written and all entries of an object in their order. On texts without white space the two are
    inverse. The value of a document has maps for objects: a key that comes again has its last value. -/

namespace Schemes.JsonText
open Schemes.Json
open Schemes.Utf8 (Text)

/-- A text as it is written, but for white space. -/
inductive Doc where
  | null
  | bool (b : Bool)
  | number (text : Text)
  | string (raw : Text)
  | array (items : List Doc)
  | object (members : List (Text × Doc))

/-! ### Strings -/

def hexDigit (c : Char) : Option ℕ :=
  if '0' ≤ c ∧ c ≤ '9' then some (c.toNat - 48)
  else if 'a' ≤ c ∧ c ≤ 'f' then some (c.toNat - 87)
  else if 'A' ≤ c ∧ c ≤ 'F' then some (c.toNat - 55) else none

def hexFour (a b c d : Char) : Option ℕ := do
  let a ← hexDigit a
  let b ← hexDigit b
  let c ← hexDigit c
  let d ← hexDigit d
  some (((a * 16 + b) * 16 + c) * 16 + d)

def simpleEscape (c : Char) : Option Char :=
  if c == '"' || c == '\\' || c == '/' then some c
  else if c == 'b' then some (Char.ofNat 8)
  else if c == 'f' then some (Char.ofNat 12)
  else if c == 'n' then some '\n'
  else if c == 'r' then some '\r'
  else if c == 't' then some '\t' else none

/-- The characters and the code units that are written in a string. -/
def scanUnits : Text → Option (List (Char ⊕ ℕ))
  | [] => some []
  | '\\' :: 'u' :: a :: b :: c :: d :: rest => do
    let unit ← hexFour a b c d
    let units ← scanUnits rest
    some (.inr unit :: units)
  | '\\' :: c :: rest => do
    let c ← simpleEscape c
    let units ← scanUnits rest
    some (.inl c :: units)
  | c :: rest => if c = '\\' then none else (scanUnits rest).map (.inl c :: ·)

def isLeading (unit : ℕ) : Bool := decide (0xD800 ≤ unit ∧ unit ≤ 0xDBFF)

def isTrailing (unit : ℕ) : Bool := decide (0xDC00 ≤ unit ∧ unit ≤ 0xDFFF)

/-- Joins surrogates, which stand in pairs only. -/
def joinUnits : List (Char ⊕ ℕ) → Option Text
  | [] => some []
  | .inl c :: rest => (joinUnits rest).map (c :: ·)
  | .inr leading :: .inr trailing :: rest =>
    if isLeading leading then
      if isTrailing trailing then
        (joinUnits rest).map (Char.ofNat (0x10000 + (leading - 0xD800) * 0x400 + (trailing - 0xDC00)) :: ·)
      else none
    else if isTrailing leading then none
    else (joinUnits (.inr trailing :: rest)).map (Char.ofNat leading :: ·)
  | .inr unit :: rest =>
    if isLeading unit || isTrailing unit then none else (joinUnits rest).map (Char.ofNat unit :: ·)

/-- What a string or a key stands for. -/
def unescape (raw : Text) : Option Text := (scanUnits raw).bind joinUnits

/-- A string behind its opening quote: as it is written, and what follows it. -/
def scanString : Text → Option (Text × Text)
  | [] => none
  | '"' :: rest => some ([], rest)
  | '\\' :: c :: rest => (scanString rest).map fun (raw, rest) => ('\\' :: c :: raw, rest)
  | c :: rest =>
    if c.toNat < 32 then none else (scanString rest).map fun (raw, rest) => (c :: raw, rest)

def parseString (text : Text) : Option (Text × Text) :=
  (scanString text).filter fun (raw, _) => (unescape raw).isSome

/-! ### Numbers -/

def isDigit (c : Char) : Bool := decide ('0' ≤ c ∧ c ≤ '9')

def isNumberChar (c : Char) : Bool :=
  isDigit c || c == '-' || c == '+' || c == '.' || c == 'e' || c == 'E'

def isExponent : Text → Bool
  | [] => true
  | e :: rest =>
    let digits := if rest.head? = some '-' ∨ rest.head? = some '+' then rest.tail else rest
    (e == 'e' || e == 'E') && !digits.isEmpty && digits.all isDigit

def isFraction (text : Text) : Bool :=
  if text.head? = some '.' then
    !(text.tail.takeWhile isDigit).isEmpty && isExponent (text.tail.dropWhile isDigit)
  else isExponent text

def isNumber (text : Text) : Bool :=
  let unsigned := if text.head? = some '-' then text.tail else text
  let integer := unsigned.takeWhile isDigit
  !integer.isEmpty && (integer == ['0'] || integer.head? != some '0') &&
    isFraction (unsigned.dropWhile isDigit)

/-- The longest run of characters of numbers. What follows a number is none of them. -/
def parseNumber (text : Text) : Option (Doc × Text) :=
  if isNumber (text.takeWhile isNumberChar) then
    some (.number (text.takeWhile isNumberChar), text.dropWhile isNumberChar)
  else none

/-! ### Reading -/

def isWhitespace (c : Char) : Bool := c == ' ' || c == '\t' || c == '\n' || c == '\r'

def skipWhitespace (text : Text) : Text := text.dropWhile isWhitespace

mutual

/-- A value, within a depth of nesting. -/
def parseValue : ℕ → ℕ → Text → Option (Doc × Text)
  | 0, _, _ => none
  | fuel + 1, depth, text =>
    match skipWhitespace text with
    | '"' :: rest => (parseString rest).map fun (raw, rest) => (.string raw, rest)
    | '[' :: rest =>
      if depth ≤ 1 then none
      else match skipWhitespace rest with
        | ']' :: rest => some (.array [], rest)
        | _ => (parseItems fuel (depth - 1) rest).map fun (items, rest) => (.array items, rest)
    | '{' :: rest =>
      if depth ≤ 1 then none
      else match skipWhitespace rest with
        | '}' :: rest => some (.object [], rest)
        | _ => (parseMembers fuel (depth - 1) rest).map fun (members, rest) => (.object members, rest)
    | 'n' :: 'u' :: 'l' :: 'l' :: rest => some (.null, rest)
    | 't' :: 'r' :: 'u' :: 'e' :: rest => some (.bool true, rest)
    | 'f' :: 'a' :: 'l' :: 's' :: 'e' :: rest => some (.bool false, rest)
    | text => parseNumber text

/-- The items of an array that has some, and its end. -/
def parseItems : ℕ → ℕ → Text → Option (List Doc × Text)
  | 0, _, _ => none
  | fuel + 1, depth, text => do
    let (item, rest) ← parseValue fuel depth text
    match skipWhitespace rest with
    | ',' :: rest => (parseItems fuel depth rest).map fun (items, rest) => (item :: items, rest)
    | ']' :: rest => some ([item], rest)
    | _ => none

/-- The members of an object that has some, and its end. -/
def parseMembers : ℕ → ℕ → Text → Option (List (Text × Doc) × Text)
  | 0, _, _ => none
  | fuel + 1, depth, text =>
    match skipWhitespace text with
    | '"' :: rest => do
      let (raw, rest) ← parseString rest
      match skipWhitespace rest with
      | ':' :: rest => do
        let (value, rest) ← parseValue fuel depth rest
        match skipWhitespace rest with
        | ',' :: rest =>
          (parseMembers fuel depth rest).map fun (members, rest) => ((raw, value) :: members, rest)
        | '}' :: rest => some ([(raw, value)], rest)
        | _ => none
      | _ => none
    | _ => none

end

/-- A whole text, nested less than 128 deep. -/
def document (text : Text) : Option Doc :=
  match parseValue (2 * text.length) 128 text with
  | some (doc, rest) => if (skipWhitespace rest).isEmpty then some doc else none
  | none => none

/-! ### Writing -/

mutual

def Doc.print : Doc → Text
  | .null => ['n', 'u', 'l', 'l']
  | .bool true => ['t', 'r', 'u', 'e']
  | .bool false => ['f', 'a', 'l', 's', 'e']
  | .number text => text
  | .string raw => '"' :: (raw ++ ['"'])
  | .array items => '[' :: (printItems items ++ [']'])
  | .object members => '{' :: (printMembers members ++ ['}'])

def printItems : List Doc → Text
  | [] => []
  | item :: items => item.print ++ if items.isEmpty then [] else ',' :: printItems items

def printMembers : List (Text × Doc) → Text
  | [] => []
  | (raw, value) :: members =>
    '"' :: (raw ++ '"' :: ':' :: (value.print ++
      if members.isEmpty then [] else ',' :: printMembers members))

end

/-! ### What is read is what is written -/

/-- There is no white space, in strings neither. -/
def Compact (text : Text) : Prop := ∀ c ∈ text, isWhitespace c = false

theorem Compact.append_right {s t : Text} (h : Compact (s ++ t)) : Compact t :=
  fun c hc => h c (List.mem_append_right s hc)

theorem Compact.of_cons {c : Char} {t : Text} (h : Compact (c :: t)) : Compact t :=
  fun c' hc => h c' (List.mem_cons_of_mem c hc)

theorem Compact.skip {text : Text} (h : Compact text) : skipWhitespace text = text := by
  cases text with
  | nil => rfl
  | cons c rest =>
    rw [skipWhitespace, List.dropWhile_cons_of_neg]
    simp [h c List.mem_cons_self]

theorem scanString_eq : ∀ {text raw rest : Text}, scanString text = some (raw, rest) →
    text = raw ++ '"' :: rest := by
  intro text
  induction text using scanString.induct with
  | case1 =>
    intro raw rest h
    simp [scanString] at h
  | case2 rest =>
    intro raw rest' h
    simp only [scanString, Option.some.injEq, Prod.mk.injEq] at h
    obtain ⟨rfl, rfl⟩ := h
    rfl
  | case3 c rest ih =>
    intro raw rest' h
    simp only [scanString, Option.map_eq_some_iff, Prod.exists, Prod.mk.injEq] at h
    obtain ⟨raw', rest'', h, rfl, rfl⟩ := h
    rw [ih h]
    rfl
  | case4 c rest hquote hescape hcontrol =>
    intro raw rest' h
    rw [scanString, if_pos hcontrol] at h
    · cases h
    all_goals assumption
  | case5 c rest hquote hescape hcontrol ih =>
    intro raw rest' h
    rw [scanString, if_neg hcontrol] at h
    · simp only [Option.map_eq_some_iff, Prod.exists, Prod.mk.injEq] at h
      obtain ⟨raw', rest'', h, rfl, rfl⟩ := h
      rw [ih h]
      rfl
    all_goals assumption

theorem parseString_eq {text raw rest : Text} (h : parseString text = some (raw, rest)) :
    text = raw ++ '"' :: rest :=
  scanString_eq (Option.filter_eq_some_iff.mp h).1

theorem parseNumber_eq {text rest : Text} {doc : Doc} (h : parseNumber text = some (doc, rest)) :
    text = doc.print ++ rest := by
  rw [parseNumber] at h
  split at h
  · simp only [Option.some.injEq, Prod.mk.injEq] at h
    obtain ⟨rfl, rfl⟩ := h
    rw [Doc.print, List.takeWhile_append_dropWhile]
  · cases h

/-- What each of the readers has read. -/
structure Reads (fuel : ℕ) : Prop where
  value : ∀ {depth text doc rest}, Compact text → parseValue fuel depth text = some (doc, rest) →
    text = doc.print ++ rest
  items : ∀ {depth text items rest}, Compact text → parseItems fuel depth text = some (items, rest) →
    items ≠ [] ∧ text = printItems items ++ ']' :: rest
  members : ∀ {depth text members rest}, Compact text →
    parseMembers fuel depth text = some (members, rest) →
      members ≠ [] ∧ text = printMembers members ++ '}' :: rest

theorem parseItems_eq {fuel : ℕ} (ih : Reads fuel) {depth : ℕ} {text rest : Text} {items : List Doc}
    (hcompact : Compact text) (h : parseItems (fuel + 1) depth text = some (items, rest)) :
    items ≠ [] ∧ text = printItems items ++ ']' :: rest := by
  simp only [parseItems, Option.bind_eq_bind, Option.bind_eq_some_iff, Prod.exists] at h
  obtain ⟨item, after, hitem, h⟩ := h
  obtain rfl := ih.value hcompact hitem
  have hafter := hcompact.append_right
  rw [hafter.skip] at h
  split at h
  · simp only [Option.map_eq_some_iff, Prod.exists, Prod.mk.injEq] at h
    obtain ⟨items', rest', h, rfl, rfl⟩ := h
    obtain ⟨hne, rfl⟩ := ih.items hafter.of_cons h
    refine ⟨List.cons_ne_nil _ _, ?_⟩
    rw [printItems, List.isEmpty_eq_false_iff.mpr hne]
    simp
  · simp only [Option.some.injEq, Prod.mk.injEq] at h
    obtain ⟨rfl, rfl⟩ := h
    refine ⟨List.cons_ne_nil _ _, ?_⟩
    simp [printItems]
  · cases h

theorem parseMembers_eq {fuel : ℕ} (ih : Reads fuel) {depth : ℕ} {text rest : Text}
    {members : List (Text × Doc)} (hcompact : Compact text)
    (h : parseMembers (fuel + 1) depth text = some (members, rest)) :
    members ≠ [] ∧ text = printMembers members ++ '}' :: rest := by
  rw [parseMembers, hcompact.skip] at h
  split at h
  case h_2 => cases h
  simp only [Option.bind_eq_bind, Option.bind_eq_some_iff, Prod.exists] at h
  obtain ⟨raw, after, hraw, h⟩ := h
  obtain rfl := parseString_eq hraw
  have hafter := hcompact.of_cons.append_right.of_cons
  rw [hafter.skip] at h
  split at h
  case h_2 => cases h
  simp only [Option.bind_eq_some_iff, Prod.exists] at h
  obtain ⟨value, after, hvalue, h⟩ := h
  obtain rfl := ih.value hafter.of_cons hvalue
  have hafter := hafter.of_cons.append_right
  rw [hafter.skip] at h
  split at h
  · simp only [Option.map_eq_some_iff, Prod.exists, Prod.mk.injEq] at h
    obtain ⟨members', rest', h, rfl, rfl⟩ := h
    obtain ⟨hne, rfl⟩ := ih.members hafter.of_cons h
    refine ⟨List.cons_ne_nil _ _, ?_⟩
    rw [printMembers, List.isEmpty_eq_false_iff.mpr hne]
    simp
  · simp only [Option.some.injEq, Prod.mk.injEq] at h
    obtain ⟨rfl, rfl⟩ := h
    refine ⟨List.cons_ne_nil _ _, ?_⟩
    simp [printMembers]
  · cases h

theorem parseValue_eq {fuel : ℕ} (ih : Reads fuel) {depth : ℕ} {text rest : Text} {doc : Doc}
    (hcompact : Compact text) (h : parseValue (fuel + 1) depth text = some (doc, rest)) :
    text = doc.print ++ rest := by
  rw [parseValue, hcompact.skip] at h
  split at h
  · simp only [Option.map_eq_some_iff, Prod.exists, Prod.mk.injEq] at h
    obtain ⟨raw, rest', h, rfl, rfl⟩ := h
    rw [parseString_eq h]
    simp [Doc.print]
  · split at h
    · cases h
    rw [hcompact.of_cons.skip] at h
    split at h
    · simp only [Option.some.injEq, Prod.mk.injEq] at h
      obtain ⟨rfl, rfl⟩ := h
      rfl
    · simp only [Option.map_eq_some_iff, Prod.exists, Prod.mk.injEq] at h
      obtain ⟨items, rest', h, rfl, rfl⟩ := h
      rw [(ih.items hcompact.of_cons h).2]
      simp [Doc.print]
  · split at h
    · cases h
    rw [hcompact.of_cons.skip] at h
    split at h
    · simp only [Option.some.injEq, Prod.mk.injEq] at h
      obtain ⟨rfl, rfl⟩ := h
      rfl
    · simp only [Option.map_eq_some_iff, Prod.exists, Prod.mk.injEq] at h
      obtain ⟨members, rest', h, rfl, rfl⟩ := h
      rw [(ih.members hcompact.of_cons h).2]
      simp [Doc.print]
  case h_7 => exact parseNumber_eq h
  all_goals
    simp only [Option.some.injEq, Prod.mk.injEq] at h
    obtain ⟨rfl, rfl⟩ := h
    rfl

theorem reads : ∀ fuel : ℕ, Reads fuel
  | 0 => ⟨fun _ h => by simp [parseValue] at h, fun _ h => by simp [parseItems] at h,
      fun _ h => by simp [parseMembers] at h⟩
  | fuel + 1 => ⟨parseValue_eq (reads fuel), parseItems_eq (reads fuel), parseMembers_eq (reads fuel)⟩

/-- CORRECT: a text without white space is that of its document. -/
theorem print_of_document {text : Text} {doc : Doc} (hcompact : Compact text)
    (h : document text = some doc) : doc.print = text := by
  rw [document] at h
  split at h
  · next doc' rest hparse =>
    have htext := (reads _).value hcompact hparse
    split_ifs at h with hend
    obtain rfl := Option.some.inj h
    have hrest : Compact rest := fun c hc => hcompact c (by rw [htext]; exact List.mem_append_right _ hc)
    rw [hrest.skip, List.isEmpty_iff] at hend
    rw [htext, hend, List.append_nil]
  · cases h

/-! ### Plain strings -/

/-- Text that stands for itself in a string. -/
def Plain (text : Text) : Prop := ∀ c ∈ text, c ≠ '"' ∧ c ≠ '\\' ∧ 32 ≤ c.toNat

theorem scanUnits_literal : ∀ {text : Text}, '\\' ∉ text → scanUnits text = some (text.map .inl)
  | [], _ => rfl
  | c :: text, h => by
    obtain ⟨hc, htext⟩ := not_or.mp (List.mem_cons.not.mp h)
    rw [scanUnits, if_neg (Ne.symm hc), scanUnits_literal htext]
    · rfl
    · rintro a b c' d rest rfl
      exact absurd rfl hc
    · rintro c' rest rfl
      exact absurd rfl hc

theorem joinUnits_literal : ∀ text : Text, joinUnits (text.map .inl) = some text
  | [] => rfl
  | c :: text => by
    rw [List.map_cons, joinUnits, joinUnits_literal text]
    rfl

/-- What is written without an escape stands for itself. -/
theorem unescape_literal {text : Text} (h : '\\' ∉ text) : unescape text = some text := by
  rw [unescape, scanUnits_literal h]
  exact joinUnits_literal text

theorem scanString_plain : ∀ {text : Text}, Plain text → ∀ rest,
    scanString (text ++ '"' :: rest) = some (text, rest)
  | [], _, rest => rfl
  | c :: text, h, rest => by
    obtain ⟨hquote, hescape, hcontrol⟩ := h c List.mem_cons_self
    rw [List.cons_append, scanString, if_neg (by omega),
      scanString_plain (fun c' hc => h c' (List.mem_cons_of_mem c hc)) rest]
    · rfl
    · rintro rfl
      exact absurd rfl hquote
    · rintro c' rest' rfl
      exact absurd rfl hescape

theorem Plain.literal {text : Text} (h : Plain text) : '\\' ∉ text :=
  fun hmem => (h _ hmem).2.1 rfl

theorem parseString_plain {text : Text} (h : Plain text) (rest : Text) :
    parseString (text ++ '"' :: rest) = some (text, rest) := by
  rw [parseString, scanString_plain h rest]
  simp [unescape_literal h.literal]

/-! ### What is written is read -/

/-- Strings that can be written so. -/
def IsRaw (raw : Text) : Prop := ∀ rest, parseString (raw ++ '"' :: rest) = some (raw, rest)

mutual

/-- Documents that are nested less than a depth, of strings and numbers as they are written. -/
def Doc.Valid : ℕ → Doc → Prop
  | _, .null => True
  | _, .bool _ => True
  | _, .number text => isNumber text = true ∧ ∀ c ∈ text, isNumberChar c = true
  | _, .string raw => IsRaw raw
  | depth, .array items => 1 < depth ∧ ValidItems (depth - 1) items
  | depth, .object members => 1 < depth ∧ ValidMembers (depth - 1) members

def ValidItems : ℕ → List Doc → Prop
  | _, [] => True
  | depth, item :: items => item.Valid depth ∧ ValidItems depth items

def ValidMembers : ℕ → List (Text × Doc) → Prop
  | _, [] => True
  | depth, (raw, value) :: members => IsRaw raw ∧ value.Valid depth ∧ ValidMembers depth members

end

/-- A number that stands before this has ended. -/
def Ends (rest : Text) : Prop := ∀ c ∈ rest.head?, isNumberChar c = false

theorem ends_cons {c : Char} (h : isNumberChar c = false) (rest : Text) : Ends (c :: rest) := by
  intro c' hc
  rwa [← Option.some.inj hc]

theorem ends_nil : Ends [] := nofun

theorem skipWhitespace_cons {c : Char} (h : isWhitespace c = false) (rest : Text) :
    skipWhitespace (c :: rest) = c :: rest :=
  List.dropWhile_cons_of_neg (by simp [h])

theorem number_ne_nil {text : Text} (h : isNumber text = true) : text ≠ [] := by
  rintro rfl
  simp [isNumber] at h

theorem takeWhile_number {text rest : Text} (htext : ∀ c ∈ text, isNumberChar c = true)
    (hrest : Ends rest) :
    (text ++ rest).takeWhile isNumberChar = text ∧ (text ++ rest).dropWhile isNumberChar = rest := by
  rw [List.takeWhile_append_of_pos htext, List.dropWhile_append_of_pos htext]
  cases rest with
  | nil => simp
  | cons c rest => simp [hrest c rfl]

theorem parseNumber_append {text rest : Text} (hnumber : isNumber text = true)
    (htext : ∀ c ∈ text, isNumberChar c = true) (hrest : Ends rest) :
    parseNumber (text ++ rest) = some (.number text, rest) := by
  obtain ⟨htake, hdrop⟩ := takeWhile_number htext hrest
  rw [parseNumber, htake, hdrop, if_pos hnumber]

/-- What begins a number begins nothing else. -/
theorem number_head {c : Char} (h : isNumberChar c = true) :
    isWhitespace c = false ∧ c ≠ '"' ∧ c ≠ '[' ∧ c ≠ '{' ∧ c ≠ 'n' ∧ c ≠ 't' ∧ c ≠ 'f' ∧ c ≠ ']' := by
  refine ⟨?_, ?_, ?_, ?_, ?_, ?_, ?_, ?_⟩
  · rw [Bool.eq_false_iff]
    intro hspace
    simp only [isWhitespace, Bool.or_eq_true, beq_iff_eq] at hspace
    rcases hspace with ((rfl | rfl) | rfl) | rfl <;> exact absurd h (by decide)
  all_goals
    rintro rfl
    exact absurd h (by decide)

/-- A document begins with a character that is no white space and ends no array. -/
theorem Doc.head {doc : Doc} {depth : ℕ} (h : doc.Valid depth) :
    ∃ c rest, doc.print = c :: rest ∧ isWhitespace c = false ∧ c ≠ ']' := by
  cases doc with
  | null => exact ⟨_, _, rfl, by decide, by decide⟩
  | bool b => cases b <;> exact ⟨_, _, rfl, by decide, by decide⟩
  | number text =>
    cases text with
    | nil => exact absurd rfl (number_ne_nil h.1)
    | cons c rest =>
      have hhead := number_head (h.2 c List.mem_cons_self)
      exact ⟨c, rest, rfl, hhead.1, hhead.2.2.2.2.2.2.2⟩
  | string raw => exact ⟨_, _, rfl, by decide, by decide⟩
  | array items => exact ⟨_, _, rfl, by decide, by decide⟩
  | object members => exact ⟨_, _, rfl, by decide, by decide⟩

theorem printItems_cons (item : Doc) (items : List Doc) (hne : items ≠ []) :
    printItems (item :: items) = item.print ++ ',' :: printItems items := by
  rw [printItems, List.isEmpty_eq_false_iff.mpr hne]
  rfl

theorem printMembers_cons (raw : Text) (value : Doc) (members : List (Text × Doc))
    (hne : members ≠ []) :
    printMembers ((raw, value) :: members) =
      '"' :: (raw ++ '"' :: ':' :: (value.print ++ ',' :: printMembers members)) := by
  rw [printMembers, List.isEmpty_eq_false_iff.mpr hne]
  rfl

theorem parseValue_number {fuel depth : ℕ} {text rest : Text} (hnumber : isNumber text = true)
    (htext : ∀ c ∈ text, isNumberChar c = true) (hrest : Ends rest) :
    parseValue (fuel + 1) depth (text ++ rest) = some (.number text, rest) := by
  cases text with
  | nil => exact absurd rfl (number_ne_nil hnumber)
  | cons c text =>
    obtain ⟨hspace, hstring, harray, hobject, hn, ht, hf, -⟩ := number_head (htext c List.mem_cons_self)
    rw [parseValue, List.cons_append, skipWhitespace_cons hspace]
    split
    case h_7 => exact parseNumber_append hnumber htext hrest
    all_goals
      next heq =>
      have hc := (List.cons.inj heq).1
      contradiction

theorem parseValue_array {fuel depth : ℕ} {text rest : Text} {items : List Doc} (hdepth : 1 < depth)
    (hhead : ∃ c t, text = c :: t ∧ isWhitespace c = false ∧ c ≠ ']')
    (hitems : parseItems fuel (depth - 1) text = some (items, rest)) :
    parseValue (fuel + 1) depth ('[' :: text) = some (.array items, rest) := by
  obtain ⟨c, t, rfl, hspace, hne⟩ := hhead
  rw [parseValue, skipWhitespace_cons (by decide)]
  simp only [skipWhitespace_cons hspace, if_neg (by omega : ¬ depth ≤ 1)]
  split
  · next heq => exact absurd (List.cons.inj heq).1 hne
  · rw [hitems]
    rfl

theorem parseValue_object {fuel depth : ℕ} {text rest : Text} {members : List (Text × Doc)}
    (hdepth : 1 < depth)
    (hmembers : parseMembers fuel (depth - 1) ('"' :: text) = some (members, rest)) :
    parseValue (fuel + 1) depth ('{' :: '"' :: text) = some (.object members, rest) := by
  rw [parseValue, skipWhitespace_cons (by decide)]
  simp only [skipWhitespace_cons (by decide : isWhitespace '"' = false),
    if_neg (by omega : ¬ depth ≤ 1), hmembers]
  rfl

mutual

theorem Doc.parse_print : ∀ (doc : Doc) {depth fuel : ℕ} {rest : Text}, doc.Valid depth →
    2 * doc.print.length ≤ fuel → Ends rest →
    parseValue fuel depth (doc.print ++ rest) = some (doc, rest)
  | .null, depth, fuel + 1, rest, _, _, _ => rfl
  | .bool true, depth, fuel + 1, rest, _, _, _ => rfl
  | .bool false, depth, fuel + 1, rest, _, _, _ => rfl
  | .number text, depth, fuel + 1, rest, hvalid, _, hrest => parseValue_number hvalid.1 hvalid.2 hrest
  | .string raw, depth, fuel + 1, rest, hvalid, _, _ => by
    rw [Doc.print, parseValue]
    simp only [List.cons_append, List.append_assoc, List.nil_append,
      skipWhitespace_cons (by decide : isWhitespace '"' = false)]
    rw [hvalid rest]
    rfl
  | .array [], depth, fuel + 1, rest, hvalid, _, _ => by
    have hdepth : ¬ depth ≤ 1 := by have := hvalid.1; omega
    simp [Doc.print, printItems, parseValue, skipWhitespace_cons, isWhitespace, hdepth]
  | .array (item :: items), depth, fuel + 1, rest, hvalid, hfuel, _ => by
    obtain ⟨c, t, hprint, hspace, hne⟩ := Doc.head hvalid.2.1
    have hlength : (Doc.array (item :: items)).print.length = (printItems (item :: items)).length + 2 := by
      simp [Doc.print]
    have hitems := @parse_printItems (item :: items) (depth - 1) fuel rest (List.cons_ne_nil _ _)
      hvalid.2 (by omega)
    have hhead : ∃ c t, printItems (item :: items) ++ ']' :: rest = c :: t ∧ isWhitespace c = false ∧
        c ≠ ']' := by
      rw [printItems, hprint]
      exact ⟨c, _, rfl, hspace, hne⟩
    rw [Doc.print, List.cons_append, List.append_assoc]
    exact parseValue_array hvalid.1 hhead hitems
  | .object [], depth, fuel + 1, rest, hvalid, _, _ => by
    have hdepth : ¬ depth ≤ 1 := by have := hvalid.1; omega
    simp [Doc.print, printMembers, parseValue, skipWhitespace_cons, isWhitespace, hdepth]
  | .object ((raw, value) :: members), depth, fuel + 1, rest, hvalid, hfuel, _ => by
    have hlength : (Doc.object ((raw, value) :: members)).print.length =
        (printMembers ((raw, value) :: members)).length + 2 := by
      simp [Doc.print]
    have hmembers := @parse_printMembers ((raw, value) :: members) (depth - 1) fuel rest
      (List.cons_ne_nil _ _) hvalid.2 (by omega)
    rw [Doc.print, List.cons_append, List.append_assoc]
    rw [printMembers, List.cons_append] at hmembers ⊢
    exact parseValue_object hvalid.1 hmembers
  | doc, depth, 0, rest, hvalid, hfuel, _ => by
    obtain ⟨c, t, hprint, -⟩ := Doc.head hvalid
    rw [hprint] at hfuel
    simp at hfuel

theorem parse_printItems : ∀ (items : List Doc) {depth fuel : ℕ} {rest : Text}, items ≠ [] →
    ValidItems depth items → 2 * (printItems items).length + 1 ≤ fuel →
    parseItems fuel depth (printItems items ++ ']' :: rest) = some (items, rest)
  | [], _, _, _, hne, _, _ => absurd rfl hne
  | _ :: _, _, 0, _, _, _, hfuel => by omega
  | [item], depth, fuel + 1, rest, _, hvalid, hfuel => by
    have hprint : printItems [item] = item.print := by simp [printItems]
    rw [hprint] at hfuel ⊢
    rw [parseItems, Doc.parse_print item hvalid.1 (by omega) (ends_cons (by decide) rest)]
    rfl
  | item :: next :: items, depth, fuel + 1, rest, _, hvalid, hfuel => by
    rw [printItems_cons item _ (List.cons_ne_nil next items)] at hfuel ⊢
    rw [List.length_append, List.length_cons] at hfuel
    rw [List.append_assoc, List.cons_append, parseItems,
      Doc.parse_print item hvalid.1 (by omega) (ends_cons (by decide) _)]
    simp only [Option.bind_eq_bind, Option.bind_some,
      skipWhitespace_cons (by decide : isWhitespace ',' = false)]
    rw [parse_printItems (next :: items) (List.cons_ne_nil _ _) hvalid.2 (by omega)]
    rfl

theorem parse_printMembers : ∀ (members : List (Text × Doc)) {depth fuel : ℕ} {rest : Text},
    members ≠ [] → ValidMembers depth members → 2 * (printMembers members).length + 1 ≤ fuel →
    parseMembers fuel depth (printMembers members ++ '}' :: rest) = some (members, rest)
  | [], _, _, _, hne, _, _ => absurd rfl hne
  | _ :: _, _, 0, _, _, _, hfuel => by omega
  | [(raw, value)], depth, fuel + 1, rest, _, hvalid, hfuel => by
    have hprint : printMembers [(raw, value)] = '"' :: (raw ++ '"' :: ':' :: value.print) := by
      simp [printMembers]
    rw [hprint] at hfuel ⊢
    simp only [List.length_cons, List.length_append] at hfuel
    have hvalue := @Doc.parse_print value depth fuel ('}' :: rest) hvalid.2.1 (by omega)
      (ends_cons (by decide) rest)
    rw [List.cons_append, List.append_assoc, parseMembers, skipWhitespace_cons (by decide)]
    simp only [List.cons_append, hvalid.1 _, Option.bind_eq_bind, Option.bind_some,
      skipWhitespace_cons (by decide : isWhitespace ':' = false), hvalue,
      skipWhitespace_cons (by decide : isWhitespace '}' = false)]
  | (raw, value) :: next :: members, depth, fuel + 1, rest, _, hvalid, hfuel => by
    rw [printMembers_cons raw value _ (List.cons_ne_nil next members)] at hfuel ⊢
    simp only [List.length_cons, List.length_append] at hfuel
    have hvalue := @Doc.parse_print value depth fuel
      (',' :: (printMembers (next :: members) ++ '}' :: rest)) hvalid.2.1 (by omega)
      (ends_cons (by decide) _)
    have hmembers := @parse_printMembers (next :: members) depth fuel rest (List.cons_ne_nil _ _)
      hvalid.2.2 (by omega)
    rw [List.cons_append, List.append_assoc, parseMembers, skipWhitespace_cons (by decide)]
    simp only [List.cons_append, List.append_assoc, hvalid.1 _, Option.bind_eq_bind, Option.bind_some,
      skipWhitespace_cons (by decide : isWhitespace ':' = false), hvalue,
      skipWhitespace_cons (by decide : isWhitespace ',' = false), hmembers]
    rfl

end

/-- CORRECT: a document is read from its text. -/
theorem document_print {doc : Doc} (h : doc.Valid 128) : document doc.print = some doc := by
  have hparse := Doc.parse_print doc h le_rfl ends_nil
  rw [List.append_nil] at hparse
  rw [document, hparse]
  rfl

end Schemes.JsonText
