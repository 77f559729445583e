import Rustodon.Schemes.JsonText
import Rustodon.Schemes.Matches

/-! @scheme json-maps | name:Values of JSON texts

    The value of a text has sorted maps for its objects, in which the last entry of a key counts, so
    that two maps are equal when their lookups are. -/

namespace Schemes.JsonMaps
open Schemes.Json Schemes.JsonText Schemes.Matches
open Schemes.Utf8 (Text)

/-! ### Sorted maps -/

/-- `Map::insert`. -/
def insertKey (key : String) (value : Value) : Fields → Fields
  | [] => [(key, value)]
  | (k, v) :: rest =>
    if key < k then (key, value) :: (k, v) :: rest
    else if key = k then (key, value) :: rest
    else (k, v) :: insertKey key value rest

def Sorted (fields : Fields) : Prop := fields.Pairwise fun field field' => field.1 < field'.1

/-- The map of entries in the order in which they come. -/
def collect (entries : Fields) : Fields :=
  entries.foldl (fun map entry => insertKey entry.1 entry.2 map) []

theorem mem_insertKey {key : String} {value : Value} {field : String × Value} :
    ∀ {fields : Fields}, field ∈ insertKey key value fields → field.1 = key ∨ field ∈ fields
  | [], h => by
    obtain rfl := List.mem_singleton.mp h
    exact .inl rfl
  | (k, v) :: rest, h => by
    rw [insertKey] at h
    split_ifs at h with hlt heq
    · rcases List.mem_cons.mp h with rfl | h
      · exact .inl rfl
      · exact .inr h
    · rcases List.mem_cons.mp h with rfl | h
      · exact .inl rfl
      · exact .inr (List.mem_cons_of_mem _ h)
    · rcases List.mem_cons.mp h with rfl | h
      · exact .inr List.mem_cons_self
      · exact (mem_insertKey h).imp id (List.mem_cons_of_mem _)

theorem sorted_insertKey (key : String) (value : Value) : ∀ {fields : Fields}, Sorted fields →
    Sorted (insertKey key value fields)
  | [], _ => List.pairwise_singleton _ _
  | (k, v) :: rest, h => by
    obtain ⟨hhead, hrest⟩ := List.pairwise_cons.mp h
    rw [insertKey]
    split_ifs with hlt heq
    · refine List.pairwise_cons.mpr ⟨fun field hfield => ?_, h⟩
      rcases List.mem_cons.mp hfield with rfl | hfield
      · exact hlt
      · exact hlt.trans (hhead field hfield)
    · subst heq
      exact List.pairwise_cons.mpr ⟨hhead, hrest⟩
    · refine List.pairwise_cons.mpr ⟨fun field hfield => ?_, sorted_insertKey key value hrest⟩
      rcases mem_insertKey hfield with hkey | hfield
      · rw [hkey]
        exact lt_of_le_of_ne (not_lt.mp hlt) (Ne.symm heq)
      · exact hhead field hfield

theorem sorted_collect (entries : Fields) : Sorted (collect entries) := by
  induction entries using List.reverseRecOn with
  | nil => exact List.Pairwise.nil
  | append_singleton entries entry ih =>
    rw [collect, List.foldl_append]
    exact sorted_insertKey entry.1 entry.2 ih

theorem get_cons (key k : String) (v : Value) (fields : Fields) :
    Schemes.Json.get ((k, v) :: fields) key =
      if key = k then some v else Schemes.Json.get fields key := by
  rw [Schemes.Json.get, List.lookup_cons]
  rcases eq_or_ne key k with rfl | hne
  · simp
  · rw [beq_false_of_ne hne, if_neg hne]
    rfl

theorem get_insertKey (key : String) (value : Value) (key' : String) : ∀ fields : Fields,
    Schemes.Json.get (insertKey key value fields) key' =
      if key' = key then some value else Schemes.Json.get fields key'
  | [] => get_cons key' key value []
  | (k, v) :: rest => by
    rw [insertKey]
    by_cases hlt : key < k
    · rw [if_pos hlt, get_cons]
    · rw [if_neg hlt]
      by_cases heq : key = k
      · subst heq
        rw [if_pos rfl, get_cons, get_cons]
        split_ifs <;> rfl
      · rw [if_neg heq, get_cons, get_cons, get_insertKey key value key' rest]
        rcases eq_or_ne key' k with rfl | hne
        · rw [if_pos rfl, if_pos rfl, if_neg (Ne.symm heq)]
        · rw [if_neg hne, if_neg hne]

/-- In a map is the last value that a key has been given. -/
theorem get_collect (entries : Fields) (key : String) :
    Schemes.Json.get (collect entries) key = Schemes.Json.get entries.reverse key := by
  induction entries using List.reverseRecOn with
  | nil => rfl
  | append_singleton entries entry ih =>
    rw [collect, List.foldl_append, List.reverse_append]
    exact (get_insertKey entry.1 entry.2 key _).trans (by rw [← collect, ih, ← get_cons]; rfl)

theorem get_eq_none_of_lt {key : String} {fields : Fields}
    (h : ∀ field ∈ fields, key < field.1) : Schemes.Json.get fields key = none := by
  rw [Schemes.Json.get, List.lookup_eq_none_iff]
  intro field hfield
  simpa using (h field hfield).ne

/-- Sorted maps are told by their lookups. -/
theorem eq_of_get : ∀ {fields fields' : Fields}, Sorted fields → Sorted fields' →
    (∀ key, Schemes.Json.get fields key = Schemes.Json.get fields' key) → fields = fields'
  | [], [], _, _, _ => rfl
  | [], (k, v) :: rest, _, _, h => by
    have hk := h k
    rw [get_cons, if_pos rfl] at hk
    cases hk
  | (k, v) :: rest, [], _, _, h => by
    have hk := h k
    rw [get_cons, if_pos rfl] at hk
    cases hk
  | (k, v) :: rest, (k', v') :: rest', hsorted, hsorted', h => by
    obtain ⟨hhead, hrest⟩ := List.pairwise_cons.mp hsorted
    obtain ⟨hhead', hrest'⟩ := List.pairwise_cons.mp hsorted'
    have hkeys : k = k' := by
      rcases lt_trichotomy k k' with hlt | heq | hlt
      · have hnone : Schemes.Json.get ((k', v') :: rest') k = none := get_eq_none_of_lt (by
          rintro field hfield
          rcases List.mem_cons.mp hfield with rfl | hfield
          · exact hlt
          · exact hlt.trans (hhead' field hfield))
        have hk := h k
        rw [hnone, get_cons, if_pos rfl] at hk
        cases hk
      · exact heq
      · have hnone : Schemes.Json.get ((k, v) :: rest) k' = none := get_eq_none_of_lt (by
          rintro field hfield
          rcases List.mem_cons.mp hfield with rfl | hfield
          · exact hlt
          · exact hlt.trans (hhead field hfield))
        have hk := h k'
        rw [hnone, get_cons, if_pos rfl] at hk
        cases hk
    subst hkeys
    have hvalue := h k
    rw [get_cons, get_cons, if_pos rfl, if_pos rfl] at hvalue
    obtain rfl := Option.some.inj hvalue
    rw [eq_of_get hrest hrest' fun key => ?_]
    rcases eq_or_ne key k with rfl | hne
    · rw [get_eq_none_of_lt hhead, get_eq_none_of_lt hhead']
    · have hk := h key
      rwa [get_cons, get_cons, if_neg hne, if_neg hne] at hk

/-! ### Values -/

/-- A number keeps its text. -/
def numeral (text : Text) : Number :=
  match (String.ofList text).toInt? with
  | some n => .int n
  | none => .other (String.ofList text)

/-- The key under which a number travels inside the library. -/
def numberToken : String := "$serde_json::private::Number"

/-- The value of an object: a map, or a number where the first key is the one of numbers. -/
def objectValue (entries : Fields) : Option Value :=
  match entries with
  | (key, value) :: rest =>
    if key = numberToken then
      match value, rest with
      | .string text, [] => if isNumber text.toList then some (.number (numeral text.toList)) else none
      | _, _ => none
    else some (.object (collect ((key, value) :: rest)))
  | [] => some (.object [])

mutual

def docValue : Doc → Option Value
  | .null => some .null
  | .bool b => some (.bool b)
  | .number text => some (.number (numeral text))
  | .string raw => (unescape raw).map fun text => .string (String.ofList text)
  | .array items => (itemValues items).map .array
  | .object members => (memberValues members).bind objectValue

def itemValues : List Doc → Option (List Value)
  | [] => some []
  | item :: items => do
    let value ← docValue item
    let values ← itemValues items
    some (value :: values)

def memberValues : List (Text × Doc) → Option Fields
  | [] => some []
  | (raw, doc) :: members => do
    let key ← unescape raw
    let value ← docValue doc
    let entries ← memberValues members
    some ((String.ofList key, value) :: entries)

end

/-- `serde_json::from_str`. -/
def fromStr (text : Text) : Option Value := (document text).bind docValue

/-! ### Members -/

/-- The last member of a key. -/
def lastMember (key : Text) : List (Text × Doc) → Option Doc
  | [] => none
  | (raw, doc) :: members =>
    (lastMember key members).or (if unescape raw = some key then some doc else none)

theorem memberValues_cons {raw : Text} {doc : Doc} {members : List (Text × Doc)} {entries : Fields}
    (h : memberValues ((raw, doc) :: members) = some entries) :
    ∃ key value rest, unescape raw = some key ∧ docValue doc = some value ∧
      memberValues members = some rest ∧ entries = (String.ofList key, value) :: rest := by
  simp only [memberValues, Option.bind_eq_bind, Option.bind_eq_some_iff, Option.some.injEq] at h
  obtain ⟨key, hkey, value, hvalue, rest, hrest, rfl⟩ := h
  exact ⟨key, value, rest, hkey, hvalue, hrest, rfl⟩

/-- A lookup finds the value of the last member. -/
theorem get_lastMember (key : String) : ∀ {members : List (Text × Doc)} {entries : Fields},
    memberValues members = some entries →
      (lastMember key.toList members).map docValue = (Schemes.Json.get entries.reverse key).map some
  | [], entries, h => by
    obtain rfl := Option.some.inj h
    rfl
  | (raw, doc) :: members, entries, h => by
    obtain ⟨key', value, rest, hkey, hvalue, hrest, rfl⟩ := memberValues_cons h
    have hsame : unescape raw = some key.toList ↔ key = String.ofList key' := by
      rw [hkey, Option.some.injEq]
      constructor
      · rintro rfl
        rw [String.ofList_toList]
      · rintro rfl
        rw [String.toList_ofList]
    rw [List.reverse_cons, get_append, get_cons, lastMember, Option.map_or, Option.map_or,
      get_lastMember key hrest]
    by_cases hname : key = String.ofList key'
    · rw [if_pos (hsame.mpr hname), if_pos hname, Option.map_some, hvalue]
      rfl
    · rw [if_neg (hsame.not.mpr hname), if_neg hname]
      rfl

theorem get_ne_none_of_member {raw key : Text} (hkey : unescape raw = some key) :
    ∀ {members : List (Text × Doc)} {entries : Fields}, memberValues members = some entries →
      raw ∈ members.map Prod.fst → Schemes.Json.get entries.reverse (String.ofList key) ≠ none := by
  intro members entries h hmem hnone
  obtain ⟨⟨raw', doc⟩, hmember, rfl⟩ := List.mem_map.mp hmem
  have hfound : ∀ {members : List (Text × Doc)}, (raw', doc) ∈ members →
      lastMember key members ≠ none := by
    intro members hmember
    induction members with
    | nil => cases hmember
    | cons member members ih =>
      rw [lastMember]
      rcases List.mem_cons.mp hmember with rfl | hmember
      · rw [if_pos hkey]
        simp
      · simp [ih hmember]
  have hlast := get_lastMember (String.ofList key) h
  rw [hnone, String.toList_ofList, Option.map_none, Option.map_eq_none_iff] at hlast
  exact hfound hmember hlast

/-- A document that is a member stands in the text of its object. -/
theorem print_lastMember {key : Text} {doc : Doc} : ∀ {members : List (Text × Doc)},
    lastMember key members = some doc →
      ∃ before after, printMembers members = before ++ (doc.print ++ after)
  | [], h => by cases h
  | (raw, value) :: members, h => by
    rw [lastMember, Option.or_eq_some_iff] at h
    rcases h with h | ⟨-, h⟩
    · obtain ⟨before, after, hprint⟩ := print_lastMember h
      have hne : members ≠ [] := by
        rintro rfl
        cases h
      refine ⟨'"' :: (raw ++ '"' :: ':' :: (value.print ++ ',' :: before)), after, ?_⟩
      rw [printMembers_cons raw value members hne, hprint]
      simp
    · split_ifs at h
      obtain rfl := Option.some.inj h
      refine ⟨'"' :: (raw ++ ['"', ':']), if members.isEmpty then [] else ',' :: printMembers members, ?_⟩
      rw [printMembers]
      simp

/-- A key as it is written. -/
def quoted (raw : Text) : Text := '"' :: (raw ++ ['"'])

theorem quoted_ne_nil (raw : Text) : quoted raw ≠ [] := List.cons_ne_nil _ _

/-- A key that is written twice matches twice. -/
theorem count_le_countMatches (raw : Text) (after : Text) : ∀ members : List (Text × Doc),
    (members.map Prod.fst).count raw ≤ countMatches (quoted raw) (printMembers members ++ after)
  | [] => Nat.zero_le _
  | (raw', value) :: members => by
    have ih := count_le_countMatches raw after members
    obtain ⟨between, hprint⟩ : ∃ between,
        printMembers ((raw', value) :: members) ++ after =
          quoted raw' ++ (between ++ (printMembers members ++ after)) := by
      rcases eq_or_ne members [] with rfl | hne
      · exact ⟨':' :: value.print, by simp [printMembers, quoted]⟩
      · refine ⟨':' :: (value.print ++ [',']), ?_⟩
        rw [printMembers_cons raw' value members hne]
        simp [quoted]
    have hrest := ih.trans (countMatches_le_append (quoted_ne_nil _) between _)
    rw [List.map_cons, hprint]
    rcases eq_or_ne raw' raw with rfl | hne
    · rw [List.count_cons_self, countMatches_append (quoted_ne_nil _)]
      exact Nat.succ_le_succ hrest
    · rw [List.count_cons_of_ne hne]
      exact hrest.trans (countMatches_le_append (quoted_ne_nil _) _ _)

/-! ### Writing -/

/-- A character below 16 in hexadecimal. -/
def hexChar (n : ℕ) : Char := Char.ofNat (if n < 10 then 48 + n else 87 + n)

def escapeChar (c : Char) : Text :=
  if c = '"' ∨ c = '\\' then ['\\', c]
  else if 32 ≤ c.toNat then [c]
  else if c.toNat = 8 then ['\\', 'b']
  else if c.toNat = 9 then ['\\', 't']
  else if c.toNat = 10 then ['\\', 'n']
  else if c.toNat = 12 then ['\\', 'f']
  else if c.toNat = 13 then ['\\', 'r']
  else ['\\', 'u', '0', '0', hexChar (c.toNat / 16), hexChar (c.toNat % 16)]

def escape (text : Text) : Text := text.flatMap escapeChar

def numeralText : Number → Text
  | .int n => (toString n).toList
  | .other text => text.toList

mutual

def valueDoc : Value → Doc
  | .null => .null
  | .bool b => .bool b
  | .number n => .number (numeralText n)
  | .string s => .string (escape s.toList)
  | .array items => .array (itemDocs items)
  | .object fields => .object (fieldDocs fields)

def itemDocs : List Value → List Doc
  | [] => []
  | item :: items => valueDoc item :: itemDocs items

def fieldDocs : Fields → List (Text × Doc)
  | [] => []
  | (key, value) :: fields => (escape key.toList, valueDoc value) :: fieldDocs fields

end

/-- `serde_json::to_string`. -/
def jsonText (value : Value) : Text := (valueDoc value).print

theorem escape_plain {text : Text} (h : Plain text) : escape text = text := by
  induction text with
  | nil => rfl
  | cons c text ih =>
    obtain ⟨hquote, hescape, hcontrol⟩ := h c List.mem_cons_self
    rw [escape, List.flatMap_cons, ← escape, ih fun c' hc => h c' (List.mem_cons_of_mem c hc),
      escapeChar, if_neg (by simp [hquote, hescape]), if_pos hcontrol]
    rfl

end Schemes.JsonMaps
