import Rustodon.Schemes.Json

/-! @scheme jsonb | name:JSON in queries

    The operators of `jsonb` columns. What SQL calls NULL is `none`, and an expression that cannot be
    evaluated is an error of the whole query. -/

namespace Schemes.Jsonb
open Json

inductive SqlError where
  | invalidText
  deriving DecidableEq, Repr

abbrev Sql := Except SqlError

/-! ### Operators -/

/-- `->`: NULL without the key, and for what is no object. -/
def arrow (value : Option Value) (key : String) : Option Value :=
  (value.bind Value.asObject).bind fun fields => get fields key

/-- The text of a value as `->>` returns it; `render` writes arrays, objects and other numerals. -/
def textOf (render : Value → String) : Value → Option String
  | .null => none
  | .bool b => some (if b then "true" else "false")
  | .string s => some s
  | .number (.int n) => some (toString n)
  | value => some (render value)

/-- `->>`. -/
def arrowText (render : Value → String) (value : Option Value) (key : String) : Option String :=
  (arrow value key).bind (textOf render)

/-- `?`: a key of an object, or a text among the entries of an array. -/
def existsKey (key : String) : Value → Bool
  | .object fields => (get fields key).isSome
  | .array items => items.contains (.string key)
  | .string s => s == key
  | _ => false

mutual

/-- `@>` between values that are nested. -/
def contains (left : Value) : Value → Bool
  | .object fields => containsFields left fields
  | .array items => containsItems left items
  | value => left == value

def containsFields (left : Value) : Fields → Bool
  | [] => left.isObject
  | (key, value) :: fields =>
    ((left.asObject.bind fun leftFields => get leftFields key).any fun item => contains item value) &&
      containsFields left fields

def containsItems (left : Value) : List Value → Bool
  | [] => left.asArray.isSome
  | value :: items =>
    (left.asArray.any fun leftItems => leftItems.any fun item => contains item value) &&
      containsItems left items

end

/-- The spellings of booleans, among them every beginning of `true`, `false`, `yes` and `no`. -/
def castBoolean (text : String) : Sql Bool :=
  let word := String.ofList ((text.toList.dropWhile Char.isWhitespace).reverse.dropWhile
    Char.isWhitespace).reverse |>.toLower
  if word ∈ ["t", "tr", "tru", "true", "y", "ye", "yes", "on", "1"] then .ok true
  else if word ∈ ["f", "fa", "fal", "fals", "false", "n", "no", "of", "off", "0"] then .ok false
  else .error .invalidText

/-- A text that is bound to a parameter. NUL is no character of a text. -/
def bindText (text : String) : Sql String :=
  if '\x00' ∈ text.toList then .error .invalidText else .ok text

/-! ### Conditions -/

def conj (a b : Sql Bool) : Sql Bool :=
  match a with
  | .ok true => b
  | .ok false => .ok false
  | .error e => .error e

def disj (a b : Sql Bool) : Sql Bool :=
  match a with
  | .ok true => .ok true
  | .ok false => b
  | .error e => .error e

@[simp] theorem conj_ok (a b : Bool) : conj (.ok a) (.ok b) = .ok (a && b) := by cases a <;> rfl

@[simp] theorem disj_ok (a b : Bool) : disj (.ok a) (.ok b) = .ok (a || b) := by cases a <;> rfl

/-! ### Objects -/

theorem arrow_object (fields : Fields) (key : String) :
    arrow (some (.object fields)) key = get fields key := rfl

/-- A value contains an object with the fields that it has itself. -/
theorem contains_object_iff {leftFields fields : Fields} :
    contains (.object leftFields) (.object fields) = true ↔
      ∀ field ∈ fields, ∃ item, get leftFields field.1 = some item ∧ contains item field.2 = true := by
  rw [contains]
  induction fields with
  | nil => simp [containsFields, Value.isObject, Value.asObject]
  | cons field fields ih =>
    obtain ⟨key, value⟩ := field
    rw [containsFields, Bool.and_eq_true, ih]
    simp [Value.asObject, Option.any_eq_true]

theorem contains_array_iff {leftItems items : List Value} :
    contains (.array leftItems) (.array items) = true ↔
      ∀ value ∈ items, ∃ item ∈ leftItems, contains item value = true := by
  rw [contains]
  induction items with
  | nil => simp [containsItems, Value.asArray]
  | cons value items ih =>
    rw [containsItems, Bool.and_eq_true, ih]
    simp [Value.asArray]

theorem contains_number {left : Value} {n : ℤ} :
    contains left (.number (.int n)) = true ↔ left = .number (.int n) := by
  rw [contains]
  · exact beq_iff_eq
  · exact nofun
  · exact nofun

end Schemes.Jsonb
