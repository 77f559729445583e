import Mathlib.Algebra.Group.Int.Defs
import Mathlib.Data.Int.Notation
import Mathlib.Data.List.Basic

/-! @scheme json | name:JSON values

    Parsed JSON as a program sees it: objects are their entries in the order in which the map is
    iterated, and a lookup takes the first entry of a key. The accessors return `none` where the
    value has another shape. -/

namespace Schemes.Json

/-- A numeral: an integer, or the text of any other one. -/
inductive Number where
  | int (n : ℤ)
  | other (text : String)
  deriving DecidableEq, Repr

inductive Value where
  | null
  | bool (b : Bool)
  | number (n : Number)
  | string (s : String)
  | array (items : List Value)
  | object (fields : List (String × Value))
  deriving Repr

/-- The entries of an object. -/
abbrev Fields := List (String × Value)

def get (fields : Fields) (key : String) : Option Value := fields.lookup key

def Value.asStr : Value → Option String
  | .string s => some s
  | _ => none

def Value.asBool : Value → Option Bool
  | .bool b => some b
  | _ => none

def Value.asArray : Value → Option (List Value)
  | .array items => some items
  | _ => none

def Value.asObject : Value → Option Fields
  | .object fields => some fields
  | _ => none

/-- The value of an `i64`. -/
def Value.asI64 : Value → Option ℤ
  | .number (.int n) => if -2 ^ 63 ≤ n ∧ n < 2 ^ 63 then some n else none
  | _ => none

def Value.isNull : Value → Bool
  | .null => true
  | _ => false

def Value.isString (v : Value) : Bool := v.asStr.isSome

def Value.isObject (v : Value) : Bool := v.asObject.isSome

/-! ### Equality -/

mutual

def Value.beq : Value → Value → Bool
  | .null, .null => true
  | .bool b, .bool b' => decide (b = b')
  | .number n, .number n' => decide (n = n')
  | .string s, .string s' => decide (s = s')
  | .array items, .array items' => beqItems items items'
  | .object fields, .object fields' => beqFields fields fields'
  | _, _ => false

def beqItems : List Value → List Value → Bool
  | [], [] => true
  | v :: items, v' :: items' => v.beq v' && beqItems items items'
  | _, _ => false

def beqFields : List (String × Value) → List (String × Value) → Bool
  | [], [] => true
  | (key, v) :: fields, (key', v') :: fields' =>
    decide (key = key') && v.beq v' && beqFields fields fields'
  | _, _ => false

end

mutual

theorem Value.beq_iff : ∀ v v' : Value, v.beq v' = true ↔ v = v'
  | .null, v' => by cases v' <;> simp [Value.beq]
  | .bool b, v' => by cases v' <;> simp [Value.beq]
  | .number n, v' => by cases v' <;> simp [Value.beq]
  | .string s, v' => by cases v' <;> simp [Value.beq]
  | .array items, v' => by
    cases v' with
    | array items' => simpa [Value.beq] using beqItems_iff items items'
    | _ => simp [Value.beq]
  | .object fields, v' => by
    cases v' with
    | object fields' => simpa [Value.beq] using beqFields_iff fields fields'
    | _ => simp [Value.beq]

theorem beqItems_iff : ∀ items items' : List Value, beqItems items items' = true ↔ items = items'
  | [], items' => by cases items' <;> simp [beqItems]
  | v :: items, items' => by
    cases items' with
    | nil => simp [beqItems]
    | cons v' items' => simp [beqItems, Value.beq_iff v v', beqItems_iff items items']

theorem beqFields_iff : ∀ fields fields' : List (String × Value),
    beqFields fields fields' = true ↔ fields = fields'
  | [], fields' => by cases fields' <;> simp [beqFields]
  | (key, v) :: fields, fields' => by
    cases fields' with
    | nil => simp [beqFields]
    | cons field fields' =>
      obtain ⟨key', v'⟩ := field
      simp [beqFields, Value.beq_iff v v', beqFields_iff fields fields', and_assoc]

end

instance : DecidableEq Value := fun v v' => decidable_of_iff _ (Value.beq_iff v v')

/-! ### Entries changed -/

/-- Changes the value of a key, where it is present. -/
def modify (key : String) (f : Value → Value) : Fields → Fields
  | [] => []
  | (k, v) :: rest => (k, if k = key then f v else v) :: modify key f rest

theorem get_modify_self (key : String) (f : Value → Value) : ∀ fields : Fields,
    get (modify key f fields) key = (get fields key).map f
  | [] => rfl
  | (k, v) :: rest => by
    have ih := get_modify_self key f rest
    simp only [get] at ih ⊢
    rw [modify, List.lookup_cons, List.lookup_cons]
    rcases eq_or_ne k key with rfl | hne
    · simp
    · rw [beq_false_of_ne hne.symm, ih]

theorem get_modify_ne {key key' : String} (h : key' ≠ key) (f : Value → Value) :
    ∀ fields : Fields, get (modify key f fields) key' = get fields key'
  | [] => rfl
  | (k, v) :: rest => by
    have ih := get_modify_ne h f rest
    simp only [get] at ih ⊢
    rw [modify, List.lookup_cons, List.lookup_cons, ih]
    rcases eq_or_ne k key with rfl | hne
    · rw [beq_false_of_ne h]
    · rw [if_neg hne]

/-! ### Entries put in and taken out -/

/-- Takes out the entries of a key. -/
def remove (key : String) (fields : Fields) : Fields := fields.filter fun field => field.1 != key

/-- Puts in an entry in place of all entries of its key. -/
def insert (key : String) (value : Value) (fields : Fields) : Fields :=
  remove key fields ++ [(key, value)]

/-- All entries of two objects, where the second one decides. -/
def merge (fields patch : Fields) : Fields :=
  (fields.filter fun field => (get patch field.1).isNone) ++ patch

theorem get_remove_self (key : String) : ∀ fields : Fields, get (remove key fields) key = none
  | [] => rfl
  | (k, v) :: rest => by
    have ih := get_remove_self key rest
    rcases eq_or_ne k key with rfl | hne
    · rw [remove, List.filter_cons_of_neg (by simp)]
      exact ih
    · rw [remove, List.filter_cons_of_pos (by simpa using hne), get, List.lookup_cons,
        beq_false_of_ne hne.symm]
      exact ih

theorem get_remove_ne {key key' : String} (h : key' ≠ key) : ∀ fields : Fields,
    get (remove key fields) key' = get fields key'
  | [] => rfl
  | (k, v) :: rest => by
    have ih := get_remove_ne h rest
    simp only [get, remove] at ih ⊢
    rcases eq_or_ne k key with rfl | hne
    · rw [List.filter_cons_of_neg (by simp), List.lookup_cons, beq_false_of_ne h]
      exact ih
    · rw [List.filter_cons_of_pos (by simpa using hne), List.lookup_cons, List.lookup_cons, ih]

theorem get_append (fields patch : Fields) (key : String) :
    get (fields ++ patch) key = (get fields key).or (get patch key) := List.lookup_append

theorem get_filter {p : String → Bool} {key : String} (h : p key = true) :
    ∀ fields : Fields, get (fields.filter fun field => p field.1) key = get fields key
  | [] => rfl
  | (k, v) :: rest => by
    have ih := get_filter h rest
    simp only [get] at ih ⊢
    rcases eq_or_ne key k with rfl | hne
    · rw [List.filter_cons_of_pos (by simpa using h), List.lookup_cons, List.lookup_cons]
      simp
    · rw [List.lookup_cons, beq_false_of_ne hne]
      cases hk : p k with
      | true =>
        rw [List.filter_cons_of_pos (by simpa using hk), List.lookup_cons, beq_false_of_ne hne]
        exact ih
      | false =>
        rw [List.filter_cons_of_neg (by simpa using hk)]
        exact ih

/-- A key that a patch does not have keeps its value. -/
theorem get_merge {patch : Fields} {key : String} (h : get patch key = none) (fields : Fields) :
    get (merge fields patch) key = get fields key := by
  rw [merge, get_append, h, Option.or_none]
  exact get_filter (p := fun key => (get patch key).isNone) (by simp [h]) fields

/-- A patch that is only laid under an object does not change what it has. -/
theorem get_merge_under {fields : Fields} {key : String} (h : get fields key = none)
    (patch : Fields) : get (merge fields patch) key = get patch key := by
  rw [merge, get_append]
  have hnone : get (fields.filter fun field => (get patch field.1).isNone) key = none := by
    rw [get, List.lookup_eq_none_iff] at h ⊢
    exact fun field hfield => h field (List.mem_filter.mp hfield).1
  rw [hnone, Option.none_or]

theorem get_insert_self (key : String) (value : Value) (fields : Fields) :
    get (insert key value fields) key = some value := by
  rw [insert, get_append, get_remove_self]
  simp [get]

theorem get_insert_ne {key key' : String} (h : key' ≠ key) (value : Value) (fields : Fields) :
    get (insert key value fields) key' = get fields key' := by
  rw [insert, get_append, get_remove_ne h]
  simp [get, List.lookup_cons, beq_false_of_ne h]

theorem remove_insert (key : String) (value : Value) (fields : Fields) :
    remove key (insert key value fields) = remove key fields := by
  simp [insert, remove]

theorem remove_remove_comm (key key' : String) (fields : Fields) :
    remove key (remove key' fields) = remove key' (remove key fields) := by
  simp only [remove, List.filter_filter, Bool.and_comm]

theorem remove_remove_self (key : String) (fields : Fields) :
    remove key (remove key fields) = remove key fields := by
  simp [remove]

end Schemes.Json
