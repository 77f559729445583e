import Mathlib.Data.List.Basic
import Mathlib.Logic.Function.Basic
import Mathlib.Tactic.SplitIfs

/-! @scheme groups | name:Rows that are gathered by their keys

    A map is filled from the rows of one query, and the rows of further queries are added to the entry of
    their key. The keys may be read in chunks of a fixed size. -/

namespace Schemes.Groups

universe u v w

variable {κ : Type u} [DecidableEq κ] {α : Type v} {β : Type w} {m : κ → Option α} {k : κ}

/-! ### Entries -/

/-- `map.insert(key, value)`. -/
def put (m : κ → Option α) (row : κ × α) : κ → Option α := Function.update m row.1 (some row.2)

/-- `if let Some(value) = map.get_mut(&key) { … }`. -/
def push (add : α → β → α) (m : κ → Option α) (row : κ × β) : κ → Option α :=
  Function.update m row.1 ((m row.1).map fun value => add value row.2)

/-- The values that go to a key. -/
def values (rows : List (κ × β)) (k : κ) : List β := (rows.filter fun row => decide (row.1 = k)).map Prod.snd

theorem foldl_put_of_not_mem {rows : List (κ × α)} (h : k ∉ rows.map Prod.fst) :
    rows.foldl put m k = m k := by
  induction rows generalizing m with
  | nil => rfl
  | cons row rows ih =>
    rw [List.map_cons, List.mem_cons, not_or] at h
    rw [List.foldl_cons, ih h.2, put, Function.update_of_ne h.1]

/-- The entry of a key that one row has. -/
theorem foldl_put {rows : List (κ × α)} {value : α} (hnodup : (rows.map Prod.fst).Nodup)
    (h : (k, value) ∈ rows) : rows.foldl put m k = some value := by
  induction rows generalizing m with
  | nil => cases h
  | cons row rows ih =>
    rw [List.map_cons, List.nodup_cons] at hnodup
    rw [List.foldl_cons]
    rcases List.mem_cons.mp h with rfl | hmem
    · rw [foldl_put_of_not_mem hnodup.1, put, Function.update_self]
    · exact ih hnodup.2 hmem

/-- What is pushed reaches the entry of its key, in its order. -/
theorem foldl_push {add : α → β → α} {rows : List (κ × β)} :
    rows.foldl (push add) m k = (m k).map fun value => (values rows k).foldl add value := by
  induction rows generalizing m with
  | nil => simp [values]
  | cons row rows ih =>
    rw [List.foldl_cons, ih, values, values, List.filter_cons]
    by_cases hkey : row.1 = k
    · obtain rfl := hkey
      rw [push, Function.update_self, if_pos (by simp)]
      cases m row.1 <;> rfl
    · rw [if_neg (by simpa using hkey), push, Function.update_of_ne (Ne.symm hkey)]

theorem mem_values {rows : List (κ × β)} {value : β} : value ∈ values rows k ↔ (k, value) ∈ rows := by
  simp [values]

theorem values_eq_nil {rows : List (κ × β)} (h : ∀ row ∈ rows, row.1 ≠ k) : values rows k = [] := by
  rw [values, List.filter_eq_nil_iff.mpr (by simpa using h), List.map_nil]

/-! ### Rows that are read -/

/-- Rows are read one by one, and all of them or none. -/
theorem mapM_cons_eq_some {f : α → Option β} {row : α} {rows : List α} {read : List β} :
    (row :: rows).mapM f = some read ↔
      ∃ value rest, f row = some value ∧ rows.mapM f = some rest ∧ read = value :: rest := by
  rw [List.mapM_cons]
  cases f row with
  | none => simp
  | some value =>
    cases rows.mapM f with
    | none => simp
    | some rest => simp [eq_comm]

theorem mem_of_mapM {f : α → Option β} {row : α} {rows : List α} {read : List β}
    (h : rows.mapM f = some read) (hrow : row ∈ rows) : ∃ value ∈ read, f row = some value := by
  induction rows generalizing read with
  | nil => cases hrow
  | cons first rows ih =>
    obtain ⟨value, rest, hvalue, hrest, rfl⟩ := mapM_cons_eq_some.mp h
    rcases List.mem_cons.mp hrow with rfl | hmem
    · exact ⟨value, List.mem_cons_self, hvalue⟩
    · obtain ⟨value', hvalue', hf⟩ := ih hrest hmem
      exact ⟨value', List.mem_cons_of_mem _ hvalue', hf⟩

/-- What is read has what the rows have. -/
theorem map_of_mapM {γ : Type*} {f : α → Option β} {g : α → γ} {g' : β → γ} {rows : List α}
    {read : List β} (hg : ∀ row value, f row = some value → g' value = g row)
    (h : rows.mapM f = some read) : read.map g' = rows.map g := by
  induction rows generalizing read with
  | nil =>
    obtain rfl := Option.some.inj h
    rfl
  | cons row rows ih =>
    obtain ⟨value, rest, hvalue, hrest, rfl⟩ := mapM_cons_eq_some.mp h
    rw [List.map_cons, List.map_cons, hg row value hvalue, ih hrest]

theorem exists_of_mapM {f : α → Option β} {rows : List α} {read : List β} {value : β}
    (h : rows.mapM f = some read) (hvalue : value ∈ read) : ∃ row ∈ rows, f row = some value := by
  induction rows generalizing read with
  | nil =>
    obtain rfl := Option.some.inj h
    cases hvalue
  | cons first rows ih =>
    obtain ⟨value', rest, hvalue', hrest, rfl⟩ := mapM_cons_eq_some.mp h
    rcases List.mem_cons.mp hvalue with rfl | hmem
    · exact ⟨first, List.mem_cons_self, hvalue'⟩
    · obtain ⟨row, hrow, hf⟩ := ih hrest hmem
      exact ⟨row, List.mem_cons_of_mem _ hrow, hf⟩

theorem isSome_mapM {f : α → Option β} {rows : List α} :
    (rows.mapM f).isSome = true ↔ ∀ row ∈ rows, (f row).isSome = true := by
  induction rows with
  | nil => simp
  | cons row rows ih =>
    rw [List.mapM_cons, List.forall_mem_cons, ← ih]
    cases hrow : f row with
    | none => simp
    | some value => cases hrows : rows.mapM f <;> simp

/-! ### Chunks -/

def chunksWith (n : ℕ) : ℕ → List κ → List (List κ)
  | 0, _ => []
  | fuel + 1, keys => if keys = [] then [] else keys.take n :: chunksWith n fuel (keys.drop n)

/-- `keys.chunks(n)`. -/
def chunks (n : ℕ) (keys : List κ) : List (List κ) := chunksWith n keys.length keys

theorem chunksWith_flatten {n fuel : ℕ} {keys : List κ} (hn : 0 < n) (hfuel : keys.length ≤ fuel) :
    (chunksWith n fuel keys).flatten = keys := by
  induction fuel generalizing keys with
  | zero => rw [List.eq_nil_of_length_eq_zero (by omega : keys.length = 0)]; rfl
  | succ fuel ih =>
    rw [chunksWith]
    split_ifs with hempty
    · rw [hempty, List.flatten_nil]
    · have hpos := List.length_pos_iff.mpr hempty
      rw [List.flatten_cons, ih (by rw [List.length_drop]; omega), List.take_append_drop]

theorem chunks_flatten {n : ℕ} {keys : List κ} (hn : 0 < n) : (chunks n keys).flatten = keys :=
  chunksWith_flatten hn (Nat.le_refl _)

/-- Every key is read with one of the chunks. -/
theorem mem_chunks {n : ℕ} {keys : List κ} (hn : 0 < n) :
    k ∈ keys ↔ ∃ chunk ∈ chunks n keys, k ∈ chunk := by
  rw [← List.mem_flatten, chunks_flatten hn]

end Schemes.Groups
