import Mathlib.Data.List.Nodup
import Mathlib.Data.Set.Insert

/-! @scheme tables | name:Tables with a primary key

    A table as the list of its rows: the row of a key, and what an update or a new row does to it. -/

namespace Schemes.Tables

universe u v

variable {ρ : Type u} {κ : Type v} [DecidableEq κ] (key : ρ → κ)

/-- The row of a key. -/
def find (rows : List ρ) (k : κ) : Option ρ := rows.find? fun row => decide (key row = k)

/-- Changes the row of a key. -/
def update (rows : List ρ) (k : κ) (f : ρ → ρ) : List ρ :=
  rows.map fun row => if key row = k then f row else row

variable {key} {rows : List ρ} {k k' : κ} {row : ρ} {f : ρ → ρ}

theorem key_of_find (h : find key rows k = some row) : key row = k := by
  simpa using List.find?_some h

theorem mem_of_find (h : find key rows k = some row) : row ∈ rows := List.mem_of_find?_eq_some h

theorem find_eq_none : find key rows k = none ↔ k ∉ rows.map key := by
  rw [find, List.find?_eq_none]
  simp

/-- The rows are those of their keys. -/
theorem find_of_mem (hnodup : (rows.map key).Nodup) (h : row ∈ rows) :
    find key rows (key row) = some row := by
  cases hfind : find key rows (key row) with
  | none => exact absurd (List.mem_map_of_mem h) (find_eq_none.mp hfind)
  | some other =>
    rw [List.inj_on_of_nodup_map hnodup (mem_of_find hfind) h (key_of_find hfind)]

theorem keys_update (hf : ∀ row, key (f row) = key row) :
    (update key rows k f).map key = rows.map key := by
  rw [update, List.map_map]
  refine List.map_congr_left fun row _ => ?_
  rw [Function.comp_apply]
  split
  · exact hf row
  · rfl

theorem find_update (hf : ∀ row, key (f row) = key row) :
    find key (update key rows k f) k' =
      (find key rows k').map fun row => if k' = k then f row else row := by
  have hsame : ((fun row => decide (key row = k')) ∘ fun row => if key row = k then f row else row) =
      fun row => decide (key row = k') := by
    funext row
    rw [Function.comp_apply]
    split
    · rw [hf]
    · rfl
  rw [find, update, List.find?_map, hsame]
  cases hfind : find key rows k' with
  | none =>
    rw [find] at hfind
    rw [hfind]
    rfl
  | some row =>
    have hkey := key_of_find hfind
    rw [find] at hfind
    rw [hfind, Option.map_some, Option.map_some, hkey]

theorem find_append : find key (rows ++ [row]) k =
    (find key rows k).or (if key row = k then some row else none) := by
  rw [find, List.find?_append, find]
  congr 1
  by_cases hkey : key row = k <;> simp [hkey]

/-- Where keys are unique, one key has one row. -/
theorem length_le_one (hnodup : (rows.map key).Nodup) (h : ∀ row ∈ rows, key row = k) :
    rows.length ≤ 1 := by
  match rows with
  | [] => exact Nat.zero_le 1
  | [_] => exact le_rfl
  | first :: second :: rest =>
    have hsame := (h first List.mem_cons_self).trans
      (h second (List.mem_cons_of_mem _ List.mem_cons_self)).symm
    simp [hsame] at hnodup

theorem keys_append (hnodup : (rows.map key).Nodup) (hnew : find key rows (key row) = none) :
    ((rows ++ [row]).map key).Nodup := by
  rw [List.map_append, List.nodup_append]
  refine ⟨hnodup, List.nodup_singleton _, ?_⟩
  rintro k hk _ hrow rfl
  rw [List.map_singleton, List.mem_singleton] at hrow
  exact find_eq_none.mp hnew (hrow ▸ hk)

omit [DecidableEq κ] in
theorem keys_filterMap {g : ρ → Option ρ} (hg : ∀ row row', g row = some row' → key row' = key row) :
    ∀ rows : List ρ, ((rows.filterMap g).map key).Sublist (rows.map key)
  | [] => .slnil
  | row :: rows => by
    cases hrow : g row with
    | none =>
      rw [List.filterMap_cons_none hrow]
      exact (keys_filterMap hg rows).cons _
    | some row' =>
      rw [List.filterMap_cons_some hrow, List.map_cons, List.map_cons, hg row row' hrow]
      exact (keys_filterMap hg rows).cons_cons _

theorem find_cons (row : ρ) (rows : List ρ) :
    find key (row :: rows) k = if key row = k then some row else find key rows k := by
  rw [find, List.find?_cons]
  by_cases hkey : key row = k <;> simp [hkey, find]

theorem find_filterMap {g : ρ → Option ρ} (hg : ∀ row row', g row = some row' → key row' = key row) :
    ∀ {rows : List ρ}, (rows.map key).Nodup →
      find key (rows.filterMap g) k = (find key rows k).bind g
  | [], _ => rfl
  | row :: rows, hnodup => by
    obtain ⟨hnot, hrest⟩ := List.nodup_cons.mp hnodup
    have ih := find_filterMap hg hrest
    rw [find_cons]
    cases hrow : g row with
    | none =>
      rw [List.filterMap_cons_none hrow, ih]
      split
      · rename_i hkey
        rw [find_eq_none.mpr (hkey ▸ hnot), Option.bind_some, hrow]
        rfl
      · rfl
    | some row' =>
      rw [List.filterMap_cons_some hrow, find_cons, hg row row' hrow, ih]
      split
      · rw [Option.bind_some, hrow]
      · rfl

/-! ### Tables whose keys differ -/

/-- A table with a unique index. -/
structure Table {ρ : Type u} {κ : Type v} (key : ρ → κ) where
  rows : List ρ
  keys_nodup : (rows.map key).Nodup

namespace Table

variable {t t' : Table key}

/-- The row of a key. -/
def get (t : Table key) (k : κ) : Option ρ := find key t.rows k

/-- A new row, unless its key is taken. -/
def insert (t : Table key) (row : ρ) : Option (Table key) :=
  if h : t.get (key row) = none then some ⟨t.rows ++ [row], keys_append t.keys_nodup h⟩ else none

/-- Changes the row of a key, but not its key. -/
def modify (t : Table key) (k : κ) (f : ρ → ρ) (hf : ∀ row, key (f row) = key row) : Table key :=
  ⟨Tables.update key t.rows k f, by
    rw [keys_update hf]
    exact t.keys_nodup⟩

/-- Drops the row of a key. -/
def erase (t : Table key) (k : κ) : Table key :=
  ⟨t.rows.filter fun row => decide (key row ≠ k), t.keys_nodup.sublist (List.filter_sublist.map key)⟩

/-- Changes rows, but not their keys, or drops them. -/
def filterMap (t : Table key) (g : ρ → Option ρ)
    (hg : ∀ row row', g row = some row' → key row' = key row) : Table key :=
  ⟨t.rows.filterMap g, t.keys_nodup.sublist (keys_filterMap hg t.rows)⟩

theorem get_filterMap {g : ρ → Option ρ} (hg : ∀ row row', g row = some row' → key row' = key row) :
    (t.filterMap g hg).get k = (t.get k).bind g :=
  find_filterMap hg t.keys_nodup

theorem mem_iff_get : row ∈ t.rows ↔ t.get (key row) = some row :=
  ⟨find_of_mem t.keys_nodup, mem_of_find⟩

theorem key_of_get (h : t.get k = some row) : key row = k := key_of_find h

theorem mem_of_get (h : t.get k = some row) : row ∈ t.rows := mem_of_find h

theorem get_of_insert (h : t.insert row = some t') :
    t.get (key row) = none ∧ t'.rows = t.rows ++ [row] := by
  rw [insert] at h
  split at h
  · rename_i hnew
    obtain rfl := Option.some.inj h
    exact ⟨hnew, rfl⟩
  · cases h

theorem get_insert (h : t.insert row = some t') (k : κ) :
    t'.get k = if key row = k then some row else t.get k := by
  obtain ⟨hnew, hrows⟩ := get_of_insert h
  rw [get, hrows, find_append]
  by_cases hkey : key row = k
  · rw [if_pos hkey, if_pos hkey, ← hkey]
    rw [get] at hnew
    rw [hnew]
    rfl
  · rw [if_neg hkey, if_neg hkey, Option.or_none]
    rfl

theorem get_modify (hf : ∀ row, key (f row) = key row) (k' : κ) :
    (t.modify k f hf).get k' = (t.get k').map fun row => if k' = k then f row else row :=
  find_update hf

theorem isSome_get_modify (hf : ∀ row, key (f row) = key row) (k' : κ) :
    ((t.modify k f hf).get k').isSome = (t.get k').isSome := by
  rw [get_modify, Option.isSome_map]

theorem get_erase (k' : κ) : (t.erase k).get k' = if k' = k then none else t.get k' := by
  rw [get, erase, get]
  by_cases hkey : k' = k
  · subst hkey
    rw [if_pos rfl, find_eq_none]
    simp
  · rw [if_neg hkey, find, find, List.find?_filter]
    congr 1
    funext row
    by_cases hrow : key row = k' <;> simp [hrow, hkey]

/-- The keys that have a row. -/
def keys (t : Table key) : Set κ := {k | (t.get k).isSome = true}

theorem mem_keys : k ∈ t.keys ↔ (t.get k).isSome = true := Iff.rfl

theorem mem_keys_of_get (h : t.get k = some row) : k ∈ t.keys := by
  rw [mem_keys, h]
  rfl

theorem not_mem_keys : k ∉ t.keys ↔ t.get k = none := by
  rw [mem_keys, Bool.not_eq_true, Option.isSome_eq_false_iff, Option.isNone_iff_eq_none]

theorem keys_insert (h : t.insert row = some t') : t'.keys = Insert.insert (key row) t.keys := by
  ext k'
  rw [mem_keys, get_insert h, Set.mem_insert_iff, mem_keys]
  by_cases hkey : key row = k'
  · simp [hkey]
  · simp [hkey, Ne.symm hkey]

theorem mem_keys_of_insert_eq_none (h : t.insert row = none) : key row ∈ t.keys := by
  by_contra hnew
  rw [insert, dif_pos (not_mem_keys.mp hnew)] at h
  cases h

theorem keys_modify (hf : ∀ row, key (f row) = key row) : (t.modify k f hf).keys = t.keys := by
  ext k'
  rw [mem_keys, isSome_get_modify, mem_keys]

theorem keys_erase : (t.erase k).keys = t.keys \ {k} := by
  ext k'
  rw [mem_keys, get_erase]
  by_cases hkey : k' = k
  · simp [hkey]
  · simp [hkey, mem_keys]

theorem mem_erase : row ∈ (t.erase k).rows ↔ row ∈ t.rows ∧ key row ≠ k := by
  simp [erase]

/-- The row of a key, and the other rows. -/
theorem rows_perm (h : t.get k = some row) : t.rows.Perm (row :: (t.erase k).rows) := by
  have hnodup (t : Table key) : t.rows.Nodup := t.keys_nodup.of_map
  have hkey := key_of_get h
  refine (List.perm_ext_iff_of_nodup (hnodup t) (List.nodup_cons.mpr ⟨?_, hnodup (t.erase k)⟩)).mpr ?_
  · simp [mem_erase, hkey]
  · intro other
    rw [List.mem_cons, mem_erase]
    refine ⟨fun hother => ?_, ?_⟩
    · by_cases hk : key other = k
      · exact .inl (Option.some.inj ((mem_iff_get.mp hother).symm.trans (hk ▸ h)))
      · exact .inr ⟨hother, hk⟩
    · rintro (rfl | ⟨hother, -⟩)
      · exact mem_of_get h
      · exact hother

theorem erase_modify (hf : ∀ row, key (f row) = key row) :
    ((t.modify k f hf).erase k).rows = (t.erase k).rows := by
  simp only [erase, modify, update]
  induction t.rows with
  | nil => rfl
  | cons row rows ih =>
    rw [List.map_cons, List.filter_cons, List.filter_cons, ih]
    by_cases hkey : key row = k <;> simp [hkey, hf]

theorem erase_insert (h : t.insert row = some t') : (t'.erase (key row)).rows = t.rows := by
  obtain ⟨hnew, hrows⟩ := get_of_insert h
  have hnot : ∀ other ∈ t.rows, key other ≠ key row := by
    intro other hother hkey
    rw [← hkey, mem_iff_get.mp hother] at hnew
    cases hnew
  simp only [erase, hrows, List.filter_append]
  simpa [List.filter_eq_self] using hnot

end Table

end Schemes.Tables
