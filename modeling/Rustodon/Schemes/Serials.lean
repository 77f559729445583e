import Mathlib.Data.Int.Notation
import Mathlib.Data.List.Nodup

/-! @scheme serials | name:Rows with serial numbers

    Rows have numbers from a counter, and keys that are unique. -/

namespace Schemes.Serials

universe u v

variable {β : Type u} {κ : Type v} {id : β → ℤ} {key : β → κ} {rows : List β} {next : ℤ}

structure Serial (id : β → ℤ) (key : β → κ) (rows : List β) (next : ℤ) : Prop where
  ids : (rows.map id).Nodup
  fresh : ∀ row ∈ rows, id row < next
  keys : (rows.map key).Nodup

theorem serial_nil : Serial id key [] next :=
  ⟨List.nodup_nil, by simp, List.nodup_nil⟩

theorem Serial.nodup (h : Serial id key rows next) : rows.Nodup := h.ids.of_map

theorem Serial.eq_of_id (h : Serial id key rows next) {row other : β} (hrow : row ∈ rows)
    (hother : other ∈ rows) (hid : id row = id other) : row = other :=
  List.inj_on_of_nodup_map h.ids hrow hother hid

theorem Serial.filter (h : Serial id key rows next) (p : β → Bool) : Serial id key (rows.filter p) next where
  ids := h.ids.sublist (List.filter_sublist.map _)
  fresh row hrow := h.fresh row (List.mem_of_mem_filter hrow)
  keys := h.keys.sublist (List.filter_sublist.map _)

/-- Rows that change, but neither in their numbers nor in their keys. -/
theorem Serial.map (h : Serial id key rows next) {f : β → β} (hid : ∀ row, id (f row) = id row)
    (hkey : ∀ row, key (f row) = key row) : Serial id key (rows.map f) next where
  ids := by
    rw [List.map_map, funext fun row => show (id ∘ f) row = id row from hid row]
    exact h.ids
  fresh row hrow := by
    obtain ⟨before, hbefore, rfl⟩ := List.mem_map.mp hrow
    rw [hid]
    exact h.fresh before hbefore
  keys := by
    rw [List.map_map, funext fun row => show (key ∘ f) row = key row from hkey row]
    exact h.keys

/-- The next row, with a key of its own. -/
theorem Serial.insert {row : β} (h : Serial id key rows (id row))
    (hkey : ∀ other ∈ rows, key other ≠ key row) : Serial id key (rows ++ [row]) (id row + 1) where
  ids := by
    rw [List.map_append, List.map_singleton]
    refine List.nodup_append.mpr ⟨h.ids, List.nodup_singleton _, fun number hnumber _ hsame heq => ?_⟩
    obtain ⟨other, hother, rfl⟩ := List.mem_map.mp hnumber
    have hlt := h.fresh other hother
    rw [heq, List.mem_singleton.mp hsame] at hlt
    exact Int.lt_irrefl _ hlt
  fresh other hother := by
    rcases List.mem_append.mp hother with hother | hother
    · have hlt := h.fresh other hother
      omega
    · rw [List.mem_singleton.mp hother]
      omega
  keys := by
    rw [List.map_append, List.map_singleton]
    refine List.nodup_append.mpr ⟨h.keys, List.nodup_singleton _, fun other hmem _ hsame heq => ?_⟩
    obtain ⟨before, hbefore, rfl⟩ := List.mem_map.mp hmem
    exact hkey before hbefore (heq.trans (List.mem_singleton.mp hsame))

end Schemes.Serials
