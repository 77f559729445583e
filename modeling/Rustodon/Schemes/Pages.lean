import Mathlib.Data.List.Nodup
import Mathlib.Data.List.Sort
import Mathlib.Data.Int.Order.Basic

/-! @scheme pages | name:Pages of a table that is scanned by key

    `WHERE lo < key AND key <= hi ORDER BY key LIMIT n`. A row of the range that a page does not
    have is behind all rows of the page, and the page is then full. -/

namespace Schemes.Pages

universe u

variable {α : Type u} (key : α → ℤ)

def inRange (lo hi : ℤ) (a : α) : Bool := decide (lo < key a) && decide (key a ≤ hi)

def page (n : ℕ) (lo hi : ℤ) (rows : List α) : List α :=
  ((rows.filter (inRange key lo hi)).insertionSort fun a b => key a ≤ key b).take n

variable {key} {n : ℕ} {lo hi : ℤ} {rows : List α} {a : α}

theorem inRange_iff : inRange key lo hi a = true ↔ lo < key a ∧ key a ≤ hi := by simp [inRange]

theorem mem_sorted :
    a ∈ ((rows.filter (inRange key lo hi)).insertionSort fun a b => key a ≤ key b) ↔
      a ∈ rows ∧ lo < key a ∧ key a ≤ hi := by
  rw [List.mem_insertionSort, List.mem_filter, inRange_iff]

theorem mem_page (h : a ∈ page key n lo hi rows) : a ∈ rows ∧ lo < key a ∧ key a ≤ hi :=
  mem_sorted.mp (List.mem_of_mem_take h)

/-- Where keys are unique, the rows of the range are sorted strictly. -/
theorem sorted_pairwise (h : (rows.map key).Nodup) :
    ((rows.filter (inRange key lo hi)).insertionSort fun a b => key a ≤ key b).Pairwise
      fun a b => key a < key b := by
  have hle := List.pairwise_insertionSort (fun a b : α => key a ≤ key b)
    (rows.filter (inRange key lo hi))
  have hnodup : ((rows.filter (inRange key lo hi)).insertionSort
      fun a b => key a ≤ key b).Pairwise fun a b => key a ≠ key b := by
    have hfilter : ((rows.filter (inRange key lo hi)).map key).Nodup :=
      h.sublist (List.filter_sublist.map key)
    exact List.pairwise_map.mp (((List.perm_insertionSort _ _).map key).nodup_iff.mpr hfilter)
  exact (hle.and hnodup).imp fun ⟨hle, hne⟩ => lt_of_le_of_ne hle hne

theorem page_pairwise (h : (rows.map key).Nodup) :
    (page key n lo hi rows).Pairwise fun a b => key a < key b :=
  (sorted_pairwise h).sublist (List.take_sublist _ _)

/-- A row of the range is on the page, or the page is full and the row behind it. -/
theorem page_complete (h : (rows.map key).Nodup) (ha : a ∈ rows) (hlo : lo < key a)
    (hhi : key a ≤ hi) :
    a ∈ page key n lo hi rows ∨
      (page key n lo hi rows).length = n ∧ ∀ b ∈ page key n lo hi rows, key b < key a := by
  have hmem := mem_sorted.mpr ⟨ha, hlo, hhi⟩
  have hsorted := @sorted_pairwise _ key lo hi rows h
  rw [page]
  generalize ((rows.filter (inRange key lo hi)).insertionSort fun a b => key a ≤ key b) = sorted
    at hmem hsorted ⊢
  rw [← List.take_append_drop n sorted] at hmem hsorted
  rcases List.mem_append.mp hmem with hmem | hmem
  · exact .inl hmem
  · refine .inr ⟨?_, fun b hb => (List.pairwise_append.mp hsorted).2.2 b hb a hmem⟩
    rw [List.length_take]
    have hdrop : 0 < (sorted.drop n).length := List.length_pos_of_mem hmem
    rw [List.length_drop] at hdrop
    omega

end Schemes.Pages
