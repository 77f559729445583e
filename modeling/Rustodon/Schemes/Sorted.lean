import Mathlib.Data.Finset.Sort

/-! @scheme sorted arrays | name:Arrays without repetition, in order

    `ARRAY(SELECT DISTINCT x … ORDER BY x)`, and its last element. -/

namespace Schemes.Sorted

universe u

variable {α : Type u} [LinearOrder α] {l : List α} {a x : α}

/-- The elements of a list, each once and in order. -/
def distinct (l : List α) : List α := l.toFinset.sort

@[simp] theorem mem_distinct : x ∈ distinct l ↔ x ∈ l := by
  rw [distinct, Finset.mem_sort, List.mem_toFinset]

theorem pairwise_distinct (l : List α) : (distinct l).Pairwise (· < ·) :=
  (Finset.sortedLT_sort _).pairwise

theorem distinct_ne_nil (h : l ≠ []) : distinct l ≠ [] := by
  obtain ⟨x, hx⟩ := List.exists_mem_of_ne_nil l h
  exact List.ne_nil_of_mem (mem_distinct.mpr hx)

/-- The last element of a list in order bounds the others. -/
theorem le_of_getLast? (h : l.Pairwise (· < ·)) (hlast : l.getLast? = some a) (hx : x ∈ l) : x ≤ a := by
  obtain ⟨init, rfl⟩ := List.getLast?_eq_some_iff.mp hlast
  rcases List.mem_append.mp hx with hx | hx
  · exact le_of_lt ((List.pairwise_append.mp h).2.2 x hx a (List.mem_singleton_self a))
  · exact le_of_eq (List.mem_singleton.mp hx)

/-- The greatest element of a list whose elements are those of a list in order is the last of it. -/
theorem max?_eq_getLast? {l' : List α} (h : l.Pairwise (· < ·)) (hmem : ∀ x, x ∈ l' ↔ x ∈ l) :
    l'.max? = l.getLast? := by
  cases hlast : l.getLast? with
  | none =>
    obtain rfl := List.getLast?_eq_none_iff.mp hlast
    rw [List.max?_eq_none_iff]
    exact List.eq_nil_iff_forall_not_mem.mpr fun x hx => by simpa using (hmem x).mp hx
  | some a =>
    rw [List.max?_eq_some_iff]
    exact ⟨(hmem a).mpr (List.mem_of_getLast? hlast), fun x hx => le_of_getLast? h hlast ((hmem x).mp hx)⟩

theorem max?_distinct (l : List α) : l.max? = (distinct l).getLast? :=
  max?_eq_getLast? (pairwise_distinct l) fun _ => mem_distinct.symm

end Schemes.Sorted
