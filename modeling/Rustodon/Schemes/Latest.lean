import Mathlib.Data.List.Perm.Basic
import Mathlib.Order.Lattice
import Mathlib.Order.MinMax
import Mathlib.Data.Int.Order.Basic

/-! @scheme latest | name:A count and the latest time

    What is kept beside a collection instead of being computed from it: how many members there are and
    the latest of their times. A new member is counted by a step; the latest time is moved to it rightly
    only if no member is later. -/

namespace Schemes.Latest

universe u

variable {τ : Type u} [LinearOrder τ]

/-- The number and the latest of the times. -/
structure Describes (count : ℤ) (latest : Option τ) (times : List τ) : Prop where
  count : count = times.length
  latest : latest = times.max?

variable {count : ℤ} {latest : Option τ} {times times' : List τ} {time : τ}

theorem max?_perm (h : times.Perm times') : times.max? = times'.max? := by
  cases hmax : times'.max? with
  | none =>
    rw [List.max?_eq_none_iff] at hmax ⊢
    rw [hmax] at h
    exact h.eq_nil
  | some latest =>
    rw [List.max?_eq_some_iff] at hmax ⊢
    exact ⟨h.mem_iff.mpr hmax.1, fun time htime => hmax.2 time (h.mem_iff.mp htime)⟩

theorem Describes.perm (h : Describes count latest times) (hperm : times.Perm times') :
    Describes count latest times' :=
  ⟨h.count.trans (by rw [hperm.length_eq]), h.latest.trans (max?_perm hperm)⟩

/-- No time is later than the latest one. -/
theorem Describes.le (h : Describes count latest times) (htime : time ∈ times) :
    ∃ last, latest = some last ∧ time ≤ last := by
  cases hmax : times.max? with
  | none =>
    rw [List.max?_eq_none_iff] at hmax
    rw [hmax] at htime
    cases htime
  | some last =>
    exact ⟨last, h.latest.trans hmax, (List.max?_eq_some_iff.mp hmax).2 time htime⟩

/-- A new member that is taken for the latest one is so exactly if the latest time so far is not later. -/
theorem Describes.cons_iff (h : Describes count latest times) :
    Describes (count + 1) (some time) (time :: times) ↔ ∀ last, latest = some last → last ≤ time := by
  constructor
  · intro hnew last hlast
    have hmax := List.max?_eq_some_iff.mp hnew.latest.symm
    have hmem := (List.max?_eq_some_iff.mp (h.latest.symm.trans hlast)).1
    exact hmax.2 last (List.mem_cons_of_mem _ hmem)
  · intro hle
    refine ⟨?_, ?_⟩
    · rw [List.length_cons, h.count]
      push_cast
      rfl
    · refine (List.max?_eq_some_iff.mpr ⟨List.mem_cons_self, fun other hother => ?_⟩).symm
      rcases List.mem_cons.mp hother with rfl | hother
      · exact le_rfl
      · obtain ⟨last, hlast, hother⟩ := h.le hother
        exact hother.trans (hle last hlast)

/-- A member less, when the latest of the remaining times is looked for unless none can be left. -/
theorem Describes.of_cons (h : Describes count latest (time :: times)) :
    Describes (max (count - 1) 0) (if count ≤ 1 then none else times.max?) times := by
  have hcount : count = times.length + 1 := by
    rw [h.count, List.length_cons]
    push_cast
    rfl
  refine ⟨by omega, ?_⟩
  split
  · have hlength : times.length = 0 := by omega
    rw [List.length_eq_zero_iff.mp hlength]
    rfl
  · rfl

end Schemes.Latest
