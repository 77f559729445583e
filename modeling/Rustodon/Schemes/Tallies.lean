import Mathlib.Algebra.BigOperators.Group.List.Basic
import Mathlib.Algebra.Ring.Int.Defs
import Mathlib.Data.Finset.Card
import Mathlib.Data.Int.Notation
import Mathlib.Data.List.Nodup

/-! @scheme tallies | name:Tallies of choices and voters

    How often each option is chosen, and by how many, when choices are added and withdrawn. -/

namespace Schemes.Tallies

/-! ### Options -/

/-- How often each of the first `n` options is chosen. -/
def tally (n : ℕ) (choices : List ℤ) : List ℤ :=
  (List.range n).map fun i : ℕ => (choices.count (i : ℤ) : ℤ)

variable {n : ℕ} {choices choices' : List ℤ} {choice : ℤ}

@[simp] theorem length_tally : (tally n choices).length = n := by simp [tally]

theorem getElem?_tally (i : ℕ) :
    (tally n choices)[i]? = if i < n then some (choices.count (i : ℤ) : ℤ) else none := by
  rw [tally, List.getElem?_map]
  split
  · rename_i hi
    rw [List.getElem?_range hi]
    rfl
  · rename_i hi
    rw [List.getElem?_eq_none (by simpa using hi)]
    rfl

@[simp] theorem tally_nil : tally n [] = List.replicate n 0 := by
  simp [tally, List.map_const']

/-- The order of the choices does not matter. -/
theorem tally_perm (h : choices.Perm choices') : tally n choices = tally n choices' := by
  rw [tally, tally]
  exact List.map_congr_left fun i _ => by rw [h.count_eq]

/-- An entry that changes by what the choice at its place changes. -/
theorem tally_modify {f : ℤ → ℤ} (h0 : 0 ≤ choice)
    (hf : ∀ i : ℕ, i < n → (choices'.count (i : ℤ) : ℤ) =
      if (i : ℤ) = choice then f (choices.count (i : ℤ)) else choices.count (i : ℤ)) :
    (tally n choices).modify choice.toNat f = tally n choices' := by
  refine List.ext_getElem? fun i => ?_
  rw [List.getElem?_modify, getElem?_tally, getElem?_tally]
  by_cases hi : i < n
  · rw [if_pos hi, if_pos hi, Option.map_eq_map, Option.map_some, hf i hi]
    by_cases hplace : (i : ℤ) = choice
    · rw [if_pos hplace, if_pos (by omega)]
    · rw [if_neg hplace, if_neg (by omega)]
  · rw [if_neg hi, if_neg hi]
    rfl

/-- One choice more. -/
theorem tally_concat (h0 : 0 ≤ choice) :
    (tally n choices).modify choice.toNat (· + 1) = tally n (choices ++ [choice]) := by
  refine tally_modify h0 fun i _ => ?_
  rw [List.count_append, List.count_singleton]
  by_cases h : (i : ℤ) = choice
  · simp [h]
  · simp [h, Ne.symm h]

/-- One choice less. -/
theorem tally_tail (h0 : 0 ≤ choice) :
    (tally n (choice :: choices)).modify choice.toNat (fun count => max (count - 1) 0) =
      tally n choices := by
  refine tally_modify h0 fun i _ => ?_
  rw [List.count_cons]
  by_cases h : (i : ℤ) = choice
  · simp [h]
  · simp [h, Ne.symm h]

theorem sum_modify : ∀ {counts : List ℤ} {i : ℕ}, i < counts.length →
    (counts.modify i (· + 1)).sum = counts.sum + 1
  | count :: counts, 0, _ => by simp [add_right_comm]
  | count :: counts, i + 1, hi => by
    have ih := sum_modify (Nat.lt_of_succ_lt_succ hi)
    rw [List.modify_succ_cons, List.sum_cons, List.sum_cons, ih]
    omega

/-- Each choice counts for one option. -/
theorem sum_tally (h : ∀ choice ∈ choices, 0 ≤ choice ∧ choice < n) :
    (tally n choices).sum = choices.length := by
  induction choices with
  | nil => simp
  | cons choice choices ih =>
    obtain ⟨h0, hn⟩ := h choice List.mem_cons_self
    have ih := ih fun other hother => h other (List.mem_cons_of_mem _ hother)
    have hsplit : tally n (choice :: choices) =
        (tally n choices).modify choice.toNat (· + 1) := by
      rw [tally_concat h0]
      exact tally_perm (List.perm_append_singleton choice choices).symm
    have hlt : choice.toNat < (tally n choices).length := by
      rw [length_tally]
      omega
    rw [hsplit, sum_modify hlt, ih, List.length_cons]
    omega

/-- No option is chosen more often than there are choices. -/
theorem tally_le (count : ℤ) (h : count ∈ tally n choices) : 0 ≤ count ∧ count ≤ choices.length := by
  obtain ⟨i, -, rfl⟩ := List.mem_map.mp h
  exact ⟨Int.natCast_nonneg _, Int.ofNat_le.mpr List.count_le_length⟩

/-! ### Voters -/

section Voters

variable {α : Type} [DecidableEq α]

/-- How many have voted. -/
def distinct (voters : List α) : ℕ := voters.toFinset.card

variable {voters voters' : List α} {voter : α}

@[simp] theorem distinct_nil : distinct ([] : List α) = 0 := rfl

theorem distinct_le : distinct voters ≤ voters.length := List.toFinset_card_le voters

/-- More votes of one voter. -/
theorem distinct_append (h : ∀ other ∈ voters', other = voter) (hne : voters' ≠ []) :
    distinct (voters ++ voters') = distinct voters + if voter ∈ voters then 0 else 1 := by
  have hset : (voters ++ voters').toFinset = insert voter voters.toFinset := by
    ext other
    rw [List.mem_toFinset, List.mem_append, Finset.mem_insert, List.mem_toFinset]
    constructor
    · rintro (hmem | hmem)
      · exact .inr hmem
      · exact .inl (h other hmem)
    · rintro (rfl | hmem)
      · obtain ⟨first, hfirst⟩ := List.exists_mem_of_ne_nil _ hne
        exact .inr (h first hfirst ▸ hfirst)
      · exact .inl hmem
  rw [distinct, distinct, hset]
  split
  · rename_i hmem
    rw [Finset.insert_eq_of_mem (List.mem_toFinset.mpr hmem), Nat.add_zero]
  · rename_i hmem
    exact Finset.card_insert_of_notMem fun h => hmem (List.mem_toFinset.mp h)

/-- Without the votes of one voter. -/
theorem distinct_filter (h : voter ∈ voters) :
    distinct (voters.filter fun other => decide (other ≠ voter)) + 1 = distinct voters := by
  have hset : (voters.filter fun other => decide (other ≠ voter)).toFinset =
      voters.toFinset.erase voter := by
    ext other
    simp [and_comm]
  have hmem : voter ∈ voters.toFinset := List.mem_toFinset.mpr h
  rw [distinct, distinct, hset, Finset.card_erase_of_mem hmem]
  have hpos := Finset.card_pos.mpr ⟨voter, hmem⟩
  omega

end Voters

end Schemes.Tallies
