import Rustodon.Schemes.Tables

/-! @scheme locks | name:Locks that holders share or have to themselves

    What a holder has locked is read off its row, so that to drop the row is to let go of its locks. -/

namespace Schemes.Locks
open Schemes.Tables (Table)

universe u v w

inductive Mode where
  | shared
  | exclusive
  deriving DecidableEq

variable {ρ : Type u} {ι : Type v} {κ : Type w} [DecidableEq ι] [DecidableEq κ] {key : ρ → ι}

/-- Both are about one thing, and one of them is exclusive. -/
def conflicts (a b : κ × Mode) : Bool :=
  decide (a.1 = b.1) && !(decide (a.2 = .shared) && decide (b.2 = .shared))

/-- No other holder has a lock that stands in the way. -/
def grantable (locks : ρ → List (κ × Mode)) (holders : Table key) (k : ι) (wanted : List (κ × Mode)) : Bool :=
  holders.rows.all fun row =>
    decide (key row = k) || (locks row).all fun held => wanted.all fun lock => !conflicts held lock

/-- The locks of different holders do not conflict. -/
def Compatible (locks : ρ → List (κ × Mode)) (holders : Table key) : Prop :=
  ∀ row ∈ holders.rows, ∀ row' ∈ holders.rows, key row ≠ key row' →
    ∀ a ∈ locks row, ∀ b ∈ locks row', conflicts a b = false

variable {locks : ρ → List (κ × Mode)} {holders holders' : Table key} {k : ι} {row row' : ρ}
  {wanted : List (κ × Mode)} {resource : κ} {mode : Mode}

theorem conflicts_comm (a b : κ × Mode) : conflicts a b = conflicts b a := by
  simp only [conflicts, eq_comm (a := a.1), Bool.and_comm (decide (a.2 = .shared))]

theorem conflicts_exclusive (resource : κ) (mode : Mode) :
    conflicts (resource, .exclusive) (resource, mode) = true := by
  cases mode <;> simp [conflicts]

theorem grantable_iff : grantable locks holders k wanted = true ↔
    ∀ row ∈ holders.rows, key row ≠ k → ∀ a ∈ locks row, ∀ b ∈ wanted, conflicts a b = false := by
  simp only [grantable, List.all_eq_true, Bool.or_eq_true, decide_eq_true_eq, Bool.not_eq_true']
  exact forall₂_congr fun row _ => or_iff_not_imp_left

/-- What one holder has to itself, no other holder has any lock of. -/
theorem Compatible.not_mem (h : Compatible locks holders) (hrow : row ∈ holders.rows)
    (hrow' : row' ∈ holders.rows) (hne : key row ≠ key row') (hlock : (resource, .exclusive) ∈ locks row) :
    (resource, mode) ∉ locks row' := by
  intro hother
  have hfalse := h row hrow row' hrow' hne _ hlock _ hother
  rw [conflicts_exclusive] at hfalse
  cases hfalse

theorem Compatible.erase (h : Compatible locks holders) : Compatible locks (holders.erase k) := by
  intro row hrow row' hrow'
  exact h row (Table.mem_erase.mp hrow).1 row' (Table.mem_erase.mp hrow').1

/-- A new holder has asked whether its locks are free. -/
theorem Compatible.insert (h : Compatible locks holders) (hinsert : holders.insert row = some holders')
    (hfree : grantable locks holders (key row) (locks row) = true) : Compatible locks holders' := by
  obtain ⟨-, hrows⟩ := Table.get_of_insert hinsert
  intro first hfirst second hsecond hne
  rw [hrows, List.mem_append, List.mem_singleton] at hfirst hsecond
  rcases hfirst with hfirst | rfl <;> rcases hsecond with hsecond | rfl
  · exact h first hfirst second hsecond hne
  · exact grantable_iff.mp hfree first hfirst hne
  · intro a ha b hb
    rw [conflicts_comm]
    exact grantable_iff.mp hfree second hsecond (Ne.symm hne) b hb a ha
  · exact absurd rfl hne

/-- A holder has asked before it changes what it locks. -/
theorem Compatible.modify {f : ρ → ρ} (hf : ∀ row, key (f row) = key row) (h : Compatible locks holders)
    (hlocks : ∀ row ∈ holders.rows, key row = k → locks (f row) = wanted)
    (hfree : grantable locks holders k wanted = true) : Compatible locks (holders.modify k f hf) := by
  have hfree := grantable_iff.mp hfree
  intro first hfirst second hsecond hne
  obtain ⟨x, hx, rfl⟩ := List.mem_map.mp hfirst
  obtain ⟨y, hy, rfl⟩ := List.mem_map.mp hsecond
  by_cases hxk : key x = k <;> by_cases hyk : key y = k
  · rw [if_pos hxk, if_pos hyk, hf, hf, hxk, hyk] at hne
    exact absurd rfl hne
  · rw [if_pos hxk, if_neg hyk, hlocks x hx hxk]
    intro a ha b hb
    rw [conflicts_comm]
    exact hfree y hy hyk b hb a ha
  · rw [if_neg hxk, if_pos hyk, hlocks y hy hyk]
    exact hfree x hx hxk
  · rw [if_neg hxk, if_neg hyk] at hne ⊢
    exact h x hx y hy hne

end Schemes.Locks
