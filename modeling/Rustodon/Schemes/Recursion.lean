import Mathlib.Data.List.Nodup
import Mathlib.Data.List.Sort
import Mathlib.Data.List.Perm.Basic

/-! @scheme recursion | name:Recursive queries

    `WITH RECURSIVE … UNION ALL`: every round joins the rows of the round before, until a round finds
    nothing. The rows come breadth first; they are a rearrangement of those that a search in depth
    finds. -/

namespace Schemes.Recursion

universe u v

variable {α : Type u} {step : α → List α} {rows : List α} {a : α} {n m : ℕ}

/-- The working table after so many rounds. -/
def working (step : α → List α) : ℕ → List α → List α
  | 0, rows => rows
  | n + 1, rows => working step n (rows.flatMap step)

/-- The rows of so many rounds. -/
def collected (step : α → List α) : ℕ → List α → List α
  | 0, _ => []
  | n + 1, rows => rows ++ collected step n (rows.flatMap step)

/-- The same rows in depth first order. -/
def search (step : α → List α) : ℕ → List α → List α
  | 0, _ => []
  | n + 1, rows => rows.flatMap fun a => a :: search step n (step a)

theorem collected_nil : collected step n [] = [] := by
  induction n with
  | zero => rfl
  | succ n ih => rw [collected, List.flatMap_nil, ih, List.append_nil]

/-- Once a round has found nothing, later rounds change nothing. -/
theorem collected_of_stops (h : working step n rows = []) (hle : n ≤ m) :
    collected step m rows = collected step n rows := by
  induction n generalizing m rows with
  | zero => rw [show rows = [] from h, collected_nil, collected_nil]
  | succ n ih =>
    obtain ⟨m, rfl⟩ := Nat.exists_eq_add_of_le' hle
    rw [show m + (n + 1) = (m + n) + 1 from rfl, collected, collected, ih h (Nat.le_add_left n m)]

/-- What the base rows satisfy and a round preserves. -/
theorem working_invariant {P : ℕ → α → Prop} (hstep : ∀ k a b, P k a → b ∈ step a → P (k + 1) b) {k : ℕ}
    (hrows : ∀ a ∈ rows, P k a) : ∀ a ∈ working step n rows, P (k + n) a := by
  induction n generalizing rows k with
  | zero => exact hrows
  | succ n ih =>
    intro a ha
    have hnext : ∀ b ∈ rows.flatMap step, P (k + 1) b := by
      intro b hb
      obtain ⟨c, hc, hbc⟩ := List.mem_flatMap.mp hb
      exact hstep k c b (hrows c hc) hbc
    have hresult := ih hnext a ha
    rwa [Nat.add_assoc, Nat.add_comm 1 n] at hresult

/-- Rounds end where the invariant bounds them. -/
theorem stops_of_bound {P : ℕ → α → Prop} (hstep : ∀ k a b, P k a → b ∈ step a → P (k + 1) b)
    (hrows : ∀ a ∈ rows, P 0 a) (hbound : ∀ a, ¬P n a) : working step n rows = [] := by
  rw [List.eq_nil_iff_forall_not_mem]
  intro a ha
  have h := working_invariant hstep hrows a ha
  rw [Nat.zero_add] at h
  exact hbound a h

/-! ### Breadth and depth -/

theorem search_flatMap {β : Type v} {f : β → List α} {l : List β} :
    search step n (l.flatMap f) = l.flatMap fun b => search step n (f b) := by
  cases n with
  | zero => simp [search]
  | succ n => simp only [search, List.flatMap_assoc]

theorem flatMap_cons_perm {f : α → List α} : (rows.flatMap fun a => a :: f a).Perm (rows ++ rows.flatMap f) := by
  induction rows with
  | nil => exact .nil
  | cons a rows ih =>
    rw [List.flatMap_cons, List.flatMap_cons, List.cons_append, List.cons_append]
    refine .cons a ?_
    refine (List.Perm.append_left (f a) ih).trans ?_
    rw [← List.append_assoc, ← List.append_assoc]
    exact List.Perm.append_right _ List.perm_append_comm

theorem collected_perm_search : (collected step n rows).Perm (search step n rows) := by
  induction n generalizing rows with
  | zero => exact .nil
  | succ n ih =>
    rw [collected, search]
    refine (List.Perm.append_left rows ih).trans ?_
    rw [search_flatMap]
    exact flatMap_cons_perm.symm

/-- Rows that are sorted by a key at the end come in the order of the search, if that is sorted. -/
theorem insertionSort_collected {β : Type v} [LinearOrder β] {key : α → β}
    (h : (search step n rows).Pairwise fun a b => key a < key b) :
    (collected step n rows).insertionSort (fun a b => key a ≤ key b) = search step n rows := by
  have : Std.Total fun a b => key a ≤ key b := ⟨fun a b => le_total (key a) (key b)⟩
  have : IsTrans α fun a b => key a ≤ key b := ⟨fun _ _ _ => le_trans⟩
  have hkeys : ((search step n rows).map key).Nodup :=
    (List.pairwise_map.mpr h).imp fun hlt => ne_of_lt hlt
  have hperm := (List.perm_insertionSort (fun a b => key a ≤ key b) (collected step n rows)).trans
    collected_perm_search
  refine hperm.eq_of_pairwise (fun a b ha hb hab hba => ?_) (List.pairwise_insertionSort _ _)
    (h.imp fun hlt => le_of_lt hlt)
  exact List.inj_on_of_nodup_map hkeys (hperm.subset ha) hb (le_antisymm hab hba)

end Schemes.Recursion
