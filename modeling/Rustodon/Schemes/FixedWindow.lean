import Mathlib.Data.List.Count
import Mathlib.Data.List.Induction
import Mathlib.Tactic.Ring

/-! @scheme fixed-window | name:Fixed-window budgets

    A budget per key, renewed in numbered buckets. A request names the charges it wants to make, a
    charge being a key together with one of that key's buckets, and the policy admits it when no
    charge it names has used up its key's budget. The whole state is the list of the requests
    admitted so far, so two limiters that admit the same requests are the same limiter. -/

namespace Schemes.FixedWindow

variable {κ : Type*} [DecidableEq κ]

/-- A key and the bucket of that key which is charged. -/
abbrev Charge (κ : Type*) := κ × ℕ

/-- The policy: a request is admitted when every charge it names is below its key's budget. -/
def admits (limit : κ → ℕ) (log : List (Charge κ)) (request : List (Charge κ)) : Bool :=
  request.all fun c => decide (log.count c < limit c.1)

/-- Every request of the history was within the policy when it was admitted. -/
def Budgeted (limit : κ → ℕ) (history : List (List (Charge κ))) : Prop :=
  ∀ pre request post, history = pre ++ request :: post →
    admits limit pre.flatten request = true

/-- How many of the admitted requests charged `c`. -/
def uses (history : List (List (Charge κ))) (c : Charge κ) : ℕ :=
  (history.filter fun request => decide (c ∈ request)).length

theorem admits_iff (limit : κ → ℕ) (log request : List (Charge κ)) :
    admits limit log request = true ↔ ∀ c ∈ request, log.count c < limit c.1 := by
  simp [admits, List.all_eq_true]

theorem budgeted_nil (limit : κ → ℕ) : Budgeted limit [] := by
  intro pre request post h
  simp at h

/-- Admitting one more request within the policy keeps the history within the policy. -/
theorem Budgeted.concat {limit : κ → ℕ} {history : List (List (Charge κ))}
    {request : List (Charge κ)} (h : Budgeted limit history)
    (hr : admits limit history.flatten request = true) : Budgeted limit (history ++ [request]) := by
  intro pre r post heq
  rcases List.eq_nil_or_concat post with rfl | ⟨post', last, rfl⟩
  · obtain ⟨rfl, hlast⟩ := List.append_inj' heq rfl
    simp only [List.cons.injEq, and_true] at hlast
    exact hlast ▸ hr
  · rw [List.concat_eq_append, ← List.cons_append, ← List.append_assoc] at heq
    obtain ⟨hpre, -⟩ := List.append_inj' heq rfl
    exact h pre r post' hpre

theorem uses_concat (history : List (List (Charge κ))) (request : List (Charge κ)) (c : Charge κ) :
    uses (history ++ [request]) c = uses history c + if c ∈ request then 1 else 0 := by
  by_cases hc : c ∈ request <;> simp [uses, hc]

/-- A request charges a bucket at least once when it uses it. -/
theorem uses_le_count : ∀ (history : List (List (Charge κ))) (c : Charge κ),
    uses history c ≤ history.flatten.count c
  | [], _ => by simp [uses]
  | request :: rest, c => by
    have ih := uses_le_count rest c
    simp only [uses, List.flatten_cons, List.count_append] at ih ⊢
    by_cases hc : c ∈ request
    · have hpos : 0 < request.count c := List.count_pos_iff.mpr hc
      simp only [hc, decide_true, List.filter_cons_of_pos, List.length_cons]
      omega
    · simp only [hc, decide_false, Bool.false_eq_true, not_false_eq_true, List.filter_cons_of_neg]
      omega

/-- CORRECT: within the policy, a bucket is used by at most as many requests as its key allows. -/
theorem uses_le_limit {limit : κ → ℕ} {history : List (List (Charge κ))}
    (h : Budgeted limit history) (c : Charge κ) : uses history c ≤ limit c.1 := by
  induction history using List.reverseRecOn with
  | nil => simp [uses]
  | append_singleton history request ih =>
    have hprefix : Budgeted limit history := fun pre r post heq =>
      h pre r (post ++ [request]) (by rw [heq]; simp)
    rw [uses_concat]
    split_ifs with hc
    · have hroom := (admits_iff limit _ _).mp (h history request [] rfl) c hc
      have := uses_le_count history c
      omega
    · simpa using ih hprefix

end Schemes.FixedWindow
