import Mathlib.Data.Int.Notation
import Mathlib.Data.List.Basic

/-! @scheme segments | name:Paths that end in a number

    What stands behind the last separator of a path is its last segment, and a number in decimal is a
    segment that no other number has. -/

namespace Schemes.Segments

universe u

variable {α : Type u} {c : α} {a b x y : List α}

/-- The last segment of a path. -/
theorem last_segment_inj (hx : c ∉ x) (hy : c ∉ y) (h : a ++ c :: x = b ++ c :: y) : x = y := by
  rcases List.append_eq_append_iff.mp h with ⟨middle, -, hrest⟩ | ⟨middle, -, hrest⟩
  · cases middle with
    | nil => exact (List.cons.inj hrest).2
    | cons d middle =>
      obtain ⟨-, rfl⟩ := List.cons.inj hrest
      simp at hx
  · cases middle with
    | nil => exact (List.cons.inj hrest).2.symm
    | cons d middle =>
      obtain ⟨-, rfl⟩ := List.cons.inj hrest
      simp at hy

/-! ### Decimal numbers -/

theorem toDigits_inj {m n : ℕ} (h : Nat.toDigits 10 m = Nat.toDigits 10 n) : m = n := by
  have hread : ∀ k : ℕ, Nat.ofDigitChars 10 (Nat.toDigits 10 k) 0 = k := fun k =>
    Nat.ofDigitChars_toDigits (by decide) (by decide)
  rw [← hread m, h, hread n]

theorem toList_repr (n : ℕ) : n.repr.toList = Nat.toDigits 10 n := by
  simp [Nat.repr]

theorem isDigit_of_mem_repr {n : ℕ} {d : Char} (h : d ∈ n.repr.toList) : d.isDigit :=
  Nat.isDigit_of_mem_toDigits (by decide) (by decide) (toList_repr n ▸ h)

theorem repr_inj {m n : ℕ} (h : m.repr = n.repr) : m = n :=
  toDigits_inj (by rw [← toList_repr, h, toList_repr])

/-- A number is written in digits, behind a sign when it is negative. -/
theorem toString_cases (z : ℤ) :
    (∃ n : ℕ, z = n ∧ toString z = n.repr) ∨
      ∃ n : ℕ, z = -(n + 1) ∧ (toString z).toList = '-' :: (n + 1).repr.toList := by
  cases z with
  | ofNat n => exact .inl ⟨n, rfl, rfl⟩
  | negSucc n =>
    refine .inr ⟨n, Int.negSucc_eq n, ?_⟩
    change ("-" ++ (n + 1).repr).toList = _
    simp [String.toList_append]

theorem not_mem_toString {d : Char} (hsign : d ≠ '-') (hdigit : d.isDigit = false) (z : ℤ) :
    d ∉ (toString z).toList := by
  intro hmem
  rcases toString_cases z with ⟨n, -, hz⟩ | ⟨n, -, hz⟩
  · rw [hz] at hmem
    simp [isDigit_of_mem_repr hmem] at hdigit
  · rw [hz, List.mem_cons] at hmem
    rcases hmem with hmem | hmem
    · exact hsign hmem
    · simp [isDigit_of_mem_repr hmem] at hdigit

theorem toString_inj {z w : ℤ} (h : toString z = toString w) : z = w := by
  have hminus : ∀ n : ℕ, '-' ∉ n.repr.toList := by
    intro n hmem
    have hdigit := isDigit_of_mem_repr hmem
    revert hdigit
    decide
  rcases toString_cases z with ⟨m, rfl, hm⟩ | ⟨m, rfl, hm⟩ <;>
    rcases toString_cases w with ⟨n, rfl, hn⟩ | ⟨n, rfl, hn⟩
  · rw [repr_inj (hm.symm.trans (h.trans hn))]
  · refine absurd ?_ (hminus m)
    rw [← hm, h, hn]
    exact List.mem_cons_self
  · refine absurd ?_ (hminus n)
    rw [← hn, ← h, hm]
    exact List.mem_cons_self
  · rw [h, hn] at hm
    have hrepr := String.toList_inj.mp (List.cons.inj hm).2
    have hnumber := repr_inj hrepr
    omega

end Schemes.Segments
