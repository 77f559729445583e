import Mathlib.Logic.Function.Basic
import Mathlib.Data.Nat.Notation
import Mathlib.Data.Option.Basic

/-! @scheme climbs | name:Climbing from parent to parent

    A partial parent function as a forest of pointers: a climb follows the pointers, and the pointers are
    acyclic when every climb ends. What a new pointer does to that. -/

namespace Schemes.Climb

universe u

variable {α : Type u} {parent parent' : α → Option α}

/-- Where one is after following so many parents. -/
def climb (parent : α → Option α) : ℕ → α → Option α
  | 0, a => some a
  | n + 1, a => (parent a).bind (climb parent n)

/-- Following the parents from here ends. -/
def Ends (parent : α → Option α) (a : α) : Prop := ∃ n, climb parent n a = none

def Acyclic (parent : α → Option α) : Prop := ∀ a, Ends parent a

/-- The first is the second or one of its descendants. -/
def Reaches (parent : α → Option α) (a b : α) : Prop := ∃ n, climb parent n a = some b

@[simp] theorem climb_zero (a : α) : climb parent 0 a = some a := rfl

theorem climb_succ (n : ℕ) (a : α) : climb parent (n + 1) a = (parent a).bind (climb parent n) := rfl

@[simp] theorem climb_root {a : α} (h : parent a = none) (n : ℕ) : climb parent (n + 1) a = none := by
  rw [climb_succ, h]
  rfl

@[simp] theorem climb_child {a b : α} (h : parent a = some b) (n : ℕ) :
    climb parent (n + 1) a = climb parent n b := by
  rw [climb_succ, h]
  rfl

theorem Ends.root {a : α} (h : parent a = none) : Ends parent a := ⟨1, climb_root h 0⟩

theorem ends_child {a b : α} (h : parent a = some b) : Ends parent a ↔ Ends parent b := by
  constructor
  · rintro ⟨n, hn⟩
    cases n with
    | zero => cases hn
    | succ n => exact ⟨n, by rwa [climb_child h] at hn⟩
  · rintro ⟨n, hn⟩
    exact ⟨n + 1, by rwa [climb_child h]⟩

theorem Reaches.refl (a : α) : Reaches parent a a := ⟨0, rfl⟩

theorem reaches_root {a b : α} (h : parent a = none) : Reaches parent a b ↔ a = b := by
  constructor
  · rintro ⟨n, hn⟩
    cases n with
    | zero => exact Option.some.inj hn
    | succ n =>
      rw [climb_root h] at hn
      cases hn
  · rintro rfl
    exact .refl a

theorem Reaches.child {a b c : α} (h : parent a = some b) (hb : Reaches parent b c) :
    Reaches parent a c := by
  obtain ⟨n, hn⟩ := hb
  exact ⟨n + 1, by rwa [climb_child h]⟩

theorem climb_add (n m : ℕ) (a : α) :
    climb parent (n + m) a = (climb parent n a).bind (climb parent m) := by
  induction n generalizing a with
  | zero => simp
  | succ n ih =>
    rw [Nat.add_right_comm, climb_succ, climb_succ]
    cases parent a with
    | none => rfl
    | some b => exact ih b

/-- A climb that has ended stays ended. -/
theorem climb_none_mono {n m : ℕ} {a : α} (h : climb parent n a = none) (hle : n ≤ m) :
    climb parent m a = none := by
  obtain ⟨k, rfl⟩ := Nat.exists_eq_add_of_le hle
  rw [climb_add, h]
  rfl

/-- Who comes back to where the climb began never ends it. -/
theorem not_ends_of_returns {a : α} {n : ℕ} (h : climb parent (n + 1) a = some a) :
    ¬ Ends parent a := by
  rintro ⟨m, hm⟩
  have hrounds : ∀ k, climb parent ((n + 1) * k) a = some a := by
    intro k
    induction k with
    | zero => rfl
    | succ k ih =>
      rw [Nat.mul_succ, climb_add, ih]
      exact h
  have hended := climb_none_mono hm (Nat.le_mul_of_pos_left m n.succ_pos)
  rw [hrounds m] at hended
  cases hended

/-- More pointers lead on along the climbs there were. -/
theorem climb_mono (hmono : ∀ a b, parent a = some b → parent' a = some b) {n : ℕ} {a b : α}
    (h : climb parent n a = some b) : climb parent' n a = some b := by
  induction n generalizing a with
  | zero => exact h
  | succ n ih =>
    cases hparent : parent a with
    | none => simp [hparent] at h
    | some c =>
      rw [climb_child hparent] at h
      rw [climb_child (hmono a c hparent)]
      exact ih h

theorem Acyclic.of_mono (hmono : ∀ a b, parent a = some b → parent' a = some b)
    (h : Acyclic parent') : Acyclic parent := by
  intro a
  obtain ⟨n, hn⟩ := h a
  refine ⟨n, ?_⟩
  cases hclimb : climb parent n a with
  | none => rfl
  | some b =>
    rw [climb_mono hmono hclimb] at hn
    cases hn

/-- Nothing that nobody points to is reached from anything else. -/
theorem not_reaches_of_unknown {child : α} (hunknown : ∀ a, parent a ≠ some child) {a : α} (hne : a ≠ child) :
    ¬ Reaches parent a child := by
  rintro ⟨n, hn⟩
  induction n generalizing a with
  | zero => exact hne (Option.some.inj hn)
  | succ n ih =>
    cases hparent : parent a with
    | none => simp [hparent] at hn
    | some b =>
      rw [climb_child hparent] at hn
      refine ih ?_ hn
      rintro rfl
      exact hunknown a hparent

/-! ### A new pointer -/

section Update

variable [DecidableEq α] {child t : α}

theorem update_mono (hroot : parent child = none) (a b : α) (h : parent a = some b) :
    Function.update parent child (some t) a = some b := by
  rw [Function.update_of_ne]
  · exact h
  · rintro rfl
    rw [hroot] at h
    cases h

/-- A climb that does not come past the new pointer ends as before. -/
theorem ends_update_of_not_reaches {a : α} (hends : Ends parent a)
    (hreaches : ¬ Reaches parent a child) :
    Ends (Function.update parent child (some t)) a := by
  obtain ⟨n, hn⟩ := hends
  induction n generalizing a with
  | zero => cases hn
  | succ n ih =>
    have hne : a ≠ child := by
      rintro rfl
      exact hreaches (.refl a)
    have hsame := Function.update_of_ne hne (some t) parent
    cases hparent : parent a with
    | none => exact .root (hsame.trans hparent)
    | some b =>
      rw [climb_child hparent] at hn
      refine (ends_child (hsame.trans hparent)).mpr (ih ?_ hn)
      intro hb
      exact hreaches (.child hparent hb)

/-- A root may be put below whatever is not one of its own descendants, and below nothing else. -/
theorem acyclic_update_iff (hroot : parent child = none) :
    Acyclic (Function.update parent child (some t)) ↔
      Acyclic parent ∧ ¬ Reaches parent t child := by
  have hnew : Function.update parent child (some t) child = some t :=
    Function.update_self child (some t) parent
  constructor
  · intro h
    refine ⟨h.of_mono (update_mono hroot), ?_⟩
    rintro ⟨n, hn⟩
    have hback := climb_mono (update_mono (t := t) hroot) hn
    rw [← climb_child hnew] at hback
    exact not_ends_of_returns hback (h child)
  · rintro ⟨h, hreaches⟩ a
    have htarget := ends_update_of_not_reaches (t := t) (h t) hreaches
    -- the climbs that come past the child go on from the target
    obtain ⟨n, hn⟩ := h a
    induction n generalizing a with
    | zero => cases hn
    | succ n ih =>
      by_cases hne : a = child
      · subst hne
        exact (ends_child hnew).mpr htarget
      · have hsame := Function.update_of_ne hne (some t) parent
        cases hparent : parent a with
        | none => exact .root (hsame.trans hparent)
        | some b =>
          rw [climb_child hparent] at hn
          exact (ends_child (hsame.trans hparent)).mpr (ih b hn)

/-- A new element below any of the others. -/
theorem Acyclic.insert (h : Acyclic parent) (hroot : parent child = none)
    (hunknown : ∀ a, parent a ≠ some child) (hne : t ≠ child) :
    Acyclic (Function.update parent child (some t)) :=
  (acyclic_update_iff hroot).mpr ⟨h, not_reaches_of_unknown hunknown hne⟩

end Update

end Schemes.Climb
