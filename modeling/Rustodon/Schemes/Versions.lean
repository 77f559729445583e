import Mathlib.Data.List.Basic

/-! @scheme versions | name:A row with its committed and its current version

    A row that one transaction at a time may hold and change. Others see the version that has been
    committed; a commit makes the current version the committed one, and an abort drops it. -/

namespace Schemes.Versions

universe u

structure Cell (α : Type u) where
  committed : α
  current : α
  /-- The transaction that holds the row. -/
  holder : Option ℕ
  /-- The commit that has made the committed version. -/
  version : ℕ

namespace Cell

variable {α : Type u} {c : Cell α} {i j n : ℕ} {a : α}

/-- A transaction may take the row. -/
def free (c : Cell α) (i : ℕ) : Bool := c.holder == none || c.holder == some i

def lock (c : Cell α) (i : ℕ) : Cell α := { c with holder := some i }

def write (c : Cell α) (i : ℕ) (a : α) : Cell α := { c with current := a, holder := some i }

def commit (c : Cell α) (i n : ℕ) : Cell α :=
  if c.holder = some i then ⟨c.current, c.current, none, n⟩ else c

def abort (c : Cell α) (i : ℕ) : Cell α :=
  if c.holder = some i then { c with current := c.committed, holder := none } else c

/-- A row that nobody holds has one version. -/
def Settled (c : Cell α) : Prop := c.holder = none → c.current = c.committed

theorem free_iff : c.free i = true ↔ c.holder = none ∨ c.holder = some i := by
  simp [free]

@[simp] theorem lock_committed : (c.lock i).committed = c.committed := rfl
@[simp] theorem lock_current : (c.lock i).current = c.current := rfl
@[simp] theorem lock_holder : (c.lock i).holder = some i := rfl
@[simp] theorem lock_version : (c.lock i).version = c.version := rfl
@[simp] theorem write_committed : (c.write i a).committed = c.committed := rfl
@[simp] theorem write_current : (c.write i a).current = a := rfl
@[simp] theorem write_holder : (c.write i a).holder = some i := rfl
@[simp] theorem write_version : (c.write i a).version = c.version := rfl

theorem commit_of_holder (h : c.holder = some i) : c.commit i n = ⟨c.current, c.current, none, n⟩ := if_pos h

theorem commit_of_ne (h : c.holder ≠ some i) : c.commit i n = c := if_neg h

theorem abort_of_holder (h : c.holder = some i) :
    c.abort i = { c with current := c.committed, holder := none } := if_pos h

theorem abort_of_ne (h : c.holder ≠ some i) : c.abort i = c := if_neg h

@[simp] theorem abort_committed : (c.abort i).committed = c.committed := by
  rw [abort]
  split <;> rfl

@[simp] theorem abort_version : (c.abort i).version = c.version := by
  rw [abort]
  split <;> rfl

theorem Settled.commit (h : c.Settled) : (c.commit i n).Settled := by
  by_cases hi : c.holder = some i
  · rw [commit_of_holder hi]
    exact fun _ => rfl
  · rw [commit_of_ne hi]
    exact h

theorem Settled.abort (h : c.Settled) : (c.abort i).Settled := by
  by_cases hi : c.holder = some i
  · rw [abort_of_holder hi]
    exact fun _ => rfl
  · rw [abort_of_ne hi]
    exact h

/-- After its end a transaction holds nothing. -/
theorem holder_commit_ne : (c.commit i n).holder ≠ some i := by
  by_cases hi : c.holder = some i
  · rw [commit_of_holder hi]
    simp
  · rw [commit_of_ne hi]
    exact hi

theorem holder_abort_ne : (c.abort i).holder ≠ some i := by
  by_cases hi : c.holder = some i
  · rw [abort_of_holder hi]
    simp
  · rw [abort_of_ne hi]
    exact hi

/-- What another transaction holds it goes on to hold. -/
theorem holder_of_commit (h : (c.commit i n).holder = some j) : c.commit i n = c := by
  by_cases hi : c.holder = some i
  · rw [commit_of_holder hi] at h
    cases h
  · exact commit_of_ne hi

theorem holder_of_abort (h : (c.abort i).holder = some j) : c.abort i = c := by
  by_cases hi : c.holder = some i
  · rw [abort_of_holder hi] at h
    cases h
  · exact abort_of_ne hi

end Cell

end Schemes.Versions
