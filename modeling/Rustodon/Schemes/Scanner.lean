import Mathlib.Data.List.Basic
import Mathlib.Data.List.TakeWhile

/-! @scheme scanners | name:Scanners that jump behind what they find

    A scanner goes through a list and tries a reader at every place. Where something is found, it goes
    on behind it. When nothing can be found inside of what is found, the scanner finds what can be
    found at any place at all, so that it is known without its jumps. -/

namespace Schemes.Scanner

universe u v w

variable {α : Type u} {β : Type v} {γ : Type w}

/-- What is found at a place, by the element before it, the element there and those behind, and how
    many of the latter belong to it. -/
abbrev Reader (α : Type u) (β : Type v) := Option α → α → List α → Option (β × ℕ)

def scan (read : Reader α β) : ℕ → Option α → List α → List β
  | 0, _, _ => []
  | _ + 1, _, [] => []
  | fuel + 1, before, a :: rest =>
    match read before a rest with
    | some (b, n) => b :: scan read fuel (a :: rest.take n).getLast? (rest.drop n)
    | none => scan read fuel (some a) rest

/-- Somewhere in what is to do, behind what is done, something is found. -/
def Occurs (read : Reader α β) (done todo : List α) (b : β) : Prop :=
  ∃ before a rest n, todo = before ++ a :: rest ∧
    read (done ++ before).getLast? a rest = some (b, n)

/-- Nothing is found inside of what is found. -/
def Skips (read : Reader α β) : Prop :=
  ∀ before a rest b n, read before a rest = some (b, n) →
    ∀ inner a' rest', rest = inner ++ a' :: rest' → inner.length < n →
      read (a :: inner).getLast? a' rest' = none

variable {read : Reader α β} {done todo rest : List α} {a : α} {b : β}

theorem occurs_nil : ¬ Occurs read done [] b := by
  rintro ⟨before, a, rest, n, h, -⟩
  simp at h

theorem occurs_cons : Occurs read done (a :: rest) b ↔
    (∃ n, read done.getLast? a rest = some (b, n)) ∨ Occurs read (done ++ [a]) rest b := by
  constructor
  · rintro ⟨before, a', rest', n, htodo, hread⟩
    cases before with
    | nil =>
      obtain ⟨rfl, rfl⟩ := List.cons.inj htodo
      rw [List.append_nil] at hread
      exact .inl ⟨n, hread⟩
    | cons c before =>
      obtain ⟨rfl, rfl⟩ := List.cons.inj htodo
      refine .inr ⟨before, a', rest', n, rfl, ?_⟩
      rw [List.append_assoc]
      exact hread
  · rintro (⟨n, hread⟩ | ⟨before, a', rest', n, rfl, hread⟩)
    · exact ⟨[], a, rest, n, rfl, by rwa [List.append_nil]⟩
    · refine ⟨a :: before, a', rest', n, rfl, ?_⟩
      rwa [List.append_assoc] at hread

/-- What is passed over may be left out where nothing is found in it. -/
theorem occurs_drop {n : ℕ} (h : ∀ inner a' rest', todo = inner ++ a' :: rest' → inner.length < n →
    read (done ++ inner).getLast? a' rest' = none) :
    Occurs read done todo b ↔ Occurs read (done ++ todo.take n) (todo.drop n) b := by
  constructor
  · rintro ⟨before, a', rest', m, rfl, hread⟩
    have hlength : n ≤ before.length := by
      by_contra hlt
      rw [h before a' rest' rfl (Nat.lt_of_not_le hlt)] at hread
      cases hread
    refine ⟨before.drop n, a', rest', m, List.drop_append_of_le_length hlength, ?_⟩
    rw [List.take_append_of_le_length hlength, List.append_assoc, List.take_append_drop]
    exact hread
  · rintro ⟨before, a', rest', m, htodo, hread⟩
    refine ⟨todo.take n ++ before, a', rest', m, ?_, by rwa [List.append_assoc] at hread⟩
    rw [List.append_assoc, ← htodo, List.take_append_drop]

/-- A scanner finds what can be found at any place. -/
theorem mem_scan (hskips : Skips read) : ∀ {fuel : ℕ} {done todo : List α}, todo.length < fuel →
    (b ∈ scan read fuel done.getLast? todo ↔ Occurs read done todo b) := by
  intro fuel
  induction fuel with
  | zero =>
    intro done todo hfuel
    exact absurd hfuel (Nat.not_lt_zero _)
  | succ fuel ih =>
    intro done todo hfuel
    cases todo with
    | nil => simp [scan, occurs_nil]
    | cons a rest =>
      rw [List.length_cons] at hfuel
      rw [scan, occurs_cons]
      cases hread : read done.getLast? a rest with
      | none =>
        have hrest := @ih (done ++ [a]) rest (by omega)
        rw [List.getLast?_concat] at hrest
        simpa using hrest
      | some found =>
        obtain ⟨b', n⟩ := found
        have hrest := @ih (done ++ a :: rest.take n) (rest.drop n) (by rw [List.length_drop]; omega)
        rw [List.getLast?_append_of_ne_nil _ (List.cons_ne_nil _ _)] at hrest
        have hinner : ∀ inner a' rest', rest = inner ++ a' :: rest' → inner.length < n →
            read (done ++ [a] ++ inner).getLast? a' rest' = none := by
          intro inner a' rest' hsplit hlength
          rw [List.append_assoc, List.getLast?_append_of_ne_nil _ (by simp)]
          exact hskips _ a rest b' n hread inner a' rest' hsplit hlength
        rw [occurs_drop hinner, List.append_assoc, List.singleton_append, ← hrest]
        simp [eq_comm]

/-! ### The longest run of a class -/

/-- A run that ends where its class ends. -/
def IsRun (p : α → Bool) (run after : List α) : Prop :=
  (∀ a ∈ run, p a = true) ∧ ∀ a ∈ after.head?, p a = false

theorem takeWhile_isRun (p : α → Bool) (l : List α) : IsRun p (l.takeWhile p) (l.dropWhile p) := by
  refine ⟨fun a ha => List.mem_takeWhile_imp ha, ?_⟩
  induction l with
  | nil => simp
  | cons a l ih =>
    by_cases ha : p a = true
    · rw [List.dropWhile_cons_of_pos ha]
      exact ih
    · rw [List.dropWhile_cons_of_neg ha]
      simpa using ha

theorem IsRun.takeWhile_eq {p : α → Bool} {run after : List α} (h : IsRun p run after) :
    (run ++ after).takeWhile p = run ∧ (run ++ after).dropWhile p = after := by
  obtain ⟨hrun, hafter⟩ := h
  rw [List.takeWhile_append_of_pos hrun, List.dropWhile_append_of_pos hrun]
  cases after with
  | nil => simp
  | cons a after =>
    have ha : ¬ p a = true := by simp [hafter a rfl]
    rw [List.takeWhile_cons_of_neg ha, List.dropWhile_cons_of_neg ha, List.append_nil]
    exact ⟨rfl, rfl⟩

theorem IsRun.congr {p p' : α → Bool} {run after : List α} (hrun : ∀ a ∈ run, p a = p' a)
    (hafter : ∀ a ∈ after, p a = p' a) : IsRun p run after ↔ IsRun p' run after := by
  have hhead : ∀ a ∈ after.head?, p a = p' a := fun a ha => hafter a (List.mem_of_mem_head? ha)
  constructor
  · rintro ⟨hall, hend⟩
    exact ⟨fun a ha => (hrun a ha).symm.trans (hall a ha),
      fun a ha => (hhead a ha).symm.trans (hend a ha)⟩
  · rintro ⟨hall, hend⟩
    exact ⟨fun a ha => (hrun a ha).trans (hall a ha), fun a ha => (hhead a ha).trans (hend a ha)⟩

end Schemes.Scanner
