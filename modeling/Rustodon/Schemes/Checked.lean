import Mathlib.Data.List.Basic

/-! @scheme checked computations | name:Computations that may fail

    `Except` as the image of `Result`: the two ways a guard fails, and what is known of the parts of
    a computation that succeeded. -/

namespace Schemes.Checked

universe u v

variable {ε : Type u} {α β : Type v}

/-- `Option::ok_or`. -/
def okOr (value : Option α) (e : ε) : Except ε α :=
  match value with
  | some a => .ok a
  | none => .error e

/-- Fails with an error when the condition holds. -/
def failIf (condition : Bool) (e : ε) : Except ε Unit := if condition then .error e else .ok ()

/-- A sequence that succeeds succeeds in both parts. -/
theorem bind_eq_ok {x : Except ε α} {f : α → Except ε β} {b : β} (h : (x >>= f) = .ok b) :
    ∃ a, x = .ok a ∧ f a = .ok b := by
  cases x with
  | error e => exact absurd h (by simp [bind, Except.bind])
  | ok a => exact ⟨a, rfl, h⟩

theorem map_eq_ok {x : Except ε α} {f : α → β} {b : β} (h : x.map f = .ok b) :
    ∃ a, x = .ok a ∧ f a = b := by
  cases x with
  | error e => cases h
  | ok a => exact ⟨a, rfl, Except.ok.inj h⟩

theorem okOr_eq_ok {value : Option α} {e : ε} {a : α} (h : okOr value e = .ok a) :
    value = some a := by
  cases value with
  | none => exact absurd h (by simp [okOr])
  | some b => exact congrArg some (Except.ok.inj h)

theorem failIf_eq_ok {condition : Bool} {e : ε} {u : Unit} (h : failIf condition e = .ok u) :
    condition = false := by
  cases condition with
  | true => exact absurd h (by simp [failIf])
  | false => rfl

theorem okOr_some_bind (a : α) (e : ε) (f : α → Except ε β) : (okOr (some a) e >>= f) = f a := rfl

theorem ok_bind (a : α) (f : α → Except ε β) : ((.ok a : Except ε α) >>= f) = f a := rfl

theorem failIf_false (e : ε) : failIf false e = .ok () := rfl

/-- Elements that all succeed succeed together. -/
theorem mapM_eq_ok {f : α → Except ε β} {g : α → β} : ∀ {l : List α},
    (∀ a ∈ l, f a = .ok (g a)) → l.mapM f = .ok (l.map g)
  | [], _ => rfl
  | a :: l, h => by
    rw [List.mapM_cons, h a List.mem_cons_self, ok_bind,
      mapM_eq_ok fun b hb => h b (List.mem_cons_of_mem _ hb), ok_bind]
    rfl

/-- What a sequence gives is given for an element. -/
theorem exists_of_mapM {f : α → Except ε β} : ∀ {l : List α} {read : List β}, l.mapM f = .ok read →
    ∀ b ∈ read, ∃ a ∈ l, f a = .ok b
  | [], _, h, b, hb => by
    obtain rfl := Except.ok.inj h
    cases hb
  | a :: l, read, h, b, hb => by
    rw [List.mapM_cons] at h
    obtain ⟨value, hvalue, h⟩ := bind_eq_ok h
    obtain ⟨rest, hrest, h⟩ := bind_eq_ok h
    obtain rfl := Except.ok.inj h
    rcases List.mem_cons.mp hb with rfl | hmem
    · exact ⟨a, List.mem_cons_self, hvalue⟩
    · obtain ⟨found, hfound, hf⟩ := exists_of_mapM hrest b hmem
      exact ⟨found, List.mem_cons_of_mem _ hfound, hf⟩

/-- What every pass of a loop keeps, the loop keeps. -/
theorem foldlM_preserves {f : β → α → Except ε β} {P : β → Prop}
    (hstep : ∀ s a t, P s → f s a = .ok t → P t) :
    ∀ {l : List α} {s t : β}, l.foldlM f s = .ok t → P s → P t
  | [], s, t, h, hs => by
    obtain rfl := Except.ok.inj h
    exact hs
  | a :: l, s, t, h, hs => by
    rw [List.foldlM_cons] at h
    obtain ⟨s', hfirst, h⟩ := bind_eq_ok h
    exact foldlM_preserves hstep h (hstep s a s' hs hfirst)

end Schemes.Checked
