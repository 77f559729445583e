import Mathlib.Data.List.Basic

/-! @scheme labelled runs | name:Runs of a system that takes labelled steps

    A run carries the labels of its steps in order, so that a statement about the history of a
    state is a statement about a list. -/

namespace Schemes.Runs

universe u v

variable {σ : Type u} {α : Type v} {step step' : σ → α → σ → Prop}

/-- The run from a state that takes the steps with these labels. -/
inductive Run (step : σ → α → σ → Prop) (s : σ) : List α → σ → Prop where
  | nil : Run step s [] s
  | snoc {labels : List α} {s' s'' : σ} {a : α} (run : Run step s labels s')
      (last : step s' a s'') : Run step s (labels ++ [a]) s''

variable {s t : σ} {labels labels' : List α}

/-- An invariant of state and history holds after a run when it holds at the start and every step
    keeps it. -/
theorem Run.invariant {P : List α → σ → Prop} (hinit : P [] s)
    (hstep : ∀ labels s' a s'', Run step s labels s' → P labels s' → step s' a s'' →
      P (labels ++ [a]) s'') (h : Run step s labels t) : P labels t := by
  induction h with
  | nil => exact hinit
  | snoc run last ih => exact hstep _ _ _ _ run ih last

/-- An invariant of states alone. -/
theorem Run.preserves {P : σ → Prop} (hstep : ∀ s a t, P s → step s a t → P t)
    (h : Run step s labels t) (hinit : P s) : P t := by
  induction h with
  | nil => exact hinit
  | snoc run last ih => exact hstep _ _ _ ih last

theorem Run.mono (hmono : ∀ s a t, step s a t → step' s a t) (h : Run step s labels t) :
    Run step' s labels t := by
  induction h with
  | nil => exact .nil
  | snoc run last ih => exact .snoc ih (hmono _ _ _ last)

/-- A run whose labels all have a property is one of the steps that have it. -/
theorem Run.restrict {p : α → Prop} (h : Run step s labels t) (hp : ∀ a ∈ labels, p a) :
    Run (fun s a t => p a ∧ step s a t) s labels t := by
  induction h with
  | nil => exact .nil
  | snoc run last ih =>
    have hinit := ih fun a ha => hp a (List.mem_append_left _ ha)
    exact .snoc hinit ⟨hp _ (List.mem_append_right _ (List.mem_singleton_self _)), last⟩

theorem Run.append {u : σ} (h : Run step s labels t) (h' : Run step t labels' u) :
    Run step s (labels ++ labels') u := by
  induction h' with
  | nil => simpa using h
  | snoc run last ih =>
    rw [← List.append_assoc]
    exact .snoc ih last

theorem Run.cons {a : α} (first : step s a t) {u : σ} (h : Run step t labels u) :
    Run step s (a :: labels) u :=
  (Run.snoc .nil first : Run step s ([] ++ [a]) t).append h

/-! ### Steps that are computed -/

section Exec

universe w

variable {ω : Type w} {β : Type v} {next : σ → ω → Option (σ × β)}

/-- Steps that are computed from what is to be done, with what each of them puts out. -/
def exec (next : σ → ω → Option (σ × β)) (s : σ) : List ω → Option (σ × List (ω × β))
  | [] => some (s, [])
  | op :: ops =>
    (next s op).bind fun (t, output) =>
      (exec next t ops).map fun (u, labels) => (u, (op, output) :: labels)

/-- The run that is computed. -/
theorem exec_run : ∀ {ops : List ω} {s t : σ} {labels : List (ω × β)},
    exec next s ops = some (t, labels) →
      Run (fun s label t => next s label.1 = some (t, label.2)) s labels t
  | [], _, _, _, h => by
    obtain ⟨rfl, rfl⟩ := Prod.mk.inj (Option.some.inj h)
    exact .nil
  | op :: ops, s, t, labels, h => by
    obtain ⟨⟨m, output⟩, hstep, h⟩ := Option.bind_eq_some_iff.mp h
    obtain ⟨⟨u, rest⟩, hrest, h⟩ := Option.map_eq_some_iff.mp h
    obtain ⟨rfl, rfl⟩ := Prod.mk.inj h
    exact .cons hstep (exec_run hrest)

theorem exec_ops : ∀ {ops : List ω} {s t : σ} {labels : List (ω × β)},
    exec next s ops = some (t, labels) → labels.map Prod.fst = ops
  | [], _, _, _, h => by
    obtain ⟨-, rfl⟩ := Prod.mk.inj (Option.some.inj h)
    rfl
  | op :: ops, s, t, labels, h => by
    obtain ⟨⟨m, output⟩, -, h⟩ := Option.bind_eq_some_iff.mp h
    obtain ⟨⟨u, rest⟩, hrest, h⟩ := Option.map_eq_some_iff.mp h
    obtain ⟨-, rfl⟩ := Prod.mk.inj h
    exact congrArg (op :: ·) (exec_ops hrest)

end Exec

/-- The run of steps that are computed without any output. -/
theorem foldlM_run {next : σ → α → Option σ} : ∀ {ops : List α} {s t : σ},
    ops.foldlM next s = some t → Run (fun s a t => next s a = some t) s ops t
  | [], _, _, h => by
    obtain rfl := Option.some.inj h
    exact .nil
  | op :: ops, s, t, h => by
    rw [List.foldlM_cons] at h
    obtain ⟨m, hstep, h⟩ := Option.bind_eq_some_iff.mp h
    exact .cons hstep (foldlM_run h)

theorem eq_some_getD {o : Option α} {a : α} (h : o.isSome = true) : o = some (o.getD a) := by
  cases o with
  | none => cases h
  | some b => rfl

/-- The run of steps that always succeed. -/
theorem foldl_run {f : σ → α → σ} : ∀ {ops : List α} {s : σ},
    Run (fun s a t => f s a = t) s ops (ops.foldl f s)
  | [], _ => .nil
  | _ :: _, _ => .cons rfl foldl_run

/-- The state that a run on fixed labels comes to. -/
theorem foldlM_getD_run {next : σ → α → Option σ} {ops : List α} {s : σ}
    (h : (ops.foldlM next s).isSome = true) :
    Run (fun s a t => next s a = some t) s ops ((ops.foldlM next s).getD s) :=
  foldlM_run (eq_some_getD h)

end Schemes.Runs
