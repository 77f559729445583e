import Mathlib.Data.List.Basic

/-! @scheme traced computations | name:Computations that leave a trace

    A computation that may fail and leaves the events of what it has done, also when it fails. What
    is promised of it is a triple: of a trace to begin with, that every event is allowed behind those
    before it, and of its result. -/

namespace Schemes.Traced

universe u v w

/-- The events of a computation, and its result. -/
structure Traced (ε : Type u) (τ : Type v) (α : Type w) where
  trace : List τ
  result : Except ε α

variable {ε : Type u} {τ : Type v} {α β : Type w}

instance : Monad (Traced ε τ) where
  pure a := ⟨[], .ok a⟩
  bind x f :=
    match x.result with
    | .error e => ⟨x.trace, .error e⟩
    | .ok a => ⟨x.trace ++ (f a).trace, (f a).result⟩

def emit (event : τ) : Traced ε τ PUnit.{w + 1} := ⟨[event], .ok ⟨⟩⟩

/-- A computation without events. -/
def lift (result : Except ε α) : Traced ε τ α := ⟨[], result⟩

/-- A sequence that succeeds succeeds in both parts. -/
theorem bind_result_ok {x : Traced ε τ α} {f : α → Traced ε τ β} {b : β}
    (h : (x >>= f).result = .ok b) : ∃ a, x.result = .ok a ∧ (f a).result = .ok b := by
  change (match x.result with
    | .error e => (⟨x.trace, .error e⟩ : Traced ε τ β)
    | .ok a => ⟨x.trace ++ (f a).trace, (f a).result⟩).result = _ at h
  cases hx : x.result with
  | error e =>
    rw [hx] at h
    cases h
  | ok a =>
    rw [hx] at h
    exact ⟨a, rfl, h⟩

/-- Every event of the trace is allowed behind the events before it. -/
def Allowed (step : List τ → τ → Prop) (before trace : List τ) : Prop :=
  ∀ init event rest, trace = init ++ event :: rest → step (before ++ init) event

/-- Behind a trace that meets the precondition, every event is allowed, and a result meets the
    postcondition with the trace that it leaves. -/
def Triple (step : List τ → τ → Prop) (P : List τ → Prop) (x : Traced ε τ α)
    (Q : α → List τ → Prop) : Prop :=
  ∀ before, P before →
    Allowed step before x.trace ∧ ∀ a, x.result = .ok a → Q a (before ++ x.trace)

variable {step : List τ → τ → Prop} {P P' : List τ → Prop} {Q Q' : α → List τ → Prop}

theorem allowed_nil (before : List τ) : Allowed step before [] := by
  intro init event rest h
  cases init <;> cases h

theorem Allowed.append {before trace trace' : List τ} (h : Allowed step before trace)
    (h' : Allowed step (before ++ trace) trace') : Allowed step before (trace ++ trace') := by
  intro init event rest hsplit
  rcases List.append_eq_append_iff.mp hsplit with ⟨shared, rfl, hrest⟩ | ⟨shared, rfl, hrest⟩
  · rw [← List.append_assoc]
    exact h' shared event rest hrest
  · cases shared with
    | nil =>
      rw [List.nil_append] at hrest
      rw [List.append_nil] at h'
      have hfirst := h' [] event rest hrest.symm
      rwa [List.append_nil] at hfirst
    | cons event' shared =>
      obtain ⟨rfl, -⟩ := List.cons.inj hrest
      exact h init event shared rfl

theorem triple_pure (a : α) (h : ∀ before, P before → Q a before) :
    Triple step P (pure a : Traced ε τ α) Q := by
  intro before hP
  refine ⟨allowed_nil before, fun a' ha' => ?_⟩
  obtain rfl := Except.ok.inj ha'
  rw [show (pure a : Traced ε τ α).trace = [] from rfl, List.append_nil]
  exact h before hP

theorem triple_lift {result : Except ε α} (h : ∀ a, result = .ok a → ∀ before, P before → Q a before) :
    Triple step P (lift result : Traced ε τ α) Q := by
  intro before hP
  refine ⟨allowed_nil before, fun a ha => ?_⟩
  rw [show (lift result : Traced ε τ α).trace = [] from rfl, List.append_nil]
  exact h a ha before hP

/-- What has no events keeps what holds of the trace. -/
theorem triple_lift_keep {result : Except ε α} :
    Triple step P (lift result : Traced ε τ α) fun _ => P :=
  triple_lift fun _ _ _ hP => hP

theorem triple_emit {event : τ} {Q : PUnit.{w + 1} → List τ → Prop}
    (h : ∀ before, P before → step before event ∧ Q ⟨⟩ (before ++ [event])) :
    Triple step P (emit event : Traced ε τ PUnit.{w + 1}) Q := by
  intro before hP
  refine ⟨fun init event' rest hsplit => ?_, fun _ _ => (h before hP).2⟩
  cases init with
  | nil =>
    obtain ⟨rfl, -⟩ := List.cons.inj hsplit
    rw [List.append_nil]
    exact (h before hP).1
  | cons event'' init =>
    have hlength := congrArg List.length hsplit
    simp [emit] at hlength

theorem triple_bind {R : β → List τ → Prop} {x : Traced ε τ α} {f : α → Traced ε τ β}
    (hx : Triple step P x Q) (hf : ∀ a, x.result = .ok a → Triple step (Q a) (f a) R) :
    Triple step P (x >>= f) R := by
  intro before hP
  obtain ⟨hallowed, hresult⟩ := hx before hP
  cases hx' : x.result with
  | error e =>
    have hbind : x >>= f = ⟨x.trace, .error e⟩ := by
      change (match x.result with | .error e => _ | .ok a => _) = _
      rw [hx']
    rw [hbind]
    exact ⟨hallowed, nofun⟩
  | ok a =>
    have hbind : x >>= f = ⟨x.trace ++ (f a).trace, (f a).result⟩ := by
      change (match x.result with | .error e => _ | .ok a => _) = _
      rw [hx']
    rw [hbind]
    obtain ⟨hallowed', hresult'⟩ := hf a hx' _ (hresult a hx')
    refine ⟨hallowed.append hallowed', fun b hb => ?_⟩
    rw [← List.append_assoc]
    exact hresult' b hb

theorem Triple.mono {x : Traced ε τ α} (h : Triple step P x Q) (hP : ∀ before, P' before → P before)
    (hQ : ∀ a before, Q a before → Q' a before) : Triple step P' x Q' := by
  intro before hbefore
  obtain ⟨hallowed, hresult⟩ := h before (hP before hbefore)
  exact ⟨hallowed, fun a ha => hQ a _ (hresult a ha)⟩

end Schemes.Traced
