import Mathlib.Data.Set.Insert
import Mathlib.Data.Prod.Basic
import Mathlib.Order.BooleanAlgebra.Set
import Rustodon.Schemes.Runs

/-! @src mastodon/write_repository.rs | name:Relations | scheme:labelled runs | family:relationships

    What relationships are for, without rows: who follows whom, who has asked to, who blocks whom, and
    what may happen to the three relations. -/

namespace Rustodon.Relationships
open Schemes.Runs

universe u

variable {α : Type u}

/-- Ordered pairs of accounts. -/
structure Relations (α : Type u) where
  follows : Set (α × α)
  requests : Set (α × α)
  blocks : Set (α × α)

namespace Relations

/-- One of the two blocks the other. -/
def Blocked (r : Relations α) (p : α × α) : Prop := p ∈ r.blocks ∨ p.swap ∈ r.blocks

/-- Those who are blocked neither follow nor have asked to. -/
def Guarded (r : Relations α) : Prop := ∀ p ∈ r.blocks, p.swap ∉ r.follows ∧ p.swap ∉ r.requests

/-- Nobody has asked to follow whom they follow. -/
def Exclusive (r : Relations α) : Prop := ∀ p ∈ r.requests, p ∉ r.follows

end Relations

open Relations

/-- What may happen to relations; `orderly` keeps new follows apart from requests. -/
inductive Transition (orderly : Prop) (r : Relations α) : Relations α → Prop where
  | keep : Transition orderly r r
  | ask (p : α × α) (hblocked : ¬ r.Blocked p) (hfollow : p ∉ r.follows) :
    Transition orderly r { r with requests := insert p r.requests }
  | follow (p : α × α) (hblocked : ¬ r.Blocked p) (hrequest : orderly → p ∉ r.requests) :
    Transition orderly r { r with follows := insert p r.follows }
  | accept (p : α × α) (hrequest : p ∈ r.requests) :
    Transition orderly r { r with follows := insert p r.follows, requests := r.requests \ {p} }
  | unfollow (p : α × α) : Transition orderly r { r with follows := r.follows \ {p} }
  | withdraw (p : α × α) : Transition orderly r { r with requests := r.requests \ {p} }
  | decline (p : α × α) :
    Transition orderly r { r with follows := r.follows \ {p}, requests := r.requests \ {p} }
  | block (p : α × α) : Transition orderly r {
      follows := (r.follows \ {p}) \ {p.swap}
      requests := r.requests \ {p.swap}
      blocks := insert p r.blocks }
  | unblock (p : α × α) : Transition orderly r { r with blocks := r.blocks \ {p} }

variable {orderly : Prop} {r r' : Relations α}

theorem Transition.mono {orderly' : Prop} (h : Transition orderly r r') (himp : orderly' → orderly) :
    Transition orderly' r r' := by
  cases h with
  | keep => exact .keep
  | ask p hblocked hfollow => exact .ask p hblocked hfollow
  | follow p hblocked hrequest => exact .follow p hblocked fun ho => hrequest (himp ho)
  | accept p hrequest => exact .accept p hrequest
  | unfollow p => exact .unfollow p
  | withdraw p => exact .withdraw p
  | decline p => exact .decline p
  | block p => exact .block p
  | unblock p => exact .unblock p

/-- Nothing gives back to those who are blocked what the block has taken. -/
theorem Transition.guarded (h : Transition orderly r r') (hguarded : r.Guarded) : r'.Guarded := by
  intro q hq
  cases h with
  | keep => exact hguarded q hq
  | ask p hblocked hfollow =>
    refine ⟨(hguarded q hq).1, ?_⟩
    rintro (hp | hp)
    · exact hblocked (.inr (hp ▸ q.swap_swap.symm ▸ hq))
    · exact (hguarded q hq).2 hp
  | follow p hblocked hrequest =>
    refine ⟨?_, (hguarded q hq).2⟩
    rintro (hp | hp)
    · exact hblocked (.inr (hp ▸ q.swap_swap.symm ▸ hq))
    · exact (hguarded q hq).1 hp
  | accept p hrequest =>
    refine ⟨?_, fun hp => (hguarded q hq).2 hp.1⟩
    rintro (hp | hp)
    · exact (hguarded q hq).2 (hp ▸ hrequest)
    · exact (hguarded q hq).1 hp
  | unfollow p => exact ⟨fun hp => (hguarded q hq).1 hp.1, (hguarded q hq).2⟩
  | withdraw p => exact ⟨(hguarded q hq).1, fun hp => (hguarded q hq).2 hp.1⟩
  | decline p => exact ⟨fun hp => (hguarded q hq).1 hp.1, fun hp => (hguarded q hq).2 hp.1⟩
  | block p =>
    rcases hq with rfl | hq
    · exact ⟨fun hp => hp.2 rfl, fun hp => hp.2 rfl⟩
    · exact ⟨fun hp => (hguarded q hq).1 hp.1.1, fun hp => (hguarded q hq).2 hp.1⟩
  | unblock p => exact hguarded q hq.1

theorem Transition.exclusive (h : Transition True r r') (hexclusive : r.Exclusive) : r'.Exclusive := by
  intro q hq
  cases h with
  | keep => exact hexclusive q hq
  | ask p hblocked hfollow =>
    rcases hq with rfl | hq
    · exact hfollow
    · exact hexclusive q hq
  | follow p hblocked hrequest =>
    rintro (rfl | hp)
    · exact hrequest trivial hq
    · exact hexclusive q hq hp
  | accept p hrequest =>
    rintro (rfl | hp)
    · exact hq.2 rfl
    · exact hexclusive q hq.1 hp
  | unfollow p => exact fun hp => hexclusive q hq hp.1
  | withdraw p => exact hexclusive q hq.1
  | decline p => exact fun hp => hexclusive q hq.1 hp.1
  | block p => exact fun hp => hexclusive q hq.1 hp.1.1
  | unblock p => exact hexclusive q hq

/-- Between two of whom one blocks the other no request is made, and no follow but from a request. -/
theorem Transition.blocked {p : α × α} (h : Transition orderly r r') (hblocked : r.Blocked p) :
    (p ∈ r'.requests → p ∈ r.requests) ∧ (p ∈ r'.follows → p ∈ r.follows ∨ p ∈ r.requests) := by
  cases h with
  | keep => exact ⟨id, .inl⟩
  | ask q hother hfollow =>
    refine ⟨?_, .inl⟩
    rintro (rfl | hp)
    · exact absurd hblocked hother
    · exact hp
  | follow q hother hrequest =>
    refine ⟨id, ?_⟩
    rintro (rfl | hp)
    · exact absurd hblocked hother
    · exact .inl hp
  | accept q hrequest =>
    refine ⟨And.left, ?_⟩
    rintro (rfl | hp)
    · exact .inr hrequest
    · exact .inl hp
  | unfollow q => exact ⟨id, fun hp => .inl hp.1⟩
  | withdraw q => exact ⟨And.left, .inl⟩
  | decline q => exact ⟨And.left, fun hp => .inl hp.1⟩
  | block q => exact ⟨And.left, fun hp => .inl hp.1.1⟩
  | unblock q => exact ⟨id, .inl⟩

end Rustodon.Relationships
