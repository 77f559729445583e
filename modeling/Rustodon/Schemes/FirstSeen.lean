import Mathlib.Data.List.Infix
import Mathlib.Data.List.Nodup

/-! @scheme first seen | name:The order in which elements are first seen

    Elements in the order of their first occurrences, and what of a list this order depends on: which
    elements it has, and which of two of them comes first. -/

namespace Schemes.FirstSeen

universe u

variable {α : Type u} [DecidableEq α]

def see (seen : List α) (a : α) : List α := if a ∈ seen then seen else seen ++ [a]

/-- What has been seen after a list, each element once. -/
def seeAll (seen l : List α) : List α := l.foldl see seen

def firsts (l : List α) : List α := seeAll [] l

omit [DecidableEq α] in
/-- One element occurs where the other has not yet occurred. -/
def Before (l : List α) (x y : α) : Prop := ∃ p, p <+: l ∧ x ∈ p ∧ y ∉ p

variable {seen l l' : List α} {a x y : α}

@[simp] theorem seeAll_nil : seeAll seen [] = seen := rfl

@[simp] theorem seeAll_cons : seeAll seen (a :: l) = seeAll (see seen a) l := rfl

theorem seeAll_append : seeAll seen (l ++ l') = seeAll (seeAll seen l) l' := List.foldl_append

theorem mem_see : x ∈ see seen a ↔ x ∈ seen ∨ x = a := by
  rw [see]
  split
  · rename_i ha
    constructor
    · exact .inl
    · rintro (hx | rfl)
      · exact hx
      · exact ha
  · simp

theorem mem_seeAll : x ∈ seeAll seen l ↔ x ∈ seen ∨ x ∈ l := by
  induction l generalizing seen with
  | nil => simp
  | cons a l ih => rw [seeAll_cons, ih, mem_see, List.mem_cons, or_assoc]

@[simp] theorem mem_firsts : x ∈ firsts l ↔ x ∈ l := by
  rw [firsts, mem_seeAll]
  simp

theorem nodup_see (h : seen.Nodup) : (see seen a).Nodup := by
  rw [see]
  split
  · exact h
  · rename_i ha
    refine List.nodup_append.mpr ⟨h, List.nodup_singleton a, ?_⟩
    rintro x hx _ hy rfl
    exact ha (List.mem_singleton.mp hy ▸ hx)

theorem nodup_seeAll (h : seen.Nodup) : (seeAll seen l).Nodup := by
  induction l generalizing seen with
  | nil => exact h
  | cons a l ih => exact ih (nodup_see h)

theorem nodup_firsts : (firsts l).Nodup := nodup_seeAll List.nodup_nil

theorem prefix_seeAll : seen <+: seeAll seen l := by
  induction l generalizing seen with
  | nil => exact List.prefix_refl seen
  | cons a l ih =>
    refine List.IsPrefix.trans ?_ ih
    rw [see]
    split
    · exact List.prefix_refl seen
    · exact List.prefix_append seen [a]

theorem firsts_prefix (h : l <+: l') : firsts l <+: firsts l' := by
  obtain ⟨rest, rfl⟩ := h
  rw [firsts, firsts, seeAll_append]
  exact prefix_seeAll

theorem firsts_concat : firsts (l ++ [a]) = if a ∈ l then firsts l else firsts l ++ [a] := by
  rw [firsts, seeAll_append, seeAll_cons, seeAll_nil, ← firsts, see]
  simp only [mem_firsts]

/-! ### Order -/

/-- The first occurrences come in the order in which the elements come. -/
theorem before_firsts : Before (firsts l) x y ↔ Before l x y := by
  constructor
  · induction l using List.reverseRecOn with
    | nil =>
      rintro ⟨p, hp, hx, -⟩
      rw [List.prefix_nil.mp hp] at hx
      cases hx
    | append_singleton l a ih =>
      rintro ⟨p, hp, hx, hy⟩
      have hold (hp : p <+: firsts l) : Before (l ++ [a]) x y := by
        obtain ⟨q, hq, hxq, hyq⟩ := ih ⟨p, hp, hx, hy⟩
        exact ⟨q, hq.trans (List.prefix_append l [a]), hxq, hyq⟩
      rw [firsts_concat] at hp
      split at hp
      · exact hold hp
      · rename_i ha
        rcases List.prefix_concat_iff.mp hp with rfl | hp
        · refine ⟨l ++ [a], List.prefix_refl _, ?_, ?_⟩
          · simpa using hx
          · simpa using hy
        · exact hold hp
  · rintro ⟨p, hp, hx, hy⟩
    exact ⟨firsts p, firsts_prefix hp, mem_firsts.mpr hx, fun h => hy (mem_firsts.mp h)⟩

omit [DecidableEq α] in
theorem before_cons_of_ne (hne : y ≠ a) (h : Before l x y) : Before (a :: l) x y := by
  obtain ⟨p, hp, hx, hy⟩ := h
  refine ⟨a :: p, List.cons_prefix_cons.mpr ⟨rfl, hp⟩, List.mem_cons_of_mem a hx, ?_⟩
  simp [hne, hy]

omit [DecidableEq α] in
/-- Lists without repetitions that have the same elements in the same order are equal. -/
theorem eq_of_before : ∀ {l l' : List α}, l.Nodup → l'.Nodup → (∀ x, x ∈ l ↔ x ∈ l') →
    (∀ x y, Before l x y → Before l' x y) → l = l'
  | [], l', _, _, hmem, _ => (List.eq_nil_iff_forall_not_mem.mpr fun x hx => by
      simpa using (hmem x).mpr hx).symm
  | a :: l, [], _, _, hmem, _ => by simpa using (hmem a).mp List.mem_cons_self
  | a :: l, b :: l', hnodup, hnodup', hmem, hbefore => by
    obtain ⟨ha, hrest⟩ := List.nodup_cons.mp hnodup
    obtain ⟨hb, hrest'⟩ := List.nodup_cons.mp hnodup'
    have hab : a = b := by
      by_contra hne
      obtain ⟨p, hp, hmemA, hmemB⟩ := hbefore a b ⟨[a], by simp, by simp, by simpa using Ne.symm hne⟩
      cases p with
      | nil => cases hmemA
      | cons c p => exact hmemB ((List.cons_prefix_cons.mp hp).1 ▸ List.mem_cons_self)
    subst hab
    have htail (x : α) : x ∈ l ↔ x ∈ l' := by
      have hx := hmem x
      rw [List.mem_cons, List.mem_cons] at hx
      constructor
      · intro h
        rcases hx.mp (.inr h) with rfl | h'
        · exact absurd h ha
        · exact h'
      · intro h
        rcases hx.mpr (.inr h) with rfl | h'
        · exact absurd h hb
        · exact h'
    congr 1
    refine eq_of_before hrest hrest' htail fun x y h => ?_
    have hx : x ∈ l := by
      obtain ⟨p, hp, hmemX, -⟩ := h
      exact hp.subset hmemX
    by_cases hy : y = a
    · exact ⟨l', List.prefix_refl l', (htail x).mp hx, hy ▸ hb⟩
    · obtain ⟨p, hp, hmemX, hnotY⟩ := hbefore x y (before_cons_of_ne hy h)
      cases p with
      | nil => cases hmemX
      | cons c p =>
        obtain ⟨rfl, hprefix⟩ := List.cons_prefix_cons.mp hp
        rcases List.mem_cons.mp hmemX with rfl | hmemX
        · exact absurd hx ha
        · exact ⟨p, hprefix, hmemX, fun h => hnotY (List.mem_cons_of_mem _ h)⟩

/-- Part of a list has the same first occurrences exactly when it has every element, and first in the same
    order. -/
theorem firsts_eq_iff (hsub : ∀ x ∈ l, x ∈ l') :
    firsts l = firsts l' ↔ (∀ x ∈ l', x ∈ l) ∧ ∀ x y, Before l' x y → Before l x y := by
  constructor
  · intro h
    refine ⟨fun x hx => ?_, fun x y hbefore => ?_⟩
    · rw [← mem_firsts, h, mem_firsts]
      exact hx
    · rw [← before_firsts, h, before_firsts]
      exact hbefore
  · rintro ⟨hall, horder⟩
    refine (eq_of_before nodup_firsts nodup_firsts (fun x => ?_) fun x y hbefore => ?_).symm
    · rw [mem_firsts, mem_firsts]
      exact ⟨hall x, hsub x⟩
    · rw [before_firsts] at hbefore ⊢
      exact horder x y hbefore

end Schemes.FirstSeen
