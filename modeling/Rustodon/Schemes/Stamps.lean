import Mathlib.Data.List.Basic

/-! @scheme stamps | name:Owners that are told by their stamps

    A column is set by hand or by one of several owners, and holds the stamp of who set it. An owner
    clears what has its stamp. While stamps differ, what the column holds is attributed: it was set by
    hand, and nothing set by hand is lost, or by an owner that is still there. -/

namespace Schemes.Stamps

universe u v

variable {τ : Type u} {β : Type v}

/-- What a column holds. Once it was set by hand, only a hand sets it. -/
def Attributed (manual : τ → Prop) (stamp : β → τ) (owns : β → Prop) (owners : List β) :
    Option τ → Prop
  | none => ∀ t, ¬manual t
  | some t =>
    (manual t ∧ ∀ owner ∈ owners, stamp owner ≠ t) ∨
      (∀ t', ¬manual t') ∧ ∃ owner ∈ owners, stamp owner = t ∧ owns owner

variable {manual : τ → Prop} {stamp : β → τ} {owns : β → Prop} {owners owners' : List β}
  {value : Option τ}

theorem Attributed.kept (h : Attributed manual stamp owns owners value) {t : τ} (ht : manual t) :
    ∃ t', value = some t' ∧ manual t' ∧ ∀ owner ∈ owners, stamp owner ≠ t' := by
  cases value with
  | none => exact absurd ht (h t)
  | some t' =>
    rcases h with ⟨hmanual, hapart⟩ | ⟨hnone, -⟩
    · exact ⟨t', rfl, hmanual, hapart⟩
    · exact absurd ht (hnone t)

theorem Attributed.source {t : τ} (h : Attributed manual stamp owns owners (some t)) :
    manual t ∨ ∃ owner ∈ owners, stamp owner = t ∧ owns owner := by
  rcases h with ⟨hmanual, -⟩ | ⟨-, howner⟩
  · exact .inl hmanual
  · exact .inr howner

/-- The stamp of an owner was not set by hand. -/
theorem Attributed.owned {owner : β} (hmem : owner ∈ owners)
    (h : Attributed manual stamp owns owners (some (stamp owner))) :
    (∀ t, ¬manual t) ∧ ∃ other ∈ owners, stamp other = stamp owner ∧ owns other := by
  rcases h with ⟨-, hapart⟩ | howned
  · exact absurd rfl (hapart owner hmem)
  · exact howned

theorem Attributed.congr {manual' : τ → Prop} (hmanual : ∀ t, manual' t ↔ manual t)
    (h : Attributed manual stamp owns owners value) : Attributed manual' stamp owns owners value := by
  rw [funext fun t => propext (hmanual t)]
  exact h

/-- Setting it by hand, with a stamp that is nobody's. -/
theorem attributed_manual {t : τ} (hmanual : manual t) (hfresh : ∀ owner ∈ owners, stamp owner ≠ t) :
    Attributed manual stamp owns owners (some t) :=
  .inl ⟨hmanual, hfresh⟩

/-- An owner sets what was not set. -/
theorem Attributed.set (h : Attributed manual stamp owns owners none) {owner : β}
    (hmem : owner ∈ owners') (howns : owns owner) :
    Attributed manual stamp owns owners' (some (stamp owner)) :=
  .inr ⟨h, owner, hmem, rfl, howns⟩

/-- One more owner, with a stamp that the column does not hold. -/
theorem Attributed.insert {owner : β} (h : Attributed manual stamp owns owners value)
    (hfresh : ∀ t, value = some t → stamp owner ≠ t) :
    Attributed manual stamp owns (owners ++ [owner]) value := by
  cases value with
  | none => exact h
  | some t =>
    rcases h with ⟨hmanual, hapart⟩ | ⟨hnone, other, hother, hstamp, howns⟩
    · refine .inl ⟨hmanual, fun other hother => ?_⟩
      rcases List.mem_append.mp hother with hother | hother
      · exact hapart other hother
      · rw [List.mem_singleton.mp hother]
        exact hfresh t rfl
    · exact .inr ⟨hnone, other, List.mem_append_left _ hother, hstamp, howns⟩

/-- Owners that change, but neither in their stamps nor in what they own. -/
theorem Attributed.map {f : β → β} (hstamp : ∀ owner, stamp (f owner) = stamp owner)
    (howns : ∀ owner ∈ owners, owns owner → owns (f owner))
    (h : Attributed manual stamp owns owners value) :
    Attributed manual stamp owns (owners.map f) value := by
  cases value with
  | none => exact h
  | some t =>
    rcases h with ⟨hmanual, hapart⟩ | ⟨hnone, owner, hmem, rfl, howner⟩
    · refine .inl ⟨hmanual, fun other hother => ?_⟩
      obtain ⟨owner, hmem, rfl⟩ := List.mem_map.mp hother
      rw [hstamp]
      exact hapart owner hmem
    · exact .inr ⟨hnone, f owner, List.mem_map_of_mem hmem, hstamp owner, howns owner hmem howner⟩

/-- An owner leaves whose stamp the column does not hold. -/
theorem Attributed.remove {p : β → Bool} {t : τ} (hp : ∀ owner ∈ owners, stamp owner ≠ t → p owner = true)
    (hvalue : value ≠ some t) (h : Attributed manual stamp owns owners value) :
    Attributed manual stamp owns (owners.filter p) value := by
  cases value with
  | none => exact h
  | some t' =>
    rcases h with ⟨hmanual, hapart⟩ | ⟨hnone, owner, hmem, rfl, howner⟩
    · exact .inl ⟨hmanual, fun owner hmem => hapart owner (List.mem_of_mem_filter hmem)⟩
    · have hne : stamp owner ≠ t := fun heq => hvalue (congrArg some heq)
      exact .inr ⟨hnone, owner, List.mem_filter.mpr ⟨hmem, hp owner hmem hne⟩, rfl, howner⟩

variable [DecidableEq τ]

/-- Clearing what has the stamp. -/
def cleared (t : τ) (value : Option τ) : Option τ := if value = some t then none else value

theorem cleared_eq_some {t t' : τ} (h : cleared t value = some t') : value = some t' ∧ t' ≠ t := by
  rw [cleared] at h
  split at h
  · cases h
  · rename_i hne
    exact ⟨h, fun heq => hne (heq ▸ h)⟩

/-- An owner clears what it has set. -/
theorem Attributed.cleared {owner : β} (hmem : owner ∈ owners)
    (h : Attributed manual stamp owns owners value) :
    Attributed manual stamp owns owners (Stamps.cleared (stamp owner) value) := by
  rw [Stamps.cleared]
  split
  · rename_i heq
    rw [heq] at h
    exact (h.owned hmem).1
  · exact h

end Schemes.Stamps
