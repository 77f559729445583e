import Mathlib.Data.List.Infix

/-! @scheme labels | name:Names made of labels

    A name is written label by label, with a separator between them. What is above it in the hierarchy
    of names is what follows one of the separators. -/

namespace Schemes.Labels

variable {α : Type} {sep : α} {name above : List α}

/-- The name itself, or what follows a separator in it. -/
def LabelSuffix (sep : α) (above name : List α) : Prop := above = name ∨ sep :: above <:+ name

theorem LabelSuffix.suffix (h : LabelSuffix sep above name) : above <:+ name := by
  rcases h with rfl | h
  · exact List.suffix_refl _
  · exact (List.suffix_cons sep above).trans h

theorem LabelSuffix.mem (h : LabelSuffix sep above name) {a : α} (ha : a ∈ above) : a ∈ name :=
  h.suffix.subset ha

/-- Names of one length that are above one name are the same. -/
theorem LabelSuffix.eq_of_length {other : List α} (h : LabelSuffix sep above name)
    (h' : LabelSuffix sep other name) (hlength : above.length = other.length) : above = other :=
  (List.suffix_of_suffix_length_le h.suffix h'.suffix hlength.le).eq_of_length hlength

section Split

variable [DecidableEq α]

/-- The labels of a name. -/
def labels (sep : α) (name : List α) : List (List α) := name.splitOn sep

/-- `labels[index..].join(sep)` for every index. -/
def labelSuffixes (sep : α) (name : List α) : List (List α) :=
  (List.range (labels sep name).length).map fun i => [sep].intercalate ((labels sep name).drop i)

/-- What a name is made of. -/
theorem mem_of_labels {a : α} (h : a ∈ name) : a = sep ∨ ∃ label ∈ labels sep name, a ∈ label := by
  have hmem : ∀ {parts : List (List α)}, a ∈ [sep].intercalate parts →
      a = sep ∨ ∃ label ∈ parts, a ∈ label := by
    intro parts hmem
    induction parts with
    | nil => cases hmem
    | cons part parts ih =>
      by_cases hparts : parts = []
      · subst hparts
        rw [List.intercalate_singleton] at hmem
        exact .inr ⟨part, List.mem_cons_self, hmem⟩
      · rw [List.intercalate_cons_of_ne_nil hparts, List.append_assoc, List.mem_append,
          List.singleton_append, List.mem_cons] at hmem
        rcases hmem with hmem | rfl | hmem
        · exact .inr ⟨part, List.mem_cons_self, hmem⟩
        · exact .inl rfl
        · obtain hsep | ⟨label, hlabel, ha⟩ := ih hmem
          · exact .inl hsep
          · exact .inr ⟨label, List.mem_cons_of_mem _ hlabel, ha⟩
  refine hmem ?_
  rw [labels, List.intercalate_splitOn]
  exact h

omit [DecidableEq α] in
theorem intercalate_drop : ∀ {parts : List (List α)} {i : ℕ}, i < parts.length → i ≠ 0 →
    sep :: [sep].intercalate (parts.drop i) <:+ [sep].intercalate parts
  | [], _, hi, _ => absurd hi (Nat.not_lt_zero _)
  | _ :: _, 0, _, hne => absurd rfl hne
  | part :: parts, i + 1, hi, _ => by
    have hi : i < parts.length := Nat.lt_of_succ_lt_succ hi
    have hparts : parts ≠ [] := by
      rintro rfl
      exact Nat.not_lt_zero _ hi
    have htail : sep :: [sep].intercalate parts <:+ [sep].intercalate (part :: parts) := by
      rw [List.intercalate_cons_of_ne_nil hparts]
      exact ⟨part, by simp⟩
    rw [List.drop_succ_cons]
    by_cases hzero : i = 0
    · subst hzero
      rw [List.drop_zero]
      exact htail
    · exact (intercalate_drop hi hzero).trans ((List.suffix_cons sep _).trans htail)

theorem mem_labelSuffixes : above ∈ labelSuffixes sep name ↔ LabelSuffix sep above name := by
  rw [labelSuffixes, List.mem_map]
  constructor
  · rintro ⟨i, hi, rfl⟩
    have hi : i < (labels sep name).length := List.mem_range.mp hi
    have hwhole : [sep].intercalate (labels sep name) = name := List.intercalate_splitOn sep
    by_cases hzero : i = 0
    · subst hzero
      rw [List.drop_zero]
      exact .inl hwhole
    · have hsuffix : sep :: [sep].intercalate ((labels sep name).drop i) <:+
          [sep].intercalate (labels sep name) := intercalate_drop hi hzero
      rw [hwhole] at hsuffix
      exact .inr hsuffix
  · rintro (rfl | ⟨init, rfl⟩)
    · refine ⟨0, List.mem_range.mpr (List.length_pos_iff.mpr ?_), ?_⟩
      · exact List.splitOn_ne_nil sep above
      · rw [List.drop_zero]
        exact List.intercalate_splitOn sep
    · have hsplit : labels sep (init ++ sep :: above) = labels sep init ++ labels sep above :=
        List.splitOn_append_cons_self init above
      have hpos : 0 < (labels sep above).length := List.length_pos_iff.mpr (List.splitOn_ne_nil sep above)
      refine ⟨(labels sep init).length, List.mem_range.mpr ?_, ?_⟩
      · rw [hsplit, List.length_append]
        omega
      · rw [hsplit, List.drop_left]
        exact List.intercalate_splitOn sep

/-- The labels of a name above are labels of the name. -/
theorem labels_subset (h : LabelSuffix sep above name) {label : List α}
    (hlabel : label ∈ labels sep above) : label ∈ labels sep name := by
  rcases h with rfl | ⟨init, rfl⟩
  · exact hlabel
  · have hsplit : labels sep (init ++ sep :: above) = labels sep init ++ labels sep above :=
      List.splitOn_append_cons_self init above
    rw [hsplit]
    exact List.mem_append_right _ hlabel

/-- The number of labels grows by those that are in front. -/
theorem length_labels_lt (h : sep :: above <:+ name) :
    (labels sep above).length < (labels sep name).length := by
  obtain ⟨init, rfl⟩ := h
  have hsplit : labels sep (init ++ sep :: above) = labels sep init ++ labels sep above :=
    List.splitOn_append_cons_self init above
  have hpos : 0 < (labels sep init).length := List.length_pos_iff.mpr (List.splitOn_ne_nil sep init)
  rw [hsplit, List.length_append]
  omega

end Split

end Schemes.Labels
