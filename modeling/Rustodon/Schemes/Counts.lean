import Mathlib.Data.List.Nodup

/-! @scheme counts | name:Counting rows

    How many rows of a list have a property, when rows are unique, deleted or changed. -/

namespace Schemes.Counts

/-- Where all rows that count are one, there is one at most. -/
theorem countP_le_one {α : Type} {p : α → Bool} : ∀ {l : List α}, l.Nodup →
    (∀ a ∈ l, ∀ b ∈ l, p a = true → p b = true → a = b) → l.countP p ≤ 1
  | [], _, _ => Nat.zero_le _
  | a :: l, hnodup, heq => by
    obtain ⟨hnot, hrest⟩ := List.nodup_cons.mp hnodup
    by_cases ha : p a = true
    · have hnone : l.countP p = 0 := by
        refine List.countP_eq_zero.mpr fun b hb hpb => hnot ?_
        rw [heq a List.mem_cons_self b (List.mem_cons_of_mem a hb) ha hpb]
        exact hb
      rw [List.countP_cons_of_pos ha]
      omega
    · rw [List.countP_cons_of_neg ha]
      exact countP_le_one hrest fun b hb c hc =>
        heq b (List.mem_cons_of_mem a hb) c (List.mem_cons_of_mem a hc)

/-- What is counted after a deletion or change was counted before. -/
theorem countP_filterMap_le {α : Type} {p : α → Bool} {f : α → Option α} : ∀ {l : List α},
    (∀ a ∈ l, ∀ b, f a = some b → p b = true → p a = true) →
      (l.filterMap f).countP p ≤ l.countP p
  | [], _ => Nat.le_refl _
  | a :: l, h => by
    have ih := countP_filterMap_le fun b hb => h b (List.mem_cons_of_mem a hb)
    cases hf : f a with
    | none =>
      rw [List.filterMap_cons_none hf]
      rw [List.countP_cons]
      omega
    | some b =>
      rw [List.filterMap_cons_some hf, List.countP_cons, List.countP_cons]
      by_cases hb : p b = true
      · rw [if_pos hb, if_pos (h a List.mem_cons_self b hf hb)]
        omega
      · rw [if_neg hb]
        omega

/-- Where a list has an element that counts, and another one at most one, the other counts no
    more. -/
theorem countP_le_of_mem {α β : Type} {p : α → Bool} {q : β → Bool} {l : List α} {l' : List β}
    (hone : l.countP p ≤ 1) (h : ∀ a ∈ l, p a = true → ∃ b ∈ l', q b = true) :
    l.countP p ≤ l'.countP q := by
  by_cases hzero : l.countP p = 0
  · omega
  · obtain ⟨a, ha, hp⟩ := List.countP_pos_iff.mp (Nat.pos_of_ne_zero hzero)
    have hpos := List.countP_pos_iff.mpr (h a ha hp)
    omega

end Schemes.Counts
