import Mathlib.Data.List.MinMax

/-! @scheme aliases | name:Names that are looked up in order

    An entry has names of its own and answers to others besides. A look-up finds the first entry that
    answers: whether it is the one that the name belongs to depends on what the earlier ones answer to. -/

namespace Schemes.Aliases

universe u v w

variable {ε : Type u} {κ : Type v} {ν : Type w} [LinearOrder κ] (key : ε → κ) (own other : ε → ν → Prop)

/-- The first entry with a property. -/
def first (es : List ε) (p : ε → Bool) : Option ε := (es.filter p).argmin key

/-- No name belongs to two entries, and none is another name of an entry before its own. -/
structure Faithful (es : List ε) : Prop where
  own_unique : ∀ e ∈ es, ∀ f ∈ es, ∀ n, own e n → own f n → key e = key f
  not_shadowed : ∀ e ∈ es, ∀ f ∈ es, ∀ n, own e n → other f n → ¬ key f < key e

/-- An entry may be added. -/
structure Clear (es : List ε) (x : ε) : Prop where
  own_new : ∀ e ∈ es, ∀ n, own e n → own x n → key e = key x
  shadows_none : ∀ e ∈ es, ∀ n, own e n → other x n → ¬ key x < key e
  not_shadowed : ∀ e ∈ es, ∀ n, own x n → other e n → ¬ key e < key x

variable {key own other} {es : List ε} {p : ε → Bool} {e f x : ε} {n : ν}

/-! ### Look-ups -/

variable (key) in
theorem mem_of_first (h : first key es p = some e) : e ∈ es ∧ p e :=
  List.mem_filter.mp (List.argmin_mem h)

variable (key) in
theorem first_le (h : first key es p = some e) (hf : f ∈ es) (hp : p f) : key e ≤ key f :=
  List.le_of_mem_argmin (List.mem_filter.mpr ⟨hf, hp⟩) h

variable (key) in
theorem first_eq_none (h : first key es p = none) (hf : f ∈ es) : p f = false := by
  rw [first, List.argmin_eq_none] at h
  by_contra hp
  have hmem : f ∈ es.filter p := List.mem_filter.mpr ⟨hf, by simpa using hp⟩
  simp [h] at hmem

/-- The first entry is the one that has the property and is behind no other that has it. -/
theorem first_eq_some (hkeys : ∀ f ∈ es, key f = key e → f = e) (he : e ∈ es) (hp : p e)
    (hleast : ∀ f ∈ es, p f → ¬ key f < key e) : first key es p = some e := by
  cases hfirst : first key es p with
  | none => exact absurd hp (by simp [first_eq_none key hfirst he])
  | some f =>
    obtain ⟨hf, hpf⟩ := mem_of_first key hfirst
    have heq := le_antisymm (first_le key hfirst he hp) (not_lt.mp (hleast f hf hpf))
    rw [hkeys f hf heq]

/-- A name leads to the entry that it belongs to. -/
theorem Faithful.resolves (h : Faithful key own other es) (hkeys : ∀ f ∈ es, key f = key e → f = e)
    (he : e ∈ es) (howns : own e n) (hp : p e) (hanswers : ∀ f ∈ es, p f → own f n ∨ other f n) :
    first key es p = some e := by
  refine first_eq_some hkeys he hp fun f hf hpf => ?_
  rcases hanswers f hf hpf with hown | hother
  · rw [h.own_unique f hf e he n hown howns]
    exact lt_irrefl _
  · exact h.not_shadowed e he f hf n howns hother

variable (key) in
/-- When whoever answers to a name without being entitled to it has somebody before it who answers, the
    first that answers is entitled. -/
theorem entitled_of_first {entitled : ε → Prop}
    (hentitled : ∀ f ∈ es, p f → entitled f ∨ ∃ g ∈ es, key g < key f ∧ p g)
    (h : first key es p = some e) : entitled e := by
  obtain ⟨he, hp⟩ := mem_of_first key h
  rcases hentitled e he hp with hright | ⟨g, hg, hbefore, hpg⟩
  · exact hright
  · exact absurd hbefore (not_lt.mpr (first_le key h hg hpg))

/-! ### New entries -/

theorem faithful_nil : Faithful key own other [] :=
  ⟨fun _ he => absurd he List.not_mem_nil, fun _ he => absurd he List.not_mem_nil⟩

theorem Faithful.insert (h : Faithful key own other es) (hclear : Clear key own other es x) :
    Faithful key own other (es ++ [x]) where
  own_unique := by
    intro e he f hf n hown hown'
    rcases List.mem_append.mp he with hold | hx <;> rcases List.mem_append.mp hf with hold' | hx'
    · exact h.own_unique e hold f hold' n hown hown'
    · obtain rfl := List.mem_singleton.mp hx'
      exact hclear.own_new e hold n hown hown'
    · obtain rfl := List.mem_singleton.mp hx
      exact (hclear.own_new f hold' n hown' hown).symm
    · rw [List.mem_singleton.mp hx, List.mem_singleton.mp hx']
  not_shadowed := by
    intro e he f hf n hown hother
    rcases List.mem_append.mp he with hold | hx <;> rcases List.mem_append.mp hf with hold' | hx'
    · exact h.not_shadowed e hold f hold' n hown hother
    · obtain rfl := List.mem_singleton.mp hx'
      exact hclear.shadows_none e hold n hown hother
    · obtain rfl := List.mem_singleton.mp hx
      exact hclear.not_shadowed f hold' n hown hother
    · rw [List.mem_singleton.mp hx, List.mem_singleton.mp hx']
      exact lt_irrefl _

end Schemes.Aliases
