import Mathlib.Data.List.Basic
import Mathlib.Order.Basic
import Mathlib.Order.Lattice

/-! @scheme walks | name:Pages that lead on to others

    Pages are read one after the other for as long as each says where the next one is. A listing in the
    order of its keys is read to its end so, when each page begins behind the last key of the one
    before. -/

namespace Schemes.Walks

universe u v w

variable {ρ : Type u} {ι : Type v}

/-- A page, and what to request after it. -/
structure Page (ρ : Type u) (ι : Type v) where
  items : List ι
  next : Option ρ
  deriving DecidableEq

/-- What is read from a page on, up to one that has no next. -/
inductive Walk (answer : ρ → Option (Page ρ ι)) : Page ρ ι → List ι → Prop
  | last {page : Page ρ ι} (hlast : page.next = none) : Walk answer page page.items
  | next {page page' : Page ρ ι} {request : ρ} {items : List ι} (hnext : page.next = some request)
      (hanswer : answer request = some page') (rest : Walk answer page' items) :
      Walk answer page (page.items ++ items)

section Walk

variable {answer : ρ → Option (Page ρ ι)} {page : Page ρ ι} {items items' : List ι}

/-- There is one way to read on. -/
theorem Walk.unique (h : Walk answer page items) (h' : Walk answer page items') : items = items' := by
  induction h generalizing items' with
  | last hlast =>
    cases h' with
    | last => rfl
    | next hnext => rw [hlast] at hnext; cases hnext
  | next hnext hanswer _ ih =>
    cases h' with
    | last hlast => rw [hlast] at hnext; cases hnext
    | next hnext' hanswer' rest' =>
      obtain rfl := Option.some.inj (hnext.symm.trans hnext')
      obtain rfl := Option.some.inj (hanswer.symm.trans hanswer')
      rw [ih rest']

/-- What is read after a page: nothing, or all from the page that is requested on. -/
def Leads (answer : ρ → Option (Page ρ ι)) (request : Option ρ) (tail : List ι) : Prop :=
  match request with
  | none => tail = []
  | some request => ∃ page, answer request = some page ∧ Walk answer page tail

theorem Leads.walk {tail : List ι} (h : Leads answer page.next tail) :
    Walk answer page (page.items ++ tail) := by
  cases hnext : page.next with
  | none =>
    rw [hnext, Leads] at h
    rw [h, List.append_nil]
    exact .last hnext
  | some request =>
    rw [hnext] at h
    obtain ⟨page', hanswer, hwalk⟩ := h
    exact .next hnext hanswer hwalk

end Walk

/-! ### Listings in the order of their keys -/

section Keys

variable {κ : Type w} [LinearOrder κ] {α : Type u} (key : α → κ)

/-- What is behind a key. -/
def after (cursor : Option κ) (rows : List α) : List α :=
  rows.filter fun a => cursor.all fun c => decide (c < key a)

variable {key} {cursor : Option κ} {rows : List α} {n : ℕ} {a b : α}

theorem after_none : after key none rows = rows := by simp [after]

theorem mem_after : a ∈ after key cursor rows ↔ a ∈ rows ∧ ∀ c ∈ cursor, c < key a := by
  rw [after, List.mem_filter]
  cases cursor <;> simp

theorem after_pairwise (h : rows.Pairwise fun a b => key a < key b) :
    (after key cursor rows).Pairwise fun a b => key a < key b :=
  h.sublist List.filter_sublist

/-- Behind a row that is behind a cursor, the cursor does not count. -/
theorem after_after (hb : b ∈ after key cursor rows) :
    after key (some (key b)) (after key cursor rows) = after key (some (key b)) rows := by
  rw [after, after, List.filter_filter]
  refine List.filter_congr fun a _ => ?_
  have hcursor := (mem_after.mp hb).2
  cases cursor with
  | none => simp
  | some c =>
    have hc := hcursor c rfl
    by_cases hlt : key b < key a
    · simp [hlt, hc.trans hlt]
    · simp [hlt]

/-- Behind the last row of a page is what the page leaves out. -/
theorem after_getLast (h : rows.Pairwise fun a b => key a < key b)
    (hlast : ((after key cursor rows).take n).getLast? = some b) :
    after key (some (key b)) rows = (after key cursor rows).drop n := by
  have hmem : b ∈ after key cursor rows := List.mem_of_mem_take (List.mem_of_getLast? hlast)
  rw [← after_after hmem]
  have hsorted := @after_pairwise _ _ _ key cursor rows h
  generalize after key cursor rows = found at hlast hsorted ⊢
  have hparts := hsorted
  rw [← List.take_append_drop n found] at hparts
  obtain ⟨hfront, -, hacross⟩ := List.pairwise_append.mp hparts
  have hb : b ∈ found.take n := List.mem_of_getLast? hlast
  have hbefore : ∀ a ∈ found.take n, ¬ key b < key a := by
    obtain ⟨init, hinit⟩ := List.getLast?_eq_some_iff.mp hlast
    rw [hinit] at hfront ⊢
    intro a ha hlt
    rcases List.mem_append.mp ha with ha | ha
    · exact absurd ((List.pairwise_append.mp hfront).2.2 a ha b List.mem_cons_self) (not_lt_of_gt hlt)
    · rw [List.mem_singleton.mp ha] at hlt
      exact lt_irrefl _ hlt
  have hfilter : after key (some (key b)) (found.take n ++ found.drop n) = found.drop n := by
    rw [after, List.filter_append, List.filter_eq_nil_iff.mpr, List.nil_append, List.filter_eq_self]
    · intro a ha
      simpa using hacross b hb a ha
    · intro a ha
      simpa using hbefore a ha
  rwa [List.take_append_drop] at hfilter

variable {answer : ρ → Option (Page ρ ι)}

/-- Pages of a listing: a full one leads to what is behind it, and another one to what follows the
    listing. -/
structure Keyed (key : α → κ) (answer : ρ → Option (Page ρ ι)) (rows : List α) (n : ℕ)
    (item : α → ι) (request : Option κ → ρ) (finish : Option ρ) : Prop where
  sorted : rows.Pairwise fun a b => key a < key b
  size : 0 < n
  answers : ∀ cursor : Option κ, (∀ c ∈ cursor, ∃ a ∈ rows, key a = c) →
    answer (request cursor) = some ⟨((after key cursor rows).take n).map item,
      if ((after key cursor rows).take n).length = n then
        some (request (((after key cursor rows).take n).getLast?.map key))
      else finish⟩

/-- All that is behind the cursor is read, and then what follows the listing. -/
theorem Keyed.leads {item : α → ι} {request : Option κ → ρ} {finish : Option ρ} {tail : List ι}
    (h : Keyed key answer rows n item request finish) (hfinish : Leads answer finish tail)
    (hcursor : ∀ c ∈ cursor, ∃ a ∈ rows, key a = c) :
    Leads answer (some (request cursor)) ((after key cursor rows).map item ++ tail) := by
  induction hlength : (after key cursor rows).length using Nat.strongRecOn
    generalizing cursor with
  | ind length ih =>
    refine ⟨_, h.answers cursor hcursor, ?_⟩
    have hsplit : (after key cursor rows).map item ++ tail =
        ((after key cursor rows).take n).map item ++
          (((after key cursor rows).drop n).map item ++ tail) := by
      rw [← List.append_assoc, ← List.map_append, List.take_append_drop]
    rw [hsplit]
    refine Leads.walk ?_
    simp only
    split_ifs with hfull
    · -- The page is full: the rest is shorter, since a page has at least one row.
      have hpos := h.size
      obtain ⟨b, hlast⟩ : ∃ b, ((after key cursor rows).take n).getLast? = some b := by
        rw [← Option.isSome_iff_exists, List.getLast?_isSome]
        exact List.ne_nil_of_length_pos (by omega)
      have hmem : b ∈ after key cursor rows := List.mem_of_mem_take (List.mem_of_getLast? hlast)
      have hrest := after_getLast h.sorted hlast
      rw [hlast, Option.map_some, ← hrest]
      refine ih _ ?_ ?_ rfl
      · rw [hrest, List.length_drop, ← hlength]
        have hlong : 0 < (after key cursor rows).length := List.length_pos_of_mem hmem
        omega
      · intro c hc
        exact ⟨b, (mem_after.mp hmem).1, Option.some.inj hc⟩
    · -- The page is short, and nothing is left.
      have hshort : (after key cursor rows).length ≤ n := by
        rw [List.length_take] at hfull
        omega
      rw [List.drop_eq_nil_of_le hshort, List.map_nil, List.nil_append]
      exact hfinish

end Keys

end Schemes.Walks
