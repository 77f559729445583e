import Mathlib.Data.List.Nodup
import Mathlib.Data.List.Sort
import Mathlib.Order.Basic

/-! @scheme windows | name:Pages of a listing that is read from its ends

    `WHERE key < max AND key > min ORDER BY key LIMIT n`: from above, or from below when a lower end is
    given to start from. A page is given in descending order, and the pages that follow each other make
    up the window. -/

namespace Schemes.Windows

universe u

variable {α : Type u} [LinearOrder α]

/-- The ends of a page. Where there is a `min` the page begins there, and `since` is not looked at. -/
structure Window (α : Type u) where
  max : Option α
  min : Option α
  since : Option α
  limit : ℕ

def Window.has (w : Window α) (a : α) : Bool :=
  w.max.all (fun m => decide (a < m)) &&
    match w.min with
    | some m => decide (m < a)
    | none => w.since.all fun m => decide (m < a)

def Window.descending (w : Window α) (keys : List α) : List α :=
  (keys.filter w.has).insertionSort fun a b => b ≤ a

def Window.ascending (w : Window α) (keys : List α) : List α :=
  (keys.filter w.has).insertionSort fun a b => a ≤ b

def Window.page (w : Window α) (keys : List α) : List α :=
  if w.min.isSome then ((w.ascending keys).take w.limit).reverse
  else (w.descending keys).take w.limit

/-- A page has the last keys of the window, or the first ones when it begins at its lower end. -/
structure Window.Exact (w : Window α) (keys page : List α) : Prop where
  sorted : page.Pairwise fun a b => b < a
  within : ∀ a ∈ page, a ∈ keys ∧ w.has a
  bounded : page.length ≤ w.limit
  complete : ∀ a ∈ keys, w.has a → a ∉ page →
    page.length = w.limit ∧ ∀ b ∈ page, if w.min.isSome then b < a else a < b

variable {w : Window α} {keys : List α} {a : α}

/-! ### Sorted windows -/

theorem mem_descending : a ∈ w.descending keys ↔ a ∈ keys ∧ w.has a := by
  rw [Window.descending, List.mem_insertionSort, List.mem_filter]

theorem mem_ascending : a ∈ w.ascending keys ↔ a ∈ keys ∧ w.has a := by
  rw [Window.ascending, List.mem_insertionSort, List.mem_filter]

theorem descending_pairwise (h : keys.Nodup) : (w.descending keys).Pairwise fun a b => b < a := by
  have hle := List.pairwise_insertionSort (fun a b : α => b ≤ a) (keys.filter w.has)
  have hnodup : (w.descending keys).Nodup :=
    (List.perm_insertionSort _ _).nodup_iff.mpr (h.filter _)
  exact (hle.and hnodup).imp fun ⟨hle, hne⟩ => lt_of_le_of_ne hle (Ne.symm hne)

theorem ascending_pairwise (h : keys.Nodup) : (w.ascending keys).Pairwise fun a b => a < b := by
  have hle := List.pairwise_insertionSort (fun a b : α => a ≤ b) (keys.filter w.has)
  have hnodup : (w.ascending keys).Nodup :=
    (List.perm_insertionSort _ _).nodup_iff.mpr (h.filter _)
  exact (hle.and hnodup).imp fun ⟨hle, hne⟩ => lt_of_le_of_ne hle hne

/-- A sorted list is the sorted window of its keys. -/
theorem descending_eq (h : keys.Nodup) {l : List α} (hl : l.Pairwise fun a b => b < a)
    (hmem : ∀ a, a ∈ l ↔ a ∈ keys ∧ w.has a) : w.descending keys = l := by
  have hasymm : ∀ a b : α, a ∈ w.descending keys → b ∈ l → b < a → a < b → a = b :=
    fun a b _ _ hab hba => absurd hab (not_lt_of_gt hba)
  refine List.Perm.eq_of_pairwise hasymm (descending_pairwise h) hl ?_
  refine (List.perm_ext_iff_of_nodup ?_ ?_).mpr fun a => by rw [mem_descending, hmem]
  · exact (descending_pairwise h).imp fun hlt => ne_of_gt hlt
  · exact hl.imp fun hlt => ne_of_gt hlt

theorem ascending_eq (h : keys.Nodup) {l : List α} (hl : l.Pairwise fun a b => a < b)
    (hmem : ∀ a, a ∈ l ↔ a ∈ keys ∧ w.has a) : w.ascending keys = l := by
  have hasymm : ∀ a b : α, a ∈ w.ascending keys → b ∈ l → a < b → b < a → a = b :=
    fun a b _ _ hab hba => absurd hab (not_lt_of_gt hba)
  refine List.Perm.eq_of_pairwise hasymm (ascending_pairwise h) hl ?_
  refine (List.perm_ext_iff_of_nodup ?_ ?_).mpr fun a => by rw [mem_ascending, hmem]
  · exact (ascending_pairwise h).imp fun hlt => ne_of_lt hlt
  · exact hl.imp fun hlt => ne_of_lt hlt

/-! ### Pages -/

/-- What a prefix of an ordered list leaves out is behind all of it, and the prefix is full. -/
theorem take_complete {r : α → α → Prop} {l : List α} {n : ℕ} (hl : l.Pairwise r) (ha : a ∈ l)
    (hout : a ∉ l.take n) : (l.take n).length = n ∧ ∀ b ∈ l.take n, r b a := by
  rw [← List.take_append_drop n l] at hl ha
  rcases List.mem_append.mp ha with hin | hdrop
  · exact absurd hin hout
  · refine ⟨?_, fun b hb => (List.pairwise_append.mp hl).2.2 b hb a hdrop⟩
    have hpos := List.length_pos_of_mem hdrop
    rw [List.length_drop] at hpos
    rw [List.length_take]
    omega

theorem page_exact (h : keys.Nodup) : w.Exact keys (w.page keys) := by
  rw [Window.page]
  cases hmin : w.min.isSome with
  | true =>
    rw [if_pos rfl]
    refine ⟨?_, ?_, ?_, ?_⟩
    · exact List.pairwise_reverse.mpr ((ascending_pairwise h).sublist (List.take_sublist _ _))
    · intro a ha
      exact mem_ascending.mp (List.mem_of_mem_take (List.mem_reverse.mp ha))
    · rw [List.length_reverse]
      exact List.length_take_le _ _
    · intro a ha hhas hout
      have hrest := take_complete (ascending_pairwise h) (mem_ascending.mpr ⟨ha, hhas⟩)
        fun hin => hout (List.mem_reverse.mpr hin)
      refine ⟨by rw [List.length_reverse]; exact hrest.1, fun b hb => ?_⟩
      rw [hmin, if_pos rfl]
      exact hrest.2 b (List.mem_reverse.mp hb)
  | false =>
    rw [if_neg Bool.false_ne_true]
    refine ⟨?_, ?_, List.length_take_le _ _, ?_⟩
    · exact (descending_pairwise h).sublist (List.take_sublist _ _)
    · exact fun a ha => mem_descending.mp (List.mem_of_mem_take ha)
    · intro a ha hhas hout
      have hrest := take_complete (descending_pairwise h) (mem_descending.mpr ⟨ha, hhas⟩) hout
      refine ⟨hrest.1, fun b hb => ?_⟩
      rw [hmin, if_neg Bool.false_ne_true]
      exact hrest.2 b hb

/-! ### Walks -/

/-- Page after page, each below the last key of the one before. -/
def walkDown (listing : Window α → List α) (w : Window α) : ℕ → List (List α)
  | 0 => []
  | fuel + 1 =>
    match (listing w).getLast? with
    | none => []
    | some last => listing w :: walkDown listing { w with max := some last } fuel

/-- Page after page, each above the first key of the one before. -/
def walkUp (listing : Window α → List α) (w : Window α) : ℕ → List (List α)
  | 0 => []
  | fuel + 1 =>
    match (listing w).head? with
    | none => []
    | some first => listing w :: walkUp listing { w with min := some first } fuel

/-- A walk asks for pages of one length only. -/
theorem walkDown_congr {listing listing' : Window α → List α} (fuel : ℕ)
    (h : ∀ w', w'.limit = w.limit → listing w' = listing' w') :
    walkDown listing w fuel = walkDown listing' w fuel := by
  induction fuel generalizing w with
  | zero => rfl
  | succ fuel ih =>
    rw [walkDown, walkDown, h w rfl]
    split
    · rfl
    · exact congrArg _ (ih fun w' hw' => h w' hw')

theorem walkUp_congr {listing listing' : Window α → List α} (fuel : ℕ)
    (h : ∀ w', w'.limit = w.limit → listing w' = listing' w') :
    walkUp listing w fuel = walkUp listing' w fuel := by
  induction fuel generalizing w with
  | zero => rfl
  | succ fuel ih =>
    rw [walkUp, walkUp, h w rfl]
    split
    · rfl
    · exact congrArg _ (ih fun w' hw' => h w' hw')

/-- Behind the last key of a prefix of an ordered list stands its rest. -/
theorem filter_behind {r : α → α → Prop} [DecidableRel r] [IsAsymm α r] {l : List α} {n : ℕ} {last : α}
    (hl : l.Pairwise r) (hlast : (l.take n).getLast? = some last) :
    l.filter (fun a => decide (r last a)) = l.drop n := by
  obtain ⟨init, hinit⟩ := List.getLast?_eq_some_iff.mp hlast
  have hsplit := List.take_append_drop n l
  rw [hinit] at hsplit
  rw [← hsplit] at hl
  obtain ⟨hfirst, -, hcross⟩ := List.pairwise_append.mp hl
  conv_lhs => rw [← hsplit]
  rw [List.filter_append, List.filter_eq_nil_iff.mpr, List.nil_append, List.filter_eq_self.mpr]
  · intro a ha
    simpa using hcross last (by simp) a ha
  · intro a ha
    simp only [decide_eq_true_eq]
    rcases List.mem_append.mp ha with hbefore | hself
    · exact asymm ((List.pairwise_append.mp hfirst).2.2 a hbefore last (List.mem_singleton_self _))
    · rw [List.mem_singleton.mp hself]
      exact fun hloop => asymm hloop hloop

theorem descending_next (h : keys.Nodup) (hmin : w.min = none) {last : α}
    (hlast : (w.page keys).getLast? = some last) :
    Window.descending { w with max := some last } keys = (w.descending keys).drop w.limit := by
  have hpage : w.page keys = (w.descending keys).take w.limit := by
    rw [Window.page, hmin]
    rfl
  rw [hpage] at hlast
  have hin := mem_descending.mp (List.mem_of_mem_take (List.mem_of_getLast? hlast))
  rw [← filter_behind (descending_pairwise h) hlast]
  refine descending_eq h ((descending_pairwise h).filter _) fun a => ?_
  rw [List.mem_filter, mem_descending]
  simp only [decide_eq_true_eq, Window.has, hmin, Option.all_some, Bool.and_eq_true] at hin ⊢
  constructor
  · rintro ⟨⟨ha, hmax, hsince⟩, hlt⟩
    exact ⟨ha, hlt, hsince⟩
  · rintro ⟨ha, hlt, hsince⟩
    refine ⟨⟨ha, ?_, hsince⟩, hlt⟩
    cases hmax : w.max with
    | none => rfl
    | some m =>
      rw [hmax] at hin
      simpa using hlt.trans (by simpa using hin.2.1)

theorem ascending_next (h : keys.Nodup) (hmin : w.min.isSome) {first : α}
    (hfirst : (w.page keys).head? = some first) :
    Window.ascending { w with min := some first } keys = (w.ascending keys).drop w.limit := by
  have hpage : w.page keys = ((w.ascending keys).take w.limit).reverse := by
    rw [Window.page, if_pos hmin]
  rw [hpage, List.head?_reverse] at hfirst
  have hin := mem_ascending.mp (List.mem_of_mem_take (List.mem_of_getLast? hfirst))
  rw [← filter_behind (ascending_pairwise h) hfirst]
  refine ascending_eq h ((ascending_pairwise h).filter _) fun a => ?_
  obtain ⟨m, hm⟩ := Option.isSome_iff_exists.mp hmin
  rw [List.mem_filter, mem_ascending]
  simp only [decide_eq_true_eq, Window.has, hm, Bool.and_eq_true] at hin ⊢
  constructor
  · rintro ⟨⟨ha, hmax, -⟩, hlt⟩
    exact ⟨ha, hmax, hlt⟩
  · rintro ⟨ha, hmax, hlt⟩
    exact ⟨⟨ha, hmax, hin.2.2.trans hlt⟩, hlt⟩

/-- Walking down neither skips a key of the window nor repeats one. -/
theorem walkDown_flatten (h : keys.Nodup) (hmin : w.min = none) (hlimit : 0 < w.limit) : ∀ {fuel : ℕ},
    (w.descending keys).length ≤ fuel →
      (walkDown (fun w => w.page keys) w fuel).flatten = w.descending keys := by
  intro fuel hfuel
  induction fuel generalizing w with
  | zero =>
    rw [List.eq_nil_of_length_eq_zero (Nat.le_zero.mp hfuel)]
    rfl
  | succ fuel ih =>
    have hpage : w.page keys = (w.descending keys).take w.limit := by
      rw [Window.page, hmin]
      rfl
    rw [walkDown]
    cases hlast : (w.page keys).getLast? with
    | none =>
      rw [List.getLast?_eq_none_iff, hpage, List.take_eq_nil_iff] at hlast
      rcases hlast with hzero | hnil
      · omega
      · rw [hnil]
        rfl
    | some last =>
      have hnext := descending_next h hmin hlast
      have hpos : 0 < (w.descending keys).length := by
        have hmem := List.mem_of_getLast? hlast
        rw [hpage] at hmem
        exact List.length_pos_of_mem (List.mem_of_mem_take hmem)
      have hrest := ih (w := { w with max := some last }) hmin hlimit (by
        rw [hnext, List.length_drop]
        omega)
      rw [List.flatten_cons, hrest, hnext, hpage, List.take_append_drop]

/-- Walking up neither skips a key of the window nor repeats one. -/
theorem walkUp_flatten (h : keys.Nodup) (hmin : w.min.isSome) (hlimit : 0 < w.limit) : ∀ {fuel : ℕ},
    (w.ascending keys).length ≤ fuel →
      ((walkUp (fun w => w.page keys) w fuel).map List.reverse).flatten = w.ascending keys := by
  intro fuel hfuel
  induction fuel generalizing w with
  | zero =>
    rw [List.eq_nil_of_length_eq_zero (Nat.le_zero.mp hfuel)]
    rfl
  | succ fuel ih =>
    have hpage : w.page keys = ((w.ascending keys).take w.limit).reverse := by
      rw [Window.page, if_pos hmin]
    rw [walkUp]
    cases hfirst : (w.page keys).head? with
    | none =>
      rw [List.head?_eq_none_iff, hpage, List.reverse_eq_nil_iff, List.take_eq_nil_iff] at hfirst
      rcases hfirst with hzero | hnil
      · omega
      · rw [hnil]
        rfl
    | some first =>
      have hnext := ascending_next h hmin hfirst
      have hpos : 0 < (w.ascending keys).length := by
        have hmem := List.mem_of_head? hfirst
        rw [hpage, List.mem_reverse] at hmem
        exact List.length_pos_of_mem (List.mem_of_mem_take hmem)
      have hrest := ih (w := { w with min := some first }) rfl hlimit (by
        rw [hnext, List.length_drop]
        omega)
      rw [List.map_cons, List.flatten_cons, hrest, hnext, hpage, List.reverse_reverse,
        List.take_append_drop]

end Schemes.Windows
