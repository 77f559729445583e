import Mathlib.Data.List.Lex
import Mathlib.Data.List.Perm.Subperm
import Rustodon.Schemes.Climb
import Rustodon.Schemes.Recursion

/-! @scheme climbs | name:Trails and threads

    A forest of pointers, read with the path that has been taken: upwards, as far as what is met is new,
    and downwards, to all that point here. Where nobody comes back to the beginning, the path excludes
    nothing. -/

namespace Schemes.Climb
open Schemes.Recursion

universe u

variable {α : Type u} {parent : α → Option α} {children : α → List α} {nodes path : List α}
  {a b c : α} {n m k : ℕ}

/-- Climbing comes back here. -/
def OnCycle (parent : α → Option α) (a : α) : Prop := ∃ n, climb parent (n + 1) a = some a

/-- What lies above something on a cycle lies on it, too. -/
theorem OnCycle.above (h : OnCycle parent a) (hb : climb parent m a = some b) : OnCycle parent b := by
  obtain ⟨n, hn⟩ := h
  refine ⟨n, ?_⟩
  have hround : climb parent ((n + 1) + m) a = some b := by rw [climb_add, hn]; exact hb
  rw [Nat.add_comm, climb_add, hb] at hround
  exact hround

theorem climb_parent (h : climb parent n a = some b) : climb parent (n + 1) a = parent b := by
  rw [climb_add, h, Option.bind_some, climb_succ]
  cases parent b <;> rfl

theorem climb_one (a : α) : climb parent 1 a = parent a := climb_parent (climb_zero a)

/-! ### Upwards -/

/-- What is met on the way up, as long as it is new. -/
def trail [DecidableEq α] (parent : α → Option α) : ℕ → List α → α → List α
  | 0, _, _ => []
  | n + 1, path, a =>
    match parent a with
    | none => []
    | some b => if b ∈ path then [] else b :: trail parent n (path ++ [b]) b

section Trail

variable [DecidableEq α]

theorem trail_root (h : parent a = none) : trail parent n path a = [] := by
  cases n with
  | zero => rfl
  | succ n => rw [trail, h]

theorem trail_succ (h : parent a = some b) (hnew : b ∉ path) :
    trail parent (n + 1) path a = b :: trail parent n (path ++ [b]) b := by
  rw [trail, h]
  exact if_neg hnew

theorem trail_known (h : parent a = some b) (hknown : b ∈ path) : trail parent n path a = [] := by
  cases n with
  | zero => rfl
  | succ n =>
    rw [trail, h]
    exact if_pos hknown

theorem trail_nodup (h : path.Nodup) : (path ++ trail parent n path a).Nodup := by
  induction n generalizing path a with
  | zero => simpa [trail] using h
  | succ n ih =>
    cases hparent : parent a with
    | none => simpa [trail_root hparent] using h
    | some b =>
      by_cases hb : b ∈ path
      · simpa [trail_known hparent hb] using h
      · rw [trail_succ hparent hb, List.append_cons]
        exact ih (h.append (List.nodup_singleton b) (by simpa using hb))

theorem getElem?_trail {i : ℕ} (h : (trail parent n path a)[i]? = some b) :
    climb parent (i + 1) a = some b := by
  induction n generalizing path a i with
  | zero => simp [trail] at h
  | succ n ih =>
    cases hparent : parent a with
    | none => simp [trail_root hparent] at h
    | some c =>
      by_cases hc : c ∈ path
      · simp [trail_known hparent hc] at h
      · rw [trail_succ hparent hc] at h
        cases i with
        | zero => simpa [climb_child hparent] using h
        | succ i =>
          rw [climb_child hparent]
          exact ih (by simpa using h)

/-- The path and the trail lead nowhere else, if there are rounds enough for all nodes. -/
theorem trail_closed (hnodes : ∀ a b, parent a = some b → b ∈ nodes) (hnodup : path.Nodup)
    (hsub : path ⊆ nodes) (hlength : nodes.length ≤ path.length + n)
    (hpath : ∀ q ∈ path, q = a ∨ ∀ r, parent q = some r → r ∈ path) :
    ∀ q, q = a ∨ q ∈ path ++ trail parent n path a →
      ∀ r, parent q = some r → r ∈ path ++ trail parent n path a := by
  induction n generalizing path a with
  | zero =>
    -- The path has all nodes.
    have hall : nodes ⊆ path :=
      (List.subperm_of_subset hnodup hsub).perm_of_length_le hlength |>.symm.subset
    intro q _ r hr
    exact List.mem_append_left _ (hall (hnodes q r hr))
  | succ n ih =>
    cases hparent : parent a with
    | none =>
      rw [trail_root hparent, List.append_nil]
      rintro q (rfl | hq) r hr
      · rw [hparent] at hr
        cases hr
      · rcases hpath q hq with rfl | hclosed
        · rw [hparent] at hr
          cases hr
        · exact hclosed r hr
    | some b =>
      by_cases hb : b ∈ path
      · rw [trail_known hparent hb, List.append_nil]
        have hleads : ∀ r, parent a = some r → r ∈ path := by
          intro r hr
          rw [hparent] at hr
          obtain rfl := Option.some.inj hr
          exact hb
        rintro q (rfl | hq) r hr
        · exact hleads r hr
        · rcases hpath q hq with rfl | hclosed
          · exact hleads r hr
          · exact hclosed r hr
      · rw [trail_succ hparent hb, List.append_cons]
        have hnext := @ih (path ++ [b]) b (hnodup.append (List.nodup_singleton b) (by simpa using hb))
          (List.append_subset.mpr ⟨hsub, by simpa using hnodes a b hparent⟩)
          (by simp only [List.length_append, List.length_singleton]; omega)
          (by
            intro q hq
            rcases List.mem_append.mp hq with hq | hq
            · right
              intro r hr
              rcases hpath q hq with rfl | hclosed
              · rw [hparent] at hr
                obtain rfl := Option.some.inj hr
                simp
              · exact List.mem_append_left _ (hclosed r hr)
            · exact .inl (List.mem_singleton.mp hq))
        rintro q (rfl | hq) r hr
        · rw [hparent] at hr
          obtain rfl := Option.some.inj hr
          simp
        · exact hnext q (.inr hq) r hr

/-- The trail has all that is above. -/
theorem mem_trail (hnodes : ∀ a b, parent a = some b → b ∈ nodes) :
    b ∈ trail parent nodes.length [] a ↔ ∃ n, climb parent (n + 1) a = some b := by
  constructor
  · intro h
    obtain ⟨i, hi⟩ := List.mem_iff_getElem?.mp h
    exact ⟨i, getElem?_trail hi⟩
  · rintro ⟨n, hn⟩
    have hclosed := trail_closed (a := a) hnodes List.nodup_nil (List.nil_subset nodes)
      (Nat.le_add_left nodes.length 0) (by simp)
    simp only [List.nil_append] at hclosed
    induction n generalizing b with
    | zero => exact hclosed a (.inl rfl) b ((climb_one a).symm.trans hn)
    | succ n ih =>
      rw [climb_add] at hn
      obtain ⟨c, hc, hb⟩ := Option.bind_eq_some_iff.mp hn
      exact hclosed c (.inr (ih hc)) b ((climb_one c).symm.trans hb)

end Trail

/-! ### Downwards -/

/-- Those below, each before those below it. -/
def preorder (children : α → List α) : ℕ → α → List α
  | 0, _ => []
  | n + 1, a => (children a).flatMap fun c => c :: preorder children n c

theorem mem_preorder (hchildren : ∀ a b, b ∈ children a ↔ parent b = some a) :
    b ∈ preorder children n a ↔ ∃ k < n, climb parent (k + 1) b = some a := by
  induction n generalizing a with
  | zero => simp [preorder]
  | succ n ih =>
    simp only [preorder, List.mem_flatMap, List.mem_cons, ih, hchildren]
    constructor
    · rintro ⟨c, hc, rfl | ⟨k, hk, hclimb⟩⟩
      · exact ⟨0, n.succ_pos, (climb_one b).trans hc⟩
      · exact ⟨k + 1, Nat.succ_lt_succ hk, (climb_parent hclimb).trans hc⟩
    · rintro ⟨k, hk, hclimb⟩
      cases k with
      | zero => exact ⟨b, (climb_one b).symm.trans hclimb, .inl rfl⟩
      | succ k =>
        rw [climb_add] at hclimb
        obtain ⟨c, hc, hparent⟩ := Option.bind_eq_some_iff.mp hclimb
        exact ⟨c, (climb_one c).symm.trans hparent, .inr ⟨k, Nat.lt_of_succ_lt_succ hk, hc⟩⟩

/-- Where nobody comes back there is one way up, of one length. -/
theorem climb_length (hcycle : ¬OnCycle parent a) (hn : climb parent n b = some a)
    (hm : climb parent m b = some a) : n = m := by
  rcases Nat.lt_trichotomy n m with hlt | heq | hlt
  · obtain ⟨k, rfl⟩ := Nat.exists_eq_add_of_lt hlt
    rw [Nat.add_assoc, climb_add, hn] at hm
    exact absurd ⟨k, hm⟩ hcycle
  · exact heq
  · obtain ⟨k, rfl⟩ := Nat.exists_eq_add_of_lt hlt
    rw [Nat.add_assoc, climb_add, hm] at hn
    exact absurd ⟨k, hn⟩ hcycle

theorem preorder_nodup (hchildren : ∀ a b, b ∈ children a ↔ parent b = some a)
    (hnodup : ∀ a, (children a).Nodup) (ha : climb parent k a = some c) (hcycle : ¬OnCycle parent c) :
    (preorder children n a).Nodup := by
  induction n generalizing a k with
  | zero => exact List.nodup_nil
  | succ n ih =>
    rw [preorder, List.nodup_flatMap]
    constructor
    · intro b hb
      have hparent := (hchildren a b).mp hb
      have hclimb : climb parent (k + 1) b = some c := (climb_child hparent k).trans ha
      refine List.nodup_cons.mpr ⟨fun hself => ?_, ih hclimb⟩
      obtain ⟨j, -, hj⟩ := (mem_preorder hchildren).mp hself
      exact hcycle (OnCycle.above ⟨j, hj⟩ hclimb)
    · refine (hnodup a).imp_of_mem fun {b b'} hb hb' hne => ?_
      refine List.disjoint_left.mpr fun x hx hx' => ?_
      -- Both are above the same one, at one distance from the beginning.
      have habove : ∀ {d}, d ∈ children a → x ∈ d :: preorder children n d →
          ∃ i, climb parent i x = some d ∧ climb parent (i + (k + 1)) x = some c := by
        intro d hd hmem
        have hdc : climb parent (k + 1) d = some c := (climb_child ((hchildren a d).mp hd) k).trans ha
        rcases List.mem_cons.mp hmem with rfl | hbelow
        · exact ⟨0, rfl, by rwa [Nat.zero_add]⟩
        · obtain ⟨j, -, hj⟩ := (mem_preorder hchildren).mp hbelow
          exact ⟨j + 1, hj, by rw [climb_add, hj]; exact hdc⟩
      obtain ⟨i, hi, hic⟩ := habove hb hx
      obtain ⟨j, hj, hjc⟩ := habove hb' hx'
      obtain rfl : i = j := by have := climb_length hcycle hic hjc; omega
      exact hne (Option.some.inj (hi.symm.trans hj))

/-- A way up to where nobody comes back is shorter than the number of nodes. -/
theorem climb_lt_length (hnodes : ∀ a b, parent a = some b → b ∈ nodes) (hb : b ∈ nodes)
    (hcycle : ¬OnCycle parent a) (h : climb parent n b = some a) : n < nodes.length := by
  -- The nodes on the way differ.
  let way := (List.range (n + 1)).map fun i => (climb parent i b).getD b
  have hstep : ∀ i ≤ n, ∃ d, climb parent i b = some d ∧ d ∈ nodes ∧ climb parent (n - i) d = some a := by
    intro i hi
    obtain ⟨j, rfl⟩ := Nat.exists_eq_add_of_le hi
    rw [climb_add] at h
    obtain ⟨d, hd, hrest⟩ := Option.bind_eq_some_iff.mp h
    refine ⟨d, hd, ?_, by rwa [Nat.add_sub_cancel_left]⟩
    cases i with
    | zero => exact Option.some.inj hd ▸ hb
    | succ i =>
      rw [climb_add] at hd
      obtain ⟨e, -, he⟩ := Option.bind_eq_some_iff.mp hd
      exact hnodes e d ((climb_one e).symm.trans he)
  have hnodup : way.Nodup := by
    refine List.Nodup.map_on (fun i hi j hj heq => ?_) List.nodup_range
    obtain ⟨d, hd, -, hda⟩ := hstep i (Nat.le_of_lt_succ (List.mem_range.mp hi))
    obtain ⟨e, he, -, hea⟩ := hstep j (Nat.le_of_lt_succ (List.mem_range.mp hj))
    rw [hd, he, Option.getD_some, Option.getD_some] at heq
    obtain rfl := heq
    have := climb_length hcycle hda hea
    have := List.mem_range.mp hi
    have := List.mem_range.mp hj
    omega
  have hsub : way ⊆ nodes := by
    intro d hd
    obtain ⟨i, hi, rfl⟩ := List.mem_map.mp hd
    obtain ⟨e, he, hmem, -⟩ := hstep i (Nat.le_of_lt_succ (List.mem_range.mp hi))
    rw [he]
    exact hmem
  have hlength := (List.subperm_of_subset hnodup hsub).length_le
  simp only [way, List.length_map, List.length_range] at hlength
  omega

/-! ### Paths -/

section Paths

variable [LinearOrder α] {limit : Option ℕ}

/-- The next rows of a search that keeps the path to each of them, down to a depth. -/
def pathStep (children : α → List α) (limit : Option ℕ) (row : α × List α) : List (α × List α) :=
  if limit.all fun depth => decide (row.2.length < depth + 1) then
    ((children row.1).filter fun c => !row.2.contains c).map fun c => (c, row.2 ++ [c])
  else []

theorem append_lt_append (path : List α) {l l' : List α} (h : l < l') : path ++ l < path ++ l' := by
  induction path with
  | nil => exact h
  | cons a path ih => exact List.cons_lt_cons_iff.mpr (.inr ⟨rfl, ih⟩)

/-- Paths of siblings go on from there, in the order of the siblings. -/
theorem search_paths (hsorted : ∀ a, (children a).Pairwise (· < ·)) {cs : List α} (hcs : cs.Pairwise (· < ·)) :
    (∀ row ∈ search (pathStep children limit) n (cs.map fun c => (c, path ++ [c])),
      ∃ c ∈ cs, ∃ rest, row.2 = path ++ c :: rest) ∧
    (search (pathStep children limit) n (cs.map fun c => (c, path ++ [c]))).Pairwise
      fun row row' => row.2 < row'.2 := by
  induction n generalizing path cs with
  | zero => exact ⟨fun _ h => by simp [search] at h, List.Pairwise.nil⟩
  | succ n ih =>
    -- the rows below one of the siblings
    have hblock : ∀ c, (∀ row ∈ search (pathStep children limit) n (pathStep children limit (c, path ++ [c])),
        ∃ d rest, row.2 = path ++ c :: d :: rest) ∧
        (search (pathStep children limit) n (pathStep children limit (c, path ++ [c]))).Pairwise
          fun row row' => row.2 < row'.2 := by
      intro c
      rw [pathStep]
      split_ifs
      · obtain ⟨hpaths, hpairs⟩ := @ih (path ++ [c]) _ ((hsorted c).filter fun d => !(path ++ [c]).contains d)
        refine ⟨fun row hrow => ?_, hpairs⟩
        obtain ⟨d, -, rest, hrest⟩ := hpaths row hrow
        exact ⟨d, rest, by simpa using hrest⟩
      · cases n <;> simp [search]
    have hrow : ∀ c, ∀ row ∈ (c, path ++ [c]) ::
        search (pathStep children limit) n (pathStep children limit (c, path ++ [c])),
          ∃ rest, row.2 = path ++ c :: rest := by
      intro c row hmem
      rcases List.mem_cons.mp hmem with rfl | hmem
      · exact ⟨[], rfl⟩
      · obtain ⟨d, rest, hrest⟩ := (hblock c).1 row hmem
        exact ⟨d :: rest, hrest⟩
    rw [search, List.flatMap_map]
    constructor
    · intro row hmem
      obtain ⟨c, hc, hmem⟩ := List.mem_flatMap.mp hmem
      obtain ⟨rest, hrest⟩ := hrow c row hmem
      exact ⟨c, hc, rest, hrest⟩
    · rw [List.pairwise_flatMap]
      constructor
      · intro c _
        refine List.pairwise_cons.mpr ⟨fun row hmem => ?_, (hblock c).2⟩
        obtain ⟨d, rest, hrest⟩ := (hblock c).1 row hmem
        rw [hrest]
        exact append_lt_append path (List.cons_lt_cons_iff.mpr (.inr ⟨rfl, List.nil_lt_cons d rest⟩))
      · refine hcs.imp fun {c c'} hlt row hmem row' hmem' => ?_
        obtain ⟨rest, hrest⟩ := hrow c row hmem
        obtain ⟨rest', hrest'⟩ := hrow c' row' hmem'
        rw [hrest, hrest']
        exact append_lt_append path (List.cons_lt_cons_iff.mpr (.inl hlt))

/-- How many rounds the depth leaves. -/
def roomFor (limit : Option ℕ) (n : ℕ) (path : List α) : ℕ :=
  match limit with
  | none => n
  | some depth => min n (depth + 1 - path.length)

/-- Where nobody comes back, the paths exclude nothing. -/
theorem search_preorder (hchildren : ∀ a b, b ∈ children a ↔ parent b = some a) (hcycle : ¬OnCycle parent c)
    (hpath : ∀ q ∈ path, ∃ j, climb parent j a = some q) (ha : climb parent k a = some c) :
    (search (pathStep children limit) n (pathStep children limit (a, path))).map Prod.fst =
      preorder children (roomFor limit n path) a := by
  induction n generalizing a path k with
  | zero =>
    have hroom : roomFor limit 0 path = 0 := by cases limit <;> simp [roomFor]
    rw [hroom]
    rfl
  | succ n ih =>
    rw [pathStep]
    split_ifs with hdepth
    · have hroom : roomFor limit (n + 1) path = roomFor limit n (path ++ [a]) + 1 := by
        cases limit with
        | none => rfl
        | some depth =>
          simp only [Option.all_some, decide_eq_true_eq] at hdepth
          simp only [roomFor, List.length_append, List.length_singleton]
          omega
      have hnew : (children a).filter (fun d => !path.contains d) = children a := by
        refine List.filter_eq_self.mpr fun d hd => ?_
        have hparent := (hchildren a d).mp hd
        have hout : d ∉ path := by
          intro hmem
          obtain ⟨j, hj⟩ := hpath d hmem
          exact hcycle (OnCycle.above ⟨j, (climb_child hparent j).trans hj⟩
            ((climb_child hparent k).trans ha))
        simpa using hout
      rw [hroom, hnew, search, List.flatMap_map, List.map_flatMap, preorder]
      refine List.flatMap_congr fun d hd => ?_
      have hparent := (hchildren a d).mp hd
      have hlength : roomFor limit n (path ++ [d]) = roomFor limit n (path ++ [a]) := by
        cases limit <;> simp [roomFor]
      rw [List.map_cons, ← hlength, ih (fun q hq => ?_) ((climb_child hparent k).trans ha)]
      rcases List.mem_append.mp hq with hq | hq
      · obtain ⟨j, hj⟩ := hpath q hq
        exact ⟨j + 1, (climb_child hparent j).trans hj⟩
      · exact ⟨0, by rw [List.mem_singleton.mp hq]; rfl⟩
    · have hroom : roomFor limit (n + 1) path = 0 := by
        cases limit with
        | none => simp at hdepth
        | some depth =>
          simp only [Option.all_some, decide_eq_true_eq] at hdepth
          simp only [roomFor]
          omega
      rw [hroom]
      rfl

/-- Paths do not come back, and are as long as there have been rounds. -/
theorem path_stops (hnodes : ∀ a, children a ⊆ nodes) (ha : a ∈ nodes) :
    working (pathStep children limit) nodes.length [(a, [a])] = [] := by
  refine stops_of_bound (P := fun n row => row.2.length = n + 1 ∧ row.2.Nodup ∧ row.2 ⊆ nodes) ?_ ?_ ?_
  · rintro n ⟨b, path⟩ row ⟨hlength, hnodup, hsub⟩ hrow
    rw [pathStep] at hrow
    split_ifs at hrow
    · obtain ⟨d, hd, rfl⟩ := List.mem_map.mp hrow
      obtain ⟨hchild, hnew⟩ := List.mem_filter.mp hd
      have hout : d ∉ path := by simpa using hnew
      refine ⟨by simpa using hlength, hnodup.append (List.nodup_singleton d) (by simpa using hout), ?_⟩
      exact List.append_subset.mpr ⟨hsub, by simpa using hnodes b hchild⟩
    · cases hrow
  · rintro row hrow
    obtain rfl := List.mem_singleton.mp hrow
    exact ⟨rfl, List.nodup_singleton a, by simpa using ha⟩
  · rintro row ⟨hlength, hnodup, hsub⟩
    have := (List.subperm_of_subset hnodup hsub).length_le
    omega

end Paths

end Schemes.Climb
