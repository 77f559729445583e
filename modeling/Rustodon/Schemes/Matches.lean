import Rustodon.Schemes.Utf8

/-! @scheme matches | name:Matches of a pattern

    Matches are found from the left and do not overlap. A text has as many of them as any of its
    ends, so that every copy of the pattern which does not touch another one counts. -/

namespace Schemes.Matches
open Schemes.Utf8 (Text)

/-- The matches behind the next `skip` characters. -/
def countFrom (pattern : Text) : ℕ → Text → ℕ
  | _, [] => 0
  | skip + 1, _ :: s => countFrom pattern skip s
  | 0, c :: s =>
    if pattern.isPrefixOf (c :: s) then countFrom pattern (pattern.length - 1) s + 1
    else countFrom pattern 0 s

/-- `s.matches(pattern).count()`, for a pattern that is not empty. -/
def countMatches (pattern s : Text) : ℕ := countFrom pattern 0 s

theorem countFrom_eq_drop (pattern : Text) : ∀ (skip : ℕ) (s : Text),
    countFrom pattern skip s = countMatches pattern (s.drop skip)
  | 0, _ => rfl
  | _ + 1, [] => rfl
  | skip + 1, _ :: s => countFrom_eq_drop pattern skip s

/-- A match is left behind, and the next ones are looked for. -/
theorem countMatches_append {pattern : Text} (hpattern : pattern ≠ []) (s : Text) :
    countMatches pattern (pattern ++ s) = countMatches pattern s + 1 := by
  obtain ⟨c, tail, rfl⟩ := List.exists_cons_of_ne_nil hpattern
  have hmatch : (c :: tail).isPrefixOf (c :: (tail ++ s)) = true :=
    List.isPrefixOf_iff_prefix.mpr ⟨s, rfl⟩
  rw [countMatches, List.cons_append, countFrom, if_pos hmatch, countFrom_eq_drop]
  simp

/-- With an end goes no match that it does not have; and with no more characters than the pattern has,
    one match goes at the most. By induction on the length, for both at once. -/
theorem countMatches_drop {pattern : Text} (hpattern : pattern ≠ []) (n : ℕ) : ∀ s : Text,
    s.length ≤ n →
      (∀ k, countMatches pattern (s.drop k) ≤ countMatches pattern s) ∧
      ∀ k ≤ pattern.length, countMatches pattern s ≤ countMatches pattern (s.drop k) + 1 := by
  induction n with
  | zero =>
    intro s hs
    obtain rfl := List.length_eq_zero_iff.mp (Nat.le_zero.mp hs)
    simp
  | succ n ih =>
    intro s hs
    cases s with
    | nil => simp
    | cons c s =>
      have hs : s.length ≤ n := by simpa using hs
      obtain ⟨hmono, hone⟩ := ih s hs
      have hpos := List.length_pos_iff.mpr hpattern
      by_cases hmatch : pattern.isPrefixOf (c :: s) = true
      · have hcount : countMatches pattern (c :: s) =
            countMatches pattern (s.drop (pattern.length - 1)) + 1 := by
          rw [countMatches, countFrom, if_pos hmatch, countFrom_eq_drop]
        refine ⟨fun k => ?_, fun k hk => ?_⟩
        · cases k with
          | zero => exact le_rfl
          | succ k =>
            rw [hcount, List.drop_succ_cons]
            exact (hmono k).trans (hone _ (by omega))
        · cases k with
          | zero => exact Nat.le_succ _
          | succ k =>
            have hrest := (ih (s.drop k) (by rw [List.length_drop]; omega)).1 (pattern.length - 1 - k)
            rw [List.drop_drop, show k + (pattern.length - 1 - k) = pattern.length - 1 by omega] at hrest
            rw [hcount, List.drop_succ_cons]
            exact Nat.succ_le_succ hrest
      · have hcount : countMatches pattern (c :: s) = countMatches pattern s := by
          rw [countMatches, countFrom, if_neg hmatch]
          rfl
        refine ⟨fun k => ?_, fun k hk => ?_⟩
        · cases k with
          | zero => exact le_rfl
          | succ k =>
            rw [hcount, List.drop_succ_cons]
            exact hmono k
        · cases k with
          | zero => exact Nat.le_succ _
          | succ k =>
            rw [hcount, List.drop_succ_cons]
            exact hone k (by omega)

theorem countMatches_le_append {pattern : Text} (hpattern : pattern ≠ []) (before s : Text) :
    countMatches pattern s ≤ countMatches pattern (before ++ s) := by
  have hmono := (countMatches_drop hpattern _ (before ++ s) le_rfl).1 before.length
  rwa [List.drop_left] at hmono

/-! ### Quoted pieces -/

/-- What a delimiter does not begin is passed by. -/
theorem countMatches_skip {a : Char} {pattern before : Text} (h : a ∉ before) (s : Text) :
    countMatches (a :: pattern) (before ++ s) = countMatches (a :: pattern) s := by
  induction before with
  | nil => rfl
  | cons c before ih =>
    obtain ⟨hne, hbefore⟩ := not_or.mp (List.mem_cons.not.mp h)
    have hmiss : (a :: pattern).isPrefixOf (c :: (before ++ s)) = false := by
      simp [List.isPrefixOf, hne]
    rw [List.cons_append, countMatches, countFrom, if_neg (by simp [hmiss]), ← countMatches,
      ih hbefore]

/-- Pieces with delimiters between them. -/
def join (a : Char) : List Text → Text
  | [] => []
  | [piece] => piece
  | piece :: pieces => piece ++ a :: join a pieces

theorem join_cons (a : Char) (piece next : Text) (pieces : List Text) :
    join a (piece :: next :: pieces) = piece ++ a :: join a (next :: pieces) := rfl

/-- The pieces that are `word` and stand between two delimiters, none of which counts twice. -/
def countPieces (word : Text) : List Text → ℕ
  | piece :: next :: pieces =>
    if piece = word then countPieces word pieces + 1 else countPieces word (next :: pieces)
  | _ => 0

theorem eq_of_delimited {a : Char} {s t s' t' : Text} (hs : a ∉ s) (ht : a ∉ t)
    (h : s ++ a :: s' = t ++ a :: t') : s = t := by
  have hsplit := Schemes.Utf8.splitOnce_separator hs s'
  rw [h, Schemes.Utf8.splitOnce_separator ht t'] at hsplit
  exact (Prod.mk.inj (Option.some.inj hsplit)).1.symm

theorem countMatches_join {a : Char} {word : Text} (hword : a ∉ word) : ∀ (first : Text)
    (pieces : List Text), (∀ piece ∈ first :: pieces, a ∉ piece) →
    countMatches (a :: (word ++ [a])) (join a (first :: pieces)) = countPieces word pieces
  | first, [], h => by
    rw [join, ← List.append_nil first, countMatches_skip (h first List.mem_cons_self)]
    rfl
  | first, [last], h => by
    have hlast : a ∉ last := h last (by simp)
    have hmiss : (a :: (word ++ [a])).isPrefixOf (a :: last) = false := by
      rw [Bool.eq_false_iff]
      intro hmatch
      obtain ⟨rest, hrest⟩ := List.isPrefixOf_iff_prefix.mp hmatch
      exact hlast (by rw [← (List.cons.inj hrest).2]; simp)
    rw [join_cons, countMatches_skip (h first List.mem_cons_self), join, countMatches, countFrom,
      if_neg (by simp [hmiss]), ← countMatches, ← List.append_nil last, countMatches_skip hlast]
    rfl
  | first, piece :: next :: pieces, h => by
    have hpieces : ∀ piece' ∈ piece :: next :: pieces, a ∉ piece' :=
      fun piece' hmem => h piece' (List.mem_cons_of_mem _ hmem)
    have hpiece : a ∉ piece := hpieces piece List.mem_cons_self
    rw [join_cons, countMatches_skip (h first List.mem_cons_self), countPieces]
    by_cases hsame : piece = word
    · subst hsame
      have htext : a :: join a (piece :: next :: pieces) =
          a :: (piece ++ [a]) ++ join a (next :: pieces) := by
        simp [join_cons]
      rw [if_pos rfl, htext, countMatches_append (List.cons_ne_nil _ _),
        countMatches_join hword next pieces fun piece' hmem => hpieces piece' (List.mem_cons_of_mem _ hmem)]
    · have hmiss : (a :: (word ++ [a])).isPrefixOf (a :: join a (piece :: next :: pieces)) = false := by
        rw [Bool.eq_false_iff]
        intro hmatch
        obtain ⟨rest, hrest⟩ := List.isPrefixOf_iff_prefix.mp hmatch
        rw [join_cons] at hrest
        refine hsame (@eq_of_delimited a piece word (join a (next :: pieces)) rest hpiece hword ?_)
        simpa using (List.cons.inj hrest).2.symm
      rw [if_neg hsame, countMatches, countFrom, if_neg (by simp [hmiss]), ← countMatches,
        countMatches_join hword piece (next :: pieces) hpieces]

theorem join_split (a : Char) (piece before after : Text) (pieces : List Text) :
    ∀ pieces' : List Text, join a (pieces' ++ before :: piece :: after :: pieces) =
      join a (pieces' ++ [before]) ++ (a :: (piece ++ [a]) ++ join a (after :: pieces))
  | [] => by simp [join]
  | first :: pieces' => by
    have ih := join_split a piece before after pieces pieces'
    cases pieces' with
    | nil =>
      rw [List.cons_append, List.nil_append, join_cons]
      rw [List.nil_append] at ih
      rw [ih]
      simp [join]
    | cons next pieces' =>
      rw [List.cons_append, List.cons_append, join_cons, ← List.cons_append, ih]
      simp [join]

theorem contains_append (pattern : Text) : ∀ before after : Text,
    Schemes.Utf8.contains pattern (before ++ (pattern ++ after)) = true
  | [], after => by
    cases pattern with
    | nil => cases after <;> rfl
    | cons c pattern =>
      have hmatch : (c :: pattern).isPrefixOf (c :: (pattern ++ after)) = true :=
        List.isPrefixOf_iff_prefix.mpr ⟨after, rfl⟩
      rw [Schemes.Utf8.contains, List.nil_append, List.cons_append, Schemes.Utf8.find, if_pos hmatch]
      rfl
  | c :: before, after => by
    have ih := contains_append pattern before after
    rw [Schemes.Utf8.contains] at ih ⊢
    rw [List.cons_append, Schemes.Utf8.find]
    split_ifs
    · rfl
    · rwa [Option.isSome_map]

end Schemes.Matches
