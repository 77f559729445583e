import Rustodon.Schemes.Utf8

/-! @scheme passing | name:Pieces that a search passes

    A search goes past a piece of text, whatever follows it, when no match starts in the piece. Pieces
    that are passed one by one are passed together, and the match is the one behind them. -/

namespace Schemes.Passing
open Schemes.Utf8

/-- No match of the pattern starts in the piece, whatever follows the piece. -/
def Passes (pattern : Text) : Text → Prop
  | [] => True
  | c :: s => (¬ pattern <+: c :: s ∧ ¬ c :: s <+: pattern) ∧ Passes pattern s

instance (pattern : Text) : ∀ piece, Decidable (Passes pattern piece)
  | [] => .isTrue trivial
  | c :: s =>
    have := instDecidablePasses pattern s
    inferInstanceAs (Decidable ((¬ pattern <+: c :: s ∧ ¬ c :: s <+: pattern) ∧ Passes pattern s))

variable {pattern a b : Text}

@[simp] theorem passes_nil : Passes pattern [] := trivial

theorem Passes.append : ∀ {a b : Text}, Passes pattern a → Passes pattern b → Passes pattern (a ++ b)
  | [], _, _, hb => hb
  | c :: a, b, ha, hb => by
    obtain ⟨⟨hnot, hshort⟩, hrest⟩ := ha
    refine ⟨⟨fun hmatch => ?_, fun hmatch => ?_⟩, hrest.append hb⟩
    · rcases List.prefix_or_prefix_of_prefix hmatch (List.prefix_append (c :: a) b) with h | h
      · exact hnot h
      · exact hshort h
    · exact hshort ((List.prefix_append (c :: a) b).trans hmatch)

theorem Passes.of_append : ∀ {a b : Text}, Passes pattern (a ++ b) → Passes pattern b
  | [], _, h => h
  | _ :: _, _, h => h.2.of_append

theorem passes_of_not_mem {c : Char} {tail : Text} : ∀ {piece : Text}, c ∉ piece →
    Passes (c :: tail) piece
  | [], _ => trivial
  | d :: piece, h => by
    rw [List.mem_cons, not_or] at h
    refine ⟨⟨fun hmatch => ?_, fun hmatch => ?_⟩, passes_of_not_mem h.2⟩
    · exact h.1 (List.cons_prefix_cons.mp hmatch).1
    · exact h.1 (List.cons_prefix_cons.mp hmatch).1.symm

theorem passes_flatMap {α : Type} {f : α → Text} {l : List α} (h : ∀ a ∈ l, Passes pattern (f a)) :
    Passes pattern (l.flatMap f) := by
  induction l with
  | nil => trivial
  | cons a l ih =>
    rw [List.flatMap_cons]
    exact (h a List.mem_cons_self).append (ih fun b hb => h b (List.mem_cons_of_mem _ hb))

/-- The search goes on behind a piece that it passes. -/
theorem Passes.splitOnce_append : ∀ {piece : Text} (_ : Passes pattern piece) (rest : Text),
    splitOnce pattern (piece ++ rest) =
      (splitOnce pattern rest).map fun (before, after) => (piece ++ before, after)
  | [], _, rest => by cases hsplit : splitOnce pattern rest <;> simp [hsplit]
  | c :: piece, h, rest => by
    have hnot : ¬ pattern.isPrefixOf (c :: (piece ++ rest)) = true := by
      rw [List.isPrefixOf_iff_prefix]
      intro hmatch
      rcases List.prefix_or_prefix_of_prefix hmatch (List.prefix_append (c :: piece) rest) with hp | hp
      · exact h.1.1 hp
      · exact h.1.2 hp
    rw [List.cons_append, splitOnce, if_neg hnot, h.2.splitOnce_append rest]
    cases splitOnce pattern rest <;> simp

theorem splitOnce_self (hpattern : pattern ≠ []) (rest : Text) :
    splitOnce pattern (pattern ++ rest) = some ([], rest) := by
  obtain ⟨c, tail, rfl⟩ := List.exists_cons_of_ne_nil hpattern
  have hmatch : (c :: tail).isPrefixOf (c :: (tail ++ rest)) = true :=
    List.isPrefixOf_iff_prefix.mpr ⟨rest, rfl⟩
  rw [List.cons_append, splitOnce, if_pos hmatch]
  simp

/-- The first match is the one behind what is passed. -/
theorem Passes.splitOnce_eq {piece : Text} (h : Passes pattern piece) (hpattern : pattern ≠ [])
    (rest : Text) : splitOnce pattern (piece ++ (pattern ++ rest)) = some (piece, rest) := by
  rw [h.splitOnce_append, splitOnce_self hpattern]
  simp

theorem Passes.splitOnce_eq_none {piece : Text} (h : Passes pattern piece) (hpattern : pattern ≠ []) :
    splitOnce pattern piece = none := by
  have hall := h.splitOnce_append []
  rw [List.append_nil, splitOnce, if_neg (by simpa using hpattern)] at hall
  exact hall

theorem splitOnce_isSome (hpattern : pattern ≠ []) : ∀ (before after : Text),
    (splitOnce pattern (before ++ (pattern ++ after))).isSome = true
  | [], after => by rw [List.nil_append, splitOnce_self hpattern]; rfl
  | c :: before, after => by
    rw [List.cons_append, splitOnce]
    split_ifs
    · rfl
    · rw [Option.isSome_map]
      exact splitOnce_isSome hpattern before after

/-- A match that is there stays the first one when the text goes on. -/
theorem splitOnce_append_left (hpattern : pattern ≠ []) : ∀ {s before after : Text},
    splitOnce pattern s = some (before, after) → ∀ rest,
      splitOnce pattern (s ++ rest) = some (before, after ++ rest)
  | [], _, _, h, _ => by simp [splitOnce, hpattern] at h
  | c :: s, before, after, h, rest => by
    rw [List.cons_append, splitOnce]
    rw [splitOnce] at h
    by_cases hmatch : pattern.isPrefixOf (c :: s) = true
    · have hlong : pattern <+: c :: (s ++ rest) :=
        (List.isPrefixOf_iff_prefix.mp hmatch).trans (List.prefix_append (c :: s) rest)
      have hlen := (List.isPrefixOf_iff_prefix.mp hmatch).length_le
      rw [if_pos hmatch] at h
      obtain ⟨rfl, rfl⟩ := Prod.mk.inj (Option.some.inj h)
      rw [if_pos (List.isPrefixOf_iff_prefix.mpr hlong), ← List.cons_append,
        List.drop_append_of_le_length hlen]
    · rw [if_neg hmatch] at h
      obtain ⟨⟨before', after'⟩, hsplit, heq⟩ := Option.map_eq_some_iff.mp h
      obtain ⟨rfl, rfl⟩ := Prod.mk.inj heq
      have hlen : pattern.length ≤ (c :: s).length := by
        rw [splitOnce_eq_some hsplit]
        simp
        omega
      have hstays : ¬ pattern.isPrefixOf (c :: (s ++ rest)) = true := by
        rw [List.isPrefixOf_iff_prefix]
        intro hlong
        exact hmatch (List.isPrefixOf_iff_prefix.mpr
          (List.prefix_of_prefix_length_le hlong (List.prefix_append (c :: s) rest) hlen))
      rw [if_neg hstays, splitOnce_append_left hpattern hsplit rest]
      rfl

/-! ### Searching for containment -/

theorem contains_eq_splitOnce (s : Text) : contains pattern s = (splitOnce pattern s).isSome := by
  rw [contains, find_eq_splitOnce, Option.isSome_map]

theorem contains_append (hpattern : pattern ≠ []) (before after : Text) :
    contains pattern (before ++ (pattern ++ after)) = true := by
  rw [contains_eq_splitOnce, splitOnce_isSome hpattern]

theorem Passes.not_contains {piece : Text} (h : Passes pattern piece) (hpattern : pattern ≠ []) :
    contains pattern piece = false := by
  rw [contains_eq_splitOnce, h.splitOnce_eq_none hpattern]
  rfl

/-! ### Quoted pieces -/

variable {q : Char}

/-- What stands before a quote is passed by a pattern without quotes that has no match in it. -/
theorem passes_quoted (hq : q ∉ pattern) : ∀ {value : Text}, ¬ pattern <:+: value →
    Passes pattern (value ++ [q])
  | [], h => by
    obtain ⟨c, tail, rfl⟩ := List.exists_cons_of_ne_nil fun hnil : pattern = [] =>
      h (hnil ▸ List.infix_rfl)
    exact passes_of_not_mem fun hmem => hq (List.mem_singleton.mp hmem ▸ List.mem_cons_self)
  | c :: value, h => by
    refine ⟨⟨fun hmatch => ?_, fun hmatch => ?_⟩,
      passes_quoted hq fun hin => h (hin.trans (List.suffix_cons c value).isInfix)⟩
    · rcases (@List.prefix_concat_iff _ _ (c :: value) q).mp hmatch with heq | hp
      · exact hq (heq ▸ by simp)
      · exact h hp.isInfix
    · exact hq (hmatch.subset (by simp))

/-- A pattern that ends with the quote is matched at the end of the value or not at all. -/
theorem passes_quoted_end (hq : q ∉ pattern) : ∀ {value : Text}, q ∉ value →
    ¬ pattern <:+ value → Passes (pattern ++ [q]) (value ++ [q])
  | [], _, h => by
    obtain ⟨c, tail, rfl⟩ := List.exists_cons_of_ne_nil fun hnil : pattern = [] =>
      h (hnil ▸ List.suffix_rfl)
    exact passes_of_not_mem fun hmem => hq (List.mem_singleton.mp hmem ▸ List.mem_cons_self)
  | c :: value, hvalue, h => by
    have hne : pattern ≠ c :: value := fun heq => h (heq ▸ List.suffix_rfl)
    refine ⟨⟨fun hmatch => ?_, fun hmatch => ?_⟩,
      passes_quoted_end hq (fun hmem => hvalue (List.mem_cons_of_mem _ hmem)) fun hend =>
        h (hend.trans (List.suffix_cons c value))⟩
    · rcases (@List.prefix_concat_iff _ _ (c :: value) q).mp hmatch with heq | hp
      · exact hne (List.append_inj_left' heq rfl)
      · exact hvalue (hp.subset (by simp))
    · rcases List.prefix_concat_iff.mp hmatch with heq | hp
      · exact hne (List.append_inj_left' heq rfl).symm
      · exact hq (hp.subset (by simp))

end Schemes.Passing
