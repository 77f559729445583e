import Mathlib.Data.List.Infix

/-! @scheme patterns | name:Patterns of LIKE

    The patterns of `LIKE`, and those among them that only ask for the end of a text. -/

namespace Schemes.Like

inductive Token where
  | anyText
  | anyChar
  | char (c : Char)

/-- The parts of a pattern, with the backslash as escape character. -/
def tokens : List Char → List Token
  | [] => []
  | c :: pattern =>
    if c = '%' then .anyText :: tokens pattern
    else if c = '_' then .anyChar :: tokens pattern
    else if c = '\\' then
      match pattern with
      | [] => [.char c]
      | d :: pattern => .char d :: tokens pattern
    else .char c :: tokens pattern

def matchTokens : List Token → List Char → Bool
  | [], text => text.isEmpty
  | .anyText :: rest, text => text.tails.any (matchTokens rest)
  | .anyChar :: _, [] => false
  | .anyChar :: rest, _ :: text => matchTokens rest text
  | .char _ :: _, [] => false
  | .char c :: rest, d :: text => decide (d = c) && matchTokens rest text

/-- `text LIKE pattern`. -/
def like (pattern text : List Char) : Bool := matchTokens (tokens pattern) text

/-- A character that stands for itself. -/
def isPlain (c : Char) : Bool := decide (c ≠ '%' ∧ c ≠ '_' ∧ c ≠ '\\')

variable {pattern text : List Char}

theorem tokens_plain (h : ∀ c ∈ pattern, isPlain c = true) : tokens pattern = pattern.map .char := by
  induction pattern with
  | nil => rfl
  | cons c pattern ih =>
    obtain ⟨hpercent, hunderscore, hescape⟩ := of_decide_eq_true (h c List.mem_cons_self)
    unfold tokens
    rw [if_neg hpercent, if_neg hunderscore, if_neg hescape, List.map_cons]
    rw [ih fun d hd => h d (List.mem_cons_of_mem _ hd)]

theorem tokens_percent (pattern : List Char) : tokens ('%' :: pattern) = .anyText :: tokens pattern := by
  conv_lhs => unfold tokens
  exact if_pos rfl

theorem matchTokens_chars : matchTokens (pattern.map .char) text = true ↔ text = pattern := by
  induction pattern generalizing text with
  | nil => simp [matchTokens]
  | cons c pattern ih =>
    cases text with
    | nil => simp [matchTokens]
    | cons d text => simp [matchTokens, ih]

/-- A pattern that starts with a percent sign, and goes on with plain text. -/
theorem like_percent (h : ∀ c ∈ pattern, isPlain c = true) :
    like ('%' :: pattern) text = true ↔ pattern <:+ text := by
  rw [like, tokens_percent, tokens_plain h, matchTokens, List.any_eq_true]
  constructor
  · rintro ⟨rest, hrest, hmatch⟩
    rw [matchTokens_chars.mp hmatch] at hrest
    exact (List.mem_tails pattern text).mp hrest
  · intro hsuffix
    exact ⟨pattern, (List.mem_tails pattern text).mpr hsuffix, matchTokens_chars.mpr rfl⟩

end Schemes.Like
