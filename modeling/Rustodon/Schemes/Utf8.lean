import Mathlib.Data.List.Basic
import Mathlib.Data.List.Infix
import Mathlib.Tactic.SplitIfs

/-! @scheme utf8-text | name:Text with byte offsets

    A text is a list of characters, but positions in it count the bytes of its UTF-8 encoding, so
    not every number is a position: an operation that is given an offset inside a character fails.
    Searching yields offsets at which cutting succeeds. -/

namespace Schemes.Utf8

abbrev Text := List Char

-- What holds of every character of a text is decided along the text, not over all characters.
instance (priority := 2000) decidableBAll {α : Type*} (p : α → Prop) [DecidablePred p] (l : List α) :
    Decidable (∀ c ∈ l, p c) := List.decidableBAll p l

instance lawfulBEqText : LawfulBEq Text := inferInstance

/-- The bytes of the UTF-8 encoding. -/
def byteLen : Text → ℕ
  | [] => 0
  | c :: s => c.utf8Size + byteLen s

/-- Cuts a text at a byte offset; `none` inside a character and past the end. -/
def cut : Text → ℕ → Option (Text × Text)
  | s, 0 => some ([], s)
  | [], _ + 1 => none
  | c :: s, n + 1 =>
    if c.utf8Size ≤ n + 1 then (cut s (n + 1 - c.utf8Size)).map fun (p, q) => (c :: p, q) else none

/-- `&s[n..]`. -/
def sliceFrom (s : Text) (n : ℕ) : Option Text := (cut s n).map Prod.snd

/-- `s.truncate(n)`, and `&s[..n]`. -/
def truncate (s : Text) (n : ℕ) : Option Text := (cut s n).map Prod.fst

/-- Cuts out the bytes from `start` to `stop`: what precedes, what is between, what follows. -/
def cutRange (s : Text) (start stop : ℕ) : Option (Text × Text × Text) :=
  if start ≤ stop then do
    let (before, rest) ← cut s start
    let (middle, after) ← cut rest (stop - start)
    pure (before, middle, after)
  else none

/-- `&s[start..stop]`. -/
def slice (s : Text) (start stop : ℕ) : Option Text :=
  (cutRange s start stop).map fun (_, middle, _) => middle

/-- `s.replace_range(start..stop, with)`. -/
def replaceRange (s : Text) (start stop : ℕ) (replacement : Text) : Option Text :=
  (cutRange s start stop).map fun (before, _, after) => before ++ replacement ++ after

/-- `s.find(pattern)`: the byte offset of the first occurrence. -/
def find (pattern : Text) : Text → Option ℕ
  | [] => if pattern.isEmpty then some 0 else none
  | c :: s =>
    if pattern.isPrefixOf (c :: s) then some 0 else (find pattern s).map (c.utf8Size + ·)

def contains (pattern s : Text) : Bool := (find pattern s).isSome

/-- `s.replace(pattern, new)`, leaving out the next `skip` characters, for a pattern that is not
    empty. -/
def replaceFrom (pattern new : Text) : ℕ → Text → Text
  | _, [] => []
  | skip + 1, _ :: s => replaceFrom pattern new skip s
  | 0, c :: s =>
    if pattern.isPrefixOf (c :: s) then new ++ replaceFrom pattern new (pattern.length - 1) s
    else c :: replaceFrom pattern new 0 s

def replace (pattern new s : Text) : Text := replaceFrom pattern new 0 s

/-- `s.split_once(pattern)`: what precedes the first occurrence, and what follows it. -/
def splitOnce (pattern : Text) : Text → Option (Text × Text)
  | [] => if pattern.isEmpty then some ([], []) else none
  | c :: s =>
    if pattern.isPrefixOf (c :: s) then some ([], (c :: s).drop pattern.length)
    else (splitOnce pattern s).map fun (p, q) => (c :: p, q)

/-- `char::is_whitespace`. -/
def isWhitespace (c : Char) : Bool :=
  (0x9 ≤ c.toNat && c.toNat ≤ 0xD) || c.toNat == 0x20 || c.toNat == 0x85 || c.toNat == 0xA0 ||
    c.toNat == 0x1680 || (0x2000 ≤ c.toNat && c.toNat ≤ 0x200A) || c.toNat == 0x2028 ||
    c.toNat == 0x2029 || c.toNat == 0x202F || c.toNat == 0x205F || c.toNat == 0x3000

def trimStart (s : Text) : Text := s.dropWhile isWhitespace

/-- `str::trim`. -/
def trim (s : Text) : Text := (trimStart (trimStart s).reverse).reverse

def toAsciiLowercase (s : Text) : Text := s.map Char.toLower

def eqIgnoreAsciiCase (a b : Text) : Bool := decide (toAsciiLowercase a = toAsciiLowercase b)

theorem eqIgnoreAsciiCase_iff {a b : Text} :
    eqIgnoreAsciiCase a b = true ↔ toAsciiLowercase a = toAsciiLowercase b := decide_eq_true_iff

theorem eqIgnoreAsciiCase_refl (a : Text) : eqIgnoreAsciiCase a a = true :=
  eqIgnoreAsciiCase_iff.mpr rfl

theorem eqIgnoreAsciiCase_symm {a b : Text} (h : eqIgnoreAsciiCase a b = true) :
    eqIgnoreAsciiCase b a = true :=
  eqIgnoreAsciiCase_iff.mpr (eqIgnoreAsciiCase_iff.mp h).symm

theorem eqIgnoreAsciiCase_trans {a b c : Text} (h : eqIgnoreAsciiCase a b = true)
    (h' : eqIgnoreAsciiCase b c = true) : eqIgnoreAsciiCase a c = true :=
  eqIgnoreAsciiCase_iff.mpr ((eqIgnoreAsciiCase_iff.mp h).trans (eqIgnoreAsciiCase_iff.mp h'))

/-- Texts that are equal up to case are compared alike with any other. -/
theorem eqIgnoreAsciiCase_congr (a : Text) {b c : Text} (h : eqIgnoreAsciiCase b c = true) :
    eqIgnoreAsciiCase a b = eqIgnoreAsciiCase a c := by
  rw [eqIgnoreAsciiCase, eqIgnoreAsciiCase, eqIgnoreAsciiCase_iff.mp h]

/-- A character that is no capital letter is its own small letter. -/
theorem toLower_eq_self {c : Char} (h : ¬ c.isUpper = true) : c.toLower = c :=
  dif_neg fun hupper => h (decide_eq_true hupper)

/-- A character that is no small letter comes from itself. -/
theorem eq_of_toLower {c d : Char} (h : c.toLower = d) (hd : d.toNat < 97 ∨ 122 < d.toNat) :
    c = d := by
  unfold Char.toLower at h
  split at h
  · rename_i hupper
    have hval : d.toNat = (c.val + ('a'.val - 'A'.val)).toNat := by
      rw [← h]
      rfl
    have hlow : 65 ≤ c.val.toNat := UInt32.le_iff_toNat_le.mp hupper.1
    have hhigh : c.val.toNat ≤ 90 := UInt32.le_iff_toNat_le.mp hupper.2
    have hshift : ('a'.val - 'A'.val).toNat = 32 := by decide
    rw [UInt32.toNat_add] at hval
    omega
  · exact h

/-- A text without line ends. -/
def OneLine (s : Text) : Prop := ∀ c ∈ s, c ≠ '\r' ∧ c ≠ '\n'

instance : DecidablePred OneLine := List.decidableBAll _

theorem OneLine.append {s t : Text} (hs : OneLine s) (ht : OneLine t) : OneLine (s ++ t) :=
  List.forall_mem_append.mpr ⟨hs, ht⟩

/-- Two texts that differ in the case of letters have line ends in the same places. -/
theorem OneLine.of_eqIgnoreAsciiCase {s t : Text} (h : eqIgnoreAsciiCase s t = true)
    (ht : OneLine t) : OneLine s := by
  intro c hc
  have hmem : c.toLower ∈ toAsciiLowercase t := by
    rw [← of_decide_eq_true h]
    exact List.mem_map_of_mem hc
  obtain ⟨d, hd, heq⟩ := List.mem_map.mp hmem
  constructor
  · rintro rfl
    exact (ht d hd).1 (eq_of_toLower heq (by decide))
  · rintro rfl
    exact (ht d hd).2 (eq_of_toLower heq (by decide))

@[simp] theorem byteLen_nil : byteLen [] = 0 := rfl

@[simp] theorem byteLen_cons (c : Char) (s : Text) : byteLen (c :: s) = c.utf8Size + byteLen s := rfl

@[simp] theorem byteLen_append : ∀ (s t : Text), byteLen (s ++ t) = byteLen s + byteLen t
  | [], t => by simp
  | c :: s, t => by simp [byteLen_append s t, Nat.add_assoc]

theorem cut_zero (s : Text) : cut s 0 = some ([], s) := by
  cases s <;> rfl

theorem cut_cons {c : Char} {n : ℕ} (s : Text) (h : c.utf8Size ≤ n) :
    cut (c :: s) n = (cut s (n - c.utf8Size)).map fun (p, q) => (c :: p, q) := by
  have hpos := c.utf8Size_pos
  obtain ⟨m, rfl⟩ := Nat.exists_eq_add_of_le' (show 1 ≤ n by omega)
  rw [cut, if_pos h]

theorem cut_cons_inside {c : Char} {n : ℕ} (s : Text) (hpos : 0 < n) (h : n < c.utf8Size) :
    cut (c :: s) n = none := by
  obtain ⟨m, rfl⟩ := Nat.exists_eq_add_of_le' hpos
  rw [cut, if_neg (not_le.mpr h)]

/-- Cutting at the end of a prefix and some bytes further cuts what follows the prefix. -/
theorem cut_append : ∀ (p s : Text) (n : ℕ),
    cut (p ++ s) (byteLen p + n) = (cut s n).map fun (q, r) => (p ++ q, r)
  | [], s, n => by
    rw [List.nil_append, byteLen_nil, Nat.zero_add]
    cases cut s n <;> simp
  | c :: p, s, n => by
    rw [List.cons_append, byteLen_cons, cut_cons _ (by omega),
      show c.utf8Size + byteLen p + n - c.utf8Size = byteLen p + n by omega, cut_append p s n]
    cases cut s n <;> simp

/-- A cut succeeds exactly at the end of a prefix. -/
theorem cut_eq_some_iff {s p q : Text} {n : ℕ} :
    cut s n = some (p, q) ↔ s = p ++ q ∧ byteLen p = n := by
  constructor
  · induction s generalizing n p with
    | nil =>
      intro h
      cases n with
      | zero => simp only [cut, Option.some.injEq, Prod.mk.injEq] at h; simp [← h.1, ← h.2]
      | succ n => simp [cut] at h
    | cons c s ih =>
      intro h
      rcases Nat.eq_zero_or_pos n with rfl | hpos
      · simp only [cut, Option.some.injEq, Prod.mk.injEq] at h; simp [← h.1, ← h.2]
      · by_cases hc : c.utf8Size ≤ n
        · rw [cut_cons s hc, Option.map_eq_some_iff] at h
          obtain ⟨⟨p', q'⟩, hcut, heq⟩ := h
          obtain ⟨rfl, rfl⟩ := Prod.mk.inj heq
          obtain ⟨rfl, hlen⟩ := ih hcut
          exact ⟨rfl, by rw [byteLen_cons]; omega⟩
        · rw [cut_cons_inside s hpos (by omega)] at h
          exact absurd h (by simp)
  · rintro ⟨rfl, rfl⟩
    simpa [cut_zero] using cut_append p q 0

/-- A cut within the bytes of a prefix cuts the prefix. -/
theorem cut_append_left : ∀ (p s : Text) (n : ℕ), n ≤ byteLen p →
    cut (p ++ s) n = (cut p n).map fun (a, b) => (a, b ++ s)
  | [], s, n, h => by
    obtain rfl : n = 0 := by simpa using h
    simp [cut_zero]
  | c :: p, s, n, h => by
    rcases Nat.eq_zero_or_pos n with rfl | hpos
    · simp [cut_zero]
    · rw [byteLen_cons] at h
      by_cases hc : c.utf8Size ≤ n
      · rw [List.cons_append, cut_cons _ hc, cut_cons _ hc, cut_append_left p s _ (by omega)]
        cases cut p (n - c.utf8Size) <;> simp
      · rw [List.cons_append, cut_cons_inside _ hpos (by omega),
          cut_cons_inside _ hpos (by omega)]
        rfl

theorem sliceFrom_append (p s : Text) : sliceFrom (p ++ s) (byteLen p) = some s := by
  rw [sliceFrom, cut_eq_some_iff.mpr ⟨rfl, rfl⟩]
  rfl

theorem truncate_append (p s : Text) : truncate (p ++ s) (byteLen p) = some p := by
  rw [truncate, cut_eq_some_iff.mpr ⟨rfl, rfl⟩]
  rfl

theorem cutRange_append (p m s : Text) :
    cutRange (p ++ m ++ s) (byteLen p) (byteLen p + byteLen m) = some (p, m, s) := by
  have hrest : cut (p ++ m ++ s) (byteLen p) = some (p, m ++ s) :=
    cut_eq_some_iff.mpr ⟨by simp, rfl⟩
  have hmid : cut (m ++ s) (byteLen m) = some (m, s) := cut_eq_some_iff.mpr ⟨rfl, rfl⟩
  rw [cutRange, if_pos (by omega), hrest]
  simp [hmid]

theorem slice_append (p m s : Text) :
    slice (p ++ m ++ s) (byteLen p) (byteLen p + byteLen m) = some m := by
  rw [slice, cutRange_append]
  rfl

theorem replaceRange_append (p m s replacement : Text) :
    replaceRange (p ++ m ++ s) (byteLen p) (byteLen p + byteLen m) replacement =
      some (p ++ replacement ++ s) := by
  rw [replaceRange, cutRange_append]
  rfl

/-- Splitting takes one occurrence of the pattern out. -/
theorem splitOnce_eq_some {pattern : Text} : ∀ {s before after : Text},
    splitOnce pattern s = some (before, after) → s = before ++ pattern ++ after
  | [], before, after, h => by
    rw [splitOnce] at h
    split_ifs at h with hempty
    · simp only [Option.some.injEq, Prod.mk.injEq] at h
      simp [← h.1, ← h.2, List.isEmpty_iff.mp hempty]
  | c :: s, before, after, h => by
    rw [splitOnce] at h
    split_ifs at h with hpre
    · obtain ⟨rest, hrest⟩ := List.isPrefixOf_iff_prefix.mp hpre
      simp only [Option.some.injEq, Prod.mk.injEq, ← hrest, List.drop_left] at h
      simp [← h.1, ← h.2, hrest]
    · obtain ⟨⟨before', after'⟩, hsplit, heq⟩ := Option.map_eq_some_iff.mp h
      obtain ⟨rfl, rfl⟩ := Prod.mk.inj heq
      simp [splitOnce_eq_some hsplit]

theorem not_mem_splitOnce {c : Char} : ∀ {text before after : Text},
    splitOnce [c] text = some (before, after) → c ∉ before
  | [], _, _, h => by cases h
  | d :: text, before, after, h => by
    rw [splitOnce] at h
    split_ifs at h with hprefix
    · obtain ⟨rfl, -⟩ := Prod.mk.inj (Option.some.inj h)
      exact List.not_mem_nil
    · obtain ⟨⟨p, q⟩, hsplit, heq⟩ := Option.map_eq_some_iff.mp h
      obtain ⟨rfl, rfl⟩ := Prod.mk.inj heq
      have hne : c ≠ d := by simpa [List.isPrefixOf] using hprefix
      rw [List.mem_cons, not_or]
      exact ⟨hne, not_mem_splitOnce hsplit⟩

theorem not_mem_of_splitOnce_none {c : Char} : ∀ {text : Text}, splitOnce [c] text = none → c ∉ text
  | [], _ => List.not_mem_nil
  | d :: text, h => by
    rw [splitOnce] at h
    split_ifs at h with hprefix
    have hne : c ≠ d := by simpa [List.isPrefixOf] using hprefix
    rw [List.mem_cons, not_or]
    exact ⟨hne, not_mem_of_splitOnce_none (Option.map_eq_none_iff.mp h)⟩

/-- Searching gives the offset at which splitting takes the pattern out. -/
theorem find_eq_splitOnce (pattern : Text) : ∀ s : Text,
    find pattern s = (splitOnce pattern s).map fun (before, _) => byteLen before
  | [] => by
    rw [find, splitOnce]
    split_ifs <;> rfl
  | c :: s => by
    rw [find, splitOnce, find_eq_splitOnce pattern s]
    split_ifs
    · rfl
    · cases splitOnce pattern s <;> rfl

/-- A search either finds nothing or an occurrence that splitting takes out. -/
theorem find_cases (pattern s : Text) :
    (find pattern s = none ∧ splitOnce pattern s = none) ∨
    ∃ before after, s = before ++ pattern ++ after ∧ find pattern s = some (byteLen before) ∧
      splitOnce pattern s = some (before, after) := by
  rw [find_eq_splitOnce]
  cases hsplit : splitOnce pattern s with
  | none => exact Or.inl ⟨rfl, rfl⟩
  | some split => exact Or.inr ⟨split.1, split.2, splitOnce_eq_some hsplit, rfl, rfl⟩

/-- Characters that cannot start the pattern only precede what is split. -/
theorem splitOnce_append_of_not_mem {a : Char} {pattern : Text} : ∀ (e s : Text), a ∉ e →
    splitOnce (a :: pattern) (e ++ s) = (splitOnce (a :: pattern) s).map fun (p, q) => (e ++ p, q)
  | [], s, _ => by cases hsplit : splitOnce (a :: pattern) s <;> simp [hsplit]
  | c :: e, s, h => by
    have hc : a ≠ c := fun heq => h (by simp [heq])
    have he : a ∉ e := fun hmem => h (List.mem_cons_of_mem _ hmem)
    rw [List.cons_append, splitOnce, if_neg (by simp [List.isPrefixOf, hc]),
      splitOnce_append_of_not_mem e s he]
    cases splitOnce (a :: pattern) s <;> simp

theorem splitOnce_separator {c : Char} {before : Text} (h : c ∉ before) (after : Text) :
    splitOnce [c] (before ++ c :: after) = some (before, after) := by
  rw [splitOnce_append_of_not_mem _ _ h]
  simp [splitOnce]

theorem find_append_of_not_mem {a : Char} {pattern : Text} (e s : Text) (h : a ∉ e) :
    find (a :: pattern) (e ++ s) = (find (a :: pattern) s).map (byteLen e + ·) := by
  rw [find_eq_splitOnce, find_eq_splitOnce, splitOnce_append_of_not_mem e s h]
  cases splitOnce (a :: pattern) s <;> simp

end Schemes.Utf8
