import Rustodon.Schemes.Utf8

/-! @src mastodon/rest/html.rs | name:MathML of remote fragments | scheme:utf8-text | family:html

    Before a remote fragment is sanitised, each `<math>` element is replaced by the text of one of
    its annotations. The loop keeps a byte cursor into the string it is rewriting and moves it by
    the length of the text before escaping, although the escaped text was put in: so the cursor can
    come to stand inside a character, and the next slice panics. -/

namespace Rustodon.Html
open Schemes.Utf8

/-- How a function that slices strings ends: `running` says that the fuel ran out before. -/
inductive Outcome where
  | returned (html : Text)
  | panicked
  | running
  deriving DecidableEq, Repr

/-- `transform_headings`. -/
def transformHeadings (html : Text) : Text :=
  ["1", "2", "3", "4", "5", "6"].foldl (fun html level =>
    replace ("</h".toList ++ level.toList ++ ">".toList) "</strong></p>".toList
      (replace ("<h".toList ++ level.toList ++ ">".toList) "<p><strong>".toList html)) html

/-- The loop of `strip_tags`, inside or outside a tag. -/
def stripTagsFrom : Bool → Text → Text
  | _, [] => []
  | inTag, c :: s =>
    if c = '<' then stripTagsFrom true s
    else if c = '>' then stripTagsFrom false s
    else if inTag then stripTagsFrom inTag s
    else c :: stripTagsFrom inTag s

def stripTags (html : Text) : Text := stripTagsFrom false html

def escapeChar (c : Char) : Text :=
  if c = '&' then "&amp;".toList
  else if c = '<' then "&lt;".toList
  else if c = '>' then "&gt;".toList
  else if c = '"' then "&quot;".toList
  else if c = '\'' then "&#39;".toList
  else [c]

def escapeHtml : Text → Text
  | [] => []
  | c :: s => escapeChar c ++ escapeHtml s

def marker (encoding : String) : Text := "encoding=\"".toList ++ encoding.toList ++ "\"".toList

/-- `annotation`; the outer `none` is a panic. -/
def annotation (math : Text) (encoding : String) : Option (Option Text) :=
  match find (marker encoding) math with
  | none => some none
  | some markerStart => do
    let marked ← sliceFrom math markerStart
    match find ['>'] marked with
    | none => some none
    | some opening =>
      let contentStart := markerStart + opening + 1
      let content ← sliceFrom math contentStart
      match find "</annotation>".toList content with
      | none => some none
      | some length => do
        let inner ← slice math contentStart (contentStart + length)
        some (some (stripTags inner))

/-- Whether the opening tag asks for display as a block. -/
def isBlock (math : Text) : Bool :=
  (splitOnce ['>'] math).any fun (opening, _) => contains "display=\"block\"".toList opening

def dollars (block : Bool) : Text := if block then "$$".toList else "$".toList

/-- The text a math element is replaced by, before escaping. -/
def replacement (math : Text) : Option Text := do
  let tex ← annotation math "application/x-tex"
  match tex with
  | some text => some (dollars (isBlock math) ++ text ++ dollars (isBlock math))
  | none => do
    let plain ← annotation math "text/plain"
    some (plain.getD [])

/-- One turn of the loop of `transform_math`: the rewritten string, and the cursor when the loop
    goes on; `none` is a panic. -/
def mathStep (html : Text) (cursor : ℕ) : Option (Text × Option ℕ) := do
  let ahead ← sliceFrom html cursor
  match find "<math".toList ahead with
  | none => some (html, none)
  | some relativeStart =>
    let start := cursor + relativeStart
    let opened ← sliceFrom html start
    match find "</math>".toList opened with
    | none => do
      let html ← truncate html start
      some (html, none)
    | some relativeEnd => do
      let stop := start + relativeEnd + byteLen "</math>".toList
      let math ← slice html start stop
      let text ← replacement math
      let html ← replaceRange html start stop (escapeHtml text)
      some (html, some (start + byteLen text))

def mathLoop : ℕ → Text → ℕ → Outcome
  | 0, _, _ => .running
  | fuel + 1, html, cursor =>
    match mathStep html cursor with
    | none => .panicked
    | some (html, none) => .returned html
    | some (html, some cursor) => mathLoop fuel html cursor

/-- `transform_math`, given a turn of its loop for each character. -/
def transformMath (html : Text) : Outcome := mathLoop (html.length + 1) html 0

/-- `transformed` in `HtmlFormatter::remote_fragment`. -/
def transformed (html : Text) : Outcome := transformMath (transformHeadings html)

/-! ### What the markup says -/

/-- The complete math elements of a text, from left to right. -/
def mathElements (html : Text) : List Text :=
  match _hopen : splitOnce "<math".toList html with
  | none => []
  | some (_, opened) =>
    match _hclose : splitOnce "</math>".toList opened with
    | none => []
    | some (body, rest) =>
      ("<math".toList ++ body ++ "</math>".toList) :: mathElements rest
termination_by html.length
decreasing_by
  rw [splitOnce_eq_some _hopen, splitOnce_eq_some _hclose]
  simp
  omega

/-- The text of the annotation with the given encoding, without its tags. -/
def annotationText (math : Text) (encoding : String) : Option Text := do
  let (_, marked) ← splitOnce (marker encoding) math
  let (_, content) ← splitOnce ['>'] marked
  let (inner, _) ← splitOnce "</annotation>".toList content
  some (stripTags inner)

/-- The text shown for a math element: its TeX between dollar signs, or else its plain text. -/
def shownText (math : Text) : Text :=
  match annotationText math "application/x-tex" with
  | some text => dollars (isBlock math) ++ text ++ dollars (isBlock math)
  | none => (annotationText math "text/plain").getD []

/-- The bytes that escaping adds to a character. -/
def charGrowth (c : Char) : ℕ :=
  if c = '&' then 4 else if c = '<' then 3 else if c = '>' then 3
  else if c = '"' then 5 else if c = '\'' then 4 else 0

/-- The bytes that escaping adds to a text. -/
def growth : Text → ℕ
  | [] => 0
  | c :: s => charGrowth c + growth s

/-- At no character of the text has escaping added, before it, more bytes than follow it but fewer
    than it and what follows it take. -/
def Fits (text : Text) : Prop :=
  ∀ before c after, text = before ++ c :: after →
    ¬ (byteLen after < growth before ∧ growth before < byteLen after + c.utf8Size)

/-! ### Escaping -/

theorem byteLen_escapeChar (c : Char) : byteLen (escapeChar c) = c.utf8Size + charGrowth c := by
  rw [escapeChar, charGrowth]
  split_ifs with h1 h2 h3 h4 h5
  · subst h1; rfl
  · subst h2; rfl
  · subst h3; rfl
  · subst h4; rfl
  · subst h5; rfl
  · rfl

theorem byteLen_escapeHtml : ∀ s : Text, byteLen (escapeHtml s) = byteLen s + growth s
  | [] => rfl
  | c :: s => by
    rw [escapeHtml, byteLen_append, byteLen_escapeChar, byteLen_escapeHtml s, byteLen_cons, growth]
    omega

theorem lt_not_mem_escapeHtml : ∀ s : Text, '<' ∉ escapeHtml s
  | [] => by simp [escapeHtml]
  | c :: s => by
    rw [escapeHtml, List.mem_append]
    rintro (h | h)
    · rw [escapeChar] at h
      split_ifs at h with h1 h2
      · simp at h
      · simp at h
      · simp at h
      · simp at h
      · simp at h
      · exact h2 (List.mem_singleton.mp h).symm
    · exact lt_not_mem_escapeHtml s h

theorem utf8Size_of_growth {c : Char} (h : charGrowth c ≠ 0) : c.utf8Size = 1 := by
  rw [charGrowth] at h
  split_ifs at h <;> simp_all
  all_goals rfl

theorem escapeChar_of_no_growth {c : Char} (h : charGrowth c = 0) : escapeChar c = [c] := by
  rw [charGrowth] at h
  rw [escapeChar]
  split_ifs at h ⊢
  rfl

/-- A character that escaping lengthens becomes single bytes, which can be cut anywhere. -/
theorem cut_escapeChar_isSome {c : Char} {n : ℕ} (hgrow : charGrowth c ≠ 0)
    (hn : n ≤ byteLen (escapeChar c)) : (cut (escapeChar c) n).isSome = true := by
  have hascii : ∀ a ∈ escapeChar c, a.utf8Size = 1 := by
    rw [charGrowth] at hgrow
    rw [escapeChar]
    split_ifs at hgrow ⊢ <;> simp_all
    all_goals decide
  have hcut : ∀ (s : Text) (n : ℕ), (∀ a ∈ s, a.utf8Size = 1) → n ≤ byteLen s →
      (cut s n).isSome = true := by
    intro s
    induction s with
    | nil =>
      intro n _ hn
      obtain rfl : n = 0 := by simpa using hn
      rfl
    | cons a s ih =>
      intro n hall hn
      have ha := hall a (List.mem_cons_self ..)
      rcases Nat.eq_zero_or_pos n with rfl | hpos
      · rfl
      · rw [byteLen_cons, ha] at hn
        rw [cut_cons s (by omega), Option.isSome_map]
        exact ih _ (fun b hb => hall b (List.mem_cons_of_mem _ hb)) (by omega)
  exact hcut _ n hascii hn

/-- The escaped text cannot be cut exactly inside a character that escaping leaves as it is. -/
theorem cut_escapeHtml_eq_none_iff : ∀ (s : Text) (n : ℕ), n ≤ byteLen (escapeHtml s) →
    (cut (escapeHtml s) n = none ↔ ∃ before c after, s = before ++ c :: after ∧
      byteLen (escapeHtml before) < n ∧ n < byteLen (escapeHtml before) + c.utf8Size)
  | [], n, hn => by
    obtain rfl : n = 0 := by simpa [escapeHtml] using hn
    simp [escapeHtml, cut]
  | c :: s, n, hn => by
    rw [escapeHtml, byteLen_append, byteLen_escapeChar] at hn
    rw [escapeHtml]
    by_cases hle : n < byteLen (escapeChar c)
    · rw [cut_append_left _ _ _ (le_of_lt hle), Option.map_eq_none_iff]
      constructor
      · intro hnone
        have hgrow : charGrowth c = 0 := by
          by_contra hgrow
          rw [Option.eq_none_iff_forall_not_mem] at hnone
          obtain ⟨r, hr⟩ := Option.isSome_iff_exists.mp (cut_escapeChar_isSome hgrow (le_of_lt hle))
          exact hnone r hr
        rw [byteLen_escapeChar, hgrow] at hle
        refine ⟨[], c, s, rfl, ?_, by simpa [escapeHtml] using hle⟩
        rcases Nat.eq_zero_or_pos n with rfl | hpos
        · rw [cut_zero] at hnone; exact absurd hnone (by simp)
        · simpa [escapeHtml] using hpos
      · rintro ⟨before, a, after, heq, hlo, hhi⟩
        cases before with
        | nil =>
          obtain ⟨rfl, -⟩ := List.cons.inj heq
          simp only [escapeHtml, byteLen_nil, Nat.zero_add] at hlo hhi
          have hgrow : charGrowth c = 0 := by
            by_contra hgrow
            have := utf8Size_of_growth hgrow
            omega
          rw [escapeChar_of_no_growth hgrow, cut_cons_inside _ hlo hhi]
        | cons b before =>
          obtain ⟨rfl, -⟩ := List.cons.inj heq
          rw [escapeHtml, byteLen_append] at hlo
          omega
    · rw [byteLen_escapeChar] at hle
      obtain ⟨m, rfl⟩ := Nat.exists_eq_add_of_le (not_lt.mp hle)
      rw [← byteLen_escapeChar, cut_append, Option.map_eq_none_iff,
        cut_escapeHtml_eq_none_iff s m (by omega)]
      constructor
      · rintro ⟨before, a, after, rfl, hlo, hhi⟩
        refine ⟨c :: before, a, after, rfl, ?_, ?_⟩ <;>
          rw [escapeHtml, byteLen_append] <;> omega
      · rintro ⟨before, a, after, heq, hlo, hhi⟩
        cases before with
        | nil =>
          obtain ⟨rfl, -⟩ := List.cons.inj heq
          simp only [escapeHtml, byteLen_nil] at hhi
          rw [byteLen_escapeChar] at hhi
          omega
        | cons b before =>
          obtain ⟨rfl, rfl⟩ := List.cons.inj heq
          rw [escapeHtml, byteLen_append] at hlo hhi
          exact ⟨before, a, after, rfl, by omega, by omega⟩

/-- The offset of a text's own length can be cut in the escaped text exactly when the text fits. -/
theorem cut_escapeHtml_isSome_iff (text : Text) :
    (cut (escapeHtml text) (byteLen text)).isSome = true ↔ Fits text := by
  have hlen := byteLen_escapeHtml text
  rw [← Option.ne_none_iff_isSome, ne_eq,
    cut_escapeHtml_eq_none_iff text _ (by omega), Fits]
  constructor
  · rintro h before c after rfl ⟨hlo, hhi⟩
    refine h ⟨before, c, after, rfl, ?_, ?_⟩ <;>
      rw [byteLen_escapeHtml, byteLen_append, byteLen_cons] <;> omega
  · rintro h ⟨before, c, after, rfl, hlo, hhi⟩
    rw [byteLen_escapeHtml, byteLen_append, byteLen_cons] at hlo hhi
    exact h before c after rfl ⟨by omega, by omega⟩

/-! ### Annotations -/

theorem gt_not_mem_marker {encoding : String} (h : '>' ∉ encoding.toList) :
    '>' ∉ marker encoding := by
  have hopening : '>' ∉ "encoding=\"".toList := by decide
  have hclosing : '>' ∉ "\"".toList := by decide
  intro hmem
  rcases List.mem_append.mp hmem with hmem | hmem
  · rcases List.mem_append.mp hmem with hmem | hmem
    · exact hopening hmem
    · exact h hmem
  · exact hclosing hmem

/-- The slices of `annotation` are all at offsets it has just found, so it never panics. -/
theorem annotation_eq {encoding : String} (h : '>' ∉ encoding.toList) (math : Text) :
    annotation math encoding = some (annotationText math encoding) := by
  rw [ annotation, annotationText]
  rcases find_cases (marker encoding) math with ⟨hf, hs⟩ | ⟨before, after, rfl, hf, hs⟩
  · rw [hf, hs]; rfl
  · have hmarked : sliceFrom (before ++ marker encoding ++ after) (byteLen before) =
        some (marker encoding ++ after) := by
      rw [List.append_assoc]; exact sliceFrom_append _ _
    have hgt : find ['>'] (marker encoding ++ after) =
        (find ['>'] after).map (byteLen (marker encoding) + ·) :=
      find_append_of_not_mem _ after (gt_not_mem_marker h)
    rw [hf, hs]
    simp only [hmarked, hgt, Option.bind_eq_bind, Option.bind_some]
    rcases find_cases ['>'] after with ⟨hf', hs'⟩ | ⟨opening, content, rfl, hf', hs'⟩
    · rw [hf', hs']; rfl
    · set prior := before ++ marker encoding ++ opening ++ ['>'] with hprior
      have hstart : byteLen before + (byteLen (marker encoding) + byteLen opening) + 1 =
          byteLen prior := by
        have hone : '>'.utf8Size = 1 := by decide
        simp only [hprior, byteLen_append, byteLen_cons, byteLen_nil, hone]
        omega
      have hwhole : before ++ marker encoding ++ (opening ++ ['>'] ++ content) = prior ++ content := by
        simp [hprior, List.append_assoc]
      rw [hf', hs', hwhole]
      simp only [Option.map_some, hstart, sliceFrom_append, Option.bind_some]
      rcases find_cases "</annotation>".toList content with
        ⟨hf'', hs''⟩ | ⟨inner, rest, rfl, hf'', hs''⟩
      · rw [hf'', hs'']; rfl
      · have hinner := slice_append prior inner ("</annotation>".toList ++ rest)
        rw [hf'', hs'']
        simp only [← List.append_assoc, Option.bind_some] at hinner ⊢
        rw [hinner]
        rfl

theorem replacement_eq (math : Text) : replacement math = some (shownText math) := by
  rw [replacement, shownText, annotation_eq (by decide), annotation_eq (by decide)]
  cases annotationText math "application/x-tex" <;> rfl

/-! ### The loop -/

theorem mathElements_of_none {html : Text} (h : splitOnce "<math".toList html = none) :
    mathElements html = [] := by
  rw [mathElements]
  split <;> simp_all

theorem mathElements_of_open {html before opened : Text}
    (h : splitOnce "<math".toList html = some (before, opened))
    (hopen : splitOnce "</math>".toList opened = none) : mathElements html = [] := by
  rw [mathElements]
  split
  · rfl
  · split <;> simp_all

theorem mathElements_of_close {html before opened body rest : Text}
    (h : splitOnce "<math".toList html = some (before, opened))
    (hclose : splitOnce "</math>".toList opened = some (body, rest)) :
    mathElements html = ("<math".toList ++ body ++ "</math>".toList) :: mathElements rest := by
  rw [mathElements]
  split
  · simp_all
  · split <;> simp_all

/-- The end tag of an element is the first one after its start tag. -/
theorem find_close (opened : Text) : find "</math>".toList ("<math".toList ++ opened) =
    (find "</math>".toList opened).map (byteLen "<math".toList + ·) := by
  have hskip : ∀ (c : Char) (s : Text), c ≠ '/' →
      find "</math>".toList ('<' :: c :: s) = (find "</math>".toList (c :: s)).map (1 + ·) := by
    intro c s hc
    have hno : ("</math>".toList).isPrefixOf ('<' :: c :: s) = false := by
      simp [List.isPrefixOf, hc.symm]
    rw [find, hno]
    rfl
  have htag : find ('<' :: "/math>".toList) ("math".toList ++ opened) =
      (find ('<' :: "/math>".toList) opened).map (byteLen "math".toList + ·) :=
    find_append_of_not_mem _ _ (by decide)
  have hcons := hskip 'm' ("ath".toList ++ opened) (by decide)
  calc find "</math>".toList ("<math".toList ++ opened)
      = (find "</math>".toList ("math".toList ++ opened)).map (1 + ·) := hcons
    _ = ((find "</math>".toList opened).map (byteLen "math".toList + ·)).map (1 + ·) :=
        congrArg (Option.map (1 + ·)) htag
    _ = (find "</math>".toList opened).map (byteLen "<math".toList + ·) := by
        rw [Option.map_map]
        refine congrArg (Option.map · _) (funext fun n => ?_)
        have h1 : byteLen "math".toList = 4 := by decide
        have h2 : byteLen "<math".toList = 5 := by decide
        simp only [Function.comp_apply, h1, h2]
        omega

/-- One turn, with the cursor before a text in which no tag starts: the first element after it is
    replaced by its escaped text, and the cursor moves by the length of the text itself. -/
theorem mathStep_eq (done e rest : Text) (he : '<' ∉ e) :
    mathStep (done ++ e ++ rest) (byteLen done) =
      match splitOnce "<math".toList rest with
      | none => some (done ++ e ++ rest, none)
      | some (before, opened) =>
        match splitOnce "</math>".toList opened with
        | none => some (done ++ e ++ before, none)
        | some (body, after) =>
          let text := shownText ("<math".toList ++ body ++ "</math>".toList)
          some (done ++ e ++ before ++ escapeHtml text ++ after,
            some (byteLen (done ++ e ++ before) + byteLen text)) := by
  have hahead : sliceFrom (done ++ e ++ rest) (byteLen done) = some (e ++ rest) := by
    rw [List.append_assoc]; exact sliceFrom_append _ _
  have hfind : find "<math".toList (e ++ rest) =
      (find "<math".toList rest).map (byteLen e + ·) := find_append_of_not_mem e rest he
  rw [mathStep]
  simp only [hahead, hfind, Option.bind_eq_bind, Option.bind_some]
  rcases find_cases "<math".toList rest with ⟨hf, hs⟩ | ⟨before, opened, rfl, hf, hs⟩
  · rw [hf, hs]; rfl
  · have hstart : byteLen done + (byteLen e + byteLen before) = byteLen (done ++ e ++ before) := by
      simp only [byteLen_append]; omega
    have hwhole : done ++ e ++ (before ++ "<math".toList ++ opened) =
        done ++ e ++ before ++ ("<math".toList ++ opened) := by simp only [List.append_assoc]
    rw [hf, hs, hwhole]
    simp only [Option.map_some, hstart, sliceFrom_append, Option.bind_some, find_close]
    rcases find_cases "</math>".toList opened with ⟨hf', hs'⟩ | ⟨body, after, rfl, hf', hs'⟩
    · rw [hf', hs']
      simp only [Option.map_none, truncate_append, Option.bind_some]
    · have hstop : byteLen (done ++ e ++ before) + (byteLen "<math".toList + byteLen body) +
          byteLen "</math>".toList = byteLen (done ++ e ++ before) +
            byteLen ("<math".toList ++ body ++ "</math>".toList) := by
        simp only [byteLen_append]; omega
      have hmath : done ++ e ++ before ++ ("<math".toList ++ (body ++ "</math>".toList ++ after)) =
          done ++ e ++ before ++ ("<math".toList ++ body ++ "</math>".toList) ++ after := by
        simp only [List.append_assoc]
      rw [hf', hs', hmath]
      simp only [Option.map_some, hstop, slice_append, replaceRange_append, replacement_eq,
        Option.bind_some]

/-- A turn panics when its cursor is inside a character of the escaped text. -/
theorem mathStep_panics (done text rest : Text) (h : ¬ Fits text) :
    mathStep (done ++ escapeHtml text ++ rest) (byteLen done + byteLen text) = none := by
  have hle : byteLen text ≤ byteLen (escapeHtml text) := by rw [byteLen_escapeHtml]; omega
  have hnone : cut (escapeHtml text) (byteLen text) = none := by
    rw [← cut_escapeHtml_isSome_iff, Bool.not_eq_true, Option.isSome_eq_false_iff] at h
    simpa using h
  rw [mathStep, sliceFrom, List.append_assoc, cut_append, cut_append_left _ _ _ hle, hnone]
  rfl

theorem mathLoop_spec : ∀ (fuel : ℕ) (done e rest : Text), '<' ∉ e → rest.length < fuel →
    ((∀ math ∈ mathElements rest, Fits (shownText math)) →
      ∃ out, mathLoop fuel (done ++ e ++ rest) (byteLen done) = .returned out) ∧
    (¬ (∀ math ∈ mathElements rest, Fits (shownText math)) →
      mathLoop fuel (done ++ e ++ rest) (byteLen done) = .panicked)
  | 0, _, _, _, _, h => absurd h (by simp)
  | fuel + 1, done, e, rest, he, hfuel => by
    rw [mathLoop, mathStep_eq done e rest he]
    cases hs : splitOnce "<math".toList rest with
    | none =>
      rw [mathElements_of_none hs]
      exact ⟨fun _ => ⟨_, rfl⟩, fun h => absurd (by simp) h⟩
    | some split =>
      obtain ⟨before, opened⟩ := split
      simp only
      cases hs' : splitOnce "</math>".toList opened with
      | none =>
        rw [mathElements_of_open hs hs']
        exact ⟨fun _ => ⟨_, rfl⟩, fun h => absurd (by simp) h⟩
      | some split =>
        obtain ⟨body, after⟩ := split
        simp only
        rw [mathElements_of_close hs hs', List.forall_mem_cons]
        set text := shownText ("<math".toList ++ body ++ "</math>".toList) with htext
        have hshort : after.length < fuel := by
          rw [splitOnce_eq_some hs, splitOnce_eq_some hs'] at hfuel
          simp only [List.length_append] at hfuel
          have : "<math".toList.length = 5 := by decide
          omega
        by_cases hfits : Fits text
        · obtain ⟨⟨e₁, e₂⟩, hcut⟩ :=
            Option.isSome_iff_exists.mp ((cut_escapeHtml_isSome_iff text).mpr hfits)
          obtain ⟨hesc, hlen⟩ := cut_eq_some_iff.mp hcut
          have he₂ : '<' ∉ e₂ := fun hmem =>
            lt_not_mem_escapeHtml text (hesc ▸ List.mem_append_right _ hmem)
          have ih := mathLoop_spec fuel (done ++ e ++ before ++ e₁) e₂ after he₂ hshort
          rw [byteLen_append, hlen, List.append_assoc _ e₁ e₂, ← hesc] at ih
          exact ⟨fun h => ih.1 h.2, fun h => ih.2 fun hrest => h ⟨hfits, hrest⟩⟩
        · obtain ⟨fuel, rfl⟩ := Nat.exists_eq_add_of_le' (show 1 ≤ fuel by omega)
          rw [mathLoop, mathStep_panics _ text after hfits]
          exact ⟨fun h => absurd h.1 hfits, fun _ => rfl⟩

/-- CORRECT (slices): the rewriting of a remote fragment always ends; it returns exactly when the
    shown text of every complete math element fits, and otherwise slices inside a character. -/
theorem transformed_returns_iff (html : Text) :
    ((∃ out, transformed html = .returned out) ↔
      ∀ math ∈ mathElements (transformHeadings html), Fits (shownText math)) ∧
    transformed html ≠ .running := by
  obtain ⟨hok, hno⟩ := mathLoop_spec _ [] [] (transformHeadings html) (by simp)
    (Nat.lt_succ_self _)
  by_cases h : ∀ math ∈ mathElements (transformHeadings html), Fits (shownText math)
  · obtain ⟨out, hout⟩ := hok h
    have hout : transformed html = .returned out := hout
    rw [hout]
    exact ⟨⟨fun _ => h, fun _ => ⟨out, rfl⟩⟩, by simp⟩
  · have hout : transformed html = .panicked := hno h
    rw [hout]
    exact ⟨⟨fun ⟨_, heq⟩ => absurd heq (by simp), fun h' => absurd h' h⟩, by simp⟩

/-- A remote fragment whose TeX is an ampersand and two accented letters: the cursor comes to stand
    in the first of them. -/
def accentedMath : Text :=
  "<math><annotation encoding=\"application/x-tex\">&éé</annotation></math>".toList

theorem accentedMath_panics :
    ¬ ∀ html : Text, ∃ out, transformed html = .returned out := by
  intro h
  obtain ⟨out, hout⟩ := h accentedMath
  have hpanic : transformed accentedMath = .panicked := by decide
  rw [hpanic] at hout
  exact absurd hout (by simp)

end Rustodon.Html
