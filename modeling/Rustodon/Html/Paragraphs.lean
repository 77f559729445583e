import Rustodon.Html.Local

/-! @src mastodon/rest/html.rs | name:Paragraphs | scheme:fold | family:html

    `simple_format` as one pass over the characters. It keeps whether a paragraph is open, whether a
    line feed has not been written yet, and whether the last character was a carriage return. -/

namespace Rustodon.Html
open Schemes.Utf8

structure Flow where
  inside : Bool
  pending : Bool
  returned : Bool
  deriving DecidableEq, Repr

def Flow.start : Flow := ⟨false, false, false⟩

/-- In a paragraph, with nothing kept. -/
def Flow.open : Flow := ⟨true, false, false⟩

def openTag : Text := "<p>".toList

def closeTag : Text := "</p>".toList

def breakTag : Text := "<br />".toList

/-- The second of two line feeds closes the paragraph. -/
def Flow.lineFeed (s : Flow) (returned : Bool) : Text × Flow :=
  if s.pending then (if s.inside then closeTag else [], ⟨false, false, returned⟩)
  else ([], ⟨s.inside, true, returned⟩)

/-- What comes before any other character. -/
def Flow.flush (s : Flow) : Text :=
  (if s.inside then [] else openTag) ++ if s.pending then breakTag else []

def Flow.step (s : Flow) (c : Char) : Text × Flow :=
  if c = '\r' then s.lineFeed true
  else if c = '\n' then
    if s.returned then ([], { s with returned := false }) else s.lineFeed false
  else (s.flush ++ [c], .open)

def Flow.run (s : Flow) : Text → Text × Flow
  | [] => ([], s)
  | c :: rest =>
    let (out, next) := s.step c
    let (out', last) := next.run rest
    (out ++ out', last)

/-- What closes the last paragraph. -/
def Flow.finish (s : Flow) : Text :=
  if s.pending then s.flush ++ closeTag else if s.inside then closeTag else []

def Flow.all (s : Flow) (text : Text) : Text := (s.run text).1 ++ (s.run text).2.finish

theorem Flow.all_cons (s : Flow) (c : Char) (rest : Text) :
    s.all (c :: rest) = (s.step c).1 ++ (s.step c).2.all rest := by
  simp [Flow.all, Flow.run]

theorem Flow.run_append (s : Flow) (a b : Text) :
    s.run (a ++ b) = ((s.run a).1 ++ ((s.run a).2.run b).1, ((s.run a).2.run b).2) := by
  induction a generalizing s with
  | nil => rfl
  | cons c a ih => simp [Flow.run, ih]

/-! ### Line ends -/

/-- The text with every line end as a line feed. -/
def lineFeeds : Text → Text
  | '\r' :: '\n' :: rest => '\n' :: lineFeeds rest
  | c :: rest => (if c = '\r' then '\n' else c) :: lineFeeds rest
  | [] => []

theorem replace_cons {pattern new rest : Text} {c : Char} (h : pattern.isPrefixOf (c :: rest) = false) :
    replace pattern new (c :: rest) = c :: replace pattern new rest := by
  rw [replace, replaceFrom, h]
  rfl

theorem replace_char (c : Char) (new text : Text) :
    replace [c] new text = text.flatMap fun d => if d = c then new else [d] := by
  induction text with
  | nil => rfl
  | cons d text ih =>
    by_cases h : d = c
    · subst h
      rw [replace, replaceFrom, if_pos (by simp), List.flatMap_cons, if_pos rfl, ← ih]
      rfl
    · have hnot : ([c] : Text).isPrefixOf (d :: text) = false := by
        simpa [List.isPrefixOf] using fun h' => h h'.symm
      rw [replace_cons hnot, ih, List.flatMap_cons, if_neg h]
      rfl

theorem replace_lineFeeds (text : Text) :
    replace ['\r'] ['\n'] (replace ['\r', '\n'] ['\n'] text) = lineFeeds text := by
  rw [replace_char]
  induction text using lineFeeds.induct with
  | case1 rest ih =>
    have hreplace : replace ['\r', '\n'] ['\n'] ('\r' :: '\n' :: rest) =
        '\n' :: replace ['\r', '\n'] ['\n'] rest := rfl
    rw [hreplace, List.flatMap_cons, ih, lineFeeds]
    rfl
  | case2 c rest hpair ih =>
    have hnot : (['\r', '\n'] : Text).isPrefixOf (c :: rest) = false := by
      rw [Bool.eq_false_iff]
      intro h
      obtain ⟨after, hafter⟩ := List.isPrefixOf_iff_prefix.mp h
      obtain ⟨rfl, rfl⟩ := List.cons.inj hafter
      exact hpair after rfl rfl
    rw [replace_cons hnot, List.flatMap_cons, ih, lineFeeds]
    · split_ifs <;> rfl
    · exact hpair
  | case3 => rfl

/-- What is kept of a carriage return matters before a line feed only. -/
theorem Flow.all_returned {s : Flow} {text : Text} (h : text.head? ≠ some '\n') (returned : Bool) :
    Flow.all { s with returned := returned } text = s.all text := by
  cases text with
  | nil => rfl
  | cons c text =>
    have hc : c ≠ '\n' := fun heq => h (by rw [heq]; rfl)
    simp only [Flow.all_cons, Flow.step, if_neg hc]
    rfl

theorem Flow.all_lineFeeds {s : Flow} (h : s.returned = false) (text : Text) :
    s.all (lineFeeds text) = s.all text := by
  induction text using lineFeeds.induct generalizing s with
  | case1 rest ih =>
    obtain ⟨inside, pending, returned⟩ := s
    obtain rfl : returned = false := h
    rw [lineFeeds, Flow.all_cons, Flow.all_cons, Flow.all_cons]
    cases pending with
    | true => simp [Flow.step, Flow.lineFeed, ih]
    | false => simp [Flow.step, Flow.lineFeed, ih]
  | case2 c rest hpair ih =>
    have hcons : lineFeeds (c :: rest) = (if c = '\r' then '\n' else c) :: lineFeeds rest := by
      rw [lineFeeds]
      exact hpair
    rw [hcons, Flow.all_cons, Flow.all_cons]
    by_cases hreturn : c = '\r'
    · subst hreturn
      have hhead : rest.head? ≠ some '\n' := by
        intro hhead
        obtain ⟨after, rfl⟩ := List.head?_eq_some_iff.mp hhead
        exact hpair after rfl rfl
      obtain ⟨inside, pending, returned⟩ := s
      obtain rfl : returned = false := h
      cases pending with
      | true =>
        have hkept := @Flow.all_returned ⟨false, false, false⟩ rest hhead true
        simp [Flow.step, Flow.lineFeed, ih, hkept]
      | false =>
        have hkept := @Flow.all_returned ⟨inside, true, false⟩ rest hhead true
        simp [Flow.step, Flow.lineFeed, ih, hkept]
    · have hnext : (s.step c).2.returned = false := by
        rw [Flow.step, if_neg hreturn]
        split_ifs
        · rfl
        · rw [Flow.lineFeed]
          split_ifs <;> rfl
        · rfl
      rw [if_neg hreturn, ih hnext]
  | case3 => rfl

/-! ### Paragraphs -/

def paragraphText (paragraph : Text) : Text := replace ['\n'] breakTag paragraph

def paragraphsText (paragraphs : List Text) : Text :=
  (paragraphs.filter fun paragraph => !paragraph.isEmpty).flatMap fun paragraph =>
    openTag ++ paragraphText paragraph ++ closeTag

theorem paragraphText_cons {c : Char} (h : c ≠ '\n') (rest : Text) :
    paragraphText (c :: rest) = c :: paragraphText rest := by
  rw [paragraphText, replace_char, List.flatMap_cons, if_neg h, paragraphText, replace_char]
  rfl

theorem paragraphText_feed (rest : Text) :
    paragraphText ('\n' :: rest) = breakTag ++ paragraphText rest := by
  rw [paragraphText, replace_char, List.flatMap_cons, if_pos rfl, paragraphText, replace_char]

theorem paragraphsText_cons {paragraph : Text} (h : paragraph ≠ []) (paragraphs : List Text) :
    paragraphsText (paragraph :: paragraphs) =
      openTag ++ paragraphText paragraph ++ closeTag ++ paragraphsText paragraphs := by
  have hne : (!paragraph.isEmpty) = true := by simpa using h
  rw [paragraphsText, List.filter_cons, if_pos hne, List.flatMap_cons, paragraphsText]

theorem paragraphsText_nil_cons (paragraphs : List Text) :
    paragraphsText ([] :: paragraphs) = paragraphsText paragraphs := rfl

theorem splitParagraphs_ne_nil (text : Text) : splitParagraphs text ≠ [] := by
  induction text using splitParagraphs.induct with
  | case1 rest ih => exact List.cons_ne_nil _ _
  | case2 c rest hpair hnil ih => exact absurd hnil ih
  | case3 c rest hpair paragraph paragraphs heq ih =>
    rw [splitParagraphs, heq]
    · exact List.cons_ne_nil _ _
    · exact hpair
  | case4 => exact List.cons_ne_nil _ _

/-- A line feed that is kept is written before another character. -/
theorem Flow.all_pending {text : Text} (hfeed : text.head? ≠ some '\n') (hreturn : '\r' ∉ text)
    (inside : Bool) : Flow.all ⟨inside, true, false⟩ text =
      (if inside then [] else openTag) ++ breakTag ++ Flow.open.all text := by
  cases text with
  | nil => cases inside <;> rfl
  | cons c text =>
    have hc : c ≠ '\n' := fun h => hfeed (h ▸ rfl)
    have hc' : c ≠ '\r' := fun h => hreturn (h ▸ List.mem_cons_self)
    rw [Flow.all_cons, Flow.all_cons]
    simp [Flow.step, hc, hc', Flow.flush, Flow.open]

/-- The pass writes the pieces between two line feeds. -/
theorem Flow.all_paragraphs {text : Text} (hreturn : '\r' ∉ text) :
    Flow.start.all text = paragraphsText (splitParagraphs text) ∧
      ∃ paragraph paragraphs, splitParagraphs text = paragraph :: paragraphs ∧
        Flow.open.all text = paragraphText paragraph ++ closeTag ++ paragraphsText paragraphs := by
  induction text using splitParagraphs.induct with
  | case1 rest ih =>
    have hrest : '\r' ∉ rest := fun h => hreturn (by simp [h])
    obtain ⟨hstart, -⟩ := ih hrest
    rw [splitParagraphs]
    refine ⟨?_, [], splitParagraphs rest, rfl, ?_⟩
    · rw [Flow.all_cons, Flow.all_cons, paragraphsText_nil_cons, ← hstart]
      rfl
    · rw [Flow.all_cons, Flow.all_cons, ← hstart]
      rfl
  | case2 c rest hpair hnil ih => exact absurd hnil (splitParagraphs_ne_nil rest)
  | case3 c rest hpair paragraph paragraphs heq ih =>
    have hrest : '\r' ∉ rest := fun h => hreturn (List.mem_cons_of_mem c h)
    obtain ⟨-, paragraph', paragraphs', heq', hopen⟩ := ih hrest
    obtain ⟨rfl, rfl⟩ := List.cons.inj (heq.symm.trans heq')
    have hsplit : splitParagraphs (c :: rest) = (c :: paragraph) :: paragraphs := by
      rw [splitParagraphs, heq]
      exact hpair
    have hne : c :: paragraph ≠ [] := List.cons_ne_nil c paragraph
    rw [hsplit, paragraphsText_cons hne]
    by_cases hc : c = '\n'
    · subst hc
      have hhead : rest.head? ≠ some '\n' := by
        intro hhead
        obtain ⟨after, rfl⟩ := List.head?_eq_some_iff.mp hhead
        exact hpair after rfl rfl
      have hpending (inside : Bool) := Flow.all_pending hhead hrest inside
      refine ⟨?_, _, _, rfl, ?_⟩
      · rw [Flow.all_cons, paragraphText_feed]
        simp [Flow.step, Flow.lineFeed, Flow.start, hpending, hopen]
      · rw [Flow.all_cons, paragraphText_feed]
        simp [Flow.step, Flow.lineFeed, Flow.open, hpending]
        simpa [Flow.open] using hopen
    · have hc' : c ≠ '\r' := fun h => hreturn (h ▸ List.mem_cons_self)
      refine ⟨?_, _, _, rfl, ?_⟩
      · rw [Flow.all_cons, paragraphText_cons hc]
        simp [Flow.step, hc, hc', Flow.flush, Flow.start, hopen]
      · rw [Flow.all_cons, paragraphText_cons hc]
        simp [Flow.step, hc, hc', Flow.flush]
        simpa [Flow.open] using hopen
  | case4 => exact ⟨rfl, [], [], rfl, rfl⟩

theorem not_mem_lineFeeds (text : Text) : '\r' ∉ lineFeeds text := by
  induction text using lineFeeds.induct with
  | case1 rest ih =>
    rw [lineFeeds, List.mem_cons, not_or]
    exact ⟨by decide, ih⟩
  | case2 c rest hpair ih =>
    rw [lineFeeds, List.mem_cons, not_or]
    · refine ⟨?_, ih⟩
      split_ifs with hc
      · decide
      · exact fun h => hc h.symm
    · exact hpair
  | case3 => exact List.not_mem_nil

theorem simpleFormat_eq (html : Text) :
    simpleFormat html = if (trim html).isEmpty then [] else Flow.start.all html := by
  have h := (Flow.all_paragraphs (not_mem_lineFeeds html)).1
  rw [Flow.all_lineFeeds rfl] at h
  rw [simpleFormat, replace_lineFeeds, h]
  rfl

end Rustodon.Html
