import Rustodon.Html.PartMarkup

/-! @src mastodon/rest/html.rs | name:Safety of local text | scheme:markup | family:html

    Whatever a local text says, its HTML is made of escaped characters and of the tags that the
    formatter writes, and all its elements are closed. Nothing restricts the schemes of its links,
    as `strict_builder` does for remote HTML. -/

namespace Rustodon.Html
open Schemes.Utf8 Schemes.Markup

/-! ### Paragraphs -/

def Flow.opened (s : Flow) : List Text := if s.inside then [pTag] else []

theorem writes_openTag (opened : List Text) : Writes opened (pTag :: opened) openTag True where
  rendered := .of_mem (by simp [templates])
  reads := by
    have h : openTag = opening pTag := by decide
    rw [h]
    exact reads_opening (by simp [openingTags]) opened

theorem writes_closeTag (opened : List Text) : Writes (pTag :: opened) opened closeTag True where
  rendered := .of_mem (by simp [templates])
  reads := by
    have h : closeTag = closing pTag := by decide
    rw [h]
    exact reads_closing (openingTags_spec pTag (by simp [openingTags])).2.2 opened

theorem writes_breakTag (opened : List Text) : Writes opened opened breakTag True where
  rendered := .of_mem (by simp [templates])
  reads := by
    have h : breakTag = opening brTag := by decide
    have hends : brTag.head? ≠ some '/' ∧ brTag.getLast? = some '/' := by decide
    rw [h]
    exact reads_fixed (by simp [fixedTags]) fun before => Reader.finish_void _ hends.1 hends.2

theorem writes_nil (opened : List Text) : Writes opened opened [] True := writes_escapeHtml opened []

theorem Flow.writes_flush (s : Flow) : Writes s.opened [pTag] s.flush True := by
  have hbreak : Writes [pTag] [pTag] (if s.pending then breakTag else []) True := by
    split_ifs
    · exact writes_breakTag _
    · exact writes_nil _
  have hopen : Writes s.opened [pTag] (if s.inside then [] else openTag) True := by
    rw [Flow.opened]
    split_ifs
    · exact writes_nil _
    · exact writes_openTag _
  exact (hopen.append hbreak).congr (iff_of_eq (and_true _))

theorem Flow.writes_lineFeed (s : Flow) (returned : Bool) :
    Writes s.opened (s.lineFeed returned).2.opened (s.lineFeed returned).1 True := by
  obtain ⟨inside, pending, _⟩ := s
  cases pending with
  | false => exact writes_nil _
  | true =>
    cases inside with
    | false => exact writes_nil []
    | true => exact writes_closeTag []

/-- A line end, which is kept or closes the paragraph. -/
theorem Flow.writes_lineEnd (s : Flow) {c : Char} (h : c = '\r' ∨ c = '\n') :
    Writes s.opened (s.step c).2.opened (s.step c).1 True := by
  rw [Flow.step]
  split_ifs with hreturn hfeed hreturned
  · exact s.writes_lineFeed true
  · exact writes_nil _
  · exact s.writes_lineFeed false
  · exact absurd h (not_or.mpr ⟨hreturn, hfeed⟩)

theorem Flow.writes_finish (s : Flow) : Writes s.opened [] s.finish True := by
  rw [Flow.finish]
  split_ifs with hpending hinside
  · exact (s.writes_flush.append (writes_closeTag [])).congr (iff_of_eq (and_true _))
  · rw [Flow.opened, if_pos hinside]
    exact writes_closeTag []
  · rw [Flow.opened, if_neg hinside]
    exact writes_nil []

theorem Flow.step_char {c : Char} (hreturn : c ≠ '\r') (hfeed : c ≠ '\n') (s : Flow) :
    s.step c = (s.flush ++ [c], .open) := by
  rw [Flow.step, if_neg hreturn, if_neg hfeed]

/-- A text on a line is written at once. -/
theorem Flow.run_oneLine {text : Text} (h : OneLine text) (hne : text ≠ []) (s : Flow) :
    s.run text = (s.flush ++ text, .open) := by
  induction text generalizing s with
  | nil => exact absurd rfl hne
  | cons c text ih =>
    obtain ⟨⟨hreturn, hfeed⟩, htext⟩ := List.forall_mem_cons.mp h
    rw [Flow.run, Flow.step_char hreturn hfeed]
    simp only
    cases text with
    | nil => simp [Flow.run]
    | cons d text =>
      rw [ih htext (List.cons_ne_nil d text)]
      simp [Flow.flush, Flow.open]

theorem escapeChar_ne_nil (c : Char) : escapeChar c ≠ [] := by
  rw [escapeChar]
  split_ifs <;> simp

theorem oneLine_escapeChar {c : Char} (hreturn : c ≠ '\r') (hfeed : c ≠ '\n') :
    OneLine (escapeChar c) := by
  rw [escapeChar]
  split_ifs
  · decide
  · decide
  · decide
  · decide
  · decide
  · exact List.forall_mem_singleton.mpr ⟨hreturn, hfeed⟩

theorem Flow.run_lineEnd {c : Char} (h : c = '\r' ∨ c = '\n') (s : Flow) :
    s.run (escapeChar c) = s.step c := by
  rcases h with rfl | rfl
  · simp [escapeChar, Flow.run]
  · simp [escapeChar, Flow.run]

theorem Flow.run_escapeChar {c : Char} (h : ¬ (c = '\r' ∨ c = '\n')) (s : Flow) :
    s.run (escapeChar c) = (s.flush ++ escapeChar c, .open) := by
  rw [not_or] at h
  exact Flow.run_oneLine (oneLine_escapeChar h.1 h.2) (escapeChar_ne_nil c) s

/-- What escaped text becomes is made of its pieces and of the tags of paragraphs. -/
theorem Flow.run_escapeHtml {P : Text → Prop} (hnil : P [])
    (happend : ∀ {s t}, P s → P t → P (s ++ t)) (htags : P openTag ∧ P closeTag ∧ P breakTag)
    (hchar : ∀ c, P (escapeChar c)) (s : Flow) (text : Text) :
    P (s.run (escapeHtml text)).1 ∧ P (s.run (escapeHtml text)).2.flush := by
  obtain ⟨hopen, hclose, hbreak⟩ := htags
  have hflush (s : Flow) : P s.flush := by
    refine happend ?_ ?_
    · split_ifs
      · exact hnil
      · exact hopen
    · split_ifs
      · exact hbreak
      · exact hnil
  have hlineFeed (s : Flow) (returned : Bool) : P (s.lineFeed returned).1 := by
    rw [Flow.lineFeed]
    split_ifs
    · exact hclose
    · exact hnil
    · exact hnil
  refine ⟨?_, hflush _⟩
  induction text generalizing s with
  | nil => exact hnil
  | cons c text ih =>
    rw [escapeHtml, Flow.run_append]
    refine happend ?_ (ih _)
    by_cases hend : c = '\r' ∨ c = '\n'
    · rw [Flow.run_lineEnd hend, Flow.step]
      split_ifs
      · exact hlineFeed s true
      · exact hnil
      · exact hlineFeed s false
      · exact happend (hflush s) (by
          rcases hend with rfl | rfl
          · exact hchar '\r'
          · exact hchar '\n')
    · rw [Flow.run_escapeChar hend]
      exact happend (hflush s) (hchar c)

/-- The value of an attribute is written with line breaks, which stay in its quotes. -/
def flowValue (value : Text) : Text := (Flow.open.run value).1 ++ (Flow.open.run value).2.flush

theorem rendered_flowValue (url : Text) : Rendered (flowValue (escapeHtml url)) := by
  have hopen : Rendered openTag := .of_mem (by simp [templates])
  have hclose : Rendered closeTag := .of_mem (by simp [templates])
  have hbreak : Rendered breakTag := .of_mem (by simp [templates])
  obtain ⟨hout, hflush⟩ := @Flow.run_escapeHtml Rendered .nil Rendered.append
    ⟨hopen, hclose, hbreak⟩ rendered_escapeChar Flow.open url
  exact hout.append hflush

theorem quote_not_mem_flowValue (url : Text) : '"' ∉ flowValue (escapeHtml url) := by
  have happend {s t : Text} (hs : '"' ∉ s) (ht : '"' ∉ t) : '"' ∉ s ++ t := by
    rw [List.mem_append]
    exact not_or.mpr ⟨hs, ht⟩
  obtain ⟨hout, hflush⟩ := @Flow.run_escapeHtml ('"' ∉ ·) List.not_mem_nil happend (by decide)
    (fun c h => (plain_escapeChar c _ h).2.2 rfl) Flow.open url
  exact happend hout hflush

/-- Behind a line end the output goes on with a tag. -/
theorem Flow.run_pending (s : Flow) (h : s.inside = false ∨ s.pending = true) (text : Text) :
    ∃ rest, (s.run text).1 ++ (s.run text).2.flush = '<' :: rest := by
  induction text generalizing s with
  | nil =>
    obtain ⟨inside, pending, _⟩ := s
    cases inside with
    | false => exact ⟨_, rfl⟩
    | true =>
      obtain rfl : pending = true := by simpa using h
      exact ⟨_, rfl⟩
  | cons c text ih =>
    have hlineFeed (returned : Bool) : ∃ rest, (s.lineFeed returned).1 ++
        (((s.lineFeed returned).2.run text).1 ++ ((s.lineFeed returned).2.run text).2.flush) =
          '<' :: rest := by
      obtain ⟨inside, pending, _⟩ := s
      cases pending with
      | false => exact ih ⟨inside, true, returned⟩ (.inr rfl)
      | true =>
        cases inside with
        | false => exact ih ⟨false, false, returned⟩ (.inl rfl)
        | true => exact ⟨_, rfl⟩
    rw [Flow.run]
    simp only [List.append_assoc]
    rw [Flow.step]
    split_ifs with hreturn hfeed hreturned
    · exact hlineFeed true
    · exact ih _ h
    · exact hlineFeed false
    · obtain ⟨inside, pending, _⟩ := s
      cases inside with
      | false => exact ⟨_, rfl⟩
      | true =>
        obtain rfl : pending = true := by simpa using h
        exact ⟨_, rfl⟩

theorem takeWhile_flowValue (value : Text) :
    (flowValue value).takeWhile isSchemeChar = value.takeWhile isSchemeChar := by
  induction value with
  | nil => rfl
  | cons c value ih =>
    by_cases hend : c = '\r' ∨ c = '\n'
    · have hpending : ∃ rest, flowValue (c :: value) = '<' :: rest := by
        rcases hend with rfl | rfl
        · exact Flow.run_pending ⟨true, true, true⟩ (.inr rfl) value
        · exact Flow.run_pending ⟨true, true, false⟩ (.inr rfl) value
      obtain ⟨rest, hrest⟩ := hpending
      have hc : isSchemeChar c = false := by
        rcases hend with rfl | rfl <;> rfl
      rw [hrest, List.takeWhile_cons_of_neg (by decide), List.takeWhile_cons_of_neg (by simp [hc])]
    · rw [not_or] at hend
      have hcons : flowValue (c :: value) = c :: flowValue value := by
        rw [flowValue, Flow.run, Flow.step_char hend.1 hend.2]
        rfl
      rw [hcons, List.takeWhile_cons, List.takeWhile_cons, ih]

theorem hasStrictScheme_flowValue (url : Text) :
    hasStrictScheme (flowValue (escapeHtml url)) = hasStrictScheme url :=
  (hasStrictScheme_congr (takeWhile_flowValue _)).trans (hasStrictScheme_escapeHtml url)

/-! ### Parts in paragraphs -/

theorem Flow.writes_escapeHtml (s : Flow) (text : Text) :
    Writes s.opened (s.run (escapeHtml text)).2.opened (s.run (escapeHtml text)).1 True := by
  induction text generalizing s with
  | nil => exact writes_nil s.opened
  | cons c text ih =>
    rw [escapeHtml, Flow.run_append]
    refine Writes.congr (Writes.append ?_ (ih _)) (iff_of_eq (and_true True))
    by_cases hend : c = '\r' ∨ c = '\n'
    · rw [Flow.run_lineEnd hend]
      exact s.writes_lineEnd hend
    · rw [Flow.run_escapeChar hend]
      exact (s.writes_flush.append (writes_plain _ (rendered_escapeChar c) (plain_escapeChar c))).congr
        (iff_of_eq (and_true True))

theorem Flow.writes_oneLine {text : Text} {strict : Prop} (h : OneLine text) (hne : text ≠ [])
    (hwrites : ∀ opened, Writes opened opened text strict) (s : Flow) :
    Writes s.opened (s.run text).2.opened (s.run text).1 strict := by
  rw [Flow.run_oneLine h hne]
  exact (s.writes_flush.append (hwrites _)).congr (iff_of_eq (true_and _))

theorem oneLine_escapeHtml {text : Text} (h : OneLine text) : OneLine (escapeHtml text) := by
  induction text with
  | nil => exact h
  | cons c text ih =>
    obtain ⟨⟨hreturn, hfeed⟩, htext⟩ := List.forall_mem_cons.mp h
    exact (oneLine_escapeChar hreturn hfeed).append (ih htext)

theorem oneLine_template : ∀ template ∈ templates, OneLine template := by
  decide

theorem oneLine_hashtagHtml {url tag : Text} (hurl : OneLine url) (htag : OneLine tag) :
    OneLine (hashtagHtml url tag) := by
  have hstart := oneLine_template anchorOpen (by simp [templates])
  have hmiddle := oneLine_template hashtagMiddle (by simp [templates])
  have hstop := oneLine_template anchorStop (by simp [templates])
  exact (((hstart.append (oneLine_escapeHtml hurl)).append hmiddle).append
    (oneLine_escapeHtml htag)).append hstop

theorem oneLine_shortened {url : Text} (h : OneLine url) : OneLine (shortened url).1 ∧
    OneLine (shortened url).2.1 ∧ OneLine (shortened url).2.2 := by
  have hshownPrefix : OneLine ((linkPrefixes.find? (·.isPrefixOf url)).getD []) := by
    have hprefixes : ∀ shown ∈ linkPrefixes, OneLine shown := by decide
    cases hfind : linkPrefixes.find? (·.isPrefixOf url) with
    | none => exact List.forall_mem_nil _
    | some shown => exact hprefixes shown (List.mem_of_find?_eq_some hfind)
  have hremainder (n : ℕ) : OneLine (url.drop n) := fun c hc => h c (List.mem_of_mem_drop hc)
  rw [shortened]
  split_ifs
  · exact ⟨hshownPrefix, hremainder _, List.forall_mem_nil _⟩
  · exact ⟨hshownPrefix, fun c hc => hremainder _ c (List.mem_of_mem_take hc),
      fun c hc => hremainder _ c (List.mem_of_mem_drop hc)⟩

theorem oneLine_linkHtml {url shownPrefix display suffix : Text} (hurl : OneLine url)
    (hshownPrefix : OneLine shownPrefix) (hdisplay : OneLine display) (hsuffix : OneLine suffix)
    (withRelMe : Bool) : OneLine (linkHtml url shownPrefix display suffix withRelMe) := by
  have hstart := oneLine_template anchorOpen (by simp [templates])
  have hrel := oneLine_template (linkRel withRelMe) (by cases withRelMe <;> simp [templates])
  have hshown := oneLine_template (linkShown suffix.isEmpty)
    (by cases suffix.isEmpty <;> simp [templates])
  have hsuffix' := oneLine_template linkSuffix (by simp [templates])
  have hstop := oneLine_template anchorStop (by simp [templates])
  rw [linkHtml_pieces]
  exact (((((((hstart.append (oneLine_escapeHtml hurl)).append hrel).append
    (oneLine_escapeHtml hshownPrefix)).append hshown).append (oneLine_escapeHtml hdisplay)).append
    hsuffix').append (oneLine_escapeHtml hsuffix)).append hstop

/-- The line breaks of a mention are in the value of its link. -/
theorem Flow.run_mentionHtml {display : Text} (hdisplay : OneLine display) (url : Text) (s : Flow) :
    s.run (mentionHtml url display) =
      (s.flush ++ mentionMarkup (flowValue (escapeHtml url)) display, .open) := by
  have hstart : OneLine mentionStart := oneLine_template _ (by simp [templates])
  have hmiddle : OneLine mentionMiddle := oneLine_template _ (by simp [templates])
  have hstop : OneLine mentionStop := oneLine_template _ (by simp [templates])
  have hrest : OneLine (mentionMiddle ++ escapeHtml display ++ mentionStop) :=
    (hmiddle.append (oneLine_escapeHtml hdisplay)).append hstop
  have hne : mentionStart ≠ [] := by decide
  have hne' : mentionMiddle ++ escapeHtml display ++ mentionStop ≠ [] := by
    have hmiddle : mentionMiddle ≠ [] := by decide
    simp [hmiddle]
  have hpieces : mentionHtml url display = mentionStart ++ (escapeHtml url ++
      (mentionMiddle ++ escapeHtml display ++ mentionStop)) := by
    have h : mentionHtml url display = mentionMarkup (escapeHtml url) display := rfl
    rw [h, mentionMarkup]
    simp only [List.append_assoc]
  rw [hpieces, Flow.run_append, Flow.run_oneLine hstart hne, Flow.run_append,
    Flow.run_oneLine hrest hne']
  simp only [mentionMarkup, flowValue, List.append_assoc]

theorem lt_mem_html {part : Part} {url : Text} (h : part.href = some url) (withRelMe : Bool) :
    '<' ∈ part.html withRelMe := by
  have hanchor : '<' ∈ anchorOpen := by decide
  have hmention : '<' ∈ mentionStart := by decide
  cases part with
  | plain text => cases h
  | link url =>
    rw [Part.html, linkHtml_pieces]
    simp only [List.append_assoc]
    exact List.mem_append_left _ hanchor
  | mention url display =>
    have hmarkup : '<' ∈ mentionMarkup (escapeHtml url) display := by
      rw [mentionMarkup]
      simp only [List.append_assoc]
      exact List.mem_append_left _ hmention
    exact hmarkup
  | hashtag url tag =>
    rw [Part.html, hashtagHtml_pieces]
    simp only [List.append_assoc]
    exact List.mem_append_left _ hanchor

theorem Flow.writes_html {part : Part} (h : part.Settled) (withRelMe : Bool) (s : Flow) :
    Writes s.opened (s.run (part.html withRelMe)).2.opened (s.run (part.html withRelMe)).1
      part.Strict := by
  cases part with
  | plain text => exact (s.writes_escapeHtml text).congr (iff_of_true trivial nofun)
  | link url =>
    obtain ⟨hshownPrefix, hdisplay, hsuffix⟩ := oneLine_shortened h
    have hne : (Part.link url).html withRelMe ≠ [] := List.ne_nil_of_mem (lt_mem_html rfl withRelMe)
    exact Flow.writes_oneLine (oneLine_linkHtml h hshownPrefix hdisplay hsuffix withRelMe) hne
      (writes_part withRelMe (.link url)) s
  | mention url display =>
    rw [Part.html, Flow.run_mentionHtml h, Part.strict_iff rfl, ← hasStrictScheme_flowValue]
    have hmention := writes_mentionMarkup (rendered_flowValue url) (quote_not_mem_flowValue url)
      display [pTag]
    exact (s.writes_flush.append hmention).congr (iff_of_eq (true_and _))
  | hashtag url tag =>
    have hne : (Part.hashtag url tag).html withRelMe ≠ [] :=
      List.ne_nil_of_mem (lt_mem_html rfl withRelMe)
    exact Flow.writes_oneLine (oneLine_hashtagHtml h.1 h.2) hne
      (writes_part withRelMe (.hashtag url tag)) s

theorem Flow.writes_all {parts : List Part} (h : ∀ part ∈ parts, part.Settled) (withRelMe : Bool)
    (s : Flow) :
    Writes s.opened [] (s.all (parts.flatMap (Part.html withRelMe))) (∀ part ∈ parts, part.Strict) := by
  induction parts generalizing s with
  | nil => exact s.writes_finish.congr (iff_of_true trivial nofun)
  | cons part parts ih =>
    obtain ⟨hpart, hparts⟩ := List.forall_mem_cons.mp h
    have hrest := ih hparts (s.run (part.html withRelMe)).2
    have hall : s.all ((part :: parts).flatMap (Part.html withRelMe)) =
        (s.run (part.html withRelMe)).1 ++
          (s.run (part.html withRelMe)).2.all (parts.flatMap (Part.html withRelMe)) := by
      rw [List.flatMap_cons, Flow.all, Flow.run_append, Flow.all, List.append_assoc]
    rw [hall]
    exact ((s.writes_html hpart withRelMe).append hrest).congr List.forall_mem_cons.symm

/-! ### Local text -/

theorem all_isWhitespace_of_trim {s : Text} (h : (trim s).isEmpty = true) :
    ∀ c ∈ s, isWhitespace c = true := by
  have hstart {s : Text} (h : trimStart s = []) : ∀ c ∈ s, isWhitespace c = true :=
    List.dropWhile_eq_nil_iff.mp h
  have hempty : trimStart (trimStart s).reverse = [] := by
    simpa [trim, List.isEmpty_iff] using h
  have hall := hstart hempty
  refine hstart ?_
  cases htrim : trimStart s with
  | nil => rfl
  | cons c rest =>
    have hc : isWhitespace c = true := hall c (by simp [htrim])
    have hnot := List.head?_dropWhile_not isWhitespace s
    rw [trimStart] at htrim
    rw [htrim] at hnot
    simp [hc] at hnot

theorem writes_simpleFormat {parts : List Part} (h : ∀ part ∈ parts, part.Settled)
    (withRelMe : Bool) :
    Writes [] [] (simpleFormat (parts.flatMap (Part.html withRelMe))) (∀ part ∈ parts, part.Strict) := by
  rw [simpleFormat_eq]
  split_ifs with hempty
  · refine (writes_nil []).congr (iff_of_true trivial ?_)
    intro part hpart url hurl
    have hlt : '<' ∈ parts.flatMap (Part.html withRelMe) :=
      List.mem_flatMap.mpr ⟨part, hpart, lt_mem_html hurl withRelMe⟩
    have hwhite := all_isWhitespace_of_trim hempty '<' hlt
    cases hwhite
  · exact Flow.start.writes_all h withRelMe

/-- The formatter returns HTML that is contained, and safe under a condition. -/
def Returns (output : Option Text) (strict : Prop) : Prop :=
  ∃ html, output = some html ∧ Contained html ∧ (Safe html ↔ strict)

theorem Writes.returns {html : Text} {strict : Prop} (h : Writes [] [] html strict) :
    Returns (some html) strict := ⟨html, rfl, h.contained, h.safe_iff⟩

section Local

variable (f : HtmlFormatter) (mentions : List MentionTarget) (text : Text)

/-- Every URL that the text links to starts with an allowed scheme. -/
def StrictText (displayDomains : Bool) : Prop :=
  ∀ part ∈ localParts f mentions displayDomains text, part.Strict

/-- The URL of a quote, when the text does not show it already. -/
def quoteUrl (quotedStatusUrl : Option Text) : Option Text :=
  quotedStatusUrl.filter fun url => !url.isEmpty &&
    !contains url (simpleFormat ((localParts f mentions true text).flatMap (Part.html false)))

variable {f mentions text}

theorem localInline_returns (hf : f.Lawful) (displayDomains withRelMe : Bool) :
    Returns (linkifyLocal f text mentions displayDomains withRelMe)
      (StrictText f mentions text displayDomains) := by
  rw [linkifyLocal_eq hf]
  exact (writes_parts withRelMe _ []).returns

theorem localParagraphs_returns (hf : f.Lawful) (displayDomains withRelMe : Bool) :
    Returns ((linkifyLocal f text mentions displayDomains withRelMe).map simpleFormat)
      (StrictText f mentions text displayDomains) := by
  rw [linkifyLocal_eq hf]
  exact (writes_simpleFormat (localParts_settled hf text) withRelMe).returns

theorem localText_returns (hf : f.Lawful) (quotedStatusUrl : Option Text) :
    Returns (localText f text mentions quotedStatusUrl) (StrictText f mentions text true ∧
      ∀ url, quoteUrl f mentions text quotedStatusUrl = some url → hasStrictScheme url = true) := by
  have hparagraphs := writes_simpleFormat (@localParts_settled f mentions true hf text) false
  rw [localText, linkifyLocal_eq hf]
  simp only [Option.bind_eq_bind, Option.bind_some]
  rw [quoteUrl]
  split
  · rename_i hnone
    rw [hnone]
    exact (hparagraphs.congr (iff_of_eq (and_iff_left nofun).eq.symm)).returns
  · rename_i url hsome
    rw [hsome, shortenedLink_eq]
    have hquote := writes_quoteHtml (writes_part false (.link url)) []
    refine ((hquote.append hparagraphs).congr ?_).returns
    rw [Part.strict_iff rfl, and_comm]
    refine and_congr_right fun _ => ⟨fun hstrict url' heq => ?_, fun hstrict => hstrict url rfl⟩
    rwa [← Option.some.inj heq]

/-- CORRECT (when): each of the five functions returns, and its HTML is escaped text in templates with
    all tags closed. It is safe if and only if every URL that is linked to has a strict scheme. -/
theorem local_text_safe_iff (hf : f.Lawful) (quotedStatusUrl : Option Text) :
    Returns (localText f text mentions quotedStatusUrl) (StrictText f mentions text true ∧
      ∀ url, quoteUrl f mentions text quotedStatusUrl = some url → hasStrictScheme url = true) ∧
    Returns (announcementText f text mentions) (StrictText f mentions text false) ∧
    Returns (localInline f text mentions) (StrictText f mentions text true) ∧
    Returns (localProfileText f text mentions) (StrictText f mentions text false) ∧
    Returns (localProfileInline f text mentions) (StrictText f mentions text true) :=
  ⟨localText_returns hf quotedStatusUrl, localParagraphs_returns hf false false,
    localInline_returns hf true false, localParagraphs_returns hf false false,
    localInline_returns hf true true⟩

end Local

/-! ### A link that is not safe -/

def scriptLink : Text := "javascript://%0aalert(1)".toList

/-- A formatter that finds the one link. -/
def sampleFormatter : HtmlFormatter where
  join path := some ("https://local.example/".toList ++ path)
  localDomain := "local.example".toList
  links text := if text = scriptLink then [(0, 24)] else []
  domainToUnicode domain := domain
  isAlphanumeric := Char.isAlphanum
  isAlphabetic := Char.isAlpha

theorem sampleFormatter_lawful : sampleFormatter.Lawful where
  links text := by
    by_cases h : text = scriptLink
    · have hlink : IsLink scriptLink :=
        ⟨by decide, "javascript".toList, "%0aalert(1)".toList, by decide,
          by decide, by decide⟩
      refine ⟨[([], scriptLink)], [], ?_, ?_, List.forall_mem_singleton.mpr hlink⟩
      · rw [h]
        simp [textOf]
      · have hspans : spansOf 0 [([], scriptLink)] = [(0, 24)] := by decide
        rw [hspans]
        exact if_pos h
    · exact ⟨[], text, rfl, if_neg h, List.forall_mem_nil _⟩
  join_oneLine path url hpath hurl := by
    obtain rfl := Option.some.inj hurl
    have horigin : OneLine "https://local.example/".toList := by decide
    exact horigin.append hpath
  unicode_oneLine _ h := h
  alphanumeric := by decide

theorem local_text_safe_iff_sample :
    Returns (localText sampleFormatter scriptLink [] none) (StrictText sampleFormatter [] scriptLink true ∧
      ∀ url, quoteUrl sampleFormatter [] scriptLink none = some url → hasStrictScheme url = true) :=
  (local_text_safe_iff sampleFormatter_lawful none).1

/-- The browser runs what follows the scheme. -/
theorem scriptLink_not_safe : ¬ ∀ f : HtmlFormatter, f.Lawful →
    ∀ (text : Text) (mentions : List MentionTarget) (quotedStatusUrl : Option Text) (html : Text),
      localText f text mentions quotedStatusUrl = some html → Safe html := by
  intro hsafe
  obtain ⟨html, hreturns, -, hiff⟩ :=
    @localText_returns sampleFormatter [] scriptLink sampleFormatter_lawful none
  have hstrict := (hiff.mp (hsafe _ sampleFormatter_lawful _ _ _ _ hreturns)).1
  have hparts : localParts sampleFormatter [] true scriptLink =
      [.plain [], .link scriptLink, .plain []] := by decide
  have hlink : hasStrictScheme scriptLink = true := by
    refine hstrict (.link scriptLink) ?_ scriptLink rfl
    rw [hparts]
    simp
  have hnot : hasStrictScheme scriptLink = false := by decide
  rw [hnot] at hlink
  cases hlink

end Rustodon.Html
