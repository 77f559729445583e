import Rustodon.Schemes.Markup
import Rustodon.Html.LocalParts
import Rustodon.Html.Paragraphs

/-! @src mastodon/rest/html.rs | name:Markup of parts | scheme:markup | family:html

    What output is safe, and what the parts of a local text write: escaped characters, and the tags
    of the formatter, with their elements closed. -/

namespace Rustodon.Html
open Schemes.Utf8 Schemes.Markup

/-! ### Safe output -/

/-- The schemes of `strict_builder`. -/
def strictSchemes : List Text :=
  ["http".toList, "https".toList, "dat".toList, "dweb".toList, "ipfs".toList, "ipns".toList,
    "ssb".toList, "gopher".toList, "xmpp".toList, "magnet".toList, "gemini".toList]

def isSchemeChar (c : Char) : Bool := c.isAlpha || c == ':'

def hasStrictScheme (url : Text) : Bool :=
  strictSchemes.any fun scheme => (scheme ++ [':']).isPrefixOf (toAsciiLowercase url)

def quoteStart : Text := "<p class=\"quote-inline\">RE: ".toList

def mentionStart : Text := "<span class=\"h-card\" translate=\"no\"><a href=\"".toList

def mentionMiddle : Text := "\" class=\"u-url mention\">@<span>".toList

def mentionStop : Text := "</span></a></span>".toList

def anchorOpen : Text := "<a href=\"".toList

def hashtagMiddle : Text := "\" class=\"mention hashtag\" rel=\"tag\">#<span>".toList

def anchorStop : Text := "</span></a>".toList

def relStart : Text := "\" target=\"_blank\" rel=\"".toList

def rel (withRelMe : Bool) : Text :=
  (if withRelMe then "nofollow noopener me" else "nofollow noopener").toList

def relStop : Text := "\" translate=\"no\"><span class=\"invisible\">".toList

def linkRel (withRelMe : Bool) : Text := relStart ++ rel withRelMe ++ relStop

def shownStart : Text := "</span><span class=\"".toList

/-- Without a suffix nothing has been cut. -/
def shownClass (whole : Bool) : Text := (if whole then "" else "ellipsis").toList

def shownStop : Text := "\">".toList

def linkShown (whole : Bool) : Text := shownStart ++ shownClass whole ++ shownStop

def linkSuffix : Text := "</span><span class=\"invisible\">".toList

/-- What the formatter writes around escaped text. -/
def templates : List Text :=
  [openTag, closeTag, breakTag, quoteStart, mentionStart, mentionMiddle, mentionStop, anchorOpen,
    hashtagMiddle, anchorStop, linkRel false, linkRel true, linkShown false, linkShown true,
    linkSuffix]

inductive Rendered : Text → Prop where
  | nil : Rendered []
  | escaped (c : Char) {s : Text} : Rendered s → Rendered (escapeChar c ++ s)
  | template {t s : Text} : t ∈ templates → Rendered s → Rendered (t ++ s)

def pTag : Text := "p".toList

def quoteTag : Text := "p class=\"quote-inline\"".toList

def spanTag : Text := "span".toList

def cardTag : Text := "span class=\"h-card\" translate=\"no\"".toList

def invisibleTag : Text := "span class=\"invisible\"".toList

def shownTag (whole : Bool) : Text :=
  (if whole then "span class=\"\"" else "span class=\"ellipsis\"").toList

def brTag : Text := "br /".toList

/-- The contents of tags that open an element. -/
def openingTags : List Text :=
  [pTag, quoteTag, spanTag, cardTag, invisibleTag, shownTag false, shownTag true]

def fixedTags : List Text := openingTags ++ ["/p".toList, "/span".toList, "/a".toList, brTag]

def anchorStart : Text := "a href=\"".toList

def mentionAttributes : Text := "\" class=\"u-url mention\"".toList

def hashtagAttributes : Text := "\" class=\"mention hashtag\" rel=\"tag\"".toList

def linkAttributes (withRelMe : Bool) : Text :=
  relStart ++ rel withRelMe ++ "\" translate=\"no\"".toList

def anchorEnds : List Text :=
  [mentionAttributes, hashtagAttributes, linkAttributes false, linkAttributes true]

def anchorTag (value anchorEnd : Text) : Text := anchorStart ++ value ++ anchorEnd

def IsTemplateTag (tag : Text) : Prop :=
  tag ∈ fixedTags ∨ ∃ value, '"' ∉ value ∧ ∃ anchorEnd ∈ anchorEnds, tag = anchorTag value anchorEnd

def StrictLinks (tags : List Text) : Prop :=
  ∀ tag ∈ tags, ∀ href, hrefOf tag = some href → hasStrictScheme href = true

/-- Escaped text and templates, and all tags are tags of the templates and closed. -/
def Contained (output : Text) : Prop :=
  Rendered output ∧ ∃ tags, tagsOf output = some tags ∧ ∀ tag ∈ tags, IsTemplateTag tag

/-- What is more, its links have allowed schemes. -/
def Safe (output : Text) : Prop :=
  Contained output ∧ ∀ tags, tagsOf output = some tags → StrictLinks tags

theorem Rendered.append {s t : Text} (hs : Rendered s) (ht : Rendered t) : Rendered (s ++ t) := by
  induction hs with
  | nil => exact ht
  | escaped c _ ih =>
    rw [List.append_assoc]
    exact .escaped c ih
  | template hmem _ ih =>
    rw [List.append_assoc]
    exact .template hmem ih

theorem Rendered.of_mem {t : Text} (h : t ∈ templates) : Rendered t := by
  have hrendered := Rendered.template h .nil
  rwa [List.append_nil] at hrendered

theorem rendered_escapeChar (c : Char) : Rendered (escapeChar c) := by
  have hrendered := Rendered.escaped c .nil
  rwa [List.append_nil] at hrendered

theorem rendered_escapeHtml (s : Text) : Rendered (escapeHtml s) := by
  induction s with
  | nil => exact .nil
  | cons c s ih => exact .escaped c ih

theorem plain_escapeChar (c : Char) : Plain (escapeChar c) := by
  rw [escapeChar]
  split_ifs with hamp hlt hgt hquote hsingle
  · decide
  · decide
  · decide
  · decide
  · decide
  · exact List.forall_mem_singleton.mpr ⟨hlt, hgt, hquote⟩

theorem plain_escapeHtml (s : Text) : Plain (escapeHtml s) := by
  induction s with
  | nil => exact nofun
  | cons c s ih => exact (plain_escapeChar c).append ih

theorem quote_not_mem_escapeHtml (s : Text) : '"' ∉ escapeHtml s :=
  fun h => (plain_escapeHtml s _ h).2.2 rfl

/-! ### Schemes -/

theorem isSchemeChar_of_toLower {c : Char} (h : isSchemeChar c.toLower = true) :
    isSchemeChar c = true := by
  by_cases hupper : c.isUpper = true
  · unfold isSchemeChar Char.isAlpha
    rw [hupper, Bool.true_or, Bool.true_or]
  · rwa [toLower_eq_self hupper] at h

theorem isPrefixOf_takeWhile {w : Text} (hw : ∀ d ∈ w, isSchemeChar d = true) (s : Text) :
    w.isPrefixOf (toAsciiLowercase (s.takeWhile isSchemeChar)) =
      w.isPrefixOf (toAsciiLowercase s) := by
  induction w generalizing s with
  | nil => rfl
  | cons d w ih =>
    obtain ⟨hd, hw⟩ := List.forall_mem_cons.mp hw
    cases s with
    | nil => rfl
    | cons c s =>
      by_cases hc : isSchemeChar c = true
      · rw [List.takeWhile_cons_of_pos hc]
        exact congrArg (d == c.toLower && ·) (ih hw s)
      · have hne : (d == c.toLower) = false := by
          rw [beq_eq_false_iff_ne]
          rintro rfl
          exact hc (isSchemeChar_of_toLower hd)
        rw [List.takeWhile_cons_of_neg hc, toAsciiLowercase, toAsciiLowercase, List.map_cons,
          List.isPrefixOf_cons_cons, hne, Bool.false_and]
        rfl

/-- Only the characters of a scheme matter. -/
theorem hasStrictScheme_congr {s t : Text}
    (h : s.takeWhile isSchemeChar = t.takeWhile isSchemeChar) :
    hasStrictScheme s = hasStrictScheme t := by
  have htake (s : Text) : hasStrictScheme (s.takeWhile isSchemeChar) = hasStrictScheme s := by
    have hschemes : ∀ scheme ∈ strictSchemes, ∀ d ∈ scheme ++ [':'], isSchemeChar d = true := by
      decide
    rw [hasStrictScheme, hasStrictScheme, Bool.eq_iff_iff, List.any_eq_true, List.any_eq_true]
    refine exists_congr fun scheme => and_congr_right fun hscheme => ?_
    rw [isPrefixOf_takeWhile (hschemes scheme hscheme)]
  rw [← htake s, h, htake t]

theorem escapeChar_schemeChar {c : Char} (h : isSchemeChar c = true) : escapeChar c = [c] := by
  have hne {d : Char} (hd : isSchemeChar d = false) : c ≠ d := by
    rintro rfl
    rw [hd] at h
    cases h
  rw [escapeChar, if_neg (hne rfl), if_neg (hne rfl), if_neg (hne rfl), if_neg (hne rfl),
    if_neg (hne rfl)]

theorem takeWhile_escapeChar {c : Char} (h : isSchemeChar c = false) (s : Text) :
    (escapeChar c ++ s).takeWhile isSchemeChar = [] := by
  rw [escapeChar]
  split_ifs
  · rfl
  · rfl
  · rfl
  · rfl
  · rfl
  · simp [h]

theorem takeWhile_escapeHtml (s : Text) :
    (escapeHtml s).takeWhile isSchemeChar = s.takeWhile isSchemeChar := by
  induction s with
  | nil => rfl
  | cons c s ih =>
    rw [escapeHtml]
    cases hc : isSchemeChar c with
    | true =>
      rw [escapeChar_schemeChar hc, List.singleton_append, List.takeWhile_cons_of_pos hc, ih,
        List.takeWhile_cons_of_pos hc]
    | false => rw [takeWhile_escapeChar hc, List.takeWhile_cons_of_neg (by simp [hc])]

theorem hasStrictScheme_escapeHtml (s : Text) : hasStrictScheme (escapeHtml s) = hasStrictScheme s :=
  hasStrictScheme_congr (takeWhile_escapeHtml s)

/-! ### What a piece of output does to a reader -/

/-- The tags of a piece of output: what they open and close, and when their links are allowed. -/
def Reads (opened opened' : List Text) (s : Text) (strict : Prop) : Prop :=
  ∃ tags, (∀ before, (Reader.mk .text opened before).read s =
      some ⟨.text, opened', before ++ tags⟩) ∧
    (∀ tag ∈ tags, IsTemplateTag tag) ∧ (StrictLinks tags ↔ strict)

structure Writes (opened opened' : List Text) (s : Text) (strict : Prop) : Prop where
  rendered : Rendered s
  reads : Reads opened opened' s strict

theorem Reads.append {opened opened' opened'' : List Text} {s s' : Text} {strict strict' : Prop}
    (h : Reads opened opened' s strict) (h' : Reads opened' opened'' s' strict') :
    Reads opened opened'' (s ++ s') (strict ∧ strict') := by
  obtain ⟨tags, hread, htemplate, hstrict⟩ := h
  obtain ⟨tags', hread', htemplate', hstrict'⟩ := h'
  refine ⟨tags ++ tags', fun before => ?_, ?_, ?_⟩
  · rw [Reader.read_append, hread, Option.bind_some, hread', List.append_assoc]
  · exact List.forall_mem_append.mpr ⟨htemplate, htemplate'⟩
  · rw [← hstrict, ← hstrict']
    exact List.forall_mem_append

theorem Reads.congr {opened opened' : List Text} {s : Text} {strict strict' : Prop}
    (h : Reads opened opened' s strict) (hiff : strict ↔ strict') :
    Reads opened opened' s strict' := by
  rwa [propext hiff] at h

theorem Writes.append {opened opened' opened'' : List Text} {s s' : Text} {strict strict' : Prop}
    (h : Writes opened opened' s strict) (h' : Writes opened' opened'' s' strict') :
    Writes opened opened'' (s ++ s') (strict ∧ strict') :=
  ⟨h.rendered.append h'.rendered, h.reads.append h'.reads⟩

theorem Writes.congr {opened opened' : List Text} {s : Text} {strict strict' : Prop}
    (h : Writes opened opened' s strict) (hiff : strict ↔ strict') :
    Writes opened opened' s strict' :=
  ⟨h.rendered, h.reads.congr hiff⟩

theorem Writes.contained {s : Text} {strict : Prop} (h : Writes [] [] s strict) : Contained s := by
  obtain ⟨tags, hread, htemplate, -⟩ := h.reads
  refine ⟨h.rendered, tags, ?_, htemplate⟩
  rw [tagsOf, start, hread]
  rfl

theorem Writes.safe_iff {s : Text} {strict : Prop} (h : Writes [] [] s strict) : Safe s ↔ strict := by
  obtain ⟨tags, hread, -, hstrict⟩ := h.reads
  have htags : tagsOf s = some tags := by
    rw [tagsOf, start, hread]
    rfl
  rw [← hstrict]
  constructor
  · rintro ⟨-, hlinks⟩
    exact hlinks tags htags
  · intro hlinks
    refine ⟨h.contained, fun tags' htags' => ?_⟩
    rwa [← Option.some.inj (htags.symm.trans htags')]

theorem reads_plain (opened : List Text) {s : Text} (h : Plain s) : Reads opened opened s True :=
  ⟨[], fun before => by rw [List.append_nil, read_plain h], nofun, iff_of_true nofun trivial⟩

theorem writes_plain (opened : List Text) {s : Text} (hrendered : Rendered s) (h : Plain s) :
    Writes opened opened s True :=
  ⟨hrendered, reads_plain opened h⟩

theorem writes_escapeHtml (opened : List Text) (s : Text) : Writes opened opened (escapeHtml s) True :=
  writes_plain opened (rendered_escapeHtml s) (plain_escapeHtml s)

theorem reads_tag {opened opened' : List Text} {content : Text} (hin : inTag false content = some false)
    (hfinish : ∀ before, (Reader.mk (.tag content false) opened before).finish content =
      some ⟨.text, opened', before ++ [content]⟩) (htemplate : IsTemplateTag content) :
    Reads opened opened' ('<' :: content ++ ['>'])
      (∀ href, hrefOf content = some href → hasStrictScheme href = true) :=
  ⟨[content], fun before => (read_tag hin).trans (hfinish before),
    List.forall_mem_singleton.mpr htemplate, List.forall_mem_singleton⟩

theorem fixedTags_spec : ∀ tag ∈ fixedTags, inTag false tag = some false ∧ hrefOf tag = none := by
  decide

theorem openingTags_spec : ∀ tag ∈ openingTags, tag.head? ≠ some '/' ∧ tag.getLast? ≠ some '/' ∧
    '/' :: tagName tag ∈ fixedTags := by
  decide

theorem anchorEnds_spec : ∀ anchorEnd ∈ anchorEnds, inTag true anchorEnd = some false ∧
    anchorEnd.head? = some '"' ∧ anchorEnd.getLast? = some '"' := by
  decide

theorem reads_fixed {opened opened' : List Text} {content : Text} (hfixed : content ∈ fixedTags)
    (hfinish : ∀ before, (Reader.mk (.tag content false) opened before).finish content =
      some ⟨.text, opened', before ++ [content]⟩) :
    Reads opened opened' ('<' :: content ++ ['>']) True := by
  obtain ⟨hin, hhref⟩ := fixedTags_spec content hfixed
  refine (reads_tag hin hfinish (.inl hfixed)).congr (iff_of_true ?_ trivial)
  intro href h
  rw [hhref] at h
  cases h

/-- A tag and what closes its element. -/
def opening (content : Text) : Text := '<' :: content ++ ['>']

def closing (content : Text) : Text := '<' :: '/' :: tagName content ++ ['>']

def element (content inner : Text) : Text := opening content ++ inner ++ closing content

theorem reads_closing {content : Text} (h : '/' :: tagName content ∈ fixedTags) (opened : List Text) :
    Reads (tagName content :: opened) opened (closing content) True :=
  reads_fixed h fun _ => Reader.finish_close

theorem reads_opening {content : Text} (h : content ∈ openingTags) (opened : List Text) :
    Reads opened (tagName content :: opened) (opening content) True := by
  obtain ⟨hhead, hlast, -⟩ := openingTags_spec content h
  exact reads_fixed (List.mem_append_left _ h) fun before => Reader.finish_open _ hhead hlast

theorem reads_element {content inner : Text} (h : content ∈ openingTags) {opened : List Text}
    {strict : Prop}
    (hinner : Reads (tagName content :: opened) (tagName content :: opened) inner strict) :
    Reads opened opened (element content inner) strict := by
  have hclosing := reads_closing (openingTags_spec content h).2.2 opened
  refine (((reads_opening h opened).append hinner).append hclosing).congr ?_
  rw [true_and, and_true]

theorem inTag_anchorTag {value anchorEnd : Text} (hvalue : '"' ∉ value)
    (hend : anchorEnd ∈ anchorEnds) : inTag false (anchorTag value anchorEnd) = some false := by
  have hstart : inTag false anchorStart = some true := by decide
  have hin := (anchorEnds_spec anchorEnd hend).1
  rw [anchorTag, inTag_append, inTag_append, hstart, Option.bind_some, inTag_quoted hvalue,
    Option.bind_some, hin]

theorem hrefOf_anchorTag {value anchorEnd : Text} (hvalue : '"' ∉ value)
    (hend : anchorEnd ∈ anchorEnds) : hrefOf (anchorTag value anchorEnd) = some value := by
  obtain ⟨rest, rfl⟩ := List.head?_eq_some_iff.mp (anchorEnds_spec anchorEnd hend).2.1
  have hsplit : splitOnce " href=\"".toList (anchorTag value ('"' :: rest)) =
      some ("a".toList, value ++ '"' :: rest) := rfl
  have hall : ∀ c ∈ value, decide (c ≠ '"') = true := by
    intro c hc
    exact decide_eq_true fun h => hvalue (h ▸ hc)
  rw [hrefOf, hsplit, Option.map_some]
  simp only
  rw [List.takeWhile_append_of_pos hall, List.takeWhile_cons_of_neg (by decide), List.append_nil]

def anchorClose : Text := '<' :: '/' :: "a".toList ++ ['>']

theorem closing_anchorTag (value anchorEnd : Text) :
    closing (anchorTag value anchorEnd) = anchorClose := rfl

/-- An anchor has the link of its value. -/
theorem reads_anchor {value anchorEnd inner : Text} (hvalue : '"' ∉ value)
    (hend : anchorEnd ∈ anchorEnds) (hinner : ∀ opened, Reads opened opened inner True)
    (opened : List Text) :
    Reads opened opened (element (anchorTag value anchorEnd) inner) (hasStrictScheme value = true) := by
  obtain ⟨-, hhead, hlast⟩ := anchorEnds_spec anchorEnd hend
  have hfirst : (anchorTag value anchorEnd).head? = some 'a' := rfl
  have hfinal : (anchorTag value anchorEnd).getLast? = some '"' := by
    have hne : anchorEnd ≠ [] := by
      rintro rfl
      cases hhead
    rw [anchorTag, List.getLast?_append_of_ne_nil _ hne, hlast]
  have hopen : Reads opened (tagName (anchorTag value anchorEnd) :: opened)
      (opening (anchorTag value anchorEnd))
      (∀ href, hrefOf (anchorTag value anchorEnd) = some href → hasStrictScheme href = true) := by
    refine reads_tag (inTag_anchorTag hvalue hend) (fun before => ?_)
      (.inr ⟨value, hvalue, anchorEnd, hend, rfl⟩)
    refine Reader.finish_open _ ?_ ?_
    · simp [hfirst]
    · simp [hfinal]
  have hclose : '/' :: tagName (anchorTag value anchorEnd) ∈ fixedTags := by
    have ha : "/a".toList ∈ fixedTags := by simp [fixedTags]
    exact ha
  refine ((hopen.append (hinner _)).append (reads_closing hclose opened)).congr ?_
  rw [hrefOf_anchorTag hvalue hend]
  constructor
  · rintro ⟨⟨hstrict, -⟩, -⟩
    exact hstrict value rfl
  · intro hstrict
    refine ⟨⟨fun href h => ?_, trivial⟩, trivial⟩
    rwa [← Option.some.inj h]

/-! ### Parts -/

theorem reads_span {content : Text} (h : content ∈ openingTags) (text : Text) (opened : List Text) :
    Reads opened opened (element content (escapeHtml text)) True :=
  reads_element h (reads_plain _ (plain_escapeHtml text))

/-- A mention with what has become of its URL. -/
def mentionMarkup (value display : Text) : Text :=
  mentionStart ++ value ++ mentionMiddle ++ escapeHtml display ++ mentionStop

theorem mentionMarkup_eq (value display : Text) : mentionMarkup value display =
    element cardTag (element (anchorTag value mentionAttributes)
      ("@".toList ++ element spanTag (escapeHtml display))) := by
  have hstart : mentionStart = opening cardTag ++ '<' :: anchorStart := by decide
  have hmiddle : mentionMiddle = mentionAttributes ++ ('>' :: "@".toList) ++ opening spanTag := by
    decide
  have hstop : mentionStop = closing spanTag ++ anchorClose ++ closing cardTag := by decide
  rw [mentionMarkup, hstart, hmiddle, hstop]
  simp only [element]
  rw [closing_anchorTag]
  simp only [opening, anchorTag, List.append_assoc, List.cons_append, List.nil_append]

theorem hashtagHtml_pieces (url tag : Text) : hashtagHtml url tag =
    anchorOpen ++ escapeHtml url ++ hashtagMiddle ++ escapeHtml tag ++ anchorStop := rfl

theorem hashtagHtml_eq (url tag : Text) : hashtagHtml url tag =
    element (anchorTag (escapeHtml url) hashtagAttributes)
      ("#".toList ++ element spanTag (escapeHtml tag)) := by
  have hstart : anchorOpen = '<' :: anchorStart := by decide
  have hmiddle : hashtagMiddle = hashtagAttributes ++ ('>' :: "#".toList) ++ opening spanTag := by
    decide
  have hstop : anchorStop = closing spanTag ++ anchorClose := by decide
  rw [hashtagHtml_pieces, hstart, hmiddle, hstop]
  simp only [element]
  rw [closing_anchorTag]
  simp only [opening, anchorTag, List.append_assoc, List.cons_append, List.nil_append]

theorem linkHtml_pieces (url shownPrefix display suffix : Text) (withRelMe : Bool) :
    linkHtml url shownPrefix display suffix withRelMe =
      anchorOpen ++ escapeHtml url ++ linkRel withRelMe ++ escapeHtml shownPrefix ++
        linkShown suffix.isEmpty ++ escapeHtml display ++ linkSuffix ++ escapeHtml suffix ++
        anchorStop := by
  have h : linkHtml url shownPrefix display suffix withRelMe =
      anchorOpen ++ escapeHtml url ++ relStart ++ rel withRelMe ++ relStop ++
        escapeHtml shownPrefix ++ shownStart ++ shownClass suffix.isEmpty ++ shownStop ++
        escapeHtml display ++ linkSuffix ++ escapeHtml suffix ++ anchorStop := rfl
  rw [h]
  simp only [linkRel, linkShown, List.append_assoc]

theorem linkHtml_eq (url shownPrefix display suffix : Text) (withRelMe : Bool) :
    linkHtml url shownPrefix display suffix withRelMe =
      element (anchorTag (escapeHtml url) (linkAttributes withRelMe))
        (element invisibleTag (escapeHtml shownPrefix) ++
          element (shownTag suffix.isEmpty) (escapeHtml display) ++
          element invisibleTag (escapeHtml suffix)) := by
  have hstart : anchorOpen = '<' :: anchorStart := by decide
  have hrel : linkRel withRelMe = linkAttributes withRelMe ++ '>' :: opening invisibleTag := by
    cases withRelMe <;> decide
  have hshown : linkShown suffix.isEmpty =
      closing invisibleTag ++ opening (shownTag suffix.isEmpty) := by
    cases suffix.isEmpty <;> decide
  have hsuffix : linkSuffix = closing (shownTag suffix.isEmpty) ++ opening invisibleTag := by
    cases suffix.isEmpty <;> decide
  have hstop : anchorStop = closing invisibleTag ++ anchorClose := by decide
  rw [linkHtml_pieces, hstart, hrel, hshown, hsuffix, hstop]
  simp only [element]
  rw [closing_anchorTag]
  simp only [opening, anchorTag, List.append_assoc, List.cons_append, List.nil_append]

theorem writes_mentionMarkup {value : Text} (hrendered : Rendered value) (hvalue : '"' ∉ value)
    (display : Text) (opened : List Text) :
    Writes opened opened (mentionMarkup value display) (hasStrictScheme value = true) where
  rendered := by
    have hstart : Rendered mentionStart := .of_mem (by simp [templates])
    have hmiddle : Rendered mentionMiddle := .of_mem (by simp [templates])
    have hstop : Rendered mentionStop := .of_mem (by simp [templates])
    exact (((hstart.append hrendered).append hmiddle).append (rendered_escapeHtml display)).append
      hstop
  reads := by
    rw [mentionMarkup_eq]
    refine reads_element (by simp [openingTags]) (reads_anchor hvalue (by simp [anchorEnds])
      (fun opened => ?_) _)
    exact ((reads_plain opened (by decide)).append
      (reads_span (by simp [openingTags]) display opened)).congr (iff_of_eq (and_true _))

theorem writes_hashtagHtml (url tag : Text) (opened : List Text) :
    Writes opened opened (hashtagHtml url tag) (hasStrictScheme url = true) where
  rendered := by
    have hstart : Rendered anchorOpen := .of_mem (by simp [templates])
    have hmiddle : Rendered hashtagMiddle := .of_mem (by simp [templates])
    have hstop : Rendered anchorStop := .of_mem (by simp [templates])
    exact (((hstart.append (rendered_escapeHtml url)).append hmiddle).append
      (rendered_escapeHtml tag)).append hstop
  reads := by
    rw [hashtagHtml_eq, ← hasStrictScheme_escapeHtml url]
    refine reads_anchor (quote_not_mem_escapeHtml url) (by simp [anchorEnds]) (fun opened => ?_) _
    exact ((reads_plain opened (by decide)).append
      (reads_span (by simp [openingTags]) tag opened)).congr (iff_of_eq (and_true _))

theorem shownTag_mem (whole : Bool) : shownTag whole ∈ openingTags := by
  cases whole <;> simp [openingTags]

theorem writes_linkHtml (url shownPrefix display suffix : Text) (withRelMe : Bool)
    (opened : List Text) :
    Writes opened opened (linkHtml url shownPrefix display suffix withRelMe)
      (hasStrictScheme url = true) where
  rendered := by
    have hstart : Rendered anchorOpen := .of_mem (by simp [templates])
    have hrel : Rendered (linkRel withRelMe) := .of_mem (by cases withRelMe <;> simp [templates])
    have hshown : Rendered (linkShown suffix.isEmpty) :=
      .of_mem (by cases suffix.isEmpty <;> simp [templates])
    have hsuffix : Rendered linkSuffix := .of_mem (by simp [templates])
    have hstop : Rendered anchorStop := .of_mem (by simp [templates])
    rw [linkHtml_pieces]
    exact (((((((hstart.append (rendered_escapeHtml url)).append hrel).append
      (rendered_escapeHtml shownPrefix)).append hshown).append (rendered_escapeHtml display)).append
      hsuffix).append (rendered_escapeHtml suffix)).append hstop
  reads := by
    rw [linkHtml_eq, ← hasStrictScheme_escapeHtml url]
    refine reads_anchor (quote_not_mem_escapeHtml url) (by cases withRelMe <;> simp [anchorEnds])
      (fun opened => ?_) _
    have hinvisible (text : Text) := reads_span (by simp [openingTags] : invisibleTag ∈ openingTags)
      text opened
    have hshown := reads_span (shownTag_mem suffix.isEmpty) display opened
    exact (((hinvisible shownPrefix).append hshown).append (hinvisible suffix)).congr (by simp)

theorem writes_quoteHtml {link : Text} {strict : Prop}
    (hlink : ∀ opened, Writes opened opened link strict) (opened : List Text) :
    Writes opened opened (quoteHtml link) strict where
  rendered := by
    have hstart : Rendered quoteStart := .of_mem (by simp [templates])
    have hstop : Rendered closeTag := .of_mem (by simp [templates])
    exact (hstart.append (hlink []).rendered).append hstop
  reads := by
    have h : quoteHtml link = element quoteTag ("RE: ".toList ++ link) := by
      have hstart : quoteStart = opening quoteTag ++ "RE: ".toList := by decide
      have hstop : closeTag = closing quoteTag := by decide
      rw [element, ← hstop, ← List.append_assoc, ← hstart]
      rfl
    rw [h]
    refine reads_element (by simp [openingTags]) ?_
    exact ((reads_plain _ (by decide)).append (hlink _).reads).congr (iff_of_eq (true_and _))

/-- The URL of a part that has one. -/
def Part.href : Part → Option Text
  | .plain _ => none
  | .link url => some url
  | .mention url _ => some url
  | .hashtag url _ => some url

def Part.Strict (part : Part) : Prop := ∀ url, part.href = some url → hasStrictScheme url = true

theorem Part.strict_iff {part : Part} {url : Text} (h : part.href = some url) :
    part.Strict ↔ hasStrictScheme url = true := by
  rw [Part.Strict, h]
  constructor
  · intro hstrict
    exact hstrict url rfl
  · intro hstrict url' heq
    rwa [← Option.some.inj heq]

theorem writes_part (withRelMe : Bool) (part : Part) (opened : List Text) :
    Writes opened opened (part.html withRelMe) part.Strict := by
  cases part with
  | plain text => exact (writes_escapeHtml opened text).congr (iff_of_true trivial nofun)
  | link url => exact (writes_linkHtml ..).congr (Part.strict_iff rfl).symm
  | mention url display =>
    rw [Part.strict_iff rfl, ← hasStrictScheme_escapeHtml url]
    exact writes_mentionMarkup (rendered_escapeHtml url) (quote_not_mem_escapeHtml url) display opened
  | hashtag url tag => exact (writes_hashtagHtml url tag opened).congr (Part.strict_iff rfl).symm

theorem writes_parts (withRelMe : Bool) (parts : List Part) (opened : List Text) :
    Writes opened opened (parts.flatMap (Part.html withRelMe)) (∀ part ∈ parts, part.Strict) := by
  induction parts with
  | nil => exact (writes_escapeHtml opened []).congr (iff_of_true trivial nofun)
  | cons part parts ih =>
    rw [List.flatMap_cons]
    exact ((writes_part withRelMe part opened).append ih).congr List.forall_mem_cons.symm

end Rustodon.Html
