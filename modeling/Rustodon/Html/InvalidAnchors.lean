import Rustodon.Html.Sanitized

/-! @src mastodon/rest/html.rs | name:Invalid anchors | scheme:passing | family:html

    Tags and values are passed by the searches piece by piece, so that a search which no value misleads
    finds the anchor that it is after. -/

namespace Rustodon.Html
open Schemes.Utf8 Schemes.Passing

variable {tag : String} {tail : Text}

/-! ### Pieces of tags -/

theorem strictTags_passed : ∀ tag ∈ strictTags, tag ≠ "a" → ∀ pattern ∈ ["<a".toList, "</a>".toList],
    Passes pattern ('<' :: tag.toList) ∧ Passes pattern (closingTag tag) := by
  decide

theorem strictTags_noEnd : ∀ tag ∈ strictTags, '>' ∉ tag.toList := by decide

def attributeNames : List String :=
  ["lang", "href", "class", "translate", "start", "reversed", "value", "rel", "target"]

theorem mem_attributeNames {name : String} (h : name ∈ allowedAttributes tag) :
    name ∈ attributeNames := by
  rcases List.mem_cons.mp h with rfl | h
  · decide
  · rcases List.mem_append.mp h with h | h
    · cases hfound : tagAttributes.lookup tag with
      | none =>
        rw [hfound] at h
        cases h
      | some names =>
        rw [hfound, Option.getD_some] at h
        obtain ⟨before, after, hentries, -⟩ := List.lookup_eq_some_iff.mp hfound
        have hentry : (tag, names) ∈ tagAttributes := hentries ▸ by simp
        exact (by decide : ∀ entry ∈ tagAttributes, ∀ name ∈ entry.2, name ∈ attributeNames)
          _ hentry name h
    · have hadded : ∀ name ∈ ["rel", "target"], name ∈ attributeNames := by decide
      rw [addedAttributes] at h
      split_ifs at h
      · exact hadded name h
      · cases h

theorem attributeNames_start : ∀ name ∈ attributeNames,
    '<' ∉ attributeStart name ∧ '>' ∉ attributeStart name := by
  decide

theorem attributeNames_passed : ∀ name ∈ attributeNames, name ≠ "href" →
    Passes " href=\"".toList (attributeStart name) := by
  decide

theorem Attribute.noEnd {written : Attribute tag} (h : '>' ∉ written.value) : '>' ∉ written.html := by
  have hstart := (attributeNames_start _ (mem_attributeNames written.allowed)).2
  have hvalue := mem_escapeValue.not.mpr h
  simp [Attribute.html, hstart, hvalue]

/-- An attribute is passed when the start of a tag is not in its value. -/
theorem Attribute.passes {written : Attribute tag} (hamp : '&' ∉ tail) (hquote : '"' ∉ tail)
    (h : ¬ '<' :: tail <:+: written.value) : Passes ('<' :: tail) written.html := by
  have hstart := (attributeNames_start _ (mem_attributeNames written.allowed)).1
  exact (passes_of_not_mem hstart).append
    (passes_quoted (by simp [hquote]) fun hin => h (infix_of_escapeValue hamp hin))

/-- The address is not found in another attribute whose value does not end like one. -/
theorem Attribute.passes_address {written : Attribute tag} (hname : written.name ≠ "href")
    (h : ¬ " href=".toList <:+ written.value) : Passes " href=\"".toList written.html :=
  (attributeNames_passed _ (mem_attributeNames written.allowed) hname).append
    (@passes_quoted_end " href=".toList '"' (by decide) _ (quote_not_mem_escapeValue _) fun hend =>
      h (suffix_of_escapeValue (by decide) hend))

theorem Attributes.passes {attributes : Attributes tag} (hamp : '&' ∉ tail) (hquote : '"' ∉ tail)
    (h : attributes.Values fun value => ¬ '<' :: tail <:+: value) :
    Passes ('<' :: tail) attributes.html :=
  passes_flatMap fun written hwritten => written.passes hamp hquote (h written hwritten)

theorem Attributes.noEnd {attributes : Attributes tag} (h : attributes.Values fun value => '>' ∉ value) :
    '>' ∉ attributes.html := by
  rw [Attributes.html, List.mem_flatMap]
  rintro ⟨written, hwritten, hmem⟩
  exact Attribute.noEnd (h written hwritten) hmem

/-! ### Content without anchors -/

theorem passes_escapeText (shown : Text) : Passes ('<' :: tail) (escapeText shown) :=
  passes_of_not_mem fun hmem => (escapeText_noBrackets shown _ hmem).1 rfl

/-- The tags that open are passed when nothing in their values looks like the tag of an anchor. -/
theorem openingTag_passes {attributes : Attributes tag} (htag : tag ∈ strictTags) (hne : tag ≠ "a")
    (hpattern : '<' :: tail ∈ ["<a".toList, "</a>".toList])
    (h : attributes.Values fun value => ¬ '<' :: tail <:+: value) :
    Passes ('<' :: tail) (openingTag tag attributes) := by
  have hplain : '&' ∉ '<' :: tail ∧ '"' ∉ '<' :: tail ∧ '<' ∉ tail := by
    rcases List.mem_pair.mp hpattern with heq | heq
    · obtain rfl := (List.cons_eq_cons.mp heq).2
      decide
    · obtain rfl := (List.cons_eq_cons.mp heq).2
      decide
  obtain ⟨hamp, hquote, -⟩ := hplain
  rw [List.mem_cons, not_or] at hamp hquote
  exact (strictTags_passed tag htag hne _ hpattern).1.append
    ((Attributes.passes hamp.2 hquote.2 h).append (passes_of_not_mem (by decide)))

theorem Content.passes_close : ∀ {content : Content},
    (content.Values fun value => ¬ "</a>".toList <:+: value) → Passes "</a>".toList content.html
  | .nil, _ => trivial
  | .text shown rest, h => (passes_escapeText shown).append (rest.passes_close h)
  | .lineBreak attributes rest, h =>
    (openingTag_passes (by decide) (by decide) (by decide) h.1).append (rest.passes_close h.2)
  | .element tag attributes children rest, h =>
    (openingTag_passes tag.2.1 tag.2.2.1 (by decide) h.1).append ((children.passes_close h.2.1).append
      ((strictTags_passed _ tag.2.1 tag.2.2.1 _ (by decide)).2.append (rest.passes_close h.2.2)))

theorem Content.Values.imp {p q : Text → Prop} (h : ∀ value, p value → q value) {content : Content}
    (hp : content.Values p) : content.Values q := by
  induction content with
  | nil => trivial
  | text shown rest ih => exact ih hp
  | lineBreak attributes rest ih => exact ⟨fun written hw => h _ (hp.1 written hw), ih hp.2⟩
  | element tag attributes children rest ihChildren ih =>
    exact ⟨fun written hw => h _ (hp.1 written hw), ihChildren hp.2.1, ih hp.2.2⟩

/-! ### Taking tags out -/

theorem stripTagsFrom_tag : ∀ {content : Text}, '>' ∉ content → ∀ rest,
    stripTagsFrom true (content ++ '>' :: rest) = stripTagsFrom false rest
  | [], _, rest => by simp [stripTagsFrom]
  | c :: content, h, rest => by
    rw [List.mem_cons, not_or] at h
    have ih := stripTagsFrom_tag h.2 rest
    by_cases hless : c = '<'
    · simp [stripTagsFrom, hless, ih]
    · simp [stripTagsFrom, hless, Ne.symm h.1, ih]

theorem stripTags_tag {content : Text} (h : '>' ∉ content) (rest : Text) :
    stripTags ('<' :: (content ++ '>' :: rest)) = stripTags rest := by
  rw [stripTags, stripTagsFrom, if_pos rfl, stripTagsFrom_tag h]
  rfl

theorem stripTags_text : ∀ {text : Text}, (∀ c ∈ text, c ≠ '<' ∧ c ≠ '>') → ∀ rest,
    stripTags (text ++ rest) = text ++ stripTags rest
  | [], _, _ => rfl
  | c :: text, h, rest => by
    obtain ⟨hless, hmore⟩ := h c List.mem_cons_self
    have ih := stripTags_text (fun d hd => h d (List.mem_cons_of_mem _ hd)) rest
    rw [stripTags] at ih ⊢
    simp [stripTagsFrom, hless, hmore, ih]

theorem stripTags_openingTag {attributes : Attributes tag} (htag : tag ∈ strictTags)
    (h : attributes.Values fun value => '>' ∉ value) (rest : Text) :
    stripTags (openingTag tag attributes ++ rest) = stripTags rest := by
  have hcontent : '>' ∉ tag.toList ++ attributes.html := by
    rw [List.mem_append, not_or]
    exact ⟨strictTags_noEnd tag htag, attributes.noEnd h⟩
  have hwritten : openingTag tag attributes ++ rest =
      '<' :: ((tag.toList ++ attributes.html) ++ '>' :: rest) := by
    simp [openingTag]
  rw [hwritten, stripTags_tag hcontent]

theorem stripTags_closingTag (htag : tag ∈ strictTags) (rest : Text) :
    stripTags (closingTag tag ++ rest) = stripTags rest := by
  have hcontent : '>' ∉ '/' :: tag.toList := by simp [strictTags_noEnd tag htag]
  have hwritten : closingTag tag ++ rest = '<' :: (('/' :: tag.toList) ++ '>' :: rest) := by
    simp [closingTag]
  rw [hwritten, stripTags_tag hcontent]

/-- Of content whose values have no end of a tag the text is left. -/
theorem Content.stripTags_html : ∀ {content : Content}, (content.Values fun value => '>' ∉ value) →
    ∀ rest, stripTags (content.html ++ rest) = escapeText content.shown ++ stripTags rest
  | .nil, _, _ => rfl
  | .text shown rest, h, after => by
    rw [Content.html, List.append_assoc, stripTags_text (escapeText_noBrackets shown),
      rest.stripTags_html h, Content.shown, escapeText, escapeText, escapeText, List.flatMap_append,
      List.append_assoc]
  | .lineBreak attributes rest, h, after => by
    rw [Content.html, List.append_assoc, stripTags_openingTag (by decide) h.1, rest.stripTags_html h.2]
    rfl
  | .element tag attributes children rest, h, after => by
    rw [Content.html, List.append_assoc, stripTags_openingTag tag.2.1 h.1, List.append_assoc,
      children.stripTags_html h.2.1, List.append_assoc, stripTags_closingTag tag.2.1,
      rest.stripTags_html h.2.2, Content.shown, escapeText, escapeText, escapeText, List.flatMap_append,
      List.append_assoc]

/-! ### The pass -/

/-- The pass puts out what it passes. -/
theorem stripInvalidAnchors_append {piece : Text} (h : Passes "<a".toList piece) (rest : Text) :
    stripInvalidAnchors (piece ++ rest) = piece ++ stripInvalidAnchors rest := by
  have hstep : anchorStep (piece ++ rest) =
      (anchorStep rest).map fun found => (piece ++ found.1, found.2) := by
    rw [anchorStep, anchorStep, h.splitOnce_append]
    cases splitOnce "<a".toList rest with
    | none => rfl
    | some split =>
      simp only [Option.bind_eq_bind, Option.map_some, Option.bind_some]
      cases anchorAt split.2 <;> simp
  cases hrest : anchorStep rest with
  | none =>
    rw [hrest] at hstep
    rw [stripInvalidAnchors_none hstep, stripInvalidAnchors_none hrest]
  | some found =>
    rw [hrest] at hstep
    rw [stripInvalidAnchors_some hstep, stripInvalidAnchors_some hrest, List.append_assoc]

theorem stripInvalidAnchors_anchor {opened output rest : Text} (h : anchorAt opened = some (output, rest)) :
    stripInvalidAnchors ("<a".toList ++ opened) = output ++ stripInvalidAnchors rest := by
  refine stripInvalidAnchors_some ?_
  rw [anchorStep, splitOnce_self (by decide)]
  simp [h]

/-- An anchor with an address has attributes from the address on. -/
theorem exists_address {attributes : List (Attribute "a")}
    (hhref : attributes.any (fun written => written.name == "href") = true) :
    ∃ address after, attributes.dropWhile (·.name ≠ "href") = address :: after ∧
      address.name = "href" := by
  induction attributes with
  | nil => cases hhref
  | cons written attributes ih =>
    by_cases hname : written.name = "href"
    · exact ⟨written, attributes, by simp [hname], hname⟩
    · simp only [List.any_cons, Bool.or_eq_true, beq_iff_eq, hname, false_or] at hhref
      simpa [hname] using ih hhref

/-- Where its end is found, an anchor with an address stays. -/
theorem anchorAt_address {attributes : Attributes "a"} {children : Content}
    (hhref : attributes.hasHref = true) (h : AddressFound attributes children) (rest : Text) :
    anchorAt (attributes.html ++ '>' :: (children.html ++ ("</a>".toList ++ rest))) =
      some ("<a".toList ++ (attributes.html ++ '>' :: (children.html ++ "</a>".toList)), rest) := by
  obtain ⟨hbefore, hafter, hchildren⟩ := h
  obtain ⟨address, after, hdrop, hname⟩ := exists_address hhref
  rw [hdrop] at hafter
  let start := (attributes.list.takeWhile (·.name ≠ "href")).flatMap Attribute.html
  let valueOn := escapeValue address.value ++ ['"'] ++ (after.flatMap Attribute.html ++
    '>' :: children.html)
  have hstart : '>' ∉ start ++ " href=\"".toList := by
    rw [List.mem_append, not_or, List.mem_flatMap]
    refine ⟨?_, by decide⟩
    rintro ⟨written, hwritten, hmem⟩
    exact Attribute.noEnd (hbefore written hwritten) hmem
  have hwhole : attributes.html ++ '>' :: children.html = start ++ (" href=\"".toList ++ valueOn) := by
    have hsplit : attributes.html = start ++ (address :: after).flatMap Attribute.html := by
      rw [← hdrop, ← List.flatMap_append, List.takeWhile_append_dropWhile]
      rfl
    rw [hsplit, List.flatMap_cons, Attribute.html, hname]
    simp [valueOn, attributeStart]
  have hpassed : Passes "</a>".toList valueOn := by
    refine (passes_quoted (by decide) fun hin => hafter address List.mem_cons_self
      (infix_of_escapeValue (by decide) hin)).append ((passes_flatMap fun written hwritten => ?_).append ?_)
    · exact written.passes (by decide) (by decide) (hafter written (List.mem_cons_of_mem _ hwritten))
    · exact ⟨by simp, Content.passes_close hchildren⟩
  obtain ⟨inside, inner, hends⟩ : ∃ inside inner, splitOnce ['>'] valueOn = some (inside, inner) := by
    cases hends : splitOnce ['>'] valueOn with
    | none => exact absurd (by simp [valueOn]) (not_mem_of_splitOnce_none hends)
    | some split => exact ⟨split.1, split.2, rfl⟩
  have hvalue : valueOn = inside ++ '>' :: inner := by simpa using splitOnce_eq_some hends
  have hinner : Passes "</a>".toList inner := by
    rw [hvalue] at hpassed
    exact hpassed.of_append.2
  have hopened : attributes.html ++ '>' :: (children.html ++ ("</a>".toList ++ rest)) =
      (start ++ " href=\"".toList ++ inside) ++ '>' :: (inner ++ ("</a>".toList ++ rest)) := by
    have happend := congrArg (· ++ ("</a>".toList ++ rest)) (hwhole.trans (by rw [hvalue]))
    simpa using happend
  have hnoEnd : '>' ∉ start ++ " href=\"".toList ++ inside := by
    rw [List.mem_append, not_or]
    exact ⟨hstart, not_mem_splitOnce hends⟩
  have hcontains : contains " href=\"".toList
      ("<a".toList ++ (start ++ " href=\"".toList ++ inside) ++ ">".toList) = true := by
    have hfound := @contains_append " href=\"".toList (by decide) ("<a".toList ++ start)
      (inside ++ ">".toList)
    simpa using hfound
  rw [hopened, anchorAt, splitOnce_separator hnoEnd]
  simp only [Option.bind_eq_bind, Option.bind_some]
  rw [hinner.splitOnce_eq (by decide)]
  simp only [Option.bind_some, anchorReplacement]
  rw [hcontains, if_pos rfl]
  have hkept := congrArg (fun whole => "<a".toList ++ (whole ++ "</a>".toList))
    (hwhole.trans (by rw [hvalue]))
  simpa using hkept.symm

/-- Where the ends of its tags are found, an anchor without an address leaves its text. -/
theorem anchorAt_text {attributes : Attributes "a"} {children : Content}
    (hhref : attributes.hasHref = false) (h : TagsFound attributes children) (rest : Text) :
    anchorAt (attributes.html ++ '>' :: (children.html ++ ("</a>".toList ++ rest))) =
      some (escapeText children.shown, rest) := by
  obtain ⟨hown, hchildren⟩ := h
  have hclose : Passes "</a>".toList children.html := by
    refine Content.passes_close (hchildren.imp fun value hvalue hin => hvalue ?_)
    exact hin.subset (by decide)
  have hopening : contains " href=\"".toList ("<a".toList ++ attributes.html ++ ">".toList) = false := by
    refine Passes.not_contains ?_ (by decide)
    refine Passes.append (Passes.append (by decide) (passes_flatMap fun written hwritten => ?_)) (by decide)
    refine written.passes_address (fun hname => ?_) (hown written hwritten).2
    simpa [hname] using List.any_eq_false.mp hhref written hwritten
  have hshown := children.stripTags_html hchildren []
  rw [List.append_nil] at hshown
  rw [anchorAt, splitOnce_separator (Attributes.noEnd fun written hwritten => (hown written hwritten).1)]
  simp only [Option.bind_eq_bind, Option.bind_some]
  rw [hclose.splitOnce_eq (by decide)]
  simp only [Option.bind_some, anchorReplacement]
  rw [hopening, if_neg Bool.false_ne_true, hshown]
  simp [stripTags, stripTagsFrom]

/-- The pass goes over an unmisled fragment and puts it out without its invalid anchors. By induction on
    the fragment. -/
theorem stripInvalidAnchors_html : ∀ {fragment : Fragment}, fragment.Unmisled → ∀ rest,
    stripInvalidAnchors (fragment.html ++ rest) =
      fragment.withoutInvalidAnchors.html ++ stripInvalidAnchors rest
  | .nil, _, _ => rfl
  | .text shown rest, h, after => by
    rw [Fragment.html, List.append_assoc, stripInvalidAnchors_append (passes_escapeText shown),
      @stripInvalidAnchors_html rest h]
    simp [Fragment.withoutInvalidAnchors, Fragment.html]
  | .lineBreak attributes rest, h, after => by
    have hopen := @openingTag_passes "br" _ attributes (by decide) (by decide) (by decide) h.1
    rw [Fragment.html, List.append_assoc, stripInvalidAnchors_append hopen,
      @stripInvalidAnchors_html rest h.2]
    simp [Fragment.withoutInvalidAnchors, Fragment.html]
  | .element tag attributes children rest, h, after => by
    have hopen := openingTag_passes tag.2.1 tag.2.2.1 (by decide) h.1
    have hclose := (strictTags_passed _ tag.2.1 tag.2.2.1 "<a".toList (by decide)).2
    rw [Fragment.html, List.append_assoc, stripInvalidAnchors_append hopen, List.append_assoc,
      @stripInvalidAnchors_html children h.2.1, List.append_assoc, stripInvalidAnchors_append hclose,
      @stripInvalidAnchors_html rest h.2.2]
    simp [Fragment.withoutInvalidAnchors, Fragment.html]
  | .anchor attributes children rest, h, after => by
    have hwritten : (Fragment.anchor attributes children rest).html ++ after =
        "<a".toList ++ (attributes.html ++ '>' :: (children.html ++ ("</a>".toList ++
          (rest.html ++ after)))) := by
      simp [Fragment.html, openingTag, closingTag]
    obtain ⟨hfound, hrest⟩ := h
    rw [hwritten, Fragment.withoutInvalidAnchors]
    split at hfound
    · rename_i hhref
      rw [stripInvalidAnchors_anchor (anchorAt_address hhref hfound _), @stripInvalidAnchors_html rest hrest,
        if_pos hhref]
      simp [Fragment.html, openingTag, closingTag]
    · rename_i hhref
      rw [stripInvalidAnchors_anchor (anchorAt_text (Bool.not_eq_true _ ▸ hhref) hfound _),
        @stripInvalidAnchors_html rest hrest, if_neg hhref]
      simp [Fragment.html]

theorem keptSanitized_of_unmisled {fragment : Fragment} (h : fragment.Unmisled) :
    fragment.KeptSanitized := by
  have hnil : stripInvalidAnchors [] = [] := stripInvalidAnchors_none (by decide)
  have hall := stripInvalidAnchors_html h []
  rwa [List.append_nil, hnil, List.append_nil] at hall

/-! ### Values at which no search can end -/

theorem PlainValue.noClose {value : Text} (h : PlainValue value) : ¬ "</a>".toList <:+: value :=
  fun hin => h.noEnd (hin.subset (by decide))

theorem Fragment.Values.imp {p q : Text → Prop} (h : ∀ value, p value → q value) {fragment : Fragment}
    (hp : fragment.Values p) : fragment.Values q := by
  induction fragment with
  | nil => trivial
  | text shown rest ih => exact ih hp
  | lineBreak attributes rest ih => exact ⟨fun written hw => h _ (hp.1 written hw), ih hp.2⟩
  | element tag attributes children rest ihChildren ih =>
    exact ⟨fun written hw => h _ (hp.1 written hw), ihChildren hp.2.1, ih hp.2.2⟩
  | anchor attributes children rest ih =>
    exact ⟨fun written hw => h _ (hp.1 written hw), hp.2.1.imp h, ih hp.2.2⟩

theorem unmisled_of_plain {fragment : Fragment} (h : fragment.Values PlainValue) :
    fragment.Unmisled := by
  induction fragment with
  | nil => trivial
  | text shown rest ih => exact ih h
  | lineBreak attributes rest ih => exact ⟨fun written hw => (h.1 written hw).noStart, ih h.2⟩
  | element tag attributes children rest ihChildren ih =>
    exact ⟨fun written hw => (h.1 written hw).noStart, ihChildren h.2.1, ih h.2.2⟩
  | anchor attributes children rest ih =>
    refine ⟨?_, ih h.2.2⟩
    split
    · exact ⟨fun written hw => (h.1 written (List.takeWhile_subset _ hw)).noEnd,
        fun written hw => (h.1 written (List.dropWhile_subset _ hw)).noClose,
        h.2.1.imp fun _ hvalue => hvalue.noClose⟩
    · exact ⟨fun written hw => ⟨(h.1 written hw).noEnd, (h.1 written hw).noAddress⟩,
        h.2.1.imp fun _ hvalue => hvalue.noEnd⟩

/-! ### Values at which a search ends -/

theorem stripTagsFrom_length : ∀ (inTag : Bool) (html : Text),
    (stripTagsFrom inTag html).length ≤ html.length
  | _, [] => le_rfl
  | inTag, c :: html => by
    have ih (inTag : Bool) := stripTagsFrom_length inTag html
    rw [stripTagsFrom]
    split_ifs
    · exact (ih true).trans (Nat.le_succ _)
    · exact (ih false).trans (Nat.le_succ _)
    · exact (ih _).trans (Nat.le_succ _)
    · exact Nat.succ_le_succ (ih _)

theorem anchorReplacement_length (attributes inner : Text) :
    (anchorReplacement attributes inner).length ≤ attributes.length + inner.length + 7 := by
  have htags := stripTagsFrom_length false inner
  rw [anchorReplacement]
  split_ifs
  · simp
    omega
  · rw [stripTags]
    omega

/-- The pass makes no text longer. -/
theorem stripInvalidAnchors_length (html : Text) :
    (stripInvalidAnchors html).length ≤ html.length := by
  induction hn : html.length using Nat.strongRecOn generalizing html with
  | ind n ih =>
    subst hn
    cases hstep : anchorStep html with
    | none => rw [stripInvalidAnchors_none hstep]
    | some found =>
      obtain ⟨output, rest⟩ := found
      have hrest := ih _ (anchorStep_length hstep) rest rfl
      rw [stripInvalidAnchors_some hstep]
      obtain ⟨⟨before, opened⟩, hstart, hstep⟩ := Option.bind_eq_some_iff.mp hstep
      obtain ⟨⟨replacement, after⟩, hanchor, hstep⟩ := Option.bind_eq_some_iff.mp hstep
      obtain ⟨rfl, rfl⟩ := Prod.mk.inj (Option.some.inj hstep)
      obtain ⟨attributes, inner, rfl, rfl⟩ := anchorAt_eq_some hanchor
      have hreplaced := anchorReplacement_length attributes inner
      rw [splitOnce_eq_some hstart]
      simp at hreplaced ⊢
      omega

/-- An anchor that is taken for one without an address, and a closing tag behind it, make the text
    shorter. -/
theorem stripInvalidAnchors_shorter {html before attributes inner rest : Text}
    (hstart : splitOnce "<a".toList html =
      some (before, attributes ++ '>' :: (inner ++ ("</a>".toList ++ rest))))
    (hend : '>' ∉ attributes)
    (haddress : contains " href=\"".toList ("<a".toList ++ attributes ++ ">".toList) = false) :
    (stripInvalidAnchors html).length < html.length := by
  obtain ⟨⟨inside, after⟩, hclose⟩ := Option.isSome_iff_exists.mp
    (@splitOnce_isSome "</a>".toList (by decide) inner rest)
  have hstep : anchorStep html = some (before ++ stripTags inside, after) := by
    rw [anchorStep, hstart]
    simp only [Option.bind_eq_bind, Option.bind_some]
    rw [anchorAt, splitOnce_separator hend]
    simp only [Option.bind_eq_bind, Option.bind_some]
    rw [hclose]
    simp only [Option.bind_some, anchorReplacement]
    rw [haddress]
    rfl
  have htags := stripTagsFrom_length false inside
  have hafter := stripInvalidAnchors_length after
  rw [stripInvalidAnchors_some hstep, splitOnce_eq_some hstart, splitOnce_eq_some hclose, stripTags]
  simp
  omega

def langValue (tag : String) (value : Text) : Attributes tag :=
  ⟨[⟨"lang", value, List.mem_cons_self⟩], by simp⟩

/-- An anchor with two attributes, the address last, and nothing in it. -/
def addressedAnchor (value address : Text) : Fragment :=
  .anchor ⟨[⟨"lang", value, by decide⟩, ⟨"href", address, by decide⟩], by simp⟩ .nil .nil

theorem langValue_html {tag : String} (value : Text) :
    (langValue tag value).html = " lang=\"".toList ++ escapeValue value ++ ['"'] := by
  simp [langValue, Attributes.html, Attribute.html, attributeStart]

/-- The end of a tag before the address hides it. -/
theorem not_kept_of_end {value : Text} (h : '>' ∈ value) (address : Text) :
    ¬ (addressedAnchor value address).KeptSanitized := by
  obtain ⟨e₁, e₂, hvalue, he₁⟩ := List.eq_append_cons_of_mem (mem_escapeValue.mpr h)
  have hquote : '"' ∉ e₁ := by
    have hall := quote_not_mem_escapeValue value
    rw [hvalue, List.mem_append, not_or] at hall
    exact hall.1
  have hhtml : (addressedAnchor value address).html = "<a".toList ++ ((" lang=\"".toList ++ e₁) ++
      '>' :: ((e₂ ++ "\" href=\"".toList ++ escapeValue address ++ "\">".toList) ++
        ("</a>".toList ++ []))) := by
    simp [addressedAnchor, Fragment.html, Content.html, openingTag, closingTag, Attributes.html,
      Attribute.html, attributeStart, hvalue]
  have hend : '>' ∉ " lang=\"".toList ++ e₁ := by simp [he₁]
  have hpassed : Passes " href=\"".toList ("<a".toList ++ (" lang=\"".toList ++ e₁) ++ ">".toList) := by
    rw [List.append_assoc, List.append_assoc]
    refine Passes.append (by decide) (Passes.append (by decide) (passes_quoted (by decide) fun hin => ?_))
    exact hquote (hin.subset (by decide))
  intro hkept
  have hshorter := stripInvalidAnchors_shorter (hhtml ▸ splitOnce_self (by decide) _) hend
    (hpassed.not_contains (by decide))
  rw [hkept] at hshorter
  exact absurd hshorter (lt_irrefl _)

/-- The start of a tag outside anchors opens one that reaches to the end of the next anchor. -/
theorem not_kept_of_start {value : Text} (h : "<a".toList <:+: value) (hend : '>' ∉ value)
    (haddress : ¬ " href=".toList <:+ value) (address : Text) :
    ¬ (Fragment.element ⟨"p", by decide⟩ (langValue "p" value) .nil
      (addressedAnchor value address)).KeptSanitized := by
  have hsome : (splitOnce "<a".toList (escapeValue value)).isSome = true := by
    obtain ⟨x, y, rfl⟩ := h
    simpa [escapeValue, escapeValueChar] using
      @splitOnce_isSome "<a".toList (by decide) (escapeValue x) (escapeValue y)
  obtain ⟨⟨before, after⟩, hstart⟩ := Option.isSome_iff_exists.mp hsome
  have hvalue := splitOnce_eq_some hstart
  have hquote : '"' ∉ "<a".toList ++ after := by
    have hall := quote_not_mem_escapeValue value
    rw [hvalue, List.append_assoc, List.mem_append, not_or] at hall
    exact hall.2
  have hnoEnd : '>' ∉ after ++ ['"'] := by
    have hall := mem_escapeValue.not.mpr hend
    rw [hvalue, List.mem_append, not_or] at hall
    simpa using hall.2
  have hpassed : Passes " href=\"".toList ("<a".toList ++ (after ++ ['"']) ++ ">".toList) := by
    rw [← List.append_assoc]
    refine (@passes_quoted_end " href=".toList '"' (by decide) _ hquote fun hsuffix => ?_).append (by decide)
    refine haddress (suffix_of_escapeValue (by decide) (hsuffix.trans ⟨before, ?_⟩))
    rw [hvalue, List.append_assoc]
  let anchor := "</p><a lang=\"".toList ++ escapeValue value ++ "\" href=\"".toList ++
    escapeValue address ++ "\">".toList
  have hhtml : (Fragment.element ⟨"p", by decide⟩ (langValue "p" value) .nil
      (addressedAnchor value address)).html =
        "<p lang=\"".toList ++ (escapeValue value ++ ("\">".toList ++ (anchor ++ ("</a>".toList ++ [])))) := by
    simp [anchor, addressedAnchor, Fragment.html, Content.html, openingTag, closingTag, langValue,
      Attributes.html, Attribute.html, attributeStart]
  have hfirst := splitOnce_append_left (by decide) hstart ("\">".toList ++ (anchor ++ ("</a>".toList ++ [])))
  have hbefore : Passes "<a".toList "<p lang=\"".toList := by decide
  have hwhole := hbefore.splitOnce_append (escapeValue value ++ ("\">".toList ++
    (anchor ++ ("</a>".toList ++ []))))
  have hopened : after ++ ("\">".toList ++ (anchor ++ ("</a>".toList ++ []))) =
      (after ++ ['"']) ++ '>' :: (anchor ++ ("</a>".toList ++ [])) := by simp
  rw [hfirst, ← hhtml, Option.map_some, hopened] at hwhole
  intro hkept
  have hshorter := stripInvalidAnchors_shorter hwhole hnoEnd
    (hpassed.not_contains (by decide))
  rw [hkept] at hshorter
  exact absurd hshorter (lt_irrefl _)

/-- What ends like an address is taken for one. -/
theorem not_kept_of_address {value : Text} (h : " href=".toList <:+ value) (hend : '>' ∉ value) :
    ¬ (Fragment.anchor (langValue "a" value) .nil .nil).KeptSanitized := by
  obtain ⟨x, rfl⟩ := h
  have hhtml : (Fragment.anchor (langValue "a" (x ++ " href=".toList)) .nil .nil).html =
      "<a".toList ++ ((langValue "a" (x ++ " href=".toList)).html ++ '>' :: ("</a>".toList ++ [])) := by
    simp [Fragment.html, Content.html, openingTag, closingTag]
  have hnoEnd : '>' ∉ (langValue "a" (x ++ " href=".toList)).html := by
    have hvalue := mem_escapeValue.not.mpr hend
    simpa [langValue_html] using hvalue
  have hcontains : contains " href=\"".toList
      ("<a".toList ++ (langValue "a" (x ++ " href=".toList)).html ++ ">".toList) = true := by
    have hfound := @contains_append " href=\"".toList (by decide)
      ("<a".toList ++ " lang=\"".toList ++ escapeValue x) ">".toList
    simpa [langValue_html, escapeValue, escapeValueChar] using hfound
  intro hkept
  have hat : anchorAt ((langValue "a" (x ++ " href=".toList)).html ++ '>' :: ("</a>".toList ++ [])) =
      some ("<a".toList ++ (langValue "a" (x ++ " href=".toList)).html ++ ">".toList ++ [] ++
        "</a>".toList, []) := by
    rw [anchorAt, splitOnce_separator hnoEnd]
    simp only [Option.bind_eq_bind, Option.bind_some]
    rw [splitOnce_self (by decide)]
    simp only [Option.bind_some, anchorReplacement]
    rw [hcontains, if_pos rfl]
  rw [Fragment.KeptSanitized, hhtml, stripInvalidAnchors_anchor hat] at hkept
  simp [Fragment.withoutInvalidAnchors, langValue, Attributes.hasHref, Fragment.html, Content.shown,
    escapeText] at hkept

/-- CORRECT (anchors): a fragment keeps being sanitised where no search ends in the value of an attribute;
    and among the fragments whose values are of a kind all do exactly where no value of the kind has the
    end of a tag in it, or the start of an anchor, or ends like an address. -/
theorem kept_sanitized_iff (p : Text → Prop) :
    (∀ fragment : Fragment, fragment.Unmisled → fragment.KeptSanitized) ∧
    ((∀ fragment : Fragment, fragment.Values p → fragment.KeptSanitized) ↔
      ∀ value, p value → PlainValue value) := by
  refine ⟨fun fragment => keptSanitized_of_unmisled, fun hkept value hvalue => ?_, ?_⟩
  · have hend : '>' ∉ value := fun h =>
      not_kept_of_end h value (hkept _ (by simp [addressedAnchor, Fragment.Values, Attributes.Values,
        Content.Values, hvalue]))
    have haddress : ¬ " href=".toList <:+ value := fun h =>
      not_kept_of_address h hend (hkept _ (by simp [Fragment.Values, Attributes.Values, langValue,
        Content.Values, hvalue]))
    refine ⟨hend, fun h => ?_, haddress⟩
    exact not_kept_of_start h hend haddress value (hkept _ (by simp [addressedAnchor, Fragment.Values,
      Attributes.Values, langValue, Content.Values, hvalue]))
  · intro hplain fragment hvalues
    exact keptSanitized_of_unmisled (unmisled_of_plain (hvalues.imp hplain))

/-- An anchor without an address is taken out where its language is plain. -/
theorem kept_sanitized_plain :
    (Fragment.anchor (langValue "a" "en".toList) (.text "tea".toList .nil) .nil).KeptSanitized := by
  refine (kept_sanitized_iff PlainValue).1 _ ⟨?_, trivial⟩
  rw [if_neg (by decide)]
  refine ⟨fun written hwritten => ?_, trivial⟩
  obtain rfl := List.mem_singleton.mp hwritten
  decide

/-- The language of an anchor with an address may end its tag. -/
theorem not_kept_sanitized : ¬ ∀ fragment : Fragment, fragment.KeptSanitized := fun h =>
  not_kept_of_end (by decide : '>' ∈ ">".toList) "https://remote.example/".toList (h _)

end Rustodon.Html
