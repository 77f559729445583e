import Rustodon.Html.Math
import Rustodon.Schemes.Passing

/-! @src mastodon/rest/html.rs | name:Sanitised fragments | scheme:passing | family:html

    What the sanitiser lets through is a tree over a few elements, written out as a text. A last pass
    goes over that text and takes out the anchors without an address; it searches for the texts of
    their tags, and so finds them in the values of attributes as well. -/

namespace Rustodon.Html
open Schemes.Utf8 Schemes.Passing

/-! ### The pass over the text -/

/-- What is put for an anchor. -/
def anchorReplacement (attributes inner : Text) : Text :=
  let opening := "<a".toList ++ attributes ++ ">".toList
  if contains " href=\"".toList opening then opening ++ inner ++ "</a>".toList else stripTags inner

/-- What is put for the anchor that starts before the text, and what follows it. -/
def anchorAt (opened : Text) : Option (Text × Text) := do
  let (attributes, content) ← splitOnce ['>'] opened
  let (inner, rest) ← splitOnce "</a>".toList content
  some (anchorReplacement attributes inner, rest)

/-- A turn of the loop of `strip_invalid_anchors`: what is put out, and what follows the cursor. -/
def anchorStep (html : Text) : Option (Text × Text) := do
  let (before, opened) ← splitOnce "<a".toList html
  let (replacement, rest) ← anchorAt opened
  some (before ++ replacement, rest)

theorem anchorAt_eq_some {opened output rest : Text} (h : anchorAt opened = some (output, rest)) :
    ∃ attributes inner, output = anchorReplacement attributes inner ∧
      opened = attributes ++ ('>' :: (inner ++ ("</a>".toList ++ rest))) := by
  obtain ⟨⟨attributes, content⟩, hopen, h⟩ := Option.bind_eq_some_iff.mp h
  obtain ⟨⟨inner, after⟩, hclose, h⟩ := Option.bind_eq_some_iff.mp h
  obtain ⟨rfl, rfl⟩ := Prod.mk.inj (Option.some.inj h)
  refine ⟨attributes, inner, rfl, ?_⟩
  rw [splitOnce_eq_some hopen, splitOnce_eq_some hclose]
  simp

theorem anchorStep_length {html output rest : Text} (h : anchorStep html = some (output, rest)) :
    rest.length < html.length := by
  obtain ⟨⟨before, opened⟩, hstart, h⟩ := Option.bind_eq_some_iff.mp h
  obtain ⟨⟨replacement, after⟩, hanchor, h⟩ := Option.bind_eq_some_iff.mp h
  obtain ⟨-, rfl⟩ := Prod.mk.inj (Option.some.inj h)
  obtain ⟨attributes, inner, -, hopened⟩ := anchorAt_eq_some hanchor
  rw [splitOnce_eq_some hstart, hopened]
  simp
  omega

/-- `strip_invalid_anchors`, which leaves the rest as it is where a search fails. -/
def stripInvalidAnchors (html : Text) : Text :=
  match _h : anchorStep html with
  | none => html
  | some (output, rest) => output ++ stripInvalidAnchors rest
termination_by html.length
decreasing_by exact anchorStep_length _h

theorem stripInvalidAnchors_none {html : Text} (h : anchorStep html = none) :
    stripInvalidAnchors html = html := by
  rw [stripInvalidAnchors]
  split
  · rfl
  · simp_all

theorem stripInvalidAnchors_some {html output rest : Text} (h : anchorStep html = some (output, rest)) :
    stripInvalidAnchors html = output ++ stripInvalidAnchors rest := by
  rw [stripInvalidAnchors]
  split
  · simp_all
  · rename_i hstep
    obtain ⟨rfl, rfl⟩ := Prod.mk.inj (Option.some.inj (hstep.symm.trans h))
    rfl

/-! ### What the sanitiser lets through -/

/-- The elements of `strict_builder`. -/
def strictTags : List String :=
  ["p", "br", "span", "a", "del", "s", "pre", "blockquote", "code", "b", "strong", "u", "i", "em", "ul",
    "ol", "li", "ruby", "rt", "rp"]

def tagAttributes : List (String × List String) :=
  [("a", ["href", "class", "translate"]), ("span", ["class", "translate"]), ("ol", ["start", "reversed"]),
    ("li", ["value"]), ("p", ["class"])]

/-- Anchors get a relation and a target. -/
def addedAttributes (tag : String) : List String := if tag = "a" then ["rel", "target"] else []

def allowedAttributes (tag : String) : List String :=
  "lang" :: ((tagAttributes.lookup tag).getD [] ++ addedAttributes tag)

structure Attribute (tag : String) where
  name : String
  value : Text
  allowed : name ∈ allowedAttributes tag

/-- Attributes in the order in which they are written. -/
structure Attributes (tag : String) where
  list : List (Attribute tag)
  names_nodup : (list.map Attribute.name).Nodup

/-- An element other than an anchor that has content. -/
abbrev Tag := { name : String // name ∈ strictTags ∧ name ≠ "a" ∧ name ≠ "br" }

/-- A sequence of nodes without anchors: none, or a node and the rest. -/
inductive Content where
  | nil
  | text (shown : Text) (rest : Content)
  | lineBreak (attributes : Attributes "br") (rest : Content)
  | element (tag : Tag) (attributes : Attributes tag.val) (children rest : Content)

/-- A sequence of nodes in which anchors do not nest. -/
inductive Fragment where
  | nil
  | text (shown : Text) (rest : Fragment)
  | lineBreak (attributes : Attributes "br") (rest : Fragment)
  | element (tag : Tag) (attributes : Attributes tag.val) (children rest : Fragment)
  | anchor (attributes : Attributes "a") (children : Content) (rest : Fragment)

/-! ### How it is written -/

def escapeTextChar (c : Char) : Text :=
  if c = '&' then "&amp;".toList
  else if c = '<' then "&lt;".toList
  else if c = '>' then "&gt;".toList
  else [c]

def escapeText (shown : Text) : Text := shown.flatMap escapeTextChar

def escapeValueChar (c : Char) : Text :=
  if c = '&' then "&amp;".toList else if c = '"' then "&quot;".toList else [c]

def escapeValue (value : Text) : Text := value.flatMap escapeValueChar

/-- What is written of an attribute up to its value. -/
def attributeStart (name : String) : Text := " ".toList ++ name.toList ++ "=\"".toList

def Attribute.html {tag : String} (written : Attribute tag) : Text :=
  attributeStart written.name ++ (escapeValue written.value ++ ['"'])

def Attributes.html {tag : String} (attributes : Attributes tag) : Text :=
  attributes.list.flatMap Attribute.html

def openingTag (tag : String) (attributes : Attributes tag) : Text :=
  ('<' :: tag.toList) ++ (attributes.html ++ ['>'])

def closingTag (tag : String) : Text := "</".toList ++ tag.toList ++ ['>']

def Content.html : Content → Text
  | .nil => []
  | .text shown rest => escapeText shown ++ rest.html
  | .lineBreak attributes rest => openingTag "br" attributes ++ rest.html
  | .element tag attributes children rest =>
    openingTag tag.val attributes ++ (children.html ++ (closingTag tag.val ++ rest.html))

def Fragment.html : Fragment → Text
  | .nil => []
  | .text shown rest => escapeText shown ++ rest.html
  | .lineBreak attributes rest => openingTag "br" attributes ++ rest.html
  | .element tag attributes children rest =>
    openingTag tag.val attributes ++ (children.html ++ (closingTag tag.val ++ rest.html))
  | .anchor attributes children rest =>
    openingTag "a" attributes ++ (children.html ++ (closingTag "a" ++ rest.html))

/-! ### What the pass is for -/

def Content.shown : Content → Text
  | .nil => []
  | .text shown rest => shown ++ rest.shown
  | .lineBreak _ rest => rest.shown
  | .element _ _ children rest => children.shown ++ rest.shown

def Attributes.hasHref (attributes : Attributes "a") : Bool :=
  attributes.list.any fun written => written.name == "href"

/-- Anchors without an address are replaced by the text that they show. -/
def Fragment.withoutInvalidAnchors : Fragment → Fragment
  | .nil => .nil
  | .text shown rest => .text shown rest.withoutInvalidAnchors
  | .lineBreak attributes rest => .lineBreak attributes rest.withoutInvalidAnchors
  | .element tag attributes children rest =>
    .element tag attributes children.withoutInvalidAnchors rest.withoutInvalidAnchors
  | .anchor attributes children rest =>
    if attributes.hasHref then .anchor attributes children rest.withoutInvalidAnchors
    else .text children.shown rest.withoutInvalidAnchors

/-- The pass gives the fragment without its invalid anchors, written in the same way. -/
def Fragment.KeptSanitized (fragment : Fragment) : Prop :=
  stripInvalidAnchors fragment.html = fragment.withoutInvalidAnchors.html

/-! ### Where the searches end -/

def Attributes.Values {tag : String} (attributes : Attributes tag) (p : Text → Prop) : Prop :=
  ∀ written ∈ attributes.list, p written.value

/-- The values of attributes anywhere in the content. -/
def Content.Values (p : Text → Prop) : Content → Prop
  | .nil => True
  | .text _ rest => rest.Values p
  | .lineBreak attributes rest => attributes.Values p ∧ rest.Values p
  | .element _ attributes children rest => attributes.Values p ∧ children.Values p ∧ rest.Values p

def Fragment.Values (p : Text → Prop) : Fragment → Prop
  | .nil => True
  | .text _ rest => rest.Values p
  | .lineBreak attributes rest => attributes.Values p ∧ rest.Values p
  | .element _ attributes children rest => attributes.Values p ∧ children.Values p ∧ rest.Values p
  | .anchor attributes children rest => attributes.Values p ∧ children.Values p ∧ rest.Values p

/-- The address is found: no tag ends before it, and the anchor ends at its own closing tag. -/
def AddressFound (attributes : Attributes "a") (children : Content) : Prop :=
  (∀ written ∈ attributes.list.takeWhile (·.name ≠ "href"), '>' ∉ written.value) ∧
    (∀ written ∈ attributes.list.dropWhile (·.name ≠ "href"),
      ¬ "</a>".toList <:+: written.value) ∧
    children.Values fun value => ¬ "</a>".toList <:+: value

/-- No address is found, and the tags that are taken out end where they end. -/
def TagsFound (attributes : Attributes "a") (children : Content) : Prop :=
  (∀ written ∈ attributes.list, '>' ∉ written.value ∧ ¬ " href=".toList <:+ written.value) ∧
    children.Values fun value => '>' ∉ value

/-- No search ends in the value of an attribute. -/
def Fragment.Unmisled : Fragment → Prop
  | .nil => True
  | .text _ rest => rest.Unmisled
  | .lineBreak attributes rest =>
    (attributes.Values fun value => ¬ "<a".toList <:+: value) ∧ rest.Unmisled
  | .element _ attributes children rest =>
    (attributes.Values fun value => ¬ "<a".toList <:+: value) ∧ children.Unmisled ∧ rest.Unmisled
  | .anchor attributes children rest =>
    (if attributes.hasHref then AddressFound attributes children else TagsFound attributes children) ∧
      rest.Unmisled

/-- A value at which no search can end. -/
structure PlainValue (value : Text) : Prop where
  noEnd : '>' ∉ value
  noStart : ¬ "<a".toList <:+: value
  noAddress : ¬ " href=".toList <:+ value

/-! ### Characters that are escaped -/

theorem prefix_of_flatMap {f : Char → Text} : ∀ {pattern value : Text},
    (∀ c, f c = [c] ∨ ∃ d s, f c = d :: s ∧ d ∉ pattern) →
      pattern <+: value.flatMap f → pattern <+: value
  | [], _, _, _ => List.nil_prefix
  | c :: pattern, [], _, h => by simp at h
  | c :: pattern, e :: value, hf, h => by
    rw [List.flatMap_cons] at h
    rcases hf e with hplain | ⟨d, s, hescaped, hd⟩
    · rw [hplain, List.singleton_append, List.cons_prefix_cons] at h
      rw [List.cons_prefix_cons]
      refine ⟨h.1, prefix_of_flatMap (fun c' => ?_) h.2⟩
      rcases hf c' with hplain' | ⟨d, s, hescaped, hd⟩
      · exact .inl hplain'
      · exact .inr ⟨d, s, hescaped, fun hmem => hd (List.mem_cons_of_mem _ hmem)⟩
    · rw [hescaped, List.cons_append, List.cons_prefix_cons] at h
      exact absurd (h.1 ▸ List.mem_cons_self) hd

theorem escapeValueChar_cases (c : Char) :
    escapeValueChar c = [c] ∧ c ≠ '&' ∧ c ≠ '"' ∨ escapeValueChar c = "&amp;".toList ∨
      escapeValueChar c = "&quot;".toList := by
  unfold escapeValueChar
  split_ifs with hamp hquote
  · exact .inr (.inl rfl)
  · exact .inr (.inr rfl)
  · exact .inl ⟨rfl, hamp, hquote⟩

/-- A text that starts with a bracket is in what is written of a value only where it is in the value. -/
theorem infix_of_escapeValue {tail : Text} (htail : '&' ∉ tail) : ∀ {value : Text},
    '<' :: tail <:+: escapeValue value → '<' :: tail <:+: value
  | [], h => h
  | c :: value, h => by
    have hstarts : '<' :: tail <+: escapeValue (c :: value) → '<' :: tail <+: c :: value := by
      refine prefix_of_flatMap fun d => ?_
      rcases escapeValueChar_cases d with ⟨hplain, -⟩ | hescaped | hescaped
      · exact .inl hplain
      · exact .inr ⟨'&', _, hescaped, by simp [htail]⟩
      · exact .inr ⟨'&', _, hescaped, by simp [htail]⟩
    have hrest : '<' :: tail <:+: escapeValue value → '<' :: tail <:+: c :: value :=
      fun hin => (infix_of_escapeValue htail hin).trans (List.suffix_cons c value).isInfix
    have hwritten : escapeValue (c :: value) = escapeValueChar c ++ escapeValue value := rfl
    rcases escapeValueChar_cases c with ⟨hplain, -⟩ | hescaped | hescaped
    · rw [hwritten, hplain, List.singleton_append, List.infix_cons_iff] at h
      rcases h with h | h
      · exact (hstarts (by rwa [hwritten, hplain])).isInfix
      · exact hrest h
    · rw [hwritten, hescaped] at h
      exact hrest (by simpa [List.infix_cons_iff] using h)
    · rw [hwritten, hescaped] at h
      exact hrest (by simpa [List.infix_cons_iff] using h)

theorem suffix_of_escapeValue {pattern value : Text} (hpattern : ';' ∉ pattern)
    (h : pattern <:+ escapeValue value) : pattern <:+ value := by
  rw [← List.reverse_prefix] at h ⊢
  rw [escapeValue, List.reverse_flatMap] at h
  refine prefix_of_flatMap (fun c => ?_) h
  rcases escapeValueChar_cases c with ⟨hplain, -⟩ | hescaped | hescaped
  · exact .inl (by simp [hplain])
  · exact .inr ⟨';', _, by simp [hescaped]; rfl, by simpa using hpattern⟩
  · exact .inr ⟨';', _, by simp [hescaped]; rfl, by simpa using hpattern⟩

theorem mem_escapeValue {value : Text} : '>' ∈ escapeValue value ↔ '>' ∈ value := by
  rw [escapeValue, List.mem_flatMap]
  constructor
  · rintro ⟨c, hc, hmem⟩
    rcases escapeValueChar_cases c with ⟨hplain, -⟩ | hescaped | hescaped
    · rw [hplain, List.mem_singleton] at hmem
      exact hmem ▸ hc
    · simp [hescaped] at hmem
    · simp [hescaped] at hmem
  · intro hmem
    exact ⟨'>', hmem, by decide⟩

theorem quote_not_mem_escapeValue (value : Text) : '"' ∉ escapeValue value := by
  rw [escapeValue, List.mem_flatMap]
  rintro ⟨c, -, hmem⟩
  rcases escapeValueChar_cases c with ⟨hplain, -, hquote⟩ | hescaped | hescaped
  · rw [hplain, List.mem_singleton] at hmem
    exact hquote hmem.symm
  · simp [hescaped] at hmem
  · simp [hescaped] at hmem

theorem escapeText_noBrackets (shown : Text) : ∀ c ∈ escapeText shown, c ≠ '<' ∧ c ≠ '>' := by
  intro c hc
  obtain ⟨d, -, hmem⟩ := List.mem_flatMap.mp hc
  unfold escapeTextChar at hmem
  split_ifs at hmem with hamp hless hmore
  · exact (by decide : ∀ c ∈ "&amp;".toList, c ≠ '<' ∧ c ≠ '>') c hmem
  · exact (by decide : ∀ c ∈ "&lt;".toList, c ≠ '<' ∧ c ≠ '>') c hmem
  · exact (by decide : ∀ c ∈ "&gt;".toList, c ≠ '<' ∧ c ≠ '>') c hmem
  · obtain rfl := List.mem_singleton.mp hmem
    exact ⟨hless, hmore⟩

end Rustodon.Html
