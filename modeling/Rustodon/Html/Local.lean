import Rustodon.Html.Math

/-! @src mastodon/rest/html.rs | name:Local text | scheme:utf8-text | family:html

    Text that has been written here is put into HTML: its links, mentions and hashtags become
    anchors, and everything else is escaped. Positions are byte offsets. What finds the links, the
    domain in Unicode, the classes of characters and joined URLs are parameters. -/

namespace Rustodon.Html
open Schemes.Utf8

structure MentionTarget where
  username : Text
  domain : Option Text
  url : Text
  deriving DecidableEq, Repr

/-- `origin` is known by `origin.join(path)`, and `LinkFinder` by the offsets of its links. -/
structure HtmlFormatter where
  join : Text → Option Text
  localDomain : Text
  links : Text → List (ℕ × ℕ)
  domainToUnicode : Text → Text
  isAlphanumeric : Char → Bool
  isAlphabetic : Char → Bool

/-- `text[n..].chars().next()`. -/
def nextChar (text : Text) (n : ℕ) : Option (Option Char) := (sliceFrom text n).map List.head?

/-- `text[..n].chars().next_back()`. -/
def prevChar (text : Text) (n : ℕ) : Option (Option Char) := (truncate text n).map List.getLast?

/-- The loop that moves an end behind the characters of a class; `none` is a panic, or that the fuel
    ran out. -/
def advance (isIn : Char → Bool) (text : Text) : ℕ → ℕ → Option ℕ
  | 0, _ => none
  | fuel + 1, stop => do
    match ← nextChar text stop with
    | none => some stop
    | some c => if isIn c then advance isIn text fuel (stop + c.utf8Size) else some stop

def escapeAttribute (value : Text) : Text := escapeHtml value

section Formatter

variable (f : HtmlFormatter)

def isNameChar (c : Char) : Bool := f.isAlphanumeric c || c == '_'

def isDomainChar (c : Char) : Bool := f.isAlphanumeric c || c == '.' || c == '-'

def isTagChar (c : Char) : Bool :=
  f.isAlphanumeric c || c == '_' || c == '·' || c == '・' || c == Char.ofNat 0x200C ||
    decide (0x0E47 ≤ c.toNat) && decide (c.toNat ≤ 0x0E4E)

/-- The condition of `find` in `mention_at`. -/
def isTarget (username : Text) (domain : Option Text) (target : MentionTarget) : Bool :=
  eqIgnoreAsciiCase target.username username &&
    match target.domain, domain with
    | none, none => true
    | some target, some actual => eqIgnoreAsciiCase target actual
    | _, _ => false

/-- The domain behind a name, and the end of the mention. -/
def domainAt (text : Text) (stop : ℕ) : Option (Option Text × ℕ) := do
  match ← nextChar text stop with
  | some '@' => do
    let domainStart := stop + 1
    let domainEnd ← advance (isDomainChar f) text (text.length + 1) domainStart
    if domainEnd > domainStart then
      let domain ← slice text domainStart domainEnd
      some (some domain, domainEnd)
    else some (none, stop)
  | _ => some (none, stop)

/-- `mention_at`: the end, the target, and whether there is a domain. -/
def mentionAt (text : Text) (start : ℕ) (mentions : List MentionTarget) :
    Option (Option (ℕ × MentionTarget × Bool)) := do
  let before ← prevChar text start
  if start > 0 && before.any (isNameChar f) then some none
  else
    let stop ← advance (isNameChar f) text (text.length + 1) (start + 1)
    if stop = start + 1 then some none
    else
      let username ← slice text (start + 1) stop
      let (domain, stop) ← domainAt f text stop
      let normalizedDomain := domain.filter fun domain => !eqIgnoreAsciiCase domain f.localDomain
      match mentions.find? (isTarget username normalizedDomain) with
      | none => some none
      | some target => some (some (stop, target, domain.isSome))

def isHash (c : Char) : Bool := c == '#' || c == '＃'

/-- `hashtag_end`. -/
def hashtagEnd (text : Text) (start : ℕ) : Option (Option ℕ) := do
  let before ← prevChar text start
  if start > 0 && before.any (fun c => !isWhitespace c) then some none
  else
    match ← nextChar text start with
    | none => some none
    | some hash =>
      if !isHash hash then some none
      else
        let stop ← advance (isTagChar f) text (text.length + 1) (start + hash.utf8Size)
        let tag ← slice text (start + hash.utf8Size) stop
        if stop > start + hash.utf8Size && tag.any f.isAlphabetic then some (some stop)
        else some none

def displayOf (target : MentionTarget) (withDomain displayDomains : Bool) : Text :=
  if withDomain && displayDomains then
    match target.domain with
    | some domain => target.username ++ '@' :: f.domainToUnicode domain
    | none => target.username
  else target.username

def mentionHtml (url display : Text) : Text :=
  "<span class=\"h-card\" translate=\"no\"><a href=\"".toList ++ escapeAttribute url ++
    "\" class=\"u-url mention\">@<span>".toList ++ escapeHtml display ++
    "</span></a></span>".toList

def hashtagHtml (url tag : Text) : Text :=
  "<a href=\"".toList ++ escapeAttribute url ++
    "\" class=\"mention hashtag\" rel=\"tag\">#<span>".toList ++ escapeHtml tag ++
    "</span></a>".toList

def hashtagUrl (tag : Text) : Text :=
  let path := "tags/".toList ++ tag
  (f.join path).getD path

variable (mentions : List MentionTarget) (displayDomains : Bool)

/-- The loop of `linkify_mentions_and_tags`, which appends to its output. -/
def linkifyLoop (text : Text) : ℕ → ℕ → ℕ → Text → Option Text
  | 0, _, _, _ => none
  | fuel + 1, plainStart, cursor, output => do
    if cursor < byteLen text then
      match ← nextChar text cursor with
      | none => some (output ++ escapeHtml (← sliceFrom text plainStart))
      | some c =>
        if c = '@' then
          match ← mentionAt f text cursor mentions with
          | some (stop, target, withDomain) =>
            let plain ← slice text plainStart cursor
            linkifyLoop text fuel stop stop (output ++ escapeHtml plain ++
              mentionHtml target.url (displayOf f target withDomain displayDomains))
          | none => linkifyLoop text fuel plainStart (cursor + c.utf8Size) output
        else if isHash c then
          match ← hashtagEnd f text cursor with
          | some stop =>
            let plain ← slice text plainStart cursor
            let tag ← slice text (cursor + c.utf8Size) stop
            linkifyLoop text fuel stop stop (output ++ escapeHtml plain ++
              hashtagHtml (hashtagUrl f tag) tag)
          | none => linkifyLoop text fuel plainStart (cursor + c.utf8Size) output
        else linkifyLoop text fuel plainStart (cursor + c.utf8Size) output
    else some (output ++ escapeHtml (← sliceFrom text plainStart))

def linkifyMentionsAndTags (text : Text) : Option Text :=
  linkifyLoop f mentions displayDomains text (text.length + 1) 0 0 []

end Formatter

/-! ### Links -/

def linkPrefixes : List Text :=
  ["https://www.".toList, "http://www.".toList, "https://".toList, "http://".toList, "xmpp:".toList]

/-- `char_indices().nth(n)`, as the index of the character. -/
def charIndex (text : Text) (n : ℕ) : Option ℕ :=
  if n < text.length then some (byteLen (text.take n)) else none

def linkHtml (url shownPrefix display suffix : Text) (withRelMe : Bool) : Text :=
  "<a href=\"".toList ++ escapeAttribute url ++ "\" target=\"_blank\" rel=\"".toList ++
    (if withRelMe then "nofollow noopener me" else "nofollow noopener").toList ++
    "\" translate=\"no\"><span class=\"invisible\">".toList ++ escapeHtml shownPrefix ++
    "</span><span class=\"".toList ++ (if suffix.isEmpty then "" else "ellipsis").toList ++
    "\">".toList ++ escapeHtml display ++ "</span><span class=\"invisible\">".toList ++
    escapeHtml suffix ++ "</span></a>".toList

/-- `shortened_link`. -/
def shortenedLink (url : Text) (withRelMe : Bool) : Option Text := do
  let prefixLength := ((linkPrefixes.find? (·.isPrefixOf url)).map byteLen).getD 0
  let shownPrefix ← truncate url prefixLength
  let remainder ← sliceFrom url prefixLength
  let displayEnd := (charIndex remainder 30).getD (byteLen remainder)
  let suffix ← sliceFrom remainder displayEnd
  let (displayEnd, suffix) :=
    if suffix.length = 1 then (byteLen remainder, []) else (displayEnd, suffix)
  let display ← truncate remainder displayEnd
  some (linkHtml url shownPrefix display suffix withRelMe)

/-! ### Paragraphs -/

/-- The pieces between occurrences of two line feeds, as `split` takes them. -/
def splitParagraphs : Text → List Text
  | '\n' :: '\n' :: rest => [] :: splitParagraphs rest
  | c :: rest =>
    match splitParagraphs rest with
    | [] => [[c]]
    | paragraph :: paragraphs => (c :: paragraph) :: paragraphs
  | [] => [[]]

def simpleFormat (html : Text) : Text :=
  if (trim html).isEmpty then []
  else
    let normalized := replace ['\r'] ['\n'] (replace ['\r', '\n'] ['\n'] html)
    ((splitParagraphs normalized).filter fun paragraph => !paragraph.isEmpty).flatMap
      fun paragraph => "<p>".toList ++ replace ['\n'] "<br />".toList paragraph ++ "</p>".toList

/-! ### The formatter -/

section Formatter

variable (f : HtmlFormatter) (text : Text) (mentions : List MentionTarget)

/-- The loop of `linkify_local` over the links. -/
def linkifyLinks (displayDomains withRelMe : Bool) : ℕ → List (ℕ × ℕ) → Option Text
  | cursor, [] => do
    linkifyMentionsAndTags f mentions displayDomains (← sliceFrom text cursor)
  | cursor, (start, stop) :: links => do
    let plain ← linkifyMentionsAndTags f mentions displayDomains (← slice text cursor start)
    let link ← shortenedLink (← slice text start stop) withRelMe
    some (plain ++ link ++ (← linkifyLinks displayDomains withRelMe stop links))

def linkifyLocal (displayDomains withRelMe : Bool) : Option Text :=
  linkifyLinks f text mentions displayDomains withRelMe 0 (f.links text)

def quoteHtml (link : Text) : Text :=
  "<p class=\"quote-inline\">RE: ".toList ++ link ++ "</p>".toList

def localText (quotedStatusUrl : Option Text) : Option Text := do
  let html := simpleFormat (← linkifyLocal f text mentions true false)
  match quotedStatusUrl.filter fun url => !url.isEmpty && !contains url html with
  | none => some html
  | some url => some (quoteHtml (← shortenedLink url false) ++ html)

def announcementText : Option Text :=
  (linkifyLocal f text mentions false false).map simpleFormat

def localInline : Option Text := linkifyLocal f text mentions true false

def localProfileText : Option Text :=
  (linkifyLocal f text mentions false false).map simpleFormat

def localProfileInline : Option Text := linkifyLocal f text mentions true true

end Formatter

end Rustodon.Html
