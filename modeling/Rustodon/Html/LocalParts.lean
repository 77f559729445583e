import Mathlib.Data.List.TakeWhile
import Rustodon.Html.Local

/-! @src mastodon/rest/html.rs | name:Parts of local text | scheme:utf8-text | family:html

    What local text is made of, by its characters: plain text, links, mentions and hashtags. The
    formatter, which cuts the text at byte offsets, writes the parts one after another, and none of
    its slices panics. -/

namespace Rustodon.Html
open Schemes.Utf8

inductive Part where
  | plain (text : Text)
  | link (url : Text)
  | mention (url display : Text)
  | hashtag (url tag : Text)
  deriving DecidableEq, Repr

/-- The prefix of a link, what is shown of it, and its suffix. -/
def shortened (url : Text) : Text × Text × Text :=
  let shownPrefix := (linkPrefixes.find? (·.isPrefixOf url)).getD []
  let remainder := url.drop shownPrefix.length
  if (remainder.drop 30).length = 1 then (shownPrefix, remainder, [])
  else (shownPrefix, remainder.take 30, remainder.drop 30)

def Part.html (withRelMe : Bool) : Part → Text
  | .plain text => escapeHtml text
  | .link url => linkHtml url (shortened url).1 (shortened url).2.1 (shortened url).2.2 withRelMe
  | .mention url display => mentionHtml url display
  | .hashtag url tag => hashtagHtml url tag

section Read

variable (f : HtmlFormatter) (mentions : List MentionTarget) (displayDomains : Bool)

/-- The domain behind a name. -/
def readDomain (rest : Text) : Option Text :=
  match rest with
  | '@' :: rest =>
    let domain := rest.takeWhile (isDomainChar f)
    if domain.isEmpty then none else some domain
  | _ => none

/-- A mention behind its sign: the characters of it, the target, and whether there is a domain. -/
def readMention (before : Option Char) (rest : Text) : Option (Text × MentionTarget × Bool) :=
  if before.any (isNameChar f) then none
  else
    let username := rest.takeWhile (isNameChar f)
    if username.isEmpty then none
    else
      let domain := readDomain f (rest.dropWhile (isNameChar f))
      let taken := username ++ domain.elim [] ('@' :: ·)
      let normalizedDomain := domain.filter fun domain => !eqIgnoreAsciiCase domain f.localDomain
      (mentions.find? (isTarget username normalizedDomain)).map fun target =>
        (taken, target, domain.isSome)

def readHashtag (before : Option Char) (rest : Text) : Option Text :=
  if before.any fun c => !isWhitespace c then none
  else
    let tag := rest.takeWhile (isTagChar f)
    if tag.any f.isAlphabetic then some tag else none

/-- The parts of what remains, behind plain text that has not been closed yet. -/
def readParts : ℕ → Option Char → Text → Text → List Part
  | 0, _, _, _ => []
  | _ + 1, _, plain, [] => [.plain plain]
  | fuel + 1, before, plain, c :: rest =>
    if c = '@' then
      match readMention f mentions before rest with
      | some (taken, target, withDomain) =>
        .plain plain :: .mention target.url (displayOf f target withDomain displayDomains) ::
          readParts fuel ((c :: taken).getLast?) [] (rest.drop taken.length)
      | none => readParts fuel (some c) (plain ++ [c]) rest
    else if isHash c then
      match readHashtag f before rest with
      | some tag =>
        .plain plain :: .hashtag (hashtagUrl f tag) tag ::
          readParts fuel ((c :: tag).getLast?) [] (rest.drop tag.length)
      | none => readParts fuel (some c) (plain ++ [c]) rest
    else readParts fuel (some c) (plain ++ [c]) rest

def partsOf (text : Text) : List Part :=
  readParts f mentions displayDomains (text.length + 1) none [] text

end Read

/-! ### Positions -/

theorem nextChar_append (p s : Text) : nextChar (p ++ s) (byteLen p) = some s.head? := by
  rw [nextChar, sliceFrom_append, Option.map_some]

theorem prevChar_append (p s : Text) : prevChar (p ++ s) (byteLen p) = some p.getLast? := by
  rw [prevChar, truncate_append, Option.map_some]

theorem advance_append {isIn : Char → Bool} {p s : Text} {fuel : ℕ} (h : s.length < fuel) :
    advance isIn (p ++ s) fuel (byteLen p) = some (byteLen (p ++ s.takeWhile isIn)) := by
  induction s generalizing p fuel with
  | nil =>
    obtain ⟨fuel, rfl⟩ := Nat.exists_eq_add_of_le' (Nat.one_le_of_lt h)
    rw [advance, nextChar_append]
    simp
  | cons c s ih =>
    obtain ⟨fuel, rfl⟩ := Nat.exists_eq_add_of_le' (Nat.one_le_of_lt h)
    rw [List.length_cons] at h
    rw [advance, nextChar_append]
    by_cases hc : isIn c = true
    · have hmove : byteLen p + c.utf8Size = byteLen (p ++ [c]) := by simp
      have happend : p ++ c :: s = p ++ [c] ++ s := by simp
      simp only [List.head?_cons, Option.bind_eq_bind, Option.bind_some, hc, if_true]
      rw [hmove, happend, ih (by omega), List.takeWhile_cons_of_pos hc]
      simp
    · simp only [List.head?_cons, Option.bind_eq_bind, Option.bind_some, hc,
        List.takeWhile_cons_of_neg hc, List.append_nil]
      rfl

/-- The slice between two positions of a text. -/
theorem slice_between {text p m s : Text} (h : text = p ++ m ++ s) :
    slice text (byteLen p) (byteLen (p ++ m)) = some m := by
  rw [h, byteLen_append]
  exact slice_append p m s

theorem byteLen_pos {text : Text} (h : text ≠ []) : 0 < byteLen text := by
  obtain ⟨c, s, rfl⟩ := List.exists_cons_of_ne_nil h
  have hc := c.utf8Size_pos
  rw [byteLen_cons]
  omega

/-- At the start of a text there is nothing before. -/
theorem before_any (p : Text) (isIn : Char → Bool) :
    (decide (byteLen p > 0) && p.getLast?.any isIn) = p.getLast?.any isIn := by
  cases hp : p with
  | nil => rfl
  | cons c s =>
    have hpos : byteLen (c :: s) > 0 := byteLen_pos (List.cons_ne_nil c s)
    rw [decide_eq_true hpos, Bool.true_and]

section Positions

variable {f : HtmlFormatter} {mentions : List MentionTarget} {displayDomains : Bool}

theorem domainAt_eq (p rest : Text) :
    domainAt f (p ++ rest) (byteLen p) =
      some (readDomain f rest, byteLen (p ++ (readDomain f rest).elim [] ('@' :: ·))) := by
  rw [domainAt, nextChar_append]
  by_cases hat : rest.head? = some '@'
  · obtain ⟨rest, rfl⟩ := List.head?_eq_some_iff.mp hat
    have happend : p ++ '@' :: rest = p ++ ['@'] ++ rest := by simp
    have hstart : byteLen p + 1 = byteLen (p ++ ['@']) := by
      have hsize : '@'.utf8Size = 1 := rfl
      rw [byteLen_append, byteLen_cons, hsize, byteLen_nil]
    have hstop := @advance_append (isDomainChar f) (p ++ ['@']) rest
      ((p ++ ['@'] ++ rest).length + 1) (by simp; omega)
    have hslice : slice (p ++ ['@'] ++ rest) (byteLen (p ++ ['@']))
        (byteLen (p ++ ['@'] ++ rest.takeWhile (isDomainChar f))) =
          some (rest.takeWhile (isDomainChar f)) := by
      refine @slice_between _ _ _ (rest.dropWhile (isDomainChar f)) ?_
      rw [List.append_assoc (p ++ ['@']), List.takeWhile_append_dropWhile]
    simp only [List.head?_cons, Option.bind_eq_bind, Option.bind_some]
    rw [happend, hstart, hstop]
    simp only [Option.bind_some, readDomain]
    by_cases hempty : rest.takeWhile (isDomainChar f) = []
    · simp [hempty]
    · have hpos := byteLen_pos hempty
      have hgt : byteLen (p ++ ['@'] ++ rest.takeWhile (isDomainChar f)) > byteLen (p ++ ['@']) := by
        rw [byteLen_append (p ++ ['@'])]
        omega
      have hne : (rest.takeWhile (isDomainChar f)).isEmpty = false := by simpa using hempty
      rw [if_pos hgt, hslice, hne]
      simp
  · have hnone : readDomain f rest = none := by
      rw [readDomain]
      rintro rest' rfl
      exact hat rfl
    rw [hnone]
    simp only [Option.bind_eq_bind, Option.bind_some, Option.elim_none, List.append_nil]

/-- A mention is found at the byte where its characters start. -/
theorem mentionAt_eq (p rest : Text) :
    mentionAt f (p ++ '@' :: rest) (byteLen p) mentions =
      some ((readMention f mentions p.getLast? rest).map fun (taken, target, withDomain) =>
        (byteLen (p ++ '@' :: taken), target, withDomain)) := by
  have happend : p ++ '@' :: rest = p ++ ['@'] ++ rest := by simp
  have hstart : byteLen p + 1 = byteLen (p ++ ['@']) := by
    have hsize : '@'.utf8Size = 1 := rfl
    rw [byteLen_append, byteLen_cons, hsize, byteLen_nil]
  have hprev : prevChar (p ++ ['@'] ++ rest) (byteLen p) = some p.getLast? := by
    rw [← happend]
    exact prevChar_append p _
  have hstop := @advance_append (isNameChar f) (p ++ ['@']) rest
    ((p ++ ['@'] ++ rest).length + 1) (by simp; omega)
  have hsplit : p ++ ['@'] ++ rest = p ++ ['@'] ++ rest.takeWhile (isNameChar f) ++
      rest.dropWhile (isNameChar f) := by
    rw [List.append_assoc (p ++ ['@']), List.takeWhile_append_dropWhile]
  rw [happend, mentionAt, hprev, hstart]
  simp only [Option.bind_eq_bind, Option.bind_some, before_any]
  by_cases hbefore : p.getLast?.any (isNameChar f) = true
  · rw [if_pos hbefore, readMention, if_pos hbefore]
    rfl
  rw [if_neg hbefore, readMention, if_neg hbefore, hstop]
  simp only [Option.bind_some]
  by_cases hempty : rest.takeWhile (isNameChar f) = []
  · simp [hempty]
  · have hpos := byteLen_pos hempty
    have hne : byteLen (p ++ ['@'] ++ rest.takeWhile (isNameChar f)) ≠ byteLen (p ++ ['@']) := by
      rw [byteLen_append (p ++ ['@'])]
      omega
    have hname : (rest.takeWhile (isNameChar f)).isEmpty = false := by simpa using hempty
    rw [if_neg hne, slice_between hsplit]
    simp only [Option.bind_some]
    rw [hsplit, domainAt_eq, hname]
    simp only [Option.bind_some]
    split
    · rename_i htarget
      simp [htarget]
    · rename_i target htarget
      simp [htarget]

theorem hashtagEnd_eq {hash : Char} (hhash : isHash hash = true) (p rest : Text) :
    hashtagEnd f (p ++ hash :: rest) (byteLen p) =
      some ((readHashtag f p.getLast? rest).map fun tag => byteLen (p ++ hash :: tag)) := by
  have happend : p ++ hash :: rest = p ++ [hash] ++ rest := by simp
  have hstart : byteLen p + hash.utf8Size = byteLen (p ++ [hash]) := by simp
  have hprev : prevChar (p ++ [hash] ++ rest) (byteLen p) = some p.getLast? := by
    rw [← happend]
    exact prevChar_append p _
  have hnext : nextChar (p ++ [hash] ++ rest) (byteLen p) = some (some hash) := by
    rw [← happend]
    exact nextChar_append p _
  have hstop := @advance_append (isTagChar f) (p ++ [hash]) rest
    ((p ++ [hash] ++ rest).length + 1) (by simp; omega)
  have hslice : slice (p ++ [hash] ++ rest) (byteLen (p ++ [hash]))
      (byteLen (p ++ [hash] ++ rest.takeWhile (isTagChar f))) =
        some (rest.takeWhile (isTagChar f)) := by
    refine @slice_between _ _ _ (rest.dropWhile (isTagChar f)) ?_
    rw [List.append_assoc (p ++ [hash]), List.takeWhile_append_dropWhile]
  rw [happend, hashtagEnd, hprev]
  simp only [Option.bind_eq_bind, Option.bind_some, before_any]
  by_cases hbefore : (p.getLast?.any fun c => !isWhitespace c) = true
  · rw [if_pos hbefore, readHashtag, if_pos hbefore]
    rfl
  rw [if_neg hbefore, readHashtag, if_neg hbefore, hnext]
  simp only [Option.bind_some, hhash, Bool.not_true, hstart, hstop, hslice]
  by_cases hany : (rest.takeWhile (isTagChar f)).any f.isAlphabetic = true
  · have hne : rest.takeWhile (isTagChar f) ≠ [] := by
      intro hempty
      rw [hempty] at hany
      cases hany
    have hpos := byteLen_pos hne
    have hgt : byteLen (p ++ [hash] ++ rest.takeWhile (isTagChar f)) > byteLen (p ++ [hash]) := by
      rw [byteLen_append (p ++ [hash])]
      omega
    have hgt := decide_eq_true hgt
    simp only [hany, hgt, Bool.and_self, if_true]
    simp
  · simp [hany]

theorem readDomain_taken (rest : Text) :
    (readDomain f rest).elim [] ('@' :: ·) <+: rest := by
  unfold readDomain
  split
  · simp only
    split_ifs
    · exact List.nil_prefix
    · exact (List.prefix_cons_inj '@').mpr (List.takeWhile_prefix _)
  · exact List.nil_prefix

theorem readMention_taken {before : Option Char} {rest taken : Text} {target : MentionTarget}
    {withDomain : Bool} (h : readMention f mentions before rest = some (taken, target, withDomain)) :
    taken <+: rest := by
  rw [readMention] at h
  split at h
  · cases h
  simp only at h
  split_ifs at h
  obtain ⟨found, -, heq⟩ := Option.map_eq_some_iff.mp h
  obtain ⟨rfl, -⟩ := Prod.mk.inj heq
  obtain ⟨after, hafter⟩ := @readDomain_taken f (rest.dropWhile (isNameChar f))
  exact ⟨after, by rw [List.append_assoc, hafter, List.takeWhile_append_dropWhile]⟩

theorem readHashtag_taken {before : Option Char} {rest tag : Text}
    (h : readHashtag f before rest = some tag) : tag <+: rest := by
  rw [readHashtag] at h
  split at h
  · cases h
  simp only at h
  split_ifs at h
  obtain rfl := Option.some.inj h
  exact List.takeWhile_prefix _

/-- The loop writes the parts of what remains. -/
theorem linkifyLoop_eq {fuel : ℕ} {text done plain rest output : Text}
    (htext : text = done ++ plain ++ rest) (hfuel : rest.length < fuel) (withRelMe : Bool) :
    linkifyLoop f mentions displayDomains text fuel (byteLen done) (byteLen (done ++ plain)) output =
      some (output ++ (readParts f mentions displayDomains fuel (done ++ plain).getLast? plain
        rest).flatMap (Part.html withRelMe)) := by
  induction fuel generalizing done plain rest output with
  | zero => exact absurd hfuel (Nat.not_lt_zero _)
  | succ fuel ih =>
    cases rest with
    | nil =>
      have hend : ¬ byteLen (done ++ plain) < byteLen text := by
        rw [htext, List.append_nil]
        exact Nat.lt_irrefl _
      have hslice : sliceFrom text (byteLen done) = some plain := by
        rw [htext, List.append_nil]
        exact sliceFrom_append done plain
      rw [linkifyLoop, if_neg hend, hslice, readParts]
      simp [Part.html]
    | cons c rest =>
      rw [List.length_cons] at hfuel
      have hlt : byteLen (done ++ plain) < byteLen text := by
        rw [htext, byteLen_append (done ++ plain)]
        have := byteLen_pos (List.cons_ne_nil c rest)
        omega
      have hnext : nextChar text (byteLen (done ++ plain)) = some (some c) := by
        rw [htext]
        exact nextChar_append _ _
      have hplain : slice text (byteLen done) (byteLen (done ++ plain)) = some plain :=
        slice_between htext
      have hskip := @ih done (plain ++ [c]) rest output (by simp [htext]) (by omega)
      rw [← List.append_assoc, byteLen_append (done ++ plain), byteLen_cons, byteLen_nil,
        Nat.add_zero, List.getLast?_concat] at hskip
      rw [linkifyLoop, if_pos hlt, hnext, readParts]
      simp only [Option.bind_eq_bind, Option.bind_some]
      split_ifs with hat hhash
      · subst hat
        have hmention := @mentionAt_eq f mentions (done ++ plain) rest
        rw [← htext] at hmention
        rw [hmention]
        cases hread : readMention f mentions (done ++ plain).getLast? rest with
        | none => exact hskip
        | some found =>
          obtain ⟨taken, target, withDomain⟩ := found
          obtain ⟨after, rfl⟩ := readMention_taken hread
          have hrest := @ih (done ++ plain ++ '@' :: taken) [] after
            (output ++ escapeHtml plain ++
              mentionHtml target.url (displayOf f target withDomain displayDomains))
            (by simp [htext]) (by rw [List.length_append] at hfuel; omega)
          rw [List.append_nil, List.getLast?_append_of_ne_nil _ (List.cons_ne_nil _ _)] at hrest
          simp only [Option.map_some, Option.bind_some, hplain]
          rw [hrest, List.drop_left]
          simp [Part.html]
      · have hhashtag := @hashtagEnd_eq f c hhash (done ++ plain) rest
        rw [← htext] at hhashtag
        rw [hhashtag]
        cases hread : readHashtag f (done ++ plain).getLast? rest with
        | none => exact hskip
        | some tag =>
          obtain ⟨after, rfl⟩ := readHashtag_taken hread
          have htag : slice text (byteLen (done ++ plain) + c.utf8Size)
              (byteLen (done ++ plain ++ c :: tag)) = some tag := by
            have hstart : byteLen (done ++ plain) + c.utf8Size = byteLen (done ++ plain ++ [c]) := by
              simp [Nat.add_assoc]
            have hstop : done ++ plain ++ c :: tag = done ++ plain ++ [c] ++ tag := by simp
            rw [hstart, hstop]
            exact @slice_between _ _ _ after (by simp [htext])
          have hrest := @ih (done ++ plain ++ c :: tag) [] after
            (output ++ escapeHtml plain ++ hashtagHtml (hashtagUrl f tag) tag)
            (by simp [htext]) (by rw [List.length_append] at hfuel; omega)
          rw [List.append_nil, List.getLast?_append_of_ne_nil _ (List.cons_ne_nil _ _)] at hrest
          simp only [Option.map_some, Option.bind_some, hplain, htag]
          rw [hrest, List.drop_left]
          simp [Part.html]
      · exact hskip

theorem linkifyMentionsAndTags_eq (text : Text) (withRelMe : Bool) :
    linkifyMentionsAndTags f mentions displayDomains text =
      some ((partsOf f mentions displayDomains text).flatMap (Part.html withRelMe)) :=
  @linkifyLoop_eq f mentions displayDomains _ text [] [] text [] rfl (Nat.lt_succ_self _) withRelMe

end Positions

/-! ### Links -/

/-- A link is cut between characters. -/
theorem shortenedLink_eq (url : Text) (withRelMe : Bool) :
    shortenedLink url withRelMe = some ((Part.link url).html withRelMe) := by
  have hprefix : ((linkPrefixes.find? (·.isPrefixOf url)).map byteLen).getD 0 =
      byteLen ((linkPrefixes.find? (·.isPrefixOf url)).getD []) := by
    cases linkPrefixes.find? (·.isPrefixOf url) <;> rfl
  have hurl : url = (linkPrefixes.find? (·.isPrefixOf url)).getD [] ++
      url.drop ((linkPrefixes.find? (·.isPrefixOf url)).getD []).length := by
    cases hfind : linkPrefixes.find? (·.isPrefixOf url) with
    | none => rfl
    | some shown =>
      have hshown : shown.isPrefixOf url = true :=
        @List.find?_some _ (fun shown : Text => shown.isPrefixOf url) _ _ hfind
      exact (List.prefix_iff_eq_append.mp (List.isPrefixOf_iff_prefix.mp hshown)).symm
  rw [shortenedLink, hprefix]
  generalize hshown : (linkPrefixes.find? (·.isPrefixOf url)).getD [] = shown at hurl
  generalize hremainder : url.drop shown.length = remainder at hurl
  have htruncate : truncate url (byteLen shown) = some shown := by
    conv_lhs => rw [hurl]
    exact truncate_append _ _
  have hslice : sliceFrom url (byteLen shown) = some remainder := by
    conv_lhs => rw [hurl]
    exact sliceFrom_append _ _
  have hend : (charIndex remainder 30).getD (byteLen remainder) = byteLen (remainder.take 30) := by
    rw [charIndex]
    split_ifs with hlength
    · rfl
    · rw [List.take_of_length_le (Nat.not_lt.mp hlength)]
      rfl
  have hsuffix : sliceFrom remainder (byteLen (remainder.take 30)) = some (remainder.drop 30) := by
    have h := sliceFrom_append (remainder.take 30) (remainder.drop 30)
    rwa [List.take_append_drop] at h
  have hdisplay : truncate remainder (byteLen (remainder.take 30)) = some (remainder.take 30) := by
    have h := truncate_append (remainder.take 30) (remainder.drop 30)
    rwa [List.take_append_drop] at h
  have hwhole : truncate remainder (byteLen remainder) = some remainder := by
    have h := truncate_append remainder []
    rwa [List.append_nil] at h
  simp only [htruncate, hslice, Option.bind_eq_bind, Option.bind_some, hend, hsuffix, Part.html,
    shortened, hshown, hremainder]
  split_ifs with hone
  · simp only [hwhole, Option.bind_some]
  · simp only [hdisplay, Option.bind_some]

/-- The offsets of links that stand between pieces of a text. -/
def spansOf : ℕ → List (Text × Text) → List (ℕ × ℕ)
  | _, [] => []
  | n, (plain, link) :: segments =>
    (n + byteLen plain, n + byteLen plain + byteLen link) ::
      spansOf (n + byteLen plain + byteLen link) segments

def textOf (segments : List (Text × Text)) : Text :=
  segments.flatMap fun (plain, link) => plain ++ link

/-- `scheme://…`, on a line. -/
structure IsLink (link : Text) : Prop where
  oneLine : OneLine link
  scheme : ∃ scheme rest, scheme ≠ [] ∧ (∀ c ∈ scheme, c.isAlpha = true) ∧
    link = scheme ++ "://".toList ++ rest

/-- What is known of the parameters: the links are in order, do not overlap, and are cut between
    characters; none of the texts gets a line end, and a line end is no letter or digit. -/
structure HtmlFormatter.Lawful (f : HtmlFormatter) : Prop where
  links : ∀ text, ∃ segments rest, text = textOf segments ++ rest ∧
    f.links text = spansOf 0 segments ∧ ∀ segment ∈ segments, IsLink segment.2
  join_oneLine : ∀ path url, OneLine path → f.join path = some url → OneLine url
  unicode_oneLine : ∀ domain, OneLine domain → OneLine (f.domainToUnicode domain)
  alphanumeric : f.isAlphanumeric '\r' = false ∧ f.isAlphanumeric '\n' = false

/-- Cuts a text at the links: what precedes each of them, and what remains. -/
def cutLinks (text : Text) : ℕ → List (ℕ × ℕ) → Option (List (Text × Text) × Text)
  | cursor, [] => do some ([], ← sliceFrom text cursor)
  | cursor, (start, stop) :: links => do
    let plain ← slice text cursor start
    let link ← slice text start stop
    let (segments, rest) ← cutLinks text stop links
    some ((plain, link) :: segments, rest)

section Local

variable (f : HtmlFormatter) (mentions : List MentionTarget) (displayDomains : Bool)

def segmentParts (segments : List (Text × Text)) (rest : Text) : List Part :=
  (segments.flatMap fun (plain, link) =>
    partsOf f mentions displayDomains plain ++ [.link link]) ++ partsOf f mentions displayDomains rest

/-- The parts of a text with links. -/
def localParts (text : Text) : List Part :=
  match cutLinks text 0 (f.links text) with
  | none => []
  | some (segments, rest) => segmentParts f mentions displayDomains segments rest

variable {f mentions displayDomains}

theorem cutLinks_spans {text done rest : Text} {segments : List (Text × Text)}
    (h : text = done ++ textOf segments ++ rest) :
    cutLinks text (byteLen done) (spansOf (byteLen done) segments) = some (segments, rest) := by
  induction segments generalizing done with
  | nil =>
    have hslice : sliceFrom text (byteLen done) = some rest := by
      rw [h, textOf, List.flatMap_nil, List.append_nil]
      exact sliceFrom_append _ _
    rw [spansOf, cutLinks, hslice]
    rfl
  | cons segment segments ih =>
    obtain ⟨plain, link⟩ := segment
    have htext : text = done ++ plain ++ link ++ textOf segments ++ rest := by
      rw [h, textOf, List.flatMap_cons]
      simp [textOf]
    have hplain : slice text (byteLen done) (byteLen (done ++ plain)) = some plain :=
      @slice_between _ _ _ (link ++ textOf segments ++ rest) (by simp [htext])
    have hlink : slice text (byteLen (done ++ plain)) (byteLen (done ++ plain ++ link)) = some link :=
      @slice_between _ _ _ (textOf segments ++ rest) (by simp [htext])
    have hrest := ih htext
    rw [spansOf, cutLinks, ← byteLen_append, ← byteLen_append, hplain, hlink]
    simp only [Option.bind_eq_bind, Option.bind_some, hrest]

/-- The formatter writes the parts of what the links cut the text into. -/
theorem linkifyLinks_eq (text : Text) (withRelMe : Bool) (cursor : ℕ) (links : List (ℕ × ℕ)) :
    linkifyLinks f text mentions displayDomains withRelMe cursor links =
      (cutLinks text cursor links).map fun (segments, rest) =>
        (segmentParts f mentions displayDomains segments rest).flatMap (Part.html withRelMe) := by
  induction links generalizing cursor with
  | nil =>
    rw [linkifyLinks, cutLinks]
    cases sliceFrom text cursor with
    | none => rfl
    | some rest => exact linkifyMentionsAndTags_eq rest withRelMe
  | cons link links ih =>
    obtain ⟨start, stop⟩ := link
    have hplain (plain : Text) := @linkifyMentionsAndTags_eq f mentions displayDomains plain withRelMe
    rw [linkifyLinks, cutLinks, ih]
    cases slice text cursor start <;> cases slice text start stop <;>
      cases cutLinks text stop links <;>
      simp [segmentParts, hplain, shortenedLink_eq]

/-- The formatter writes the parts of the text one after another. -/
theorem linkifyLocal_eq (hf : f.Lawful) (text : Text) (withRelMe : Bool) :
    linkifyLocal f text mentions displayDomains withRelMe =
      some ((localParts f mentions displayDomains text).flatMap (Part.html withRelMe)) := by
  obtain ⟨segments, rest, htext, hlinks, -⟩ := hf.links text
  have hcut := @cutLinks_spans text [] rest segments htext
  rw [byteLen_nil] at hcut
  rw [linkifyLocal, linkifyLinks_eq, localParts, hlinks, hcut]
  rfl

/-! ### Lines -/

/-- A part with line ends at most in plain text and in the URL of a mention. -/
def Part.Settled : Part → Prop
  | .plain _ => True
  | .link url => OneLine url
  | .mention _ display => OneLine display
  | .hashtag url tag => OneLine url ∧ OneLine tag

theorem oneLine_takeWhile {isIn : Char → Bool} (hreturn : isIn '\r' = false)
    (hfeed : isIn '\n' = false) (rest : Text) : OneLine (rest.takeWhile isIn) := by
  intro c hc
  have hin := List.mem_takeWhile_imp hc
  constructor
  · rintro rfl
    rw [hreturn] at hin
    cases hin
  · rintro rfl
    rw [hfeed] at hin
    cases hin

theorem oneLine_displayOf (hf : f.Lawful) {username : Text} (husername : OneLine username)
    {domain : Option Text} (hdomain : ∀ d, domain = some d → OneLine d) {target : MentionTarget}
    (htarget : isTarget username (domain.filter fun d => !eqIgnoreAsciiCase d f.localDomain) target =
      true) (withDomain : Bool) : OneLine (displayOf f target withDomain displayDomains) := by
  unfold isTarget at htarget
  rw [Bool.and_eq_true] at htarget
  have hname : OneLine target.username := .of_eqIgnoreAsciiCase htarget.1 husername
  rw [displayOf]
  split_ifs
  · cases hd : target.domain with
    | none => exact hname
    | some d =>
      rw [hd] at htarget
      cases hactual : domain.filter fun d => !eqIgnoreAsciiCase d f.localDomain with
      | none =>
        rw [hactual] at htarget
        cases htarget.2
      | some actual =>
        rw [hactual] at htarget
        have hd' : OneLine d :=
          .of_eqIgnoreAsciiCase htarget.2 (hdomain actual (Option.eq_some_of_filter_eq_some hactual))
        exact hname.append (List.forall_mem_cons.mpr ⟨by decide, hf.unicode_oneLine d hd'⟩)
  · exact hname

theorem oneLine_readDomain (hf : f.Lawful) {rest domain : Text} (h : readDomain f rest = some domain) :
    OneLine domain := by
  unfold readDomain at h
  split at h
  · simp only at h
    split_ifs at h
    obtain rfl := Option.some.inj h
    refine oneLine_takeWhile ?_ ?_ _
    · simp [isDomainChar, hf.alphanumeric.1]
    · simp [isDomainChar, hf.alphanumeric.2]
  · cases h

theorem oneLine_readMention (hf : f.Lawful) {before : Option Char} {rest taken : Text}
    {target : MentionTarget} {withDomain : Bool}
    (h : readMention f mentions before rest = some (taken, target, withDomain)) :
    OneLine (displayOf f target withDomain displayDomains) := by
  rw [readMention] at h
  split at h
  · cases h
  simp only at h
  split_ifs at h
  obtain ⟨found, hfound, heq⟩ := Option.map_eq_some_iff.mp h
  obtain ⟨-, rfl, rfl⟩ : _ ∧ found = target ∧ _ = withDomain := by
    simpa [Prod.mk.injEq] using heq
  refine oneLine_displayOf hf (oneLine_takeWhile ?_ ?_ rest)
    (fun d hd => oneLine_readDomain hf hd) (List.find?_some hfound) _
  · simp [isNameChar, hf.alphanumeric.1]
  · simp [isNameChar, hf.alphanumeric.2]

theorem oneLine_hashtagUrl (hf : f.Lawful) {tag : Text} (htag : OneLine tag) :
    OneLine (hashtagUrl f tag) := by
  have hpath : OneLine ("tags/".toList ++ tag) := OneLine.append (by decide) htag
  rw [hashtagUrl]
  cases hjoin : f.join ("tags/".toList ++ tag) with
  | none => exact hpath
  | some url => exact hf.join_oneLine _ url hpath hjoin

theorem oneLine_readHashtag (hf : f.Lawful) {before : Option Char} {rest tag : Text}
    (h : readHashtag f before rest = some tag) : OneLine tag := by
  rw [readHashtag] at h
  split at h
  · cases h
  simp only at h
  split_ifs at h
  obtain rfl := Option.some.inj h
  refine oneLine_takeWhile ?_ ?_ rest
  · simp [isTagChar, hf.alphanumeric.1]
  · simp [isTagChar, hf.alphanumeric.2]

theorem readParts_settled (hf : f.Lawful) {fuel : ℕ} {before : Option Char} {plain rest : Text} :
    ∀ part ∈ readParts f mentions displayDomains fuel before plain rest, part.Settled := by
  induction fuel generalizing before plain rest with
  | zero => exact nofun
  | succ fuel ih =>
    cases rest with
    | nil => exact List.forall_mem_singleton.mpr trivial
    | cons c rest =>
      rw [readParts]
      split_ifs
      · cases hread : readMention f mentions before rest with
        | none => exact ih
        | some found =>
          exact List.forall_mem_cons.mpr ⟨trivial, List.forall_mem_cons.mpr
            ⟨oneLine_readMention hf hread, ih⟩⟩
      · cases hread : readHashtag f before rest with
        | none => exact ih
        | some tag =>
          have htag := oneLine_readHashtag hf hread
          exact List.forall_mem_cons.mpr ⟨trivial, List.forall_mem_cons.mpr
            ⟨⟨oneLine_hashtagUrl hf htag, htag⟩, ih⟩⟩
      · exact ih

/-- There are no line ends in the parts where there would be harm. -/
theorem localParts_settled (hf : f.Lawful) (text : Text) :
    ∀ part ∈ localParts f mentions displayDomains text, part.Settled := by
  obtain ⟨segments, rest, htext, hlinks, hsegments⟩ := hf.links text
  have hcut := @cutLinks_spans text [] rest segments htext
  rw [byteLen_nil] at hcut
  rw [localParts, hlinks, hcut]
  intro part hpart
  rcases List.mem_append.mp hpart with hpart | hpart
  · obtain ⟨segment, hsegment, hpart⟩ := List.mem_flatMap.mp hpart
    rcases List.mem_append.mp hpart with hpart | hpart
    · exact readParts_settled hf part hpart
    · obtain rfl := List.mem_singleton.mp hpart
      exact (hsegments segment hsegment).oneLine
  · exact readParts_settled hf part hpart

end Local

end Rustodon.Html
