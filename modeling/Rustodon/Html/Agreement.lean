import Rustodon.Html.Recognisers

/-! @src mastodon/write_repository.rs, mastodon/rest/html.rs | name:Agreement of writer and formatter |
    scheme:scanners | family:html

    A handle that is stored but not linked is one that the formatter does not read anywhere between the
    links, and likewise for hashtags. Texts in plain ASCII without links, hyphens and colons are read
    alike by both. -/

namespace Rustodon.Html
open Schemes.Utf8 Schemes.Scanner

section Agreement

variable (f : HtmlFormatter) (toLowercase : Text → Text) (accounts : Accounts) (authorId : ℤ)
  (url : Account → Text) (text : Text) (table : MentionTable)

/-- A handle that the writer reads somewhere in the text is looked up as that of the account. -/
def NamedForWriter (account : Account) : Prop :=
  ∃ username domain, storedGrammar.Spells text username domain ∧
    account.username = toAsciiLowercase username ∧
    account.domain = lookupDomain (some f.localDomain) (domain.map toAsciiLowercase)

/-- A handle that the formatter reads somewhere between the links is that of the account. -/
def NamedForFormatter (account : Account) : Prop :=
  ∃ piece ∈ piecesOf f text, ∃ username domain, (linkedGrammar f).Spells piece username domain ∧
    eqIgnoreAsciiCase account.username username = true ∧
    sameDomain account.domain (lookupDomain (some f.localDomain) domain) = true

/-- Whom the writer reads in the text, the formatter reads between the links, if the account may be
    mentioned. -/
def MentionsCovered : Prop :=
  ∀ account ∈ accounts.rows, accounts.mentionable authorId account = true →
    NamedForWriter f text account → NamedForFormatter f text account

/-- The hashtags that the writer reads in the text are those that the formatter reads between the
    links, up to case. -/
def TagsCovered : Prop :=
  ∀ value, (∃ tag, SpellsTag (isStoredTagChar f) f.isAlphabetic text tag ∧ toLowercase tag = value) ↔
    ∃ piece ∈ piecesOf f text, ∃ tag, SpellsTag (isTagChar f) f.isAlphabetic piece tag ∧
      toLowercase tag = value

/-- The anchors of the text, with what is stored for it as the targets of mentions. -/
def storedAnchors : List Anchor :=
  localAnchors f (storedTargets accounts authorId (some f.localDomain) url text table) text

/-- Exactly the accounts that are stored are linked, and exactly the hashtags that are stored. -/
def RecognisersAgree : Prop :=
  (∀ account ∈ accounts.rows,
    Stored accounts authorId (some f.localDomain) text table account ↔
      ∃ withDomain, Anchor.mention (mentionTarget url account) withDomain ∈
        storedAnchors f accounts authorId url text table) ∧
    ∀ value, value ∈ profileHashtags f toLowercase text ↔
      ∃ tag, Anchor.hashtag tag ∈ storedAnchors f accounts authorId url text table ∧
        toLowercase tag = value

end Agreement

variable {f : HtmlFormatter} {toLowercase : Text → Text} {accounts : Accounts} {authorId : ℤ}
  {url : Account → Text} {text : Text} {table : MentionTable} {account : Account}

theorem isTarget_eq (username : Text) (domain : Option Text) (target : MentionTarget) :
    isTarget username domain target =
      (eqIgnoreAsciiCase target.username username && sameDomain target.domain domain) := by
  obtain ⟨targetName, targetDomain, url⟩ := target
  cases targetDomain <;> cases domain <;> rfl

theorem sameDomain_symm {domain domain' : Option Text} (h : sameDomain domain domain' = true) :
    sameDomain domain' domain = true := by
  cases domain with
  | none =>
    cases domain' with
    | none => rfl
    | some domain' => cases h
  | some domain =>
    cases domain' with
    | none => cases h
    | some domain' => exact eqIgnoreAsciiCase_symm h

theorem sameDomain_trans {domain domain' domain'' : Option Text} (h : sameDomain domain domain' = true)
    (h' : sameDomain domain' domain'' = true) : sameDomain domain domain'' = true := by
  cases domain' with
  | none =>
    cases domain with
    | none => exact h'
    | some domain => cases h
  | some domain' =>
    cases domain with
    | none => cases h
    | some domain =>
      cases domain'' with
      | none => cases h'
      | some domain'' => exact eqIgnoreAsciiCase_trans h h'

/-- Of the targets that are stored only one has a handle. -/
theorem find_storedTargets (hrow : account ∈ accounts.rows) (username : Text)
    (domain : Option Text) :
    (storedTargets accounts authorId (some f.localDomain) url text table).find?
        (isTarget username domain) = some (mentionTarget url account) ↔
      Stored accounts authorId (some f.localDomain) text table account ∧
        eqIgnoreAsciiCase account.username username = true ∧
          sameDomain account.domain domain = true := by
  constructor
  · intro hfind
    obtain ⟨found, hfound, hstored, htarget⟩ :=
      mem_storedTargets.mp (List.mem_of_find?_eq_some hfind)
    obtain rfl := mentionTarget_inj hfound hrow htarget
    have hhandle := List.find?_some hfind
    rw [isTarget_eq, Bool.and_eq_true] at hhandle
    exact ⟨hstored, hhandle.1, hhandle.2⟩
  · rintro ⟨hstored, husername, hdomain⟩
    have hsome : ((storedTargets accounts authorId (some f.localDomain) url text table).find?
        (isTarget username domain)).isSome := by
      rw [List.find?_isSome]
      refine ⟨mentionTarget url account, mem_storedTargets.mpr ⟨account, hrow, hstored, rfl⟩, ?_⟩
      rw [isTarget_eq, Bool.and_eq_true]
      exact ⟨husername, hdomain⟩
    obtain ⟨target, hfind⟩ := Option.isSome_iff_exists.mp hsome
    obtain ⟨found, hfound, -, rfl⟩ := mem_storedTargets.mp (List.mem_of_find?_eq_some hfind)
    have hhandle := List.find?_some hfind
    rw [isTarget_eq, Bool.and_eq_true] at hhandle
    have heq : found = account := accounts.handles_unique found hfound account hrow
      (eqIgnoreAsciiCase_trans hhandle.1 (eqIgnoreAsciiCase_symm husername))
      (sameDomain_trans hhandle.2 (sameDomain_symm hdomain))
    rw [hfind, heq]

theorem stored_iff_named (hrow : account ∈ accounts.rows) :
    Stored accounts authorId (some f.localDomain) text table account ↔
      accounts.mentionable authorId account = true ∧ NamedForWriter f text account := by
  rw [stored_iff hrow]
  refine and_congr_right fun _ => ?_
  constructor
  · rintro ⟨candidate, hcandidate, husername, hdomain⟩
    obtain ⟨username, domain, hspells, rfl⟩ := mem_statusMentionCandidates.mp hcandidate
    exact ⟨username, domain, hspells, husername, hdomain⟩
  · rintro ⟨username, domain, hspells, husername, hdomain⟩
    exact ⟨_, mem_statusMentionCandidates.mpr ⟨username, domain, hspells, rfl⟩, husername, hdomain⟩

theorem linked_iff_named (hf : f.Unicode) (hrow : account ∈ accounts.rows) :
    (∃ withDomain, Anchor.mention (mentionTarget url account) withDomain ∈
        storedAnchors f accounts authorId url text table) ↔
      Stored accounts authorId (some f.localDomain) text table account ∧
        NamedForFormatter f text account := by
  rw [storedAnchors, mention_mem_localAnchors hf]
  constructor
  · rintro ⟨piece, hpiece, username, domain, hspells, hfind⟩
    obtain ⟨hstored, husername, hdomain⟩ := (find_storedTargets hrow _ _).mp hfind
    exact ⟨hstored, piece, hpiece, username, domain, hspells, husername, hdomain⟩
  · rintro ⟨hstored, piece, hpiece, username, domain, hspells, husername, hdomain⟩
    exact ⟨piece, hpiece, username, domain, hspells,
      (find_storedTargets hrow _ _).mpr ⟨hstored, husername, hdomain⟩⟩

/-- What is linked in the output of the formatter is what `localAnchors` lists. -/
theorem linkifyLocal_anchors (hf : f.Lawful) (mentions : List MentionTarget)
    (displayDomains withRelMe : Bool) (text : Text) :
    ∃ parts : List Part, linkifyLocal f text mentions displayDomains withRelMe =
        some (parts.flatMap (Part.html withRelMe)) ∧
      parts.filter Part.isAnchor = (localAnchors f mentions text).map (Anchor.part f displayDomains) :=
  ⟨_, linkifyLocal_eq hf text withRelMe, localParts_anchors text⟩

/-- CORRECT (recognisers): stored mentions and hashtags are exactly the linked ones if and only if
    whom and what the writer reads anywhere in the text, the formatter reads between the links. -/
theorem recognisers_agree (hf : f.Unicode) :
    RecognisersAgree f toLowercase accounts authorId url text table ↔
      MentionsCovered f accounts authorId text ∧ TagsCovered f toLowercase text := by
  refine and_congr ?_ ?_
  · constructor
    · intro hagree account hrow hmentionable hnamed
      have hstored : Stored accounts authorId (some f.localDomain) text table account :=
        (stored_iff_named hrow).mpr ⟨hmentionable, hnamed⟩
      exact ((linked_iff_named hf hrow).mp ((hagree account hrow).mp hstored)).2
    · intro hcovered account hrow
      constructor
      · intro hstored
        obtain ⟨hmentionable, hnamed⟩ := (stored_iff_named hrow).mp hstored
        exact (linked_iff_named hf hrow).mpr ⟨hstored, hcovered account hrow hmentionable hnamed⟩
      · intro hlinked
        exact ((linked_iff_named hf hrow).mp hlinked).1
  · refine forall_congr' fun value => ?_
    rw [mem_profileHashtags]
    refine iff_congr Iff.rfl ?_
    simp only [storedAnchors, hashtag_mem_localAnchors hf]
    constructor
    · rintro ⟨tag, ⟨piece, hpiece, hspells⟩, hvalue⟩
      exact ⟨piece, hpiece, tag, hspells, hvalue⟩
    · rintro ⟨piece, hpiece, tag, hspells, hvalue⟩
      exact ⟨tag, ⟨piece, hpiece, hspells⟩, hvalue⟩

/-! ### Plain texts -/

/-- A text of ASCII characters without links, hyphens and colons. -/
structure PlainText (f : HtmlFormatter) (text : Text) : Prop where
  links : f.links text = []
  plain : ∀ c ∈ text, c.toNat < 128 ∧ c ≠ '-' ∧ c ≠ ':'

theorem piecesOf_plain (h : PlainText f text) : piecesOf f text = [text] := by
  have hslice := sliceFrom_append [] text
  rw [byteLen_nil, List.nil_append] at hslice
  rw [piecesOf, h.links, cutLinks, hslice]
  rfl

theorem classes_plain (hf : f.Unicode) {c : Char} (h : c.toNat < 128 ∧ c ≠ '-' ∧ c ≠ ':') :
    isUsernameByte c = isNameChar f c ∧ isDomainByte c = isDomainChar f c ∧
      isStoredTagChar f c = isTagChar f c := by
  obtain ⟨hascii, hhyphen, hcolon⟩ := h
  have halnum := hf.ascii c hascii
  refine ⟨?_, ?_, ?_⟩
  · simp [isUsernameByte, isNameChar, halnum, hhyphen]
  · simp [isDomainByte, isDomainChar, halnum, hhyphen, hcolon]
  · have hthai : decide (0x0E47 ≤ c.toNat) = false := decide_eq_false (by omega)
    rw [isStoredTagChar, isTagChar, hthai, Bool.false_and, Bool.or_false]

theorem spells_plain (hf : f.Unicode) (h : PlainText f text) {username : Text} {domain : Option Text}
    (hspells : storedGrammar.Spells text username domain) :
    (linkedGrammar f).Spells text username domain := by
  obtain ⟨before, after, htext, hblocks, hne, hrun, hdomain⟩ := hspells
  have hmem : ∀ c, c ∈ before ∨ c ∈ username ∨ c ∈ domainText domain ∨ c ∈ after → c ∈ text := by
    intro c hc
    rw [htext]
    simp only [List.mem_append, List.mem_cons]
    tauto
  have hclasses := fun c hc => classes_plain hf (h.plain c (hmem c hc))
  refine ⟨before, after, htext, ?_, hne, ?_, ?_⟩
  · intro c hc
    exact (hclasses c (.inl (List.mem_of_getLast? hc))).1.symm.trans (hblocks c hc)
  · refine (IsRun.congr ?_ ?_).mp hrun
    · exact fun c hc => (hclasses c (.inr (.inl hc))).1
    · intro c hc
      exact (hclasses c (.inr (.inr (List.mem_append.mp hc)))).1
  · cases domain with
    | none =>
      rintro c rest rfl
      exact (hclasses c (.inr (.inr (.inr (by simp))))).2.1.symm.trans (hdomain c rest rfl)
    | some domain =>
      refine ⟨hdomain.1, (IsRun.congr ?_ ?_).mp hdomain.2⟩
      · exact fun c hc => (hclasses c (.inr (.inr (.inl (List.mem_cons_of_mem _ hc))))).2.1
      · exact fun c hc => (hclasses c (.inr (.inr (.inr hc)))).2.1

/-- An account that is looked up in small letters has the handle up to case. -/
theorem handle_of_lookup {username : Text} {domain : Option Text}
    (husername : account.username = toAsciiLowercase username)
    (hdomain : account.domain = lookupDomain (some f.localDomain) (domain.map toAsciiLowercase)) :
    eqIgnoreAsciiCase account.username username = true ∧
      sameDomain account.domain (lookupDomain (some f.localDomain) domain) = true := by
  have hlower : ∀ s : Text, eqIgnoreAsciiCase (toAsciiLowercase s) s = true := fun s =>
    eqIgnoreAsciiCase_iff.mpr (toAsciiLowercase_idem s)
  refine ⟨by rw [husername]; exact hlower username, ?_⟩
  rw [hdomain]
  cases domain with
  | none => rfl
  | some domain =>
    have hlocal : eqIgnoreAsciiCase (toAsciiLowercase domain) f.localDomain =
        eqIgnoreAsciiCase domain f.localDomain := by
      rw [eqIgnoreAsciiCase, eqIgnoreAsciiCase, toAsciiLowercase_idem]
    cases hcase : eqIgnoreAsciiCase domain f.localDomain with
    | true => simp [lookupDomain, Option.filter, hlocal, hcase, sameDomain]
    | false => simp [lookupDomain, Option.filter, hlocal, hcase, sameDomain, hlower]

theorem covered_plain (hf : f.Unicode) (h : PlainText f text) :
    MentionsCovered f accounts authorId text ∧ TagsCovered f toLowercase text := by
  constructor
  · rintro account - - ⟨username, domain, hspells, husername, hdomain⟩
    obtain ⟨hname, hsame⟩ := @handle_of_lookup f account username domain husername hdomain
    refine ⟨text, by rw [piecesOf_plain h]; simp, username, domain, ?_, hname, hsame⟩
    exact spells_plain hf h hspells
  · intro value
    have htag : ∀ tag, SpellsTag (isStoredTagChar f) f.isAlphabetic text tag ↔
        SpellsTag (isTagChar f) f.isAlphabetic text tag := by
      intro tag
      refine exists_congr fun before => exists_congr fun hash => exists_congr fun after => ?_
      refine and_congr_right fun htext => and_congr_right fun _ => and_congr_right fun _ => ?_
      have hmem : ∀ c, c ∈ tag ∨ c ∈ after → c ∈ text := by
        intro c hc
        rw [htext]
        simp only [List.mem_append, List.mem_cons]
        tauto
      refine and_congr_left fun _ => IsRun.congr ?_ ?_
      · exact fun c hc => (classes_plain hf (h.plain c (hmem c (.inl hc)))).2.2
      · exact fun c hc => (classes_plain hf (h.plain c (hmem c (.inr hc)))).2.2
    rw [piecesOf_plain h]
    simp [htag]

/-! ### Texts that are read alike, and not -/

namespace Sample

/-- Letters and digits are those of ASCII, and the Thai ones. -/
def isThai (c : Char) : Bool := decide (0x0E01 ≤ c.toNat ∧ c.toNat ≤ 0x0E3A)

def formatter (links : List (ℕ × ℕ)) : HtmlFormatter where
  join _ := none
  localDomain := "here.example".toList
  links _ := links
  domainToUnicode domain := domain
  isAlphanumeric c := c.isAlphanum || isThai c
  isAlphabetic c := c.isAlpha || isThai c

theorem formatter_unicode (links : List (ℕ × ℕ)) : (formatter links).Unicode where
  ascii := by
    intro c hc
    have hthai : isThai c = false := decide_eq_false (by omega)
    simp [formatter, hthai]
  wide := rfl

def bob : Account := ⟨1, "bob".toList, none, none, 0, some ⟨some 0, true⟩⟩

def allAccounts : Accounts where
  rows := [bob]
  blocks := []
  domainBlocks := []
  ids_unique := by simp
  handles_unique := by simp

def urlOf (_ : Account) : Text := "https://here.example/@bob".toList

end Sample

/-- A plain text is read alike. -/
theorem recognisers_agree_sample :
    RecognisersAgree (Sample.formatter []) toAsciiLowercase Sample.allAccounts 2 Sample.urlOf
        "Tea, @Bob@here.example? #TeaTime".toList ⟨[], 1⟩ ∧
      "teatime".toList ∈ profileHashtags (Sample.formatter []) toAsciiLowercase
        "Tea, @Bob@here.example? #TeaTime".toList :=
  ⟨(recognisers_agree (Sample.formatter_unicode [])).mpr
      (covered_plain (Sample.formatter_unicode []) ⟨rfl, by decide⟩),
    by decide⟩

/-- The name in a link is stored as a mention, but nothing is linked as one; and of a hashtag with a
    Thai tone mark only the part in front of the mark is stored, while all of it is linked. -/
theorem recognisers_disagree :
    (Stored Sample.allAccounts 2 (some "here.example".toList) "https://remote.example/@bob".toList
        ⟨[], 1⟩ Sample.bob ∧
      storedAnchors (Sample.formatter [(0, 27)]) Sample.allAccounts 2 Sample.urlOf
        "https://remote.example/@bob".toList ⟨[], 1⟩ = []) ∧
    (profileHashtags (Sample.formatter []) toAsciiLowercase "#ม้า".toList = ["ม".toList] ∧
      storedAnchors (Sample.formatter []) Sample.allAccounts 2 Sample.urlOf "#ม้า".toList ⟨[], 1⟩ =
        [.hashtag "ม้า".toList]) := by
  refine ⟨⟨?_, ?_⟩, ?_, ?_⟩
  · rw [Stored]
    decide
  · decide
  · decide
  · decide

end Rustodon.Html
