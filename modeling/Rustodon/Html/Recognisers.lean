import Rustodon.Html.Handles

/-! @src mastodon/write_repository.rs, mastodon/rest/html.rs | name:The writer and the formatter |
    scheme:scanners | family:html

    Whether the mentions and the hashtags that are stored with a status are those that become links
    when it is shown. The writer reads the whole text, links and all, and the formatter what is between
    the links, with other classes of characters. -/

namespace Rustodon.Html
open Schemes.Utf8 Schemes.Scanner

/-! ### The writer -/

section Writer

theorem storedGrammar_closed : storedGrammar.Closed where
  name := rfl
  domain := rfl
  blocks := fun _ h => h

/-- The loop pushes what a scanner finds. -/
theorem candidatesLoop_eq : ∀ (fuel : ℕ) (before : Option Char) (rest : Text)
    (candidates : List Candidate), candidatesLoop fuel before rest candidates =
      (scan storedGrammar.reader fuel before rest).foldl
        (fun candidates handle => pushCandidate candidates handle.1 handle.2) candidates := by
  intro fuel
  induction fuel with
  | zero => intros; rfl
  | succ fuel ih =>
    intro before rest candidates
    cases rest with
    | nil => rfl
    | cons c rest =>
      rw [candidatesLoop, scan]
      by_cases hat : c = '@'
      · subst hat
        cases hblocked : before.any isUsernameByte with
        | true =>
          have hread : storedGrammar.reader before '@' rest = none := by
            rw [Grammar.reader, if_pos rfl, Grammar.read,
              show before.any storedGrammar.blocks = true from hblocked]
            rfl
          rw [hread]
          exact ih _ _ _
        | false =>
          have hread : storedGrammar.reader before '@' rest =
              (storedGrammar.read before rest).map fun handle =>
                (handle, (handle.1 ++ domainText handle.2).length) := if_pos rfl
          rw [hread, Grammar.read, show before.any storedGrammar.blocks = false from hblocked]
          by_cases hempty : (rest.takeWhile isUsernameByte).isEmpty = true
          · have hname : (rest.takeWhile storedGrammar.nameChar).isEmpty = true := hempty
            simp only [hempty, hname]
            exact ih _ _ _
          · rw [Bool.not_eq_true] at hempty
            have hname : (rest.takeWhile storedGrammar.nameChar).isEmpty = false := hempty
            simp only [hempty, hname]
            exact ih _ _ _
      · have hread : storedGrammar.reader before c rest = none := if_neg hat
        have hne : (c != '@') = true := by simpa using hat
        rw [hread, hne, Bool.true_or, if_pos rfl]
        exact ih _ _ _

theorem toAsciiLowercase_idem (s : Text) : toAsciiLowercase (toAsciiLowercase s) = toAsciiLowercase s := by
  have hchar : ∀ c : Char, c.toLower.toLower = c.toLower := by
    intro c
    by_cases hupper : c.toLower.toNat < 97
    · have heq := eq_of_toLower rfl (.inl hupper)
      rw [← heq]
      exact heq.symm
    · refine toLower_eq_self fun hrange => ?_
      have hhigh : c.toLower.toNat ≤ 90 := UInt32.le_iff_toNat_le.mp (of_decide_eq_true hrange).2
      omega
  simp [toAsciiLowercase, hchar]

/-- The candidate of a handle. -/
def candidateOf (handle : Candidate) : Candidate :=
  (toAsciiLowercase handle.1, handle.2.map toAsciiLowercase)

theorem mem_pushCandidate {candidates : List Candidate} {username : Text} {domain : Option Text}
    (hlower : ∀ candidate ∈ candidates, candidateOf candidate = candidate) {candidate : Candidate} :
    candidate ∈ pushCandidate candidates username domain ↔
      candidate ∈ candidates ∨ candidate = candidateOf (username, domain) := by
  rw [pushCandidate]
  split_ifs with hknown
  · obtain ⟨known, hmem, hknown⟩ := List.any_eq_true.mp hknown
    simp only [Bool.and_eq_true, beq_iff_eq] at hknown
    have hcandidate : candidateOf (username, domain) = known := by
      obtain ⟨husername, hdomain⟩ := hknown
      rw [← hlower known hmem, candidateOf, candidateOf, husername, hdomain, toAsciiLowercase_idem]
    constructor
    · exact .inl
    · rintro (hmem' | rfl)
      · exact hmem'
      · rw [hcandidate]
        exact hmem
  · rw [List.mem_append, List.mem_singleton]
    rfl

theorem mem_pushCandidates : ∀ (handles candidates : List Candidate),
    (∀ candidate ∈ candidates, candidateOf candidate = candidate) → ∀ candidate,
      (candidate ∈ handles.foldl
          (fun candidates handle => pushCandidate candidates handle.1 handle.2) candidates ↔
        candidate ∈ candidates ∨ ∃ handle ∈ handles, candidate = candidateOf handle) := by
  intro handles
  induction handles with
  | nil => simp
  | cons handle handles ih =>
    intro candidates hlower candidate
    have hlower' : ∀ candidate ∈ pushCandidate candidates handle.1 handle.2,
        candidateOf candidate = candidate := by
      intro candidate hcandidate
      rcases (mem_pushCandidate hlower).mp hcandidate with hold | rfl
      · exact hlower candidate hold
      · rw [candidateOf, candidateOf, toAsciiLowercase_idem, Option.map_map]
        congr 2
        funext domain
        exact toAsciiLowercase_idem domain
    rw [List.foldl_cons, ih _ hlower', mem_pushCandidate hlower, or_assoc]
    simp

/-- The candidates are the handles that the text spells, in small letters. -/
theorem mem_statusMentionCandidates {text : Text} {candidate : Candidate} :
    candidate ∈ statusMentionCandidates text ↔
      ∃ username domain, storedGrammar.Spells text username domain ∧
        candidate = candidateOf (username, domain) := by
  have hscan := fun handle : Candidate =>
    @mem_scan _ _ storedGrammar.reader handle (reader_skips storedGrammar_closed) (text.length + 1) []
      text (Nat.lt_succ_self _)
  rw [statusMentionCandidates, candidatesLoop_eq, mem_pushCandidates _ _ (by simp)]
  constructor
  · rintro (hnone | ⟨⟨username, domain⟩, hhandle, rfl⟩)
    · cases hnone
    · exact ⟨username, domain, occurs_reader.mp ((hscan _).mp hhandle), rfl⟩
  · rintro ⟨username, domain, hspells, rfl⟩
    exact .inr ⟨_, (hscan _).mpr (occurs_reader.mpr hspells), rfl⟩

variable {f : HtmlFormatter} {toLowercase : Text → Text}

theorem mem_storeHashtagAt {before : Option Char} {c : Char} {rest : Text} {hashtags : List Text}
    {value : Text} : value ∈ storeHashtagAt f toLowercase before c rest hashtags ↔
      value ∈ hashtags ∨ ∃ tag, (∃ n, tagReader (isStoredTagChar f) f.isAlphabetic before c rest =
        some (tag, n)) ∧ toLowercase tag = value := by
  rw [storeHashtagAt, tagReader]
  by_cases hplace : (isHash c && !before.any fun c => !isWhitespace c) = true
  · have hnot : (!isHash c || before.any fun c => !isWhitespace c) = false := by
      simpa [Bool.and_eq_true] using hplace
    rw [hplace, hnot]
    simp only [Bool.false_eq_true, if_false, if_true]
    by_cases hany : (rest.takeWhile (isStoredTagChar f)).any f.isAlphabetic = true
    · have hempty : (rest.takeWhile (isStoredTagChar f)).isEmpty = false := by
        cases hrun : rest.takeWhile (isStoredTagChar f) with
        | nil => simp [hrun] at hany
        | cons => rfl
      simp only [hany, hempty, Bool.false_eq_true, Bool.not_true, if_false, if_true]
      split_ifs with hknown
      · constructor
        · exact .inl
        · rintro (hmem | ⟨tag, ⟨n, hread⟩, rfl⟩)
          · exact hmem
          · obtain ⟨rfl, -⟩ := Prod.mk.inj (Option.some.inj hread)
            exact hknown
      · simp [eq_comm]
    · rw [Bool.not_eq_true] at hany
      simp [hany]
  · have hnot : (!isHash c || before.any fun c => !isWhitespace c) = true := by
      rw [Bool.not_eq_true, Bool.and_eq_false_iff] at hplace
      rw [Bool.or_eq_true]
      rcases hplace with hhash | hbefore
      · exact .inl (by simp [hhash])
      · exact .inr (by simpa using hbefore)
    rw [if_neg hplace, if_pos hnot]
    simp

theorem mem_profileHashtagsLoop {value : Text} : ∀ (done todo : Text) (hashtags : List Text),
    (value ∈ profileHashtagsLoop f toLowercase done.getLast? todo hashtags ↔
      value ∈ hashtags ∨ ∃ tag,
        Occurs (tagReader (isStoredTagChar f) f.isAlphabetic) done todo tag ∧
          toLowercase tag = value) := by
  intro done todo
  induction todo generalizing done with
  | nil =>
    intro hashtags
    simp [profileHashtagsLoop, occurs_nil]
  | cons c rest ih =>
    intro hashtags
    have hrest := ih (done ++ [c]) (storeHashtagAt f toLowercase done.getLast? c rest hashtags)
    rw [List.getLast?_concat] at hrest
    rw [profileHashtagsLoop, hrest, mem_storeHashtagAt, or_assoc]
    simp only [occurs_cons, or_and_right, exists_or]

/-- The stored hashtags are those that the text spells, in small letters. -/
theorem mem_profileHashtags {text value : Text} :
    value ∈ profileHashtags f toLowercase text ↔
      ∃ tag, SpellsTag (isStoredTagChar f) f.isAlphabetic text tag ∧ toLowercase tag = value := by
  have hloop := @mem_profileHashtagsLoop f toLowercase value [] text []
  rw [List.getLast?_nil] at hloop
  rw [profileHashtags, hloop]
  simp only [List.not_mem_nil, false_or, occurs_tagReader]

end Writer

/-! ### The formatter -/

inductive Anchor where
  | mention (target : MentionTarget) (withDomain : Bool)
  | hashtag (tag : Text)
  deriving DecidableEq

section Formatter

variable (f : HtmlFormatter) (mentions : List MentionTarget)

/-- The part that is written for an anchor. -/
def Anchor.part (displayDomains : Bool) : Anchor → Part
  | .mention target withDomain => .mention target.url (displayOf f target withDomain displayDomains)
  | .hashtag tag => .hashtag (hashtagUrl f tag) tag

def Part.isAnchor : Part → Bool
  | .mention _ _ | .hashtag _ _ => true
  | .plain _ | .link _ => false

def anchorReader : Reader Char Anchor := fun before c rest =>
  if c = '@' then
    (readMention f mentions before rest).map fun found =>
      (.mention found.2.1 found.2.2, found.1.length)
  else if isHash c then (readHashtag f before rest).map fun tag => (.hashtag tag, tag.length)
  else none

/-- The texts between the links. -/
def piecesOf (text : Text) : List Text :=
  match cutLinks text 0 (f.links text) with
  | none => []
  | some (segments, rest) => segments.map Prod.fst ++ [rest]

/-- The mentions and hashtags that become links, in their order. -/
def localAnchors (text : Text) : List Anchor :=
  (piecesOf f text).flatMap fun piece => scan (anchorReader f mentions) (piece.length + 1) none piece

variable {f mentions} {displayDomains : Bool}

theorem readParts_anchors : ∀ (fuel : ℕ) (before : Option Char) (plain rest : Text),
    (readParts f mentions displayDomains fuel before plain rest).filter Part.isAnchor =
      (scan (anchorReader f mentions) fuel before rest).map (Anchor.part f displayDomains) := by
  intro fuel
  induction fuel with
  | zero => intros; rfl
  | succ fuel ih =>
    intro before plain rest
    cases rest with
    | nil => rfl
    | cons c rest =>
      rw [readParts, scan, anchorReader]
      split_ifs with hat hhash
      · cases hread : readMention f mentions before rest with
        | none => exact ih _ _ _
        | some found =>
          obtain ⟨taken, target, withDomain⟩ := found
          obtain ⟨after, rfl⟩ := readMention_taken hread
          simp only [Option.map_some, List.take_left, List.drop_left]
          exact congrArg (List.cons _) (ih (c :: taken).getLast? [] after)
      · cases hread : readHashtag f before rest with
        | none => exact ih _ _ _
        | some tag =>
          obtain ⟨after, rfl⟩ := readHashtag_taken hread
          simp only [Option.map_some, List.take_left, List.drop_left]
          exact congrArg (List.cons _) (ih (c :: tag).getLast? [] after)
      · exact ih _ _ _

/-- The anchors are what the parts of the text have beside plain text and links. -/
theorem localParts_anchors (text : Text) :
    (localParts f mentions displayDomains text).filter Part.isAnchor =
      (localAnchors f mentions text).map (Anchor.part f displayDomains) := by
  rw [localParts, localAnchors, piecesOf]
  cases cutLinks text 0 (f.links text) with
  | none => rfl
  | some cut =>
    obtain ⟨segments, rest⟩ := cut
    have hparts : ∀ piece, (partsOf f mentions displayDomains piece).filter Part.isAnchor =
        (scan (anchorReader f mentions) (piece.length + 1) none piece).map
          (Anchor.part f displayDomains) := fun piece => readParts_anchors _ _ _ _
    dsimp only
    rw [segmentParts, List.filter_append, hparts, List.flatMap_append, List.map_append]
    congr 1
    · induction segments with
      | nil => rfl
      | cons segment segments ih =>
        obtain ⟨plain, link⟩ := segment
        simp only [List.flatMap_cons, List.filter_append, List.map_append, List.map_cons, hparts, ih]
        simp [Part.isAnchor]
    · simp

/-- What is asked of the classes of characters: on ASCII they are the usual ones, and the wide sign of
    a hashtag is no letter or digit. -/
structure HtmlFormatter.Unicode (f : HtmlFormatter) : Prop where
  ascii : ∀ c : Char, c.toNat < 128 → f.isAlphanumeric c = c.isAlphanum
  wide : f.isAlphanumeric '＃' = false

theorem not_alphanumeric_of_sign (hf : f.Unicode) {c : Char} (h : c = '@' ∨ isHash c = true) :
    f.isAlphanumeric c = false := by
  rcases h with rfl | h
  · exact hf.ascii '@' (by decide)
  · rw [isHash, Bool.or_eq_true, beq_iff_eq, beq_iff_eq] at h
    rcases h with rfl | rfl
    · exact hf.ascii '#' (by decide)
    · exact hf.wide

/-- A sign is in none of the classes of the formatter. -/
theorem sign_classes (hf : f.Unicode) {c : Char} (h : c = '@' ∨ isHash c = true) :
    isNameChar f c = false ∧ isDomainChar f c = false ∧ isTagChar f c = false := by
  rw [isNameChar, isDomainChar, isTagChar, not_alphanumeric_of_sign hf h]
  rcases h with rfl | h
  · decide
  · rw [isHash, Bool.or_eq_true, beq_iff_eq, beq_iff_eq] at h
    rcases h with rfl | rfl <;> decide

theorem linkedGrammar_closed (hf : f.Unicode) : (linkedGrammar f).Closed where
  name := (sign_classes hf (.inl rfl)).1
  domain := (sign_classes hf (.inl rfl)).2.1
  blocks := fun _ h => h

theorem readMention_eq (before : Option Char) (rest : Text) :
    readMention f mentions before rest =
      ((linkedGrammar f).read before rest).bind fun handle =>
        (mentions.find? (isTarget handle.1 (lookupDomain (some f.localDomain) handle.2))).map
          fun target => (handle.1 ++ domainText handle.2, target, handle.2.isSome) := by
  rw [readMention, Grammar.read, show (linkedGrammar f).blocks = isNameChar f from rfl,
    show (linkedGrammar f).nameChar = isNameChar f from rfl]
  split
  · rfl
  · dsimp only
    split <;> rfl

theorem readMention_eq_some {before : Option Char} {rest taken : Text} {target : MentionTarget}
    {withDomain : Bool} :
    readMention f mentions before rest = some (taken, target, withDomain) ↔
      ∃ username domain, (linkedGrammar f).read before rest = some (username, domain) ∧
        mentions.find? (isTarget username (lookupDomain (some f.localDomain) domain)) = some target ∧
        taken = username ++ domainText domain ∧ withDomain = domain.isSome := by
  rw [readMention_eq, Option.bind_eq_some_iff]
  constructor
  · rintro ⟨⟨username, domain⟩, hread, hfound⟩
    obtain ⟨found, hfind, hresult⟩ := Option.map_eq_some_iff.mp hfound
    obtain ⟨rfl, hpair⟩ := Prod.mk.inj hresult
    obtain ⟨rfl, rfl⟩ := Prod.mk.inj hpair
    exact ⟨username, domain, hread, hfind, rfl, rfl⟩
  · rintro ⟨username, domain, hread, hfind, rfl, rfl⟩
    exact ⟨(username, domain), hread, by simp only [hfind, Option.map_some]⟩

theorem readHashtag_eq (before : Option Char) {hash : Char} (hhash : isHash hash = true)
    (rest : Text) : (readHashtag f before rest).map (fun tag => (tag, tag.length)) =
      tagReader (isTagChar f) f.isAlphabetic before hash rest := by
  rw [readHashtag, tagReader, hhash, Bool.true_and]
  by_cases hbefore : (before.any fun c => !isWhitespace c) = true
  · simp [hbefore]
  · rw [Bool.not_eq_true] at hbefore
    rw [hbefore]
    simp only [Bool.false_eq_true, if_false, Bool.not_false, if_true]
    split <;> rfl

theorem anchorReader_skips (hf : f.Unicode) : Skips (anchorReader f mentions) := by
  intro before c rest anchor n hread inner c' rest' hrest hlength
  unfold anchorReader at hread
  split at hread
  · obtain ⟨⟨taken, target, withDomain⟩, hfound, heq⟩ := Option.map_eq_some_iff.mp hread
    obtain ⟨-, rfl⟩ := Prod.mk.inj heq
    obtain ⟨username, domain, hhandle, -, rfl, -⟩ := readMention_eq_some.mp hfound
    obtain ⟨-, hne, after, rfl, hrun, hdomain⟩ := read_eq_some.mp hhandle
    rw [← List.append_assoc] at hrest
    obtain ⟨more, hmore⟩ := split_inside hrest hlength
    unfold anchorReader
    split_ifs with hat hhash
    · subst hat
      have hinside := @read_inside (linkedGrammar f) (linkedGrammar_closed hf) username domain after
        hne hrun hdomain inner more c hmore rest'
      rw [readMention_eq, hinside]
      rfl
    · have hclasses := sign_classes hf (.inr hhash)
      have hmem : c' ∈ username ++ domainText domain := by
        rw [hmore]
        simp
      rcases mem_handle hrun hdomain hmem with h | h | h
      · exact absurd h hat
      · exact absurd h (by simp [linkedGrammar, hclasses.1])
      · exact absurd h (by simp [linkedGrammar, hclasses.2.1])
    · rfl
  split at hread
  · obtain ⟨tag, hfound, heq⟩ := Option.map_eq_some_iff.mp hread
    obtain ⟨-, rfl⟩ := Prod.mk.inj heq
    have htag : ∀ c ∈ tag, isTagChar f c = true := by
      rw [readHashtag] at hfound
      split at hfound
      · cases hfound
      dsimp only at hfound
      split at hfound
      · obtain rfl := Option.some.inj hfound
        exact fun c hc => List.mem_takeWhile_imp hc
      · cases hfound
    obtain ⟨after, rfl⟩ := readHashtag_taken hfound
    obtain ⟨more, rfl⟩ := split_inside hrest hlength
    have hc' := htag c' (by simp)
    have hsign : ¬ (c' = '@' ∨ isHash c' = true) := fun h => by
      rw [(sign_classes hf h).2.2] at hc'
      cases hc'
    rw [anchorReader, if_neg fun h => hsign (.inl h), if_neg fun h => hsign (.inr h)]
  · cases hread

theorem mem_localAnchors (hf : f.Unicode) {text : Text} {anchor : Anchor} :
    anchor ∈ localAnchors f mentions text ↔
      ∃ piece ∈ piecesOf f text, Occurs (anchorReader f mentions) [] piece anchor := by
  rw [localAnchors, List.mem_flatMap]
  refine exists_congr fun piece => and_congr_right fun _ => ?_
  exact @mem_scan _ _ (anchorReader f mentions) anchor (anchorReader_skips hf) (piece.length + 1) []
    piece (Nat.lt_succ_self _)

/-- The accounts that are linked are those whose handle a text between the links spells. -/
theorem mention_mem_localAnchors (hf : f.Unicode) {text : Text} {target : MentionTarget} :
    (∃ withDomain, Anchor.mention target withDomain ∈ localAnchors f mentions text) ↔
      ∃ piece ∈ piecesOf f text, ∃ username domain,
        (linkedGrammar f).Spells piece username domain ∧
          mentions.find? (isTarget username (lookupDomain (some f.localDomain) domain)) =
            some target := by
  constructor
  · rintro ⟨withDomain, hmem⟩
    obtain ⟨piece, hpiece, before, c, rest, n, htext, hread⟩ := (mem_localAnchors hf).mp hmem
    unfold anchorReader at hread
    split at hread
    · rename_i hat
      obtain ⟨⟨taken, found, withDomain'⟩, hfound, heq⟩ := Option.map_eq_some_iff.mp hread
      obtain ⟨heq, -⟩ := Prod.mk.inj heq
      obtain ⟨rfl, rfl⟩ := Anchor.mention.inj heq
      obtain ⟨username, domain, hhandle, hfind, -, -⟩ := readMention_eq_some.mp hfound
      refine ⟨piece, hpiece, username, domain, occurs_reader.mp ?_, hfind⟩
      refine ⟨before, c, rest, (username ++ domainText domain).length, htext, ?_⟩
      rw [Grammar.reader, if_pos hat, hhandle]
      rfl
    · split at hread
      · obtain ⟨tag, -, heq⟩ := Option.map_eq_some_iff.mp hread
        cases heq
      · cases hread
  · rintro ⟨piece, hpiece, username, domain, hspells, hfind⟩
    obtain ⟨before, c, rest, n, htext, hread⟩ := occurs_reader.mpr hspells
    unfold Grammar.reader at hread
    split at hread
    · rename_i hat
      obtain ⟨handle, hhandle, heq⟩ := Option.map_eq_some_iff.mp hread
      obtain ⟨rfl, -⟩ := Prod.mk.inj heq
      refine ⟨domain.isSome, (mem_localAnchors hf).mpr ⟨piece, hpiece, before, c, rest,
        (username ++ domainText domain).length, htext, ?_⟩⟩
      rw [anchorReader, if_pos hat, readMention_eq_some.mpr ⟨username, domain, hhandle, hfind, rfl, rfl⟩]
      rfl
    · cases hread

/-- The hashtags that are linked are those that a text between the links spells. -/
theorem hashtag_mem_localAnchors (hf : f.Unicode) {text tag : Text} :
    Anchor.hashtag tag ∈ localAnchors f mentions text ↔
      ∃ piece ∈ piecesOf f text, SpellsTag (isTagChar f) f.isAlphabetic piece tag := by
  rw [mem_localAnchors hf]
  refine exists_congr fun piece => and_congr_right fun _ => ?_
  rw [← occurs_tagReader]
  constructor
  · rintro ⟨before, c, rest, n, htext, hread⟩
    unfold anchorReader at hread
    split at hread
    · obtain ⟨found, -, heq⟩ := Option.map_eq_some_iff.mp hread
      cases heq
    · split at hread
      · rename_i hhash
        obtain ⟨found, hfound, heq⟩ := Option.map_eq_some_iff.mp hread
        obtain ⟨heq, -⟩ := Prod.mk.inj heq
        obtain rfl := Anchor.hashtag.inj heq
        refine ⟨before, c, rest, found.length, htext, ?_⟩
        rw [← readHashtag_eq _ hhash, hfound]
        rfl
      · cases hread
  · rintro ⟨before, c, rest, n, htext, hread⟩
    have hhash : isHash c = true := by
      unfold tagReader at hread
      split at hread
      · rename_i hplace
        exact (Bool.and_eq_true_iff.mp hplace).1
      · cases hread
    have hat : c ≠ '@' := by
      rintro rfl
      revert hhash
      decide
    rw [← readHashtag_eq _ hhash] at hread
    obtain ⟨found, hfound, heq⟩ := Option.map_eq_some_iff.mp hread
    obtain ⟨rfl, -⟩ := Prod.mk.inj heq
    refine ⟨before, c, rest, found.length, htext, ?_⟩
    rw [anchorReader, if_neg hat, if_pos hhash, hfound]
    rfl

end Formatter

end Rustodon.Html
