import Rustodon.Html.LocalParts
import Rustodon.Schemes.Scanner

/-! @src mastodon/write_repository.rs | name:What a status mentions when it is written | scheme:scanners |
    family:html

    The hashtags and the mentions that are stored with the text of a status. The scan for mentions
    tests ASCII bytes only, which are characters of their own in UTF-8, so that it is read by
    characters here. Whether a character is a letter, and small letters, are parameters. -/

namespace Rustodon.Html
open Schemes.Utf8

/-! ### Hashtags -/

section Hashtags

variable (f : HtmlFormatter) (toLowercase : Text → Text)

def isStoredTagChar (c : Char) : Bool :=
  f.isAlphanumeric c || c == '_' || c == '·' || c == '・' || c == Char.ofNat 0x200C

/-- What one place of the text adds to the hashtags. -/
def storeHashtagAt (before : Option Char) (c : Char) (rest : Text) (hashtags : List Text) :
    List Text :=
  if !isHash c || before.any fun c => !isWhitespace c then hashtags
  else
    let value := rest.takeWhile (isStoredTagChar f)
    if value.isEmpty then hashtags
    else if !value.any f.isAlphabetic then hashtags
    else if toLowercase value ∈ hashtags then hashtags
    else hashtags ++ [toLowercase value]

def profileHashtagsLoop : Option Char → Text → List Text → List Text
  | _, [], hashtags => hashtags
  | before, c :: rest, hashtags =>
    profileHashtagsLoop (some c) rest (storeHashtagAt f toLowercase before c rest hashtags)

def profileHashtags (note : Text) : List Text := profileHashtagsLoop f toLowercase none note []

end Hashtags

/-! ### Candidates -/

def isUsernameByte (c : Char) : Bool := c.isAlphanum || c == '_' || c == '-'

def isDomainByte (c : Char) : Bool := c.isAlphanum || c == '.' || c == '-' || c == ':'

abbrev Candidate := Text × Option Text

/-- The domain behind a name. -/
def candidateDomain (rest : Text) : Option Text :=
  match rest with
  | '@' :: rest =>
    let domain := rest.takeWhile isDomainByte
    if domain.isEmpty then none else some domain
  | _ => none

/-- The sign and the characters of a domain. -/
def domainText (domain : Option Text) : Text := domain.elim [] ('@' :: ·)

def pushCandidate (candidates : List Candidate) (username : Text) (domain : Option Text) :
    List Candidate :=
  let username := toAsciiLowercase username
  if candidates.any fun candidate => candidate.1 == username && candidate.2 == domain then candidates
  else candidates ++ [(username, domain.map toAsciiLowercase)]

/-- The loop over the index, which jumps to the end of what it takes. -/
def candidatesLoop : ℕ → Option Char → Text → List Candidate → List Candidate
  | 0, _, _, candidates => candidates
  | _ + 1, _, [], candidates => candidates
  | fuel + 1, before, c :: rest, candidates =>
    if c != '@' || before.any isUsernameByte then candidatesLoop fuel (some c) rest candidates
    else
      let username := rest.takeWhile isUsernameByte
      if username.isEmpty then candidatesLoop fuel (some c) rest candidates
      else
        let domain := candidateDomain (rest.dropWhile isUsernameByte)
        let taken := username ++ domainText domain
        candidatesLoop fuel (c :: rest.take taken.length).getLast? (rest.drop taken.length)
          (pushCandidate candidates username domain)

def statusMentionCandidates (text : Text) : List Candidate :=
  candidatesLoop (text.length + 1) none text []

/-! ### Rows -/

structure LocalUser where
  confirmedAt : Option ℤ
  approved : Bool

/-- A row of `accounts`, with the row of `users` that is joined to it. -/
structure Account where
  id : ℤ
  username : Text
  domain : Option Text
  suspendedAt : Option ℤ
  protocol : ℤ
  user : Option LocalUser

def sameDomain : Option Text → Option Text → Bool
  | none, none => true
  | some domain, some domain' => eqIgnoreAsciiCase domain domain'
  | _, _ => false

/-- The accounts, whose handles are unique up to case, and the blocks. -/
structure Accounts where
  rows : List Account
  blocks : List (ℤ × ℤ)
  domainBlocks : List (ℤ × Text)
  ids_unique : ∀ account ∈ rows, ∀ account' ∈ rows, account.id = account'.id → account = account'
  handles_unique : ∀ account ∈ rows, ∀ account' ∈ rows,
    eqIgnoreAsciiCase account.username account'.username = true →
      sameDomain account.domain account'.domain = true → account = account'

/-- The conditions of the query on an account that has the handle. -/
def Accounts.mentionable (accounts : Accounts) (authorId : ℤ) (account : Account) : Bool :=
  account.suspendedAt.isNone && (account.domain.isNone || decide (account.protocol = 1)) &&
    (account.domain.isSome ||
      account.user.any fun user => user.confirmedAt.isSome && user.approved) &&
    !accounts.blocks.contains (authorId, account.id) &&
    !account.domain.any fun domain => accounts.domainBlocks.contains (authorId, domain)

def Accounts.lookup (accounts : Accounts) (authorId : ℤ) (username : Text) (domain : Option Text) :
    Option Account :=
  accounts.rows.find? fun account =>
    account.username == username && account.domain == domain &&
      accounts.mentionable authorId account

structure Mention where
  id : ℤ
  accountId : ℤ
  silent : Bool
  deriving DecidableEq

/-- The rows of `mentions` for the status, and the next id. -/
structure MentionTable where
  rows : List Mention
  nextId : ℤ

/-- `INSERT … ON CONFLICT … DO UPDATE`. -/
def MentionTable.upsert (table : MentionTable) (accountId : ℤ) : MentionTable × ℤ :=
  match table.rows.find? fun mention => mention.accountId = accountId with
  | some mention =>
    (⟨table.rows.map fun row => if row.accountId = accountId then { row with silent := false } else row,
      table.nextId + 1⟩, mention.id)
  | none => (⟨table.rows ++ [⟨table.nextId, accountId, false⟩], table.nextId + 1⟩, table.nextId)

/-- The domain by which an account is looked up: accounts of this server have none. -/
def lookupDomain (localDomain : Option Text) (domain : Option Text) : Option Text :=
  domain.filter fun domain => !localDomain.any fun localDomain => eqIgnoreAsciiCase domain localDomain

section Insert

variable (accounts : Accounts) (authorId : ℤ) (localDomain : Option Text)

def insertCandidate (state : MentionTable × List (ℤ × ℤ)) (candidate : Candidate) :
    MentionTable × List (ℤ × ℤ) :=
  match accounts.lookup authorId candidate.1 (lookupDomain localDomain candidate.2) with
  | none => state
  | some account =>
    if state.2.any fun target => target.2 == account.id then state
    else
      let (table, mentionId) := state.1.upsert account.id
      (table, state.2 ++ [(mentionId, account.id)])

/-- The table, and the ids of the mentions and of their accounts. -/
def insertStatusMentions (text : Text) (table : MentionTable) : MentionTable × List (ℤ × ℤ) :=
  (statusMentionCandidates text).foldl (insertCandidate accounts authorId localDomain) (table, [])

/-- The account is a target of the mentions. -/
def Stored (text : Text) (table : MentionTable) (account : Account) : Prop :=
  account.id ∈ (insertStatusMentions accounts authorId localDomain text table).2.map Prod.snd

/-- How the targets are handed to the formatter. -/
def mentionTarget (url : Account → Text) (account : Account) : MentionTarget :=
  ⟨account.username, account.domain, url account⟩

def storedTargets (url : Account → Text) (text : Text) (table : MentionTable) :
    List MentionTarget :=
  (insertStatusMentions accounts authorId localDomain text table).2.filterMap fun target =>
    (accounts.rows.find? fun account => decide (account.id = target.2)).map (mentionTarget url)

end Insert

/-! ### What a lookup finds -/

variable {accounts : Accounts} {authorId : ℤ}

theorem sameDomain_refl (domain : Option Text) : sameDomain domain domain = true := by
  cases domain with
  | none => rfl
  | some domain => exact eqIgnoreAsciiCase_refl domain

theorem lookup_eq_some {username : Text} {domain : Option Text} {account : Account}
    (hrow : account ∈ accounts.rows) :
    accounts.lookup authorId username domain = some account ↔
      account.username = username ∧ account.domain = domain ∧
        accounts.mentionable authorId account = true := by
  constructor
  · intro h
    have hfound := List.find?_some h
    simp only [Bool.and_eq_true, beq_iff_eq] at hfound
    exact ⟨hfound.1.1, hfound.1.2, hfound.2⟩
  · rintro ⟨rfl, rfl, hmentionable⟩
    have hsome : (accounts.lookup authorId account.username account.domain).isSome := by
      rw [Accounts.lookup, List.find?_isSome]
      exact ⟨account, hrow, by simp [hmentionable]⟩
    obtain ⟨found, hfound⟩ := Option.isSome_iff_exists.mp hsome
    have hsame := List.find?_some hfound
    simp only [Bool.and_eq_true, beq_iff_eq] at hsame
    obtain ⟨⟨husername, hdomain⟩, -⟩ := hsame
    have heq : found = account := by
      refine accounts.handles_unique found (List.mem_of_find?_eq_some hfound) account hrow ?_ ?_
      · rw [husername]
        exact eqIgnoreAsciiCase_refl _
      · rw [hdomain]
        exact sameDomain_refl _
    rw [hfound, heq]

theorem mem_insertCandidates {localDomain : Option Text} {id : ℤ} :
    ∀ (candidates : List Candidate) (state : MentionTable × List (ℤ × ℤ)),
      (id ∈ ((candidates.foldl (insertCandidate accounts authorId localDomain) state).2.map Prod.snd) ↔
        id ∈ state.2.map Prod.snd ∨ ∃ candidate ∈ candidates, ∃ account,
          accounts.lookup authorId candidate.1 (lookupDomain localDomain candidate.2) = some account ∧
            account.id = id) := by
  intro candidates
  induction candidates with
  | nil => simp
  | cons candidate candidates ih =>
    intro state
    rw [List.foldl_cons, ih, insertCandidate]
    cases hlookup : accounts.lookup authorId candidate.1 (lookupDomain localDomain candidate.2) with
    | none => simp [hlookup]
    | some account =>
      dsimp only
      split_ifs with hknown
      · obtain ⟨target, htarget, hid⟩ := List.any_eq_true.mp hknown
        have hmem : account.id ∈ state.2.map Prod.snd :=
          List.mem_map.mpr ⟨target, htarget, by simpa using hid⟩
        constructor
        · rintro (hold | ⟨candidate', hcandidate', hfound⟩)
          · exact .inl hold
          · exact .inr ⟨candidate', List.mem_cons_of_mem _ hcandidate', hfound⟩
        · rintro (hold | ⟨candidate', hcandidate', account', hfound, rfl⟩)
          · exact .inl hold
          rcases List.mem_cons.mp hcandidate' with rfl | hcandidate'
          · rw [hlookup] at hfound
            obtain rfl := Option.some.inj hfound
            exact .inl hmem
          · exact .inr ⟨candidate', hcandidate', account', hfound, rfl⟩
      · rw [List.map_append, List.mem_append, or_assoc]
        simp [hlookup, @eq_comm _ id account.id]

/-- The accounts that are stored are those that a candidate names. -/
theorem stored_iff {localDomain : Option Text} {text : Text} {table : MentionTable}
    {account : Account} (hrow : account ∈ accounts.rows) :
    Stored accounts authorId localDomain text table account ↔
      accounts.mentionable authorId account = true ∧
        ∃ candidate ∈ statusMentionCandidates text, account.username = candidate.1 ∧
          account.domain = lookupDomain localDomain candidate.2 := by
  rw [Stored, insertStatusMentions, mem_insertCandidates]
  constructor
  · rintro (hnone | ⟨candidate, hcandidate, found, hlookup, hid⟩)
    · simp at hnone
    · have hfound : found ∈ accounts.rows := List.mem_of_find?_eq_some hlookup
      obtain rfl := accounts.ids_unique found hfound account hrow hid
      obtain ⟨husername, hdomain, hmentionable⟩ := (lookup_eq_some hrow).mp hlookup
      exact ⟨hmentionable, candidate, hcandidate, husername, hdomain⟩
  · rintro ⟨hmentionable, candidate, hcandidate, husername, hdomain⟩
    exact .inr ⟨candidate, hcandidate, account,
      (lookup_eq_some hrow).mpr ⟨husername, hdomain, hmentionable⟩, rfl⟩

theorem mentionTarget_inj {url : Account → Text} {account account' : Account}
    (hrow : account ∈ accounts.rows) (hrow' : account' ∈ accounts.rows)
    (h : mentionTarget url account = mentionTarget url account') : account = account' := by
  obtain ⟨husername, hdomain, -⟩ := MentionTarget.mk.inj h
  refine accounts.handles_unique account hrow account' hrow' ?_ ?_
  · rw [husername]
    exact eqIgnoreAsciiCase_refl _
  · rw [hdomain]
    exact sameDomain_refl _

theorem mem_storedTargets {localDomain : Option Text} {url : Account → Text} {text : Text}
    {table : MentionTable} {target : MentionTarget} :
    target ∈ storedTargets accounts authorId localDomain url text table ↔
      ∃ account ∈ accounts.rows, Stored accounts authorId localDomain text table account ∧
        mentionTarget url account = target := by
  rw [storedTargets, List.mem_filterMap]
  constructor
  · rintro ⟨⟨mentionId, accountId⟩, htarget, hfound⟩
    obtain ⟨account, hfind, rfl⟩ := Option.map_eq_some_iff.mp hfound
    have hid : account.id = accountId := by simpa using List.find?_some hfind
    refine ⟨account, List.mem_of_find?_eq_some hfind, ?_, rfl⟩
    rw [Stored, List.mem_map]
    exact ⟨_, htarget, hid.symm⟩
  · rintro ⟨account, hrow, hstored, rfl⟩
    obtain ⟨target, htarget, hid⟩ := List.mem_map.mp hstored
    refine ⟨target, htarget, ?_⟩
    have hsome : (accounts.rows.find? fun row => decide (row.id = target.2)).isSome := by
      rw [List.find?_isSome]
      exact ⟨account, hrow, by simp [hid]⟩
    obtain ⟨found, hfind⟩ := Option.isSome_iff_exists.mp hsome
    have hfoundId : found.id = target.2 := by simpa using List.find?_some hfind
    have heq := accounts.ids_unique found (List.mem_of_find?_eq_some hfind) account hrow
      (hfoundId.trans hid)
    rw [hfind, heq]
    rfl

end Rustodon.Html
