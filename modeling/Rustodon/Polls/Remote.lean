import Rustodon.Inbox.Activity
import Rustodon.Ingest.Accounts
import Rustodon.Polls.Rows

/-! @src mastodon/write_repository/remote_note.rs, mastodon/write_repository/remote_ingest.rs |
    name:Remote polls | scheme:labelled runs | family:polls

    A question of a remote server, as it is read from a document, and its poll, as creations, updates
    and signed refreshes write it. One note is followed, under the lock on its URI. Its other parts
    are left out: they may only make a transaction fail, or make an update a meaningful one. -/

namespace Rustodon.Polls
open Schemes.Checked Schemes.Json
open Inbox (equalsOrIncludes)
open Ingest (Written)
open Schemes.Utf8 (trim)

/-! ### The document -/

/-- What a transaction meets: the clock, what the database draws, and the parts left out. -/
structure Surroundings where
  now : ℤ
  newStatusId : ℤ
  newPollId : ℤ
  /-- `DateTime::parse_from_rfc3339`, in microseconds. -/
  parseFromRfc3339 : String → Option ℤ
  /-- The checks of the other parts of the document. -/
  otherParts : Fields → Written Unit
  /-- The account is remote, has the URI of the actor and is not suspended. -/
  accountActive : Bool
  tombstoned : Bool
  /-- The quote, the rendered status or its timelines changed. -/
  otherChange : Bool
  /-- What becomes of the expiration of the poll. -/
  expiration : Written Unit
  /-- The rest of the transaction. -/
  rest : Written Unit

structure RemotePollData where
  options : List String
  tallies : List ℤ
  multiple : Bool
  expiresAt : Option ℤ
  votersCount : Option ℤ
  deriving DecidableEq

/-- A text that is more than white space. -/
def titleOf (value : Option Value) : Option String :=
  (value.bind Value.asStr).filter fun title => !(trim title.toList).isEmpty

/-- The name of an option, or else its content. -/
def optionTitle (option : Fields) : Option String :=
  (titleOf (get option "name")).or (titleOf (get option "content"))

/-- The count reported for an option. -/
def optionTally (option : Fields) : ℤ :=
  max (((((get option "replies").bind Value.asObject).bind fun replies =>
    get replies "totalItems").bind Value.asI64).getD 0) 0

/-- `multiple` and the values of the options. -/
def questionOptions (object : Fields) : Option (Bool × List Value) :=
  match get object "anyOf" with
  | some (.array values) => some (true, values)
  | _ =>
    match get object "oneOf" with
    | some (.array values) => some (false, values)
    | _ => none

/-- One pass of the loop over the options: the title is pushed where there is one, the count always. -/
def pushOption (pushed : List String × List ℤ) (value : Value) : Written (List String × List ℤ) := do
  let option ← okOr value.asObject (.invalidInput "remote Question option is invalid")
  .ok (pushed.1 ++ (optionTitle option).toList, pushed.2 ++ [optionTally option])

def questionExpiresAt (env : Surroundings) (object : Fields) : Option ℤ :=
  match get object "closed" with
  | some (.string value) => env.parseFromRfc3339 value
  | some (.bool true) | some (.number _) | some (.array _) | some (.object _) => some env.now
  | none | some .null | some (.bool false) =>
    ((get object "endTime").bind Value.asStr).bind env.parseFromRfc3339

def remotePollData (env : Surroundings) (object : Fields) : Written RemotePollData := do
  let (multiple, values) ←
    okOr (questionOptions object) (.invalidInput "remote Question options are invalid")
  let (options, tallies) ← (values.take 500).foldlM pushOption ([], [])
  failIf options.isEmpty (.invalidInput "remote Question options are empty")
  .ok
    { options
      tallies
      multiple
      expiresAt := questionExpiresAt env object
      votersCount := ((get object "votersCount").bind Value.asI64).map (max · 0) }

def day : ℤ := 24 * 60 * 60 * 1000000

def remoteNoteTimestamp (env : Surroundings) (object : Fields) (field : String) (fallback : ℤ) :
    Written ℤ :=
  match get object field with
  | none => .ok fallback
  | some value => do
    let value ← okOr value.asStr (.invalidInput "remote Note timestamp is invalid")
    let timestamp ← okOr (env.parseFromRfc3339 value)
      (.invalidInput "remote Note timestamp is invalid")
    failIf (decide (env.now + day < timestamp))
      (.invalidInput "remote Note timestamp is too far in the future")
    .ok timestamp

/-- A parsed note, as far as its poll depends on it. -/
structure RemoteNoteData where
  publishedAt : ℤ
  updatedAt : ℤ
  editedAt : Option ℤ
  poll : Option RemotePollData

def remoteNoteEditedAt (env : Surroundings) (object : Fields) (publishedAt : ℤ) :
    Written (Option ℤ) :=
  match get object "updated" with
  | none => .ok none
  | some _ => (remoteNoteTimestamp env object "updated" publishedAt).map some

def remoteNotePoll (env : Surroundings) (object : Fields) : Written (Option RemotePollData) :=
  if equalsOrIncludes (get object "type") "Question" then (remotePollData env object).map some
  else .ok none

def RemoteNoteData.parse (env : Surroundings) (object : Value) : Written RemoteNoteData := do
  let object ← okOr object.asObject (.invalidInput "remote Note object is invalid")
  failIf (!equalsOrIncludes (get object "type") "Note" &&
      !equalsOrIncludes (get object "type") "Question")
    (.invalidInput "remote object is not a Note or Question")
  env.otherParts object
  let publishedAt ← remoteNoteTimestamp env object "published" env.now
  let editedAt ← remoteNoteEditedAt env object publishedAt
  let poll ← remoteNotePoll env object
  .ok { publishedAt, editedAt, updatedAt := editedAt.getD publishedAt, poll }

/-! ### The poll of a note -/

/-- A row of `statuses`, with the poll that belongs to it. -/
structure RemoteNote where
  statusId : ℤ
  accountId : ℤ
  createdAt : ℤ
  editedAt : Option ℤ
  deletedAt : Option ℤ
  ballots : Option Ballots

inductive RemotePollReconcile where
  | unchanged
  | tally (updatedAt : ℤ)
  | significant
  deriving DecidableEq

inductive RemoteUpdateAuthority where
  | inbox | signedRefresh
  deriving DecidableEq

def RemoteUpdateAuthority.rejectsTallyRegression : RemoteUpdateAuthority → Bool
  | .inbox => true
  | .signedRefresh => false

def RemoteUpdateAuthority.claimsFreshness : RemoteUpdateAuthority → Bool
  | .inbox => false
  | .signedRefresh => true

def remotePollVotesCount (poll : RemotePollData) : Written ℤ :=
  okOr (poll.tallies.foldlM checkedAdd 0) (.invalidInput "remote poll vote count is invalid")

def votersAreMonotonic : Option ℤ → Option ℤ → Bool
  | some cached, some incoming => decide (cached ≤ incoming)
  | some _, none => false
  | none, _ => true

def remotePollTalliesAreMonotonic (cachedTallies : List ℤ) (cachedVotesCount : ℤ)
    (cachedVotersCount : Option ℤ) (poll : RemotePollData) (incomingVotesCount : ℤ) : Bool :=
  decide (cachedTallies.length = poll.tallies.length) &&
    (cachedTallies.zip poll.tallies).all (fun (cached, incoming) => decide (cached ≤ incoming)) &&
    decide (cachedVotesCount ≤ incomingVotesCount) &&
    votersAreMonotonic cachedVotersCount poll.votersCount

def shapeChanged (existing : Poll) (poll : RemotePollData) : Bool :=
  decide (existing.options ≠ poll.options) || decide (existing.multiple ≠ poll.multiple)

/-- The row of a new poll. -/
def newRemotePoll (env : Surroundings) (note : RemoteNote) (poll : RemotePollData) (votesCount : ℤ)
    (markFetched : Bool) : Poll where
  id := env.newPollId
  accountId := note.accountId
  statusId := note.statusId
  options := poll.options
  cachedTallies := poll.tallies
  votesCount := votesCount
  votersCount := poll.votersCount
  multiple := poll.multiple
  hideTotals := false
  expiresAt := poll.expiresAt
  lastFetchedAt := if markFetched then some env.now else none
  lockVersion := 0
  updatedAt := env.now

def markFetchedAt (env : Surroundings) (markFetched : Bool) (existing : Poll) : Poll :=
  if markFetched then { existing with lastFetchedAt := some env.now } else existing

/-- A row whose tallies are the reported ones. -/
def tallied (env : Surroundings) (markFetched : Bool) (poll : RemotePollData) (votesCount : ℤ)
    (existing : Poll) : Poll :=
  { markFetchedAt env markFetched existing with
    options := poll.options
    cachedTallies := poll.tallies
    votesCount := votesCount
    votersCount := poll.votersCount
    multiple := poll.multiple
    expiresAt := poll.expiresAt
    lockVersion := existing.lockVersion + 1
    updatedAt := env.now }

/-- A row that starts again with other options. -/
def reshaped (env : Surroundings) (markFetched : Bool) (poll : RemotePollData) (existing : Poll) :
    Poll :=
  { markFetchedAt env markFetched existing with
    options := poll.options
    cachedTallies := List.replicate poll.options.length 0
    votesCount := 0
    votersCount := some 0
    multiple := poll.multiple
    expiresAt := poll.expiresAt
    lockVersion := existing.lockVersion + 1
    updatedAt := env.now }

theorem id_markFetchedAt (env : Surroundings) (markFetched : Bool) (existing : Poll) :
    (markFetchedAt env markFetched existing).id = existing.id := by
  cases markFetched <;> rfl

theorem id_tallied (env : Surroundings) (markFetched : Bool) (poll : RemotePollData)
    (votesCount : ℤ) (existing : Poll) :
    (tallied env markFetched poll votesCount existing).id = existing.id :=
  id_markFetchedAt env markFetched existing

/-- The row is there already. -/
def isCurrent (existing : Poll) (poll : RemotePollData) (votesCount : ℤ) : Bool :=
  decide (existing.cachedTallies = poll.tallies) && decide (existing.votesCount = votesCount) &&
    decide (existing.votersCount = poll.votersCount) &&
    decide (existing.expiresAt = poll.expiresAt)

def updateRemotePoll (env : Surroundings) (ballots : Ballots) (poll : RemotePollData)
    (allowSignificantChanges rejectTallyRegression markFetched : Bool) :
    Written (Ballots × RemotePollReconcile) :=
  let existing := ballots.poll
  let changed := shapeChanged existing poll
  if changed && !allowSignificantChanges then .ok (ballots, .unchanged)
  else do
    let incomingVotesCount ← remotePollVotesCount poll
    if rejectTallyRegression && !changed &&
        !remotePollTalliesAreMonotonic existing.cachedTallies existing.votesCount
          existing.votersCount poll incomingVotesCount then
      .ok (ballots, .unchanged)
    else if !changed && isCurrent existing poll incomingVotesCount then
      .ok (ballots.modify (markFetchedAt env markFetched) (id_markFetchedAt env markFetched),
        .unchanged)
    else do
      env.expiration
      if changed then .ok (.empty (reshaped env markFetched poll existing), .significant)
      else
        .ok (ballots.modify (tallied env markFetched poll incomingVotesCount)
          (id_tallied env markFetched poll incomingVotesCount), .tally env.now)

def upsertRemotePoll (env : Surroundings) (note : RemoteNote) (poll : RemotePollData)
    (allowSignificantChanges rejectTallyRegression markFetched : Bool) :
    Written (RemoteNote × RemotePollReconcile) :=
  match note.ballots with
  | some ballots => do
    let (ballots, outcome) ← updateRemotePoll env ballots poll allowSignificantChanges
      rejectTallyRegression markFetched
    .ok ({ note with ballots := some ballots }, outcome)
  | none =>
    if !allowSignificantChanges then .ok (note, .unchanged)
    else do
      let votesCount ← remotePollVotesCount poll
      .ok ({ note with
        ballots := some (.empty (newRemotePoll env note poll votesCount markFetched)) }, .significant)

def reconcileRemotePoll (env : Surroundings) (note : RemoteNote) (poll : Option RemotePollData)
    (allowSignificantChanges rejectTallyRegression markFetched : Bool) :
    Written (RemoteNote × RemotePollReconcile) :=
  match poll with
  | some poll =>
    upsertRemotePoll env note poll allowSignificantChanges rejectTallyRegression markFetched
  | none =>
    if !allowSignificantChanges || note.ballots.isNone then .ok (note, .unchanged)
    else .ok ({ note with ballots := none }, .significant)

/-! ### Creations, updates and refreshes -/

/-- The note with one URI, if it is there. -/
abbrev Store := Option RemoteNote

def insertRemoteNote (env : Surroundings) (accountId : ℤ) (data : RemoteNoteData) : RemoteNote where
  statusId := env.newStatusId
  accountId := accountId
  createdAt := data.publishedAt
  editedAt := data.editedAt
  deletedAt := none
  ballots := none

def createRemoteNote (env : Surroundings) (accountId : ℤ) (data : RemoteNoteData) :
    Written RemoteNote :=
  let note := insertRemoteNote env accountId data
  match data.poll with
  | some poll => (upsertRemotePoll env note poll true false false).map Prod.fst
  | none => .ok note

def applyRemoteNoteCreate (env : Surroundings) (accountId : ℤ) (store : Store) (object : Value) :
    Written Store := do
  let data ← RemoteNoteData.parse env object
  if !env.accountActive || env.tombstoned then .ok store
  else
    match store with
    | some note => do
      failIf (decide (note.accountId ≠ accountId)) .conflict
      env.rest
      .ok store
    | none => do
      let note ← createRemoteNote env accountId data
      env.rest
      .ok (some note)

def remoteNoteObjectIsTooOld (env : Surroundings) (object : Value) (publishedAt : ℤ) : Bool :=
  (((object.asObject.bind fun object => get object "published").bind Value.asStr).isSome) &&
    decide (publishedAt < env.now - day)

/-- The branch of a note that is no newer: its poll is reconciled without other options. -/
def reconcileCurrent (env : Surroundings) (authority : RemoteUpdateAuthority) (note : RemoteNote)
    (data : RemoteNoteData) : Written RemoteNote :=
  if authority = .signedRefresh ∧ data.poll.isNone then .ok note
  else
    (reconcileRemotePoll env note data.poll false authority.rejectsTallyRegression
      authority.claimsFreshness).map Prod.fst

def RemoteNote.version (note : RemoteNote) : ℤ := note.editedAt.getD note.createdAt

def updateRemoteNote (env : Surroundings) (authority : RemoteUpdateAuthority) (note : RemoteNote)
    (data : RemoteNoteData) : Written RemoteNote :=
  match data.editedAt with
  | none =>
    -- An unversioned document of an inbox cannot roll a versioned status back.
    if note.editedAt.isSome ∧ authority = .inbox then .ok note
    else reconcileCurrent env authority note data
  | some _ =>
    if data.updatedAt < note.version then .ok note
    else if data.updatedAt = note.version then reconcileCurrent env authority note data
    else do
      let (note, outcome) ← reconcileRemotePoll env note data.poll true
        authority.rejectsTallyRegression authority.claimsFreshness
      if env.otherChange || decide (outcome = .significant) then
        .ok { note with editedAt := some data.updatedAt }
      else .ok note

/-- The poll with this id and version belongs to the note. -/
def expectedPollMatches (note : RemoteNote) : Option (ℤ × ℤ) → Bool
  | none => true
  | some (expectedPollId, expectedLockVersion) =>
    note.ballots.any fun ballots =>
      decide (ballots.poll.id = expectedPollId ∧ ballots.poll.lockVersion = expectedLockVersion)

def applyRemoteNoteUpdateWithAuthority (env : Surroundings) (accountId : ℤ)
    (authority : RemoteUpdateAuthority) (expectedPoll : Option (ℤ × ℤ)) (store : Store)
    (object : Value) : Written Store := do
  let data ← RemoteNoteData.parse env object
  if !env.accountActive then .ok store
  else
    match store with
    | none =>
      if env.tombstoned || remoteNoteObjectIsTooOld env object data.publishedAt then .ok none
      else applyRemoteNoteCreate env accountId none object
    | some note => do
      failIf (decide (note.accountId ≠ accountId)) .conflict
      if note.deletedAt.isSome then .ok (some note)
      else do
        failIf (!expectedPollMatches note expectedPoll) .conflict
        let note ← updateRemoteNote env authority note data
        env.rest
        .ok (some note)

end Rustodon.Polls
