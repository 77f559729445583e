import Rustodon.Ingest.Threads
import Rustodon.Schemes.Aliases
import Rustodon.Schemes.Segments

/-! @src mastodon/write_repository/remote_note.rs, mastodon/write_repository/remote_ingest.rs |
    name:References to statuses | scheme:aliases | family:ingest

    The look-ups of a status by a URI, and the writes that give statuses the names that they look at:
    notes of remote accounts, their updates and statuses written here. What an update does to quotes,
    polls, media, mentions, tags and counts is left out. -/

namespace Rustodon.Ingest
open Schemes.Checked Schemes.Tables Schemes.Aliases Schemes.Segments

/-! ### Look-ups -/

/-- `local_interaction_target`. -/
def localInteractionTarget (store : NoteStore) (objectUri origin : String) : Option Status :=
  firstStatus store.statuses fun status =>
    (accountById store.accounts status.accountId).any fun author =>
      author.domain.isNone && status.deletedAt.isNone &&
        (status.uri == some objectUri || status.url == some objectUri ||
          (localStatusUris (trimEndSlashes origin) author status).contains objectUri)

structure AnnounceTarget where
  statusId : ℤ
  accountId : ℤ
  visibility : ℤ
  matchedAccountIsLocal : Bool
  originalAccountIsLocal : Bool
  deriving DecidableEq

/-- `announce_target_from_status`: of a boost, the status that it boosts. -/
def announceTargetFromStatus (store : NoteStore) (matchedStatusId : ℤ) (matchedAccountIsLocal : Bool) :
    Option AnnounceTarget := do
  let status ← statusById store.statuses matchedStatusId
  let target ← statusById store.statuses (status.reblogOfId.getD status.id)
  let author ← accountById store.accounts target.accountId
  if status.deletedAt.isNone && target.deletedAt.isNone then
    some ⟨target.id, target.accountId, target.visibility, matchedAccountIsLocal, author.domain.isNone⟩
  else none

/-- The second look-up of `announce_interaction_target`, among remote authors. -/
def remoteInteractionTarget (store : NoteStore) (objectUri : String) : Option Status :=
  firstStatus store.statuses fun status =>
    (accountById store.accounts status.accountId).any fun author =>
      author.domain.isSome && status.deletedAt.isNone &&
        (status.uri == some objectUri || status.url == some objectUri)

def announceInteractionTarget (store : NoteStore) (objectUri origin : String) :
    Option AnnounceTarget :=
  match localInteractionTarget store objectUri origin with
  | some status => announceTargetFromStatus store status.id true
  | none => (remoteInteractionTarget store objectUri).bind fun status =>
      announceTargetFromStatus store status.id false

structure QuotedStatus where
  statusId : ℤ
  accountId : ℤ
  isLocal : Bool
  actorUri : String
  deriving DecidableEq

/-- `local_actor_uri_for_account`, with the column `id_scheme` beside the account. -/
def localActorUri (idScheme : ℤ → Option ℤ) (origin : String) (account : Account) : String :=
  if account.id = -99 then origin ++ "/actor"
  else if idScheme account.id = some 1 then origin ++ "/ap/users/" ++ toString account.id
  else origin ++ "/users/" ++ account.username

/-- The URIs of a local status that is no boost. -/
def quotableStatusUris (origin : String) (author : Account) (status : Status) : List String :=
  [origin ++ "/actor/statuses/" ++ toString status.id,
    origin ++ "/@" ++ author.username ++ "/" ++ toString status.id,
    origin ++ "/users/" ++ author.username ++ "/statuses/" ++ toString status.id,
    origin ++ "/ap/users/" ++ toString author.id ++ "/statuses/" ++ toString status.id]

def quotableAs (accounts : Store) (origin uri : String) (status : Status) : Bool :=
  (accountById accounts status.accountId).any fun author =>
    status.deletedAt.isNone &&
      (status.uri == some uri || status.url == some uri ||
        (author.domain.isNone && (quotableStatusUris origin author status).contains uri))

/-- The status that `resolve_quote_target` finds. -/
def quotedStatus (store : NoteStore) (targetUri origin : String) : Option Status :=
  firstStatus store.statuses fun status => status.reblogOfId.isNone &&
    quotableAs store.accounts (trimEndSlashes origin) targetUri status

def resolveQuoteTarget (idScheme : ℤ → Option ℤ) (store : NoteStore) (targetUri origin : String) :
    Option QuotedStatus := do
  let status ← quotedStatus store targetUri origin
  let author ← accountById store.accounts status.accountId
  some ⟨status.id, status.accountId, author.domain.isNone,
    if author.domain.isNone then localActorUri idScheme (trimEndSlashes origin) author else author.uri⟩

def quoteTargetMatchesUri (store : NoteStore) (statusId : ℤ) (uri origin : String) : Bool :=
  (statusById store.statuses statusId).any (quotableAs store.accounts (trimEndSlashes origin) uri)

/-! ### Updates of notes -/

/-- What an update is about besides the note: whether it names a time of publication, what it says of
    the poll, and whether the rows around the status change with it. -/
structure Revision where
  publishedGiven : Bool
  signedRefresh : Bool
  expectedPollFound : Bool
  meaningful : Status → Status → Bool

/-- `remote_note_object_is_too_old`: by a day. -/
def remoteNoteObjectIsTooOld (revision : Revision) (note : RemoteNoteData) (now : ℤ) : Bool :=
  revision.publishedGiven && decide (note.publishedAt < now - 86400000000)

def withNoteContent (now : ℤ) (note : RemoteNoteData) (policy : ℤ) (status : Status) : Status :=
  { status with
    text := note.content
    spoilerText := note.summary
    sensitive := note.sensitive
    language := note.language
    quoteApprovalPolicy := policy
    updatedAt := now }

def withEdit (editedAt : ℤ) (status : Status) : Status := { status with editedAt := some editedAt }

/-- The row of an update that is newer than what is stored. -/
def reviseStatus (store : NoteStore) (revision : Revision) (now : ℤ) (note : RemoteNoteData)
    (policy : ℤ) (existing : Status) : NoteStore :=
  let rewritten := updateStatus store.statuses existing.id (withNoteContent now note policy)
    (fun _ => rfl) (fun _ => rfl)
  if revision.meaningful existing (withNoteContent now note policy existing) then
    { store with
      statuses := updateStatus rewritten existing.id (withEdit note.updatedAt) (fun _ => rfl)
        (fun _ => rfl) }
  else { store with statuses := rewritten }

/-- The update of a note that is there. -/
def reviseRemoteNote (store : NoteStore) (revision : Revision) (now accountId : ℤ)
    (note : RemoteNoteData) (policy : ℤ) (existing : Status) : Written (NoteStore × Option ℤ) :=
  if existing.accountId ≠ accountId then .error .conflict
  else if existing.deletedAt.isSome then .ok (store, none)
  else if !revision.expectedPollFound then .error .conflict
  -- Without a version it changes counts, and the poll when its server has signed it.
  else if note.editedAt.isNone then .ok (store, none)
  else if note.updatedAt ≤ existing.editedAt.getD existing.createdAt then .ok (store, none)
  else
    .ok (reviseStatus store revision now note policy existing,
      if revision.meaningful existing (withNoteContent now note policy existing) then some existing.id
      else none)

/-- `apply_remote_note_update_with_authority`: a note that is not known is created. -/
def applyRemoteNoteUpdate (env : Env) (drawn : Drawn) (revision : Revision) (store : NoteStore)
    (accountId : ℤ) (actorUri : String) (note : RemoteNoteData) (origin : String) :
    Written (NoteStore × Option ℤ) := do
  let same ← sameRemoteNoteHost env actorUri note.uri
  failIf (!same) (.invalidInput "remote Note URI does not match its actor host")
  match accountById store.accounts accountId with
  | none => .ok (store, none)
  | some account =>
    if account.domain.isNone || account.uri != actorUri || account.suspendedAt.isSome then
      .ok (store, none)
    else do
      let policy ← note.quoteApprovalPolicy account.followersUrl account.followingUrl
      match remoteNoteStatus store note.uri note.atomUri with
      | some existing => reviseRemoteNote store revision drawn.now accountId note policy existing
      | none =>
        if remoteNoteTombstoned store accountId note.uri note.atomUri then .ok (store, none)
        else if remoteNoteObjectIsTooOld revision note drawn.now then .ok (store, none)
        else applyRemoteNoteCreate env drawn store accountId actorUri note origin none

/-! ### Statuses written here -/

/-- A status that has passed the checks of `create_status`. -/
structure LocalStatus where
  accountId : ℤ
  text : String
  spoilerText : String
  visibility : ℤ
  language : Option String
  sensitive : Bool
  inReplyToId : Option ℤ
  inReplyToAccountId : Option ℤ
  conversationId : Option ℤ
  quoteApprovalPolicy : ℤ

/-- The row of a new status. Its URIs are not stored. -/
def localStatusRow (drawn : Drawn) (draft : LocalStatus) : Status where
  id := drawn.newStatusId
  accountId := draft.accountId
  text := draft.text
  spoilerText := draft.spoilerText
  visibility := draft.visibility
  language := draft.language
  sensitive := draft.sensitive
  reply := draft.inReplyToId.isSome
  uri := none
  url := none
  inReplyToId := draft.inReplyToId
  inReplyToAccountId := draft.inReplyToAccountId
  conversationId := if draft.inReplyToId.isNone then some drawn.newConversationId
    else draft.conversationId
  reblogOfId := none
  quoteApprovalPolicy := draft.quoteApprovalPolicy
  createdAt := drawn.now
  updatedAt := drawn.now
  editedAt := none
  deletedAt := none

/-- `create_status`, by a user of this server. -/
def createStatus (drawn : Drawn) (store : NoteStore) (draft : LocalStatus) : Written NoteStore :=
  if (accountById store.accounts draft.accountId).any fun author => author.domain.isNone then
    if h : statusById store.statuses (localStatusRow drawn draft).id = none ∧
        ∀ parentId ∈ (localStatusRow drawn draft).inReplyToId,
          parentId ∈ store.statuses.rows.map Status.id then
      .ok (countReply
        { store with
          statuses := insertStatus store.statuses (localStatusRow drawn draft) h.1 h.2
          conversations := if draft.inReplyToId.isNone then
              store.conversations ++
                [⟨drawn.newConversationId, draft.accountId, drawn.newStatusId, none⟩]
            else store.conversations }
        draft.visibility draft.inReplyToId)
    else .error .database
  else .error .unauthorized

/-! ### Runs -/

inductive Change where
  | create (drawn : Drawn) (accountId : ℤ) (actorUri : String) (note : RemoteNoteData)
      (quoteGuard : Option (NoteStore → Written Bool))
  | update (drawn : Drawn) (revision : Revision) (accountId : ℤ) (actorUri : String)
      (note : RemoteNoteData)
  | publish (drawn : Drawn) (draft : LocalStatus)

def Change.written (env : Env) (origin : String) (store : NoteStore) : Change → Written NoteStore
  | .create drawn accountId actorUri note quoteGuard =>
    (applyRemoteNoteCreate env drawn store accountId actorUri note origin quoteGuard).map Prod.fst
  | .update drawn revision accountId actorUri note =>
    (applyRemoteNoteUpdate env drawn revision store accountId actorUri note origin).map Prod.fst
  | .publish drawn draft => createStatus drawn store draft

/-- The state after a change: one that fails is rolled back. -/
def Change.after (env : Env) (origin : String) (store : NoteStore) (change : Change) : NoteStore :=
  match change.written env origin store with
  | .ok store' => store'
  | .error _ => store

/-! ### What a status is known as -/

/-- The URI is the status' own: the one that is stored, or one that a local status is given here. -/
def hasUri (accounts : Store) (origin uri : String) (status : Status) : Bool :=
  (accountById accounts status.accountId).any fun author =>
    status.deletedAt.isNone &&
      (status.uri == some uri ||
        (author.domain.isNone && (localStatusUris origin author status).contains uri))

/-- The status was declared to be shown at the URI. -/
def hasUrl (accounts : Store) (uri : String) (status : Status) : Bool :=
  (accountById accounts status.accountId).isSome && status.deletedAt.isNone && status.url == some uri

theorem knownAs_iff {accounts : Store} {origin uri : String} {status : Status} :
    knownAs accounts origin uri status ↔
      hasUri accounts origin uri status ∨ hasUrl accounts uri status := by
  rw [knownAs, hasUri, hasUrl]
  cases accountById accounts status.accountId with
  | none => simp
  | some author =>
    simp only [Option.any_some, Option.isSome_some, Bool.true_and, Bool.and_eq_true, Bool.or_eq_true]
    tauto

end Rustodon.Ingest
