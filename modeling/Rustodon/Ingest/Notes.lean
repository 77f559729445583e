import Mathlib.Data.List.MinMax
import Rustodon.Ingest.Accounts
import Rustodon.Schemes.Tables

/-! @src mastodon/write_repository/remote_ingest.rs, mastodon/write_repository/remote_note.rs |
    name:Remote notes | scheme:tables | family:ingest

    How a note of a remote server is stored, and how it is put below its parent when that is known only
    later. The notes are taken as they are parsed. Emojis, media, polls, mentions, quotes, tags, the
    counts of accounts, notifications and streams are left out. -/

namespace Rustodon.Ingest
open Schemes.Checked Schemes.Tables
open Schemes.Utf8 (eqIgnoreAsciiCase)

/-! ### Rows -/

/-- A row of `statuses`. Times count microseconds. -/
structure Status where
  id : ℤ
  accountId : ℤ
  text : String
  spoilerText : String
  visibility : ℤ
  language : Option String
  sensitive : Bool
  reply : Bool
  uri : Option String
  url : Option String
  inReplyToId : Option ℤ
  inReplyToAccountId : Option ℤ
  conversationId : Option ℤ
  reblogOfId : Option ℤ
  quoteApprovalPolicy : ℤ
  createdAt : ℤ
  updatedAt : ℤ
  editedAt : Option ℤ
  deletedAt : Option ℤ
  deriving DecidableEq

/-- The statuses. Each replies to one of them, if to any. -/
structure Statuses where
  rows : List Status
  ids_nodup : (rows.map Status.id).Nodup
  parents_known : ∀ status ∈ rows, ∀ parentId, status.inReplyToId = some parentId →
    parentId ∈ rows.map Status.id

structure Conversation where
  id : ℤ
  parentAccountId : ℤ
  parentStatusId : ℤ
  uri : Option String
  deriving DecidableEq

/-- The arguments of a job `rustodon.activitypub.resolve_thread`. -/
structure ThreadJob where
  childStatusId : ℤ
  parentUrl : String
  deriving DecidableEq

structure NoteStore where
  accounts : Store
  statuses : Statuses
  conversations : List Conversation
  tombstones : List (ℤ × String)
  repliesCount : ℤ → ℤ
  threadJobs : List ThreadJob

def statusById (statuses : Statuses) (id : ℤ) : Option Status := find Status.id statuses.rows id

/-- The row with the least id. -/
def firstStatus (statuses : Statuses) (p : Status → Bool) : Option Status :=
  (statuses.rows.filter p).argmin Status.id

theorem known_update {rows : List Status} {id : ℤ} {f : Status → Status}
    (hknown : ∀ status ∈ rows, ∀ parentId, status.inReplyToId = some parentId →
      parentId ∈ rows.map Status.id)
    (hid : ∀ status, (f status).id = status.id)
    (hparent : ∀ status ∈ rows, ∀ parentId, (f status).inReplyToId = some parentId →
      parentId ∈ rows.map Status.id) :
    ∀ status ∈ update Status.id rows id f, ∀ parentId, status.inReplyToId = some parentId →
      parentId ∈ (update Status.id rows id f).map Status.id := by
  intro status hstatus parentId hparentId
  rw [keys_update hid]
  obtain ⟨before, hbefore, rfl⟩ := List.mem_map.mp hstatus
  split at hparentId
  · exact hparent before hbefore parentId hparentId
  · exact hknown before hbefore parentId hparentId

/-- Changes a row, but neither its id nor its parent. -/
def updateStatus (statuses : Statuses) (id : ℤ) (f : Status → Status)
    (hid : ∀ status, (f status).id = status.id)
    (hparent : ∀ status, (f status).inReplyToId = status.inReplyToId) : Statuses where
  rows := update Status.id statuses.rows id f
  ids_nodup := by
    rw [keys_update hid]
    exact statuses.ids_nodup
  parents_known := known_update statuses.parents_known hid fun status hstatus parentId hparentId =>
    statuses.parents_known status hstatus parentId (hparent status ▸ hparentId)

/-- A new row. -/
def insertStatus (statuses : Statuses) (status : Status) (hnew : statusById statuses status.id = none)
    (hparent : ∀ parentId ∈ status.inReplyToId, parentId ∈ statuses.rows.map Status.id) :
    Statuses where
  rows := statuses.rows ++ [status]
  ids_nodup := keys_append statuses.ids_nodup hnew
  parents_known := by
    intro row hrow parentId hparentId
    rw [List.map_append, List.mem_append]
    rcases List.mem_append.mp hrow with hrow | hrow
    · exact .inl (statuses.parents_known row hrow parentId hparentId)
    · obtain rfl := List.mem_singleton.mp hrow
      exact .inl (hparent parentId hparentId)

/-! ### Notes -/

structure RemoteNoteAudience where
  toUris : List String
  ccUris : List String

/-- A parsed note. Its policy for quotes is read with the collections of the author at hand. -/
structure RemoteNoteData where
  uri : String
  atomUri : Option String
  url : Option String
  content : String
  summary : String
  language : Option String
  sensitive : Bool
  quoteApprovalPolicy : String → String → Written ℤ
  publishedAt : ℤ
  updatedAt : ℤ
  editedAt : Option ℤ
  inReplyToUri : Option String
  conversationUri : Option String
  audience : RemoteNoteAudience

/-- What the database draws, and what the mentions of a note say of its recipients. -/
structure Drawn where
  now : ℤ
  newStatusId : ℤ
  newConversationId : ℤ
  onlyExplicitRecipients : Bool

def isPublicAddress (uri : String) : Bool :=
  uri == "https://www.w3.org/ns/activitystreams#Public" || uri == "as:Public" || uri == "Public"

def remoteNoteVisibility (audience : RemoteNoteAudience) (followersUrl : String) : ℤ :=
  if audience.toUris.any isPublicAddress then 0
  else if audience.ccUris.any isPublicAddress then 1
  else if audience.toUris.any fun uri => uri == followersUrl && !followersUrl.isEmpty then 2
  else 4

def sameRemoteNoteHost (env : Env) (actorUri objectUri : String) : Written Bool := do
  let actor ← okOr (env.inbox.parseUrl actorUri) (.invalidInput "remote actor URI is invalid")
  let object ← okOr (env.inbox.parseUrl objectUri) (.invalidInput "remote object URI is invalid")
  return match actor.hostStr, object.hostStr with
    | some actorHost, some objectHost => eqIgnoreAsciiCase actorHost.toList objectHost.toList
    | _, _ => false

def remoteNoteTombstoned (store : NoteStore) (accountId : ℤ) (uri : String) (atomUri : Option String) :
    Bool :=
  store.tombstones.any fun tombstone => decide (tombstone.1 = accountId) &&
    (tombstone.2 == uri || some tombstone.2 == atomUri)

def remoteNoteStatus (store : NoteStore) (uri : String) (atomUri : Option String) : Option Status :=
  firstStatus store.statuses fun status => status.uri.any fun value =>
    value == uri || some value == atomUri

/-! ### Threads -/

/-- `origin.trim_end_matches('/')`. -/
def trimEndSlashes (origin : String) : String :=
  String.ofList (origin.toList.rdropWhile fun c => c == '/')

/-- The URIs under which a local status is known. -/
def localStatusUris (origin : String) (author : Account) (status : Status) : List String :=
  let activity := if status.reblogOfId.isNone then "" else "/activity"
  [origin ++ "/actor/statuses/" ++ toString status.id ++ activity,
    origin ++ "/@" ++ author.username ++ "/" ++ toString status.id ++ activity,
    origin ++ "/users/" ++ author.username ++ "/statuses/" ++ toString status.id ++ activity,
    origin ++ "/ap/users/" ++ toString author.id ++ "/statuses/" ++ toString status.id ++ activity]

def knownAs (accounts : Store) (origin uri : String) (status : Status) : Bool :=
  (accountById accounts status.accountId).any fun author =>
    status.deletedAt.isNone &&
      (status.uri == some uri || status.url == some uri ||
        (author.domain.isNone && (localStatusUris origin author status).contains uri))

/-- The status that a reply refers to. -/
def threadParent (store : NoteStore) (uri origin : String) : Option Status :=
  firstStatus store.statuses (knownAs store.accounts (trimEndSlashes origin) uri)

/-- `remote_note_thread`: the parent, its author and its conversation. -/
def remoteNoteThread (store : NoteStore) (note : RemoteNoteData) (origin : String) :
    Option ℤ × Option ℤ × Option ℤ :=
  match note.inReplyToUri with
  | none => (none, none, none)
  | some parentUri =>
    match threadParent store parentUri origin with
    | none => (none, none, none)
    | some parent => (some parent.id, some parent.accountId, parent.conversationId)

def incrementReplyCount (store : NoteStore) (statusId : ℤ) : NoteStore :=
  { store with
    repliesCount := Function.update store.repliesCount statusId
      (max (store.repliesCount statusId + 1) 0) }

/-- Counts a public reply to a parent that is known. -/
def countReply (store : NoteStore) (visibility : ℤ) (parentId : Option ℤ) : NoteStore :=
  match parentId with
  | some parentId => if visibility < 2 then incrementReplyCount store parentId else store
  | none => store

/-- `ensure_remote_note_conversation`, when the parent has none. -/
def insertConversation (conversations : List Conversation) (newId statusId accountId : ℤ)
    (inReplyToId inReplyToAccountId : Option ℤ) (uri : Option String) : ℤ × List Conversation :=
  match conversations.find? fun conversation => conversation.uri.isSome && conversation.uri == uri with
  | some conversation => (conversation.id, conversations)
  | none => (newId, conversations ++ [{
      id := newId
      parentAccountId := inReplyToAccountId.getD accountId
      parentStatusId := inReplyToId.getD statusId
      uri }])

/-- `insert_remote_note`. A row that breaks a constraint of the table is refused. -/
def insertRemoteNote (store : NoteStore) (accountId statusId : ℤ) (note : RemoteNoteData)
    (policy visibility : ℤ) (inReplyToId inReplyToAccountId conversationId : Option ℤ) :
    Written NoteStore :=
  let status : Status := {
    id := statusId
    accountId
    text := note.content
    spoilerText := note.summary
    visibility
    language := note.language
    sensitive := note.sensitive
    reply := note.inReplyToUri.isSome || inReplyToId.isSome
    uri := some note.uri
    url := note.url.or (some note.uri)
    inReplyToId
    inReplyToAccountId
    conversationId
    reblogOfId := none
    quoteApprovalPolicy := policy
    createdAt := note.publishedAt
    updatedAt := note.updatedAt
    editedAt := note.editedAt
    deletedAt := none }
  if h : statusById store.statuses status.id = none ∧
      ∀ parentId ∈ status.inReplyToId, parentId ∈ store.statuses.rows.map Status.id then
    .ok { store with statuses := insertStatus store.statuses status h.1 h.2 }
  else .error .database

/-- The conversation and the visibility of a note that has just been stored. -/
def withConversation (conversationId : Option ℤ) (visibility : ℤ) (status : Status) : Status :=
  { status with
    conversationId := conversationId.or status.conversationId
    visibility }

theorem withConversation_id (conversationId : Option ℤ) (visibility : ℤ) (status : Status) :
    (withConversation conversationId visibility status).id = status.id := rfl

theorem withConversation_parent (conversationId : Option ℤ) (visibility : ℤ) (status : Status) :
    (withConversation conversationId visibility status).inReplyToId = status.inReplyToId := rfl

/-- A job that is recorded once. -/
def recordThreadJob (store : NoteStore) (job : ThreadJob) : NoteStore :=
  if store.threadJobs.any fun other => decide (other.childStatusId = job.childStatusId) then store
  else { store with threadJobs := store.threadJobs ++ [job] }

/-- What follows the row of a note: the reply is counted, the note has a conversation and its final
    visibility, and a parent that is not known yet is looked for. -/
def settleRemoteNote (drawn : Drawn) (store : NoteStore) (accountId : ℤ) (note : RemoteNoteData)
    (visibility : ℤ) (parent : Option ℤ × Option ℤ × Option ℤ) : NoteStore :=
  let counted := countReply store visibility parent.1
  let conversation := match parent.2.2 with
    | some conversationId => (conversationId, store.conversations)
    | none => insertConversation store.conversations drawn.newConversationId drawn.newStatusId
        accountId parent.1 parent.2.1 note.conversationUri
  let visibility := if visibility = 4 ∧ drawn.onlyExplicitRecipients then 3 else visibility
  let settled := { counted with
    conversations := conversation.2
    statuses := updateStatus counted.statuses drawn.newStatusId
      (withConversation (some conversation.1) visibility)
      (withConversation_id (some conversation.1) visibility)
      (withConversation_parent (some conversation.1) visibility) }
  match note.inReplyToUri, parent.1 with
  | some parentUrl, none => recordThreadJob settled ⟨drawn.newStatusId, parentUrl⟩
  | _, _ => settled

/-- The note of an author who may write, once it is known to be new. -/
def storeRemoteNote (drawn : Drawn) (store : NoteStore) (account : Account) (note : RemoteNoteData)
    (policy : ℤ) (origin : String) : Written NoteStore :=
  let visibility := remoteNoteVisibility note.audience account.followersUrl
  let parent := remoteNoteThread store note origin
  (insertRemoteNote store account.id drawn.newStatusId note policy visibility parent.1 parent.2.1
    parent.2.2).map fun store => settleRemoteNote drawn store account.id note visibility parent

/-- Whether the guard of a quote request lets the note be imported. -/
def quoteGuardAdmits (quoteGuard : Option (NoteStore → Written Bool)) (store : NoteStore) :
    Written Bool :=
  match quoteGuard with
  | none => .ok true
  | some admits => admits store

/-- `apply_remote_note_create_with_quote_guard`: the new state, and the status that was stored. -/
def applyRemoteNoteCreate (env : Env) (drawn : Drawn) (store : NoteStore) (accountId : ℤ)
    (actorUri : String) (note : RemoteNoteData) (origin : String)
    (quoteGuard : Option (NoteStore → Written Bool)) : Written (NoteStore × Option ℤ) := do
  let admitted ← quoteGuardAdmits quoteGuard store
  if admitted then
    match accountById store.accounts accountId with
    | none => .ok (store, none)
    | some account =>
      if account.domain.isNone || account.uri != actorUri || account.suspendedAt.isSome then
        .ok (store, none)
      else do
        let policy ← note.quoteApprovalPolicy account.followersUrl account.followingUrl
        let same ← sameRemoteNoteHost env actorUri note.uri
        failIf (!same) (.invalidInput "remote Note URI does not match its actor host")
        if remoteNoteTombstoned store account.id note.uri note.atomUri then .ok (store, none)
        else match remoteNoteStatus store note.uri note.atomUri with
          | some existing =>
            if existing.accountId ≠ account.id then .error .conflict else .ok (store, none)
          | none => do
            let store ← storeRemoteNote drawn store account note policy origin
            .ok (store, some drawn.newStatusId)
  else .ok (store, none)

/-! ### Late parents -/

/-- The child below its parent. -/
def withParent (now : ℤ) (parent : Status) (carriedReplyAccountId : Option ℤ) (child : Status) :
    Status :=
  { child with
    reply := true
    inReplyToId := some parent.id
    inReplyToAccountId := carriedReplyAccountId
    conversationId := child.conversationId.or parent.conversationId
    updatedAt := now }

theorem withParent_id (now : ℤ) (parent : Status) (carriedReplyAccountId : Option ℤ) (child : Status) :
    (withParent now parent carriedReplyAccountId child).id = child.id := rfl

/-- Puts a row below another. -/
def linkStatus (statuses : Statuses) (now : ℤ) (parent : Status) (carriedReplyAccountId : Option ℤ)
    (childId : ℤ) (hparent : parent.id ∈ statuses.rows.map Status.id) : Statuses where
  rows := update Status.id statuses.rows childId (withParent now parent carriedReplyAccountId)
  ids_nodup := by
    rw [keys_update (withParent_id now parent carriedReplyAccountId)]
    exact statuses.ids_nodup
  parents_known := known_update statuses.parents_known (withParent_id now parent carriedReplyAccountId)
    fun _ _ _ hparentId => Option.some.inj hparentId ▸ hparent

/-- The account that a reply of an author to their own reply still answers. -/
def carriedReplyAccount (child parent : Status) : Option ℤ :=
  if parent.reply ∧ parent.accountId = child.accountId then
    parent.inReplyToAccountId.or (some parent.accountId)
  else some parent.accountId

/-- `resolve_remote_note_thread`: the new state, and whether there is nothing left to resolve. -/
def resolveRemoteNoteThread (env : Env) (now : ℤ) (store : NoteStore) (childStatusId : ℤ)
    (parentUri origin : String) : Written (NoteStore × Bool) := do
  let url ← okOr (env.inbox.parseUrl parentUri) (.invalidInput "remote reply parent URI is invalid")
  failIf (!((url.scheme == "http" || url.scheme == "https") && url.hostStr.isSome))
    (.invalidInput "remote reply parent URI is invalid")
  match statusById store.statuses childStatusId with
  | none => .ok (store, true)
  | some child =>
    if child.deletedAt.isSome || child.inReplyToId.isSome then .ok (store, true)
    else match threadParent store parentUri origin with
      | none => .ok (store, false)
      | some parent =>
        if parent.id = childStatusId then
          .error (.invalidInput "remote reply parent cannot be the child status")
        else if h : parent.id ∈ store.statuses.rows.map Status.id then
          let linked := { store with
            statuses := linkStatus store.statuses now parent (carriedReplyAccount child parent)
              childStatusId h }
          .ok (countReply linked child.visibility (some parent.id), true)
        else .error .database

end Rustodon.Ingest
