import Rustodon.Ingest.Notes

/-! @src mastodon/write_repository.rs | name:Relationship rows | scheme:tables | family:relationships

    Follows, follow requests, blocks and the notifications of follows, with the statements that the
    operations on relationships share. Deliveries to other servers, counts of accounts, notification
    jobs and permissions are left out; of a delivery only whether there is one is kept. -/

namespace Rustodon.Relationships
open Schemes.Checked Schemes.Tables
open Ingest (WriteError Written trimEndSlashes)

/-! ### Rows -/

/-- What the operations read of a row of `accounts`. Only local accounts have a user. -/
structure Account where
  id : ℤ
  username : String
  domain : Option String
  uri : String
  url : Option String
  idScheme : Option ℤ
  protocol : ℤ
  inboxUrl : String
  sharedInboxUrl : String
  locked : Bool
  suspendedAt : Option ℤ
  silencedAt : Option ℤ
  movedToAccountId : Option ℤ
  hasUser : Bool
  user_local : hasUser = true → domain = none

/-- A row of `follows` or of `follow_requests`. -/
structure Follow where
  id : ℤ
  accountId : ℤ
  targetAccountId : ℤ
  showReblogs : Bool
  notify : Bool
  languages : Option (List String)
  uri : Option String

structure Block where
  id : ℤ
  accountId : ℤ
  targetAccountId : ℤ
  uri : Option String

/-- The ordered pair of accounts that a row is about. -/
def Follow.pair (follow : Follow) : ℤ × ℤ := (follow.accountId, follow.targetAccountId)

def Block.pair (block : Block) : ℤ × ℤ := (block.accountId, block.targetAccountId)

inductive ActivityType where
  | follow
  | followRequest
  deriving DecidableEq

/-- A notification of a follow or of a follow request. -/
structure Notification where
  accountId : ℤ
  activityId : ℤ
  activityType : ActivityType
  fromAccountId : ℤ
  deriving DecidableEq

structure State where
  accounts : Table Account.id
  domainBlocks : List (ℤ × String)
  follows : Table Follow.pair
  followRequests : Table Follow.pair
  blocks : Table Block.pair
  notifications : List Notification
  /-- The keys of undone activities, with the times they expire at. -/
  relationshipTombstones : List (String × ℤ)
  /-- Activities that were deleted before they arrived. -/
  tombstones : List (ℤ × String)

/-- What an operation draws from the database, the clock and the policy of the server. -/
structure Surroundings where
  now : ℤ
  newId : ℤ
  lower : String → String
  sha256 : String → String
  domainAllowed : String → Bool
  writeAllowed : ℤ → Written Unit
  /-- Whether blocks, mutes and the policy of a recipient let a notification through. -/
  notificationAdmitted : Bool

/-! ### Lookups -/

/-- The URI that names a local account. -/
def localActorUri (origin : String) (account : Account) : String :=
  if account.id = -99 then origin ++ "/actor"
  else if account.idScheme = some 1 then origin ++ "/ap/users/" ++ toString account.id
  else origin ++ "/users/" ++ account.username

/-- Whether a local account is known under a URI. -/
def localAccountKnownAs (origin uri : String) (account : Account) : Bool :=
  account.domain.isNone &&
    (account.uri == uri || account.url == some uri ||
      (uri == origin ++ "/actor" && decide (account.id = -99)) ||
      uri == origin ++ "/@" ++ account.username ||
      (uri == origin ++ "/users/" ++ account.username && decide (account.idScheme ≠ some 1)) ||
      (uri == origin ++ "/ap/users/" ++ toString account.id && decide (account.idScheme = some 1)))

/-- `local_activitypub_account_id`. -/
def localActivitypubAccountId (state : State) (uri origin : String) : Option ℤ :=
  ((state.accounts.rows.filter (localAccountKnownAs (trimEndSlashes origin) uri)).argmin Account.id).map
    Account.id

def isRemote (state : State) (accountId : ℤ) : Bool :=
  (state.accounts.get accountId).any fun account => account.domain.isSome

structure RelationshipTarget where
  isLocal : Bool
  locked : Bool
  unavailable : Bool
  sourceSilenced : Bool

def relationshipTarget (state : State) (sourceId targetId : ℤ) : Written RelationshipTarget := do
  let source ← okOr (state.accounts.get sourceId) .notFound
  let target ← okOr (state.accounts.get targetId) .notFound
  return {
    isLocal := target.domain.isNone
    locked := target.locked
    unavailable := target.suspendedAt.isSome || target.movedToAccountId.isSome
    sourceSilenced := source.silencedAt.isSome }

def relationshipIsBlocked (state : State) (accountId targetId : ℤ) : Bool :=
  (state.blocks.get (accountId, targetId)).isSome || (state.blocks.get (targetId, accountId)).isSome

def accountDomainIsBlocked (lower : String → String) (state : State) (accountId targetId : ℤ) : Bool :=
  (state.accounts.get targetId).any fun target => target.domain.any fun domain =>
    state.domainBlocks.any fun block => decide (block.1 = accountId) &&
      lower block.2 == lower domain

structure RemoteRelationshipDelivery where
  sourceUri : String
  targetUri : String
  inboxUrl : String
  domain : String

def remoteRelationshipDelivery (state : State) (sourceId targetId : ℤ) (origin : String) :
    Option RemoteRelationshipDelivery := do
  let source ← state.accounts.get sourceId
  let target ← state.accounts.get targetId
  let domain ← target.domain
  let delivery : RemoteRelationshipDelivery := {
    sourceUri := localActorUri (trimEndSlashes origin) source
    targetUri := target.uri
    inboxUrl := if target.inboxUrl = "" then target.sharedInboxUrl else target.inboxUrl
    domain }
  if target.protocol = 1 ∧ delivery.sourceUri ≠ "" ∧ delivery.targetUri ≠ "" ∧ delivery.inboxUrl ≠ "" then
    some delivery
  else none

/-- `local_follow_activity_uri`. -/
def localFollowActivityUri (at_ : Surroundings) (origin : String) (pair : ℤ × ℤ) (activityId : ℤ)
    (request : Bool) : String :=
  trimEndSlashes origin ++ "/payloads/follow-" ++ at_.sha256 ("follow:" ++
    (if request then "request" else "active") ++ ":" ++ toString pair.1 ++ ":" ++ toString pair.2 ++
      ":" ++ toString activityId)

/-- `local_block_activity_uri`. -/
def localBlockActivityUri (at_ : Surroundings) (origin : String) (pair : ℤ × ℤ) (blockId : ℤ) : String :=
  trimEndSlashes origin ++ "/payloads/block-" ++ at_.sha256 ("block:" ++ toString pair.1 ++ ":" ++
    toString pair.2 ++ ":" ++ toString blockId)

def relationshipTombstoneKey (at_ : Surroundings) (kind : String) (sourceId : ℤ) (uri : String) :
    String :=
  kind ++ ":" ++ at_.sha256 (toString sourceId ++ ":" ++ uri)

def followTombstoneKey (at_ : Surroundings) := relationshipTombstoneKey at_ "undo-follow"

def blockTombstoneKey (at_ : Surroundings) := relationshipTombstoneKey at_ "undo-block"

def relationshipTombstoned (at_ : Surroundings) (state : State) (key : String) : Bool :=
  state.relationshipTombstones.any fun tombstone => tombstone.1 == key && decide (at_.now < tombstone.2)

def remoteInteractionTombstoned (state : State) (accountId : ℤ) (uri : String) : Bool :=
  state.tombstones.contains (accountId, uri)

/-- Six hours. -/
def relationshipTombstoneTtl : ℤ := 6 * 3600 * 1000000

/-! ### Statements -/

/-- `insert_relationship_tombstone`: a key that has not expired stays as it is. -/
def insertRelationshipTombstone (at_ : Surroundings) (state : State) (key : String) : State :=
  if relationshipTombstoned at_ state key then state
  else { state with
    relationshipTombstones := (key, at_.now + relationshipTombstoneTtl) ::
      state.relationshipTombstones.filter fun tombstone => tombstone.1 != key }

/-- The options of a follow that are given. -/
def withOptions (reblogs notify : Option Bool) (languages : Option (List String)) (follow : Follow) :
    Follow :=
  { follow with
    showReblogs := reblogs.getD follow.showReblogs
    notify := notify.getD follow.notify
    languages := languages.or follow.languages }

theorem withOptions_pair (reblogs notify : Option Bool) (languages : Option (List String))
    (follow : Follow) : (withOptions reblogs notify languages follow).pair = follow.pair := rfl

def withUri (uri : String) (follow : Follow) : Follow := { follow with uri := some uri }

theorem withUri_pair (uri : String) (follow : Follow) : (withUri uri follow).pair = follow.pair := rfl

/-- `update_follow_options`. -/
def updateFollowOptions (table : Table Follow.pair) (pair : ℤ × ℤ) (reblogs notify : Option Bool)
    (languages : Option (List String)) : Table Follow.pair :=
  table.modify pair (withOptions reblogs notify languages) (withOptions_pair reblogs notify languages)

/-- `update_follow_uri`. -/
def updateFollowUri (table : Table Follow.pair) (pair : ℤ × ℤ) (uri : String) : Table Follow.pair :=
  table.modify pair (withUri uri) (withUri_pair uri)

/-- `delete_activity_notifications`. -/
def deleteActivityNotifications (notifications : List Notification) (recipientId activityId : ℤ)
    (activityType : ActivityType) : List Notification :=
  notifications.filter fun notification => !(decide (notification.accountId = recipientId) &&
    decide (notification.activityId = activityId) && decide (notification.activityType = activityType))

/-- Deletes a follow and its notifications. -/
def removeFollow (state : State) (pair : ℤ × ℤ) : State :=
  match state.follows.get pair with
  | none => state
  | some follow => { state with
      follows := state.follows.erase pair
      notifications :=
        deleteActivityNotifications state.notifications pair.2 follow.id .follow }

/-- Deletes a follow request, and its notifications among those of a recipient. -/
def removeRequest (state : State) (pair : ℤ × ℤ) (recipientId : ℤ) : State :=
  match state.followRequests.get pair with
  | none => state
  | some request => { state with
      followRequests := state.followRequests.erase pair
      notifications :=
        deleteActivityNotifications state.notifications recipientId request.id .followRequest }

/-- `remove_follow_relationships`: the follows of both directions, and the requests of the other. -/
def removeFollowRelationships (state : State) (accountId targetId : ℤ) : State :=
  let state := removeFollow (removeFollow state (accountId, targetId)) (targetId, accountId)
  removeRequest state (targetId, accountId) accountId

/-- `clear_account_interactions`. -/
def clearAccountInteractions (state : State) (accountId targetId : ℤ) : State :=
  { state with
    notifications := state.notifications.filter fun notification =>
      !(decide (notification.accountId = accountId) && decide (notification.fromAccountId = targetId)) }

end Rustodon.Relationships
