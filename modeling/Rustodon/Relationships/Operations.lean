import Rustodon.Relationships.Rows

/-! @src mastodon/write_repository.rs, mastodon/write_repository/remote_ingest.rs |
    name:Relationship operations | scheme:tables | family:relationships

    What local accounts and the servers of remote ones do to relationships: each operation is one
    transaction that holds the lock of its pair. -/

namespace Rustodon.Relationships
open Schemes.Checked Schemes.Tables
open Ingest (WriteError Written)

/-! ### Local accounts -/

structure FollowWriteOutcome where
  activityId : Option ℤ
  recipientAccountId : ℤ
  request : Bool
  activityUri : Option String

/-- The URI of a follow that is sent to another server. -/
def sentFollowUri (at_ : Surroundings) (origin : Option String)
    (delivery : Option RemoteRelationshipDelivery) (pair : ℤ × ℤ) (request : Bool) : Option String :=
  if delivery.isSome then
    origin.map fun origin => localFollowActivityUri at_ origin pair at_.newId request
  else none

def newFollow (at_ : Surroundings) (pair : ℤ × ℤ) (reblogs notify : Option Bool)
    (languages : Option (List String)) (uri : Option String) : Follow where
  id := at_.newId
  accountId := pair.1
  targetAccountId := pair.2
  showReblogs := reblogs.getD true
  notify := notify.getD false
  languages
  uri

/-- `set_follow_with_origin`, to follow. -/
def startFollow (at_ : Surroundings) (state : State) (accountId targetId : ℤ)
    (target : RelationshipTarget) (reblogs notify : Option Bool) (languages : Option (List String))
    (origin : Option String) (delivery : Option RemoteRelationshipDelivery) :
    Written (State × FollowWriteOutcome) :=
  let pair := (accountId, targetId)
  if (state.follows.get pair).isNone && (!target.isLocal || target.locked || target.sourceSilenced) then
    if (state.followRequests.get pair).isSome then
      .ok ({ state with followRequests :=
          updateFollowOptions state.followRequests pair reblogs notify languages },
        ⟨none, targetId, true, none⟩)
    else
      let uri := sentFollowUri at_ origin delivery pair true
      (okOr (state.followRequests.insert (newFollow at_ pair reblogs notify languages uri))
        .database).map fun followRequests =>
          ({ state with followRequests }, ⟨some at_.newId, targetId, true, uri⟩)
  else if (state.follows.get pair).isSome then
    .ok ({ state with follows := updateFollowOptions state.follows pair reblogs notify languages },
      ⟨none, targetId, false, none⟩)
  else
    let uri := sentFollowUri at_ origin delivery pair false
    (okOr (state.follows.insert (newFollow at_ pair reblogs notify languages uri)) .database).map
      fun follows => ({ state with follows }, ⟨some at_.newId, targetId, false, uri⟩)

/-- The URI of a follow that is undone. -/
def undoneFollowUri (at_ : Surroundings) (origin : Option String)
    (delivery : Option RemoteRelationshipDelivery) (follow : Follow) (request : Bool) : Option String :=
  if delivery.isSome then
    origin.map fun origin =>
      follow.uri.getD (localFollowActivityUri at_ origin follow.pair follow.id request)
  else none

/-- `set_follow_with_origin`, to follow no longer. -/
def stopFollow (at_ : Surroundings) (state : State) (accountId targetId : ℤ) (origin : Option String)
    (delivery : Option RemoteRelationshipDelivery) : State × FollowWriteOutcome :=
  let pair := (accountId, targetId)
  match state.follows.get pair with
  | some follow =>
    (removeFollow state pair, ⟨none, targetId, false, undoneFollowUri at_ origin delivery follow false⟩)
  | none =>
    match state.followRequests.get pair with
    | some request => (removeRequest state pair targetId,
        ⟨none, targetId, false, undoneFollowUri at_ origin delivery request true⟩)
    | none => (state, ⟨none, targetId, false, none⟩)

/-- `set_follow_with_origin`. -/
def setFollow (at_ : Surroundings) (state : State) (session : Written ℤ) (targetId : ℤ)
    (following : Bool) (reblogs notify : Option Bool) (languages : Option (List String))
    (origin : Option String) : Written (State × FollowWriteOutcome) := do
  let accountId ← session
  failIf (decide (accountId = targetId)) .notFound
  at_.writeAllowed accountId
  let target ← relationshipTarget state accountId targetId
  failIf target.unavailable .notFound
  failIf (following && (relationshipIsBlocked state accountId targetId ||
    accountDomainIsBlocked at_.lower state accountId targetId)) .notFound
  let delivery := if target.isLocal then none
    else origin.bind fun origin => remoteRelationshipDelivery state accountId targetId origin
  failIf (delivery.any fun delivery => !at_.domainAllowed delivery.domain) .notFound
  if following then
    startFollow at_ state accountId targetId target reblogs notify languages origin delivery
  else .ok (stopFollow at_ state accountId targetId origin delivery)

/-- A request as the follow it becomes. -/
def acceptedFollow (at_ : Surroundings) (request : Follow) (uri : Option String) : Follow :=
  { request with id := at_.newId, uri }

/-- Turns a request into a follow, unless there is one that is only to be changed. -/
def acceptRequest (at_ : Surroundings) (state : State) (request : Follow) (uri : Option String)
    (existing : Option Follow) (change : Table Follow.pair → Table Follow.pair) (recipientId : ℤ) :
    Written (State × ℤ) :=
  match existing with
  | some follow =>
    .ok (removeRequest { state with follows := change state.follows } request.pair recipientId, follow.id)
  | none => (okOr (state.follows.insert (acceptedFollow at_ request uri)) .database).map fun follows =>
      (removeRequest { state with follows } request.pair recipientId, at_.newId)

/-- `authorize_follow_request_with_origin`. -/
def authorizeFollowRequest (at_ : Surroundings) (state : State) (session : Written ℤ) (sourceId : ℤ) :
    Written (State × FollowWriteOutcome) := do
  let targetId ← session
  failIf (decide (sourceId = targetId)) .notFound
  at_.writeAllowed targetId
  let request ← okOr (state.followRequests.get (sourceId, targetId)) .notFound
  let accepted ← acceptRequest at_ state request request.uri (state.follows.get (sourceId, targetId))
    (fun follows => updateFollowOptions follows (sourceId, targetId) (some request.showReblogs)
      (some request.notify) request.languages) targetId
  .ok (accepted.1, ⟨some accepted.2, targetId, false, none⟩)

/-- `reject_follow_request_with_origin`. -/
def rejectFollowRequest (at_ : Surroundings) (state : State) (session : Written ℤ) (sourceId : ℤ) :
    Written State := do
  let targetId ← session
  failIf (decide (sourceId = targetId)) .notFound
  at_.writeAllowed targetId
  let _ ← okOr (state.followRequests.get (sourceId, targetId)) .notFound
  .ok (removeRequest state (sourceId, targetId) targetId)

/-- `remove_follower_with_origin`. -/
def removeFollower (at_ : Surroundings) (state : State) (session : Written ℤ) (followerId : ℤ) :
    Written State := do
  let targetId ← session
  failIf (decide (followerId = targetId)) .notFound
  at_.writeAllowed targetId
  let follower ← relationshipTarget state targetId followerId
  failIf follower.unavailable .notFound
  .ok (removeFollow state (followerId, targetId))

def withBlockUri (uri : String) (block : Block) : Block := { block with uri := some uri }

theorem withBlockUri_pair (uri : String) (block : Block) : (withBlockUri uri block).pair = block.pair :=
  rfl

/-- `INSERT INTO blocks … ON CONFLICT DO NOTHING`. -/
def insertBlock (at_ : Surroundings) (blocks : Table Block.pair) (pair : ℤ × ℤ) (uri : Option String) :
    Table Block.pair :=
  (blocks.insert ⟨at_.newId, pair.1, pair.2, uri⟩).getD blocks

/-- The block of a local account, with the URI under which other servers are told of it. -/
def localBlock (at_ : Surroundings) (blocks : Table Block.pair) (pair : ℤ × ℤ) (origin : Option String)
    (delivery : Option RemoteRelationshipDelivery) : Table Block.pair :=
  let blocks := insertBlock at_ blocks pair none
  match origin, delivery, blocks.get pair with
  | some origin, some _, some block =>
    let uri := block.uri.getD (localBlockActivityUri at_ origin pair block.id)
    blocks.modify pair (withBlockUri uri) (withBlockUri_pair uri)
  | _, _, _ => blocks

/-- `set_block_with_origin`, to block. -/
def blockAccount (at_ : Surroundings) (state : State) (accountId targetId : ℤ) (origin : Option String)
    (delivery : Option RemoteRelationshipDelivery) : State :=
  let blocks := localBlock at_ state.blocks (accountId, targetId) origin delivery
  clearAccountInteractions (removeFollowRelationships { state with blocks } accountId targetId) accountId
    targetId

/-- `set_block_with_origin`. -/
def setBlock (at_ : Surroundings) (state : State) (session : Written ℤ) (targetId : ℤ) (blocking : Bool)
    (origin : Option String) : Written State := do
  let accountId ← session
  if accountId = targetId then .ok state
  else do
    at_.writeAllowed accountId
    let target ← relationshipTarget state accountId targetId
    failIf target.unavailable .notFound
    let delivery := if target.isLocal then none
      else origin.bind fun origin => remoteRelationshipDelivery state accountId targetId origin
    if blocking then .ok (blockAccount at_ state accountId targetId origin delivery)
    else .ok { state with blocks := state.blocks.erase (accountId, targetId) }

/-! ### Remote servers -/

inductive RemoteFollowOutcome where
  | rejected (recipientAccountId : ℤ)
  | applied (activityId recipientAccountId : ℤ) (request created silenced : Bool)

/-- `-99` is the account of the server itself. -/
def otherRecipient (deliveryTargetId : Option ℤ) (targetId : ℤ) : Bool :=
  deliveryTargetId.any fun id => decide (id ≠ -99) && decide (id ≠ targetId)

/-- `String::trim` leaves nothing. -/
def isBlank (text : String) : Bool := text.toList.all Schemes.Utf8.isWhitespace

/-- `apply_remote_follow`, on two accounts that are known. -/
def remoteFollow (at_ : Surroundings) (state : State) (source target : Account) (followUri : String) :
    Written (State × Option RemoteFollowOutcome) :=
  let pair := (source.id, target.id)
  let silenced := source.silencedAt.isSome
  let domainBlocked := source.domain.any fun domain => state.domainBlocks.contains (target.id, domain)
  if source.suspendedAt.isSome then .ok (state, none)
  else match state.followRequests.get pair with
    | some request =>
      .ok ({ state with followRequests := updateFollowUri state.followRequests pair followUri },
        some (.applied request.id target.id true false silenced))
    | none =>
      if target.suspendedAt.isSome || target.movedToAccountId.isSome || domainBlocked ||
          relationshipIsBlocked state source.id target.id then
        .ok (state, some (.rejected target.id))
      else match state.follows.get pair with
        | some follow =>
          .ok ({ state with follows := updateFollowUri state.follows pair followUri },
            some (.applied follow.id target.id false false silenced))
        | none =>
          let row := newFollow at_ pair (some true) (some false) none (some followUri)
          if target.locked || silenced then
            (okOr (state.followRequests.insert row) .database).map fun followRequests =>
              ({ state with followRequests }, some (.applied at_.newId target.id true true silenced))
          else
            (okOr (state.follows.insert row) .database).map fun follows =>
              ({ state with follows }, some (.applied at_.newId target.id false true silenced))

/-- `apply_remote_follow`. -/
def applyRemoteFollow (at_ : Surroundings) (state : State) (sourceId : ℤ) (followUri objectUri : String)
    (origin : String) (deliveryTargetId : Option ℤ) : Written (State × Option RemoteFollowOutcome) := do
  failIf (isBlank followUri || isBlank objectUri)
    (.invalidInput "remote Follow is missing its activity or object URI")
  if relationshipTombstoned at_ state (followTombstoneKey at_ sourceId followUri) ||
      remoteInteractionTombstoned state sourceId followUri then
    .ok (state, none)
  else match localActivitypubAccountId state objectUri origin with
    | none => .ok (state, none)
    | some targetId =>
      if otherRecipient deliveryTargetId targetId then .ok (state, none)
      else if targetId = -99 then .ok (state, some (.rejected targetId))
      else match state.accounts.get sourceId, state.accounts.get targetId with
        | some source, some target =>
          if source.domain.isNone then .ok (state, none) else remoteFollow at_ state source target followUri
        | _, _ => .ok (state, none)

/-- The other account of a follow or a request with a URI. -/
def otherByUri (state : State) (matches_ : Follow → Bool) (other : Follow → ℤ) : Option ℤ :=
  ((state.follows.rows.find? matches_).or (state.followRequests.rows.find? matches_)).map other

/-- What an undone activity is about: nothing, a target that its object names, or one that is found. -/
def undoTarget (state : State) (targetUri : Option String) (origin : String) (found : Option ℤ) :
    Option (Option ℤ) :=
  match targetUri with
  | some targetUri => (localActivitypubAccountId state targetUri origin).map some
  | none => some found

/-- Removes the follow, or else the request, that has a URI. -/
def removeByUri (state : State) (pair : ℤ × ℤ) (uri : String) : State :=
  if (state.follows.get pair).any fun follow => follow.uri == some uri then removeFollow state pair
  else if (state.followRequests.get pair).any fun request => request.uri == some uri then
    removeRequest state pair pair.2
  else state

/-- `apply_remote_undo_follow`. -/
def applyRemoteUndoFollow (at_ : Surroundings) (state : State) (sourceId : ℤ) (followUri : String)
    (targetUri : Option String) (origin : String) (deliveryTargetId : Option ℤ) : Written State := do
  failIf (isBlank followUri) (.invalidInput "remote Undo object is missing its URI")
  if !isRemote state sourceId then .ok state
  else match undoTarget state targetUri origin (otherByUri state (fun follow =>
      decide (follow.accountId = sourceId) && follow.uri == some followUri) Follow.targetAccountId) with
    | none => .ok state
    | some targetId =>
      if targetId.any (otherRecipient deliveryTargetId) then .ok state
      else
        let undone := match targetId.filter fun id => decide (id ≠ -99) with
          | some targetId => removeByUri state (sourceId, targetId) followUri
          | none => state
        .ok (insertRelationshipTombstone at_ undone (followTombstoneKey at_ sourceId followUri))

/-- `apply_remote_block`, on a target that is known. -/
def remoteBlock (at_ : Surroundings) (state : State) (sourceId targetId : ℤ) (blockUri : String) : State :=
  let pair := (sourceId, targetId)
  let blocks := insertBlock at_ state.blocks pair (some blockUri)
  { removeFollowRelationships state sourceId targetId with
    blocks := blocks.modify pair (withBlockUri blockUri) (withBlockUri_pair blockUri) }

/-- `apply_remote_block`. -/
def applyRemoteBlock (at_ : Surroundings) (state : State) (sourceId : ℤ) (blockUri objectUri : String)
    (origin : String) (deliveryTargetId : Option ℤ) : Written State := do
  failIf (isBlank blockUri || isBlank objectUri)
    (.invalidInput "remote Block is missing its activity or object URI")
  if relationshipTombstoned at_ state (blockTombstoneKey at_ sourceId blockUri) ||
      remoteInteractionTombstoned state sourceId blockUri then
    .ok state
  else match localActivitypubAccountId state objectUri origin with
    | none => .ok state
    | some targetId =>
      if targetId = -99 || otherRecipient deliveryTargetId targetId || !isRemote state sourceId then
        .ok state
      else .ok (remoteBlock at_ state sourceId targetId blockUri)

/-- Deletes the block of a pair that has a URI. -/
def removeBlockByUri (state : State) (pair : ℤ × ℤ) (uri : String) : State :=
  if (state.blocks.get pair).any fun block => block.uri == some uri then
    { state with blocks := state.blocks.erase pair }
  else state

/-- `apply_remote_undo_block`. -/
def applyRemoteUndoBlock (at_ : Surroundings) (state : State) (sourceId : ℤ) (blockUri : String)
    (targetUri : Option String) (origin : String) (deliveryTargetId : Option ℤ) : Written State := do
  failIf (isBlank blockUri) (.invalidInput "remote Undo Block is missing its URI")
  if !isRemote state sourceId then .ok state
  else match undoTarget state targetUri origin ((state.blocks.rows.find? fun block =>
      decide (block.accountId = sourceId) && block.uri == some blockUri).map Block.targetAccountId) with
    | none => .ok state
    | some targetId =>
      if targetId.any (otherRecipient deliveryTargetId) then .ok state
      else
        let undone := match targetId.filter fun id => decide (id ≠ -99) with
          | some targetId => removeBlockByUri state (sourceId, targetId) blockUri
          | none => state
        .ok (insertRelationshipTombstone at_ undone (blockTombstoneKey at_ sourceId blockUri))

/-- `apply_remote_follow_decision`, on the local account that it is about. -/
def decideFollow (at_ : Surroundings) (state : State) (localId sourceId : ℤ) (followUri : String)
    (accepted : Bool) : Written State :=
  let pair := (localId, sourceId)
  let request := (state.followRequests.get pair).filter fun request => request.uri == some followUri
  let follow := (state.follows.get pair).filter fun follow => follow.uri == some followUri
  if accepted then
    match request with
    | some request => (acceptRequest at_ state request (some followUri) follow
        (fun follows => updateFollowUri follows pair followUri) localId).map Prod.fst
    | none =>
      if follow.isSome then .ok { state with follows := updateFollowUri state.follows pair followUri }
      else .ok state
  else
    let withdrawn := if request.isSome then removeRequest state pair localId else state
    .ok (if follow.isSome then removeFollow withdrawn pair else withdrawn)

/-- The local account whose follow is decided: named, delivered to, or found by the URI of the follow. -/
def decidedAccount (state : State) (sourceId : ℤ) (followUri : String) (localActorUri : Option String)
    (origin : String) (deliveryTargetId : Option ℤ) : Option ℤ :=
  let localId := match localActorUri with
    | some localActorUri => localActivitypubAccountId state localActorUri origin
    | none => (deliveryTargetId.filter fun id => decide (id ≠ -99)).or
        (otherByUri state (fun follow => decide (follow.targetAccountId = sourceId) &&
          follow.uri == some followUri) Follow.accountId)
  localId.filter fun id => decide (id ≠ -99)

/-- `apply_remote_follow_decision`. -/
def applyRemoteFollowDecision (at_ : Surroundings) (state : State) (sourceId : ℤ) (followUri : String)
    (targetUri localActorUri : Option String) (accepted : Bool) (origin : String)
    (deliveryTargetId : Option ℤ) : Written State := do
  failIf (isBlank followUri) (.invalidInput "remote Follow decision is missing its Follow URI")
  match (state.accounts.get sourceId).filter fun source => source.domain.isSome with
  | none => .ok state
  | some source =>
    if targetUri.any fun targetUri => targetUri != source.uri then .ok state
    else match decidedAccount state sourceId followUri localActorUri origin deliveryTargetId with
      | none => .ok state
      | some localId =>
        if otherRecipient deliveryTargetId localId then .ok state
        else decideFollow at_ state localId sourceId followUri accepted

/-! ### Notifications -/

/-- The row that a notification is about. -/
def notifiedFollow (state : State) (activityType : ActivityType) (activityId : ℤ) : Option Follow :=
  (match activityType with
    | .follow => state.follows
    | .followRequest => state.followRequests).rows.find? fun follow => decide (follow.id = activityId)

/-- Whether a notification is made for a recipient. -/
def notificationMade (at_ : Surroundings) (state : State) (recipientId : ℤ)
    (activityType : ActivityType) (activityId : ℤ) (follow : Follow) : Bool :=
  (state.accounts.get follow.accountId).any (fun sender => sender.suspendedAt.isNone) &&
    decide (follow.targetAccountId = recipientId) &&
    !(state.notifications.any fun other => decide (other.accountId = recipientId) &&
      decide (other.activityId = activityId) && decide (other.activityType = activityType)) &&
    (state.accounts.get recipientId).any (fun recipient =>
      recipient.hasUser && recipient.suspendedAt.isNone) &&
    decide (follow.accountId ≠ recipientId) && at_.notificationAdmitted

/-- `create_notification`, for a follow or a follow request. -/
def createNotification (at_ : Surroundings) (state : State) (recipientId : ℤ)
    (activityType : ActivityType) (activityId : ℤ) : State :=
  match notifiedFollow state activityType activityId with
  | none => state
  | some follow =>
    if notificationMade at_ state recipientId activityType activityId follow then
      { state with notifications := state.notifications ++
          [⟨recipientId, activityId, activityType, follow.accountId⟩] }
    else state

end Rustodon.Relationships
