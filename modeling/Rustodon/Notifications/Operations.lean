import Mathlib.Data.List.Basic
import Rustodon.Ingest.Notes
import Rustodon.Streaming.Routes

/-! @src mastodon/write_repository.rs, worker.rs | name:Notifications and their requests | scheme:runs |
    family:notifications

    Notifications, the requests that stand for those that a policy has filtered, and the operations on
    both. A transaction is one step. Conversations, stream events and the markers of groups are left
    out; what a notification is made from is read from the surroundings. -/

namespace Rustodon.Notifications
open Ingest (WriteError Written)
open Streaming (parseI64)

/-! ### Activities -/

inductive ActivityType where
  | mention | status | follow | followRequest | favourite | poll | quote
  | accountRelationshipSeveranceEvent | accountWarning | generatedAnnualReport | account | report
  | collectionItem | collection
  deriving DecidableEq

inductive NotificationType where
  | mention | status | reblog | follow | followRequest | favourite | poll | update | quotedUpdate | quote
  | severedRelationships | moderationWarning | annualReport | adminSignUp | adminReport
  | addedToCollection | collectionUpdate
  deriving DecidableEq

inductive NotificationActivity where
  | mention (id : ℤ)
  | status (id : ℤ)
  | reblog (id : ℤ)
  | follow (id : ℤ)
  | followRequest (id : ℤ)
  | favourite (id : ℤ)
  | poll (id : ℤ)
  | update (id : ℤ)
  | quotedUpdate (id : ℤ)
  | quote (id : ℤ)
  | severedRelationships (id : ℤ)
  | moderationWarning (id : ℤ)
  | annualReport (id : ℤ)
  | adminSignUp (id : ℤ)
  | adminReport (id : ℤ)
  | addedToCollection (id : ℤ)
  | collectionUpdate (id : ℤ)

/-- The columns of the row of an activity, as far as its query selects them. -/
structure ActivityRow where
  fromAccountId : ℤ
  targetAccountId : ℤ
  targetStatusId : ℤ

structure ResolvedNotificationActivity where
  activityId : ℤ
  activityType : ActivityType
  notificationType : NotificationType
  fromAccountId : ℤ
  targetAccountId : Option ℤ
  targetStatusId : Option ℤ

/-- `resolve_notification_activity`, from the row that the query finds. -/
def NotificationActivity.resolve (row : ActivityRow) : NotificationActivity → ResolvedNotificationActivity
  | .mention id =>
    ⟨id, .mention, .mention, row.fromAccountId, some row.targetAccountId, some row.targetStatusId⟩
  | .status id => ⟨id, .status, .status, row.fromAccountId, none, some id⟩
  | .reblog id =>
    ⟨id, .status, .reblog, row.fromAccountId, some row.targetAccountId, some row.targetStatusId⟩
  | .follow id => ⟨id, .follow, .follow, row.fromAccountId, some row.targetAccountId, none⟩
  | .followRequest id =>
    ⟨id, .followRequest, .followRequest, row.fromAccountId, some row.targetAccountId, none⟩
  | .favourite id =>
    ⟨id, .favourite, .favourite, row.fromAccountId, some row.targetAccountId, some row.targetStatusId⟩
  | .poll id => ⟨id, .poll, .poll, row.fromAccountId, none, some row.targetStatusId⟩
  | .update id => ⟨id, .status, .update, row.fromAccountId, none, some id⟩
  | .quotedUpdate id =>
    ⟨id, .status, .quotedUpdate, row.fromAccountId, some row.targetAccountId, some id⟩
  | .quote id =>
    ⟨id, .quote, .quote, row.fromAccountId, some row.targetAccountId, some row.targetStatusId⟩
  | .severedRelationships id =>
    ⟨id, .accountRelationshipSeveranceEvent, .severedRelationships, row.fromAccountId,
      some row.fromAccountId, none⟩
  | .moderationWarning id =>
    ⟨id, .accountWarning, .moderationWarning, row.fromAccountId, some row.fromAccountId, none⟩
  | .annualReport id =>
    ⟨id, .generatedAnnualReport, .annualReport, row.fromAccountId, some row.fromAccountId, none⟩
  | .adminSignUp id => ⟨id, .account, .adminSignUp, row.fromAccountId, none, none⟩
  | .adminReport id => ⟨id, .report, .adminReport, row.fromAccountId, none, none⟩
  | .addedToCollection id =>
    ⟨id, .collectionItem, .addedToCollection, row.fromAccountId, some row.targetAccountId, none⟩
  | .collectionUpdate id =>
    ⟨id, .collection, .collectionUpdate, row.fromAccountId, some row.targetAccountId, none⟩

def notificationRequiresActiveSender : NotificationType → Bool
  | .mention | .status | .reblog | .follow | .followRequest | .favourite | .poll | .update
  | .quotedUpdate | .quote | .addedToCollection | .collectionUpdate => true
  | .severedRelationships | .moderationWarning | .annualReport | .adminSignUp | .adminReport => false

/-! ### Policies -/

/-- What `notification_policy_facts` reads, but for permissions. -/
structure PolicyFacts where
  staffBypass : Bool
  notFollowing : Bool
  notFollower : Bool
  newAccount : Bool
  limited : Bool
  bot : Bool
  privateMention : Bool
  forNotFollowing : ℤ
  forNotFollowers : ℤ
  forNewAccounts : ℤ
  forLimitedAccounts : ℤ
  forBots : ℤ
  forPrivateMentions : ℤ

inductive NotificationPolicyDecision where
  | accept
  | filter
  | drop
  deriving DecidableEq

def filterable : NotificationType → Bool
  | .mention | .reblog | .follow | .followRequest | .favourite | .quote | .addedToCollection => true
  | _ => false

def notificationPolicyDecision (facts : PolicyFacts) (filterable permission : Bool) :
    NotificationPolicyDecision :=
  if !filterable || permission then .accept
  else
    let actions : List (Bool × ℤ) :=
      [(facts.notFollowing, facts.forNotFollowing),
        (facts.notFollower, facts.forNotFollowers),
        (facts.newAccount && facts.notFollowing, facts.forNewAccounts),
        (facts.limited && facts.notFollowing, facts.forLimitedAccounts),
        (facts.bot && facts.notFollowing, facts.forBots),
        (facts.privateMention && facts.notFollowing, facts.forPrivateMentions)]
    if actions.any fun (condition, action) => condition && action == 2 then .drop
    else if actions.any fun (condition, action) => condition && action == 1 then .filter
    else .accept

def notificationPolicyDecisionForType (facts : PolicyFacts) (type : NotificationType) (permission : Bool) :
    NotificationPolicyDecision :=
  if type = .mention ∧ facts.staffBypass = true then .accept
  else notificationPolicyDecision facts (filterable type) permission

/-! ### Rows -/

structure Notification where
  id : ℤ
  accountId : ℤ
  activityId : ℤ
  activityType : ActivityType
  fromAccountId : ℤ
  type : NotificationType
  groupKey : Option String
  filtered : Bool
  deriving DecidableEq

structure NotificationRequest where
  id : ℤ
  accountId : ℤ
  fromAccountId : ℤ
  lastStatusId : Option ℤ
  notificationsCount : ℕ
  deriving DecidableEq

/-- The jobs that operations on requests record. Their logical keys have all of these fields. -/
inductive Job where
  | unfilter (accountId fromAccountId : ℤ)
  | cleanup (accountId fromAccountId requestId : ℤ)
  deriving DecidableEq

/-- The tables, with permissions as accounts and senders. -/
structure State where
  notifications : List Notification
  requests : List NotificationRequest
  permissions : List (ℤ × ℤ)
  jobs : List Job
  nextNotificationId : ℤ
  nextRequestId : ℤ
  deriving DecidableEq

/-- Filtered mentions and quotes are what requests count. -/
def Notification.meaningful (accountId fromAccountId : ℤ) (notification : Notification) : Bool :=
  decide (notification.accountId = accountId) && decide (notification.fromAccountId = fromAccountId) &&
    notification.filtered && decide (notification.type = .mention ∨ notification.type = .quote)

def meaningfulCount (accountId fromAccountId : ℤ) (notifications : List Notification) : ℕ :=
  notifications.countP (Notification.meaningful accountId fromAccountId)

/-- The recipient, activity and type of a notification. -/
def Notification.key (notification : Notification) : ℤ × ℤ × ActivityType × NotificationType :=
  (notification.accountId, notification.activityId, notification.activityType, notification.type)

def NotificationRequest.pair (request : NotificationRequest) : ℤ × ℤ :=
  (request.accountId, request.fromAccountId)

/-- The `UPDATE` and the `DELETE` of `reconcile_notification_requests`. -/
def reconcileNotificationRequests (accountId : ℤ) (fromAccountIds : List ℤ) (state : State) : State :=
  { state with
    requests := (state.requests.filter fun request =>
        !(decide (request.accountId = accountId) && decide (request.fromAccountId ∈ fromAccountIds) &&
          decide (meaningfulCount request.accountId request.fromAccountId state.notifications = 0))).map
      fun request =>
        if request.accountId = accountId ∧ request.fromAccountId ∈ fromAccountIds then
          { request with
            notificationsCount :=
              min 100 (meaningfulCount request.accountId request.fromAccountId state.notifications) }
        else request }

/-- `record_outbox_once_in`. -/
def recordOnce (job : Job) (jobs : List Job) : List Job := if job ∈ jobs then jobs else jobs ++ [job]

/-! ### Creation -/

/-- What `create_notification` reads of other tables. -/
structure Surroundings where
  row : Option ActivityRow
  senderAvailable : Bool
  recipientHasUser : Bool
  recipientSuspended : Bool
  facts : PolicyFacts
  blocked : Bool
  groupKey : Option String

inductive NotificationCreateOutcome where
  | created (id : ℤ) (filtered : Bool)
  | existing (id : ℤ) (filtered : Bool)
  | dropped
  deriving DecidableEq

def upsertNotificationRequest (recipientId : ℤ) (activity : ResolvedNotificationActivity) (state : State) :
    State :=
  let count := min 100 (meaningfulCount recipientId activity.fromAccountId state.notifications)
  if state.requests.any fun request => decide (request.pair = (recipientId, activity.fromAccountId)) then
    { state with
      requests := state.requests.map fun request =>
        if request.pair = (recipientId, activity.fromAccountId) then
          { request with lastStatusId := activity.targetStatusId, notificationsCount := count }
        else request }
  else
    { state with
      requests := state.requests ++
        [⟨state.nextRequestId, recipientId, activity.fromAccountId, activity.targetStatusId, count⟩]
      nextRequestId := state.nextRequestId + 1 }

def replacesExisting : NotificationType → Bool
  | .update | .quotedUpdate | .collectionUpdate => true
  | _ => false

def keyOf (recipientId : ℤ) (activity : ResolvedNotificationActivity) :
    ℤ × ℤ × ActivityType × NotificationType :=
  (recipientId, activity.activityId, activity.activityType, activity.notificationType)

/-- The notification that there is already. -/
def existingNotification (recipientId : ℤ) (activity : ResolvedNotificationActivity) (state : State) :
    Option Notification :=
  if replacesExisting activity.notificationType then none
  else state.notifications.find? fun notification => decide (notification.key = keyOf recipientId activity)

/-- Whether a notification is dropped before the policy is asked: there is no such user, it would be for
    the sender, or something is blocked. -/
def unwanted (at_ : Surroundings) (recipientId : ℤ) (activity : ResolvedNotificationActivity) : Bool :=
  !(at_.recipientHasUser &&
      (decide (activity.notificationType = .moderationWarning) || !at_.recipientSuspended)) ||
    (decide (activity.fromAccountId = recipientId) &&
      !decide (activity.notificationType = .poll ∨ activity.notificationType = .severedRelationships ∨
        activity.notificationType = .moderationWarning ∨ activity.notificationType = .annualReport)) ||
    (!(at_.facts.staffBypass && decide (activity.notificationType = .mention)) && at_.blocked)

/-- The row that is written. -/
def newNotification (at_ : Surroundings) (recipientId : ℤ) (activity : ResolvedNotificationActivity)
    (filtered : Bool) (id : ℤ) : Notification where
  id := id
  accountId := recipientId
  activityId := activity.activityId
  activityType := activity.activityType
  fromAccountId := activity.fromAccountId
  type := activity.notificationType
  groupKey := if filtered then none else at_.groupKey
  filtered := filtered

def appendNotification (notification : Notification) (state : State) : State :=
  { state with
    notifications := state.notifications ++ [notification]
    nextNotificationId := state.nextNotificationId + 1 }

/-- The notification, and the request for it. -/
def insertNotification (at_ : Surroundings) (recipientId : ℤ) (activity : ResolvedNotificationActivity)
    (filtered : Bool) (state : State) : NotificationCreateOutcome × State :=
  let inserted := appendNotification
    (newNotification at_ recipientId activity filtered state.nextNotificationId) state
  (.created state.nextNotificationId filtered,
    if filtered && decide (activity.notificationType = .mention ∨ activity.notificationType = .quote) then
      upsertNotificationRequest recipientId activity inserted
    else inserted)

/-- An activity that has been found is admitted by the policy, or not. -/
def admitNotification (at_ : Surroundings) (recipientId : ℤ) (activity : ResolvedNotificationActivity)
    (state : State) : NotificationCreateOutcome × State :=
  match existingNotification recipientId activity state with
  | some existing => (.existing existing.id existing.filtered, state)
  | none =>
    if unwanted at_ recipientId activity then (.dropped, state)
    else
      match notificationPolicyDecisionForType at_.facts activity.notificationType
          (decide ((recipientId, activity.fromAccountId) ∈ state.permissions)) with
      | .drop => (.dropped, state)
      | .filter => insertNotification at_ recipientId activity true state
      | .accept => insertNotification at_ recipientId activity false state

/-- A notification of an update is deleted first, also where no other one follows. -/
def replaceExisting (recipientId : ℤ) (activity : ResolvedNotificationActivity) (state : State) : State :=
  if replacesExisting activity.notificationType then
    { state with
      notifications := state.notifications.filter fun notification =>
        decide (notification.key ≠ keyOf recipientId activity) }
  else state

def createNotification (at_ : Surroundings) (recipientId : ℤ) (activity : NotificationActivity)
    (state : State) : NotificationCreateOutcome × State :=
  match at_.row.map activity.resolve with
  | none => (.dropped, state)
  | some activity =>
    if notificationRequiresActiveSender activity.notificationType && !at_.senderAvailable then
      (.dropped, state)
    else if activity.targetAccountId.any fun accountId => decide (accountId ≠ recipientId) then
      (.dropped, state)
    else admitNotification at_ recipientId activity (replaceExisting recipientId activity state)

/-! ### Dismissal -/

def clearNotifications (accountId : ℤ) (state : State) : State :=
  { state with
    notifications := state.notifications.filter fun notification =>
      decide (notification.accountId ≠ accountId) }

def dismissNotification (accountId notificationId : ℤ) (state : State) : Written State :=
  match state.notifications.find? fun notification =>
      decide (notification.accountId = accountId) && decide (notification.id = notificationId) with
  | none => .error .notFound
  | some notification =>
    .ok (reconcileNotificationRequests accountId [notification.fromAccountId]
      { state with
        notifications := state.notifications.filter fun other =>
          !(decide (other.accountId = accountId) && decide (other.id = notificationId)) })

/-- `strip_prefix("ungrouped-").and_then(parse::<i64>)`. -/
def ungroupedId (groupKey : String) : Option ℤ :=
  if "ungrouped-".toList.isPrefixOf groupKey.toList then
    parseI64 (String.ofList (groupKey.toList.drop "ungrouped-".length))
  else none

/-- The rows of a group. -/
def inGroup (accountId : ℤ) (groupKey : String) (notification : Notification) : Bool :=
  decide (notification.accountId = accountId) &&
    match ungroupedId groupKey with
    | some notificationId => decide (notification.id = notificationId)
    | none => decide (notification.groupKey = some groupKey)

def dismissNotificationGroup (accountId : ℤ) (groupKey : String) (state : State) : State :=
  let rows := state.notifications.filter (inGroup accountId groupKey)
  reconcileNotificationRequests accountId (rows.map Notification.fromAccountId)
    { state with
      notifications := state.notifications.filter fun notification =>
        !(decide (notification.accountId = accountId) &&
          decide (notification.id ∈ rows.map Notification.id)) }

/-! ### Requests -/

/-- The row of a request. -/
def requestOf (accountId requestId : ℤ) (state : State) : Option NotificationRequest :=
  state.requests.find? fun request =>
    decide (request.accountId = accountId) && decide (request.id = requestId)

def deleteRequests (accountId : ℤ) (requestIds : List ℤ) (state : State) : State :=
  { state with
    requests := state.requests.filter fun request =>
      !(decide (request.accountId = accountId) && decide (request.id ∈ requestIds)) }

def acceptNotificationRequest (accountId requestId : ℤ) (state : State) : Written State :=
  match requestOf accountId requestId state with
  | none => .error .notFound
  | some request =>
    .ok { deleteRequests accountId [requestId] state with
      permissions := state.permissions ++ [(accountId, request.fromAccountId)]
      jobs := recordOnce (.unfilter accountId request.fromAccountId) state.jobs }

def dismissNotificationRequest (accountId requestId : ℤ) (state : State) : Written State :=
  match requestOf accountId requestId state with
  | none => .error .notFound
  | some request =>
    .ok { deleteRequests accountId [requestId] state with
      jobs := recordOnce (.cleanup accountId request.fromAccountId requestId) state.jobs }

/-- The requests that a bulk operation is about. The query returns them in no particular order. -/
def selectedRequests (accountId : ℤ) (requestIds : List ℤ) (state : State) : List NotificationRequest :=
  state.requests.filter fun request =>
    decide (request.accountId = accountId) && decide (request.id ∈ requestIds)

/-- `accept_notification_requests`, for the rows in the order of the query. -/
def acceptNotificationRequests (accountId : ℤ) (requestIds : List ℤ) (rows : List NotificationRequest)
    (state : State) : State :=
  { deleteRequests accountId requestIds state with
    permissions := state.permissions ++ rows.map fun request => (accountId, request.fromAccountId)
    jobs := (rows.map NotificationRequest.fromAccountId).foldl
      (fun jobs fromAccountId => recordOnce (.unfilter accountId fromAccountId) jobs) state.jobs }

def dismissNotificationRequests (accountId : ℤ) (requestIds : List ℤ) (state : State) : State :=
  deleteRequests accountId requestIds state

/-! ### Jobs -/

/-- `process_notification_unfilter_job`. -/
def processNotificationUnfilterJob (accountId fromAccountId : ℤ) (state : State) : State :=
  { state with
    notifications := state.notifications.map fun notification =>
      if notification.accountId = accountId ∧ notification.fromAccountId = fromAccountId ∧
          notification.filtered = true then
        { notification with filtered := false }
      else notification }

def notificationCleanupBatchSize : ℕ := 1000

/-- The newest filtered notifications of a sender. -/
def cleanupBatch (accountId fromAccountId : ℤ) (state : State) : List ℤ :=
  (((state.notifications.filter fun notification =>
      decide (notification.accountId = accountId) && decide (notification.fromAccountId = fromAccountId) &&
        notification.filtered).map Notification.id).mergeSort fun a b => decide (b ≤ a)).take
    notificationCleanupBatchSize

/-- One turn of the loop of `process_notification_cleanup_job`, which is a transaction of its own. -/
def processNotificationCleanupJob (accountId fromAccountId : ℤ) (state : State) : State :=
  { state with
    notifications := state.notifications.filter fun notification =>
      decide (notification.id ∉ cleanupBatch accountId fromAccountId state) }

/-! ### Blocks, mutes and deletions -/

def clearAccountInteractions (accountId targetAccountId : ℤ) (state : State) : State :=
  { state with
    requests := state.requests.filter fun request => decide (request.pair ≠ (accountId, targetAccountId))
    notifications := state.notifications.filter fun notification =>
      decide ((notification.accountId, notification.fromAccountId) ≠ (accountId, targetAccountId)) }

/-- What `set_account_block` does here. -/
def blockAccount (accountId targetAccountId : ℤ) (state : State) : State :=
  clearAccountInteractions accountId targetAccountId
    { state with
      permissions := state.permissions.filter fun permission =>
        decide (permission ≠ (accountId, targetAccountId)) }

/-- `delete_activity_notifications`, and `delete_quoted_update_notifications` for one recipient: the
    notifications of a recipient that are about activities. -/
def deleteActivityNotifications (recipientId : ℤ) (about : Notification → Bool) (state : State) : State :=
  let gone := state.notifications.filter fun notification =>
    decide (notification.accountId = recipientId) && about notification
  reconcileNotificationRequests recipientId (gone.map Notification.fromAccountId)
    { state with
      notifications := state.notifications.filter fun notification =>
        !(decide (notification.accountId = recipientId) && about notification) }

/-! ### Histories -/

inductive Op where
  | createNotification (at_ : Surroundings) (recipientId : ℤ) (activity : NotificationActivity)
  | dismissNotification (accountId notificationId : ℤ)
  | dismissNotificationGroup (accountId : ℤ) (groupKey : String)
  | clearNotifications (accountId : ℤ)
  | acceptNotificationRequest (accountId requestId : ℤ)
  | dismissNotificationRequest (accountId requestId : ℤ)
  | acceptNotificationRequests (accountId : ℤ) (requestIds : List ℤ) (rows : List NotificationRequest)
  | dismissNotificationRequests (accountId : ℤ) (requestIds : List ℤ)
  | unfilter (accountId fromAccountId : ℤ)
  | cleanup (accountId fromAccountId : ℤ)
  | blockAccount (accountId targetAccountId : ℤ)
  | mute (accountId targetAccountId : ℤ)
  | deleteActivity (recipientId activityId : ℤ) (activityType : ActivityType)
  | deleteQuotedUpdates (recipientId : ℤ) (statusIds : List ℤ)

def Op.apply (state : State) : Op → Written State
  | .createNotification at_ recipientId activity =>
    .ok (Notifications.createNotification at_ recipientId activity state).2
  | .dismissNotification accountId notificationId =>
    Notifications.dismissNotification accountId notificationId state
  | .dismissNotificationGroup accountId groupKey =>
    .ok (Notifications.dismissNotificationGroup accountId groupKey state)
  | .clearNotifications accountId => .ok (Notifications.clearNotifications accountId state)
  | .acceptNotificationRequest accountId requestId =>
    Notifications.acceptNotificationRequest accountId requestId state
  | .dismissNotificationRequest accountId requestId =>
    Notifications.dismissNotificationRequest accountId requestId state
  | .acceptNotificationRequests accountId requestIds rows =>
    .ok (Notifications.acceptNotificationRequests accountId requestIds rows state)
  | .dismissNotificationRequests accountId requestIds =>
    .ok (Notifications.dismissNotificationRequests accountId requestIds state)
  | .unfilter accountId fromAccountId => .ok (processNotificationUnfilterJob accountId fromAccountId state)
  | .cleanup accountId fromAccountId => .ok (processNotificationCleanupJob accountId fromAccountId state)
  | .blockAccount accountId targetAccountId =>
    .ok (Notifications.blockAccount accountId targetAccountId state)
  | .mute accountId targetAccountId => .ok (clearAccountInteractions accountId targetAccountId state)
  | .deleteActivity recipientId activityId activityType =>
    .ok (deleteActivityNotifications recipientId (fun notification =>
      decide (notification.activityId = activityId) && decide (notification.activityType = activityType))
        state)
  | .deleteQuotedUpdates recipientId statusIds =>
    .ok (deleteActivityNotifications recipientId (fun notification =>
      decide (notification.type = .quotedUpdate) && decide (notification.activityType = .status) &&
        decide (notification.activityId ∈ statusIds)) state)

/-- The rows of a bulk operation are those of its query, and jobs run that have been recorded, any
    number of times. -/
def Op.Enabled (state : State) : Op → Prop
  | .acceptNotificationRequests accountId requestIds rows =>
    rows.Perm (selectedRequests accountId requestIds state)
  | .unfilter accountId fromAccountId => .unfilter accountId fromAccountId ∈ state.jobs
  | .cleanup accountId fromAccountId => ∃ requestId, .cleanup accountId fromAccountId requestId ∈ state.jobs
  | _ => True

/-- What fails is rolled back. -/
def next (state : State) (op : Op) : State :=
  match op.apply state with
  | .ok state' => state'
  | .error _ => state

def Step (state : State) (op : Op) (state' : State) : Prop := op.Enabled state ∧ state' = next state op

def State.initial : State := ⟨[], [], [], [], 1, 1⟩

end Rustodon.Notifications
