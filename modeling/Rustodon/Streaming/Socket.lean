import Rustodon.Schemes.Cursors
import Rustodon.Schemes.Runs
import Rustodon.Streaming.Routes

/-! @src web/stream_socket.rs, jobs.rs | name:The streaming socket | scheme:log with cursors |
    family:streaming

    One connection and the stream events of the database. Every query of the connection is a step of
    its own, so that events are committed and pruned between any two of them. What the rest of the
    program says at that moment (who may see a timeline, which statuses it contains, how a status is
    rendered, whether the client still takes a message) is an answer that a step is given. -/

namespace Rustodon.Streaming
open Schemes.Cursors Schemes.Runs

abbrev StreamLog := Log StreamEvent StreamEvent.id

def streamEventBatchSize : ℕ := 128

def streamReplayTransitionEvents : ℕ := 128

def streamMaxSubscriptions : ℕ := 100

/-! ### Subscriptions -/

/-- `Subscription::cmp`. -/
def Subscription.cmp (subscription other : Subscription) : Ordering :=
  (compare subscription.stream.ctorIdx other.stream.ctorIdx).then
    (compare subscription.canonicalParameter other.canonicalParameter)

/-- Subscriptions in their order, with baselines. -/
structure StreamingSubscriptions where
  values : List (Subscription × ℕ)
  distinct : values.Pairwise fun value other => value.1.key ≠ other.1.key

def StreamingSubscriptions.empty : StreamingSubscriptions := ⟨[], .nil⟩

def StreamingSubscriptions.isEmpty (subscriptions : StreamingSubscriptions) : Bool :=
  subscriptions.values.isEmpty

def StreamingSubscriptions.containsKey (subscriptions : StreamingSubscriptions)
    (subscription : Subscription) : Bool :=
  subscriptions.values.any fun value => value.1.key == subscription.key

def StreamingSubscriptions.hasCapacityFor (subscriptions : StreamingSubscriptions)
    (subscription : Subscription) : Bool :=
  subscriptions.containsKey subscription ||
    decide (subscriptions.values.length < streamMaxSubscriptions)

def StreamingSubscriptions.contains (subscriptions : StreamingSubscriptions) (stream : StreamName) :
    Bool :=
  subscriptions.containsKey stream.subscription

/-- The values with a new one in its place. -/
def placed (subscription : Subscription) (baselineCursor : ℕ) (values : List (Subscription × ℕ)) :
    List (Subscription × ℕ) :=
  values.takeWhile (fun value => (value.1.cmp subscription).isLT) ++
    (subscription, baselineCursor) ::
      values.dropWhile fun value => (value.1.cmp subscription).isLT

theorem placed_perm (subscription : Subscription) (baselineCursor : ℕ)
    (values : List (Subscription × ℕ)) :
    (placed subscription baselineCursor values).Perm ((subscription, baselineCursor) :: values) := by
  have h : (placed subscription baselineCursor values).Perm
      ((subscription, baselineCursor) ::
        (values.takeWhile (fun value => (value.1.cmp subscription).isLT) ++
          values.dropWhile fun value => (value.1.cmp subscription).isLT)) := List.perm_middle
  rwa [List.takeWhile_append_dropWhile] at h

theorem StreamingSubscriptions.containsKey_iff {subscriptions : StreamingSubscriptions}
    {subscription : Subscription} :
    subscriptions.containsKey subscription = true ↔
      ∃ value ∈ subscriptions.values, value.1.key = subscription.key := by
  simp [StreamingSubscriptions.containsKey]

def StreamingSubscriptions.insert (subscriptions : StreamingSubscriptions)
    (subscription : Subscription) (baselineCursor : ℕ) : StreamingSubscriptions :=
  if h : subscriptions.containsKey subscription then
    { values := subscriptions.values.map fun value =>
        if value.1.key = subscription.key then (value.1, baselineCursor) else value
      distinct := by
        rw [List.pairwise_map]
        exact subscriptions.distinct.imp fun hne => by split_ifs <;> exact hne }
  else
    { values := placed subscription baselineCursor subscriptions.values
      distinct := by
        refine (placed_perm _ _ _).symm.pairwise (List.pairwise_cons.mpr ⟨?_, subscriptions.distinct⟩)
          fun hne => hne.symm
        intro value hvalue heq
        exact h (containsKey_iff.mpr ⟨value, hvalue, heq.symm⟩) }

def StreamingSubscriptions.remove (subscriptions : StreamingSubscriptions)
    (subscription : Subscription) : StreamingSubscriptions where
  values := subscriptions.values.filter fun value => value.1.key != subscription.key
  distinct := subscriptions.distinct.sublist List.filter_sublist

theorem StreamingSubscriptions.mem_insert {subscriptions : StreamingSubscriptions}
    {subscription : Subscription} {baselineCursor : ℕ} {value : Subscription × ℕ}
    (h : subscriptions.containsKey subscription = false) :
    value ∈ (subscriptions.insert subscription baselineCursor).values ↔
      value = (subscription, baselineCursor) ∨ value ∈ subscriptions.values := by
  simp [insert, h, (placed_perm _ _ _).mem_iff]

theorem StreamingSubscriptions.mem_remove {subscriptions : StreamingSubscriptions}
    {subscription : Subscription} {value : Subscription × ℕ} :
    value ∈ (subscriptions.remove subscription).values ↔
      value ∈ subscriptions.values ∧ value.1.key ≠ subscription.key := by
  simp [remove]

/-! ### Events of the timelines -/

/-- A message of the socket: `event_message`, before it is written. -/
structure Frame where
  subscription : Subscription
  event : String
  payload : String
  deriving DecidableEq

/-- What is answered while an event is taken care of. -/
structure Answers where
  /-- `stream_timeline_options` has options, when the snapshot before is looked at. -/
  optionsBefore : StreamEvent → Subscription → Except Unit Bool
  /-- The same for the snapshot after. -/
  optionsAfter : StreamEvent → Subscription → Except Unit Bool
  publicLanguageAllowed : StreamEvent → Subscription → Except Unit Bool
  publicTimelineContains : StreamEvent → Subscription → Except Unit Bool
  /-- It is told whether the snapshot has the tag. -/
  tagTimelineContains : StreamEvent → Subscription → Bool → Except Unit Bool
  listTimelineContains : StreamEvent → Subscription → Except Unit (Option Bool)
  /-- The object of the event as the client reads it. -/
  rendered : StreamEvent → Subscription → Except Unit (Option String)
  /-- The same for an event of the account. -/
  accountRendered : StreamEvent → Except Unit (Option String)
  sent : StreamEvent → Subscription → Bool

def streamTimelineDeleteSnapshotContains (answers : Answers) (accountId : ℤ)
    (subscription : Subscription) (event : StreamEvent) (snapshot : TimelineRouteSnapshot) :
    Except Unit Bool := do
  let allowed ←
    if subscription.stream = .list then pure true else answers.optionsBefore event subscription
  if !allowed then
    return false
  let languageAllowed ←
    if subscription.stream.routeKind = some .publicFeed then
      answers.publicLanguageAllowed event subscription
    else pure true
  return timelineDeleteSnapshotMatches snapshot subscription accountId languageAllowed

def streamTimelineSnapshotContains (answers : Answers) (accountId : ℤ)
    (subscription : Subscription) (event : StreamEvent) (snapshot : TimelineRouteSnapshot) :
    Except Unit Bool :=
  match subscription.stream.routeKind with
  | some .publicFeed => do
    if !(← answers.optionsAfter event subscription) then
      return false
    answers.publicTimelineContains event subscription
  | some .hashtag =>
    match subscription.parameter with
    | none => return false
    | some tag => do
      if !(← answers.optionsAfter event subscription) then
        return false
      answers.tagTimelineContains event subscription (snapshot.tags.contains tag)
  | some .list =>
    match subscription.parameter.bind parseI64 with
    | none => return false
    | some listId => do
      if !snapshot.lists.contains ⟨accountId, listId⟩ then
        return false
      return (← answers.listTimelineContains event subscription).getD true
  | none => return false

def streamEventPayload (event : StreamEvent) (rendered : Except Unit (Option String)) :
    Except Unit (Option String) :=
  if event.event = "delete" then
    return some (toString event.objectId)
  else if event.event ∈ ["update", "status.update", statusUpdateNotificationEvent, "notification",
      "conversation"] then
    rendered
  else if event.event = "notifications_merged" then
    return some "1"
  else
    return none

/-- Whether the timeline contained the status before. -/
def containedBefore (answers : Answers) (accountId : ℤ) (subscription : Subscription)
    (event : StreamEvent) : Except Unit Bool :=
  match event.before with
  | some snapshot =>
    streamTimelineDeleteSnapshotContains answers accountId subscription event snapshot
  | none => return false

/-- Whether the timeline contains the status after. -/
def containedAfter (answers : Answers) (accountId : ℤ) (subscription : Subscription)
    (event : StreamEvent) : Except Unit Bool :=
  match event.after with
  | some snapshot => streamTimelineSnapshotContains answers accountId subscription event snapshot
  | none => return false

/-- The message for a protocol event. -/
def protocolFrame (answers : Answers) (subscription : Subscription) (event : StreamEvent) :
    Option String → Except Unit (Option Frame)
  | none => return none
  | some protocolEvent =>
    if protocolEvent = "delete" then
      return some ⟨subscription, protocolEvent, toString event.objectId⟩
    else do
      let payload ← streamEventPayload event (answers.rendered event subscription)
      return payload.map fun payload => ⟨subscription, protocolEvent, payload⟩

/-- The message of `stream_timeline_event_for_subscription`. -/
def timelineFrame (answers : Answers) (accountId : ℤ) (subscription : Subscription)
    (event : StreamEvent) (createAfter : Option ℕ) : Except Unit (Option Frame) :=
  if event.event ∉ ["update", "status.update", "delete"] then
    return none
  else do
    let before ← containedBefore answers accountId subscription event
    let after ← containedAfter answers accountId subscription event
    protocolFrame answers subscription event (match createAfter with
      | some createAfter =>
        timelineReplayProtocolEvent event.event before after event.id createAfter
      | none => timelineProtocolEvent event.event before after)

/-- A call of `stream_timeline_event_for_subscription`, with the message it makes. -/
structure Call where
  subscription : Subscription
  event : StreamEvent
  createAfter : Option ℕ
  frame : Except Unit (Option Frame)

/-- The call, and whether it succeeds. -/
def streamTimelineEventForSubscription (answers : Answers) (accountId : ℤ)
    (subscription : Subscription) (event : StreamEvent) (createAfter : Option ℕ) : Call × Bool :=
  let frame := timelineFrame answers accountId subscription event createAfter
  (⟨subscription, event, createAfter, frame⟩,
    match frame with
    | .error _ => false
    | .ok none => true
    | .ok (some _) => answers.sent event subscription)

/-- Of things that are done in order, what is done until one fails, and whether none does. -/
def untilFailure {α : Type} : List (α × Bool) → List α × Bool
  | [] => ([], true)
  | (a, false) :: _ => ([a], false)
  | (a, true) :: rest => (a :: (untilFailure rest).1, (untilFailure rest).2)

theorem untilFailure_initial {α : Type} : ∀ items : List (α × Bool),
    (untilFailure items).1 <+: items.map Prod.fst
  | [] => List.nil_prefix
  | (_, false) :: rest => ⟨rest.map Prod.fst, rfl⟩
  | (a, true) :: rest => (List.prefix_cons_inj a).mpr (untilFailure_initial rest)

theorem untilFailure_of_success {α : Type} : ∀ {items : List (α × Bool)},
    (untilFailure items).2 = true → (untilFailure items).1 = items.map Prod.fst
  | [], _ => rfl
  | (_, true) :: _, h => congrArg (_ :: ·) (untilFailure_of_success h)

/-- `stream_timeline_event`. -/
def streamTimelineEvent (answers : Answers) (accountId : ℤ) (subscriptions : StreamingSubscriptions)
    (event : StreamEvent) : List Call × Bool :=
  let timelineSubscriptions := subscriptions.values.filter fun value =>
    value.1.isTimeline && decide (value.2 < event.id)
  untilFailure (timelineSubscriptions.map fun value =>
    streamTimelineEventForSubscription answers accountId value.1 event none)

/-! ### Events of the account -/

def streamProtocolEvent (event : String) : String :=
  if event = statusUpdateNotificationEvent then "status.update" else event

def streamAccountTargets (event : StreamEvent) (scopes : List String)
    (subscriptions : StreamingSubscriptions) : List Subscription :=
  let notified :=
    (if subscriptions.contains .user && StreamName.user.includesNotifications scopes then
      [StreamName.user.subscription] else []) ++
    (if subscriptions.contains .userNotification && StreamName.userNotification.permits scopes then
      [StreamName.userNotification.subscription] else [])
  if event.event = statusUpdateNotificationEvent then notified
  else if event.event = "conversation" then
    if subscriptions.contains .direct && StreamName.direct.permits scopes then
      [StreamName.direct.subscription] else []
  else if event.event ∈ ["notification", "notifications_merged"] then notified
  else if subscriptions.contains .user then [StreamName.user.subscription]
  else []

/-! ### The connection -/

/-- `connectionCursor` is `live_cursor`. -/
structure Connection where
  accountId : ℤ
  tokenId : ℤ
  scopes : List String
  connectionCursor : ℕ
  cursor : ℕ
  systemCursor : ℕ
  subscriptions : StreamingSubscriptions
  hasEstablishedSubscription : Bool

/-- Where `streaming_connection` is: in its loop, or in `streaming_subscribe` behind the first or
    the second read of the stream cursor. -/
inductive Phase where
  | idle
  | authorizing (subscription : Subscription) (createAfter : ℕ)
  | replaying (subscription : Subscription) (createAfter replayThrough : ℕ)
  | closed

structure State where
  log : StreamLog
  connection : Connection
  phase : Phase

/-- What the connection does for the client. -/
inductive Output where
  | timeline (call : Call)
  | account (frame : Frame)
  | rejected (status : ℕ) (message : String)

/-- `stream_cursor`. -/
def streamCursor (log : StreamLog) : ℕ := log.top

/-- A viewer connects: every cursor is where the stream is. -/
def connect (log : StreamLog) (accountId tokenId : ℤ) (scopes : List String) : State where
  log := log
  connection :=
    { accountId := accountId
      tokenId := tokenId
      scopes := scopes
      connectionCursor := streamCursor log
      cursor := streamCursor log
      systemCursor := streamCursor log
      subscriptions := .empty
      hasEstablishedSubscription := false }
  phase := .idle

def State.close (s : State) : State := { s with phase := .closed }

/-- `send_stream_error`: the connection stays when the client takes the message. -/
def State.reject (s : State) (status : ℕ) (message : String) (sent : Bool) : State × List Output :=
  (if sent then { s with phase := .idle } else s.close, [.rejected status message])

def subscriptionCreateAfter (connectionCursor subscribeCursor : ℕ)
    (hasEstablishedSubscription : Bool) : ℕ :=
  if hasEstablishedSubscription then subscribeCursor else connectionCursor

/-- `streaming_subscribe` up to the authorization. -/
def State.streamingSubscribe (s : State) (subscription : Subscription) (sent : Bool) :
    State × List Output :=
  if !s.connection.subscriptions.hasCapacityFor subscription then
    s.reject 400 "Too many subscriptions" sent
  else if s.connection.subscriptions.containsKey subscription then (s, [])
  else
    let subscribeCursor := if subscription.isTimeline then streamCursor s.log else 0
    let createAfter := subscriptionCreateAfter s.connection.connectionCursor subscribeCursor
      s.connection.hasEstablishedSubscription
    if !subscription.stream.permits s.connection.scopes then
      s.reject 401 "Access token does not have the required scopes" sent
    else ({ s with phase := .authorizing subscription createAfter }, [])

/-- Whether the account may subscribe; `allowed` is the answer of `rest_owned_list_exists` or of
    `stream_timeline_options`. -/
def authorization (subscription : Subscription) (allowed : Except Unit Bool) : Except Unit Bool :=
  if subscription.stream = .list then
    match (subscription.parameter.bind parseI64).filter fun id => decide (0 < id) with
    | some _ => allowed
    | none => .ok false
  else if subscription.stream ∈ [StreamName.hashtag, .hashtagLocal] ∧
      subscription.parameter.all String.isEmpty then .ok false
  else if subscription.stream.isTimeline then allowed
  else .ok true

/-- `streaming_subscribe` from the authorization to the second read of the stream cursor. -/
def State.authorize (s : State) (subscription : Subscription) (createAfter : ℕ)
    (allowed : Except Unit Bool) (sent : Bool) : State × List Output :=
  match authorization subscription allowed with
  | .error _ => (s.close, [])
  | .ok false =>
    if subscription.stream = .list then
      s.reject 401 "Not authorized to stream this list" sent
    else if subscription.stream ∈ [StreamName.hashtag, .hashtagLocal] then
      s.reject 400 "Missing tag name parameter" sent
    else s.reject 401 "Not authorized to stream this feed" sent
  | .ok true =>
    let replayThrough := if subscription.isTimeline then streamCursor s.log else 0
    ({ s with phase := .replaying subscription createAfter replayThrough }, [])

/-- The last events, at most `limit` of them. -/
def newest (limit : ℕ) (events : List StreamEvent) : List StreamEvent :=
  events.drop (events.length - limit)

/-- `stream_replay_events_for_subscription`. -/
def streamReplayEventsForSubscription (log : StreamLog) (replayThrough createAfter : ℕ)
    (subscription : Subscription) (accountId : ℤ) : Option (List StreamEvent) :=
  if accountId ≤ 0 ∨ subscription.isTimeline = false then none
  else
    let candidates := log.entries.filter fun event =>
      decide (event.id ≤ replayThrough) && decide (event.accountId = 0) &&
        eventMatches subscription accountId event
    let historical := candidates.filter fun event => decide (event.id ≤ createAfter)
    let deletes := newest streamReplayTransitionEvents
      (historical.filter fun event => decide (event.event = "delete"))
    let transitions := newest streamReplayTransitionEvents
      (historical.filter fun event => decide (event.event ∉ ["update", "delete"]) &&
        (event.before.any (routeMatches subscription accountId) ||
          !event.after.any (routeMatches subscription accountId)))
    some (candidates.filter fun event => decide (createAfter < event.id) ||
      deletes.any (fun delete => delete.id == event.id) ||
      transitions.any fun transition => transition.id == event.id)

/-- The events of a replay; a subscription that is none to a timeline has no replay. -/
def replayEvents (s : State) (subscription : Subscription) (createAfter replayThrough : ℕ) :
    Option (List StreamEvent) :=
  if subscription.isTimeline then
    streamReplayEventsForSubscription s.log replayThrough createAfter subscription
      s.connection.accountId
  else some []

/-- A subscription is established behind its replay. -/
def State.establish (s : State) (subscription : Subscription) (replayThrough : ℕ) : State :=
  { s with
    connection := { s.connection with
      subscriptions := s.connection.subscriptions.insert subscription replayThrough
      hasEstablishedSubscription := true }
    phase := .idle }

/-- The rest of `streaming_subscribe`. -/
def State.replay (s : State) (subscription : Subscription) (createAfter replayThrough : ℕ)
    (answers : Answers) : State × List Output :=
  match replayEvents s subscription createAfter replayThrough with
  | none => (s.close, [])
  | some events =>
    let (calls, success) := untilFailure (events.map fun event =>
      streamTimelineEventForSubscription answers s.connection.accountId subscription event
        (some createAfter))
    (if success then s.establish subscription replayThrough else s.close, calls.map .timeline)

/-- How the loops over the events behind a cursor go on. -/
inductive Outcome where
  | go | kill | failed
  deriving DecidableEq

def Outcome.ofSuccess (success : Bool) : Outcome := if success then .go else .failed

/-- The kill of the account, or of the token. -/
def kills (tokenId : ℤ) (event : StreamEvent) : Bool :=
  decide (event.event = systemKillEvent) ||
    (decide (event.event = tokenKillEvent) && decide (event.objectId = tokenId))

/-- The body of the loop of `stream_pending_events`. -/
def streamPendingEvent (answers : Answers) (connection : Connection) (event : StreamEvent) :
    List Output × Outcome :=
  if event.accountId = 0 then
    let (calls, success) :=
      streamTimelineEvent answers connection.accountId connection.subscriptions event
    (calls.map .timeline, .ofSuccess success)
  else if event.id ≤ connection.connectionCursor ∨ event.accountId ≠ connection.accountId then
    ([], .go)
  else if kills connection.tokenId event then ([], .kill)
  else if event.event = tokenKillEvent then ([], .go)
  else
    let streams := streamAccountTargets event connection.scopes connection.subscriptions
    if streams.isEmpty then ([], .go)
    else
      match streamEventPayload event (answers.accountRendered event) with
      | .error _ => ([], .failed)
      | .ok none => ([], .go)
      | .ok (some payload) =>
        let (frames, success) := untilFailure (streams.map fun subscription =>
          ((⟨subscription, streamProtocolEvent event.event, payload⟩ : Frame),
            answers.sent event subscription))
        (frames.map .account, .ofSuccess success)

/-- The loop of `stream_pending_events`: where the cursor is behind it, and what it has done. -/
def streamPendingEvents (answers : Answers) (connection : Connection) (cursor : ℕ) :
    List StreamEvent → ℕ × List Output × Outcome
  | [] => (cursor, [], .go)
  | event :: events =>
    match streamPendingEvent answers connection event with
    | (outputs, .go) =>
      let (cursor, more, outcome) := streamPendingEvents answers connection event.id events
      (cursor, outputs ++ more, outcome)
    | (outputs, outcome) => (event.id, outputs, outcome)

/-- The loop of `stream_system_events`, and whether it finds a kill. -/
def streamSystemEvents (connection : Connection) (cursor : ℕ) : List StreamEvent → ℕ × Bool
  | [] => (cursor, false)
  | event :: events =>
    if event.accountId = connection.accountId ∧ kills connection.tokenId event then (event.id, true)
    else streamSystemEvents connection event.id events

def State.pollSystem (s : State) : State :=
  let (systemCursor, kill) := streamSystemEvents s.connection s.connection.systemCursor
    (s.log.after s.connection.systemCursor streamEventBatchSize)
  { s with
    connection := { s.connection with systemCursor := systemCursor }
    phase := if kill then .closed else .idle }

def State.poll (s : State) (answers : Answers) : State × List Output :=
  if s.connection.subscriptions.isEmpty then (s, [])
  else
    let (cursor, outputs, outcome) := streamPendingEvents answers s.connection s.connection.cursor
      (s.log.after s.connection.cursor streamEventBatchSize)
    ({ s with
      connection := { s.connection with cursor := cursor }
      phase := if outcome = .go then .idle else .closed }, outputs)

/-- The steps. Writers append events, and old events are pruned; the rest is the connection.
    `disconnect` stands for everything else that ends it: the client leaves, the access token is no
    longer valid, a query fails. -/
inductive Op where
  | append (events : List StreamEvent)
  | prune (pruned : StreamEvent → Bool)
  | subscribe (subscription : Subscription) (sent : Bool)
  | authorize (allowed : Except Unit Bool) (sent : Bool)
  | replay (answers : Answers)
  | unsubscribe (subscription : Subscription)
  | pollSystem
  | poll (answers : Answers)
  | disconnect

def State.step (s : State) : Op → Option (State × List Output)
  | .append events => (s.log.append events).map fun log => ({ s with log := log }, [])
  | .prune pruned => some ({ s with log := s.log.delete pruned }, [])
  | .subscribe subscription sent =>
    match s.phase with
    | .idle => some (s.streamingSubscribe subscription sent)
    | _ => none
  | .authorize allowed sent =>
    match s.phase with
    | .authorizing subscription createAfter =>
      some (s.authorize subscription createAfter allowed sent)
    | _ => none
  | .replay answers =>
    match s.phase with
    | .replaying subscription createAfter replayThrough =>
      some (s.replay subscription createAfter replayThrough answers)
    | _ => none
  | .unsubscribe subscription =>
    match s.phase with
    | .idle =>
      some ({ s with
        connection := { s.connection with
          subscriptions := s.connection.subscriptions.remove subscription } }, [])
    | _ => none
  | .pollSystem =>
    match s.phase with
    | .idle => some (s.pollSystem, [])
    | _ => none
  | .poll answers =>
    match s.phase with
    | .idle => some (s.poll answers)
    | _ => none
  | .disconnect =>
    match s.phase with
    | .closed => none
    | _ => some (s.close, [])

/-- A label is a step with what the connection does in it. -/
abbrev Label := Op × List Output

def Step (s : State) (label : Label) (t : State) : Prop := s.step label.1 = some (t, label.2)

end Rustodon.Streaming
