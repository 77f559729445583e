import Mathlib.Algebra.Group.Int.Defs
import Mathlib.Data.Int.Notation
import Mathlib.Data.List.Basic
import Mathlib.Tactic.SplitIfs

/-! @src streaming.rs, jobs.rs, web/stream_socket.rs | name:Timeline routes | scheme:decision table |
    family:streaming

    Which events belong to which timelines: as the replay query filters them, and as the socket
    matches them in the process. -/

namespace Rustodon.Streaming

/-- `publicFeed` is the stream `public`. -/
inductive StreamName where
  | user | userNotification | direct
  | publicFeed | publicMedia | publicLocal | publicLocalMedia | publicRemote | publicRemoteMedia
  | hashtag | hashtagLocal | list
  deriving DecidableEq, Repr

def StreamName.isTimeline : StreamName → Bool
  | .user | .userNotification | .direct => false
  | _ => true

def readNotifications : List String := ["read", "read:notifications"]

def readStatuses : List String := ["read", "read:statuses"]

/-- `OAuthScopes::permits`. -/
def permitsAny (scopes required : List String) : Bool :=
  required.isEmpty || required.any scopes.contains

def StreamName.permits (stream : StreamName) (scopes : List String) : Bool :=
  permitsAny scopes (match stream with
    | .userNotification => readNotifications
    | _ => readStatuses)

def StreamName.includesNotifications (stream : StreamName) (scopes : List String) : Bool :=
  decide (stream = .userNotification) ||
    (decide (stream = .user) && (scopes.contains "read" || scopes.contains "read:notifications"))

structure Subscription where
  stream : StreamName
  wireParameter : Option String
  canonicalParameter : Option String
  deriving DecidableEq, Repr

/-- `Subscription::parameter`. -/
def Subscription.parameter (subscription : Subscription) : Option String :=
  subscription.canonicalParameter

def Subscription.isTimeline (subscription : Subscription) : Bool := subscription.stream.isTimeline

/-- What subscriptions are compared by. -/
def Subscription.key (subscription : Subscription) : StreamName × Option String :=
  (subscription.stream, subscription.canonicalParameter)

/-- The subscription to a stream without a parameter. -/
def StreamName.subscription (stream : StreamName) : Subscription := ⟨stream, none, none⟩

structure TimelineListRoute where
  accountId : ℤ
  listId : ℤ
  deriving DecidableEq, Repr

/-- `isPublic` and `isLocal` are the fields `public` and `local`. -/
structure TimelineRouteSnapshot where
  isPublic : Bool
  hashtag : Bool
  isLocal : Bool
  hadMedia : Bool
  language : Option String
  tags : List String
  lists : List TimelineListRoute
  deriving DecidableEq, Repr

structure StreamEvent where
  id : ℕ
  /-- Zero denotes an audience-independent status lifecycle event. -/
  accountId : ℤ
  event : String
  objectId : ℤ
  before : Option TimelineRouteSnapshot
  after : Option TimelineRouteSnapshot
  deriving DecidableEq, Repr

def systemKillEvent : String := "kill"

def tokenKillEvent : String := "kill:token"

def statusUpdateNotificationEvent : String := "status.update:notification"

/-! ### Routes -/

/-- The value of decimal digits. -/
def digitsValue (digits : List Char) : Option ℕ :=
  if digits.isEmpty || !digits.all Char.isDigit then none
  else some (digits.foldl (fun value digit => value * 10 + (digit.toNat - '0'.toNat)) 0)

/-- `str::parse::<i64>`. -/
def parseI64 (text : String) : Option ℤ := do
  let value ← match text.toList with
    | '-' :: digits => (digitsValue digits).map fun value => -(value : ℤ)
    | '+' :: digits => (digitsValue digits).map fun value => (value : ℤ)
    | digits => (digitsValue digits).map fun value => (value : ℤ)
  if -2 ^ 63 ≤ value ∧ value < 2 ^ 63 then some value else none

def Subscription.onlyLocal (subscription : Subscription) : Bool :=
  match subscription.stream with
  | .publicLocal | .publicLocalMedia | .hashtagLocal => true
  | _ => false

def Subscription.onlyRemote (subscription : Subscription) : Bool :=
  match subscription.stream with
  | .publicRemote | .publicRemoteMedia => true
  | _ => false

def Subscription.onlyMedia (subscription : Subscription) : Bool :=
  match subscription.stream with
  | .publicMedia | .publicLocalMedia | .publicRemoteMedia => true
  | _ => false

/-- The kind of route that the replay query is told. -/
inductive RouteKind where
  | publicFeed | hashtag | list
  deriving DecidableEq

def StreamName.routeKind : StreamName → Option RouteKind
  | .publicFeed | .publicMedia | .publicLocal | .publicLocalMedia | .publicRemote
  | .publicRemoteMedia => some .publicFeed
  | .hashtag | .hashtagLocal => some .hashtag
  | .list => some .list
  | .user | .userNotification | .direct => none

/-- `route_matches` of the replay query, for a snapshot that is there. -/
def routeMatches (subscription : Subscription) (accountId : ℤ) (snapshot : TimelineRouteSnapshot) :
    Bool :=
  let parameter := subscription.parameter.getD ""
  match subscription.stream.routeKind with
  | some .publicFeed =>
    snapshot.isPublic && (!subscription.onlyLocal || snapshot.isLocal) &&
      (!subscription.onlyRemote || !snapshot.isLocal) &&
      (!subscription.onlyMedia || snapshot.hadMedia)
  | some .hashtag =>
    snapshot.hashtag && (!subscription.onlyLocal || snapshot.isLocal) &&
      snapshot.tags.contains parameter
  | some .list => snapshot.lists.contains ⟨accountId, (parseI64 parameter).getD 0⟩
  | none => false

/-- `before_matches OR after_matches`. -/
def eventMatches (subscription : Subscription) (accountId : ℤ) (event : StreamEvent) : Bool :=
  event.before.any (routeMatches subscription accountId) ||
    event.after.any (routeMatches subscription accountId)

/-- `timeline_delete_snapshot_matches`: the match in the process. -/
def timelineDeleteSnapshotMatches (snapshot : TimelineRouteSnapshot) (subscription : Subscription)
    (accountId : ℤ) (languageAllowed : Bool) : Bool :=
  match subscription.stream with
  | .publicFeed | .publicMedia | .publicLocal | .publicLocalMedia | .publicRemote
  | .publicRemoteMedia =>
    let localityMatches := match subscription.stream with
      | .publicLocal | .publicLocalMedia => snapshot.isLocal
      | .publicRemote | .publicRemoteMedia => !snapshot.isLocal
      | _ => true
    let mediaMatches := !subscription.onlyMedia || snapshot.hadMedia
    snapshot.isPublic && localityMatches && mediaMatches && languageAllowed
  | .hashtag | .hashtagLocal =>
    snapshot.hashtag && (decide (subscription.stream ≠ .hashtagLocal) || snapshot.isLocal) &&
      subscription.parameter.any fun tag => snapshot.tags.any fun candidate => candidate == tag
  | .list =>
    (subscription.parameter.bind parseI64).any fun listId =>
      snapshot.lists.any fun route => route.accountId == accountId && route.listId == listId
  | .user | .userNotification | .direct => false

/-- What matches in the process is found by the replay query. -/
theorem routeMatches_of_snapshotMatches {snapshot : TimelineRouteSnapshot}
    {subscription : Subscription} {accountId : ℤ} {languageAllowed : Bool}
    (h : timelineDeleteSnapshotMatches snapshot subscription accountId languageAllowed = true) :
    routeMatches subscription accountId snapshot = true := by
  obtain ⟨stream, wire, canonical⟩ := subscription
  cases stream with
  | user | userNotification | direct => cases h
  | hashtag | hashtagLocal =>
    simp only [timelineDeleteSnapshotMatches, Subscription.parameter, Bool.and_eq_true,
      Option.any_eq_true, List.any_eq_true, beq_iff_eq] at h
    obtain ⟨⟨hhashtag, hlocal⟩, tag, rfl, candidate, hmem, rfl⟩ := h
    simp_all [routeMatches, StreamName.routeKind, Subscription.parameter, Subscription.onlyLocal]
  | list =>
    simp only [timelineDeleteSnapshotMatches, Subscription.parameter, Option.any_eq_true,
      Option.bind_eq_some_iff, List.any_eq_true, Bool.and_eq_true, beq_iff_eq] at h
    obtain ⟨listId, ⟨parameter, rfl, hparse⟩, route, hmem, rfl, rfl⟩ := h
    simp only [routeMatches, StreamName.routeKind, Subscription.parameter, Option.getD_some, hparse]
    exact List.contains_iff_mem.mpr hmem
  | _ =>
    simp_all [timelineDeleteSnapshotMatches, routeMatches, StreamName.routeKind,
      Subscription.onlyLocal, Subscription.onlyRemote, Subscription.onlyMedia]

/-! ### Protocol events -/

def timelineProtocolEvent (event : String) (before after : Bool) : Option String :=
  match before, after with
  | false, true => some "update"
  | true, true => some "status.update"
  | true, false => if event ≠ "delete" then some "status.update" else some "delete"
  | false, false => none

def timelineReplayProtocolEvent (event : String) (before after : Bool) (eventId createAfter : ℕ) :
    Option String :=
  (timelineProtocolEvent event before after).filter fun protocolEvent =>
    decide (protocolEvent ≠ "update") || decide (createAfter < eventId)

/-- A replay creates nothing that had been created before. -/
theorem createAfter_lt_of_replay_update {event : String} {before after : Bool}
    {eventId createAfter : ℕ}
    (h : timelineReplayProtocolEvent event before after eventId createAfter = some "update") :
    createAfter < eventId := by
  have hkept := (Option.filter_eq_some_iff.mp h).2
  simpa using hkept

end Rustodon.Streaming
