import Rustodon.Schemes.Checked
import Rustodon.Schemes.Jsonb
import Rustodon.Streaming.Routes

/-! @src jobs.rs | name:Replay query | scheme:jsonb | family:streaming

    `stream_replay_events_for_subscription` as the database evaluates it: over payloads, with the
    parameters that are bound. -/

namespace Rustodon.Streaming
open Schemes.Checked Schemes.Json Schemes.Jsonb

/-! ### Payloads -/

def encodeListRoute (route : TimelineListRoute) : Value :=
  .object [("account_id", .number (.int route.accountId)), ("list_id", .number (.int route.listId))]

/-- `Serialize` of a snapshot. -/
def encodeSnapshot (snapshot : TimelineRouteSnapshot) : Value :=
  .object [("public", .bool snapshot.isPublic), ("hashtag", .bool snapshot.hashtag),
    ("local", .bool snapshot.isLocal), ("had_media", .bool snapshot.hadMedia),
    ("language", (snapshot.language.map Value.string).getD .null),
    ("tags", .array (snapshot.tags.map .string)),
    ("lists", .array (snapshot.lists.map encodeListRoute))]

/-- `stream_event_payload`. A missing snapshot is written as `null`. -/
def outboxPayload (event : StreamEvent) : Value :=
  .object [("account_id", .number (.int event.accountId)), ("event", .string event.event),
    ("object_id", .number (.int event.objectId)),
    ("before", (event.before.map encodeSnapshot).getD .null),
    ("after", (event.after.map encodeSnapshot).getD .null)]

/-! ### Routes -/

/-- The parameters `$3` to `$9`. -/
structure RouteBinds where
  kind : String
  onlyLocal : Bool
  onlyRemote : Bool
  onlyMedia : Bool
  parameter : String
  listId : ℤ
  accountId : ℤ
  deriving DecidableEq, Repr

def RouteKind.text : RouteKind → String
  | publicFeed => "public"
  | hashtag => "hashtag"
  | list => "list"

/-- The parameters of a subscription to a timeline. An absent parameter is bound as an empty text,
    and one that is no number as the list 0. -/
def routeBinds (subscription : Subscription) (accountId : ℤ) (kind : RouteKind) : Sql RouteBinds := do
  let parameter ← bindText (subscription.parameter.getD "")
  .ok { kind := kind.text, onlyLocal := subscription.onlyLocal, onlyRemote := subscription.onlyRemote
        onlyMedia := subscription.onlyMedia, parameter
        listId := (parseI64 parameter).getD 0, accountId }

section Query

variable (render : Value → String)

/-- `COALESCE((snapshot ->> key)::boolean, false)`. -/
def boolField (snapshot : Option Value) (key : String) : Sql Bool :=
  match arrowText render snapshot key with
  | none => .ok false
  | some text => castBoolean text

/-- `COALESCE(snapshot -> key, '[]'::jsonb)`. -/
def arrayField (snapshot : Option Value) (key : String) : Value :=
  (arrow snapshot key).getD (.array [])

/-- The object in `jsonb_build_array(jsonb_build_object(…))`. -/
def listRoute (binds : RouteBinds) : Value :=
  .object [("account_id", .number (.int binds.accountId)), ("list_id", .number (.int binds.listId))]

/-- `route_matches`. -/
def routeMatchesSql (binds : RouteBinds) (snapshot : Option Value) : Sql Bool :=
  let isLocal := boolField render snapshot "local"
  let publicMatches :=
    conj (.ok (binds.kind == "public")) (conj (boolField render snapshot "public")
      (conj (disj (.ok !binds.onlyLocal) isLocal)
        (conj (disj (.ok !binds.onlyRemote) (isLocal.map not))
          (disj (.ok !binds.onlyMedia) (boolField render snapshot "had_media")))))
  let hashtagMatches :=
    conj (.ok (binds.kind == "hashtag")) (conj (boolField render snapshot "hashtag")
      (conj (disj (.ok !binds.onlyLocal) isLocal)
        (.ok (existsKey binds.parameter (arrayField snapshot "tags")))))
  let listMatches :=
    conj (.ok (binds.kind == "list"))
      (.ok (contains (arrayField snapshot "lists") (.array [listRoute binds])))
  conj (.ok snapshot.isSome) (disj publicMatches (disj hashtagMatches listMatches))

/-! ### Selection -/

/-- A row of `memberships`. -/
structure Membership where
  id : ℕ
  payload : Value
  beforeMatches : Bool
  afterMatches : Bool
  deriving DecidableEq

/-- The row of an event of the log, with both of its candidates for a snapshot. -/
def membership (binds : RouteBinds) (row : ℕ × Value) : Sql Membership := do
  let beforeMatches ← routeMatchesSql render binds (arrow (some row.2) "before")
  let afterMatches ← routeMatchesSql render binds (arrow (some row.2) "after")
  .ok ⟨row.1, row.2, beforeMatches, afterMatches⟩

/-- `memberships` of the rows in the order of their ids. -/
def memberships (binds : RouteBinds) (replayThrough : ℕ) (rows : List (ℕ × Value)) :
    Sql (List Membership) :=
  (rows.filter fun row => decide (row.1 ≤ replayThrough) &&
    arrowText render (some row.2) "account_id" == some "0").mapM (membership render binds)

def Membership.isCandidate (row : Membership) : Bool := row.beforeMatches || row.afterMatches

/-- The class of historical deletes. -/
def Membership.isDelete (createAfter : ℕ) (row : Membership) : Bool :=
  decide (row.id ≤ createAfter) && arrowText render (some row.payload) "event" == some "delete"

/-- The class of historical transitions that are no creations. NULL is in no list. -/
def Membership.isTransition (createAfter : ℕ) (row : Membership) : Bool :=
  decide (row.id ≤ createAfter) &&
    (arrowText render (some row.payload) "event").any (fun event =>
      event != "update" && event != "delete") &&
    (row.beforeMatches || !row.afterMatches)

/-- `ORDER BY id DESC LIMIT` of rows in the order of their ids. -/
def newestRows (limit : ℕ) (rows : List Membership) : List Membership :=
  rows.drop (rows.length - limit)

/-- `selected`. -/
def selectedRows (createAfter limit : ℕ) (candidates : List Membership) : List Membership :=
  let deletes := newestRows limit (candidates.filter (Membership.isDelete render createAfter))
  let transitions := newestRows limit (candidates.filter (Membership.isTransition render createAfter))
  candidates.filter fun row => decide (createAfter < row.id) ||
    deletes.any (fun selected => selected.id == row.id) ||
      transitions.any fun selected => selected.id == row.id

/-- The query behind its checks. -/
def replayQuery (subscription : Subscription) (accountId : ℤ) (kind : RouteKind)
    (replayThrough createAfter limit : ℕ) (rows : List (ℕ × Value)) : Sql (List Membership) := do
  let binds ← routeBinds subscription accountId kind
  let rows ← memberships render binds replayThrough rows
  .ok (selectedRows render createAfter limit (rows.filter Membership.isCandidate))

end Query

end Rustodon.Streaming
