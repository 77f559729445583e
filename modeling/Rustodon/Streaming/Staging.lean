import Rustodon.Queue.Machine
import Rustodon.Streaming.Routes

/-! @src jobs.rs | name:Staging stream events | scheme:row locks, advisory lock | family:streaming

    The transactions that write stream events, statement by statement. A transaction collects events
    in memory, may move them to staged rows, and flushes them in the end: from the staged rows if
    there are any, and one by one otherwise. Identifiers are taken from the sequence of the table,
    which no transaction gives back. -/

namespace Rustodon.Staging
open Schemes.Json
open Rustodon.Queue (Event TxnId own others)
open Rustodon.Streaming (TimelineListRoute TimelineRouteSnapshot)

def streamEventKind : String := "rustodon.mastodon.stream_event"

def streamEventStagingKind : String := "rustodon.mastodon.stream_event.staged"

structure PendingStreamEvent where
  accountId : ℤ
  event : String
  objectId : ℤ
  logicalKey : String
  before : Option TimelineRouteSnapshot
  after : Option TimelineRouteSnapshot

/-- A route as it is serialized. -/
def routeJson (route : TimelineListRoute) : Value :=
  .object [("account_id", .number (.int route.accountId)), ("list_id", .number (.int route.listId))]

/-- A snapshot as it is serialized. -/
def snapshotJson (snapshot : TimelineRouteSnapshot) : Value :=
  .object
    [("public", .bool snapshot.isPublic), ("hashtag", .bool snapshot.hashtag),
      ("local", .bool snapshot.isLocal), ("had_media", .bool snapshot.hadMedia),
      ("language", (snapshot.language.map Value.string).getD .null),
      ("tags", .array (snapshot.tags.map .string)), ("lists", .array (snapshot.lists.map routeJson))]

def streamEventPayload (event : PendingStreamEvent) : Value :=
  .object
    [("account_id", .number (.int event.accountId)), ("event", .string event.event),
      ("object_id", .number (.int event.objectId)),
      ("before", (event.before.map snapshotJson).getD .null),
      ("after", (event.after.map snapshotJson).getD .null)]

/-! ### The table -/

/-- Where a transaction is: between calls, in `flush_staged_stream_events_in` before and behind the
    test for staged rows, in one of the two insertions, or at its end. A transaction may commit when
    its last call was a flush. -/
inductive Phase where
  | collecting | draining | locking (staged : Bool) | inserting | selecting | deleting | flushed | ended
  deriving DecidableEq

structure State where
  committed : List Event
  pending : List (TxnId × Event)
  nextId : ℕ
  /-- The transaction that holds the advisory lock of the order of writers. -/
  orderLock : Option TxnId
  /-- The events in memory. -/
  batches : TxnId → List PendingStreamEvent
  phases : TxnId → Phase

def State.setPhase (s : State) (t : TxnId) (phase : Phase) : State :=
  { s with phases := fun t' => if t' = t then phase else s.phases t' }

def State.setBatch (s : State) (t : TxnId) (batch : List PendingStreamEvent) : State :=
  { s with batches := fun t' => if t' = t then batch else s.batches t' }

/-- The rows that a statement of the transaction sees. -/
def State.visible (s : State) (t : TxnId) : List Event := s.committed ++ own t s.pending

/-- A row in the way of the unique index on `(kind, logical_key)`. -/
def occupies (kind key : String) (row : Event) : Bool :=
  decide (row.kind = kind) && decide (row.logicalKey = some key)

/-- `INSERT … ON CONFLICT DO NOTHING RETURNING id`. It waits for another transaction that has
    inserted a row in the way. -/
def State.insertRow (s : State) (t : TxnId) (kind key : String) (payload : Value) (stamp : ℤ) :
    Option (State × Option ℕ) :=
  if (others t s.pending).any fun row => occupies kind key row.2 then none
  else if (s.visible t).any (occupies kind key) then
    some ({ s with nextId := s.nextId + 1 }, none)
  else
    some ({ s with
      nextId := s.nextId + 1
      pending := s.pending ++ [(t, ⟨s.nextId, kind, some key, payload, some stamp⟩)] },
      some s.nextId)

/-- The body of the loop of `stage_stream_events_in`. -/
def State.stageStreamEvent (s : State) (t : TxnId) (event : PendingStreamEvent) (stamp : ℤ) :
    Option State :=
  (s.insertRow t streamEventStagingKind event.logicalKey (streamEventPayload event) stamp).map
    Prod.fst

/-- `has_staged_stream_events_in`. -/
def State.hasStagedStreamEvents (s : State) (t : TxnId) : Bool :=
  (s.visible t).any fun row => decide (row.kind = streamEventStagingKind)

/-- `insert_pending_stream_event_in`: the identifier it returns, and the one it allocates. -/
def State.insertPendingStreamEvent (s : State) (t : TxnId) (event : PendingStreamEvent)
    (stamp : ℤ) : Option (State × Option ℕ × Option ℕ) :=
  (s.insertRow t streamEventKind event.logicalKey (streamEventPayload event) stamp).map
    fun (s', allocated) =>
      (s', allocated.or (((s'.visible t).find? (occupies streamEventKind event.logicalKey)).map
        Event.id), allocated)

/-- The staged rows in the order of their identifiers. -/
def State.stagedRows (s : State) (t : TxnId) : List Event :=
  ((s.visible t).filter fun row => decide (row.kind = streamEventStagingKind)).insertionSort
    fun row row' => row.id ≤ row'.id

/-- `INSERT … SELECT` of rows, which are inserted in their order, with what it allocates. -/
def State.insertRows (s : State) (t : TxnId) (kind : String) (stamp : ℤ) :
    List Event → Option (State × List ℕ)
  | [] => some (s, [])
  | row :: rows => do
    let (s, allocated) ← s.insertRow t kind (row.logicalKey.getD "") row.payload stamp
    let (s, more) ← s.insertRows t kind stamp rows
    return (s, allocated.toList ++ more)

/-- The rows of a transaction without its staged ones. No staged row is ever committed, so that
    these are all there are to delete. -/
def State.deleteStaged (s : State) (t : TxnId) : State :=
  { s with
    pending := s.pending.filter fun row =>
      row.1 != t || decide (row.2.kind ≠ streamEventStagingKind) }

/-- Locks are released, and the transaction is over. -/
def State.endTransaction (s : State) (t : TxnId) : State :=
  { s with
    pending := others t s.pending
    orderLock := if s.orderLock = some t then none else s.orderLock
    batches := fun t' => if t' = t then [] else s.batches t'
    phases := fun t' => if t' = t then .ended else s.phases t' }

/-! ### Steps -/

/-- The statements of the transactions. `insertOther` stands for everything else that is written to
    the table. -/
inductive Op where
  | push (t : TxnId) (events : List PendingStreamEvent)
  | stage (t : TxnId) (stamp : ℤ)
  | flushStream (t : TxnId)
  | flushStaged (t : TxnId)
  | check (t : TxnId)
  | lock (t : TxnId)
  | insert (t : TxnId) (stamp : ℤ)
  | insertStaged (t : TxnId) (stamp : ℤ)
  | deleteStaged (t : TxnId)
  | insertOther (t : TxnId) (kind key : String) (payload : Value) (stamp : ℤ)
  | commit (t : TxnId)
  | rollback (t : TxnId)

def Op.txn : Op → TxnId
  | .push t _ | .stage t _ | .flushStream t | .flushStaged t | .check t | .lock t | .insert t _
  | .insertStaged t _ | .deleteStaged t | .insertOther t _ _ _ _ | .commit t | .rollback t => t

/-- A transaction is between calls. -/
def Phase.between (phase : Phase) : Bool := phase = .collecting || phase = .flushed

/-- A step, with the identifiers of the stream events that it inserts. -/
def State.step (s : State) : Op → Option (State × List ℕ)
  | .push t events =>
    if (s.phases t).between then
      some ((s.setBatch t (s.batches t ++ events)).setPhase t .collecting, [])
    else none
  | .stage t stamp =>
    if s.phases t = .collecting ∨ s.phases t = .draining then
      match s.batches t with
      | [] => none
      | event :: events =>
        (s.stageStreamEvent t event stamp).map fun s' => (s'.setBatch t events, [])
    else none
  | .flushStream t =>
    if (s.phases t).between then
      some (s.setPhase t (if s.hasStagedStreamEvents t then .draining
        else if (s.batches t).isEmpty then .flushed else .locking false), [])
    else none
  | .flushStaged t =>
    if (s.phases t).between then some (s.setPhase t .draining, []) else none
  | .check t =>
    if s.phases t = .draining ∧ s.batches t = [] then
      some (s.setPhase t (if s.hasStagedStreamEvents t then .locking true else .flushed), [])
    else none
  | .lock t =>
    match s.phases t with
    | .locking staged =>
      if s.orderLock = none ∨ s.orderLock = some t then
        some (({ s with orderLock := some t } : State).setPhase t
          (if staged then .selecting else .inserting), [])
      else none
    | _ => none
  | .insert t stamp =>
    if s.phases t = .inserting then
      match s.batches t with
      | [] => none
      | event :: events =>
        (s.insertPendingStreamEvent t event stamp).map fun (s', _, allocated) =>
          ((s'.setBatch t events).setPhase t (if events.isEmpty then .flushed else .inserting),
            allocated.toList)
    else none
  | .insertStaged t stamp =>
    if s.phases t = .selecting then
      (s.insertRows t streamEventKind stamp (s.stagedRows t)).map fun (s', allocated) =>
        (s'.setPhase t .deleting, allocated)
    else none
  | .deleteStaged t =>
    if s.phases t = .deleting then some ((s.deleteStaged t).setPhase t .flushed, []) else none
  | .insertOther t kind key payload stamp =>
    if (s.phases t).between ∧ kind ≠ streamEventKind ∧ kind ≠ streamEventStagingKind then
      (s.insertRow t kind key payload stamp).map fun (s', _) => (s', [])
    else none
  | .commit t =>
    if s.phases t = .flushed then
      some ({ s.endTransaction t with committed := s.committed ++ own t s.pending }, [])
    else none
  | .rollback t =>
    if s.phases t = .ended then none else some (s.endTransaction t, [])

/-- A label is a step with the identifiers it allocates. -/
abbrev Label := Op × List ℕ

def Step (s : State) (label : Label) (t : State) : Prop := s.step label.1 = some (t, label.2)

end Rustodon.Staging
