import Rustodon.Queue.Rows
import Rustodon.Schemes.Runs

/-! @src jobs.rs, worker.rs | name:The durable queue | scheme:leases, row locks | family:queue

    The operational database as all processes see it. Committed rows are what other sessions read;
    what a transaction has inserted or changed is pending until it commits, and the locks it takes
    are held until then. A statement that would wait for a lock is a step that cannot be taken yet.
    An ordered enqueue and a dispatch are transactions of several statements, any of which may be
    interleaved with the statements of others. -/

namespace Rustodon.Queue
open Schemes.Checked Schemes.Json

/-- A row of `outbox_events`. -/
structure Event where
  id : ℕ
  kind : String
  logicalKey : Option String
  payload : Value
  dispatchedAt : Option ℤ

/-- A row of `ordering_markers`; the job is `payload ->> 'job_id'`. -/
structure Marker where
  orderingAt : ℤ
  jobId : Option ℕ
  expiresAt : ℤ

/-- `(kind, key_hash)`. -/
abbrev MarkerKey := String × List UInt8

abbrev TxnId := ℕ

/-- The transaction that holds a marker, and what it has made of it. -/
structure MarkerLock where
  holder : TxnId
  written : Option Marker

/-- A call of `enqueue_ordered_kind_in`. -/
structure OrderedCall where
  spec : JobSpec
  orderingKey : List UInt8
  orderingKind : String

def OrderedCall.markerKey (call : OrderedCall) : MarkerKey := (call.orderingKind, call.orderingKey)

/-- The next statement of `enqueue_ordered_kind_in`, and the locals it needs. -/
inductive Progress where
  | select
  | enqueue (previous : Option (ℤ × Option ℕ))
  | upsert (id : ℕ) (runAt : ℤ)

/-- The function that a transaction is in: none, the loop of `dispatch_outbox` with the rows that
    remain, or an ordered enqueue, for the row of a dispatch or for the caller. -/
inductive Stage where
  | idle
  | dispatching (rows : List Event)
  | ordered (call : OrderedCall) (progress : Progress) (caller : Option (Event × List Event))

structure State where
  now : ℤ
  jobs : List Job
  events : List Event
  markers : MarkerKey → Option Marker
  nextJobId : ℕ
  nextEventId : ℕ
  pendingJobs : List (TxnId × Job)
  pendingEvents : List (TxnId × Event)
  eventLocks : ℕ → Option TxnId
  markerLocks : MarkerKey → Option MarkerLock
  stages : TxnId → Stage

def initial (now : ℤ) : State where
  now := now
  jobs := []
  events := []
  markers _ := none
  nextJobId := 1
  nextEventId := 1
  pendingJobs := []
  pendingEvents := []
  eventLocks _ := none
  markerLocks _ := none
  stages _ := .idle

/-- The rows of a transaction among the pending ones. -/
def own {α : Type} (t : TxnId) (pending : List (TxnId × α)) : List α :=
  (pending.filter fun row => row.1 == t).map Prod.snd

/-- The pending rows of the other transactions. -/
def others {α : Type} (t : TxnId) (pending : List (TxnId × α)) : List (TxnId × α) :=
  pending.filter fun row => row.1 != t

def State.setStage (s : State) (t : TxnId) (stage : Stage) : State :=
  { s with stages := fun t' => if t' = t then stage else s.stages t' }

/-- Locks are released, and the transaction is over. -/
def State.release (s : State) (t : TxnId) : State :=
  { s with
    pendingJobs := others t s.pendingJobs
    pendingEvents := others t s.pendingEvents
    eventLocks := fun id => if s.eventLocks id = some t then none else s.eventLocks id
    markerLocks := fun key =>
      if (s.markerLocks key).any fun lock => lock.holder == t then none else s.markerLocks key
    stages := fun t' => if t' = t then .idle else s.stages t' }

def State.rollback (s : State) (t : TxnId) : State := s.release t

/-- The committed events with the versions that a transaction has written. -/
def applyEvents (events written : List Event) : List Event :=
  (events.map fun event => (written.find? fun version => version.id == event.id).getD event) ++
    written.filter fun version => !events.any fun event => event.id == version.id

def State.commit (s : State) (t : TxnId) : State :=
  { s.release t with
    jobs := s.jobs ++ own t s.pendingJobs
    events := applyEvents s.events (own t s.pendingEvents)
    markers := fun key => match s.markerLocks key with
      | some ⟨holder, some marker⟩ => if holder = t then some marker else s.markers key
      | _ => s.markers key }

/-! ### Inserting jobs -/

/-- A row in the way of the unique index on `(kind, logical_key)`. -/
def conflicts (spec : JobSpec) (job : Job) : Bool :=
  spec.logicalKey.isSome && decide (job.kind = spec.kind) &&
    decide (job.logicalKey = spec.logicalKey) && job.live

/-- The `INSERT … ON CONFLICT` of a job: the row in the way or the new one, and whether it is new.
    It waits for another transaction that has inserted a row in the way. -/
def State.insertJob (s : State) (t : TxnId) (spec : JobSpec) : Option (State × ℕ × Bool) :=
  if (others t s.pendingJobs).any fun row => conflicts spec row.2 then none
  else
    match (s.jobs ++ own t s.pendingJobs).find? (conflicts spec) with
    | some job => some ({ s with nextJobId := s.nextJobId + 1 }, job.id, false)
    | none =>
      some ({ s with
        nextJobId := s.nextJobId + 1
        pendingJobs := s.pendingJobs ++ [(t, Job.new s.nextJobId spec)] }, s.nextJobId, true)

/-- `enqueue_in`. -/
def State.enqueue (s : State) (t : TxnId) (spec : JobSpec) : Option (State × Response) :=
  match spec.validate with
  | .error error => some (s, .failed error)
  | .ok () => (s.insertJob t spec).map fun (s', id, _) => (s', .id id)

/-! ### Recording events -/

def sameKey (spec : JobSpec) (event : Event) : Bool :=
  spec.logicalKey.isSome && decide (event.kind = spec.kind) &&
    decide (event.logicalKey = spec.logicalKey)

variable (env : Env)

def State.insertEvent (s : State) (t : TxnId) (spec : JobSpec) : State :=
  { s with
    nextEventId := s.nextEventId + 1
    pendingEvents := s.pendingEvents ++
      [(t, ⟨s.nextEventId, spec.kind, spec.logicalKey, outboxPayload env spec, none⟩)] }

/-- `record_outbox_in`. -/
def State.recordOutbox (s : State) (t : TxnId) (spec : JobSpec) : Option (State × Response) :=
  match spec.validate with
  | .error error => some (s, .failed error)
  | .ok () =>
    if (others t s.pendingEvents).any fun row => sameKey spec row.2 then none
    else
      match (own t s.pendingEvents).find? (sameKey spec) with
      | some event =>
        some ({ s with
          pendingEvents := s.pendingEvents.map fun row =>
            if row.1 = t ∧ row.2.id = event.id then
              (t, { row.2 with payload := outboxPayload env spec, dispatchedAt := none })
            else row }, .id event.id)
      | none =>
        match s.events.find? (sameKey spec) with
        | some event =>
          if (s.eventLocks event.id).any fun holder => holder != t then none
          else
            some ({ s with
              eventLocks := fun id => if id = event.id then some t else s.eventLocks id
              pendingEvents := s.pendingEvents ++
                [(t, { event with payload := outboxPayload env spec, dispatchedAt := none })] },
              .id event.id)
        | none => some (s.insertEvent env t spec, .id s.nextEventId)

/-- `record_outbox_once_in`. -/
def State.recordOutboxOnce (s : State) (t : TxnId) (spec : JobSpec) : Option (State × Response) :=
  match spec.validate with
  | .error error => some (s, .failed error)
  | .ok () =>
    if (others t s.pendingEvents).any fun row => sameKey spec row.2 then none
    else if (s.events ++ own t s.pendingEvents).any (sameKey spec) then some (s, .flag false)
    else some (s.insertEvent env t spec, .flag true)

/-- The statement of `cancel` on the events. -/
def State.cancelEvents (s : State) (kind logicalKey : String) : Option (State × Response) :=
  let cancelled := fun event : Event => decide (event.kind = kind) &&
    decide (event.logicalKey = some logicalKey) && event.dispatchedAt.isNone
  if s.events.any fun event => cancelled event && (s.eventLocks event.id).isSome then none
  else
    some ({ s with events := s.events.filter fun event => !cancelled event },
      .count (s.events.countP cancelled))

/-! ### Ordered enqueue -/

/-- 30 days. -/
def markerRetention : ℤ := 30 * 24 * 3600 * 1000000

def markerExpiry (now orderingAt : ℤ) : ℤ := max (now + markerRetention) (orderingAt + markerRetention)

def State.holdMarker (s : State) (t : TxnId) (key : MarkerKey) (written : Option Marker) : State :=
  { s with
    markerLocks := fun key' => if key' = key then some ⟨t, written⟩ else s.markerLocks key' }

/-- The first statement: inserts the marker, or leaves the one that is there alone. -/
def State.insertMarker (s : State) (t : TxnId) (call : OrderedCall)
    (caller : Option (Event × List Event)) : Option State :=
  let s' := s.setStage t (.ordered call .select caller)
  match s.markerLocks call.markerKey, s.markers call.markerKey with
  | some lock, none => if lock.holder = t then some s' else none
  | _, some _ => some s'
  | none, none =>
    some (s'.holdMarker t call.markerKey
      (some ⟨call.spec.runAt, none, markerExpiry s.now call.spec.runAt⟩))

/-- The second statement: reads the marker `FOR UPDATE`, if it is still there. -/
def State.selectMarker (s : State) (t : TxnId) (call : OrderedCall)
    (caller : Option (Event × List Event)) : Option State :=
  match s.markerLocks call.markerKey with
  | some lock =>
    if lock.holder = t then
      let found := lock.written.or (s.markers call.markerKey)
      some (s.setStage t (.ordered call
        (.enqueue (found.map fun marker => (marker.orderingAt, marker.jobId))) caller))
    else none
  | none =>
    match s.markers call.markerKey with
    | some marker =>
      some ((s.setStage t (.ordered call (.enqueue (some (marker.orderingAt, marker.jobId)))
        caller)).holdMarker t call.markerKey none)
    | none => some (s.setStage t (.ordered call (.enqueue none) caller))

/-- `run_at` of an ordered job: after the one of its predecessor. -/
def orderedRunAt (spec : JobSpec) : Option (ℤ × Option ℕ) → ℤ
  | some (orderingAt, some _) => max spec.runAt (orderingAt + 1)
  | _ => spec.runAt

/-- The third statement: `enqueue_in` with the metadata. -/
def State.enqueueOrderedSpec (s : State) (t : TxnId) (call : OrderedCall)
    (previous : Option (ℤ × Option ℕ)) (caller : Option (Event × List Event)) :
    Option (State × Response) :=
  let runAt := orderedRunAt call.spec previous
  match withOrderingMetadata call.spec call.orderingKey (previous.bind Prod.snd) runAt with
  | .error error => some (s.rollback t, .failed error)
  | .ok spec =>
    match spec.validate with
    | .error error => some (s.rollback t, .failed error)
    | .ok () => (s.insertJob t spec).map fun (s', id, _) =>
        (s'.setStage t (.ordered call (.upsert id runAt) caller), .done)

/-- Marks the event of a dispatch, whose row the transaction has locked. -/
def State.markDispatched (s : State) (t : TxnId) (event : Event) (rest : List Event) : State :=
  { s.setStage t (.dispatching rest) with
    pendingEvents := s.pendingEvents ++ [(t, { event with dispatchedAt := some s.now })] }

/-- The last statement: points the marker to the job. Then the caller goes on. -/
def State.upsertMarker (s : State) (t : TxnId) (call : OrderedCall) (id : ℕ) (runAt : ℤ)
    (caller : Option (Event × List Event)) : Option (State × Response) :=
  if (s.markerLocks call.markerKey).any fun lock => lock.holder != t then none
  else
    let s' := s.holdMarker t call.markerKey (some ⟨runAt, some id, markerExpiry s.now runAt⟩)
    match caller with
    | none => some (s'.setStage t .idle, .id id)
    | some (event, rest) => some (s'.markDispatched t event rest, .done)

/-! ### Dispatching the outbox -/

/-- `payload #>> '{arguments,field}'`. -/
def argumentText (payload : Value) (field : String) : Option String := do
  textOf env (← get (← payload.asObject) "arguments") field

/-- An earlier delivery of the same account to the same inbox that is still to be dispatched. -/
def isPrevious (event previous : Event) : Bool :=
  decide (event.kind = activitypubDeliveryJobKind) && decide (previous.kind = event.kind) &&
    previous.dispatchedAt.isNone && decide (previous.id < event.id) &&
    (argumentText env event.payload "source_account_id").isSome &&
    decide (argumentText env previous.payload "source_account_id" =
      argumentText env event.payload "source_account_id") &&
    (argumentText env event.payload "inbox_url").isSome &&
    decide (argumentText env previous.payload "inbox_url" =
      argumentText env event.payload "inbox_url")

/-- A live job that has the logical key of an event. -/
def isJobOf (event : Event) (job : Job) : Bool :=
  event.logicalKey.isSome && decide (job.kind = event.kind) &&
    decide (job.logicalKey = event.logicalKey) && job.live

def dispatchable (s : State) (event : Event) : Bool :=
  event.dispatchedAt.isNone && decide (event.kind ≠ streamEventKind) &&
    !s.events.any (isPrevious env event) && !s.jobs.any (isJobOf event)

/-- The rows that a dispatch takes, where rows that are locked are skipped. -/
def dispatchRows (s : State) (limit : ℕ) (skipped : List ℕ) : List Event :=
  ((s.events.filter fun event => dispatchable env s event && (s.eventLocks event.id).isNone &&
    !skipped.contains event.id).insertionSort fun a b => a.id ≤ b.id).take limit

/-- The first statement of `dispatch_outbox`, in a transaction of its own. -/
def State.dispatchOutbox (s : State) (t : TxnId) (limit : ℤ) (skipped : List ℕ) :
    Option (State × Response) :=
  if limit ≤ 0 then some (s, .failed (.invalidInput "outbox limit must be positive"))
  else if s.pendingEvents.any fun row => row.1 == t then none
  else
    let rows := dispatchRows env s limit.toNat skipped
    some ({ s.setStage t (.dispatching rows) with
      eventLocks := fun id =>
        if rows.any fun event => event.id == id then some t else s.eventLocks id }, .done)

/-- One turn of the loop of `dispatch_outbox`, or its first statement when the job is ordered. -/
def State.dispatchEvent (s : State) (t : TxnId) (event : Event) (rest : List Event) :
    Option (State × Response) :=
  match outboxSpec env event.kind event.logicalKey event.payload with
  | .error error => some (s.rollback t, .failed error)
  | .ok spec =>
    match activitypubDeliveryOrderingKey env spec with
    | some orderingKey =>
      (s.insertMarker t ⟨spec, orderingKey, activitypubDeliveryOrderingKind⟩
        (some (event, rest))).map fun s' => (s', .done)
    | none =>
      match spec.validate with
      | .error error => some (s.rollback t, .failed error)
      | .ok () => (s.insertJob t spec).map fun (s', _, inserted) =>
          (if inserted then s'.markDispatched t event rest
            else s'.setStage t (.dispatching rest), .done)

/-- The next statement of the function that a transaction is in. -/
def State.next (s : State) (t : TxnId) : Option (State × Response) :=
  match s.stages t with
  | .idle => none
  | .dispatching [] => none
  | .dispatching (event :: rest) => s.dispatchEvent env t event rest
  | .ordered call .select caller => (s.selectMarker t call caller).map fun s' => (s', .done)
  | .ordered call (.enqueue previous) caller => s.enqueueOrderedSpec t call previous caller
  | .ordered call (.upsert id runAt) caller => s.upsertMarker t call id runAt caller

/-! ### Steps -/

inductive Op where
  | tick (elapsed : ℕ)
  | claim (leaseOwner : String) (lanes : List Lane) (leaseMilliseconds : ℤ) (skipped : List ℕ)
  | renew (id : ℕ) (leaseOwner : String) (generation : ℕ) (leaseMilliseconds : ℤ)
  | mergeJobArguments (job : ClaimedJob) (patch : Value)
  | initializeJobArguments (job : ClaimedJob) (patch : Value)
  | complete (id : ℕ) (leaseOwner : String) (generation : ℕ)
  | retry (job : ClaimedJob) (runAt : ℤ) (error : String)
  | deadLetter (job : ClaimedJob) (error : String)
  | cancelJobs (kind logicalKey : String)
  | cancelEvents (kind logicalKey : String)
  | pruneMarker (key : MarkerKey)
  | enqueue (t : TxnId) (spec : JobSpec)
  | enqueueOrdered (t : TxnId) (spec : JobSpec) (orderingKey : List UInt8)
  | recordOutbox (t : TxnId) (spec : JobSpec)
  | recordOutboxOnce (t : TxnId) (spec : JobSpec)
  | dispatchOutbox (t : TxnId) (limit : ℤ) (skipped : List ℕ)
  | next (t : TxnId)
  | commit (t : TxnId)
  | rollback (t : TxnId)

/-- The statements on the rows of jobs. -/
def statement (s : State) : Op → Option Statement
  | .claim leaseOwner lanes leaseMilliseconds skipped =>
    some (claim env s.jobs s.now leaseOwner lanes leaseMilliseconds skipped)
  | .renew id leaseOwner generation leaseMilliseconds =>
    some (renew s.jobs s.now id leaseOwner generation leaseMilliseconds)
  | .mergeJobArguments job patch => some (mergeJobArguments s.jobs s.now job patch)
  | .initializeJobArguments job patch => some (initializeJobArguments s.jobs s.now job patch)
  | .complete id leaseOwner generation => some (complete s.jobs s.now id leaseOwner generation)
  | .retry job runAt error => some (retry s.jobs s.now job runAt error)
  | .deadLetter job error => some (deadLetter s.jobs s.now job error)
  | .cancelJobs kind logicalKey => some (cancelJobs s.jobs s.now kind logicalKey)
  | _ => none

/-- The maintenance job deletes a marker that is expired and that no live job belongs to. -/
def State.pruneMarker (s : State) (key : MarkerKey) : Option (State × Response) :=
  match s.markerLocks key, s.markers key with
  | none, some marker =>
    if marker.expiresAt ≤ s.now ∧ ¬ s.jobs.any fun job => job.live &&
        (decide (job.orderingKey env = some (hex key.2)) || decide (marker.jobId = some job.id)) then
      some ({ s with markers := fun key' => if key' = key then none else s.markers key' }, .done)
    else none
  | _, _ => none

/-- Functions are called by a transaction that is in none. -/
def State.whenIdle (s : State) (t : TxnId) (result : Option (State × Response)) :
    Option (State × Response) :=
  match s.stages t with
  | .idle => result
  | _ => none

/-- A transaction commits when the function it was in has returned. -/
def State.returned (s : State) (t : TxnId) : Bool :=
  match s.stages t with
  | .idle => true
  | .dispatching [] => true
  | _ => false

def transact (s : State) : Op → Option (State × Response)
  | .tick elapsed => some ({ s with now := s.now + elapsed }, .done)
  | .cancelEvents kind logicalKey => s.cancelEvents kind logicalKey
  | .pruneMarker key => s.pruneMarker env key
  | .enqueue t spec => s.whenIdle t (s.enqueue t spec)
  | .enqueueOrdered t spec orderingKey =>
    s.whenIdle t ((s.insertMarker t ⟨spec, orderingKey, activitypubInboxOrderingKind⟩ none).map
      fun s' => (s', .done))
  | .recordOutbox t spec => s.whenIdle t (s.recordOutbox env t spec)
  | .recordOutboxOnce t spec => s.whenIdle t (s.recordOutboxOnce env t spec)
  | .dispatchOutbox t limit skipped => s.whenIdle t (s.dispatchOutbox env t limit skipped)
  | .next t => s.next env t
  | .commit t => if s.returned t then some (s.commit t, .done) else none
  | .rollback t => some (s.rollback t, .done)
  | _ => none

def step (s : State) (op : Op) : Option (State × Response) :=
  match statement env s op with
  | some statement => some ({ s with jobs := s.jobs.filterMap statement.effect }, statement.response)
  | none => transact env s op

/-- What the history of the database records. -/
abbrev Label := Op × Response

def Step (s : State) (label : Label) (s' : State) : Prop := step env s label.1 = some (s', label.2)

/-- Takes steps one after the other. -/
def exec (s : State) : List Op → Option (List Label × State)
  | [] => some ([], s)
  | op :: ops => do
    let (s', response) ← step env s op
    let (labels, s'') ← exec s' ops
    pure ((op, response) :: labels, s'')

open Schemes.Runs in
theorem exec_run : ∀ {s : State} {ops : List Op} {result : List Label × State},
    exec env s ops = some result → Run (Step env) s result.1 result.2
  | _, [], _, h => by
    obtain rfl := Option.some.inj h
    exact .nil
  | s, op :: ops, result, h => by
    obtain ⟨⟨s', response⟩, hstep, h⟩ := Option.bind_eq_some_iff.mp h
    obtain ⟨⟨labels, s''⟩, hrest, h⟩ := Option.bind_eq_some_iff.mp h
    obtain rfl := Option.some.inj h
    exact .cons hstep (exec_run hrest)

theorem exec_ops : ∀ {s : State} {ops : List Op} {result : List Label × State},
    exec env s ops = some result → result.1.map Prod.fst = ops
  | _, [], _, h => by
    obtain rfl := Option.some.inj h
    rfl
  | s, op :: ops, result, h => by
    obtain ⟨⟨s', response⟩, hstep, h⟩ := Option.bind_eq_some_iff.mp h
    obtain ⟨⟨labels, s''⟩, hrest, h⟩ := Option.bind_eq_some_iff.mp h
    obtain rfl := Option.some.inj h
    exact congrArg (op :: ·) (exec_ops hrest)

end Rustodon.Queue
