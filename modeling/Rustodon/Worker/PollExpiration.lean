import Rustodon.Queue.Machine
import Rustodon.Schemes.Pages

/-! @src worker/poll_expiration.rs, jobs.rs | name:Poll expiration reconciliation | scheme:pages |
    family:worker

    A segment of the scan reads pages of candidate polls behind its cursor and reconciles them one
    by one, as far as time and budget allow; what is left is the work of a continuation. What the
    database and the clock do in a segment is given from outside. -/

namespace Rustodon.PollExpiration
open Schemes.Checked Schemes.Json Schemes.Pages
open Rustodon.Queue (Event Job JobError JobSpec Lane)

inductive HandlerFailure where
  | retry (message : String)
  | permanent (message : String)
  deriving DecidableEq, Repr

abbrev Handled := Except HandlerFailure

/-- `DateTime<Utc>` as the scan uses it. -/
structure Clock (τ : Type) where
  toRfc3339 : τ → String
  parse : String → Option τ
  timestampMicros : τ → ℤ

/-- What is formatted is parsed back. -/
def Clock.Lawful {τ : Type} (clock : Clock τ) : Prop :=
  ∀ time, clock.parse (clock.toRfc3339 time) = some time

/-! ### Effect markers -/

def pollExpirationEffectKind : String := "rustodon.mastodon.poll_expiration_effect"

inductive PollExpirationEffectOutcome where
  | historicalBaseline | effectsEnqueued | remotePastExpirySuppressed
  deriving DecidableEq, Repr

def PollExpirationEffectOutcome.asStr : PollExpirationEffectOutcome → String
  | .historicalBaseline => "historical_baseline"
  | .effectsEnqueued => "effects_enqueued"
  | .remotePastExpirySuppressed => "remote_past_expiry_suppressed"

def outcomes : List PollExpirationEffectOutcome :=
  [.historicalBaseline, .effectsEnqueued, .remotePastExpirySuppressed]

def pollExpirationEffectKey (pollId generation : ℤ) : String :=
  s!"poll-expiration-effect:{pollId}:generation:{generation}"

/-- The payload, with its entries in the order of a map. -/
def pollExpirationEffectPayload (pollId generation : ℤ) (outcome : PollExpirationEffectOutcome) :
    Value :=
  .object
    [("expires_at_micros", .number (.int generation)), ("outcome", .string outcome.asStr),
      ("poll_id", .number (.int pollId)), ("version", .number (.int 1))]

def validatePollExpirationEffect (payload : Value) (pollId generation : ℤ) :
    Queue.Checked PollExpirationEffectOutcome :=
  okOr
    (outcomes.find? fun outcome =>
      decide (payload = pollExpirationEffectPayload pollId generation outcome))
    (.invalidData "poll expiration effect marker is malformed")

def validateDispatchedPollExpirationEffect (payload : Value) (dispatchedAt : Option ℤ)
    (pollId generation : ℤ) : Queue.Checked PollExpirationEffectOutcome := do
  failIf dispatchedAt.isNone (.invalidData "poll expiration effect marker is not dispatched")
  validatePollExpirationEffect payload pollId generation

/-! ### Tables -/

/-- A poll with what the joins of the scan read: its status, its author and its votes. -/
structure Poll where
  id : ℤ
  /-- Microseconds since the epoch. -/
  expiresAt : Option ℤ
  statusDeleted : Bool
  authorDomain : Option String
  localVote : Bool

/-- `(poll.id, poll.expires_at, author.domain IS NULL)`. -/
structure CandidateRow where
  pollId : ℤ
  expiresAt : ℤ
  localAuthor : Bool

/-- The row of a poll that the `WHERE` clause lets through, cursor and markers apart. -/
def Poll.candidateRow (poll : Poll) : Option CandidateRow :=
  if !poll.statusDeleted && (poll.authorDomain.isNone || poll.localVote) then
    poll.expiresAt.map fun expiresAt => ⟨poll.id, expiresAt, poll.authorDomain.isNone⟩
  else none

/-- The polls and the effect markers, which are rows of `outbox_events`. -/
structure Table where
  polls : List Poll
  markers : List Event
  ids_nodup : (polls.map Poll.id).Nodup
  ids_bigint : ∀ poll ∈ polls, -2 ^ 63 ≤ poll.id ∧ poll.id < 2 ^ 63

def Table.candidates (table : Table) : List CandidateRow := table.polls.filterMap Poll.candidateRow

def CandidateRow.effectKey (row : CandidateRow) : String :=
  pollExpirationEffectKey row.pollId row.expiresAt

/-- The subquery on terminal markers, by the equality of `jsonb`. -/
def Table.isTerminal (table : Table) (jsonbEq : Value → Value → Bool) (row : CandidateRow) : Bool :=
  table.markers.any fun terminal =>
    decide (terminal.kind = pollExpirationEffectKind) &&
      decide (terminal.logicalKey = some row.effectKey) && terminal.dispatchedAt.isSome &&
      outcomes.any fun outcome =>
        jsonbEq terminal.payload (pollExpirationEffectPayload row.pollId row.expiresAt outcome)

/-- `SELECT max(id) FROM polls`. -/
def Table.maxId (table : Table) : Option ℤ := (table.polls.map Poll.id).max?

/-! ### Pages -/

def repairPageSize : ℕ := 256

def repairMaxPages : ℕ := 4

def repairMaxCandidates : ℕ := 25

/-- A row of a page, with the marker that a fallback page has for it. -/
structure ScanRow where
  pollId : ℤ
  expiresAt : ℤ
  localAuthor : Bool
  marker : Option (Value × Option ℤ)

def CandidateRow.scanRow (row : CandidateRow) (marker : Option (Value × Option ℤ)) : ScanRow :=
  ⟨row.pollId, row.expiresAt, row.localAuthor, marker⟩

def optimizedPage (jsonbEq : Value → Value → Bool) (table : Table) (cursor throughPollId : ℤ) :
    List ScanRow :=
  (page CandidateRow.pollId repairPageSize cursor throughPollId
    (table.candidates.filter fun row => !table.isTerminal jsonbEq row)).map fun row =>
      row.scanRow none

/-- Rows with their markers, which are taken out of a map: of two markers of a key the last one. -/
def classify : List CandidateRow → List Event → List ScanRow
  | [], _ => []
  | row :: rows, markers =>
    let marker := markers.reverse.find? fun marker => marker.logicalKey = some row.effectKey
    row.scanRow (marker.map fun marker => (marker.payload, marker.dispatchedAt)) ::
      classify rows (markers.filter fun marker => marker.logicalKey ≠ some row.effectKey)

def fallbackPage (table : Table) (cursor throughPollId : ℤ) : List ScanRow :=
  let rows := page CandidateRow.pollId repairPageSize cursor throughPollId table.candidates
  let keys := rows.map CandidateRow.effectKey
  classify rows (table.markers.filter fun marker =>
    decide (marker.kind = pollExpirationEffectKind) && marker.logicalKey.any keys.contains)

/-! ### What a segment is subject to -/

inductive PrimaryPage where
  | rows
  | timedOut
  /-- The work time is over before the statement is. -/
  | dropped
  | failed (failure : HandlerFailure)

inductive FallbackPage where
  | rows
  | timedOut
  | failed (failure : HandlerFailure)

inductive Repair where
  | succeeded | failed | timedOut

/-- What happens on a page; rows and calls are told apart by their position. -/
structure PageEnv where
  expired : Bool
  primary : PrimaryPage
  fallback : FallbackPage
  rowExpired : ℕ → Bool
  repair : ℕ → Repair

inductive HighWater where
  | value
  | unavailable
  | timedOut
  | failed (failure : HandlerFailure)

inductive Activation where
  | found (activation : ℤ)
  | invalid
  | timedOut

structure SegmentEnv where
  highWater : HighWater
  expired : Bool
  activation : Activation
  pages : ℕ → PageEnv
  /-- The time of a continuation, or `none` where its transaction fails. -/
  enqueuedAt : Option ℤ
  /-- Where the wall time is over before the segment returns: the number of calls that were answered
      by then, or `none` if everything was done. -/
  wall : Option (Option ℕ)

/-! ### The scan -/

inductive PollExpirationScanMode where
  | optimized | raw
  deriving DecidableEq, Repr

inductive PollExpirationScanStep where
  | advanceTerminal | reconcile | stop

def pollExpirationScanStep (terminal : Bool) (candidatesReconciled : ℕ) : PollExpirationScanStep :=
  if terminal then .advanceTerminal
  else if candidatesReconciled ≥ repairMaxCandidates then .stop
  else .reconcile

/-- A call of `reconcile_poll_expiration`. -/
structure RepairCall where
  pollId : ℤ
  expiresAt : ℤ
  targetRunAt : ℤ
  activation : ℤ
  deriving DecidableEq, Repr

def ScanRow.repairCall (row : ScanRow) (activation : ℤ) : RepairCall :=
  ⟨row.pollId, row.expiresAt, row.expiresAt + (if row.localAuthor then 0 else 5 * 60 * 1000000),
    activation⟩

def ScanRow.terminal (row : ScanRow) : Handled Bool :=
  match row.marker with
  | none => .ok false
  | some (payload, dispatchedAt) =>
    match validateDispatchedPollExpirationEffect payload dispatchedAt row.pollId row.expiresAt with
    | .ok _ => .ok true
    | .error _ => .error (.retry "poll expiration fallback marker is invalid")

/-- The variables of the loops, and the calls that have succeeded. -/
structure Scan where
  cursor : ℤ
  candidatesReconciled : ℕ
  reconciled : List RepairCall

/-- How the loops are left. -/
inductive ScanExit where
  | finished
  | bounded
  | exhausted
  | failed (failure : HandlerFailure)

/-- The loop over the rows of a page, and the exit if it is left early. -/
def scanRows (env : PageEnv) (activation : ℤ) : ℕ → List ScanRow → Scan → Scan × Option ScanExit
  | _, [], scan => (scan, none)
  | i, row :: rows, scan =>
    if env.rowExpired i then (scan, some .bounded)
    else
      match row.terminal with
      | .error failure => (scan, some (.failed failure))
      | .ok terminal =>
        match pollExpirationScanStep terminal scan.candidatesReconciled with
        | .advanceTerminal =>
          scanRows env activation (i + 1) rows { scan with cursor := row.pollId }
        | .stop => (scan, some .bounded)
        | .reconcile =>
          match env.repair i with
          | .succeeded =>
            scanRows env activation (i + 1) rows
              { cursor := row.pollId
                candidatesReconciled := scan.candidatesReconciled + 1
                reconciled := scan.reconciled ++ [row.repairCall activation] }
          | .failed => (scan, some (.failed (.retry "poll expiration durable repair failed")))
          | .timedOut => (scan, some .bounded)

variable (jsonbEq : Value → Value → Bool) (table : Table)

/-- `poll_expiration_fallback_page_within_work_time`. -/
def fallbackWithinWorkTime (env : PageEnv) (cursor throughPollId : ℤ) :
    Handled (Option (List ScanRow × Bool)) :=
  match env.fallback with
  | .rows => .ok (some (fallbackPage table cursor throughPollId, true))
  | .timedOut => .ok none
  | .failed failure => .error failure

/-- The rows of the next page, and whether it is a fallback page. -/
def nextPage (env : PageEnv) (mode : PollExpirationScanMode) (cursor throughPollId : ℤ) :
    Handled (Option (List ScanRow × Bool)) :=
  match mode with
  | .raw => fallbackWithinWorkTime table env cursor throughPollId
  | .optimized =>
    match env.primary with
    | .rows => .ok (some (optimizedPage jsonbEq table cursor throughPollId, false))
    | .timedOut => fallbackWithinWorkTime table env cursor throughPollId
    | .dropped => .ok none
    | .failed failure => .error failure

/-- The loop over pages, with the number of those that may still be read. -/
def scanPages (env : ℕ → PageEnv) (activation : ℤ) (mode : PollExpirationScanMode)
    (throughPollId : ℤ) : ℕ → ℕ → Scan → Scan × ScanExit
  | 0, _, scan => (scan, .finished)
  | left + 1, pagesScanned, scan =>
    if ¬ scan.cursor < throughPollId then (scan, .finished)
    else if (env pagesScanned).expired then (scan, .bounded)
    else
      match nextPage jsonbEq table (env pagesScanned) mode scan.cursor throughPollId with
      | .error failure => (scan, .failed failure)
      | .ok none => (scan, .bounded)
      | .ok (some (rows, fallbackPage)) =>
        if rows.isEmpty then (scan, .exhausted)
        else
          match scanRows (env pagesScanned) activation 0 rows scan with
          | (scan, some exit) => (scan, exit)
          | (scan, none) =>
            if rows.length < repairPageSize then (scan, .exhausted)
            else if fallbackPage then (scan, .bounded)
            else scanPages env activation mode throughPollId left (pagesScanned + 1) scan

/-! ### Jobs -/

def pollExpirationReconcileJobKind : String := "rustodon.mastodon.reconcile_poll_expirations"

def defaultMaxAttempts : Int32 := 25

section Jobs

variable {τ : Type} (clock : Clock τ)

def pollExpirationReconciliationLogicalKey (scanStartedAt : τ) (afterPollId segment : ℤ)
    (mode : PollExpirationScanMode) : String :=
  let micros := clock.timestampMicros scanStartedAt
  match mode with
  | .optimized => s!"poll-expiration-reconcile:{micros}:{segment}:{afterPollId}"
  | .raw => s!"poll-expiration-reconcile:{micros}:raw:{segment}:{afterPollId}"

def reconciliationArguments (scanStartedAt : τ) (throughPollId : Option ℤ)
    (afterPollId segment : ℤ) (mode : PollExpirationScanMode) : Fields :=
  [("after_poll_id", .number (.int afterPollId))] ++
    (if mode = .raw then [("scan_mode", .string "raw")] else []) ++
    [("scan_started_at", .string (clock.toRfc3339 scanStartedAt)),
      ("segment", .number (.int segment)),
      ("through_poll_id", (throughPollId.map fun through => .number (.int through)).getD .null)]

/-- `poll_expiration_reconciliation_job_with_mode`, at the time when it is called. -/
def pollExpirationReconciliationJobWithMode (scanStartedAt : τ) (throughPollId : Option ℤ)
    (afterPollId segment : ℤ) (mode : PollExpirationScanMode) (now : ℤ) : JobSpec where
  lane := .maintenance
  kind := pollExpirationReconcileJobKind
  arguments :=
    .object (reconciliationArguments clock scanStartedAt throughPollId afterPollId segment mode)
  logicalKey :=
    some (pollExpirationReconciliationLogicalKey clock scanStartedAt afterPollId segment mode)
  runAt := now
  maxAttempts := defaultMaxAttempts

/-- `i64::checked_add`. -/
def checkedAdd (a b : ℤ) : Option ℤ :=
  if -2 ^ 63 ≤ a + b ∧ a + b < 2 ^ 63 then some (a + b) else none

def pollExpirationReconciliationContinuation (scanStartedAt : τ) (throughPollId : Option ℤ)
    (afterPollId segment : ℤ) (mode : PollExpirationScanMode) (now : ℤ) : Handled JobSpec := do
  let nextSegment ← okOr (checkedAdd segment 1)
    (.permanent "poll expiration repair segment overflowed")
  match mode with
  | .optimized =>
    return pollExpirationReconciliationJobWithMode clock scanStartedAt throughPollId afterPollId
      nextSegment .optimized now
  | .raw =>
    let throughPollId ← okOr throughPollId
      (.permanent "raw poll expiration repair high-water mark is missing")
    return pollExpirationReconciliationJobWithMode clock scanStartedAt (some throughPollId)
      afterPollId nextSegment .raw now

/-! ### Arguments -/

/-- `Value::get`, which finds nothing in what is no object. -/
def argument (arguments : Value) (name : String) : Option Value :=
  arguments.asObject.bind fun fields => get fields name

def scanStartedAtOf (arguments : Value) : Handled τ := do
  let text ← okOr (((argument arguments "scan_started_at").or (argument arguments "cutoff")).bind
    Value.asStr) (.permanent "poll expiration repair start is missing")
  okOr (clock.parse text) (.permanent "poll expiration repair start is invalid")

def afterPollIdOf (arguments : Value) : Handled ℤ :=
  match argument arguments "after_poll_id" with
  | none => .ok 0
  | some value => okOr value.asI64 (.permanent "poll expiration repair cursor is invalid")

def segmentOf (arguments : Value) : Handled ℤ :=
  match argument arguments "segment" with
  | none => .ok 0
  | some value => okOr value.asI64 (.permanent "poll expiration repair segment is invalid")

def parsePollExpirationScanMode (arguments : Value) (segment : ℤ) :
    Handled PollExpirationScanMode :=
  match argument arguments "scan_mode" with
  | none => .ok .optimized
  | some value =>
    if value = .string "raw" then
      if segment = 0 ∨ ((argument arguments "through_poll_id").bind Value.asI64).isNone ∨
          ((argument arguments "after_poll_id").bind Value.asI64).isNone then
        .error (.permanent "raw poll expiration repair continuation is invalid")
      else .ok .raw
    else .error (.permanent "poll expiration repair scan mode is invalid")

def pollExpirationReconciliationKeyFromArguments (arguments : Value) : Handled String := do
  let scanStartedAt ← scanStartedAtOf clock arguments
  let afterPollId ← afterPollIdOf arguments
  let segment ← segmentOf arguments
  let mode ← parsePollExpirationScanMode arguments segment
  return pollExpirationReconciliationLogicalKey clock scanStartedAt afterPollId segment mode

def pollExpirationExecutionMode (configuredMode : PollExpirationScanMode) (attempt : ℤ) :
    PollExpirationScanMode :=
  if configuredMode = .raw ∨ attempt > 1 then .raw else .optimized

def pollExpirationNoProgress : HandlerFailure :=
  .retry "poll expiration reconciliation made no cursor progress"

def pollExpirationWriterUnavailable : HandlerFailure :=
  .retry "poll expiration writer connection is unavailable"

/-- The high-water mark that is named, or else that of the table. -/
def throughPollIdOf (env : SegmentEnv) (arguments : Value) : Handled ℤ :=
  match (argument arguments "through_poll_id").getD .null with
  | .null =>
    match env.highWater with
    | .value => .ok (table.maxId.getD 0)
    | .unavailable => .error pollExpirationWriterUnavailable
    | .timedOut => .error pollExpirationNoProgress
    | .failed failure => .error failure
  | value => okOr value.asI64 (.permanent "poll expiration repair high-water mark is invalid")

/-! ### Segments -/

structure Segment (τ : Type) where
  scanStartedAt : τ
  afterPollId : ℤ
  segment : ℤ
  mode : PollExpirationScanMode
  throughPollId : ℤ
  activation : ℤ

/-- Everything before the loops: the segment, if there is anything behind its cursor. -/
def readSegment (env : SegmentEnv) (arguments : Value) (attempt : ℤ) :
    Handled (Option (Segment τ)) := do
  let scanStartedAt ← scanStartedAtOf clock arguments
  let afterPollId ← afterPollIdOf arguments
  failIf (afterPollId < 0) (.permanent "poll expiration repair cursor is invalid")
  let segment ← segmentOf arguments
  failIf (segment < 0) (.permanent "poll expiration repair segment is invalid")
  let configuredMode ← parsePollExpirationScanMode arguments segment
  let throughPollId ← throughPollIdOf table env arguments
  failIf (throughPollId < afterPollId || throughPollId < 0)
    (.permanent "poll expiration repair high-water mark is invalid")
  if throughPollId = afterPollId then return none
  failIf env.expired pollExpirationNoProgress
  match env.activation with
  | .found activation =>
    return some ⟨scanStartedAt, afterPollId, segment,
      pollExpirationExecutionMode configuredMode attempt, throughPollId, activation⟩
  | .invalid => throw (.permanent "poll expiration activation marker is invalid")
  | .timedOut => throw pollExpirationNoProgress

/-- What a segment leaves: the calls that have succeeded, the continuation it has enqueued, and its
    result. -/
structure SegmentRun where
  reconciled : List RepairCall
  continuation : Option JobSpec
  result : Handled Unit

/-- Everything behind the loops. -/
def finishSegment (enqueueExact : JobSpec → Bool) (env : SegmentEnv) (segment : Segment τ)
    (scan : Scan) (exit : ScanExit) : SegmentRun :=
  match exit with
  | .failed failure => ⟨scan.reconciled, none, .error failure⟩
  | .exhausted => ⟨scan.reconciled, none, .ok ()⟩
  | .bounded | .finished =>
    if ¬ scan.cursor < segment.throughPollId then ⟨scan.reconciled, none, .ok ()⟩
    else if scan.cursor = segment.afterPollId then
      ⟨scan.reconciled, none, .error pollExpirationNoProgress⟩
    else
      match pollExpirationReconciliationContinuation clock segment.scanStartedAt
        (some segment.throughPollId) scan.cursor segment.segment segment.mode
        (env.enqueuedAt.getD 0) with
      | .error failure => ⟨scan.reconciled, none, .error failure⟩
      | .ok spec =>
        if env.enqueuedAt.isSome && enqueueExact spec then ⟨scan.reconciled, some spec, .ok ()⟩
        else
          ⟨scan.reconciled, none, .error (.retry "poll expiration repair continuation failed")⟩

def reconcilePollExpirationsInner (enqueueExact : JobSpec → Bool) (env : SegmentEnv)
    (arguments : Value) (attempt : ℤ) : SegmentRun :=
  match readSegment table clock env arguments attempt with
  | .error failure => ⟨[], none, .error failure⟩
  | .ok none => ⟨[], none, .ok ()⟩
  | .ok (some segment) =>
    let (scan, exit) := scanPages jsonbEq table env.pages segment.activation segment.mode
      segment.throughPollId repairMaxPages 0 ⟨segment.afterPollId, 0, []⟩
    finishSegment clock enqueueExact env segment scan exit

/-- `within_poll_expiration_reconciliation_wall_time`. -/
def withinWallTime (wall : Option (Option ℕ)) (run : SegmentRun) : SegmentRun :=
  let exceeded := .error (.retry "poll expiration reconciliation wall time exceeded")
  match wall with
  | none => run
  | some none => { run with result := exceeded }
  | some (some answered) => ⟨run.reconciled.take answered, none, exceeded⟩

def reconcilePollExpirations (enqueueExact : JobSpec → Bool) (env : SegmentEnv)
    (arguments : Value) (logicalKey : String) (attempt : ℤ) : SegmentRun :=
  match pollExpirationReconciliationKeyFromArguments clock arguments with
  | .error failure => ⟨[], none, .error failure⟩
  | .ok expectedKey =>
    if logicalKey ≠ expectedKey then
      ⟨[], none,
        .error (.permanent "poll expiration reconciliation logical key is invalid")⟩
    else
      withinWallTime env.wall
        (reconcilePollExpirationsInner jsonbEq table clock enqueueExact env arguments attempt)

end Jobs

end Rustodon.PollExpiration
