import Rustodon.Queue.Delivery

/-! @src mastodon/write_repository.rs, worker/push.rs | name:Distribution of local polls |
    scheme:coalescing, row locks | family:polls

    A job that federates a local poll reads the tally when it runs, so that one job serves every
    vote that is committed before. A vote records a new one only when no event is to be dispatched
    and no job waits: a job that is leased may have read the tally already, and is followed by
    another one under a key of its own. The votes on a poll exclude each other by the lock on its
    row. Their statements are interleaved with those of all other processes on the queue. -/

namespace Rustodon.Polls
open Queue Schemes.Json

def activitypubStatusDistributionJobKind : String := "rustodon.activitypub.distribute_status"

def baseLogicalKey (pollId : ℤ) : String := "activitypub:poll:" ++ toString pollId ++ ":update"

/-- The key of the job that follows another one. -/
def afterLogicalKey (pollId : ℤ) (jobId : ℕ) : String :=
  baseLogicalKey pollId ++ ":after:" ++ toString jobId

/-- `kind = $1 AND (logical_key = $2 OR logical_key LIKE $2 || ':after:%')`. -/
def isUpdate (pollId : ℤ) (kind : String) (logicalKey : Option String) : Bool :=
  decide (kind = activitypubStatusDistributionJobKind) && logicalKey.any fun key =>
    decide (key = baseLogicalKey pollId) ||
      (baseLogicalKey pollId ++ ":after:").toList.isPrefixOf key.toList

/-- `dispatched_at IS NULL`. -/
def isPendingUpdate (pollId : ℤ) (event : Event) : Bool :=
  isUpdate pollId event.kind event.logicalKey && event.dispatchedAt.isNone

/-- `dead_at IS NULL`. -/
def isActiveUpdate (pollId : ℤ) (job : Job) : Bool :=
  isUpdate pollId job.kind job.logicalKey && job.live

/-- `DEFAULT_MAX_ATTEMPTS`. -/
def defaultMaxAttempts : Int32 := 25

/-- `Utc::now() + ChronoDuration::minutes(3)`. -/
def updateRunAt (now : ℤ) : ℤ := now + 3 * 60 * 1000000

/-- What the recorded job is told; instants are microseconds. -/
structure UpdateVersion where
  statusId : ℤ
  editedAt : ℤ
  updatedAt : ℤ
  now : ℤ

def updateJob (version : UpdateVersion) (logicalKey : String) : JobSpec where
  lane := .push
  kind := activitypubStatusDistributionJobKind
  arguments := .object
    [("activity_type", .string "Update"), ("edited_at_micros", .number (.int version.editedAt)),
      ("poll_updated_at_micros", .number (.int version.updatedAt)),
      ("status_id", .number (.int version.statusId)), ("update_kind", .string "poll"),
      ("update_version_micros", .number (.int version.updatedAt))]
  logicalKey := some logicalKey
  runAt := updateRunAt version.now
  maxAttempts := defaultMaxAttempts

/-- Where the transaction of a vote is: it has changed the tally, has found no event in the outbox,
    is to record a job, or has nothing left to do, with and without having recorded one. -/
inductive VoteStage where
  | voted
  | outboxRead
  | recording (logicalKey : String)
  | recorded
  | served
  deriving DecidableEq

/-- A vote that holds the row of the poll, with the event that it has read `FOR UPDATE` and the
    jobs that it has read `FOR SHARE`. -/
structure Voting where
  txn : TxnId
  stage : VoteStage
  eventLock : Option ℕ
  jobLocks : List ℕ

/-- The queue and one poll. Of the tally only the number of votes matters. -/
structure System where
  queue : State
  voting : Option Voting
  /-- The votes that have been committed. -/
  tally : ℕ
  /-- What an attempt, `(id, lease_generation)`, has read. -/
  reads : ℕ → ℕ → Option ℕ
  /-- The largest tally that a completed run has read. -/
  distributed : ℕ
  /-- The tally when a job of the poll last died. -/
  lost : ℕ

def System.initial (now : ℤ) : System where
  queue := Queue.initial now
  voting := none
  tally := 0
  reads _ _ := none
  distributed := 0
  lost := 0

def System.votes (σ : System) (t : TxnId) : Bool := σ.voting.any fun voting => voting.txn == t

def System.jobLocks (σ : System) : List ℕ :=
  match σ.voting with
  | some voting => voting.jobLocks
  | none => []

def System.eventLock (σ : System) : Option ℕ := σ.voting.bind Voting.eventLock

variable (env : Env) (pollId : ℤ)

/-- Whether a job of the poll has this id. -/
def System.isUpdateJob (σ : System) (id : ℕ) : Bool :=
  σ.queue.jobs.any fun job => decide (job.id = id) && isActiveUpdate pollId job

/-- The operations of the other processes, and what the vote does beside the poll. Rows that the
    vote has locked are skipped or waited for, its transaction is its own, only votes record and
    nobody cancels jobs of the poll, and a handler returns after it has read the tally. -/
def System.permits (σ : System) : Op → Bool
  | .tick _ => true
  | .claim _ _ _ skipped => σ.jobLocks.all skipped.contains
  | .renew id _ _ _ => !σ.jobLocks.contains id
  | .mergeJobArguments job _ => !σ.jobLocks.contains job.id
  | .initializeJobArguments job _ => !σ.jobLocks.contains job.id
  | .complete id _ generation => !σ.jobLocks.contains id &&
      (!σ.isUpdateJob pollId id || (σ.reads id generation).isSome)
  | .retry job _ _ => !σ.jobLocks.contains job.id
  | .deadLetter job _ => !σ.jobLocks.contains job.id
  | .cancelJobs kind logicalKey => !isUpdate pollId kind (some logicalKey)
  | .cancelEvents kind logicalKey => !isUpdate pollId kind (some logicalKey)
  | .pruneMarker _ => true
  | .enqueue _ _ => false
  | .enqueueOrdered _ _ _ => false
  | .recordOutbox _ spec => !isUpdate pollId spec.kind spec.logicalKey
  | .recordOutboxOnce _ spec => !isUpdate pollId spec.kind spec.logicalKey
  | .dispatchOutbox t _ skipped => !σ.votes t && σ.eventLock.all skipped.contains
  | .next t => !σ.votes t
  | .commit t => !σ.votes t
  | .rollback t => !σ.votes t

/-- The end of a run of a job of the poll. -/
def System.account (σ : System) : Op → Response → System
  | .complete id _ generation, .flag true =>
    if σ.isUpdateJob pollId id then
      { σ with distributed := max σ.distributed ((σ.reads id generation).getD 0) }
    else σ
  | .retry job _ _, .retried .dead =>
    if σ.isUpdateJob pollId job.id then { σ with lost := σ.tally } else σ
  | .deadLetter job _, .flag true =>
    if σ.isUpdateJob pollId job.id then { σ with lost := σ.tally } else σ
  | _, _ => σ

/-- A vote locks the row of the poll in a transaction that has done nothing else. -/
def System.beginVote (σ : System) (t : TxnId) : Option System :=
  match σ.voting, σ.queue.stages t with
  | none, .idle =>
    if (σ.queue.pendingEvents.any fun row => row.1 == t) ||
        σ.queue.pendingJobs.any fun row => row.1 == t then none
    else some { σ with voting := some ⟨t, .voted, none, []⟩ }
  | _, _ => none

/-- The events that the first statement of `record_poll_update_distribution` selects. -/
def pendingUpdates (s : State) : List Event :=
  (s.events.filter (isPendingUpdate pollId)).insertionSort fun a b => a.id ≤ b.id

/-- The jobs that the second statement selects. -/
def activeUpdates (s : State) : List Job :=
  (s.jobs.filter (isActiveUpdate pollId)).insertionSort fun a b => a.id ≤ b.id

def System.selectOutbox (σ : System) : Option System :=
  match σ.voting with
  | some ⟨t, .voted, _, jobLocks⟩ =>
    match (pendingUpdates pollId σ.queue).head? with
    | some event =>
      if (σ.queue.eventLocks event.id).any fun holder => holder != t then none
      else some { σ with voting := some ⟨t, .served, some event.id, jobLocks⟩ }
    | none => some { σ with voting := some ⟨t, .outboxRead, none, jobLocks⟩ }
  | _ => none

/-- The key of the job to record: that of the poll, or one after the last job. -/
def updateLogicalKey (active : List Job) : String :=
  match active.getLast? with
  | none => baseLogicalKey pollId
  | some job => afterLogicalKey pollId job.id

def System.selectJobs (σ : System) : Option System :=
  match σ.voting with
  | some ⟨t, .outboxRead, eventLock, _⟩ =>
    let active := activeUpdates pollId σ.queue
    let stage := if active.any fun job => !job.held σ.queue.now then VoteStage.served
      else .recording (updateLogicalKey pollId active)
    some { σ with voting := some ⟨t, stage, eventLock, active.map Job.id⟩ }
  | _ => none

def System.record (σ : System) (version : UpdateVersion) : Option System :=
  match σ.voting with
  | some ⟨t, .recording logicalKey, eventLock, jobLocks⟩ =>
    match Queue.step env σ.queue (.recordOutbox t (updateJob version logicalKey)) with
    | some (queue, .id _) =>
      some { σ with queue := queue, voting := some ⟨t, .recorded, eventLock, jobLocks⟩ }
    | _ => none
  | _ => none

def VoteStage.returned : VoteStage → Bool
  | .recorded => true
  | .served => true
  | _ => false

def System.commitVote (σ : System) : Option System := do
  let voting ← σ.voting
  if voting.stage.returned then
    let (queue, _) ← Queue.step env σ.queue (.commit voting.txn)
    some { σ with queue := queue, voting := none, tally := σ.tally + 1 }
  else none

def System.rollbackVote (σ : System) : Option System := do
  let voting ← σ.voting
  let (queue, _) ← Queue.step env σ.queue (.rollback voting.txn)
  some { σ with queue := queue, voting := none }

/-- The handler reads the poll in an attempt that no later claim has ended. -/
def System.readTally (σ : System) (id generation : ℕ) : Option System :=
  if (σ.queue.jobs.any fun job => decide (job.id = id) && decide (job.generation = generation)) ∧
      σ.reads id generation = none then
    some { σ with
      reads := fun id' generation' =>
        if id' = id ∧ generation' = generation then some σ.tally else σ.reads id' generation' }
  else none

inductive UpdateOp where
  | queue (op : Op)
  | beginVote (t : TxnId)
  | selectOutbox
  | selectJobs
  | record (version : UpdateVersion)
  | commitVote
  | rollbackVote
  | readTally (id generation : ℕ)

def System.stepQueue (σ : System) (op : Op) : Option System :=
  if σ.permits pollId op then
    (Queue.step env σ.queue op).map fun (queue, response) =>
      { σ.account pollId op response with queue := queue }
  else none

def System.step (σ : System) : UpdateOp → Option System
  | .queue op => σ.stepQueue env pollId op
  | .beginVote t => σ.beginVote t
  | .selectOutbox => σ.selectOutbox pollId
  | .selectJobs => σ.selectJobs pollId
  | .record version => σ.record env version
  | .commitVote => σ.commitVote env
  | .rollbackVote => σ.rollbackVote env
  | .readTally id generation => σ.readTally id generation

def UpdateStep (σ : System) (op : UpdateOp) (σ' : System) : Prop :=
  σ.step env pollId op = some σ'

end Rustodon.Polls
