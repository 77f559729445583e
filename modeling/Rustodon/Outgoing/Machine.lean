import Rustodon.Schemes.Tables

/-! @src worker.rs, worker/delivery.rs, jobs.rs, mastodon/write_repository.rs | name:Relationship
    activities on their way | scheme:tables, leases | family:outgoing

    A local account follows and blocks one remote account. Each change is a transaction under the lock of
    the pair, and leaves activities in the outbox; they become jobs of one stream, since a delivery is
    ordered by its source and its inbox, and workers post them. The domain of the remote account is
    allowed throughout. What the remote server has recorded is what it makes of the posts, in the order in
    which they are sent. -/

namespace Rustodon.Outgoing
open Schemes.Tables (Table)

/-! ### Activities -/

inductive Relation where
  | follow | block
  deriving DecidableEq

/-- `Follow` and `Block` with the URI that is made of the id of their row, and the `Undo` of such a URI.
    Digests of different texts are different. -/
inductive Activity where
  | declare (relation : Relation) (id : ℕ)
  | undo (relation : Relation) (id : ℕ)
  deriving DecidableEq

def Activity.relation : Activity → Relation
  | .declare relation _ => relation
  | .undo relation _ => relation

def Activity.id : Activity → ℕ
  | .declare _ id => id
  | .undo _ id => id

/-- The `Undo` of an activity. -/
def Activity.undoes : Activity → Activity → Bool
  | .undo relation id, .declare relation' id' => relation == relation' && id == id'
  | _, _ => false

/-- The rows of `follow_requests`, `follows` and `blocks` of the pair, by the ids their URIs are made of. -/
structure Relationships where
  followRequest : Option ℕ
  follow : Option ℕ
  block : Option ℕ
  deriving DecidableEq

/-- What is in force. -/
def Relationships.current (r : Relationships) : Relation → Option ℕ
  | .follow => r.follow.or r.followRequest
  | .block => r.block

/-- `relationship_delivery_is_current`. -/
def Relationships.deliveryIsCurrent (r : Relationships) : Activity → Bool
  | .declare .follow id => r.follow == some id || r.followRequest == some id
  | .declare .block id => r.block == some id
  | .undo _ _ => true

/-- What the remote server has recorded. -/
structure Recorded where
  follow : Option ℕ
  block : Option ℕ
  deriving DecidableEq

def Recorded.get (r : Recorded) : Relation → Option ℕ
  | .follow => r.follow
  | .block => r.block

def Recorded.set (r : Recorded) (value : Option ℕ) : Relation → Recorded
  | .follow => { r with follow := value }
  | .block => { r with block := value }

/-- A server keeps the URI of a follow or a block, and drops it for an `Undo` of this URI. -/
def Recorded.process (r : Recorded) : Activity → Recorded
  | .declare relation id => r.set (some id) relation
  | .undo relation id => if r.get relation = some id then r.set none relation else r

/-! ### The outbox and the jobs -/

/-- A delivery in `outbox_events`. -/
structure Event where
  id : ℕ
  activity : Activity
  dispatched : Bool
  deriving DecidableEq

structure Lease where
  owner : ℕ
  expiresAt : ℤ
  deriving DecidableEq

/-- A delivery in `durable_jobs`; `eventId` tells which event it has been dispatched from. -/
structure Job where
  id : ℕ
  eventId : ℕ
  activity : Activity
  generation : ℕ
  lease : Option Lease
  dead : Bool
  deriving DecidableEq

/-- `lease_expires_at > clock_timestamp()`. -/
def Job.isHeld (now : ℤ) (job : Job) : Bool := job.lease.any fun lease => decide (now < lease.expiresAt)

/-- How far a worker is with the job it has claimed: it has read whether the activity is current or not,
    or it has posted it. -/
inductive Phase where
  | claimed | current | outdated | posted
  deriving DecidableEq

/-- A worker at work: its name, and the job as it was when it was claimed. -/
structure Handler where
  leaseOwner : ℕ
  jobId : ℕ
  eventId : ℕ
  activity : Activity
  generation : ℕ
  phase : Phase
  deriving DecidableEq

/-- A delivery that has been sent. -/
structure Post where
  eventId : ℕ
  activity : Activity
  deriving DecidableEq

structure State where
  now : ℤ
  relationships : Relationships
  nextId : ℕ
  events : List Event
  nextEventId : ℕ
  jobs : Table Job.id
  nextJobId : ℕ
  handlers : Table Handler.leaseOwner
  sent : List Post
  recorded : Recorded

/-! ### What transactions leave -/

/-- `record_outbox_once_in`. -/
def State.recordOutboxOnce (s : State) (activity : Activity) : State :=
  if s.events.any fun event => event.activity == activity then s
  else
    { s with
      events := s.events ++ [⟨s.nextEventId, activity, false⟩]
      nextEventId := s.nextEventId + 1 }

/-- The jobs that a cancellation deletes; `kept` are those that had a lease when its statement ran. -/
def isCancelled (now : ℤ) (activity : Activity) (kept : List ℕ) (job : Job) : Bool :=
  !job.dead && job.activity == activity && !job.isHeld now && !kept.contains job.id

theorem id_of_cancelled {now : ℤ} {activity : Activity} {kept : List ℕ} (job job' : Job)
    (h : (if isCancelled now activity kept job then none else some job) = some job') : job'.id = job.id := by
  split at h
  · cases h
  · rw [Option.some.inj h]

/-- `cancel_activitypub_delivery`. -/
def State.cancelActivitypubDelivery (s : State) (activity : Activity) (kept : List ℕ) : State :=
  { s with
    events := s.events.filter fun event => event.dispatched || event.activity != activity
    jobs := s.jobs.filterMap (fun job => if isCancelled s.now activity kept job then none else some job)
      id_of_cancelled }

/-- What follows when a follow or a block is taken back. -/
def State.retract (s : State) (relation : Relation) (id : ℕ) (relationships : Relationships) (kept : List ℕ) : State :=
  ({ s with relationships }.cancelActivitypubDelivery (.declare relation id) kept).recordOutboxOnce
    (.undo relation id)

/-- What follows when a follow or a block is made, with a URI of its own. -/
def State.declare (s : State) (relation : Relation) (relationships : ℕ → Relationships) : State :=
  State.recordOutboxOnce { s with relationships := relationships s.nextId, nextId := s.nextId + 1 }
    (.declare relation s.nextId)

/-- `set_follow_with_origin`, when the account is to be followed: a follow of a remote account is a request. -/
def State.setFollow (s : State) : Option State :=
  if s.relationships.block.isSome then none
  else if s.relationships.follow.isSome || s.relationships.followRequest.isSome then some s
  else some (s.declare .follow fun id => { s.relationships with followRequest := some id })

/-- `set_follow_with_origin`, when the account is not to be followed. -/
def State.unsetFollow (s : State) (kept : List ℕ) : State :=
  match s.relationships.follow with
  | some id => s.retract .follow id { s.relationships with follow := none } kept
  | none =>
    match s.relationships.followRequest with
    | some id => s.retract .follow id { s.relationships with followRequest := none } kept
    | none => s

/-- The remote account accepts the request, which becomes a follow with the same URI. -/
def State.acceptFollow (s : State) : Option State :=
  match s.relationships.followRequest with
  | some id =>
    some { s with relationships := { s.relationships with
      followRequest := none
      follow := s.relationships.follow.or (some id) } }
  | none => none

/-- A block ends a follow, but it leaves a request. -/
def State.endFollow (s : State) (kept : List ℕ) : State :=
  match s.relationships.follow with
  | some id => s.retract .follow id { s.relationships with follow := none } kept
  | none => s

/-- `set_block_with_origin`, when the account is to be blocked. -/
def State.setBlock (s : State) (kept : List ℕ) : State :=
  match s.relationships.block with
  | some id => (s.endFollow kept).recordOutboxOnce (.declare .block id)
  | none =>
    (s.endFollow kept).declare .block fun id => { (s.endFollow kept).relationships with block := some id }

/-- `set_block_with_origin`, when the account is not to be blocked. -/
def State.unsetBlock (s : State) (kept : List ℕ) : State :=
  match s.relationships.block with
  | some id => s.retract .block id { s.relationships with block := none } kept
  | none => s

/-! ### Dispatching and claiming -/

/-- The first delivery of the stream that is to be dispatched, unless a job for it is live. -/
def State.dispatchOutbox (s : State) : Option State := do
  let event ← s.events.find? fun event => !event.dispatched
  if s.jobs.rows.any fun job => job.activity == event.activity && !job.dead then none
  else
    let jobs ← s.jobs.insert ⟨s.nextJobId, event.id, event.activity, 0, none, false⟩
    some { s with
      events := s.events.map fun other => if other.id = event.id then { other with dispatched := true } else other
      jobs
      nextJobId := s.nextJobId + 1 }

/-- A live job without a lease that runs, and no earlier live job in the stream. -/
def State.isClaimable (s : State) (job : Job) : Bool :=
  !job.dead && !job.isHeld s.now && s.jobs.rows.all fun earlier => earlier.dead || decide (job.id ≤ earlier.id)

def Job.claimed (lease : Lease) (job : Job) : Job :=
  { job with generation := job.generation + 1, lease := some lease }

theorem Job.claimed_id (lease : Lease) (job : Job) : (job.claimed lease).id = job.id := rfl

/-- `claim`; which job is due is left open. -/
def State.claim (s : State) (leaseOwner jobId leaseMilliseconds : ℕ) : Option State := do
  let job ← (s.jobs.get jobId).filter s.isClaimable
  let handlers ← s.handlers.insert
    ⟨leaseOwner, jobId, job.eventId, job.activity, job.generation + 1, .claimed⟩
  some { s with
    jobs := s.jobs.modify jobId (Job.claimed ⟨leaseOwner, s.now + leaseMilliseconds⟩)
      (Job.claimed_id ⟨leaseOwner, s.now + leaseMilliseconds⟩)
    handlers }

/-- `lease_owner = $2 AND lease_generation = $3 AND dead_at IS NULL AND lease_expires_at > clock_timestamp()`. -/
def Handler.holds (now : ℤ) (handler : Handler) (job : Job) : Bool :=
  job.lease.any (fun lease => lease.owner == handler.leaseOwner) && job.generation == handler.generation &&
    !job.dead && job.isHeld now

/-- What a fenced statement of a worker does to its job. -/
def Handler.fenced (now : ℤ) (handler : Handler) (f : Job → Option Job) (job : Job) : Option Job :=
  if job.id = handler.jobId ∧ handler.holds now job = true then f job else some job

/-- The statements: a longer lease, a later attempt or none, and the end of the job. -/
inductive Ending where
  | renewed (milliseconds : ℕ)
  | completed
  | retried
  | deadLettered

def Ending.effect (now : ℤ) (owner : ℕ) : Ending → Job → Option Job
  | .renewed milliseconds, job => some { job with lease := some ⟨owner, now + milliseconds⟩ }
  | .completed, _ => none
  | .retried, job => some { job with lease := none }
  | .deadLettered, job => some { job with lease := none, dead := true }

theorem Ending.id_of_fenced {now : ℤ} {owner : ℕ} {handler : Handler} {ending : Ending} (job job' : Job)
    (h : handler.fenced now (ending.effect now owner) job = some job') : job'.id = job.id := by
  rw [Handler.fenced] at h
  split at h
  · cases ending with
    | completed => cases h
    | renewed milliseconds => rw [← Option.some.inj h]
    | retried => rw [← Option.some.inj h]
    | deadLettered => rw [← Option.some.inj h]
  · rw [Option.some.inj h]

def State.fence (s : State) (handler : Handler) (ending : Ending) : State :=
  { s with
    jobs := s.jobs.filterMap (handler.fenced s.now (ending.effect s.now handler.leaseOwner)) Ending.id_of_fenced }

/-! ### Delivering -/

def Handler.withPhase (phase : Phase) (handler : Handler) : Handler := { handler with phase }

theorem Handler.withPhase_leaseOwner (phase : Phase) (handler : Handler) :
    (handler.withPhase phase).leaseOwner = handler.leaseOwner := rfl

def State.setPhase (s : State) (leaseOwner : ℕ) (phase : Phase) : State :=
  { s with
    handlers := s.handlers.modify leaseOwner (Handler.withPhase phase) (Handler.withPhase_leaseOwner phase) }

/-- `relationship_delivery_is_current` reads the rows, and nothing keeps them. -/
def State.check (s : State) (leaseOwner : ℕ) : Option State := do
  let handler ← (s.handlers.get leaseOwner).filter fun handler => handler.phase == .claimed
  some (s.setPhase leaseOwner (if s.relationships.deliveryIsCurrent handler.activity then .current else .outdated))

/-- `post_signed_json`. -/
def State.post (s : State) (leaseOwner : ℕ) : Option State := do
  let handler ← (s.handlers.get leaseOwner).filter fun handler => handler.phase == .current
  some { s.setPhase leaseOwner .posted with
    sent := s.sent ++ [⟨handler.eventId, handler.activity⟩]
    recorded := s.recorded.process handler.activity }

def State.stop (s : State) (leaseOwner : ℕ) : State := { s with handlers := s.handlers.erase leaseOwner }

/-- The delivery was accepted, or there was nothing to deliver any more. -/
def State.complete (s : State) (leaseOwner : ℕ) : Option State := do
  let handler ← (s.handlers.get leaseOwner).filter fun handler =>
    handler.phase == .outdated || handler.phase == .posted
  some ((s.fence handler .completed).stop leaseOwner)

/-- The delivery failed, before the post or after it; the last attempt dead-letters the job. -/
def State.fail (s : State) (leaseOwner : ℕ) (last : Bool) : Option State := do
  let handler ← s.handlers.get leaseOwner
  some ((s.fence handler (if last then .deadLettered else .retried)).stop leaseOwner)

/-- A worker that cannot renew its lease stops. -/
def State.renew (s : State) (leaseOwner leaseMilliseconds : ℕ) : Option State := do
  let handler ← s.handlers.get leaseOwner
  if (s.jobs.get handler.jobId).any fun job => handler.holds s.now job then
    some (s.fence handler (.renewed leaseMilliseconds))
  else some (s.stop leaseOwner)

/-! ### Steps -/

inductive Action where
  | tick (elapsed : ℕ)
  | setFollow
  | unsetFollow (kept : List ℕ)
  | acceptFollow
  | setBlock (kept : List ℕ)
  | unsetBlock (kept : List ℕ)
  | dispatchOutbox
  | claim (leaseOwner jobId leaseMilliseconds : ℕ)
  | renew (leaseOwner leaseMilliseconds : ℕ)
  | check (leaseOwner : ℕ)
  | post (leaseOwner : ℕ)
  | complete (leaseOwner : ℕ)
  | fail (leaseOwner : ℕ) (last : Bool)
  | crash (leaseOwner : ℕ)

def State.step (s : State) : Action → Option State
  | .tick elapsed => some { s with now := s.now + elapsed }
  | .setFollow => s.setFollow
  | .unsetFollow kept => some (s.unsetFollow kept)
  | .acceptFollow => s.acceptFollow
  | .setBlock kept => some (s.setBlock kept)
  | .unsetBlock kept => some (s.unsetBlock kept)
  | .dispatchOutbox => s.dispatchOutbox
  | .claim leaseOwner jobId leaseMilliseconds => s.claim leaseOwner jobId leaseMilliseconds
  | .renew leaseOwner leaseMilliseconds => s.renew leaseOwner leaseMilliseconds
  | .check leaseOwner => s.check leaseOwner
  | .post leaseOwner => s.post leaseOwner
  | .complete leaseOwner => s.complete leaseOwner
  | .fail leaseOwner last => s.fail leaseOwner last
  | .crash leaseOwner => some (s.stop leaseOwner)

/-- Nothing has happened between the accounts. -/
def initial : State where
  now := 0
  relationships := ⟨none, none, none⟩
  nextId := 1
  events := []
  nextEventId := 1
  jobs := ⟨[], List.nodup_nil⟩
  nextJobId := 1
  handlers := ⟨[], List.nodup_nil⟩
  sent := []
  recorded := ⟨none, none⟩

end Rustodon.Outgoing
