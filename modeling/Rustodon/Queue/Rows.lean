import Rustodon.Queue.Spec
import Mathlib.Data.List.Sort

/-! @src jobs.rs | name:Rows of the durable queue | scheme:leases | family:queue

    The statements that claim, renew, change, acknowledge and cancel rows of
    `rustodon.durable_jobs`. A statement is atomic, reads one value of the database clock, and acts
    on every committed row on its own. -/

namespace Rustodon.Queue
open Schemes.Checked Schemes.Json Schemes.Utf8

/-- `(lease_owner, lease_expires_at, dead_at)`: the CHECK constraints of the table leave a row that
    waits, a row with a lease and a dead row. -/
inductive Status where
  | waiting
  | leased (owner : String) (expiresAt : ℤ)
  | dead (at_ : ℤ)
  deriving DecidableEq, Repr

structure Job where
  id : ℕ
  lane : Lane
  kind : String
  arguments : Value
  logicalKey : Option String
  runAt : ℤ
  attempts : ℤ
  maxAttempts : ℤ
  generation : ℕ
  status : Status
  lastError : Option String

def Job.leaseOwner (job : Job) : Option String :=
  match job.status with
  | .leased owner _ => some owner
  | _ => none

def Job.leaseExpiresAt (job : Job) : Option ℤ :=
  match job.status with
  | .leased _ expiresAt => some expiresAt
  | _ => none

def Job.deadAt (job : Job) : Option ℤ :=
  match job.status with
  | .dead at_ => some at_
  | _ => none

/-- `dead_at IS NULL`. -/
def Job.live (job : Job) : Bool := job.deadAt.isNone

/-- `lease_expires_at > clock_timestamp()`. -/
def Job.held (job : Job) (now : ℤ) : Bool := job.leaseExpiresAt.any fun expiresAt => now < expiresAt

/-- A row as it is inserted. -/
def Job.new (id : ℕ) (spec : JobSpec) : Job where
  id := id
  lane := spec.lane
  kind := spec.kind
  arguments := spec.arguments
  logicalKey := spec.logicalKey
  runAt := spec.runAt
  attempts := 0
  maxAttempts := spec.maxAttempts.toInt
  generation := 0
  status := .waiting
  lastError := none

structure ClaimedJob where
  id : ℕ
  lane : Lane
  kind : String
  arguments : Value
  logicalKey : Option String
  runAt : ℤ
  attempt : ℤ
  maxAttempts : ℤ
  generation : ℕ
  leaseOwner : String
  leaseExpiresAt : ℤ

inductive RetryResult where
  | scheduled | dead | lost
  deriving DecidableEq, Repr

/-- What an operation returns to its caller. -/
inductive Response where
  | done
  | failed (error : JobError)
  | flag (value : Bool)
  | claimed (job : Option ClaimedJob)
  | retried (result : RetryResult)
  | arguments (value : Option Value)
  | count (n : ℕ)
  | id (n : ℕ)

/-- What a statement makes of each row, where `none` deletes it, and what it returns. -/
structure Statement where
  effect : Job → Option Job
  response : Response

/-- A statement that fails, or has nothing to do. -/
def Statement.skip (response : Response) : Statement := ⟨some, response⟩

/-! ### Claiming -/

def validateLease (leaseOwner : String) (leaseMilliseconds : ℤ) : Checked Unit := do
  failIf (!(decide (1 ≤ leaseOwner.utf8ByteSize) && decide (leaseOwner.utf8ByteSize ≤ 255)))
    (.invalidInput "lease owner must contain 1-255 bytes")
  failIf (decide (leaseMilliseconds ≤ 0)) (.invalidInput "lease duration must be positive")

variable (env : Env)

def Job.orderingKey (job : Job) : Option String := orderingKeyOf env job.arguments

/-- The text of a number that matches `^[0-9]+$`. -/
def digits (text : String) : Option ℕ :=
  if text.toList.isEmpty || !text.toList.all fun c => '0' ≤ c && c ≤ '9' then none
  else some (text.toList.foldl (fun n c => n * 10 + (c.toNat - 48)) 0)

def Job.predecessorId (job : Job) : Option ℕ :=
  (textOf env job.arguments orderingPredecessorField).bind digits

/-- The live predecessor that a row names. -/
def isPredecessor (job predecessor : Job) : Bool :=
  decide (job.predecessorId env = some predecessor.id) && predecessor.live &&
    (decide (predecessor.orderingKey env = none) ||
      decide (predecessor.orderingKey env = job.orderingKey env))

/-- An earlier live member of the ordering of a row. -/
def isEarlier (job earlier : Job) : Bool :=
  decide (earlier.kind = job.kind) && decide (earlier.id < job.id) && earlier.live &&
    (earlier.orderingKey env).isSome && decide (earlier.orderingKey env = job.orderingKey env)

def claimable (jobs : List Job) (lanes : List Lane) (now : ℤ) (job : Job) : Bool :=
  job.live && decide (job.runAt ≤ now) && !job.held now && lanes.contains job.lane &&
    !jobs.any (isPredecessor env job) && !jobs.any (isEarlier env job)

/-- `ORDER BY job.run_at, job.id`. -/
def claimOrder (a b : Job) : Prop := a.runAt < b.runAt ∨ a.runAt = b.runAt ∧ a.id ≤ b.id

instance : DecidableRel claimOrder := fun _ _ => inferInstanceAs (Decidable (_ ∨ _))

/-- The row to claim, where the rows that other sessions lock are skipped. -/
def candidate (jobs : List Job) (lanes : List Lane) (now : ℤ) (skipped : List ℕ) : Option Job :=
  ((jobs.filter fun job => claimable env jobs lanes now job && !skipped.contains job.id).insertionSort
    claimOrder).head?

def Job.claimed (job : Job) (leaseOwner : String) (now leaseMilliseconds : ℤ) : Job :=
  { job with
    attempts := if job.attempts < job.maxAttempts then job.attempts + 1 else job.attempts
    generation := job.generation + 1
    status := .leased leaseOwner (now + leaseMilliseconds * 1000) }

/-- `claimed_job`, on a row that has just been leased. -/
def claimedJob (job : Job) (leaseOwner : String) (leaseExpiresAt : ℤ) : ClaimedJob where
  id := job.id
  lane := job.lane
  kind := job.kind
  arguments := job.arguments
  logicalKey := job.logicalKey
  runAt := job.runAt
  attempt := job.attempts
  maxAttempts := job.maxAttempts
  generation := job.generation
  leaseOwner := leaseOwner
  leaseExpiresAt := leaseExpiresAt

def claim (jobs : List Job) (now : ℤ) (leaseOwner : String) (lanes : List Lane)
    (leaseMilliseconds : ℤ) (skipped : List ℕ) : Statement :=
  match validateLease leaseOwner leaseMilliseconds with
  | .error error => .skip (.failed error)
  | .ok () =>
    if lanes.isEmpty then
      .skip (.failed (.invalidInput "claim requires at least one lane"))
    else
      match candidate env jobs lanes now skipped with
      | none => .skip (.claimed none)
      | some found =>
        { effect := fun job =>
            some (if job.id = found.id then job.claimed leaseOwner now leaseMilliseconds else job)
          response := .claimed (some (claimedJob (found.claimed leaseOwner now leaseMilliseconds)
            leaseOwner (now + leaseMilliseconds * 1000))) }

/-! ### Statements under the lease fence -/

/-- What a worker proves its lease with. -/
structure Token where
  id : ℕ
  leaseOwner : String
  generation : ℕ
  deriving DecidableEq, Repr

def ClaimedJob.token (job : ClaimedJob) : Token := ⟨job.id, job.leaseOwner, job.generation⟩

/-- `id = $1 AND lease_owner = $2 AND lease_generation = $3 AND dead_at IS NULL
    AND lease_expires_at > clock_timestamp()`. -/
def Token.fences (token : Token) (now : ℤ) (job : Job) : Bool :=
  decide (job.id = token.id) && decide (job.leaseOwner = some token.leaseOwner) &&
    decide (job.generation = token.generation) && job.live && job.held now

/-- A statement on the row that a token fences; the answer depends on whether there is one. -/
def fenced (jobs : List Job) (now : ℤ) (token : Token) (effect : Job → Option Job)
    (response : Option Job → Response) : Statement where
  effect job := if token.fences now job then effect job else some job
  response := response (jobs.find? (token.fences now))

def renew (jobs : List Job) (now : ℤ) (id : ℕ) (leaseOwner : String) (generation : ℕ)
    (leaseMilliseconds : ℤ) : Statement :=
  match validateLease leaseOwner leaseMilliseconds with
  | .error error => .skip (.failed error)
  | .ok () =>
    fenced jobs now ⟨id, leaseOwner, generation⟩
      (fun job => some { job with status := .leased leaseOwner (now + leaseMilliseconds * 1000) })
      fun row => .flag row.isSome

/-- `||` on `jsonb`. -/
def concat : Value → Value → Value
  | .object fields, .object patch => .object (merge fields patch)
  | a, b => .array (items a ++ items b)
where
  items : Value → List Value
    | .array values => values
    | value => [value]

def patchError : JobError := .invalidInput "durable-job argument patches must be JSON objects"

def mergeJobArguments (jobs : List Job) (now : ℤ) (job : ClaimedJob) (patch : Value) : Statement :=
  if !patch.isObject then .skip (.failed patchError)
  else
    fenced jobs now job.token
      (fun row => some { row with arguments := concat row.arguments patch })
      fun row => .flag row.isSome

def initializeJobArguments (jobs : List Job) (now : ℤ) (job : ClaimedJob) (patch : Value) :
    Statement :=
  if !patch.isObject then .skip (.failed patchError)
  else
    fenced jobs now job.token
      (fun row => some { row with arguments := concat patch row.arguments })
      fun row => .arguments (row.map fun row => concat patch row.arguments)

def complete (jobs : List Job) (now : ℤ) (id : ℕ) (leaseOwner : String) (generation : ℕ) :
    Statement :=
  fenced jobs now ⟨id, leaseOwner, generation⟩ (fun _ => none) fun row => .flag row.isSome

def maxErrorBytes : ℕ := 4 * 1024

/-- The characters that fit into a number of bytes. -/
def boundedText : ℕ → Text → Text
  | _, [] => []
  | maxBytes, c :: rest =>
    if c.utf8Size ≤ maxBytes then c :: boundedText (maxBytes - c.utf8Size) rest else []

def bounded (value : String) (maxBytes : ℕ) : String :=
  String.ofList (boundedText maxBytes value.toList)

def Job.dead (job : Job) (now : ℤ) (error : String) : Job :=
  { job with status := .dead now, lastError := some (bounded error maxErrorBytes) }

def retry (jobs : List Job) (now : ℤ) (job : ClaimedJob) (runAt : ℤ) (error : String) : Statement :=
  if job.maxAttempts ≤ job.attempt then
    fenced jobs now job.token (fun row => some (row.dead now error))
      fun row => .retried (if row.isSome then .dead else .lost)
  else
    fenced jobs now job.token
      (fun row => some { row with
        status := .waiting, lastError := some (bounded error maxErrorBytes), runAt := runAt })
      fun row => .retried (if row.isSome then .scheduled else .lost)

def deadLetter (jobs : List Job) (now : ℤ) (job : ClaimedJob) (error : String) : Statement :=
  fenced jobs now job.token (fun row => some (row.dead now error)) fun row => .flag row.isSome

/-! ### Cancelling -/

/-- The rows that `cancel` deletes: `lease_owner IS NULL OR lease_expires_at <= now`. -/
def cancellable (now : ℤ) (kind logicalKey : String) (job : Job) : Bool :=
  decide (job.kind = kind) && decide (job.logicalKey = some logicalKey) && job.live &&
    (decide (job.leaseOwner = none) || !job.held now)

/-- The statement of `cancel` on the jobs. -/
def cancelJobs (jobs : List Job) (now : ℤ) (kind logicalKey : String) : Statement where
  effect job := if cancellable now kind logicalKey job then none else some job
  response := .count (jobs.countP (cancellable now kind logicalKey))

end Rustodon.Queue
