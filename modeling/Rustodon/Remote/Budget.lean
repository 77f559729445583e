import Mathlib.Logic.Function.Basic
import Rustodon.Remote.Url

/-! @src remote.rs | name:Host budgets | scheme:semaphores and leases | family:remote

    `RemoteDomainBudget` lets a number of operations run for each host. Without a database it counts
    with semaphores in a map, from which idle ones are taken when it is full; with a database, by
    leases, which a transaction counts and inserts under an advisory lock of the host. -/

namespace Rustodon.Remote
open Schemes.Utf8

/-- The cap of a budget, as `new` and `with_operational_pool` take it. -/
def capOf (maxInFlight : ℕ) : ℕ := max maxInFlight 1

def maxRemoteDomainBuckets : ℕ := 4096

/-- The host that a URL is counted for. -/
def budgetHost (url : Url) : Fetched Text := do
  let host := toAsciiLowercase (← canonicalRemoteHostFromOrigin url)
  if byteLen host > 255 then .error .invalidUrl else .ok host

/-! ### Semaphores -/

namespace Local

/-- A permit that has not been dropped, with the semaphore that it returns to. -/
structure Permit where
  host : Text
  semaphore : ℕ
  deriving DecidableEq, Repr

/-- `available` has the permits of a semaphore, also when the map has it no more. -/
structure State where
  semaphores : List (Text × ℕ)
  available : ℕ → ℕ
  permits : List Permit
  created : ℕ

def initial : State where
  semaphores := []
  available _ := 0
  permits := []
  created := 0

variable (cap : ℕ) (s : State)

/-- The operations that run for a host. -/
def State.running (host : Text) : ℕ := s.permits.countP fun permit => decide (permit.host = host)

/-- `try_acquire_owned`. -/
def State.tryAcquireOwned (host : Text) (semaphore : ℕ) : State × Fetched Permit :=
  if s.available semaphore = 0 then (s, .error .domainBudgetExceeded)
  else
    ({ s with
      available := Function.update s.available semaphore (s.available semaphore - 1)
      permits := ⟨host, semaphore⟩ :: s.permits }, .ok ⟨host, semaphore⟩)

def State.insert (host : Text) : State :=
  { s with
    semaphores := (host, s.created) :: s.semaphores
    available := Function.update s.available s.created cap
    created := s.created + 1 }

def State.isIdle (entry : Text × ℕ) : Bool := decide (s.available entry.2 = cap)

/-- Which of the idle entries is found is left to the order of the map; no other can be. The lock of
    the map is held from the first line to the last. -/
def State.acquireLocal (host : Text) (idle : Text × ℕ) : Option (State × Fetched Permit) :=
  match s.semaphores.find? fun entry => decide (entry.1 = host) with
  | some (_, semaphore) => some (s.tryAcquireOwned host semaphore)
  | none =>
    if maxRemoteDomainBuckets ≤ s.semaphores.length then
      if s.semaphores.any (s.isIdle cap) = true then
        if idle ∈ s.semaphores ∧ s.isIdle cap idle = true then
          let evicted := { s with semaphores := s.semaphores.erase idle }
          some ((evicted.insert cap host).tryAcquireOwned host s.created)
        else none
      else some (s, .error .domainBudgetExceeded)
    else some ((s.insert cap host).tryAcquireOwned host s.created)

/-- A permit is released or dropped, without the lock of the map. -/
def State.drop (permit : Permit) : Option State :=
  if permit ∈ s.permits then
    some { s with
      available := Function.update s.available permit.semaphore (s.available permit.semaphore + 1)
      permits := s.permits.erase permit }
  else none

inductive Op where
  | acquire (host : Text) (idle : Text × ℕ)
  | drop (permit : Permit)
  deriving DecidableEq, Repr

def next (s : State) : Op → Option State
  | .acquire host idle => (s.acquireLocal cap host idle).map Prod.fst
  | .drop permit => s.drop permit

def Step (s : State) (op : Op) (s' : State) : Prop := next cap s op = some s'

end Local

/-! ### Leases -/

namespace Shared

abbrev Task := ℕ

/-- `REMOTE_DOMAIN_LEASE_TTL`, in microseconds like all times here. -/
def leaseTtl : ℤ := 75 * 1000000

structure Lease where
  host : Text
  leaseId : ℕ
  expiresAt : ℤ
  deriving DecidableEq, Repr

/-- What a task of `with_domain_permit` has done last. -/
inductive Stage where
  | idle
  | begun (host : Text)
  | locked (host : Text)
  | purged (host : Text)
  | counted (host : Text) (active : ℕ)
  | inserted (lease : Lease) (insertedAt : ℤ)
  | running (lease : Lease) (insertedAt since : ℤ)
  | finished (lease : Lease)
  deriving DecidableEq, Repr

/-- `left` keeps the leases whose task has ended without releasing them. -/
structure State where
  clock : ℤ
  leases : List Lease
  issued : ℕ
  locks : ℤ → Option Task
  stages : Task → Stage
  left : List ℕ

def initial (clock : ℤ) : State where
  clock := clock
  leases := []
  issued := 0
  locks _ := none
  stages _ := .idle
  left := []

inductive Op where
  | tick (clock : ℤ)
  | begin (t : Task) (host : Text)
  | lock (t : Task)
  | purge (t : Task)
  | count (t : Task)
  | refuse (t : Task)
  | insert (t : Task)
  | commit (t : Task)
  | commitLost (t : Task)
  | abort (t : Task)
  | finish (t : Task)
  | release (t : Task)
  | abandon (t : Task)
  deriving DecidableEq, Repr

namespace State

variable (cap : ℕ) (hashtext : Text → ℤ) (s : State) (t : Task)

def setStage (stage : Stage) : State := { s with stages := Function.update s.stages t stage }

/-- Ends the transaction. -/
def unlock : State := { s with locks := fun key => if s.locks key = some t then none else s.locks key }

/-- `pg_advisory_xact_lock`, which waits for the lock. -/
def lock : Option State :=
  match s.stages t with
  | .begun host =>
    if s.locks (hashtext host) = none then
      some ({ s with locks := Function.update s.locks (hashtext host) (some t) }.setStage t
        (.locked host))
    else none
  | _ => none

def purge : Option State :=
  match s.stages t with
  | .locked host =>
    let kept := s.leases.filter fun row => !decide (row.host = host ∧ row.expiresAt ≤ s.clock)
    some ({ s with leases := kept }.setStage t (.purged host))
  | _ => none

def active (host : Text) : List Lease :=
  s.leases.filter fun lease => decide (lease.host = host ∧ s.clock < lease.expiresAt)

def count : Option State :=
  match s.stages t with
  | .purged host => some (s.setStage t (.counted host (s.active host).length))
  | _ => none

/-- The transaction is committed in vain. -/
def refuse : Option State :=
  match s.stages t with
  | .counted _ active => if cap ≤ active then some ((s.unlock t).setStage t .idle) else none
  | _ => none

/-- The lease has an id that no lease has had before. It is not seen until the commit. -/
def insert : Option State :=
  match s.stages t with
  | .counted host active =>
    if active < cap then
      some ({ s with issued := s.issued + 1 }.setStage t
        (.inserted ⟨host, s.issued, s.clock + leaseTtl⟩ s.clock))
    else none
  | _ => none

/-- The operation begins to run. -/
def commit : Option State :=
  match s.stages t with
  | .inserted lease insertedAt =>
    some (({ s with leases := lease :: s.leases }.unlock t).setStage t
      (.running lease insertedAt s.clock))
  | _ => none

/-- The commit has succeeded, but the task has not been told, or is gone. -/
def commitLost : Option State :=
  match s.stages t with
  | .inserted lease _ =>
    some (({ s with leases := lease :: s.leases, left := lease.leaseId :: s.left }.unlock t).setStage t
      .idle)
  | _ => none

/-- A statement fails, or the task is gone, before the commit. -/
def abort : Option State :=
  match s.stages t with
  | .begun _ | .locked _ | .purged _ | .counted _ _ | .inserted _ _ =>
    some ((s.unlock t).setStage t .idle)
  | _ => none

/-- The operation has ended or has been dropped. -/
def finish : Option State :=
  match s.stages t with
  | .running lease _ _ => some (s.setStage t (.finished lease))
  | _ => none

/-- `release_remote_domain_lease`, at once or in a task that the drop has spawned. -/
def release : Option State :=
  match s.stages t with
  | .finished lease =>
    let kept := s.leases.filter fun row =>
      !decide (row.host = lease.host ∧ row.leaseId = lease.leaseId)
    some ({ s with leases := kept }.setStage t .idle)
  | _ => none

/-- The release has failed, or the process is gone. -/
def abandon : Option State :=
  match s.stages t with
  | .running lease _ _ | .finished lease =>
    some ({ s with left := lease.leaseId :: s.left }.setStage t .idle)
  | _ => none

end State

def next (cap : ℕ) (hashtext : Text → ℤ) (s : State) : Op → Option State
  | .tick clock => some { s with clock := clock }
  | .begin t host => if s.stages t = .idle then some (s.setStage t (.begun host)) else none
  | .lock t => s.lock hashtext t
  | .purge t => s.purge t
  | .count t => s.count t
  | .refuse t => s.refuse cap t
  | .insert t => s.insert cap t
  | .commit t => s.commit t
  | .commitLost t => s.commitLost t
  | .abort t => s.abort t
  | .finish t => s.finish t
  | .release t => s.release t
  | .abandon t => s.abandon t

def Step (cap : ℕ) (hashtext : Text → ℤ) (s : State) (op : Op) (s' : State) : Prop :=
  next cap hashtext s op = some s'

/-- Every operation ends within the timeout of its permit. -/
def Timely (timeout : ℤ) (s : State) : Prop :=
  ∀ t lease insertedAt since, s.stages t = .running lease insertedAt since →
    s.clock ≤ since + timeout

/-- Every permit is handed out soon enough after its lease has been written. -/
def Prompt (delay : ℤ) (s : State) : Prop :=
  ∀ t lease insertedAt since, s.stages t = .running lease insertedAt since →
    since < insertedAt + delay

end Shared

end Rustodon.Remote
