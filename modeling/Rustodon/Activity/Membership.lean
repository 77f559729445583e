import Mathlib.Data.List.Basic
import Mathlib.Data.List.Sort
import Mathlib.Logic.Function.Basic
import Rustodon.Schemes.Runs

/-! @src activity.rs | name:Daily activity | scheme:row locks | family:activity

    Each day has a bucket with an expiry and the members that have been active. A recording and a
    pruning are statements of transactions, which interleave; whoever writes a day holds the lock of
    its bucket until it commits. The clock is read by the statements that need it. -/

namespace Rustodon.Activity
open Schemes.Runs

/-- A date, counted from the epoch. -/
abbrev Day := ℤ

abbrev TxnId := ℕ

/-- `RETENTION_SECONDS`, in microseconds like all times here. -/
def retention : ℤ := 15778476 * 1000000

/-- `date_naive()`. -/
def dateOf (now : ℤ) : Day := now / 86400000000

/-- The rows of a day: the expiry of its bucket, and its members in order. -/
structure Rows where
  expiresAt : Option ℤ
  members : List ℤ
  deriving DecidableEq, Repr

/-- What a call of `record_member_in` has found and written. -/
structure Record where
  user : ℤ
  created : Bool
  previousExpiry : ℤ
  writeTime : ℤ
  deriving DecidableEq, Repr

/-- The bucket has been created, or renewed from an expired state. -/
def Record.fresh (r : Record) : Bool := r.created || decide (r.previousExpiry ≤ r.writeTime)

/-- The transaction that holds a bucket, what it has made of the day, and its recordings. -/
structure Lock where
  holder : TxnId
  written : Rows
  recorded : List Record
  deriving DecidableEq, Repr

/-- The next statement of `record_member_in`. -/
inductive Progress where
  | insert
  | select
  | write (previousExpiry : ℤ)
  deriving DecidableEq, Repr

/-- A pruning has selected some days at a reading of the clock; some of them remain. -/
inductive Stage where
  | idle
  | running
  | recording (user now : ℤ) (created : Bool) (progress : Progress)
  | pruning (selectedAt : ℤ) (selected days : List Day) (remaining : ℕ)
  deriving DecidableEq, Repr

structure State where
  clock : ℤ
  rows : Day → Rows
  locks : Day → Option Lock
  stages : TxnId → Stage
  history : Day → List Record

def initial (clock : ℤ) : State where
  clock := clock
  rows _ := ⟨none, []⟩
  locks _ := none
  stages _ := .idle
  history _ := []

inductive Op where
  | begin (tx : TxnId)
  | record (tx : TxnId) (user now : ℤ)
  | insertBucket (tx : TxnId)
  | selectBucket (tx : TxnId)
  | writeMember (tx : TxnId) (clock : ℤ)
  | selectDays (tx : TxnId) (clock : ℤ) (days : List Day)
  | pruneDay (tx : TxnId) (clock : ℤ)
  | commit (tx : TxnId)
  | abort (tx : TxnId)
  deriving DecidableEq, Repr

/-- What `clock_timestamp()` returns in a statement. -/
def Op.reading : Op → Option ℤ
  | .writeMember _ clock | .selectDays _ clock _ | .pruneDay _ clock => some clock
  | _ => none

namespace State

variable (s : State) (tx : TxnId) (d : Day)

def lockOf : Option Lock := (s.locks d).filter fun lock => decide (lock.holder = tx)

/-- Another transaction holds the bucket. -/
def blocked : Bool := (s.locks d).any fun lock => decide (lock.holder ≠ tx)

/-- The rows that a statement of the transaction sees once it has the lock. -/
def rowsFor : Rows := (s.lockOf tx d).elim (s.rows d) Lock.written

def recordedFor : List Record := (s.lockOf tx d).elim [] Lock.recorded

def setStage (stage : Stage) : State := { s with stages := Function.update s.stages tx stage }

def hold (written : Rows) (recorded : List Record) : State :=
  { s with locks := Function.update s.locks d (some ⟨tx, written, recorded⟩) }

/-- Releases what the transaction holds, and publishes it. -/
def publish : State :=
  { s with
    rows := fun d => s.rowsFor tx d
    history := fun d => s.history d ++ s.recordedFor tx d
    locks := fun d => if (s.lockOf tx d).isSome then none else s.locks d }

def discard : State :=
  { s with locks := fun d => if (s.lockOf tx d).isSome then none else s.locks d }

/-- `ON CONFLICT DO NOTHING`. -/
def addMember (user : ℤ) (members : List ℤ) : List ℤ :=
  if user ∈ members then members else members.orderedInsert (· ≤ ·) user

/-- The first statement of the loop, which waits for a bucket that is being inserted. -/
def insertBucket : Option State :=
  match s.stages tx with
  | .recording user now created .insert =>
    if (s.rowsFor tx (dateOf now)).expiresAt.isSome then
      some (s.setStage tx (.recording user now created .select))
    else if s.blocked tx (dateOf now) then none
    else
      let written := { s.rowsFor tx (dateOf now) with expiresAt := some (now + retention) }
      some ((s.hold tx (dateOf now) written (s.recordedFor tx (dateOf now))).setStage tx
        (.recording user now true .select))
  | _ => none

/-- `FOR UPDATE` waits for the lock; without a bucket the loop starts again. -/
def selectBucket : Option State :=
  match s.stages tx with
  | .recording user now created .select =>
    if s.blocked tx (dateOf now) then none
    else
      match (s.rowsFor tx (dateOf now)).expiresAt with
      | none => some (s.setStage tx (.recording user now created .insert))
      | some expiry =>
        some ((s.hold tx (dateOf now) (s.rowsFor tx (dateOf now))
          (s.recordedFor tx (dateOf now))).setStage tx (.recording user now created (.write expiry)))
  | _ => none

/-- The statements behind the loop, under the lock. -/
def writeMember (clock : ℤ) : Option State :=
  match s.stages tx with
  | .recording user now created (.write previousExpiry) =>
    let members := (s.rowsFor tx (dateOf now)).members
    let kept := if previousExpiry ≤ clock then [] else members
    let written := ⟨some (clock + retention), addMember user kept⟩
    let recorded := s.recordedFor tx (dateOf now) ++ [⟨user, created, previousExpiry, clock⟩]
    some (({ s with clock := clock }.hold tx (dateOf now) written recorded).setStage tx .running)
  | _ => none

/-- The first statement of `prune_inner`. It takes the days that expire first; which of the expired
    days those are is left open. Locked rows are skipped. -/
def selectDays (clock : ℤ) (days : List Day) : Option State :=
  if s.stages tx = .idle ∧ days.Nodup ∧ days.length ≤ 100 ∧
      ∀ d ∈ days, s.locks d = none ∧ (s.rows d).expiresAt.any (fun e => decide (e ≤ clock)) = true then
    some ({ s with
      clock := clock
      locks := fun d => if d ∈ days then some ⟨tx, s.rows d, []⟩ else s.locks d }.setStage tx
        (.pruning clock days days 1000))
  else none

/-- What is left of a day's rows by the two statements of a pruning. -/
def pruned (rows : Rows) (remaining : ℕ) (clock : ℤ) : Rows :=
  let members := rows.members.drop remaining
  if members = [] ∧ rows.expiresAt.any (fun e => decide (e ≤ clock)) = true then ⟨none, members⟩
  else ⟨rows.expiresAt, members⟩

def pruneDay (clock : ℤ) : Option State :=
  match s.stages tx with
  | .pruning selectedAt selected (d :: days) remaining =>
    let rows := s.rowsFor tx d
    let removed := (rows.members.take remaining).length
    let remaining' := remaining - removed
    some (({ s with clock := clock }.hold tx d (pruned rows remaining clock)
      (s.recordedFor tx d)).setStage tx
        (.pruning selectedAt selected (if remaining' = 0 then [] else days) remaining'))
  | _ => none

def commit : Option State :=
  match s.stages tx with
  | .running | .pruning _ _ [] _ => some ((s.publish tx).setStage tx .idle)
  | _ => none

def abort : Option State :=
  if s.stages tx = .idle then none else some ((s.discard tx).setStage tx .idle)

end State

def next (s : State) : Op → Option State
  | .begin tx => if s.stages tx = .idle then some (s.setStage tx .running) else none
  | .record tx user now =>
    if s.stages tx = .running then some (s.setStage tx (.recording user now false .insert)) else none
  | .insertBucket tx => s.insertBucket tx
  | .selectBucket tx => s.selectBucket tx
  | .writeMember tx clock => s.writeMember tx clock
  | .selectDays tx clock days => s.selectDays tx clock days
  | .pruneDay tx clock => s.pruneDay tx clock
  | .commit tx => s.commit tx
  | .abort tx => s.abort tx

def Step (s : State) (op : Op) (s' : State) : Prop := next s op = some s'

/-- A step whose reading of the clock does not go back. -/
def InOrder (s : State) (op : Op) (s' : State) : Prop :=
  (∀ t, op.reading = some t → s.clock ≤ t) ∧ next s op = some s'

/-- The users since the bucket has last been created or renewed from an expired state. -/
def usersSince (history : List Record) : List ℤ :=
  history.foldl (fun users r => if r.fresh then [r.user] else r.user :: users) []

end Rustodon.Activity
