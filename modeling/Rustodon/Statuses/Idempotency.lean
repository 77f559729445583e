import Mathlib.Logic.Function.Basic
import Rustodon.Schemes.Tables
import Rustodon.Statuses.Creation

/-! @src mastodon/write_repository.rs | name:Status creation under idempotency keys | scheme:tables,runs |
    family:statuses

    `claim_idempotency`, `complete_status_idempotency` and the transaction around them, a statement at
    a time. A statement sees what has been committed before it, and waits for the rows that other
    transactions hold; a statement that waits is two steps. A commit either happens or fails. -/

namespace Rustodon.Statuses
open Ingest (WriteError Written)
open Schemes.Tables (Table)

/-! ### Transactions -/

/-- A row of `rustodon.idempotency_keys`. -/
structure KeyRow where
  fingerprint : List UInt8
  /-- `result ->> 'status_id'`. -/
  statusId : Option ℤ
  expiresAt : ℤ
  /-- The transaction that has inserted the row: no two versions of a row have the same. -/
  xmin : ℕ
  deriving DecidableEq

inductive Phase where
  | begun
  /-- `DELETE` has found an expired row at a reading of the clock, and waits for it. -/
  | deleting (row : KeyRow) (now : ℤ)
  | inserting
  /-- The key has been inserted. -/
  | claimed
  | writing (draft : Draft) (statusId : ℤ) (done rest : List StatusWrite)
  | selecting
  /-- `SELECT … FOR UPDATE` has found a row and waits for it. -/
  | locking (row : KeyRow)
  /-- The row is locked and has the fingerprint of the request. -/
  | replaying (row : KeyRow)
  deriving DecidableEq

structure Txn where
  id : ℕ
  request : IdempotencyKey
  /-- The row that it has deleted, and the reading of the clock that has found it expired. -/
  deleted : Option (KeyRow × ℤ)
  phase : Phase
  deriving DecidableEq

def Txn.slot (t : Txn) : Slot := t.request.slot

/-- It has inserted the key. -/
def Txn.claims (t : Txn) : Bool :=
  match t.phase with
  | .claimed | .writing .. => true
  | _ => false

/-- It holds the lock of the committed row of its key. -/
def Txn.locks (t : Txn) : Bool :=
  t.deleted.isSome ||
    match t.phase with
    | .replaying _ => true
    | _ => false

/-- The status that it has inserted. -/
def Txn.statusId (t : Txn) : Option ℤ :=
  match t.phase with
  | .writing _ statusId _ _ => some statusId
  | _ => none

/-! ### States -/

/-- A status that has been committed, with the time at which its key has been found expired, if it has
    been deleted. -/
structure Creation where
  request : IdempotencyKey
  draft : Draft
  statusId : ℤ
  removed : Option ℤ

structure Reply where
  request : IdempotencyKey
  outcome : Written ℤ
  deriving DecidableEq

structure State where
  keys : Slot → Option KeyRow
  writes : List StatusWrite
  txns : Table Txn.id
  nextTxn : ℕ
  creations : List Creation
  replies : List Reply

def State.empty : State := ⟨fun _ => none, [], ⟨[], List.nodup_nil⟩, 0, [], []⟩

/-- The committed statuses. -/
def State.statuses (s : State) : List ℤ := s.writes.filterMap StatusWrite.inserted

/-- Another transaction on the key of `t` has a property. -/
def State.other (s : State) (t : Txn) (p : Txn → Bool) : Bool :=
  s.txns.rows.any fun u => u.id != t.id && u.slot == t.slot && p u

def State.put (s : State) (t : Txn) (deleted : Option (KeyRow × ℤ)) (phase : Phase) : State :=
  { s with txns := s.txns.modify t.id (fun t => { t with deleted, phase }) fun _ => rfl }

/-- A transaction ends and its request is answered. -/
def State.finish (s : State) (t : Txn) (outcome : Written ℤ) : State :=
  { s with txns := s.txns.erase t.id, replies := s.replies ++ [⟨t.request, outcome⟩] }

/-- The result that the writes leave in the key. -/
def resultOf (writes : List StatusWrite) : Option ℤ := (writes.filterMap StatusWrite.completed).getLast?

def Creation.removeBy (t : Txn) (creation : Creation) : Creation :=
  if creation.request.slot = t.slot ∧ creation.removed = none then
    { creation with removed := t.deleted.map Prod.snd }
  else creation

/-- A transaction that has inserted its key and a status commits. -/
def State.commitCreation (s : State) (t : Txn) (draft : Draft) (statusId : ℤ) (done : List StatusWrite) :
    State :=
  { s with
    keys := Function.update s.keys t.slot
      (some ⟨t.request.fingerprint, resultOf done, t.request.expiresAt, t.id⟩)
    writes := s.writes ++ done
    creations := s.creations.map (Creation.removeBy t) ++ [⟨t.request, draft, statusId, none⟩] }

/-! ### Steps -/

inductive Action where
  | start (request : IdempotencyKey) (now : ℤ)
  | deleteScan (id : ℕ) (now : ℤ)
  /-- The clock is read again when the statement has waited. -/
  | deleteRow (id : ℕ) (recheck : Option ℤ)
  | insert (id : ℕ)
  | selectScan (id : ℕ)
  | selectRow (id : ℕ)
  | replay (id : ℕ)
  | insertStatus (id : ℕ) (draft : Draft) (statusId : ℤ)
  | write (id : ℕ)
  | commit (id : ℕ)
  /-- Any failure of a check or of the connection. -/
  | fail (id : ℕ) (error : WriteError)

def State.start (s : State) (request : IdempotencyKey) (now : ℤ) : Option State :=
  match validateIdempotency request now with
  | .error error => some { s with replies := s.replies ++ [⟨request, .error error⟩] }
  | .ok () =>
    (s.txns.insert ⟨s.nextTxn, request, none, .begun⟩).map fun txns =>
      { s with txns, nextTxn := s.nextTxn + 1 }

/-- `DELETE … WHERE expires_at <= clock_timestamp()` reads the rows. -/
def State.deleteScan (s : State) (t : Txn) (now : ℤ) : Option State :=
  match t.phase with
  | .begun =>
    match s.keys t.slot with
    | some row =>
      some (s.put t t.deleted (if row.expiresAt ≤ now then .deleting row now else .inserting))
    | none => some (s.put t t.deleted .inserting)
  | _ => none

/-- `DELETE` locks the row that it has found, if it is still there, and deletes it. -/
def State.deleteRow (s : State) (t : Txn) (recheck : Option ℤ) : Option State :=
  match t.phase with
  | .deleting row now =>
    if s.other t Txn.locks then none
    else if s.keys t.slot = some row ∧ row.expiresAt ≤ recheck.getD now then
      some (s.put t (some (row, recheck.getD now)) .inserting)
    else some (s.put t t.deleted .inserting)
  | _ => none

/-- `INSERT … ON CONFLICT DO NOTHING` waits for those that insert or delete the key. -/
def State.insert (s : State) (t : Txn) : Option State :=
  match t.phase with
  | .inserting =>
    if s.other t (fun u => u.claims || u.deleted.isSome) then none
    else if t.deleted.isSome ∨ s.keys t.slot = none then some (s.put t t.deleted .claimed)
    else some (s.put t t.deleted .selecting)
  | _ => none

def State.selectScan (s : State) (t : Txn) : Option State :=
  match t.phase with
  | .selecting =>
    match s.keys t.slot with
    | some row => some (s.put t t.deleted (.locking row))
    | none => some (s.finish t (.error .conflict))
  | _ => none

/-- `SELECT … FOR UPDATE` skips a row that has been deleted while it waited. -/
def State.selectRow (s : State) (t : Txn) : Option State :=
  match t.phase with
  | .locking row =>
    if s.other t Txn.locks then none
    else if s.keys t.slot ≠ some row then some (s.finish t (.error .conflict))
    else if row.fingerprint ≠ t.request.fingerprint then some (s.finish t (.error .conflict))
    else some (s.put t t.deleted (.replaying row))
  | _ => none

/-- The result is read from the row, which a statement finds anew. -/
def State.replay (s : State) (t : Txn) : Option State :=
  match t.phase with
  | .replaying _ =>
    match (s.keys t.slot).bind KeyRow.statusId with
    | some statusId => some (s.finish t (.ok statusId))
    | none => some (s.finish t (.error .conflict))
  | _ => none

/-- A status has an id that no other has. -/
def State.insertStatus (s : State) (t : Txn) (draft : Draft) (statusId : ℤ) : Option State :=
  match t.phase with
  | .claimed =>
    if statusId ∈ s.statuses ∨ s.txns.rows.any (fun u => u.statusId == some statusId) then none
    else some (s.put t t.deleted
      (.writing draft statusId [.insertStatus statusId] (statusWrites draft statusId).tail))
  | _ => none

def State.write (s : State) (t : Txn) : Option State :=
  match t.phase with
  | .writing draft statusId done (write :: rest) =>
    some (s.put t t.deleted (.writing draft statusId (done ++ [write]) rest))
  | _ => none

def State.commit (s : State) (t : Txn) : Option State :=
  match t.phase with
  | .writing draft statusId done [] =>
    some ((s.commitCreation t draft statusId done).finish t (.ok statusId))
  | _ => none

def State.step (s : State) : Action → Option State
  | .start request now => s.start request now
  | .deleteScan id now => (s.txns.get id).bind fun t => s.deleteScan t now
  | .deleteRow id recheck => (s.txns.get id).bind fun t => s.deleteRow t recheck
  | .insert id => (s.txns.get id).bind s.insert
  | .selectScan id => (s.txns.get id).bind s.selectScan
  | .selectRow id => (s.txns.get id).bind s.selectRow
  | .replay id => (s.txns.get id).bind s.replay
  | .insertStatus id draft statusId => (s.txns.get id).bind fun t => s.insertStatus t draft statusId
  | .write id => (s.txns.get id).bind s.write
  | .commit id => (s.txns.get id).bind s.commit
  | .fail id error => (s.txns.get id).map fun t => s.finish t (.error error)

end Rustodon.Statuses
