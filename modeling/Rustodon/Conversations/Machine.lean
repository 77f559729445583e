import Mathlib.Logic.Function.Basic
import Rustodon.Conversations.Rows
import Rustodon.Schemes.Tables
import Rustodon.Schemes.Versions

/-! @src mastodon/write_repository.rs, worker.rs | name:Transactions on direct conversations |
    scheme:tables,versions | family:conversations

    Status creation, notifications, the unfilter job, read and unread, the removal of a conversation and
    the deletion of statuses, a statement at a time. A statement reads what has been committed, and waits
    for the rows of `account_conversations` that another transaction holds. Locks of statuses, and what
    the transactions do to other tables, are left out. -/

namespace Rustodon.Conversations
open Schemes.Tables (Table)
open Schemes.Versions (Cell)

/-- A notification of a mention. -/
structure Notification where
  accountId : ℤ
  fromAccountId : ℤ
  statusId : ℤ
  filtered : Bool
  deriving DecidableEq

/-- What a transaction has to do next. -/
inductive Work where
  /-- A local direct status has been inserted. -/
  | composed
  /-- A notification that is not filtered has been inserted. -/
  | notified (statusId : ℤ)
  | unfiltering (fromAccountId : ℤ)
  /-- Rows are to be upserted, and then notifications of a sender to be unfiltered. -/
  | upserting (rows : List Direct) (next : Option ℤ)
  /-- Statuses have been marked as deleted. -/
  | marked (ids : List ℤ)
  /-- `SELECT … FOR UPDATE` has found rows after so many commits; those that are to be locked, and those
      that are locked, with the arrays that have been read. -/
  | scanned (ids : List ℤ) (after : ℕ) (toLock : List ConversationKey)
      (locked : List (ConversationKey × List ℤ))
  /-- A row has been read; `given` says that the lock version comes from the caller. -/
  | read (key : ConversationKey) (rowId : ℕ) (statusIds : List ℤ) (expected : ℕ) (given : Bool)
  /-- The last of the statuses is there. -/
  | checked (key : ConversationKey) (rowId : ℕ) (statusIds : List ℤ) (expected : ℕ) (given : Bool)
      (last : ℤ)
  | removing (key : ConversationKey) (rowId : ℕ) (expected : ℕ)
  | removed (key : ConversationKey)
  | done
  deriving DecidableEq

structure Txn where
  id : ℕ
  /-- The account whose conversations it is about. -/
  account : ℤ
  /-- It holds the advisory lock of the account. -/
  advisory : Bool
  /-- The status that it has inserted. -/
  status : Option Status
  /-- The notification that it has inserted. -/
  notification : Option Notification
  /-- The notifications that it has unfiltered. -/
  unfiltered : List Notification
  /-- The statuses that it has read as live, for conversations. -/
  read : List ℤ
  /-- The statuses that it delivers to the account. -/
  delivers : List ℤ
  work : Work
  deriving DecidableEq

def Txn.deletes (t : Txn) : List ℤ :=
  match t.work with
  | .scanned ids _ _ _ => ids
  | _ => []

def Txn.removes (t : Txn) : Option ConversationKey :=
  match t.work with
  | .removed key => some key
  | _ => none

structure State where
  status : ℤ → Option Status
  cell : ConversationKey → Cell (Option AccountConversation)
  /-- The keys that have had rows. -/
  keys : List ConversationKey
  nextRow : ℕ
  commits : ℕ
  notifications : List Notification
  txns : Table Txn.id
  nextTxn : ℕ
  /-- The statuses that have been delivered to accounts that have not removed their conversations since. -/
  delivered : List (ℤ × ℤ)

def State.empty : State :=
  { status := fun _ => none
    cell := fun _ => ⟨none, none, none, 0⟩
    keys := []
    nextRow := 0
    commits := 0
    notifications := []
    txns := ⟨[], List.nodup_nil⟩
    nextTxn := 0
    delivered := [] }

/-! ### Transactions -/

def State.begin (s : State) (t : Txn) : Option State :=
  (s.txns.insert { t with id := s.nextTxn }).map fun txns => { s with txns, nextTxn := s.nextTxn + 1 }

def State.put (s : State) (t : Txn) : State :=
  { s with txns := s.txns.modify t.id (fun u => { t with id := u.id }) fun _ => rfl }

/-- Changes the row of a key. -/
def State.setCell (s : State) (key : ConversationKey) (cell : Cell (Option AccountConversation)) : State :=
  { s with cell := Function.update s.cell key cell }

/-- The status that a transaction finds under an id. -/
def State.statusFor (s : State) (t : Txn) (id : ℤ) : Option Status :=
  (s.status id).or (t.status.filter fun status => status.id = id)

def Status.mark (ids : List ℤ) (status : Status) : Status :=
  if status.id ∈ ids then { status with deleted := true } else status

def Notification.unfilter (unfiltered : List Notification) (notification : Notification) : Notification :=
  if notification ∈ unfiltered then { notification with filtered := false } else notification

/-- The delivery is of a conversation. -/
def State.inConversation (s : State) (key : Option ConversationKey) (delivery : ℤ × ℤ) : Bool :=
  match key with
  | some key => (s.status delivery.2).bind (Status.key · delivery.1) == some key
  | none => false

def State.applied (s : State) (t : Txn) : State :=
  { s with
    status := fun id => (s.statusFor t id).map (Status.mark t.deletes)
    cell := fun key => (s.cell key).commit t.id (s.commits + 1)
    commits := s.commits + 1
    notifications := s.notifications.map (Notification.unfilter t.unfiltered) ++ t.notification.toList
    txns := s.txns.erase t.id
    delivered := (s.delivered.filter fun delivery => !s.inConversation t.removes delivery) ++
      t.delivers.map fun id => (t.account, id) }

def State.aborted (s : State) (t : Txn) : State :=
  { s with cell := fun key => (s.cell key).abort t.id, txns := s.txns.erase t.id }

/-! ### Steps -/

inductive Action where
  | createStatus (status : Status)
  /-- A notification of a mention, or of something else that has a status. -/
  | notify (account statusId : ℤ) (mention filtered : Bool)
  | unfilter (account fromAccountId : ℤ)
  /-- The rows that are to be upserted are read. -/
  | index (id : ℕ)
  | write (id : ℕ)
  | unfilterRows (id : ℕ)
  | deleteStatuses (ids : List ℤ)
  | scan (id : ℕ)
  | lockRow (id : ℕ) (key : ConversationKey)
  | rewriteRow (id : ℕ)
  | readUnread (key : ConversationKey) (expected : Option ℕ)
  | checkLast (id : ℕ)
  | updateUnread (id : ℕ) (unread : Bool)
  | readRemoval (key : ConversationKey)
  | removeRow (id : ℕ)
  | commit (id : ℕ)
  | fail (id : ℕ)

/-- Nobody holds the advisory lock of an account. -/
def State.unlocked (s : State) (account : ℤ) : Bool :=
  s.txns.rows.all fun t => !(t.advisory && t.account == account)

def State.createStatus (s : State) (status : Status) : Option State :=
  if (s.status status.id).isSome || s.txns.rows.any (fun t => t.status.any fun other => other.id == status.id) ||
      status.deleted then none
  else
    s.begin
      { id := 0, account := status.accountId, advisory := false, status := some status, notification := none
        unfiltered := [], read := [], delivers := []
        work := if status.isLocal ∧ status.visibility = 3 then .composed else .done }

def State.notify (s : State) (account statusId : ℤ) (mention filtered : Bool) : Option State :=
  if !s.unlocked account then none
  else if mention then
    match s.status statusId with
    | some status =>
      if status.deleted ∨ s.notifications.any (fun n => n.accountId == account && n.statusId == statusId) then
        none
      else
        s.begin
          { id := 0, account, advisory := true, status := none
            notification := some ⟨account, status.accountId, statusId, filtered⟩
            unfiltered := [], read := [], delivers := []
            work := if filtered then .done else .notified statusId }
    | none => none
  else
    s.begin
      { id := 0, account, advisory := true, status := none, notification := none, unfiltered := [], read := []
        delivers := [], work := if filtered then .done else .notified statusId }

def State.unfilter (s : State) (account fromAccountId : ℤ) : Option State :=
  if s.unlocked account then
    s.begin
      { id := 0, account, advisory := true, status := none, notification := none, unfiltered := [], read := []
        delivers := [], work := .unfiltering fromAccountId }
  else none

/-- The filtered notifications of an account from a sender. -/
def State.filteredFrom (s : State) (account fromAccountId : ℤ) : List Notification :=
  s.notifications.filter fun n => n.accountId == account && n.fromAccountId == fromAccountId && n.filtered

def State.index (s : State) (t : Txn) : Option State :=
  match t.work with
  | .composed =>
    match t.status with
    | some status =>
      some (s.put { t with
        read := [status.id], delivers := [status.id]
        work := .upserting (status.direct t.account) none })
    | none => none
  | .notified statusId =>
    let rows := ((s.status statusId).map fun status => status.direct t.account).getD []
    some (s.put { t with
      read := rows.flatMap Direct.statusIds
      delivers := t.notification.toList.map Notification.statusId
      work := .upserting rows none })
  | .unfiltering fromAccountId =>
    let statuses := (s.filteredFrom t.account fromAccountId).filterMap fun n =>
      (s.status n.statusId).filter fun status => !status.deleted
    some (s.put { t with
      read := statuses.map Status.id
      work := .upserting (grouped t.account statuses) (some fromAccountId) })
  | _ => none

def State.write (s : State) (t : Txn) : Option State :=
  match t.work with
  | .upserting (row :: rows) next =>
    if (s.cell row.key).free t.id then
      let cell := s.cell row.key
      some { (s.setCell row.key (cell.write t.id (some (upsert cell.current row s.nextRow)))).put
          { t with work := .upserting rows next } with
        keys := row.key :: s.keys
        nextRow := s.nextRow + 1 }
    else none
  | _ => none

def State.unfilterRows (s : State) (t : Txn) : Option State :=
  match t.work with
  | .upserting [] (some fromAccountId) =>
    let unfiltered := s.filteredFrom t.account fromAccountId
    some (s.put { t with
      unfiltered, delivers := unfiltered.map Notification.statusId, work := .upserting [] none })
  | _ => none

def State.deleteStatuses (s : State) (ids : List ℤ) : Option State :=
  s.begin
    { id := 0, account := 0, advisory := false, status := none, notification := none, unfiltered := []
      read := [], delivers := [], work := .marked ids }

/-- The rows that have one of some statuses. -/
def State.keysWith (s : State) (ids : List ℤ) : List ConversationKey :=
  s.keys.filter fun key => (statusIdsOf (s.cell key).committed).any (· ∈ ids)

def State.scan (s : State) (t : Txn) : Option State :=
  match t.work with
  | .marked ids => some (s.put { t with work := .scanned ids s.commits (s.keysWith ids) [] })
  | _ => none

/-- A row that has been found is locked, if it still has one of the statuses. -/
def State.lockRow (s : State) (t : Txn) (key : ConversationKey) : Option State :=
  match t.work with
  | .scanned ids after toLock locked =>
    if key ∈ toLock ∧ (s.cell key).free t.id then
      let rest := toLock.filter (· ≠ key)
      let read := statusIdsOf (s.cell key).current
      if read.any (· ∈ ids) then
        some ((s.setCell key ((s.cell key).lock t.id)).put
          { t with work := .scanned ids after rest (locked ++ [(key, read)]) })
      else some (s.put { t with work := .scanned ids after rest locked })
    else none
  | _ => none

def State.rewriteRow (s : State) (t : Txn) : Option State :=
  match t.work with
  | .scanned ids after [] ((key, read) :: locked) =>
    some ((s.setCell key
      ((s.cell key).write t.id ((s.cell key).current.bind (withoutStatuses read ids)))).put
        { t with work := .scanned ids after [] locked })
  | _ => none

def State.readUnread (s : State) (key : ConversationKey) (expected : Option ℕ) : Option State :=
  match (s.cell key).committed with
  | some row =>
    s.begin
      { id := 0, account := key.accountId, advisory := false, status := none, notification := none
        unfiltered := [], read := [], delivers := []
        work := .read key row.id row.statusIds (expected.getD row.lockVersion) expected.isSome }
  | none => none

def State.checkLast (s : State) (t : Txn) : Option State :=
  match t.work with
  | .read key rowId statusIds expected given =>
    match statusIds.max? with
    | some last =>
      if ((s.status last).filter fun status => !status.deleted).isSome then
        some (s.put { t with work := .checked key rowId statusIds expected given last })
      else none
    | none => none
  | _ => none

def State.updateUnread (s : State) (t : Txn) (unread : Bool) : Option State :=
  match t.work with
  | .checked key rowId _ expected _ last =>
    match (s.cell key).current with
    | some row =>
      if (s.cell key).free t.id ∧ row.id = rowId ∧ row.lockVersion = expected then
        some ((s.setCell key ((s.cell key).write t.id (some { row with
          unread, lastStatusId := some last, lockVersion := row.lockVersion + 1 }))).put
            { t with work := .done })
      else none
    | none => none
  | _ => none

def State.readRemoval (s : State) (key : ConversationKey) : Option State :=
  match (s.cell key).committed with
  | some row =>
    s.begin
      { id := 0, account := key.accountId, advisory := false, status := none, notification := none
        unfiltered := [], read := [], delivers := [], work := .removing key row.id row.lockVersion }
  | none => none

def State.removeRow (s : State) (t : Txn) : Option State :=
  match t.work with
  | .removing key rowId expected =>
    match (s.cell key).current with
    | some row =>
      if (s.cell key).free t.id ∧ row.id = rowId ∧ row.lockVersion = expected then
        some ((s.setCell key ((s.cell key).write t.id none)).put { t with work := .removed key })
      else none
    | none => none
  | _ => none

/-- All that a transaction has to do is done. -/
def Work.finished : Work → Bool
  | .upserting [] none | .scanned _ _ [] [] | .removed _ | .done => true
  | _ => false

def State.commit (s : State) (t : Txn) : Option State := if t.work.finished then some (s.applied t) else none

def State.step (s : State) : Action → Option State
  | .createStatus status => s.createStatus status
  | .notify account statusId mention filtered => s.notify account statusId mention filtered
  | .unfilter account fromAccountId => s.unfilter account fromAccountId
  | .index id => (s.txns.get id).bind s.index
  | .write id => (s.txns.get id).bind s.write
  | .unfilterRows id => (s.txns.get id).bind s.unfilterRows
  | .deleteStatuses ids => s.deleteStatuses ids
  | .scan id => (s.txns.get id).bind s.scan
  | .lockRow id key => (s.txns.get id).bind fun t => s.lockRow t key
  | .rewriteRow id => (s.txns.get id).bind s.rewriteRow
  | .readUnread key expected => s.readUnread key expected
  | .checkLast id => (s.txns.get id).bind s.checkLast
  | .updateUnread id unread => (s.txns.get id).bind fun t => s.updateUnread t unread
  | .readRemoval key => s.readRemoval key
  | .removeRow id => (s.txns.get id).bind s.removeRow
  | .commit id => (s.txns.get id).bind s.commit
  | .fail id => (s.txns.get id).map s.aborted

/-! ### Condition -/

/-- No deletion passes by an upsert: the statuses that a transaction has read as live are live when it
    commits; no row that has been committed after a deletion has looked for rows has one of its statuses
    when it commits; and a lock version that a caller has given finds the statuses that have been read. -/
def State.Meets (s : State) : Action → Prop
  | .commit id => ∀ t, s.txns.get id = some t →
    (∀ statusId ∈ t.read, ∀ status, s.status statusId = some status → status.deleted = false) ∧
    ∀ ids after, t.work = .scanned ids after [] [] → ∀ key row, (s.cell key).committed = some row →
      after < (s.cell key).version → (s.cell key).holder ≠ some id → ∀ statusId ∈ row.statusIds, statusId ∉ ids
  | .updateUnread id _ => ∀ t, s.txns.get id = some t →
    ∀ key rowId statusIds expected last, t.work = .checked key rowId statusIds expected true last →
      ∀ row, (s.cell key).current = some row → row.id = rowId → row.lockVersion = expected →
        row.statusIds = statusIds
  | _ => True

end Rustodon.Conversations
