import Mathlib.Data.Int.Notation
import Rustodon.Schemes.Sorted

/-! @src mastodon/write_repository.rs, worker.rs | name:Rows of direct conversations | scheme:sorted arrays |
    family:conversations

    What the statements on `account_conversations` compute: the conversation of a direct status as an
    account sees it, the row that an upsert leaves, and the row without deleted statuses. -/

namespace Rustodon.Conversations
open Schemes.Sorted (distinct mem_distinct pairwise_distinct distinct_ne_nil max?_distinct)

structure Status where
  id : ℤ
  accountId : ℤ
  visibility : ℤ
  conversationId : Option ℤ
  /-- The accounts of mentions that are not silent. -/
  mentions : List ℤ
  isLocal : Bool
  deleted : Bool
  deriving DecidableEq

/-- The unique index of `account_conversations`. -/
structure ConversationKey where
  accountId : ℤ
  conversationId : ℤ
  participantAccountIds : List ℤ
  deriving DecidableEq

structure AccountConversation where
  id : ℕ
  statusIds : List ℤ
  lastStatusId : Option ℤ
  unread : Bool
  lockVersion : ℕ
  deriving DecidableEq

/-- A row to be inserted, as `EXCLUDED` has it. -/
structure Direct where
  key : ConversationKey
  statusIds : List ℤ
  unread : Bool
  deriving DecidableEq

/-- The participants of a status but for the account. -/
def Status.participants (status : Status) (account : ℤ) : List ℤ :=
  distinct ((status.mentions ++ [status.accountId]).filter fun participant => participant ≠ account)

/-- The conversation of a direct status as an account sees it. -/
def Status.key (status : Status) (account : ℤ) : Option ConversationKey :=
  if status.visibility = 3 then
    status.conversationId.map fun conversationId => ⟨account, conversationId, status.participants account⟩
  else none

/-- The rows of `direct`, for one status. -/
def Status.direct (status : Status) (account : ℤ) : List Direct :=
  if status.deleted then []
  else
    match status.key account with
    | some key => [⟨key, [status.id], status.accountId != account⟩]
    | none => []

/-- The rows of `grouped` for an account. -/
def grouped (account : ℤ) (statuses : List Status) : List Direct :=
  (statuses.filterMap (Status.key · account)).dedup.map fun key =>
    let ofKey := statuses.filter fun status => status.key account = some key
    ⟨key, distinct (ofKey.map Status.id), ofKey.any fun status => status.accountId != account⟩

/-- `INSERT … ON CONFLICT DO UPDATE` on the row of the key, with the next number of the sequence. -/
def upsert (old : Option AccountConversation) (row : Direct) (next : ℕ) : AccountConversation :=
  match old with
  | none => ⟨next, row.statusIds, row.statusIds.max?, row.unread, 0⟩
  | some old =>
    if row.statusIds.all (· ∈ old.statusIds) then old
    else
      { old with
        lastStatusId := (old.statusIds ++ row.statusIds).max?
        statusIds := distinct (old.statusIds ++ row.statusIds)
        unread := row.unread
        lockVersion := old.lockVersion + 1 }

/-- The row without deleted statuses, from the array that has been read. -/
def withoutStatuses (read deleted : List ℤ) (row : AccountConversation) : Option AccountConversation :=
  let remaining := (read.filter fun id => id ∉ deleted).mergeSort
  if remaining.isEmpty then none
  else
    some { row with
      statusIds := remaining, lastStatusId := remaining.getLast?, lockVersion := row.lockVersion + 1 }

/-- The statuses of a row, if there is one. -/
def statusIdsOf (row : Option AccountConversation) : List ℤ := (row.map AccountConversation.statusIds).getD []

@[simp] theorem statusIdsOf_none : statusIdsOf none = [] := rfl

@[simp] theorem statusIdsOf_some (row : AccountConversation) : statusIdsOf (some row) = row.statusIds := rfl

/-! ### The shape of a row -/

/-- A nonempty array in order without repetition, with its last element. -/
structure AccountConversation.Shape (row : AccountConversation) : Prop where
  nonempty : row.statusIds ≠ []
  increasing : row.statusIds.Pairwise (· < ·)
  last : row.lastStatusId = row.statusIds.getLast?

variable {row old : AccountConversation} {new : Direct} {next : ℕ} {status : Status} {account : ℤ}
  {key : ConversationKey}

theorem accountId_of_key (h : status.key account = some key) : key.accountId = account := by
  rw [Status.key] at h
  split at h
  · obtain ⟨conversationId, -, rfl⟩ := Option.map_eq_some_iff.mp h
    rfl
  · cases h

/-- The rows that an upsert inserts. -/
structure Direct.Shape (row : Direct) : Prop where
  nonempty : row.statusIds ≠ []
  increasing : row.statusIds.Pairwise (· < ·)

theorem shape_upsert {old : Option AccountConversation} (hold : ∀ row, old = some row → row.Shape)
    (hnew : new.Shape) : (upsert old new next).Shape := by
  cases old with
  | none =>
    refine ⟨hnew.nonempty, hnew.increasing, ?_⟩
    exact Schemes.Sorted.max?_eq_getLast? hnew.increasing fun _ => Iff.rfl
  | some old =>
    rw [upsert]
    split
    · exact hold old rfl
    · refine ⟨distinct_ne_nil ?_, pairwise_distinct _, max?_distinct _⟩
      simp [(hold old rfl).nonempty]

/-- The statuses after an upsert are those before and those of the new row. -/
theorem mem_upsert {old : Option AccountConversation} {id : ℤ} :
    id ∈ (upsert old new next).statusIds ↔ id ∈ statusIdsOf old ∨ id ∈ new.statusIds := by
  cases old with
  | none => simp [upsert]
  | some old =>
    rw [upsert]
    split
    · rename_i hall
      rw [List.all_eq_true] at hall
      simp only [decide_eq_true_eq] at hall
      exact ⟨.inl, fun h => h.elim (fun hid => hid) (hall _)⟩
    · simp

theorem shape_withoutStatuses {read deleted : List ℤ} (hread : read.Pairwise (· < ·))
    {row' : AccountConversation} (h : withoutStatuses read deleted row = some row') : row'.Shape := by
  rw [withoutStatuses] at h
  split at h
  · cases h
  · rename_i hremaining
    obtain rfl := Option.some.inj h
    refine ⟨by simpa using hremaining, ?_, rfl⟩
    have hsorted : (read.filter fun id => id ∉ deleted).Pairwise (· < ·) := hread.filter _
    change ((read.filter fun id => decide (id ∉ deleted)).mergeSort).Pairwise (· < ·)
    rw [List.mergeSort_of_pairwise (hsorted.imp fun hlt => by simpa using le_of_lt hlt)]
    exact hsorted

theorem mem_withoutStatuses {read deleted : List ℤ} {id : ℤ} :
    id ∈ statusIdsOf (withoutStatuses read deleted row) ↔ id ∈ read ∧ id ∉ deleted := by
  have hmem : id ∈ (read.filter fun id => id ∉ deleted).mergeSort ↔ id ∈ read ∧ id ∉ deleted := by
    simp
  rw [withoutStatuses, ← hmem]
  split
  · rename_i hnone
    rw [List.isEmpty_iff] at hnone
    rw [hnone]
    simp
  · rfl

/-! ### The rows of direct statuses -/

theorem mem_direct (h : new ∈ status.direct account) :
    status.deleted = false ∧ status.key account = some new.key ∧ new.statusIds = [status.id] := by
  rw [Status.direct] at h
  split at h
  · cases h
  · rename_i hlive
    split at h
    · rename_i key hkey
      obtain rfl := List.mem_singleton.mp h
      exact ⟨by simpa using hlive, hkey, rfl⟩
    · cases h

theorem shape_direct (h : new ∈ status.direct account) : new.Shape := by
  obtain ⟨-, -, hids⟩ := mem_direct h
  exact ⟨by simp [hids], by simp [hids]⟩

/-- A direct status is among its rows. -/
theorem direct_of_key (hlive : status.deleted = false) (hkey : status.key account = some key) :
    ∃ row ∈ status.direct account, row.key = key ∧ status.id ∈ row.statusIds := by
  rw [Status.direct, hlive, hkey]
  exact ⟨_, List.mem_singleton_self _, rfl, List.mem_singleton_self _⟩

section Grouped

variable {statuses : List Status}

theorem mem_grouped {id : ℤ} (h : new ∈ grouped account statuses) (hid : id ∈ new.statusIds) :
    ∃ status ∈ statuses, status.id = id ∧ status.key account = some new.key := by
  obtain ⟨key, -, rfl⟩ := List.mem_map.mp h
  obtain ⟨status, hstatus, rfl⟩ := List.mem_map.mp (mem_distinct.mp hid)
  obtain ⟨hmem, hkey⟩ := List.mem_filter.mp hstatus
  exact ⟨status, hmem, rfl, by simpa using hkey⟩

theorem shape_grouped (h : new ∈ grouped account statuses) : new.Shape := by
  obtain ⟨key, hkey, rfl⟩ := List.mem_map.mp h
  obtain ⟨status, hstatus, hkey⟩ := List.mem_filterMap.mp (List.mem_dedup.mp hkey)
  refine ⟨distinct_ne_nil ?_, pairwise_distinct _⟩
  refine List.ne_nil_of_mem (List.mem_map_of_mem (a := status) ?_)
  exact List.mem_filter.mpr ⟨hstatus, by simpa using hkey⟩

/-- Every direct status is in the row of its conversation. -/
theorem grouped_of_key (hmem : status ∈ statuses) (hkey : status.key account = some key) :
    ∃ row ∈ grouped account statuses, row.key = key ∧ status.id ∈ row.statusIds := by
  refine ⟨_, List.mem_map_of_mem (List.mem_dedup.mpr (List.mem_filterMap.mpr ⟨status, hmem, hkey⟩)), rfl, ?_⟩
  refine mem_distinct.mpr (List.mem_map_of_mem (List.mem_filter.mpr ⟨hmem, ?_⟩))
  simpa using hkey

end Grouped

end Rustodon.Conversations
