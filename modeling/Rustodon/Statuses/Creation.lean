import Rustodon.Ingest.Accounts
import Rustodon.Notifications.Operations

/-! @src mastodon/write_repository.rs | name:The writes of a local status | scheme:checked |
    family:statuses

    `create_status_with_quote_policy`: the key that it is asked for under, and the rows that it writes
    once the key is its own, in order. What the statements read and return is in the draft. -/

namespace Rustodon.Statuses
open Ingest (WriteError Written)
open Notifications (NotificationType)

structure IdempotencyKey where
  scope : String
  key : String
  fingerprint : List UInt8
  expiresAt : ℤ
  deriving DecidableEq

/-- The primary key of `rustodon.idempotency_keys`. -/
abbrev Slot := String × String

def IdempotencyKey.slot (key : IdempotencyKey) : Slot := (key.scope, key.key)

/-- `validate_idempotency` at a reading of the clock. -/
def validateIdempotency (key : IdempotencyKey) (now : ℤ) : Written Unit :=
  if ¬(1 ≤ key.scope.utf8ByteSize ∧ key.scope.utf8ByteSize ≤ 255) then
    .error (.invalidInput "idempotency scope must contain 1-255 bytes")
  else if ¬(1 ≤ key.key.utf8ByteSize ∧ key.key.utf8ByteSize ≤ 255) then
    .error (.invalidInput "idempotency key must contain 1-255 bytes")
  else if key.expiresAt ≤ now then
    .error (.invalidInput "idempotency key expiration must be in the future")
  else .ok ()

/-! ### What a status is made of -/

structure QuoteTarget where
  statusId : ℤ
  accountId : ℤ
  isLocal : Bool
  deriving DecidableEq

/-- A status that has passed its checks, with the rows that its statements return. -/
structure Draft where
  accountId : ℤ
  text : String
  spoilerText : String
  visibility : ℤ
  sensitive : Bool
  language : Option String
  mediaIds : List ℤ
  inReplyToId : Option ℤ
  createdAt : ℤ
  pollId : Option ℤ
  /-- The conversation of a status that is no reply. -/
  newConversationId : ℤ
  /-- Rows of `mentions` with the accounts mentioned. -/
  mentionTargets : List (ℤ × ℤ)
  quote : Option (ℤ × QuoteTarget)
  /-- What `upsert_notification_conversation` returns for the author. -/
  authorConversation : Option (ℤ × ℤ)
  deriving DecidableEq

inductive StatusJob where
  | pollExpiration (pollId : ℤ)
  | statusNotifications (statusId : ℤ)
  | notification (recipientId : ℤ) (type : NotificationType) (activityId : ℤ)
  | quoteRequest (quoteId statusId : ℤ) (target : QuoteTarget)
  | distribution (statusId : ℤ)
  deriving DecidableEq

/-- A statement that writes, as far as it tells which row of which table it touches. -/
inductive StatusWrite where
  | insertStatus (statusId : ℤ)
  | insertPoll (pollId statusId : ℤ)
  | setStatusPoll (statusId pollId : ℤ)
  | insertConversation (conversationId statusId : ℤ)
  | setStatusConversation (statusId conversationId : ℤ)
  | attachMedia (statusId : ℤ) (mediaIds : List ℤ)
  | updateStatusTags (statusId : ℤ) (text : String)
  | insertMention (mentionId accountId statusId : ℤ)
  | insertQuote (quoteId statusId : ℤ) (target : QuoteTarget)
  | insertSilentMention (accountId statusId : ℤ)
  | incrementQuoteCount (statusId : ℤ)
  | upsertConversation (accountId statusId : ℤ)
  | conversationStreamEvent (accountId conversationId lockVersion : ℤ)
  | insertStatusStats (statusId : ℤ)
  | ensureAccountStats (accountId : ℤ)
  | incrementAccountStatusCount (accountId createdAt : ℤ)
  | incrementReplyCount (statusId : ℤ)
  | completeIdempotency (statusId : ℤ)
  | recordOutbox (job : StatusJob)
  | recordOutboxOnce (job : StatusJob)
  | statusStreamEvents (statusId : ℤ)
  deriving DecidableEq

section Writes

variable (draft : Draft) (statusId : ℤ)

def pollWrites : List StatusWrite :=
  match draft.pollId with
  | some pollId =>
    [.insertPoll pollId statusId, .setStatusPoll statusId pollId, .recordOutboxOnce (.pollExpiration pollId)]
  | none => []

def conversationWrites : List StatusWrite :=
  if draft.inReplyToId.isNone then
    [.insertConversation draft.newConversationId statusId,
      .setStatusConversation statusId draft.newConversationId]
  else []

def mediaWrites : List StatusWrite :=
  if draft.mediaIds.isEmpty then [] else [.attachMedia statusId draft.mediaIds]

def mentionWrites : List StatusWrite :=
  draft.mentionTargets.map fun (mentionId, accountId) => .insertMention mentionId accountId statusId

/-- A quote of a local status is accepted at once. -/
def quoteWrites : List StatusWrite :=
  match draft.quote with
  | some (quoteId, target) =>
    [.insertQuote quoteId statusId target, .insertSilentMention target.accountId statusId] ++
      if target.isLocal then [.incrementQuoteCount target.statusId] else []
  | none => []

def directWrites : List StatusWrite :=
  if draft.visibility = 3 then
    .upsertConversation draft.accountId statusId ::
      match draft.authorConversation with
      | some (conversationId, lockVersion) =>
        [.conversationStreamEvent draft.accountId conversationId lockVersion]
      | none => []
  else []

def counterWrites : List StatusWrite :=
  [.insertStatusStats statusId,
    if draft.visibility = 3 then .ensureAccountStats draft.accountId
    else .incrementAccountStatusCount draft.accountId draft.createdAt] ++
  match draft.inReplyToId with
  | some inReplyToId =>
    if draft.visibility = 0 ∨ draft.visibility = 1 then [.incrementReplyCount inReplyToId] else []
  | none => []

def quoteJobs : List StatusWrite :=
  match draft.quote with
  | some (quoteId, target) =>
    if target.isLocal then [.recordOutbox (.notification target.accountId .quote quoteId)]
    else [.recordOutboxOnce (.quoteRequest quoteId statusId target)]
  | none => []

def jobWrites : List StatusWrite :=
  .recordOutbox (.statusNotifications statusId) ::
    (draft.mentionTargets.map fun (mentionId, recipientId) =>
      .recordOutbox (.notification recipientId .mention mentionId)) ++
    quoteJobs draft statusId ++ [.recordOutbox (.distribution statusId), .statusStreamEvents statusId]

/-- What is written between the status and the result of its key. -/
def detailWrites : List StatusWrite :=
  pollWrites draft statusId ++ conversationWrites draft statusId ++ mediaWrites draft statusId ++
    [.updateStatusTags statusId draft.text] ++ mentionWrites draft statusId ++
    quoteWrites draft statusId ++ directWrites draft statusId ++ counterWrites draft statusId

/-- The writes of a status that is asked for under a key. -/
def statusWrites : List StatusWrite :=
  .insertStatus statusId :: detailWrites draft statusId ++ [.completeIdempotency statusId] ++
    jobWrites draft statusId

end Writes

/-! ### The status and the result among the writes -/

/-- The status that a write inserts. -/
def StatusWrite.inserted : StatusWrite → Option ℤ
  | .insertStatus statusId => some statusId
  | _ => none

/-- The result that a write gives to the key. -/
def StatusWrite.completed : StatusWrite → Option ℤ
  | .completeIdempotency statusId => some statusId
  | _ => none

def Plain (writes : List StatusWrite) : Prop :=
  ∀ write ∈ writes, write.inserted = none ∧ write.completed = none

section Plain

variable {writes writes' : List StatusWrite} {draft : Draft} {statusId : ℤ}

theorem Plain.append (h : Plain writes) (h' : Plain writes') : Plain (writes ++ writes') := by
  intro write hwrite
  rcases List.mem_append.mp hwrite with hmem | hmem
  · exact h write hmem
  · exact h' write hmem

theorem Plain.inserted (h : Plain writes) : writes.filterMap StatusWrite.inserted = [] :=
  List.filterMap_eq_nil_iff.mpr fun write hwrite => (h write hwrite).1

theorem Plain.completed (h : Plain writes) : writes.filterMap StatusWrite.completed = [] :=
  List.filterMap_eq_nil_iff.mpr fun write hwrite => (h write hwrite).2

theorem plain_pollWrites : Plain (pollWrites draft statusId) := by
  rw [pollWrites]
  cases draft.pollId <;> simp [Plain, StatusWrite.inserted, StatusWrite.completed]

theorem plain_conversationWrites : Plain (conversationWrites draft statusId) := by
  rw [conversationWrites]
  split <;> simp [Plain, StatusWrite.inserted, StatusWrite.completed]

theorem plain_mediaWrites : Plain (mediaWrites draft statusId) := by
  rw [mediaWrites]
  split <;> simp [Plain, StatusWrite.inserted, StatusWrite.completed]

theorem plain_mentionWrites : Plain (mentionWrites draft statusId) := by
  intro write hwrite
  obtain ⟨target, -, rfl⟩ := List.mem_map.mp hwrite
  exact ⟨rfl, rfl⟩

theorem plain_quoteWrites : Plain (quoteWrites draft statusId) := by
  rw [quoteWrites]
  split
  · split <;> simp [Plain, StatusWrite.inserted, StatusWrite.completed]
  · simp [Plain]

theorem plain_directWrites : Plain (directWrites draft statusId) := by
  rw [directWrites]
  split
  · split <;> simp [Plain, StatusWrite.inserted, StatusWrite.completed]
  · simp [Plain]

theorem plain_counterWrites : Plain (counterWrites draft statusId) := by
  refine Plain.append ?_ ?_
  · split <;> simp [Plain, StatusWrite.inserted, StatusWrite.completed]
  · split
    · split <;> simp [Plain, StatusWrite.inserted, StatusWrite.completed]
    · simp [Plain]

theorem plain_quoteJobs : Plain (quoteJobs draft statusId) := by
  rw [quoteJobs]
  split
  · split <;> simp [Plain, StatusWrite.inserted, StatusWrite.completed]
  · simp [Plain]

theorem plain_jobWrites : Plain (jobWrites draft statusId) := by
  refine Plain.append (Plain.append ?_ plain_quoteJobs) ?_
  · intro write hwrite
    rcases List.mem_cons.mp hwrite with rfl | hwrite
    · exact ⟨rfl, rfl⟩
    · obtain ⟨target, -, rfl⟩ := List.mem_map.mp hwrite
      exact ⟨rfl, rfl⟩
  · simp [Plain, StatusWrite.inserted, StatusWrite.completed]

theorem plain_detailWrites : Plain (detailWrites draft statusId) := by
  refine .append (.append (.append (.append (.append (.append (.append plain_pollWrites
    plain_conversationWrites) plain_mediaWrites) ?_) plain_mentionWrites) plain_quoteWrites)
    plain_directWrites) plain_counterWrites
  simp [Plain, StatusWrite.inserted, StatusWrite.completed]

/-- A request writes one status. -/
theorem inserted_statusWrites :
    (statusWrites draft statusId).filterMap StatusWrite.inserted = [statusId] := by
  have hstatus : (StatusWrite.insertStatus statusId).inserted = some statusId := rfl
  rw [statusWrites, List.filterMap_append, List.cons_append, List.filterMap_cons_some hstatus,
    List.filterMap_append, plain_detailWrites.inserted, plain_jobWrites.inserted]
  rfl

/-- It completes its key with that status. -/
theorem completed_statusWrites :
    (statusWrites draft statusId).filterMap StatusWrite.completed = [statusId] := by
  have hstatus : (StatusWrite.insertStatus statusId).completed = none := rfl
  rw [statusWrites, List.filterMap_append, List.cons_append, List.filterMap_cons_none hstatus,
    List.filterMap_append, plain_detailWrites.completed, plain_jobWrites.completed]
  rfl

end Plain

end Rustodon.Statuses
