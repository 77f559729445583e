import Rustodon.Schemes.Utf8
import Rustodon.Timelines.Library

/-! @src mastodon/activitypub.rs, mastodon/repository.rs | name:Rows behind federation documents |
    scheme:tables | family:federation

    The columns of accounts and statuses that only the documents for other servers read, and the
    addresses that are made of them. -/

namespace Rustodon.Federation
open Schemes.Utf8 Timelines

/-- Further columns of an account. `numericIds` is `id_scheme = Numeric`. -/
structure AccountColumns where
  username : String
  uri : String
  url : Option String
  followersUrl : String
  numericIds : Bool
  hasPendingUser : Bool
  hasUnconfirmedUser : Bool
  hasDeletionRequest : Bool
  statusesCount : Option ℤ

/-- Further columns of a status. -/
structure StatusColumns where
  url : Option String
  pollId : Option ℤ
  createdAt : ℤ

/-- The author of a status is a row, by a foreign key. The poll of a status is a row of its own: both
    are written and taken away in one transaction. -/
structure Archive extends Library where
  accountColumns : ℤ → AccountColumns
  statusColumns : ℤ → StatusColumns
  statusStat : ℤ → Option (ℤ × ℤ)
  author_rows : ∀ status ∈ statuses, (toDatabase.account status.accountId).isSome
  poll_rows : ∀ status ∈ statuses, ∀ id, (statusColumns status.id).pollId = some id →
    ∃ poll ∈ polls, poll.id = id ∧ poll.statusId = status.id
  status_range : ∀ status ∈ statuses, -2 ^ 63 ≤ status.id ∧ status.id < 2 ^ 63

namespace Archive

variable (archive : Archive)

/-! ### Rows -/

/-- `repository.status`: a live status. -/
def liveStatus (id : ℤ) : Option Status :=
  archive.statuses.find? fun status => decide (status.id = id) && status.deletedAt.isNone

/-- `repository.poll`: a poll of a live status. -/
def poll (id : ℤ) : Option Poll :=
  archive.polls.find? fun poll => decide (poll.id = id) &&
    archive.statuses.any fun status => decide (status.id = poll.statusId) && status.deletedAt.isNone

/-- `activitypub_status_has_pending_quote`. -/
def hasPendingQuote (statusId : ℤ) : Bool :=
  archive.quotes.any fun quote => decide (quote.statusId = statusId) && decide (quote.state = 0)

/-- `activitypub_outbox_count`. -/
def outboxCount (accountId : ℤ) : ℤ :=
  (archive.accountColumns accountId).statusesCount.getD
    (archive.statuses.countP fun status => decide (status.accountId = accountId) &&
      status.deletedAt.isNone && decide (status.visibility ≠ 3))

/-- `activitypub_status_counts`. -/
def statusCounts (statusId : ℤ) : ℤ × ℤ :=
  ((archive.statusStat statusId).map fun (favourites, reblogs) =>
    (max favourites 0, max reblogs 0)).getD (0, 0)

/-! ### Addresses -/

variable (origin : Text)

def canonicalAccountPath (account : Account) : Text :=
  if account.id = -99 then "actor".toList
  else if (archive.accountColumns account.id).numericIds then
    "ap/users/".toList ++ (toString account.id).toList
  else "users/".toList ++ (archive.accountColumns account.id).username.toList

def actorUrl (account : Account) : Text :=
  if account.domain.isSome && !(archive.accountColumns account.id).uri.isEmpty then
    (archive.accountColumns account.id).uri.toList
  else origin ++ archive.canonicalAccountPath account

/-- `endpoint` with the followers of an account. -/
def followersUrl (account : Account) : Text :=
  if account.domain.isNone then origin ++ archive.canonicalAccountPath account ++ "/followers".toList
  else (archive.accountColumns account.id).followersUrl.toList

/-- `collection_url` with the outbox. -/
def outboxUrl (account : Account) : Text :=
  ((archive.actorUrl origin account).reverse.dropWhile (· = '/')).reverse ++ "/outbox".toList

def activitySuffix (status : Status) : Text :=
  if status.reblogOfId.isSome then "/activity".toList else []

def statusUrl (account : Account) (status : Status) : Text :=
  if account.domain.isSome then
    ((archive.statusColumns status.id).url.map String.toList).getD (archive.actorUrl origin account)
  else
    origin ++ '@' :: ((archive.accountColumns account.id).username.toList ++
      '/' :: ((toString status.id).toList ++ activitySuffix status))

def statusUri (account : Account) (status : Status) : Text :=
  if account.domain.isSome then
    (status.uri.map String.toList).getD (archive.statusUrl origin account status)
  else
    origin ++ archive.canonicalAccountPath account ++ "/statuses/".toList ++
      (toString status.id).toList ++ activitySuffix status

/-- `status_collection_url`. -/
def statusCollectionUrl (account : Account) (status : Status) (collection : Text) : Text :=
  (if account.domain.isNone then
      origin ++ archive.canonicalAccountPath account ++ "/statuses/".toList ++
        (toString status.id).toList
    else archive.statusUri origin account status) ++ '/' :: collection

def repliesUrl (account : Account) (status : Status) : Text :=
  archive.statusCollectionUrl origin account status "replies".toList

end Archive

variable {archive : Archive}

theorem mem_of_liveStatus {id : ℤ} {status : Status} (h : archive.liveStatus id = some status) :
    status ∈ archive.statuses ∧ status.id = id ∧ status.deletedAt = none := by
  have hfound := List.find?_some h
  simp only [Bool.and_eq_true, decide_eq_true_eq, Option.isNone_iff_eq_none] at hfound
  exact ⟨List.mem_of_find?_eq_some h, hfound⟩

theorem liveStatus_of_mem {status : Status} (h : status ∈ archive.statuses)
    (hlive : status.deletedAt = none) : archive.liveStatus status.id = some status := by
  cases hfind : archive.liveStatus status.id with
  | none =>
    have hnone := List.find?_eq_none.mp hfind status h
    simp [hlive] at hnone
  | some other =>
    obtain ⟨hmem, hid, -⟩ := mem_of_liveStatus hfind
    rw [List.inj_on_of_nodup_map archive.status_ids hmem h hid]

/-- A live status that has a poll shows it. -/
theorem poll_isSome {status : Status} (h : status ∈ archive.statuses) (hlive : status.deletedAt = none)
    {id : ℤ} (hpoll : (archive.statusColumns status.id).pollId = some id) :
    (archive.poll id).isSome := by
  obtain ⟨poll, hmem, hid, hstatus⟩ := archive.poll_rows status h id hpoll
  rw [Archive.poll, List.find?_isSome]
  refine ⟨poll, hmem, ?_⟩
  simp only [hid, decide_true, Bool.true_and, List.any_eq_true]
  exact ⟨status, h, by simp [hstatus, hlive]⟩

end Rustodon.Federation
