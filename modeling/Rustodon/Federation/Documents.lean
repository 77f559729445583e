import Rustodon.Federation.Archive
import Rustodon.Federation.Parameters

/-! @src web/federation.rs, mastodon/activitypub.rs | name:Notes and their replies | scheme:documents |
    family:federation

    What is told to other servers of a status and of the replies to it. Of a note stands here what is of
    the status, with the addresses it goes to and the beginning of its replies; its tags, its links and
    the counts in it are left out. -/

namespace Rustodon.Federation
open Schemes.Utf8 Timelines

/-! ### Notes -/

/-- The replies that are put into a note: the first page of the collection. -/
structure NoteReplies where
  id : Text
  items : List (Option Text)
  next : Text

/-- `activitypub::note`, or `activitypub::question` where there is a poll: the text, the media and the
    poll are those of `status`. -/
structure Note where
  id : Text
  status : Status
  published : ℤ
  toAddresses : List Text
  ccAddresses : List Text
  inReplyTo : Option Text
  attachment : List MediaAttachment
  question : Option Poll
  replies : Option NoteReplies

/-- What stands for a status in another document. -/
inductive Object where
  | null
  | uri (address : Text)
  | note (note : Note)

def publicAddress : Text := "https://www.w3.org/ns/activitystreams#Public".toList

section Rows

variable (archive : Archive)

/-- A reply to a status, of its author or of the others. -/
def isReplyRow (accountId statusId : ℤ) (onlyOtherAccounts : Bool) (reply : Status) : Bool :=
  (archive.account reply.accountId).any fun author =>
    reply.inReplyToId == some statusId && reply.deletedAt.isNone && reply.visibleAs [0, 1] &&
      (onlyOtherAccounts || decide (reply.accountId = accountId)) &&
      (!onlyOtherAccounts || decide (reply.accountId ≠ accountId)) &&
      (!onlyOtherAccounts || author.suspendedAt.isNone)

/-- All rows that the pages of `activitypub_reply_statuses` are of, in their order. -/
def replyRows (accountId statusId : ℤ) (onlyOtherAccounts : Bool) : List Status :=
  (archive.statuses.filter (isReplyRow archive accountId statusId onlyOtherAccounts)).insertionSort
    fun a b : Status => a.id ≤ b.id

/-- `limit.clamp(1, 60)`. -/
def clampReplies (limit : ℤ) : ℕ := (max 1 (min limit 60)).toNat

def activitypubReplyStatuses (accountId statusId : ℤ) (onlyOtherAccounts : Bool) (minId : Option ℤ)
    (limit : ℤ) : List Status :=
  ((replyRows archive accountId statusId onlyOtherAccounts).filter fun reply =>
    minId.all fun minId => decide (minId < reply.id)).take (clampReplies limit)

variable (origin : Text)

/-- `activitypub_replies`. -/
def activitypubReplies (account : Account) (status : Status) : Option NoteReplies :=
  if account.domain.isSome then none
  else
    let base := archive.repliesUrl origin account status
    let replies := activitypubReplyStatuses archive account.id status.id false none 5
    some {
      id := base
      items := replies.map fun reply => reply.uri.map String.toList
      next :=
        match replies.getLast? with
        | none => base ++ '?' :: writtenQuery
            [("page".toList, "true".toList), ("only_other_accounts".toList, "true".toList)]
        | some reply => base ++ '?' :: writtenQuery
            [("min_id".toList, (toString reply.id).toList), ("page".toList, "true".toList)] }

/-- The mentions that are not silent, with those who are mentioned. -/
def mentionedAccounts (status : Status) : List Account :=
  ((archive.mentions.filter fun mention => decide (mention.statusId = status.id)).filter fun mention =>
    !mention.silent).filterMap fun mention => archive.account mention.accountId

/-- Whom a note goes to. -/
def addressees (account : Account) (status : Status) : List Text × List Text :=
  let followers := archive.followersUrl origin account
  let mentions := (mentionedAccounts archive status).map (archive.actorUrl origin)
  match StatusVisibility.ofRaw status.visibility with
  | .publicPost => ([publicAddress], followers :: mentions)
  | .unlisted => ([followers], publicAddress :: mentions)
  | .privatePost => ([followers], mentions)
  | .direct | .limited => (mentions, [])
  | .unknown _ => ([], [])

/-- The parent in `activitypub_note_metadata`. -/
def inReplyToUrl (status : Status) : Option Text := do
  let parent ← archive.liveStatus (← status.inReplyToId)
  let account ← archive.account (← status.inReplyToAccountId)
  return archive.statusUri origin account parent

/-- The poll of a status, if it has one. -/
def questionOf (status : Status) : Option (Option Poll) :=
  match (archive.statusColumns status.id).pollId with
  | none => some none
  | some pollId => (archive.poll pollId).map some

/-- `federation_note_value`, which fails where the poll of the status is not found. -/
def federationNoteValue (status : Status) (account : Account) : Option Note :=
  (questionOf archive status).map fun question => {
    id := archive.statusUri origin account status
    status := status
    published := (archive.statusColumns status.id).createdAt
    toAddresses := (addressees archive origin account status).1
    ccAddresses := (addressees archive origin account status).2
    inReplyTo := inReplyToUrl archive origin status
    attachment := mediaAttachments archive.toDatabase status
    question := question
    replies := activitypubReplies archive origin account status }

/-! ### The collection of replies -/

/-- The body of the loop of `activitypub_reply_items`. -/
def activitypubReplyItem (reply : Status) : Option Object :=
  if reply.isLocal == some true || reply.uri.isNone then do
    let account ← archive.account reply.accountId
    return .note (← federationNoteValue archive origin reply account)
  else some ((reply.uri.map fun uri => Object.uri uri.toList).getD .null)

structure RepliesPage where
  id : Text
  partOf : Text
  items : List Object
  next : Option Text

def activitypubRepliesPageId (base : Text) (parameters : List (Text × Text)) : Text :=
  base ++ '?' :: writtenQuery
    (((parameter parameters "only_other_accounts").map fun value =>
        ("only_other_accounts".toList, value)).toList ++
      ((parameter parameters "min_id").map fun value => ("min_id".toList, value)).toList ++
      [("page".toList, "true".toList)])

def repliesNextPairs (minId : Option ℤ) (onlyOtherAccounts : Bool) : List (Text × Text) :=
  (if onlyOtherAccounts then [("only_other_accounts".toList, "true".toList)] else []) ++
    (minId.map fun minId => ("min_id".toList, (toString minId).toList)).toList ++
    [("page".toList, "true".toList)]

def activitypubRepliesNextUrl (base : Text) (minId : Option ℤ) (onlyOtherAccounts : Bool) : Text :=
  base ++ '?' :: writtenQuery (repliesNextPairs minId onlyOtherAccounts)

def onlyOtherAccountsOf (parameters : List (Text × Text)) : Bool :=
  (parameter parameters "only_other_accounts").any activitypubTruthy

def minIdOf (parameters : List (Text × Text)) : Option ℤ :=
  (parameter parameters "min_id").bind routePathId

def pageRequested (parameters : List (Text × Text)) : Bool :=
  (parameter parameters "page").any activitypubTruthy

/-- Where the page after these replies is. -/
def repliesNext (base : Text) (accountId : ℤ) (onlyOtherAccounts : Bool) (replies : List Status) :
    Option Text :=
  if onlyOtherAccounts then
    if replies.length = 60 then
      some (activitypubRepliesNextUrl base (replies.getLast?.map Status.id) true)
    else none
  else
    let nextOnlyOtherAccounts :=
      (replies.getLast?.all fun reply => decide (reply.accountId ≠ accountId)) ||
        decide (replies.length < 60)
    some (activitypubRepliesNextUrl base
      (if nextOnlyOtherAccounts then none else replies.getLast?.map Status.id) nextOnlyOtherAccounts)

/-- A page of the collection. -/
def repliesPage (account : Account) (status : Status) (parameters : List (Text × Text)) :
    Option RepliesPage := do
  let onlyOtherAccounts := onlyOtherAccountsOf parameters
  let replies := activitypubReplyStatuses archive account.id status.id onlyOtherAccounts
    (minIdOf parameters) 60
  let items ← replies.mapM (activitypubReplyItem archive origin)
  let base := archive.repliesUrl origin account status
  return {
    id := activitypubRepliesPageId base parameters
    partOf := base
    items := items
    next := repliesNext base account.id onlyOtherAccounts replies }

end Rows

/-! ### Rows of replies -/

variable {archive : Archive} {origin : Text} {accountId statusId : ℤ} {onlyOtherAccounts : Bool}

/-- A live reply that everybody may fetch, of the author or of somebody who is not suspended. -/
structure IsReply (archive : Archive) (accountId statusId : ℤ) (onlyOtherAccounts : Bool)
    (reply : Status) : Prop where
  row : reply ∈ archive.statuses
  answers : reply.inReplyToId = some statusId
  live : reply.deletedAt = none
  distributable : reply.visibility = 0 ∨ reply.visibility = 1
  author : if onlyOtherAccounts then reply.accountId ≠ accountId ∧
      ∀ author ∈ archive.account reply.accountId, author.suspendedAt = none
    else reply.accountId = accountId

theorem mem_replyRows {reply : Status} :
    reply ∈ replyRows archive accountId statusId onlyOtherAccounts ↔
      IsReply archive accountId statusId onlyOtherAccounts reply := by
  rw [replyRows, List.mem_insertionSort, List.mem_filter]
  constructor
  · rintro ⟨hrow, hreply⟩
    obtain ⟨author, hauthor, hreply⟩ := (Option.any_eq_true _ _).mp hreply
    cases onlyOtherAccounts <;>
      simp [Status.visibleAs] at hreply <;>
      exact ⟨hrow, by tauto, by tauto, by tauto, by simp [hauthor]; tauto⟩
  · intro h
    refine ⟨h.row, ?_⟩
    obtain ⟨author, hauthor⟩ := Option.isSome_iff_exists.mp (archive.author_rows reply h.row)
    have hside := h.author
    rw [isReplyRow, hauthor]
    cases onlyOtherAccounts <;>
      simp_all [Status.visibleAs, h.answers, h.live, h.distributable]

theorem replyRows_sorted : (replyRows archive accountId statusId onlyOtherAccounts).Pairwise
    fun a b => a.id < b.id := by
  have hle := List.pairwise_insertionSort (fun a b : Status => a.id ≤ b.id)
    (archive.statuses.filter (isReplyRow archive accountId statusId onlyOtherAccounts))
  have hne : (replyRows archive accountId statusId onlyOtherAccounts).Pairwise
      fun a b => a.id ≠ b.id := by
    have hids := archive.status_ids.sublist
      ((@List.filter_sublist _ (isReplyRow archive accountId statusId onlyOtherAccounts)
        archive.statuses).map Status.id)
    exact List.pairwise_map.mp (((List.perm_insertionSort _ _).map Status.id).nodup_iff.mpr hids)
  exact (hle.and hne).imp fun ⟨hle, hne⟩ => lt_of_le_of_ne hle hne

theorem mem_activitypubReplyStatuses {minId : Option ℤ} {limit : ℤ} {reply : Status}
    (h : reply ∈ activitypubReplyStatuses archive accountId statusId onlyOtherAccounts minId limit) :
    IsReply archive accountId statusId onlyOtherAccounts reply :=
  mem_replyRows.mp (List.mem_filter.mp (List.mem_of_mem_take h)).1

/-! ### Notes of live statuses -/

theorem questionOf_isSome {status : Status} (h : status ∈ archive.statuses)
    (hlive : status.deletedAt = none) : (questionOf archive status).isSome := by
  rw [questionOf]
  cases hpoll : (archive.statusColumns status.id).pollId with
  | none => rfl
  | some id => simpa using poll_isSome h hlive hpoll

/-- A live status has a note. -/
theorem exists_noteValue {status : Status} (h : status ∈ archive.statuses)
    (hlive : status.deletedAt = none) (account : Account) :
    ∃ note, federationNoteValue archive origin status account = some note := by
  rw [← Option.isSome_iff_exists, federationNoteValue, Option.isSome_map]
  exact questionOf_isSome h hlive

/-- A note is of the status that is asked for. -/
theorem noteValue_spec {status : Status} {account : Account} {note : Note}
    (h : federationNoteValue archive origin status account = some note) :
    note.status = status ∧ note.id = archive.statusUri origin account status := by
  rw [federationNoteValue] at h
  obtain ⟨question, -, rfl⟩ := Option.map_eq_some_iff.mp h
  exact ⟨rfl, rfl⟩

end Rustodon.Federation
