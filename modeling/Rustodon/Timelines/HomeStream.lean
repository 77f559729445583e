import Mathlib.Data.List.Dedup
import Rustodon.Timelines.Feeds

/-! @src mastodon/write_repository.rs | name:Recipients of home streams | scheme:union | family:timelines

    Who is told of a status on the stream `user`: its author, those who follow the author and those who
    follow one of its hashtags. When a status is deleted most of the conditions are relaxed, so that
    nobody keeps what is gone. The conditions stand in the order of the source. -/

namespace Rustodon.Timelines

section Recipients

variable (db : Database) (now : ℤ) (deleting : Bool)

/-- An account of this server that is not suspended and whose user is not disabled. -/
def isRecipient (accountId : ℤ) : Bool :=
  (db.account accountId).any (fun recipient => recipient.domain.isNone && recipient.suspendedAt.isNone) &&
    db.users.any fun user => decide (user.accountId = accountId) && !user.disabled

/-- `source`: the boosted status, whether it is live or not. -/
def boostedStatus (status : Status) : Option Status := status.reblogOfId.bind db.status

/-- `source_author`. -/
def boostedAuthor (status : Status) : Option Account :=
  (boostedStatus db status).bind fun source => db.account source.accountId

/-- The author is on an exclusive list of the viewer. -/
def onExclusiveList (viewer accountId : ℤ) : Bool :=
  db.listAccounts.any fun member => db.lists.any fun list =>
    decide (list.id = member.listId) && decide (list.accountId = viewer) && list.exclusive &&
      decide (member.accountId = accountId)

/-- Nobody is mentioned whom the viewer blocks or still mutes. -/
def streamMentionsAllowed (viewer : ℤ) (status : Status) : Bool :=
  !((mentionedAloud db status).any fun accountId =>
    db.isBlocking viewer accountId || db.isMutingAt now viewer accountId)

/-- `EXISTS` over an account that is NULL finds nothing. -/
def streamSourceAllowed (viewer : ℤ) (status : Status) : Bool :=
  !((boostedStatus db status).any fun source => db.isBlocking viewer source.accountId) &&
    !((boostedStatus db status).any fun source => db.isMutingAt now viewer source.accountId) &&
    !((boostedStatus db status).any fun source => db.isBlocking source.accountId viewer) &&
    !db.isDomainBlocking viewer ((boostedAuthor db status).bind Account.domain)

def isFollowRecipient (status : Status) (author : Account) (follow : Follow) : Bool :=
  let relaxed := deleting && status.visibleAs [0, 1, 2]
  let own := decide (status.accountId = follow.accountId)
  decide (follow.targetAccountId = status.accountId) &&
    (relaxed || status.reblogOfId.isNone || follow.showReblogs) &&
    (status.visibleAs [0, 1, 2] ||
      (status.visibleAs [3, 4] && db.isMentioning status.id follow.accountId)) &&
    isRecipient db follow.accountId &&
    (relaxed || !db.isBlocking status.accountId follow.accountId) &&
    (relaxed || !db.isBlocking follow.accountId status.accountId) &&
    (relaxed || !db.isMutingAt now follow.accountId status.accountId) &&
    (relaxed || own || languageAllowed follow.languages status.language) &&
    (relaxed || own || replyKnown status) &&
    (relaxed || own || !status.reply || status.repliesTo status.accountId ||
      status.repliesTo follow.accountId ||
      status.inReplyToAccountId.any fun accountId => db.isFollowing follow.accountId accountId) &&
    (relaxed || own || !onExclusiveList db follow.accountId status.accountId) &&
    (relaxed || streamMentionsAllowed db now follow.accountId status) &&
    (relaxed || status.reblogOfId.isNone || streamSourceAllowed db now follow.accountId status) &&
    (relaxed || !db.isDomainBlocking follow.accountId author.domain)

def isTagRecipient (status : Status) (author : Account) (accountId : ℤ) : Bool :=
  (db.statusTags.any fun statusTag => decide (statusTag.statusId = status.id) &&
      db.tagFollows.any fun tagFollow => decide (tagFollow.tagId = statusTag.tagId) &&
        decide (tagFollow.accountId = accountId)) &&
    isRecipient db accountId && (deleting || status.deletedAt.isNone) && status.visibleAs [0] &&
    status.reblogOfId.isNone && (deleting || (author.suspendedAt.isNone && author.silencedAt.isNone)) &&
    !db.isBlocking status.accountId accountId && !db.isBlocking accountId status.accountId &&
    !db.isMuting accountId status.accountId &&
    !(db.mentions.any fun mention => decide (mention.statusId = status.id) && !mention.silent &&
      (db.isBlocking accountId mention.accountId || db.isMuting accountId mention.accountId)) &&
    !db.isDomainBlocking accountId author.domain

/-- The three parts of the union. -/
def recipientRows (status : Status) (author : Account) : List ℤ :=
  [status.accountId].filter (isRecipient db) ++
    (db.follows.filter (isFollowRecipient db now deleting status author)).map Follow.accountId ++
      (db.tagFollows.map TagFollow.accountId).filter (isTagRecipient db deleting status author)

/-- `collect_status_recipient_stream_events`. -/
def statusRecipients (statusId : ℤ) : List ℤ :=
  match db.status statusId with
  | none => []
  | some status =>
    match db.account status.accountId with
    | none => []
    | some author => (recipientRows db now deleting status author).dedup.insertionSort fun a b => a ≤ b

/-- `collect_status_delete_stream_events_with_snapshot`: those who are mentioned aloud are told, too. -/
def deleteRecipients (statusId : ℤ) : List ℤ :=
  statusRecipients db now true statusId ++
    (((db.mentions.filter fun mention => decide (mention.statusId = statusId) && !mention.silent).map
      Mention.accountId).filter (isRecipient db)).dedup.insertionSort fun a b => a ≤ b

end Recipients

variable {db : Database} {now : ℤ} {deleting : Bool} {status : Status} {author : Account} {accountId : ℤ}

theorem mem_statusRecipients (hstatus : status ∈ db.statuses)
    (hauthor : db.account status.accountId = some author) :
    accountId ∈ statusRecipients db now deleting status.id ↔
      (accountId = status.accountId ∧ isRecipient db accountId = true) ∨
        (∃ follow ∈ db.follows, isFollowRecipient db now deleting status author follow = true ∧
          follow.accountId = accountId) ∨
        isTagRecipient db deleting status author accountId = true := by
  have htag : isTagRecipient db deleting status author accountId = true →
      ∃ tagFollow ∈ db.tagFollows, tagFollow.accountId = accountId := by
    intro h
    simp only [isTagRecipient, Bool.and_eq_true] at h
    obtain ⟨statusTag, -, hrow⟩ := List.any_eq_true.mp h.1.1.1.1.1.1.1.1.1.1
    obtain ⟨tagFollow, hmem, hkey⟩ := List.any_eq_true.mp (Bool.and_eq_true_iff.mp hrow).2
    exact ⟨tagFollow, hmem, of_decide_eq_true (Bool.and_eq_true_iff.mp hkey).2⟩
  rw [statusRecipients, Database.status_of_mem hstatus]
  simp only [hauthor, List.mem_insertionSort, List.mem_dedup, recipientRows, List.mem_append,
    List.mem_filter, List.mem_singleton, List.mem_map, or_assoc]
  refine or_congr Iff.rfl (or_congr ?_ ?_)
  · constructor
    · rintro ⟨follow, ⟨hmem, hfollow⟩, rfl⟩
      exact ⟨follow, hmem, hfollow, rfl⟩
    · rintro ⟨follow, hmem, hfollow, rfl⟩
      exact ⟨follow, ⟨hmem, hfollow⟩, rfl⟩
  · exact ⟨fun h => h.2, fun h => ⟨htag h, h⟩⟩

end Rustodon.Timelines
