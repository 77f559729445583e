import Rustodon.Timelines.Queries

/-! @src mastodon/repository.rs | name:Home and list timelines | scheme:windows | family:timelines

    The queries of the home timeline and of lists. Both first restrict the statuses to those that the
    viewer may see and then ask what the viewer wants to see; the conditions stand in the order of the
    source. -/

namespace Rustodon.Timelines
open Schemes.Windows

variable (db : Database)

/-- `source`: the boosted status, while it is live. -/
def liveSource (status : Status) : Option Status :=
  status.reblogOfId.bind fun id => (db.status id).filter fun source => source.deletedAt.isNone

/-- `source_author`. -/
def sourceAuthor (status : Status) : Option Account :=
  (liveSource db status).bind fun source => db.account source.accountId

/-- `source.id IS NULL OR source_author.suspended_at IS NULL`. -/
def sourceNotSuspended (status : Status) : Bool :=
  (liveSource db status).isNone || (sourceAuthor db status).all fun author => author.suspendedAt.isNone

/-- The languages of a follow, when it names any, have that of the status. -/
def languageAllowed (languages : Option (List String)) (language : Option String) : Bool :=
  decide ((languages.map List.length).getD 0 = 0) || language.isNone ||
    language.any fun language => languages.any fun languages => languages.contains language

/-- Of a reply it is known what it replies to. -/
def replyKnown (status : Status) : Bool :=
  !status.reply || (status.inReplyToId.isSome && status.inReplyToAccountId.isSome)

/-- The accounts that a status mentions aloud, or that the status that it boosts does. -/
def mentionedAloud (status : Status) : List ℤ :=
  (db.mentions.filter fun mention => (decide (mention.statusId = status.id) ||
    status.reblogOfId == some mention.statusId) && !mention.silent).map Mention.accountId

/-- Nobody is mentioned whom the viewer blocks or mutes. -/
def mentionsAllowed (viewer : ℤ) (status : Status) : Bool :=
  !((mentionedAloud db status).any fun accountId =>
    db.isBlocking viewer accountId || db.isMuting viewer accountId)

/-- The author of the boosted status is nobody whom the viewer does not want to see, and does not block
    the viewer. -/
def sourceAllowed (viewer : ℤ) (status : Status) : Bool :=
  (liveSource db status).all fun source =>
    !db.isBlocking viewer source.accountId && !db.isMuting viewer source.accountId &&
      !db.isBlocking source.accountId viewer &&
      !db.isDomainBlocking viewer ((sourceAuthor db status).bind Account.domain)

/-- What is public or unlisted is seen by those whom the author does not block. -/
def openToViewer (viewer : ℤ) (status : Status) : Bool :=
  !db.isBlocking status.accountId viewer &&
    !db.isDomainBlocking status.accountId (viewerDomain db (some viewer))

/-! ### The home timeline -/

def homeAuthorized (viewer : ℤ) (status : Status) (author : Account) : Bool :=
  status.deletedAt.isNone && author.suspendedAt.isNone && sourceNotSuspended db status &&
    if status.accountId = viewer then true
    else if status.visibleAs [3, 4] then db.isMentioning status.id viewer
    else if status.visibleAs [2] then
      (db.follow viewer status.accountId).isSome || db.isMentioning status.id viewer
    else if status.visibleAs [0, 1] then openToViewer db viewer status
    else false

/-- What those who follow the author want to see. -/
def homeFollowed (viewer : ℤ) (status : Status) (author : Account) : Bool :=
  let follow := db.follow viewer status.accountId
  let own := decide (status.accountId = viewer)
  (own || follow.isSome) &&
    (own || status.visibleAs [0, 1, 2] ||
      (status.visibleAs [3, 4] && db.isMentioning status.id viewer)) &&
    (own || !(db.listAccounts.any fun member => db.lists.any fun list =>
      decide (list.id = member.listId) && decide (list.accountId = viewer) && list.exclusive &&
        decide (member.accountId = status.accountId))) &&
    (own || languageAllowed (follow.bind Follow.languages) status.language) &&
    (own || replyKnown status) &&
    (own || !status.reply || status.repliesTo status.accountId || status.repliesTo viewer ||
      status.inReplyToAccountId.any fun accountId => db.isFollowing viewer accountId) &&
    (own || status.reblogOfId.isNone ||
      ((liveSource db status).isSome && follow.any Follow.showReblogs)) &&
    (own || !db.isBlocking viewer status.accountId) &&
    (own || !db.isBlocking status.accountId viewer) &&
    (own || !db.isMuting viewer status.accountId) &&
    (own || mentionsAllowed db viewer status) &&
    (own || sourceAllowed db viewer status) &&
    (own || !db.isDomainBlocking viewer author.domain)

/-- What those who follow one of its hashtags want to see. -/
def homeTagged (viewer : ℤ) (status : Status) (author : Account) : Bool :=
  decide (status.accountId ≠ viewer) && status.visibleAs [0] && status.reblogOfId.isNone &&
    author.silencedAt.isNone &&
    (db.statusTags.any fun statusTag => decide (statusTag.statusId = status.id) &&
      db.tagFollows.any fun tagFollow => decide (tagFollow.tagId = statusTag.tagId) &&
        decide (tagFollow.accountId = viewer)) &&
    !db.isBlocking viewer status.accountId && !db.isMuting viewer status.accountId &&
    !(db.mentions.any fun mention => decide (mention.statusId = status.id) && !mention.silent &&
      (db.isBlocking viewer mention.accountId || db.isMuting viewer mention.accountId)) &&
    !db.isDomainBlocking viewer author.domain

def inHomeTimeline (viewer : ℤ) (status : Status) : Bool :=
  (db.account status.accountId).any fun author => homeAuthorized db viewer status author &&
    (homeFollowed db viewer status author || homeTagged db viewer status author)

def homeTimeline (viewer : ℤ) : List ℤ := (db.statuses.filter (inHomeTimeline db viewer)).map Status.id

/-- `rest_home_timeline_ids`. -/
def restHomeTimelineIds (viewer : ℤ) (options : TimelineOptions) : List ℤ :=
  options.window.page (homeTimeline db viewer)

/-! ### Lists -/

/-- A row of the join of `REST_LIST_TIMELINE_SQL` is authorized. -/
def listAuthorized (viewer : ℤ) (overrides : Overrides) (status : Status) (author : Account)
    (memberFollow : Option Follow) : Bool :=
  (overrides.includeDeleted || status.deletedAt.isNone) && author.suspendedAt.isNone &&
    sourceNotSuspended db status && status.visibleAs [0, 1, 2] &&
    if status.accountId = viewer then true
    else if status.visibleAs [2] then memberFollow.isSome
    else if status.visibleAs [0, 1] then openToViewer db viewer status
    else false

def listWanted (viewer listId repliesPolicy : ℤ) (overrides : Overrides) (status : Status)
    (author : Account) (memberFollow : Option Follow) : Bool :=
  let own := decide (status.accountId = viewer)
  languageAllowed (memberFollow.bind Follow.languages) (overrides.languageOf status) &&
    replyKnown status &&
    (!status.reply || status.repliesTo status.accountId || status.repliesTo viewer ||
      (decide (repliesPolicy = 0) && status.inReplyToAccountId.any fun accountId =>
        db.listAccounts.any fun member => decide (member.listId = listId) &&
          decide (member.accountId = accountId)) ||
      (decide (repliesPolicy = 1) && status.inReplyToAccountId.any fun accountId =>
        db.isFollowing viewer accountId)) &&
    (own || status.reblogOfId.isNone ||
      ((liveSource db status).isSome && memberFollow.any Follow.showReblogs)) &&
    (own || !db.isBlocking viewer status.accountId) &&
    (own || !db.isBlocking status.accountId viewer) &&
    (own || !db.isMuting viewer status.accountId) &&
    (own || mentionsAllowed db viewer status) &&
    (own || sourceAllowed db viewer status) &&
    (own || !db.isDomainBlocking viewer author.domain)

/-- The rows of `list_accounts` that put a status on a list. -/
def listMembers (viewer listId : ℤ) (status : Status) : List ListAccount :=
  db.listAccounts.filter fun member => decide (member.listId = listId) &&
    decide (member.accountId = status.accountId) &&
      (member.followId.isSome || decide (status.accountId = viewer))

def inListTimeline (viewer listId repliesPolicy : ℤ) (overrides : Overrides) (status : Status)
    (member : ListAccount) : Bool :=
  (db.account status.accountId).any fun author =>
    let memberFollow := member.followId.bind db.followById
    listAuthorized db viewer overrides status author memberFollow &&
      listWanted db viewer listId repliesPolicy overrides status author memberFollow

/-- The ids of the join, one for each member. -/
def listRows (viewer listId repliesPolicy : ℤ) (overrides : Overrides) : List ℤ :=
  db.statuses.flatMap fun status =>
    ((listMembers db viewer listId status).filter
      (inListTimeline db viewer listId repliesPolicy overrides status)).map fun _ => status.id

/-- `SELECT replies_policy FROM lists WHERE id = $1 AND account_id = $2`. -/
def ownedList (viewer listId : ℤ) : Option UserList :=
  db.lists.find? fun list => decide (list.id = listId) && decide (list.accountId = viewer)

/-- The statuses of a list, if the viewer owns it. -/
def listTimeline (viewer listId : ℤ) (overrides : Overrides) : Option (List ℤ) :=
  (ownedList db viewer listId).map fun list => listRows db viewer listId list.repliesPolicy overrides

def restListTimelineIdsWithOverrides (viewer listId : ℤ) (options : TimelineOptions)
    (overrides : Overrides) : Option (List ℤ) :=
  (listTimeline db viewer listId overrides).map options.window.page

def restListTimelineIds (viewer listId : ℤ) (options : TimelineOptions) : Option (List ℤ) :=
  restListTimelineIdsWithOverrides db viewer listId options noOverrides

end Rustodon.Timelines
