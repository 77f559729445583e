import Rustodon.FeaturedTags.Machine
import Rustodon.Schemes.Windows
import Rustodon.Timelines.Access

/-! @src mastodon/repository.rs | name:Timelines | scheme:windows | family:timelines

    The queries of the timelines: which statuses each of them is about, and the page of them that is
    asked for. Their conditions stand in the order of the source. -/

namespace Rustodon.Timelines
open FeaturedTags (Unicode normalizeHashtag)
open Schemes.Windows

/-! ### Options -/

structure TimelineOptions where
  maxId : Option ℤ
  minId : Option ℤ
  sinceId : Option ℤ
  limit : ℤ
  localOnly : Bool
  remoteOnly : Bool
  onlyMedia : Bool

structure TagTimelineOptions where
  page : TimelineOptions
  any : List String
  all : List String
  none : List String

structure AccountStatusesOptions where
  maxId : Option ℤ
  minId : Option ℤ
  sinceId : Option ℤ
  limit : ℤ
  pinned : Bool
  tagged : Option String
  onlyMedia : Bool
  excludeReplies : Bool
  excludeReblogs : Bool
  excludeDirect : Bool

/-- `limit.clamp(0, 40)`. -/
def clampLimit (limit : ℤ) : ℕ := (max 0 (min limit 40)).toNat

def TimelineOptions.window (options : TimelineOptions) : Window ℤ :=
  ⟨options.maxId, options.minId, options.sinceId, clampLimit options.limit⟩

def AccountStatusesOptions.window (options : AccountStatusesOptions) : Window ℤ :=
  ⟨options.maxId, options.minId, options.sinceId, clampLimit options.limit⟩

/-- What a query is told of a status that is gone or has changed. -/
structure Overrides where
  includeDeleted : Bool
  tagMatches : Option Bool
  hadMedia : Option Bool
  language : Option String
  overrideLanguage : Bool

def noOverrides : Overrides := ⟨false, none, none, none, false⟩

def Overrides.languageOf (overrides : Overrides) (status : Status) : Option String :=
  if overrides.overrideLanguage then overrides.language else status.language

/-- `status.visibility IN (…)`. -/
def Status.visibleAs (status : Status) (visibilities : List ℤ) : Bool :=
  visibilities.contains status.visibility

/-- `status.in_reply_to_account_id = …`. -/
def Status.repliesTo (status : Status) (accountId : ℤ) : Bool :=
  status.inReplyToAccountId == some accountId

/-- `lower(name)` and `normalize_hashtag(name)`. -/
def lowerName (u : Unicode) (name : String) : String := String.ofList (u.lower name.toList)

def normalizeName (u : Unicode) (name : String) : String := String.ofList (normalizeHashtag u name.toList)

section Queries

variable (u : Unicode) (db : Database)

/-! ### Statuses of an account -/

def accountStatusAllowed (accountId : ℤ) (viewerAccountId : Option ℤ) (excludeDirect : Bool)
    (status : Status) : Bool :=
  match viewerAccountId with
  | none => status.visibleAs [0, 1]
  | some viewer =>
    if viewer = accountId then
      if excludeDirect then status.visibleAs [0, 1, 2] else status.visibleAs [0, 1, 2, 3, 4]
    else if db.isBlocking accountId viewer ||
        db.isDomainBlocking accountId (viewerDomain db (some viewer)) then
      false
    else if excludeDirect then
      status.visibleAs [0, 1] || (status.visibleAs [2] && db.isFollowing viewer accountId)
    else
      status.visibleAs [0, 1] || (status.visibleAs [2] && db.isFollowing viewer accountId) ||
        (status.visibleAs [2, 3, 4] && db.isMentioning status.id viewer)

/-- The boosted author is nobody whom the viewer does not want to see, or who does not want to be seen. -/
def reblogSourceAllowed (viewer : ℤ) (sourceId : ℤ) : Bool :=
  !((db.status sourceId).any fun source =>
    (db.account source.accountId).any fun sourceAuthor =>
      db.isBlocking viewer source.accountId || db.isBlocking source.accountId viewer ||
        db.isMuting viewer source.accountId || db.isDomainBlocking viewer sourceAuthor.domain)

def inAccountTimeline (accountId : ℤ) (viewerAccountId : Option ℤ) (options : AccountStatusesOptions)
    (status : Status) : Bool :=
  let tagged := options.tagged.map (normalizeName u)
  let filterReblogSources := !options.excludeReblogs && !options.onlyMedia && tagged.isNone
  (db.account status.accountId).any fun author =>
    decide (status.accountId = accountId) && status.deletedAt.isNone && author.suspendedAt.isNone &&
      accountStatusAllowed db accountId viewerAccountId options.excludeDirect status &&
      (!options.pinned || db.statusPins.any fun pin =>
        decide (pin.accountId = accountId) && decide (pin.statusId = status.id)) &&
      tagged.all (fun name => (db.tagNames status.id).contains name) &&
      (!options.onlyMedia ||
        (status.orderedMediaAttachmentIds.all fun ids => decide (0 < ids.length)) &&
          db.hasMedia status.id) &&
      (!options.excludeReplies || !status.reply || status.repliesTo status.accountId) &&
      (!options.excludeReblogs || status.reblogOfId.isNone) &&
      (status.reblogOfId.all fun sourceId =>
        (db.status sourceId).any fun source => source.deletedAt.isNone) &&
      (!filterReblogSources || viewerAccountId == some accountId || status.reblogOfId.all fun sourceId =>
        viewerAccountId.all fun viewer => reblogSourceAllowed db viewer sourceId)

def accountTimeline (accountId : ℤ) (viewerAccountId : Option ℤ) (options : AccountStatusesOptions) :
    List ℤ :=
  (db.statuses.filter (inAccountTimeline u db accountId viewerAccountId options)).map Status.id

/-- When a status was pinned by its author. -/
def pinnedAt (accountId statusId : ℤ) : Option ℤ :=
  (db.statusPins.find? fun pin => decide (pin.accountId = accountId) && decide (pin.statusId = statusId)).map
    StatusPin.createdAt

/-- `pin.created_at DESC, status.id DESC`. -/
def pinnedBefore (accountId a b : ℤ) : Bool :=
  let pinned := fun id => (pinnedAt db accountId id).getD 0
  decide (pinned b < pinned a) || (decide (pinned a = pinned b) && decide (b ≤ a))

/-- `rest_account_status_ids`. -/
def restAccountStatusIds (accountId : ℤ) (viewerAccountId : Option ℤ)
    (options : AccountStatusesOptions) : List ℤ :=
  let ids := accountTimeline u db accountId viewerAccountId options
  if options.minId.isNone && options.pinned then
    ((ids.filter options.window.has).insertionSort fun a b => pinnedBefore db accountId a b).take
      options.window.limit
  else options.window.page ids

/-! ### The public timeline -/

/-- A viewer does not see those who are blocked or muted, nor those who block the viewer. -/
def publicAuthorAllowed (viewer : ℤ) (status : Status) (author : Account) : Bool :=
  !db.isBlocking viewer status.accountId && !db.isBlocking status.accountId viewer &&
    !db.isMuting viewer status.accountId && !db.isDomainBlocking viewer author.domain

/-- The viewer has chosen no languages, or this one. -/
def chosenLanguage (viewer : ℤ) (language : Option String) : Bool :=
  !(db.users.any fun user => decide (user.accountId = viewer) &&
      user.chosenLanguages.any fun languages => decide (0 < languages.length)) ||
    language.any fun language => db.users.any fun user => decide (user.accountId = viewer) &&
      user.chosenLanguages.any fun languages => languages.contains language

def localityAllowed (options : TimelineOptions) (status : Status) : Bool :=
  (!(options.localOnly && !options.remoteOnly) || status.isLocal == some true || status.uri.isNone) &&
    (!(options.remoteOnly && !options.localOnly) || (status.isLocal == some false && status.uri.isSome))

def inPublicTimeline (viewerAccountId : Option ℤ) (options : TimelineOptions) (overrides : Overrides)
    (status : Status) : Bool :=
  (db.account status.accountId).any fun author =>
    (overrides.includeDeleted || status.deletedAt.isNone) && status.visibleAs [0] &&
      author.suspendedAt.isNone && author.silencedAt.isNone && status.reblogOfId.isNone &&
      (!status.reply || status.repliesTo status.accountId) && localityAllowed options status &&
      (!options.onlyMedia || overrides.hadMedia.getD (db.hasMedia status.id)) &&
      viewerAccountId.all fun viewer => publicAuthorAllowed db viewer status author &&
        chosenLanguage db viewer (overrides.languageOf status)

def publicTimeline (viewerAccountId : Option ℤ) (options : TimelineOptions) (overrides : Overrides) :
    List ℤ :=
  (db.statuses.filter (inPublicTimeline db viewerAccountId options overrides)).map Status.id

def restPublicTimelineIdsWithOverrides (viewerAccountId : Option ℤ) (options : TimelineOptions)
    (overrides : Overrides) : List ℤ :=
  options.window.page (publicTimeline db viewerAccountId options overrides)

def restPublicTimelineIds (viewerAccountId : Option ℤ) (options : TimelineOptions) : List ℤ :=
  restPublicTimelineIdsWithOverrides db viewerAccountId options noOverrides

/-! ### Timelines of hashtags -/

/-- The first four names that differ, the tag's own first. -/
def rawAny (tagName : String) (any : List String) : List String := ((tagName :: any).eraseDups).take 4

def tagExists (tagName : String) : Bool :=
  db.tags.any fun tag => lowerName u tag.name == lowerName u tagName

/-- The lower-case names of the tags of a status. -/
def lowerTagNames (statusId : ℤ) : List String := (db.tagNames statusId).map (lowerName u)

def tagsAllowed (any all none : List String) (overrides : Overrides) (status : Status) : Bool :=
  overrides.tagMatches.getD ((lowerTagNames u db status.id).any fun name => any.contains name) &&
    (all.all fun required => !(db.tags.any fun tag => lowerName u tag.name == required) ||
      (lowerTagNames u db status.id).contains required) &&
    !((lowerTagNames u db status.id).any fun name => none.contains name)

def inTagTimeline (tagName : String) (viewerAccountId : Option ℤ) (options : TagTimelineOptions)
    (overrides : Overrides) (status : Status) : Bool :=
  let tagName := normalizeName u tagName
  tagExists u db tagName && (db.account status.accountId).any fun author =>
    (overrides.includeDeleted || status.deletedAt.isNone) && status.visibleAs [0] &&
      author.suspendedAt.isNone && author.silencedAt.isNone &&
      tagsAllowed u db ((rawAny tagName options.any).map (normalizeName u))
        ((options.all.take 4).map (normalizeName u)) ((options.none.take 4).map (normalizeName u))
        overrides status &&
      localityAllowed options.page status &&
      (!options.page.onlyMedia || overrides.hadMedia.getD (db.hasMedia status.id)) &&
      viewerAccountId.all fun viewer => publicAuthorAllowed db viewer status author

def tagTimeline (tagName : String) (viewerAccountId : Option ℤ) (options : TagTimelineOptions)
    (overrides : Overrides) : List ℤ :=
  (db.statuses.filter (inTagTimeline u db tagName viewerAccountId options overrides)).map Status.id

def restTagTimelineIdsWithOverrides (tagName : String) (viewerAccountId : Option ℤ)
    (options : TagTimelineOptions) (overrides : Overrides) : List ℤ :=
  options.page.window.page (tagTimeline u db tagName viewerAccountId options overrides)

def restTagTimelineIds (tagName : String) (viewerAccountId : Option ℤ) (options : TagTimelineOptions) :
    List ℤ :=
  restTagTimelineIdsWithOverrides u db tagName viewerAccountId options noOverrides

end Queries

end Rustodon.Timelines
