import Mathlib.Data.Char
import Mathlib.Data.List.Dedup
import Rustodon.Schemes.Groups
import Rustodon.Streaming.Routes
import Rustodon.Timelines.Feeds

/-! @src mastodon/write_repository.rs | name:Route snapshots of statuses | scheme:groups |
    family:timelines

    To which timelines a status belongs when something happens to it: what `status_timeline_snapshots`
    reads, for all lists at once. -/

namespace Rustodon.Timelines
open FeaturedTags (Unicode)
open Schemes.Groups
open Streaming (TimelineListRoute TimelineRouteSnapshot)

/-! ### Rows of statuses -/

/-- `OR` in three-valued logic, where NULL is `none`. -/
def sqlOr : Option Bool → Option Bool → Option Bool
  | some true, _ => some true
  | _, some true => some true
  | some false, some false => some false
  | _, _ => none

section Snapshots

variable (u : Unicode) (db : Database)

/-- `status.visibility = 0 AND author.suspended_at IS NULL AND author.silenced_at IS NULL`. -/
def hashtagShown (status : Status) (author : Account) : Bool :=
  status.visibleAs [0] && author.suspendedAt.isNone && author.silencedAt.isNone

def publicShown (status : Status) (author : Account) : Bool :=
  status.visibleAs [0] && author.suspendedAt.isNone && author.silencedAt.isNone &&
    status.reblogOfId.isNone && (!status.reply || status.repliesTo status.accountId)

/-- A row is read only if its last column is not NULL. -/
def snapshotRow (status : Status) (author : Account) : Option (ℤ × TimelineRouteSnapshot) :=
  (sqlOr status.isLocal (some status.uri.isNone)).map fun isLocal =>
    (status.id, {
      isPublic := publicShown status author
      hashtag := hashtagShown status author
      isLocal := isLocal
      hadMedia := db.hasMedia status.id
      language := status.language
      tags := []
      lists := [] })

/-- The statuses of a chunk with their authors. -/
def chunkStatuses (chunk : List ℤ) : List (Status × Account) :=
  (db.statuses.filter fun status => chunk.contains status.id).filterMap fun status =>
    (db.account status.accountId).map fun author => (status, author)

/-! ### Rows of tags -/

def addTag (snapshot : TimelineRouteSnapshot) (name : String) : TimelineRouteSnapshot :=
  { snapshot with tags := snapshot.tags ++ [normalizeName u name] }

/-- The order of these rows is lost when the tags of a snapshot are sorted. -/
def tagRows (chunk : List ℤ) : List (ℤ × String) :=
  (db.statusTags.filter fun statusTag => chunk.contains statusTag.statusId).flatMap fun statusTag =>
    (db.tags.filter fun tag => decide (tag.id = statusTag.tagId)).map fun tag =>
      (statusTag.statusId, tag.name)

/-! ### Rows of lists -/

def addList (snapshot : TimelineRouteSnapshot) (route : TimelineListRoute) : TimelineRouteSnapshot :=
  { snapshot with lists := snapshot.lists ++ [route] }

def routeAuthorized (list : UserList) (status : Status) (author : Account)
    (memberFollow : Option Follow) : Bool :=
  author.suspendedAt.isNone && sourceNotSuspended db status && status.visibleAs [0, 1, 2] &&
    if status.accountId = list.accountId then true
    else if status.visibleAs [2] then memberFollow.isSome
    else if status.visibleAs [0, 1] then openToViewer db list.accountId status
    else false

def routeWanted (list : UserList) (status : Status) (author : Account)
    (memberFollow : Option Follow) : Bool :=
  let own := decide (status.accountId = list.accountId)
  languageAllowed (memberFollow.bind Follow.languages) status.language &&
    replyKnown status &&
    (!status.reply || status.repliesTo status.accountId || status.repliesTo list.accountId ||
      (decide (list.repliesPolicy = 0) && status.inReplyToAccountId.any fun accountId =>
        db.listAccounts.any fun member => decide (member.listId = list.id) &&
          decide (member.accountId = accountId)) ||
      (decide (list.repliesPolicy = 1) && status.inReplyToAccountId.any fun accountId =>
        db.isFollowing list.accountId accountId)) &&
    (own || status.reblogOfId.isNone ||
      ((liveSource db status).isSome && memberFollow.any Follow.showReblogs)) &&
    (own || !db.isBlocking list.accountId status.accountId) &&
    (own || !db.isBlocking status.accountId list.accountId) &&
    (own || !db.isMuting list.accountId status.accountId) &&
    (own || mentionsAllowed db list.accountId status) &&
    (own || sourceAllowed db list.accountId status) &&
    (own || !db.isDomainBlocking list.accountId author.domain)

/-- A row of the join: a status, a member of a list that is its author, and the list. -/
def isRoute (status : Status) (member : ListAccount) (list : UserList) : Bool :=
  (db.account status.accountId).any fun author =>
    let memberFollow := member.followId.bind db.followById
    decide (member.accountId = status.accountId) && decide (list.id = member.listId) &&
      (member.followId.isSome || decide (status.accountId = list.accountId)) &&
      routeAuthorized db list status author memberFollow &&
      routeWanted db list status author memberFollow

/-- `status.id, list.account_id, list.id`. -/
def routeBefore (a b : ℤ × TimelineListRoute) : Bool :=
  decide (a.1 < b.1) || (decide (a.1 = b.1) && (decide (a.2.accountId < b.2.accountId) ||
    (decide (a.2.accountId = b.2.accountId) && decide (a.2.listId ≤ b.2.listId))))

def routeRows (chunk : List ℤ) : List (ℤ × TimelineListRoute) :=
  ((db.statuses.filter fun status => chunk.contains status.id).flatMap fun status =>
    db.listAccounts.flatMap fun member =>
      (db.lists.filter (isRoute db status member)).map fun list =>
        (status.id, (⟨list.accountId, list.id⟩ : TimelineListRoute))).dedup.insertionSort
          fun a b => routeBefore a b

/-! ### Snapshots -/

/-- One round of the loop. -/
def readChunk (snapshots : ℤ → Option TimelineRouteSnapshot) (chunk : List ℤ) :
    Option (ℤ → Option TimelineRouteSnapshot) :=
  ((chunkStatuses db chunk).mapM fun row => snapshotRow db row.1 row.2).map fun rows =>
    let inserted := rows.foldl put snapshots
    let tagged := (tagRows db chunk).foldl (push (addTag u)) inserted
    (routeRows db chunk).foldl (push addList) tagged

/-- `sort` and `dedup`. -/
def finishSnapshot (snapshot : TimelineRouteSnapshot) : TimelineRouteSnapshot :=
  { snapshot with
    tags := (snapshot.tags.insertionSort fun a b => a ≤ b).dedup
    lists := snapshot.lists.dedup }

def statusTimelineSnapshots (statusIds : List ℤ) : Option (ℤ → Option TimelineRouteSnapshot) :=
  ((chunks 128 statusIds).foldlM (readChunk u db) fun _ => none).map fun snapshots id =>
    (snapshots id).map finishSnapshot

end Snapshots

end Rustodon.Timelines
