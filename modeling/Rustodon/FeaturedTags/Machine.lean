import Rustodon.Html.StatusText
import Rustodon.Ingest.Accounts
import Rustodon.Schemes.Tables

/-! @src mastodon/write_repository.rs, write_repository/hashtag_controls.rs, mastodon/hashtag.rs,
    mastodon/repository.rs | name:Statistics of featured hashtags | scheme:tables | family:featured-tags

    The statuses and the featured hashtags of one local account, and the transactions that write them.
    Each of these takes the row of the account in its first statement, so that at most one of them is at
    work; it sees its own changes, and the hashtags that other accounts commit meanwhile. -/

namespace Rustodon.FeaturedTags
open Html (HtmlFormatter profileHashtags)
open Ingest (WriteError)
open Schemes.Tables (Table)
open Schemes.Utf8

/-! ### Names -/

/-- What the programs know of characters: `isWord` is one of `\p{L}\p{M}\p{N}\p{Pc}`, and `lower` the
    function of the database. -/
structure Unicode where
  formatter : HtmlFormatter
  toLowercase : Text → Text
  lowercaseChar : Char → Text
  nfkc : Text → Text
  isWord : Char → Bool
  lower : Text → Text

variable (u : Unicode)

def isSeparator (c : Char) : Bool :=
  c == '_' || c == Char.ofNat 0xB7 || c == Char.ofNat 0x30FB || c == Char.ofNat 0x200C

/-- A character of one class among characters of another one. -/
def hasOneAmong (one others : Char → Bool) (name : Text) : Bool :=
  (List.range name.length).any fun i =>
    (name.take i).all others && name[i]?.any one && (name.drop (i + 1)).all others

def validName (name : Text) : Bool :=
  (match name with
    | first :: rest =>
      u.isWord first && rest.getLast?.any u.isWord &&
        hasOneAmong (fun c => u.formatter.isAlphabetic c || isSeparator c)
          (fun c => u.isWord c || isSeparator c) rest.dropLast
    | [] => false) ||
    hasOneAmong u.formatter.isAlphabetic u.isWord name

def isTrimmed (c : Char) : Bool :=
  c == ' ' || c == '\t' || c == '\n' || c == Char.ofNat 0xC || c == '\r' || c == Char.ofNat 0

def featuredName (name : Text) : Text :=
  match (name.dropWhile isTrimmed).rdropWhile isTrimmed with
  | '#' :: name => name
  | name => name

def nonAscii : Text :=
  "ÀÁÂÃÄÅàáâãäåĀāĂăĄąÇçĆćĈĉĊċČčÐðĎďĐđÈÉÊËèéêëĒēĔĕĖėĘęĚěĜĝĞğĠġĢģĤĥĦħÌÍÎÏìíîïĨĩĪīĬĭĮįİıĴĵĶķĸĹĺĻļĽľĿŀŁłÑñŃńŅņŇňŉŊŋÒÓÔÕÖØòóôõöøŌōŎŏŐőŔŕŖŗŘřŚśŜŝŞşŠšſŢţŤťŦŧÙÚÛÜùúûüŨũŪūŬŭŮůŰűŲųŴŵÝýÿŶŷŸŹźŻżŽž".toList

def ascii : Text :=
  "AAAAAAaaaaaaAaAaAaCcCcCcCcCcDdDdDdEEEEeeeeEeEeEeEeEeGgGgGgGgHhHhIIIIiiiiIiIiIiIiIiJjKkkLlLlLlLlLlNnNnNnNnnNnOOOOOOooooooOoOoOoRrRrRrSsSsSsSssTtTtTtUUUUuuuuUuUuUuUuUuUuWwYyyYyYZzZzZz".toList

def withoutAccent (c : Char) : Char :=
  ((nonAscii.idxOf? c).bind fun index => ascii[index]?).getD c

def isTagChar (c : Char) : Bool :=
  u.formatter.isAlphanumeric c || c == '_' || c == Char.ofNat 0xB7 || c == Char.ofNat 0x30FB ||
    c == Char.ofNat 0x200C || (0xE47 ≤ c.toNat && c.toNat ≤ 0xE4E)

def normalizeHashtag (value : Text) : Text :=
  (((u.nfkc value).flatMap u.lowercaseChar).map withoutAccent).filter (isTagChar u)

/-! ### Rows -/

structure Tag where
  id : ℤ
  name : Text
  deriving DecidableEq

/-- A row of `statuses` with its rows of `statuses_tags`. -/
structure Status where
  id : ℤ
  text : Text
  visibility : ℤ
  createdAt : ℤ
  deletedAt : Option ℤ
  reblogOfId : Option ℤ
  tagIds : List ℤ
  tagIds_nodup : tagIds.Nodup
  deriving DecidableEq

/-- A row of `featured_tags`; the account and the tag are unique together. -/
structure FeaturedTag where
  id : ℤ
  tagId : ℤ
  name : Option Text
  statusesCount : ℤ
  lastStatusAt : Option ℤ
  deriving DecidableEq

/-- The rows of the account. -/
structure Rows where
  statuses : Table Status.id
  featuredTags : Table FeaturedTag.tagId

/-- `visibility IN (0, 1)`. -/
def isListed (visibility : ℤ) : Bool := visibility == 0 || visibility == 1

/-- A live public or unlisted status that carries the tag. -/
def Status.counts (tagId : ℤ) (status : Status) : Bool :=
  status.deletedAt.isNone && isListed status.visibility && decide (tagId ∈ status.tagIds)

/-- When the statuses that count for a tag were created. -/
def times (statuses : List Status) (tagId : ℤ) : List ℤ :=
  (statuses.filter (Status.counts tagId)).map Status.createdAt

/-! ### Statements -/

/-- `INSERT INTO statuses_tags … ON CONFLICT DO NOTHING`. -/
def Status.addTag (tagId : ℤ) (status : Status) : Status :=
  if h : tagId ∈ status.tagIds then status
  else { status with tagIds := tagId :: status.tagIds, tagIds_nodup := List.nodup_cons.mpr ⟨h, status.tagIds_nodup⟩ }

/-- `DELETE FROM statuses_tags`, and the new text. -/
def Status.retext (text : Text) (status : Status) : Status :=
  { status with text, tagIds := [], tagIds_nodup := List.nodup_nil }

/-- What a deletion marks: the status, and its boosts if it is not a boost. -/
def isDiscarded (deleted row : Status) : Bool :=
  row.id == deleted.id ||
    (deleted.reblogOfId.isNone && row.reblogOfId == some deleted.id && row.deletedAt.isNone)

def Status.discard (deleted : Status) (deletedAt : ℤ) (row : Status) : Status :=
  if isDiscarded deleted row then { row with deletedAt := some deletedAt } else row

def FeaturedTag.decrement (statuses : List Status) (featured : FeaturedTag) : FeaturedTag :=
  { featured with
    statusesCount := max (featured.statusesCount - 1) 0
    lastStatusAt := if featured.statusesCount ≤ 1 then none else (times statuses featured.tagId).max? }

def FeaturedTag.increment (statusCreatedAt : ℤ) (featured : FeaturedTag) : FeaturedTag :=
  { featured with
    statusesCount := featured.statusesCount + 1
    lastStatusAt := some statusCreatedAt }

@[simp] theorem Status.addTag_id (tagId : ℤ) (status : Status) : (status.addTag tagId).id = status.id := by
  rw [addTag]
  split <;> rfl

@[simp] theorem Status.retext_id (text : Text) (status : Status) : (status.retext text).id = status.id := rfl

@[simp] theorem Status.discard_id (deleted : Status) (deletedAt : ℤ) (row : Status) :
    (deleted.discard deletedAt row).id = row.id := by
  rw [discard]
  split <;> rfl

@[simp] theorem FeaturedTag.decrement_tagId (statuses : List Status) (featured : FeaturedTag) :
    (featured.decrement statuses).tagId = featured.tagId := rfl

@[simp] theorem FeaturedTag.increment_tagId (statusCreatedAt : ℤ) (featured : FeaturedTag) :
    (featured.increment statusCreatedAt).tagId = featured.tagId := rfl

theorem Status.id_of_discard {deleted : Status} {deletedAt : ℤ} (row row' : Status)
    (h : some (deleted.discard deletedAt row) = some row') : row'.id = row.id := by
  rw [← Option.some.inj h, discard_id]

def Rows.addTag (rows : Rows) (statusId tagId : ℤ) : Rows :=
  { rows with statuses := rows.statuses.modify statusId (Status.addTag tagId) (Status.addTag_id tagId) }

def Rows.retext (rows : Rows) (statusId : ℤ) (text : Text) : Rows :=
  { rows with statuses := rows.statuses.modify statusId (Status.retext text) (Status.retext_id text) }

def Rows.discard (rows : Rows) (deleted : Status) (deletedAt : ℤ) : Rows :=
  { rows with
    statuses := rows.statuses.filterMap (fun row => some (deleted.discard deletedAt row)) Status.id_of_discard }

def decrementFeaturedTag (rows : Rows) (tagId : ℤ) : Rows :=
  { rows with
    featuredTags := rows.featuredTags.modify tagId (FeaturedTag.decrement rows.statuses.rows)
      (FeaturedTag.decrement_tagId rows.statuses.rows) }

def incrementFeaturedTag (rows : Rows) (statusCreatedAt tagId : ℤ) : Rows :=
  { rows with
    featuredTags := rows.featuredTags.modify tagId (FeaturedTag.increment statusCreatedAt)
      (FeaturedTag.increment_tagId statusCreatedAt) }

/-- `SELECT id FROM tags WHERE lower(name) = lower($1)`. -/
def findTag (tags : List Tag) (name : Text) : Option Tag :=
  tags.find? fun tag => u.lower tag.name == u.lower name

/-! ### Requests about hashtags -/

/-- Features a tag for the account, or takes this back. -/
def setFeatured (rows : Rows) (tagId : ℤ) (name : Text) (enabled collectionName : Bool) (newFeaturedId : ℤ) :
    Except WriteError Rows :=
  if enabled then
    match rows.featuredTags.get tagId with
    | some existing =>
      if collectionName && existing.name != some name then
        .error (.validation "Tag has already been taken")
      else .ok rows
    | none =>
      if 10 ≤ rows.featuredTags.rows.length then
        .error (.validation "You have already featured the maximum number of hashtags")
      else
        let counted := times rows.statuses.rows tagId
        match rows.featuredTags.insert
          ⟨newFeaturedId, tagId, if collectionName then some name else none, counted.length, counted.max?⟩ with
        | none => .error .database
        | some featuredTags => .ok { rows with featuredTags }
  else .ok { rows with featuredTags := rows.featuredTags.erase tagId }

/-- What the request that features a hashtag, follows it or takes this back inserts into the tags, and the
    rows of the account after it; the rows of `tag_follows` are none of these. -/
def setTagRelationship (tags : List Tag) (rows : Rows) (name : Text) (featured enabled collectionName : Bool)
    (newTagId newFeaturedId : ℤ) : Except WriteError (List Tag × Rows) :=
  let name := if collectionName then featuredName name else name
  let normalized := normalizeHashtag u name
  if !validName u name then
    .error (if collectionName then .validation "Name is invalid" else .notFound)
  else if enabled && !validName u normalized then .error (.validation "Name is invalid")
  else
    let inserted := if enabled && (findTag u tags normalized).isNone then [⟨newTagId, normalized⟩] else []
    match findTag u (tags ++ inserted) normalized with
    | some tag =>
      if featured then
        (setFeatured rows tag.id name enabled collectionName newFeaturedId).map fun rows => (inserted, rows)
      else .ok (inserted, rows)
    | none => .ok (inserted, rows)

def removeFeaturedTag (rows : Rows) (id : ℤ) : Except WriteError Rows :=
  match rows.featuredTags.rows.find? fun featured => featured.id == id with
  | none => .error .notFound
  | some featured => .ok { rows with featuredTags := rows.featuredTags.erase featured.tagId }

/-! ### Transactions -/

/-- `update_status_tags`, while it looks the hashtags of the text up. -/
structure Tagging where
  statusId : ℤ
  visibility : ℤ
  statusCreatedAt : ℤ
  hashtags : List Text
  currentTagIds : List ℤ
  previousTagIds : List ℤ

/-- What remains to be done: hashtags to look up, or tags to uncount and tags to count. -/
inductive Work where
  | tagging (tagging : Tagging)
  | counting (statusId statusCreatedAt : ℤ) (removed added : List ℤ)

/-- The transaction that holds the row of the account: the tags it has inserted, and its rows. -/
structure Active where
  tags : List Tag
  rows : Rows
  work : Work

structure State where
  tags : List Tag
  rows : Rows
  active : Option Active

/-- The tags that the transaction sees. -/
def State.view (s : State) : List Tag := s.tags ++ s.active.elim [] Active.tags

def Work.finished : Work := .counting 0 0 [] []

/-- `update_status_tags` has looked all hashtags up. -/
def Tagging.counting (tagging : Tagging) : Work :=
  if isListed tagging.visibility then
    .counting tagging.statusId tagging.statusCreatedAt
      (tagging.previousTagIds.filter fun tagId => decide (tagId ∉ tagging.currentTagIds))
      (tagging.currentTagIds.filter fun tagId => decide (tagId ∉ tagging.previousTagIds))
  else .finished

/-- The next statements of the transaction; an inserted tag has the new id. -/
def Active.advance (active : Active) (view : List Tag) (newTagId : ℤ) : Option Active :=
  match active.work with
  | .tagging tagging =>
    match tagging.hashtags with
    | [] => some { active with work := tagging.counting }
    | hashtag :: hashtags =>
      let found := findTag u view hashtag
      let tagId := found.elim newTagId Tag.id
      some
        { tags := if found.isNone then active.tags ++ [⟨newTagId, hashtag⟩] else active.tags
          rows := active.rows.addTag tagging.statusId tagId
          work := .tagging { tagging with hashtags, currentTagIds := tagging.currentTagIds ++ [tagId] } }
  | .counting statusId statusCreatedAt (tagId :: removed) added =>
    some { active with
      rows := decrementFeaturedTag active.rows tagId
      work := .counting statusId statusCreatedAt removed added }
  | .counting statusId statusCreatedAt [] (tagId :: added) =>
    some { active with
      rows := incrementFeaturedTag active.rows statusCreatedAt tagId
      work := .counting statusId statusCreatedAt [] added }
  | .counting _ _ [] [] => none

inductive Action where
  /-- Another account commits a tag. -/
  | otherTag (tag : Tag)
  | createStatus (id : ℤ) (text : Text) (visibility createdAt : ℤ)
  | reblog (id reblogOfId visibility createdAt : ℤ)
  | updateStatus (statusId : ℤ) (text : Option Text)
  | deleteStatus (statusId deletedAt : ℤ)
  | setTagRelationship (name : Text) (featured enabled collectionName : Bool) (newTagId newFeaturedId : ℤ)
  | removeFeaturedTag (id : ℤ)
  | advance (newTagId : ℤ)
  | commit
  | abort

def createStatus (rows : Rows) (id : ℤ) (text : Text) (visibility createdAt : ℤ) : Option Active := do
  let statuses ← rows.statuses.insert ⟨id, trim text, visibility, createdAt, none, none, [], List.nodup_nil⟩
  some ⟨[], { rows with statuses },
    .tagging ⟨id, visibility, createdAt, profileHashtags u.formatter u.toLowercase (trim text), [], []⟩⟩

def reblog (rows : Rows) (id reblogOfId visibility createdAt : ℤ) : Option Active := do
  let statuses ← rows.statuses.insert ⟨id, [], visibility, createdAt, none, some reblogOfId, [], List.nodup_nil⟩
  some ⟨[], { rows with statuses }, .finished⟩

def updateStatus (rows : Rows) (statusId : ℤ) (text : Option Text) : Except WriteError Active :=
  match (rows.statuses.get statusId).filter fun status => status.deletedAt.isNone with
  | none => .error .notFound
  | some status =>
    let nextText := text.elim status.text trim
    if status.text = nextText then .ok ⟨[], rows, .finished⟩
    else
      .ok ⟨[], rows.retext statusId nextText,
        .tagging ⟨statusId, status.visibility, status.createdAt,
          profileHashtags u.formatter u.toLowercase nextText, [], status.tagIds⟩⟩

def deleteStatus (rows : Rows) (statusId deletedAt : ℤ) : Except WriteError Active :=
  match (rows.statuses.get statusId).filter fun status => status.deletedAt.isNone with
  | none => .error .notFound
  | some status =>
    .ok ⟨[], rows.discard status deletedAt,
      .counting statusId status.createdAt (if isListed status.visibility then status.tagIds else []) []⟩

/-- A transaction that begins with the row of the account; an error rolls it back. -/
def State.begin (s : State) (result : Except WriteError Active) : Option State :=
  match s.active with
  | some _ => none
  | none =>
    match result with
    | .ok active => some { s with active := some active }
    | .error _ => some s

/-- One step; `none` where the action is not possible, or has to wait. -/
def State.step (s : State) : Action → Option State
  | .otherTag tag =>
    if (findTag u s.view tag.name).isNone && decide (tag.id ∉ s.view.map Tag.id) then
      some { s with tags := s.tags ++ [tag] }
    else none
  | .createStatus id text visibility createdAt => do
    s.begin (.ok (← createStatus u s.rows id text visibility createdAt))
  | .reblog id reblogOfId visibility createdAt => do
    s.begin (.ok (← reblog s.rows id reblogOfId visibility createdAt))
  | .updateStatus statusId text => s.begin (updateStatus u s.rows statusId text)
  | .deleteStatus statusId deletedAt => s.begin (deleteStatus s.rows statusId deletedAt)
  | .setTagRelationship name featured enabled collectionName newTagId newFeaturedId =>
    if newTagId ∈ s.view.map Tag.id then none
    else
      s.begin ((setTagRelationship u s.tags s.rows name featured enabled collectionName newTagId newFeaturedId).map
        fun (inserted, rows) => ⟨inserted, rows, .finished⟩)
  | .removeFeaturedTag id => s.begin ((removeFeaturedTag s.rows id).map fun rows => ⟨[], rows, .finished⟩)
  | .advance newTagId =>
    if newTagId ∈ s.view.map Tag.id then none
    else
      match s.active with
      | none => none
      | some active => (active.advance u s.view newTagId).map fun active => { s with active := some active }
  | .commit =>
    match s.active with
    | some ⟨tags, rows, .counting _ _ [] []⟩ => some ⟨s.tags ++ tags, rows, none⟩
    | _ => none
  | .abort => if s.active.isSome then some { s with active := none } else none

end Rustodon.FeaturedTags
