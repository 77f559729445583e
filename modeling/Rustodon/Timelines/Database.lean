import Mathlib.Data.List.Nodup
import Mathlib.Data.Int.Notation
import Mathlib.Tactic.SplitIfs

/-! @src migrations/mastodon/v4.6.5/public-schema.sql | name:Rows behind the timelines | scheme:tables |
    family:timelines

    The tables that timelines read, with the keys that are unique. A comparison with a column that is
    NULL holds as little as one that is false. -/

namespace Rustodon.Timelines

structure Account where
  id : ℤ
  domain : Option String
  suspendedAt : Option ℤ
  silencedAt : Option ℤ
  deriving DecidableEq

structure User where
  accountId : ℤ
  disabled : Bool
  chosenLanguages : Option (List String)
  deriving DecidableEq

/-- `isLocal` is the column `local`. -/
structure Status where
  id : ℤ
  accountId : ℤ
  text : String
  spoilerText : String
  visibility : ℤ
  isLocal : Option Bool
  uri : Option String
  language : Option String
  reply : Bool
  inReplyToId : Option ℤ
  inReplyToAccountId : Option ℤ
  reblogOfId : Option ℤ
  orderedMediaAttachmentIds : Option (List ℤ)
  deletedAt : Option ℤ
  deriving DecidableEq

structure Follow where
  id : ℤ
  accountId : ℤ
  targetAccountId : ℤ
  showReblogs : Bool
  languages : Option (List String)
  deriving DecidableEq

structure Block where
  accountId : ℤ
  targetAccountId : ℤ
  deriving DecidableEq

structure Mute where
  accountId : ℤ
  targetAccountId : ℤ
  expiresAt : Option ℤ
  deriving DecidableEq

structure DomainBlock where
  accountId : ℤ
  domain : String
  deriving DecidableEq

structure Mention where
  statusId : ℤ
  accountId : ℤ
  silent : Bool
  deriving DecidableEq

/-- A row of `lists`. -/
structure UserList where
  id : ℤ
  accountId : ℤ
  exclusive : Bool
  repliesPolicy : ℤ
  deriving DecidableEq

structure ListAccount where
  listId : ℤ
  accountId : ℤ
  followId : Option ℤ
  deriving DecidableEq

structure Tag where
  id : ℤ
  name : String
  deriving DecidableEq

structure StatusTag where
  statusId : ℤ
  tagId : ℤ
  deriving DecidableEq

structure TagFollow where
  accountId : ℤ
  tagId : ℤ
  deriving DecidableEq

structure StatusPin where
  accountId : ℤ
  statusId : ℤ
  createdAt : ℤ
  deriving DecidableEq

structure MediaAttachment where
  id : ℤ
  statusId : Option ℤ
  description : Option String
  deriving DecidableEq

structure Database where
  accounts : List Account
  users : List User
  statuses : List Status
  follows : List Follow
  blocks : List Block
  mutes : List Mute
  domainBlocks : List DomainBlock
  mentions : List Mention
  lists : List UserList
  listAccounts : List ListAccount
  tags : List Tag
  statusTags : List StatusTag
  tagFollows : List TagFollow
  statusPins : List StatusPin
  mediaAttachments : List MediaAttachment
  account_ids : (accounts.map Account.id).Nodup
  status_ids : (statuses.map Status.id).Nodup
  follow_ids : (follows.map Follow.id).Nodup
  follow_keys : (follows.map fun follow => (follow.accountId, follow.targetAccountId)).Nodup
  list_ids : (lists.map UserList.id).Nodup
  member_keys : (listAccounts.map fun member => (member.accountId, member.listId)).Nodup
  pin_keys : (statusPins.map fun pin => (pin.accountId, pin.statusId)).Nodup

namespace Database

/-- A database without rows. -/
def empty : Database where
  accounts := []
  users := []
  statuses := []
  follows := []
  blocks := []
  mutes := []
  domainBlocks := []
  mentions := []
  lists := []
  listAccounts := []
  tags := []
  statusTags := []
  tagFollows := []
  statusPins := []
  mediaAttachments := []
  account_ids := by decide
  status_ids := by decide
  follow_ids := by decide
  follow_keys := by decide
  list_ids := by decide
  member_keys := by decide
  pin_keys := by decide

variable (db : Database)

/-! ### Rows by their keys -/

def account (id : ℤ) : Option Account := db.accounts.find? fun account => decide (account.id = id)

def status (id : ℤ) : Option Status := db.statuses.find? fun status => decide (status.id = id)

def followById (id : ℤ) : Option Follow := db.follows.find? fun follow => decide (follow.id = id)

def follow (accountId targetAccountId : ℤ) : Option Follow :=
  db.follows.find? fun follow => decide (follow.accountId = accountId) &&
    decide (follow.targetAccountId = targetAccountId)

/-! ### `EXISTS` -/

def isFollowing (accountId targetAccountId : ℤ) : Bool :=
  db.follows.any fun follow => decide (follow.accountId = accountId) &&
    decide (follow.targetAccountId = targetAccountId)

def isBlocking (accountId targetAccountId : ℤ) : Bool :=
  db.blocks.any fun block => decide (block.accountId = accountId) &&
    decide (block.targetAccountId = targetAccountId)

def isMuting (accountId targetAccountId : ℤ) : Bool :=
  db.mutes.any fun mute => decide (mute.accountId = accountId) &&
    decide (mute.targetAccountId = targetAccountId)

/-- A mute that has not run out. -/
def isMutingAt (now accountId targetAccountId : ℤ) : Bool :=
  db.mutes.any fun mute => decide (mute.accountId = accountId) &&
    decide (mute.targetAccountId = targetAccountId) &&
      (mute.expiresAt.isNone || mute.expiresAt.any fun expiresAt => decide (now < expiresAt))

/-- An account without a domain is in no blocked one. -/
def isDomainBlocking (accountId : ℤ) (domain : Option String) : Bool :=
  domain.any fun domain => db.domainBlocks.any fun block =>
    decide (block.accountId = accountId) && block.domain == domain

def isMentioning (statusId accountId : ℤ) : Bool :=
  db.mentions.any fun mention => decide (mention.statusId = statusId) &&
    decide (mention.accountId = accountId)

def hasMedia (statusId : ℤ) : Bool :=
  db.mediaAttachments.any fun media => media.statusId == some statusId

/-- The names of the tags of a status. -/
def tagNames (statusId : ℤ) : List String :=
  db.statusTags.flatMap fun statusTag =>
    if statusTag.statusId = statusId then
      (db.tags.filter fun tag => decide (tag.id = statusTag.tagId)).map Tag.name
    else []

/-! ### What the keys give -/

variable {db}

theorem mem_of_account {id : ℤ} {account : Account} (h : db.account id = some account) :
    account ∈ db.accounts ∧ account.id = id :=
  ⟨List.mem_of_find?_eq_some h, by simpa using List.find?_some h⟩

theorem mem_of_status {id : ℤ} {status : Status} (h : db.status id = some status) :
    status ∈ db.statuses ∧ status.id = id :=
  ⟨List.mem_of_find?_eq_some h, by simpa using List.find?_some h⟩

theorem mem_of_followById {id : ℤ} {follow : Follow} (h : db.followById id = some follow) :
    follow ∈ db.follows ∧ follow.id = id :=
  ⟨List.mem_of_find?_eq_some h, by simpa using List.find?_some h⟩

theorem status_of_mem {status : Status} (h : status ∈ db.statuses) :
    db.status status.id = some status := by
  cases hfind : db.status status.id with
  | none => simpa using List.find?_eq_none.mp hfind status h
  | some other =>
    obtain ⟨hmem, hid⟩ := mem_of_status hfind
    rw [List.inj_on_of_nodup_map db.status_ids hmem h hid]

theorem isFollowing_of_mem {follow : Follow} (h : follow ∈ db.follows) :
    db.isFollowing follow.accountId follow.targetAccountId :=
  List.any_eq_true.mpr ⟨follow, h, by simp⟩

theorem follow_isSome {accountId targetAccountId : ℤ} :
    (db.follow accountId targetAccountId).isSome = db.isFollowing accountId targetAccountId := by
  rw [Bool.eq_iff_iff, follow, isFollowing, List.find?_isSome, List.any_eq_true]

end Database

end Rustodon.Timelines
