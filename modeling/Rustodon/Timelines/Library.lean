import Rustodon.Timelines.Feeds

/-! @src mastodon/repository.rs | name:Rows around statuses | scheme:tables | family:timelines

    Quotes and polls stand in tables of their own, and the media of a status in the order that the
    status gives them. -/

namespace Rustodon.Timelines

structure Quote where
  id : ℤ
  statusId : ℤ
  quotedStatusId : Option ℤ
  state : ℤ
  legacy : Bool
  deriving DecidableEq

structure Poll where
  id : ℤ
  accountId : ℤ
  statusId : ℤ
  options : List String
  cachedTallies : List ℤ
  votesCount : ℤ
  votersCount : Option ℤ
  multiple : Bool
  hideTotals : Bool
  expiresAt : Option ℤ
  deriving DecidableEq

structure Library extends Database where
  quotes : List Quote
  polls : List Poll
  quote_keys : (quotes.map Quote.statusId).Nodup

variable (db : Database)

/-- `rest_media_attachments`: the first four, in the order of the status if it has one. -/
def mediaAttachments (status : Status) : List MediaAttachment :=
  let attached := db.mediaAttachments.filter fun media => media.statusId == some status.id
  (match status.orderedMediaAttachmentIds with
    | some ids => ids.flatMap fun id => attached.filter fun media : MediaAttachment => decide (media.id = id)
    | none => attached.insertionSort fun a b : MediaAttachment => a.id ≤ b.id).take 4

end Rustodon.Timelines
