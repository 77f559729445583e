import Rustodon.Federation.Documents
import Rustodon.Schemes.Checked
import Rustodon.Schemes.Tables
import Rustodon.Timelines.Queries

/-! @src web/federation.rs | name:Federation endpoints | scheme:checks | family:federation

    How statuses are fetched by other servers: the note, the activity, the outbox and the collections of
    a status, for a requester who is known by a session, a token or a signature. -/

namespace Rustodon.Federation
open FeaturedTags (Unicode)
open Schemes.Checked Schemes.Utf8 Timelines

/-! ### Responses -/

/-- A `Create` or an `Announce`. -/
structure Activity where
  id : Text
  announce : Bool
  actor : Text
  published : ℤ
  toAddresses : List Text
  ccAddresses : List Text
  object : Object

inductive Body where
  | empty
  | error (message : String)
  | note (note : Note)
  | activity (activity : Activity)
  | collection (id : Text) (totalItems : ℤ) (pages : Option (Text × Text))
  | outboxPage (id partOf : Text) (items : List Activity) (next prev : Option Text)
  | replies (id : Text) (first : RepliesPage)
  | repliesPage (page : RepliesPage)

structure Response where
  code : ℕ
  vary : Option String
  cacheControl : Option String
  link : Option Text
  location : Option Text
  body : Body

/-- Why a request ends early. -/
structure Failure where
  code : ℕ
  message : String
  deriving DecidableEq

def notFound : Failure := ⟨404, "Not Found"⟩

def internalError : Failure := ⟨500, "Internal Server Error"⟩

def notAcceptable : Failure := ⟨406, "ActivityPub representation required"⟩

def Failure.response (failure : Failure) : Response :=
  ⟨failure.code, none, none, none, none, .error failure.message⟩

/-- The response of a computation that may end early. -/
def respond : Except Failure Response → Response
  | .ok response => response
  | .error failure => failure.response

def activitypubStatusPublicVary : String := "Accept, Accept-Language, Cookie, Authorization, Signature"

def activitypubStatusAuthorizedVary : String :=
  "Accept, Accept-Language, Cookie, Signature, Authorization"

def activitypubStatusPublicCache : String := "max-age=180, public"

def activitypubStatusPendingQuoteCache : String := "max-age=5, public"

def activitypubStatusPrivateActivityCache : String := "max-age=180, private"

def privateCache : String := "private, no-store"

/-! ### Requesters -/

/-- A requester, with what becomes of the session, the signature and the token that are sent. `header` is
    the first value of a header. -/
structure Requester where
  acceptsActivitypub : Bool
  header : String → Option Text
  browserSession : Except Failure (Option ℤ)
  signature : Except Failure (Option String)
  signatureKeyAccount : String → Except Failure (Option ℤ)
  token : Except Failure (Option ℤ)

structure Server where
  origin : Text
  limitedFederation : Bool

section Viewers

variable (server : Server) (requester : Requester)

/-- Where statuses are fetched by everybody, a signature that fails is as good as none. -/
def federationStatusViewer : Except Failure (Option ℤ) := do
  let browserViewer ← requester.browserSession
  match requester.signature with
  | .error failure =>
    if !server.limitedFederation &&
        ((400 ≤ failure.code && failure.code < 500) || failure.code == 503) then do
      let viewer ← requester.token
      return browserViewer.or viewer
    else .error failure
  | .ok signature =>
    if browserViewer.isSome then return browserViewer
    else
      match signature with
      | some keyId => requester.signatureKeyAccount keyId
      | none => requester.token

def federationSignedViewer : Except Failure (Option ℤ) := do
  match ← requester.signature with
  | none => return none
  | some keyId => requester.signatureKeyAccount keyId

def requestHeaderIsNonempty (name : String) : Bool :=
  (requester.header name).any fun value => !value.all fun c =>
    [' ', '\t', '\n', '\x0c', '\r'].contains c

/-! ### Headers -/

inductive ActivityPubStatusDocument where
  | note (pendingQuote : Bool)
  | activity
  deriving DecidableEq

def signatureSensitiveActivityResponse (body : Body) : Response where
  code := 200
  vary := some "Accept, Signature"
  cacheControl := if (requester.header "signature").isSome then some privateCache else none
  link := none
  location := none
  body := body

def statusCacheControl (publicFetchMode distributable : Bool) (document : ActivityPubStatusDocument) :
    String :=
  let hasViewerCredentials :=
    ["cookie", "authorization", "signature"].any (requestHeaderIsNonempty requester)
  if publicFetchMode && distributable && !hasViewerCredentials then
    match document with
    | .note true => activitypubStatusPendingQuoteCache
    | .note false | .activity => activitypubStatusPublicCache
  else if publicFetchMode && !distributable && decide (document = .activity) then
    activitypubStatusPrivateActivityCache
  else privateCache

def signatureSensitiveStatusResponse (body : Body) (activityUri : Text)
    (publicFetchMode distributable : Bool) (document : ActivityPubStatusDocument) : Response where
  code := 200
  vary := some (if publicFetchMode then activitypubStatusPublicVary else activitypubStatusAuthorizedVary)
  cacheControl := some (statusCacheControl requester publicFetchMode distributable document)
  link := some ('<' :: (activityUri ++ ">; rel=\"alternate\"; type=\"application/activity+json\"".toList))
  location := none
  body := body

end Viewers

def activitypubStatusRedirect (location : Text) : Response :=
  ⟨302, none, none, none, some location, .empty⟩

section Endpoints

variable (u : Unicode) (server : Server) (archive : Archive) (requester : Requester)

/-! ### Checks -/

def federationAccount (accountId : ℤ) (rejectSuspension : Bool) : Except Failure Account := do
  let account ← okOr (archive.account accountId) notFound
  let columns := archive.accountColumns account.id
  failIf (decide (account.id ≠ -99) &&
    (account.domain.isSome || columns.hasPendingUser || columns.hasUnconfirmedUser)) notFound
  failIf (rejectSuspension && account.suspendedAt.isSome)
    ⟨if columns.hasDeletionRequest then 403 else 410, "Unavailable account"⟩
  return account

/-- `rest_authorized_status_ids(&[status_id], viewer) == [status_id]`. -/
def statusAuthorized (viewerAccountId : Option ℤ) (statusId : ℤ) : Bool :=
  decide (restAuthorizedStatusIds archive.toDatabase viewerAccountId [statusId] = [statusId])

/-- The live status of the account, if the viewer may see it. -/
def fetchStatus (viewerAccountId : Option ℤ) (accountId statusId : ℤ) : Except Failure Status := do
  failIf (!statusAuthorized archive viewerAccountId statusId) notFound
  let status ← okOr (archive.liveStatus statusId) notFound
  failIf (decide (status.accountId ≠ accountId)) notFound
  return status

def distributable (status : Status) : Bool :=
  match StatusVisibility.ofRaw status.visibility with
  | .publicPost | .unlisted => true
  | _ => false

/-! ### Notes and activities -/

/-- The note of a status that may be seen, or where the status that it boosts is. -/
def noteDocument (account : Account) (status : Status) : Except Failure Response :=
  match status.reblogOfId with
  | some sourceId => do
    let source ← okOr (archive.liveStatus sourceId) notFound
    let sourceAccount ← okOr (archive.account source.accountId) internalError
    return activitypubStatusRedirect (archive.statusUrl server.origin sourceAccount source)
  | none => do
    let note ← okOr (federationNoteValue archive server.origin status account) internalError
    return signatureSensitiveStatusResponse requester (.note note) note.id (!server.limitedFederation)
      (distributable status) (.note (archive.hasPendingQuote status.id))

def federationNoteResult (accountId : ℤ) (id : Text) : Except Failure Response := do
  failIf (!requester.acceptsActivitypub) notAcceptable
  let statusId ← okOr (routePathId id) notFound
  let account ← federationAccount archive accountId true
  let viewerAccountId ← federationStatusViewer server requester
  let status ← fetchStatus archive viewerAccountId accountId statusId
  noteDocument server archive requester account status

def federationNoteResponse (accountId : ℤ) (id : Text) : Response :=
  respond (federationNoteResult server archive requester accountId id)

/-- What a boost announces: the note itself where it is one of the booster's own that only followers
    see. -/
def announcedObject (account : Account) (status source : Status) (sourceAccount : Account) :
    Except Failure Object :=
  if StatusVisibility.ofRaw status.visibility = .privatePost ∧ source.isLocal = some true ∧
      sourceAccount.id = account.id then
    (okOr (federationNoteValue archive server.origin source sourceAccount) internalError).map Object.note
  else .ok (.uri (archive.statusUri server.origin sourceAccount source))

/-- `status_activity`, with the recipients of the note. -/
def statusActivity (account : Account) (status : Status) (note : Note) (object : Object)
    (ccAddresses : List Text) : Activity where
  id := if status.reblogOfId.isSome then archive.statusUri server.origin account status
    else note.id ++ "/activity".toList
  announce := status.reblogOfId.isSome
  actor := archive.actorUrl server.origin account
  published := (archive.statusColumns status.id).createdAt
  toAddresses := note.toAddresses
  ccAddresses := ccAddresses
  object := object

/-- The activity of a status that may be seen. -/
def activityOf (account : Account) (status : Status) : Except Failure Activity := do
  let note ← okOr (federationNoteValue archive server.origin status account) internalError
  match status.reblogOfId with
  | some sourceId =>
    let source ← okOr (archive.liveStatus sourceId) notFound
    let sourceAccount ← okOr (archive.account source.accountId) internalError
    let object ← announcedObject server archive account status source sourceAccount
    return statusActivity server archive account status note object
      (note.ccAddresses ++ [archive.actorUrl server.origin sourceAccount])
  | none => return statusActivity server archive account status note (.note note) note.ccAddresses

def federationStatusActivityResult (accountId : ℤ) (id : Text) : Except Failure Response := do
  failIf (!requester.acceptsActivitypub) notAcceptable
  let account ← federationAccount archive accountId true
  let statusId ← okOr (routePathId id) notFound
  let viewerAccountId ← federationStatusViewer server requester
  let status ← fetchStatus archive viewerAccountId account.id statusId
  let activity ← activityOf server archive account status
  return signatureSensitiveStatusResponse requester (.activity activity)
    (archive.statusUri server.origin account status) (!server.limitedFederation)
    (distributable status) .activity

def federationStatusActivityResponse (accountId : ℤ) (id : Text) : Response :=
  respond (federationStatusActivityResult server archive requester accountId id)

/-! ### Collections of a status -/

def repliesBody (parameters : List (Text × Text)) (page : RepliesPage) : Body :=
  if pageRequested parameters then .repliesPage page else .replies page.partOf page

/-- A collection of a status that may be seen. -/
def collectionDocument (account : Account) (status : Status) (collection : String)
    (parameters : List (Text × Text)) : Except Failure Response :=
  if collection = "replies" then do
    let page ← okOr (repliesPage archive server.origin account status parameters) internalError
    return signatureSensitiveActivityResponse requester (repliesBody parameters page)
  else if collection = "likes" ∨ collection = "shares" then
    let counts := archive.statusCounts status.id
    return signatureSensitiveActivityResponse requester
      (.collection (archive.statusCollectionUrl server.origin account status collection.toList)
        (if collection = "likes" then counts.1 else counts.2) none)
  else .error notFound

def federationStatusCollectionResult (accountId : ℤ) (id : Text) (collection : String)
    (parameters : List (Text × Text)) : Except Failure Response := do
  failIf (!requester.acceptsActivitypub) notAcceptable
  let statusId ← okOr (routePathId id) notFound
  let account ← federationAccount archive accountId true
  let viewerAccountId ← federationSignedViewer requester
  let status ← fetchStatus archive viewerAccountId account.id statusId
  collectionDocument server archive requester account status collection parameters

def federationStatusCollectionResponse (accountId : ℤ) (id : Text) (collection : String)
    (parameters : List (Text × Text)) : Response :=
  respond (federationStatusCollectionResult server archive requester accountId id collection parameters)

/-! ### The outbox -/

def outboxPageUrl (base : Text) (maxId minId sinceId : Option ℤ) : Text :=
  let cursor (name : String) (id : Option ℤ) : List (Text × Text) :=
    (id.map fun id => (name.toList, (toString id).toList)).toList
  base ++ '?' :: writtenQuery (cursor "max_id" maxId ++ cursor "min_id" minId ++
    cursor "since_id" sinceId ++ [("page".toList, "true".toList)])

/-- `activitypub_outbox_statuses`. -/
def activitypubOutboxStatuses (accountId : ℤ) (viewerAccountId maxId minId sinceId : Option ℤ) :
    List Status :=
  (restAccountStatusIds u archive.toDatabase accountId viewerAccountId {
    maxId := maxId
    minId := minId
    sinceId := sinceId
    limit := 20
    pinned := false
    tagged := none
    onlyMedia := false
    excludeReplies := false
    excludeReblogs := false
    excludeDirect := false }).filterMap archive.liveStatus

/-- What an item of the outbox is about. -/
def outboxObject (status : Status) (note : Note) : Except Failure Object :=
  match status.reblogOfId with
  | some sourceId => do
    let source ← okOr (archive.liveStatus sourceId) internalError
    let sourceAccount ← okOr (archive.account source.accountId) internalError
    return .uri (archive.statusUri server.origin sourceAccount source)
  | none => return .note note

def outboxItem (account : Account) (status : Status) : Except Failure Activity := do
  let statusAccount ← okOr (archive.account status.accountId) internalError
  let note ← okOr (federationNoteValue archive server.origin status statusAccount) internalError
  let object ← outboxObject server archive status note
  return {
    id := if status.reblogOfId.isSome then note.id else note.id ++ "/activity".toList
    announce := status.reblogOfId.isSome
    actor := archive.actorUrl server.origin account
    published := note.published
    toAddresses := note.toAddresses
    ccAddresses := note.ccAddresses
    object := object }

def federationOutboxResult (accountId : ℤ) (parameters : List (Text × Text)) :
    Except Failure Response := do
  failIf (!requester.acceptsActivitypub) notAcceptable
  let viewerAccountId ← federationSignedViewer requester
  let account ← federationAccount archive accountId true
  let base := archive.outboxUrl server.origin account
  if !pageRequested parameters then
    return signatureSensitiveActivityResponse requester
      (.collection base (archive.outboxCount accountId)
        (some (base ++ "?page=true".toList, base ++ "?min_id=0&page=true".toList)))
  else
    let cursor (name : String) : Option ℤ := (parameter parameters name).bind routePathId
    let statuses := activitypubOutboxStatuses u archive accountId viewerAccountId (cursor "max_id")
      (cursor "min_id") (cursor "since_id")
    let items ← statuses.mapM (outboxItem server archive account)
    return signatureSensitiveActivityResponse requester (.outboxPage
      (outboxPageUrl base (cursor "max_id") (cursor "min_id") (cursor "since_id")) base items
      (if statuses.length = 20 then
          statuses.getLast?.map fun status => outboxPageUrl base (some status.id) none none
        else none)
      (statuses.head?.map fun status => outboxPageUrl base none (some status.id) none))

def federationOutboxResponse (accountId : ℤ) (parameters : List (Text × Text)) : Response :=
  respond (federationOutboxResult u server archive requester accountId parameters)

end Endpoints

/-! ### One status that is authorized -/

variable {archive : Archive} {viewerAccountId : Option ℤ}

theorem length_restAuthorizedStatusIds (id : ℤ) :
    (restAuthorizedStatusIds archive.toDatabase viewerAccountId [id]).length ≤ 1 := by
  have hrows : (archive.statuses.filter fun status => [id].contains status.id).length ≤ 1 := by
    have hids := archive.status_ids.sublist ((@List.filter_sublist _
      (fun status => [id].contains status.id) archive.statuses).map Status.id)
    exact Schemes.Tables.length_le_one (k := id) hids fun status hstatus => by
      simpa using (List.mem_filter.mp hstatus).2
  rw [restAuthorizedStatusIds, List.length_map]
  refine (List.length_filter_le _ _).trans ?_
  rw [restStatusPolicyRows]
  refine (List.length_filterMap_le _ _).trans ?_
  rwa [List.length_insertionSort]

/-- One status is authorized when the viewer may see it. -/
theorem statusAuthorized_iff {id : ℤ} :
    statusAuthorized archive viewerAccountId id = true ↔
      ∃ status ∈ archive.statuses, status.id = id ∧ MaySee archive.toDatabase viewerAccountId status := by
  have hmem := @mem_restAuthorizedStatusIds archive.toDatabase viewerAccountId [id] id
  have hlength := @length_restAuthorizedStatusIds archive viewerAccountId id
  have hall : ∀ i ∈ restAuthorizedStatusIds archive.toDatabase viewerAccountId [id], i = id :=
    fun i hi => List.mem_singleton.mp (mem_restAuthorizedStatusIds.mp hi).1
  rw [statusAuthorized, decide_eq_true_eq]
  constructor
  · intro h
    exact (hmem.mp (by rw [h]; exact List.mem_singleton_self id)).2
  · intro h
    have hid := hmem.mpr ⟨List.mem_singleton_self id, h⟩
    match hids : restAuthorizedStatusIds archive.toDatabase viewerAccountId [id], hid with
    | [only], hid => rw [List.mem_singleton.mp hid]
    | _ :: _ :: _, _ =>
      rw [hids] at hlength
      simp at hlength

theorem fetchStatus_eq_ok {accountId statusId : ℤ} {status : Status} :
    fetchStatus archive viewerAccountId accountId statusId = .ok status ↔
      status ∈ archive.statuses ∧ status.id = statusId ∧ status.accountId = accountId ∧
        status.deletedAt = none ∧ MaySee archive.toDatabase viewerAccountId status := by
  constructor
  · intro h
    rw [fetchStatus] at h
    obtain ⟨_, hauthorized, h⟩ := bind_eq_ok h
    obtain ⟨found, hfound, h⟩ := bind_eq_ok h
    obtain ⟨_, haccount, h⟩ := bind_eq_ok h
    obtain rfl := Except.ok.inj h
    have hauthorized : statusAuthorized archive viewerAccountId statusId = true := by
      simpa using failIf_eq_ok hauthorized
    have haccount : found.accountId = accountId := by simpa using failIf_eq_ok haccount
    obtain ⟨hrow, hid, hlive⟩ := mem_of_liveStatus (okOr_eq_ok hfound)
    obtain ⟨other, hother, hotherId, hsee⟩ := statusAuthorized_iff.mp hauthorized
    obtain rfl := List.inj_on_of_nodup_map archive.status_ids hother hrow (hotherId.trans hid.symm)
    exact ⟨hrow, hid, haccount, hlive, hsee⟩
  · rintro ⟨hrow, rfl, rfl, hlive, hsee⟩
    have hauthorized : statusAuthorized archive viewerAccountId status.id = true :=
      statusAuthorized_iff.mpr ⟨status, hrow, rfl, hsee⟩
    rw [fetchStatus, hauthorized, liveStatus_of_mem hrow hlive]
    simp only [Bool.not_true, failIf_false, ok_bind, okOr_some_bind, ne_eq, not_true_eq_false,
      decide_false]
    rfl

theorem federationAccount_eq_ok {accountId : ℤ} {account : Account}
    (h : federationAccount archive accountId true = .ok account) :
    archive.account accountId = some account ∧ account.id = accountId ∧ account.suspendedAt = none := by
  rw [federationAccount] at h
  obtain ⟨found, hfound, h⟩ := bind_eq_ok h
  obtain ⟨_, -, h⟩ := bind_eq_ok h
  obtain ⟨_, hsuspended, h⟩ := bind_eq_ok h
  obtain rfl := Except.ok.inj h
  have hfound := okOr_eq_ok hfound
  refine ⟨hfound, (Database.mem_of_account hfound).2, ?_⟩
  simpa using failIf_eq_ok hsuspended

end Rustodon.Federation
