import Rustodon.FeaturedTags.Exactness
import Rustodon.Federation.RepliesWalk
import Rustodon.Timelines.Disclosure

/-! @src web/federation.rs | name:What federation discloses | scheme:checks | family:federation

    Whose content is in a response, and who may see it. A note, an activity and an outbox have what the
    requester may see, but a page of replies has them whoever their authors block. -/

namespace Rustodon.Federation
open FeaturedTags (Unicode)
open Schemes.Checked Schemes.Groups Schemes.Utf8 Timelines

/-! ### Notes in a response -/

def Object.notes : Object → List Note
  | .note value => [value]
  | .null | .uri _ => []

def RepliesPage.notes (page : RepliesPage) : List Note := page.items.flatMap Object.notes

def Body.notes : Body → List Note
  | .note value => [value]
  | .activity value => value.object.notes
  | .outboxPage _ _ items _ _ => items.flatMap fun activity => activity.object.notes
  | .replies _ first => first.notes
  | .repliesPage page => page.notes
  | .empty | .error _ | .collection _ _ _ => []

/-! ### Requests -/

inductive Request where
  | note (accountId : ℤ) (id : Text)
  | activity (accountId : ℤ) (id : Text)
  | collection (accountId : ℤ) (id : Text) (name : String) (parameters : List (Text × Text))
  | outbox (accountId : ℤ) (parameters : List (Text × Text))

section Requests

variable (u : Unicode) (server : Server) (archive : Archive) (requester : Requester)

def resultOf : Request → Except Failure Response
  | .note accountId id => federationNoteResult server archive requester accountId id
  | .activity accountId id => federationStatusActivityResult server archive requester accountId id
  | .collection accountId id name parameters =>
    federationStatusCollectionResult server archive requester accountId id name parameters
  | .outbox accountId parameters => federationOutboxResult u server archive requester accountId parameters

def responseOf (request : Request) : Response := respond (resultOf u server archive requester request)

/-- As whom a requester is known: collections and outboxes look at the signature alone. -/
def viewerOf : Request → Except Failure (Option ℤ)
  | .note _ _ | .activity _ _ => federationStatusViewer server requester
  | .collection _ _ _ _ | .outbox _ _ => federationSignedViewer requester

/-- Every status whose content is in a response is one that the requester may see. -/
def Confined : Prop :=
  ∀ request, ∀ note ∈ (responseOf u server archive requester request).body.notes,
    ∃ viewerAccountId, viewerOf server requester request = .ok viewerAccountId ∧
      MaySee archive.toDatabase viewerAccountId note.status

/-- A request without credentials for the same documents. -/
structure Anonymous (other : Requester) : Prop where
  accepts : other.acceptsActivitypub = requester.acceptsActivitypub
  noHeader : ∀ name ∈ ["cookie", "authorization", "signature"], other.header name = none
  noSession : other.browserSession = .ok none
  noSignature : other.signature = if server.limitedFederation then
      .error ⟨401, "Request signature verification failed"⟩ else .ok none
  noToken : other.token = .ok none

def IsPublicCache (cacheControl : Option String) : Prop :=
  cacheControl = some activitypubStatusPublicCache ∨
    cacheControl = some activitypubStatusPendingQuoteCache

/-- A response that may be cached for everybody is the one that nobody would get. -/
def CachedForAll : Prop :=
  ∀ request, IsPublicCache (responseOf u server archive requester request).cacheControl →
    ∀ other, Anonymous server requester other →
      responseOf u server archive other request = responseOf u server archive requester request

end Requests

/-! ### The condition -/

section Condition

variable (archive : Archive) (viewerAccountId : Option ℤ)

/-- The account is one whose documents are given. -/
def Offered (accountId : ℤ) : Prop := ∃ account, federationAccount archive accountId true = .ok account

/-- Nobody whose reply is given as a note, to a status that the viewer may see, blocks the viewer or the
    domain of the viewer. -/
def RepliesOpen : Prop :=
  ∀ root ∈ archive.statuses, ∀ reply, ∀ onlyOtherAccounts,
    Offered archive root.accountId → MaySee archive.toDatabase viewerAccountId root →
    IsReply archive root.accountId root.id onlyOtherAccounts reply →
    (reply.isLocal = some true ∨ reply.uri = none) →
    ∀ viewer, viewerAccountId = some viewer → reply.accountId = viewer ∨
      archive.isBlocking reply.accountId viewer = false ∧
        archive.isDomainBlocking reply.accountId (viewerDomain archive.toDatabase (some viewer)) = false

/-- Who may see a boost that only followers see may see what is boosted of the booster's own. -/
def BoostsOpen : Prop :=
  ∀ boost ∈ archive.statuses, ∀ source ∈ archive.statuses,
    Offered archive boost.accountId → MaySee archive.toDatabase viewerAccountId boost →
    boost.visibility = 2 → boost.reblogOfId = some source.id → source.deletedAt = none →
    source.isLocal = some true → source.accountId = boost.accountId →
    Admitted archive.toDatabase source viewerAccountId

end Condition

variable {u : Unicode} {server : Server} {archive : Archive} {requester : Requester}
  {viewerAccountId : Option ℤ}

/-! ### Whose content is in a document -/

theorem exists_of_mem_notes {request : Request} {note : Note}
    (h : note ∈ (responseOf u server archive requester request).body.notes) :
    ∃ response, resultOf u server archive requester request = .ok response ∧
      note ∈ response.body.notes := by
  rw [responseOf] at h
  cases hresult : resultOf u server archive requester request with
  | ok response =>
    rw [hresult] at h
    exact ⟨response, rfl, h⟩
  | error response =>
    rw [hresult] at h
    cases h

theorem status_of_okOr {status : Status} {account : Account} {note : Note} {failure : Failure}
    (h : okOr (federationNoteValue archive server.origin status account) failure = .ok note) :
    note.status = status :=
  (noteValue_spec (okOr_eq_ok h)).1

theorem noteDocument_notes {account : Account} {status : Status} {response : Response} {note : Note}
    (h : noteDocument server archive requester account status = .ok response)
    (hnote : note ∈ response.body.notes) : note.status = status := by
  rw [noteDocument] at h
  cases hreblog : status.reblogOfId with
  | some sourceId =>
    rw [hreblog] at h
    obtain ⟨source, -, h⟩ := bind_eq_ok h
    obtain ⟨sourceAccount, -, h⟩ := bind_eq_ok h
    obtain rfl := Except.ok.inj h
    cases hnote
  | none =>
    rw [hreblog] at h
    obtain ⟨value, hvalue, h⟩ := bind_eq_ok h
    obtain rfl := Except.ok.inj h
    obtain rfl := List.mem_singleton.mp hnote
    exact status_of_okOr hvalue

/-- A private boost of one's own, with the status that is boosted. -/
structure OwnBoost (archive : Archive) (boost source : Status) : Prop where
  visibility : boost.visibility = 2
  boosts : boost.reblogOfId = some source.id
  row : source ∈ archive.statuses
  live : source.deletedAt = none
  isLocal : source.isLocal = some true
  own : source.accountId = boost.accountId

theorem ofRaw_eq_privatePost {value : ℤ} : StatusVisibility.ofRaw value = .privatePost ↔ value = 2 := by
  rw [StatusVisibility.ofRaw]
  split_ifs <;> simp_all

/-- An activity has the note of its status, or of one of its author's own that it boosts privately. -/
theorem activityOf_notes {account : Account} {status : Status} {activity : Activity} {note : Note}
    (haccount : status.accountId = account.id)
    (h : activityOf server archive account status = .ok activity)
    (hnote : note ∈ activity.object.notes) :
    note.status = status ∨ OwnBoost archive status note.status := by
  rw [activityOf] at h
  obtain ⟨value, hvalue, h⟩ := bind_eq_ok h
  cases hreblog : status.reblogOfId with
  | none =>
    rw [hreblog] at h
    obtain rfl := Except.ok.inj h
    obtain rfl := List.mem_singleton.mp hnote
    exact .inl (status_of_okOr hvalue)
  | some sourceId =>
    rw [hreblog] at h
    obtain ⟨source, hsource, h⟩ := bind_eq_ok h
    obtain ⟨sourceAccount, hsourceAccount, h⟩ := bind_eq_ok h
    obtain ⟨object, hobject, h⟩ := bind_eq_ok h
    obtain rfl := Except.ok.inj h
    rw [announcedObject] at hobject
    split_ifs at hobject with hown
    · obtain ⟨own, hownNote, rfl⟩ := map_eq_ok hobject
      obtain rfl := List.mem_singleton.mp hnote
      rw [status_of_okOr hownNote]
      obtain ⟨hrow, hid, hlive⟩ := mem_of_liveStatus (okOr_eq_ok hsource)
      have hauthor := (Database.mem_of_account (okOr_eq_ok hsourceAccount)).2
      refine .inr ⟨ofRaw_eq_privatePost.mp hown.1, ?_, hrow, hlive, hown.2.1, ?_⟩
      · rw [hreblog, hid]
      · rw [← hauthor, hown.2.2, haccount]
    · obtain rfl := Except.ok.inj hobject
      cases hnote

/-- A page of replies has the notes of replies that are local or have no address. -/
theorem repliesPage_notes {account : Account} {status : Status} {parameters : List (Text × Text)}
    {page : RepliesPage} {note : Note}
    (h : repliesPage archive server.origin account status parameters = some page)
    (hnote : note ∈ page.notes) :
    IsReply archive account.id status.id (onlyOtherAccountsOf parameters) note.status ∧
      (note.status.isLocal = some true ∨ note.status.uri = none) := by
  rw [repliesPage] at h
  obtain ⟨items, hitems, h⟩ := Option.bind_eq_some_iff.mp h
  obtain rfl := Option.some.inj h
  obtain ⟨item, hitem, hnote⟩ := List.mem_flatMap.mp hnote
  obtain ⟨reply, hreply, hreplyItem⟩ := Schemes.Groups.exists_of_mapM hitems hitem
  rw [activitypubReplyItem] at hreplyItem
  split_ifs at hreplyItem with hnoted
  · obtain ⟨author, -, hreplyItem⟩ := Option.bind_eq_some_iff.mp hreplyItem
    obtain ⟨value, hvalue, hreplyItem⟩ := Option.bind_eq_some_iff.mp hreplyItem
    obtain rfl := Option.some.inj hreplyItem
    obtain rfl := List.mem_singleton.mp hnote
    rw [(noteValue_spec hvalue).1]
    exact ⟨mem_activitypubReplyStatuses hreply, by simpa using hnoted⟩
  · obtain rfl := Option.some.inj hreplyItem
    cases huri : reply.uri with
    | none =>
      rw [huri] at hnote
      cases hnote
    | some address =>
      rw [huri] at hnote
      cases hnote

theorem collectionDocument_notes {account : Account} {status : Status} {name : String}
    {parameters : List (Text × Text)} {response : Response} {note : Note}
    (h : collectionDocument server archive requester account status name parameters = .ok response)
    (hnote : note ∈ response.body.notes) :
    IsReply archive account.id status.id (onlyOtherAccountsOf parameters) note.status ∧
      (note.status.isLocal = some true ∨ note.status.uri = none) := by
  rw [collectionDocument] at h
  split_ifs at h with hreplies hcounts
  · obtain ⟨page, hpage, h⟩ := bind_eq_ok h
    obtain rfl := Except.ok.inj h
    refine repliesPage_notes (okOr_eq_ok hpage) ?_
    rw [signatureSensitiveActivityResponse, repliesBody] at hnote
    split_ifs at hnote <;> exact hnote
  all_goals
    obtain rfl := Except.ok.inj h
    cases hnote

theorem outboxItem_notes {account : Account} {status : Status} {activity : Activity} {note : Note}
    (h : outboxItem server archive account status = .ok activity)
    (hnote : note ∈ activity.object.notes) : note.status = status := by
  rw [outboxItem] at h
  obtain ⟨author, -, h⟩ := bind_eq_ok h
  obtain ⟨value, hvalue, h⟩ := bind_eq_ok h
  obtain ⟨object, hobject, h⟩ := bind_eq_ok h
  obtain rfl := Except.ok.inj h
  rw [outboxObject] at hobject
  cases hreblog : status.reblogOfId with
  | none =>
    rw [hreblog] at hobject
    obtain rfl := Except.ok.inj hobject
    obtain rfl := List.mem_singleton.mp hnote
    exact status_of_okOr hvalue
  | some sourceId =>
    rw [hreblog] at hobject
    obtain ⟨source, -, hobject⟩ := bind_eq_ok hobject
    obtain ⟨sourceAccount, -, hobject⟩ := bind_eq_ok hobject
    obtain rfl := Except.ok.inj hobject
    cases hnote

/-- The outbox has what the viewer may see. -/
theorem maySee_of_outbox {accountId : ℤ} {maxId minId sinceId : Option ℤ} {status : Status}
    (h : status ∈ activitypubOutboxStatuses u archive accountId viewerAccountId maxId minId sinceId) :
    MaySee archive.toDatabase viewerAccountId status := by
  obtain ⟨id, hid, hfound⟩ := List.mem_filterMap.mp h
  obtain ⟨hrow, rfl, -⟩ := mem_of_liveStatus hfound
  exact maySee_of_inAccountTimeline ((mem_timeline_iff hrow).mp (mem_restAccountStatusIds hid))

/-! ### What is open is confined -/

/-- A reply that is open to the viewer is one that the viewer may see. -/
theorem maySee_of_open {root reply : Status} {account : Account} {onlyOtherAccounts : Bool}
    (hopen : RepliesOpen archive viewerAccountId)
    (haccount : federationAccount archive root.accountId true = .ok account) (hroot : root ∈ archive.statuses)
    (hsee : MaySee archive.toDatabase viewerAccountId root)
    (hreply : IsReply archive root.accountId root.id onlyOtherAccounts reply)
    (hnoted : reply.isLocal = some true ∨ reply.uri = none) :
    MaySee archive.toDatabase viewerAccountId reply := by
  obtain ⟨author, hauthor⟩ := Option.isSome_iff_exists.mp (archive.author_rows reply hreply.row)
  have hsuspended : author.suspendedAt = none := by
    have hside := hreply.author
    cases onlyOtherAccounts with
    | true =>
      rw [if_pos rfl] at hside
      exact hside.2 author hauthor
    | false =>
      obtain ⟨hfound, -, hactive⟩ := federationAccount_eq_ok haccount
      have hown : reply.accountId = root.accountId := by simpa using hside
      rw [hown, hfound] at hauthor
      obtain rfl := Option.some.inj hauthor
      exact hactive
  refine (maySee_iff hauthor).mpr ⟨hreply.live, hsuspended, ?_⟩
  cases viewerAccountId with
  | none => exact hreply.distributable
  | some viewer =>
    have hdistributable := hreply.distributable
    refine ⟨by omega, ?_⟩
    rcases hopen root hroot reply onlyOtherAccounts ⟨account, haccount⟩ hsee hreply hnoted viewer rfl with
      hown | hblocks
    · exact .inl hown
    · exact .inr (.inl ⟨hdistributable, hblocks⟩)

theorem confined_of_open (h : requester.acceptsActivitypub = true →
    (∀ viewer, federationSignedViewer requester = .ok viewer → RepliesOpen archive viewer) ∧
      ∀ viewer, federationStatusViewer server requester = .ok viewer → BoostsOpen archive viewer) :
    Confined u server archive requester := by
  intro request note hmem
  obtain ⟨response, hresult, hnote⟩ := exists_of_mem_notes hmem
  cases request with
  | note accountId id =>
    obtain ⟨_, -, hresult⟩ := bind_eq_ok hresult
    obtain ⟨statusId, -, hresult⟩ := bind_eq_ok hresult
    obtain ⟨account, -, hresult⟩ := bind_eq_ok hresult
    obtain ⟨viewer, hviewer, hresult⟩ := bind_eq_ok hresult
    obtain ⟨status, hstatus, hresult⟩ := bind_eq_ok hresult
    obtain ⟨-, -, -, -, hsee⟩ := fetchStatus_eq_ok.mp hstatus
    rw [noteDocument_notes hresult hnote]
    exact ⟨viewer, hviewer, hsee⟩
  | activity accountId id =>
    obtain ⟨_, haccepts, hresult⟩ := bind_eq_ok hresult
    obtain ⟨account, haccount, hresult⟩ := bind_eq_ok hresult
    obtain ⟨statusId, -, hresult⟩ := bind_eq_ok hresult
    obtain ⟨viewer, hviewer, hresult⟩ := bind_eq_ok hresult
    obtain ⟨status, hstatus, hresult⟩ := bind_eq_ok hresult
    obtain ⟨activity, hactivity, hresult⟩ := bind_eq_ok hresult
    obtain rfl := Except.ok.inj hresult
    obtain ⟨hrow, -, hown, -, hsee⟩ := fetchStatus_eq_ok.mp hstatus
    refine ⟨viewer, hviewer, ?_⟩
    rcases activityOf_notes hown hactivity hnote with hsame | hboost
    · rw [hsame]
      exact hsee
    · -- The source has the author of the boost, who is not suspended.
      have hopen := (h (by simpa using failIf_eq_ok haccepts)).2 viewer hviewer
      obtain ⟨hfound, hid, hactive⟩ := federationAccount_eq_ok haccount
      have hauthor : archive.account note.status.accountId = some account := by
        rw [hboost.own, hown, hid, hfound]
      have hoffered : Offered archive status.accountId := ⟨account, by rw [hown, hid, haccount]⟩
      exact (maySee_iff hauthor).mpr ⟨hboost.live, hactive, hopen status hrow note.status hboost.row
        hoffered hsee hboost.visibility hboost.boosts hboost.live hboost.isLocal hboost.own⟩
  | collection accountId id name parameters =>
    obtain ⟨_, haccepts, hresult⟩ := bind_eq_ok hresult
    obtain ⟨statusId, -, hresult⟩ := bind_eq_ok hresult
    obtain ⟨account, haccount, hresult⟩ := bind_eq_ok hresult
    obtain ⟨viewer, hviewer, hresult⟩ := bind_eq_ok hresult
    obtain ⟨status, hstatus, hresult⟩ := bind_eq_ok hresult
    obtain ⟨hrow, -, hown, -, hsee⟩ := fetchStatus_eq_ok.mp hstatus
    refine ⟨viewer, hviewer, ?_⟩
    have hopen := (h (by simpa using failIf_eq_ok haccepts)).1 viewer hviewer
    obtain ⟨hreply, hnoted⟩ := collectionDocument_notes hresult hnote
    obtain ⟨-, hid, -⟩ := federationAccount_eq_ok haccount
    rw [← hown] at hreply
    have haccount : federationAccount archive status.accountId true = .ok account := by
      rw [hown, hid, haccount]
    exact maySee_of_open hopen haccount hrow hsee hreply hnoted
  | outbox accountId parameters =>
    obtain ⟨_, -, hresult⟩ := bind_eq_ok hresult
    obtain ⟨viewer, hviewer, hresult⟩ := bind_eq_ok hresult
    obtain ⟨account, -, hresult⟩ := bind_eq_ok hresult
    refine ⟨viewer, hviewer, ?_⟩
    split_ifs at hresult with hpage
    · obtain rfl := Except.ok.inj hresult
      cases hnote
    · obtain ⟨items, hitems, hresult⟩ := bind_eq_ok hresult
      obtain rfl := Except.ok.inj hresult
      obtain ⟨activity, hactivity, hnote⟩ := List.mem_flatMap.mp hnote
      obtain ⟨status, hstatus, hitem⟩ := Schemes.Checked.exists_of_mapM hitems activity hactivity
      rw [outboxItem_notes hitem hnote]
      exact maySee_of_outbox hstatus

/-! ### What is confined is open -/

/-- The cursor before a row. -/
def cursorBefore (id : ℤ) : Option ℤ := if -2 ^ 63 < id then some (id - 1) else none

theorem cursorBefore_all {id other : ℤ} (hother : -2 ^ 63 ≤ other) :
    ((cursorBefore id).all fun minId => decide (minId < other)) = decide (id ≤ other) := by
  rw [cursorBefore]
  split_ifs with hid
  · simp only [Option.all_some]
    exact decide_eq_decide.mpr (by omega)
  · simp only [Option.all_none]
    exact (decide_eq_true (by omega)).symm

theorem cursorBefore_range {id : ℤ} (h : id < 2 ^ 63) :
    ∀ minId ∈ cursorBefore id, -2 ^ 63 ≤ minId ∧ minId < 2 ^ 63 := by
  intro minId hminId
  rw [cursorBefore] at hminId
  split_ifs at hminId with hid
  · obtain rfl := Option.some.inj hminId
    omega
  · cases hminId

/-- A reply is the first one of the page that begins there. -/
theorem mem_page_from {accountId statusId : ℤ} {onlyOtherAccounts : Bool} {reply : Status}
    (h : IsReply archive accountId statusId onlyOtherAccounts reply) :
    reply ∈ activitypubReplyStatuses archive accountId statusId onlyOtherAccounts
      (cursorBefore reply.id) 60 := by
  have hsorted := @replyRows_sorted archive accountId statusId onlyOtherAccounts
  have hrange : ∀ row ∈ replyRows archive accountId statusId onlyOtherAccounts, -2 ^ 63 ≤ row.id :=
    fun row hrow => (archive.status_range row (mem_replyRows.mp hrow).row).1
  have hfilter : (replyRows archive accountId statusId onlyOtherAccounts).filter (fun row =>
      (cursorBefore reply.id).all fun minId => decide (minId < row.id)) =
      (replyRows archive accountId statusId onlyOtherAccounts).filter fun row =>
        decide (reply.id ≤ row.id) :=
    List.filter_congr fun row hrow => cursorBefore_all (hrange row hrow)
  rw [activitypubReplyStatuses, hfilter]
  have hmem : reply ∈ (replyRows archive accountId statusId onlyOtherAccounts).filter fun row =>
      decide (reply.id ≤ row.id) :=
    List.mem_filter.mpr ⟨mem_replyRows.mpr h, decide_eq_true le_rfl⟩
  have hbound : ∀ row ∈ (replyRows archive accountId statusId onlyOtherAccounts).filter fun row =>
      decide (reply.id ≤ row.id), reply.id ≤ row.id :=
    fun row hrow => of_decide_eq_true (List.mem_filter.mp hrow).2
  have hpairwise := hsorted.sublist (@List.filter_sublist _ (fun row : Status =>
    decide (reply.id ≤ row.id)) (replyRows archive accountId statusId onlyOtherAccounts))
  generalize (replyRows archive accountId statusId onlyOtherAccounts).filter (fun row =>
    decide (reply.id ≤ row.id)) = rows at hmem hbound hpairwise ⊢
  match rows with
  | first :: rest =>
    rcases List.mem_cons.mp hmem with rfl | hrest
    · exact List.mem_cons_self
    · have hlt := (List.pairwise_cons.mp hpairwise).1 reply hrest
      have hle := hbound first List.mem_cons_self
      omega

/-- A local reply, or one without an address, is given as a note. -/
theorem itemOf_noted {reply : Status} (h : reply ∈ archive.statuses) (hlive : reply.deletedAt = none)
    (hnoted : reply.isLocal = some true ∨ reply.uri = none) :
    ∃ note, itemOf server archive reply = .note note ∧ note.status = reply := by
  obtain ⟨author, hauthor⟩ := Option.isSome_iff_exists.mp (archive.author_rows reply h)
  obtain ⟨note, hvalue⟩ := @exists_noteValue archive server.origin reply h hlive author
  refine ⟨note, ?_, (noteValue_spec hvalue).1⟩
  have hif : (reply.isLocal == some true || reply.uri.isNone) = true := by simpa using hnoted
  rw [itemOf, activitypubReplyItem, if_pos hif, hauthor]
  simp [hvalue]

theorem repliesOpen_of_confined (hconfined : Confined u server archive requester)
    (haccepts : requester.acceptsActivitypub = true)
    (hviewer : federationSignedViewer requester = .ok viewerAccountId) : RepliesOpen archive viewerAccountId := by
  intro root hroot reply onlyOtherAccounts ⟨account, haccount⟩ hsee hreply hnoted viewer hknown
  subst hknown
  obtain ⟨author, hauthor, -⟩ := id hsee
  have hlive := ((maySee_iff hauthor).mp hsee).1
  obtain ⟨-, hid, -⟩ := federationAccount_eq_ok haccount
  have hfetched : fetchStatus archive (some viewer) account.id root.id = .ok root :=
    fetchStatus_eq_ok.mpr ⟨hroot, rfl, hid.symm, hlive, hsee⟩
  have hrange := (archive.status_range reply hreply.row).2
  obtain ⟨honly, hminId⟩ := next_parameters (cursorBefore_range hrange) onlyOtherAccounts
  obtain ⟨page, hpage, hat⟩ := @repliesPage_eq server archive account root
    (repliesNextPairs (cursorBefore reply.id) onlyOtherAccounts)
  obtain ⟨note, hitem, hnote⟩ := @itemOf_noted server archive reply hreply.row hreply.live hnoted
  have hshown : note ∈ page.notes := by
    have hitems : page.items = (activitypubReplyStatuses archive account.id root.id onlyOtherAccounts
        (cursorBefore reply.id) 60).map (itemOf server archive) := by
      have hitems := congrArg Schemes.Walks.Page.items hat
      rwa [honly, hminId] at hitems
    rw [RepliesPage.notes, hitems, List.mem_flatMap]
    refine ⟨.note note, ?_, List.mem_singleton_self _⟩
    rw [← hitem, hid]
    exact List.mem_map_of_mem (mem_page_from hreply)
  have hresponse : note ∈ (responseOf u server archive requester (.collection root.accountId
      (toString root.id).toList "replies"
      (repliesNextPairs (cursorBefore reply.id) onlyOtherAccounts))).body.notes := by
    rw [responseOf, resultOf, federationStatusCollectionResult]
    simp only [haccepts, routePathId_toString (archive.status_range root hroot), haccount, hviewer,
      hfetched, collectionDocument, hpage, Bool.not_true, failIf_false, ok_bind, okOr_some_bind,
      if_true, repliesBody]
    split_ifs <;> exact hshown
  obtain ⟨viewer', hviewer', hseen⟩ := hconfined _ note hresponse
  obtain rfl := Except.ok.inj (hviewer.symm.trans hviewer')
  rw [hnote] at hseen
  obtain ⟨replyAuthor, hreplyAuthor, -⟩ := id hseen
  obtain ⟨-, -, -, hadmitted⟩ := (maySee_iff hreplyAuthor).mp hseen
  have hdistributable := hreply.distributable
  rcases hadmitted with hown | ⟨-, hblocks⟩ | ⟨hprivate, -⟩ | ⟨hdirect, -⟩
  · exact .inl hown
  · exact .inr hblocks
  · omega
  · omega

theorem boostsOpen_of_confined (hconfined : Confined u server archive requester)
    (haccepts : requester.acceptsActivitypub = true)
    (hviewer : federationStatusViewer server requester = .ok viewerAccountId) :
    BoostsOpen archive viewerAccountId := by
  intro boost hboost source hsource ⟨account, haccount⟩ hsee hvisibility hboosts hlive hlocal hown
  obtain ⟨author, hauthor, -⟩ := id hsee
  have hboostLive := ((maySee_iff hauthor).mp hsee).1
  obtain ⟨hfound, hid, hactive⟩ := federationAccount_eq_ok haccount
  have hfetched : fetchStatus archive viewerAccountId account.id boost.id = .ok boost :=
    fetchStatus_eq_ok.mpr ⟨hboost, rfl, hid.symm, hboostLive, hsee⟩
  have hsourceAccount : archive.account source.accountId = some account := by rw [hown, hfound]
  obtain ⟨boostNote, hboostNote⟩ := @exists_noteValue archive server.origin boost hboost hboostLive account
  obtain ⟨note, hnote⟩ := @exists_noteValue archive server.origin source hsource hlive account
  have hobject : announcedObject server archive account boost source account = .ok (.note note) := by
    rw [announcedObject, if_pos ⟨ofRaw_eq_privatePost.mpr hvisibility, hlocal, rfl⟩, hnote]
    rfl
  have hresponse : note ∈ (responseOf u server archive requester (.activity boost.accountId
      (toString boost.id).toList)).body.notes := by
    rw [responseOf, resultOf, federationStatusActivityResult]
    simp only [haccepts, routePathId_toString (archive.status_range boost hboost), haccount, hviewer,
      hfetched, activityOf, hboostNote, hboosts, liveStatus_of_mem hsource hlive, hsourceAccount, hobject,
      Bool.not_true, failIf_false, ok_bind, okOr_some_bind]
    exact List.mem_singleton_self _
  obtain ⟨viewer', hviewer', hseen⟩ := hconfined _ note hresponse
  obtain rfl := Except.ok.inj (hviewer.symm.trans hviewer')
  rw [(noteValue_spec hnote).1] at hseen
  exact ((maySee_iff hsourceAccount).mp hseen).2.2

/-! ### Responses that are cached for everybody -/

theorem isPublicCache_iff {publicFetchMode distributable : Bool} {document : ActivityPubStatusDocument}
    (h : IsPublicCache (some (statusCacheControl requester publicFetchMode distributable document))) :
    publicFetchMode = true ∧ distributable = true ∧
      ["cookie", "authorization", "signature"].any (requestHeaderIsNonempty requester) = false := by
  unfold statusCacheControl at h
  by_contra hnot
  have hif : (publicFetchMode && distributable &&
      !(["cookie", "authorization", "signature"].any (requestHeaderIsNonempty requester))) = false := by
    rw [Bool.eq_false_iff]
    intro htrue
    simp only [Bool.and_eq_true, Bool.not_eq_true'] at htrue
    exact hnot ⟨htrue.1.1, htrue.1.2, htrue.2⟩
  simp only [hif, Bool.false_eq_true, if_false] at h
  split_ifs at h <;> exact absurd h (by unfold IsPublicCache; decide)

variable {other : Requester}

theorem Anonymous.noCredentials (h : Anonymous server requester other) :
    ["cookie", "authorization", "signature"].any (requestHeaderIsNonempty other) = false := by
  rw [List.any_eq_false]
  intro name hname
  rw [requestHeaderIsNonempty, h.noHeader name hname]
  exact Bool.false_ne_true

theorem Anonymous.viewer (h : Anonymous server requester other) (hopen : server.limitedFederation = false) :
    federationStatusViewer server other = .ok none := by
  have hsignature := h.noSignature
  rw [hopen, if_neg Bool.false_ne_true] at hsignature
  rw [federationStatusViewer, h.noSession, hsignature, h.noToken]
  rfl

/-- A document that may be cached for everybody is the same for a requester without credentials. -/
theorem Anonymous.statusResponse (h : Anonymous server requester other) {body : Body} {uri : Text}
    {publicFetchMode distributable : Bool} {document : ActivityPubStatusDocument}
    (hcache : IsPublicCache (signatureSensitiveStatusResponse requester body uri publicFetchMode
      distributable document).cacheControl) :
    signatureSensitiveStatusResponse other body uri publicFetchMode distributable document =
      signatureSensitiveStatusResponse requester body uri publicFetchMode distributable document := by
  obtain ⟨-, -, hnone⟩ := isPublicCache_iff hcache
  simp only [signatureSensitiveStatusResponse, statusCacheControl, hnone, h.noCredentials]

theorem distributable_eq_true {status : Status} (h : distributable status = true) :
    status.visibility = 0 ∨ status.visibility = 1 := by
  rw [distributable, StatusVisibility.ofRaw] at h
  split_ifs at h with hpublic hunlisted
  · exact .inl hpublic
  · exact .inr hunlisted

/-- What everybody may fetch is fetched by nobody in particular. -/
theorem fetchStatus_anonymous {accountId statusId : ℤ} {status : Status}
    (h : fetchStatus archive viewerAccountId accountId statusId = .ok status)
    (hdistributable : distributable status = true) :
    fetchStatus archive none accountId statusId = .ok status := by
  obtain ⟨hrow, hid, hown, hlive, hsee⟩ := fetchStatus_eq_ok.mp h
  obtain ⟨author, hauthor, -⟩ := id hsee
  obtain ⟨-, hactive, -⟩ := (maySee_iff hauthor).mp hsee
  exact fetchStatus_eq_ok.mpr ⟨hrow, hid, hown, hlive,
    (maySee_iff hauthor).mpr ⟨hlive, hactive, distributable_eq_true hdistributable⟩⟩

theorem not_isPublicCache_activityResponse (body : Body) :
    ¬ IsPublicCache (signatureSensitiveActivityResponse requester body).cacheControl := by
  rw [signatureSensitiveActivityResponse]
  unfold IsPublicCache
  split_ifs <;> simp [privateCache, activitypubStatusPublicCache, activitypubStatusPendingQuoteCache]

theorem noteDocument_cached {account : Account} {status : Status} {response : Response}
    (h : noteDocument server archive requester account status = .ok response)
    (hcache : IsPublicCache response.cacheControl) (hother : Anonymous server requester other) :
    noteDocument server archive other account status = .ok response ∧
      server.limitedFederation = false ∧ distributable status = true := by
  rw [noteDocument] at h ⊢
  cases hreblog : status.reblogOfId with
  | some sourceId =>
    rw [hreblog] at h
    obtain ⟨source, -, h⟩ := bind_eq_ok h
    obtain ⟨sourceAccount, -, h⟩ := bind_eq_ok h
    obtain rfl := Except.ok.inj h
    exact absurd hcache (by unfold IsPublicCache; simp [activitypubStatusRedirect])
  | none =>
    rw [hreblog] at h
    obtain ⟨note, hnote, h⟩ := bind_eq_ok h
    obtain rfl := Except.ok.inj h
    obtain ⟨hmode, hdistributable, -⟩ := isPublicCache_iff hcache
    rw [hnote, ok_bind, hother.statusResponse hcache]
    exact ⟨rfl, by simpa using hmode, hdistributable⟩

/-- A response that may be cached for everybody is the one that nobody would get. -/
theorem cachedForAll : CachedForAll u server archive requester := by
  intro request hcache other hother
  rw [responseOf] at hcache
  cases hresult : resultOf u server archive requester request with
  | error response =>
    rw [hresult] at hcache
    exact absurd hcache (by unfold IsPublicCache; simp [respond, Failure.response])
  | ok response =>
    rw [hresult, respond] at hcache
    rw [responseOf, responseOf, hresult]
    refine congrArg respond ?_
    cases request with
    | note accountId id =>
      obtain ⟨_, haccepts, hresult⟩ := bind_eq_ok hresult
      obtain ⟨statusId, hid, hresult⟩ := bind_eq_ok hresult
      obtain ⟨account, haccount, hresult⟩ := bind_eq_ok hresult
      obtain ⟨viewer, -, hresult⟩ := bind_eq_ok hresult
      obtain ⟨status, hstatus, hresult⟩ := bind_eq_ok hresult
      obtain ⟨hsame, hopen, hdistributable⟩ := noteDocument_cached hresult hcache hother
      rw [resultOf, federationNoteResult, hother.accepts, haccepts, hid, haccount, hother.viewer hopen]
      simp only [ok_bind, fetchStatus_anonymous hstatus hdistributable, hsame]
    | activity accountId id =>
      obtain ⟨_, haccepts, hresult⟩ := bind_eq_ok hresult
      obtain ⟨account, haccount, hresult⟩ := bind_eq_ok hresult
      obtain ⟨statusId, hid, hresult⟩ := bind_eq_ok hresult
      obtain ⟨viewer, -, hresult⟩ := bind_eq_ok hresult
      obtain ⟨status, hstatus, hresult⟩ := bind_eq_ok hresult
      obtain ⟨activity, hactivity, hresult⟩ := bind_eq_ok hresult
      obtain rfl := Except.ok.inj hresult
      obtain ⟨hmode, hdistributable, -⟩ := isPublicCache_iff hcache
      have hopen : server.limitedFederation = false := by simpa using hmode
      rw [resultOf, federationStatusActivityResult, hother.accepts, haccepts, hid, haccount,
        hother.viewer hopen]
      simp only [ok_bind, fetchStatus_anonymous hstatus hdistributable, hactivity,
        hother.statusResponse hcache]
      rfl
    | collection accountId id name parameters =>
      obtain ⟨_, -, hresult⟩ := bind_eq_ok hresult
      obtain ⟨statusId, -, hresult⟩ := bind_eq_ok hresult
      obtain ⟨account, -, hresult⟩ := bind_eq_ok hresult
      obtain ⟨viewer, -, hresult⟩ := bind_eq_ok hresult
      obtain ⟨status, -, hresult⟩ := bind_eq_ok hresult
      rw [collectionDocument] at hresult
      split_ifs at hresult with hreplies hcounts
      · obtain ⟨page, -, hresult⟩ := bind_eq_ok hresult
        obtain rfl := Except.ok.inj hresult
        exact absurd hcache (not_isPublicCache_activityResponse _)
      · obtain rfl := Except.ok.inj hresult
        exact absurd hcache (not_isPublicCache_activityResponse _)
      · obtain rfl := Except.ok.inj hresult
        exact absurd hcache (not_isPublicCache_activityResponse _)
    | outbox accountId parameters =>
      obtain ⟨_, -, hresult⟩ := bind_eq_ok hresult
      obtain ⟨viewer, -, hresult⟩ := bind_eq_ok hresult
      obtain ⟨account, -, hresult⟩ := bind_eq_ok hresult
      split_ifs at hresult with hpage
      · obtain rfl := Except.ok.inj hresult
        exact absurd hcache (not_isPublicCache_activityResponse _)
      · obtain ⟨items, -, hresult⟩ := bind_eq_ok hresult
        obtain rfl := Except.ok.inj hresult
        exact absurd hcache (not_isPublicCache_activityResponse _)

/-- CORRECT (federation): a requester is shown only what the requester may see exactly where no local
    author of a reply blocks the requester, and no private boost is of something more private, and what
    may be cached for everybody is what everybody gets. -/
theorem federation_discloses_iff :
    Confined u server archive requester ∧ CachedForAll u server archive requester ↔
      (requester.acceptsActivitypub = true →
        (∀ viewer, federationSignedViewer requester = .ok viewer → RepliesOpen archive viewer) ∧
          ∀ viewer, federationStatusViewer server requester = .ok viewer → BoostsOpen archive viewer) := by
  constructor
  · rintro ⟨hconfined, -⟩ haccepts
    exact ⟨fun viewer hviewer => repliesOpen_of_confined hconfined haccepts hviewer,
      fun viewer hviewer => boostsOpen_of_confined hconfined haccepts hviewer⟩
  · intro hopen
    exact ⟨confined_of_open hopen, cachedForAll⟩

/-! ### A reply by somebody who blocks the requester -/

/-- A public status of the first account, answered by the second, who blocks the third. -/
def blockedArchive : Archive :=
  { threadArchive none with
    accounts := [⟨1, none, none, none⟩, ⟨2, none, none, none⟩, ⟨3, some "remote.example", none, none⟩]
    statuses := [threadStatus 10 none none, { threadStatus 11 (some 10) none with accountId := 2 }]
    blocks := [⟨2, 3⟩]
    account_ids := by decide
    status_ids := by simp [threadStatus]
    author_rows := by simp [threadStatus, Database.account]
    poll_rows := by simp [threadArchive]
    status_range := by simp [threadStatus] }

/-- A signed request of the third account. -/
def signedRequester : Requester where
  acceptsActivitypub := true
  header name := if name = "signature" then some "keyId".toList else none
  browserSession := .ok none
  signature := .ok (some "https://remote.example/users/carol#main-key")
  signatureKeyAccount _ := .ok (some 3)
  token := .ok none

theorem not_repliesOpen_blocked : ¬ RepliesOpen blockedArchive (some 3) := by
  intro h
  have hroot : blockedArchive.account (threadStatus 10 none none).accountId =
      some ⟨1, none, none, none⟩ := rfl
  have hsee : MaySee blockedArchive.toDatabase (some 3) (threadStatus 10 none none) :=
    (maySee_iff hroot).mpr
      ⟨rfl, rfl, by simp [threadStatus], Or.inr (Or.inl ⟨Or.inl rfl, rfl, rfl⟩)⟩
  have hreply : IsReply blockedArchive 1 10 true { threadStatus 11 (some 10) none with accountId := 2 } :=
    { row := List.mem_cons_of_mem _ List.mem_cons_self
      answers := rfl
      live := rfl
      distributable := .inl rfl
      author := ⟨by simp, by simp [blockedArchive, Database.account]⟩ }
  rcases h _ List.mem_cons_self _ true ⟨_, rfl⟩ hsee hreply (.inl rfl) 3 rfl with hown | ⟨hblock, -⟩
  · exact absurd hown (by simp)
  · exact absurd hblock (by simp [blockedArchive, Database.isBlocking])

/-- The page of replies by others has the reply for the one whom its author blocks. -/
theorem federation_discloses_blocked :
    ¬ ∀ (u : Unicode) (server : Server) (archive : Archive) (requester : Requester),
      Confined u server archive requester ∧ CachedForAll u server archive requester := by
  intro h
  have hconfined := (h FeaturedTags.exampleUnicode exampleServer blockedArchive signedRequester).1
  exact not_repliesOpen_blocked (repliesOpen_of_confined hconfined rfl rfl)

end Rustodon.Federation
