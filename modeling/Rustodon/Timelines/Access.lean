import Mathlib.Data.List.Sort
import Rustodon.Timelines.Database

/-! @src mastodon/policy.rs, mastodon/repository.rs | name:Access to statuses | scheme:checks |
    family:timelines

    Who may see a status: the decision of `status_access`, and the facts that are read for it. -/

namespace Rustodon.Timelines

/-! ### The decision -/

inductive StatusVisibility where
  | publicPost | unlisted | privatePost | direct | limited
  | unknown (value : ℤ)
  deriving DecidableEq

def StatusVisibility.ofRaw (value : ℤ) : StatusVisibility :=
  if value = 0 then .publicPost
  else if value = 1 then .unlisted
  else if value = 2 then .privatePost
  else if value = 3 then .direct
  else if value = 4 then .limited
  else .unknown value

inductive StatusAvailability where
  | available | deleted | authorSuspended
  deriving DecidableEq

inductive AuthorRestriction where
  | none | blocksViewer | blocksViewerDomain
  deriving DecidableEq

structure AuthenticatedViewerFacts where
  isAuthor : Bool
  followsAuthor : Bool
  isMentioned : Bool
  authorRestriction : AuthorRestriction
  deriving DecidableEq

inductive ViewerFacts where
  | anonymous
  | authenticated (viewer : AuthenticatedViewerFacts)
  deriving DecidableEq

structure StatusAccessFacts where
  visibility : StatusVisibility
  availability : StatusAvailability
  viewer : ViewerFacts
  deriving DecidableEq

inductive StatusAccessDenied where
  | statusDeleted | authorSuspended | authenticationRequired | authorBlocksViewer
  | authorDomainBlocksViewer | notInAudience | unsupportedVisibility
  deriving DecidableEq

inductive StatusAccess where
  | allowed
  | denied (reason : StatusAccessDenied)
  deriving DecidableEq

def StatusAccess.isAllowed : StatusAccess → Bool
  | .allowed => true
  | .denied _ => false

def anonymousAccess : StatusVisibility → StatusAccess
  | .publicPost | .unlisted => .allowed
  | .privatePost | .direct | .limited => .denied .authenticationRequired
  | .unknown _ => .denied .unsupportedVisibility

/-- What somebody else than the author may see. -/
def viewerAccess (visibility : StatusVisibility) (viewer : AuthenticatedViewerFacts) : StatusAccess :=
  match visibility with
  | .publicPost | .unlisted =>
    match viewer.authorRestriction with
    | .none => .allowed
    | .blocksViewer => .denied .authorBlocksViewer
    | .blocksViewerDomain => .denied .authorDomainBlocksViewer
  | .privatePost =>
    if viewer.followsAuthor || viewer.isMentioned then .allowed else .denied .notInAudience
  | .direct | .limited => if viewer.isMentioned then .allowed else .denied .notInAudience
  | .unknown _ => .denied .unsupportedVisibility

def statusAccess (facts : StatusAccessFacts) : StatusAccess :=
  match facts.availability with
  | .deleted => .denied .statusDeleted
  | .authorSuspended => .denied .authorSuspended
  | .available =>
    match facts.visibility, facts.viewer with
    | .unknown _, _ => .denied .unsupportedVisibility
    | visibility, .anonymous => anonymousAccess visibility
    | visibility, .authenticated viewer =>
      if viewer.isAuthor then .allowed else viewerAccess visibility viewer

/-! ### The facts -/

structure StatusPolicyRow where
  id : ℤ
  visibility : ℤ
  statusDeleted : Bool
  authorSuspended : Bool
  authorSilenced : Bool
  viewerIsAuthor : Bool
  viewerFollowsAuthor : Bool
  viewerIsMentioned : Bool
  authorBlocksViewer : Bool
  authorDomainBlocksViewer : Bool
  viewerBlocksAuthor : Bool
  viewerDomainBlocksAuthor : Bool
  viewerMutesAuthor : Bool
  deriving DecidableEq

def availabilityOf (statusDeleted authorSuspended : Bool) : StatusAvailability :=
  if statusDeleted then .deleted
  else if authorSuspended then .authorSuspended
  else .available

def restrictionOf (authorBlocksViewer authorDomainBlocksViewer : Bool) : AuthorRestriction :=
  if authorBlocksViewer then .blocksViewer
  else if authorDomainBlocksViewer then .blocksViewerDomain
  else .none

def StatusPolicyRow.accessFacts (row : StatusPolicyRow) (viewerAuthenticated : Bool) :
    StatusAccessFacts where
  visibility := .ofRaw row.visibility
  availability := availabilityOf row.statusDeleted row.authorSuspended
  viewer :=
    if viewerAuthenticated then
      .authenticated {
        isAuthor := row.viewerIsAuthor
        followsAuthor := row.viewerFollowsAuthor
        isMentioned := row.viewerIsMentioned
        authorRestriction := restrictionOf row.authorBlocksViewer row.authorDomainBlocksViewer }
    else .anonymous

section Rows

variable (db : Database) (viewerAccountId : Option ℤ)

/-- The domain of the viewer: those of this server have none. -/
def viewerDomain : Option String := viewerAccountId.bind fun viewer => (db.account viewer).bind Account.domain

def statusPolicyRow (status : Status) (author : Account) : StatusPolicyRow where
  id := status.id
  visibility := status.visibility
  statusDeleted := status.deletedAt.isSome
  authorSuspended := author.suspendedAt.isSome
  authorSilenced := author.silencedAt.isSome
  viewerIsAuthor := viewerAccountId.any fun viewer => decide (status.accountId = viewer)
  viewerFollowsAuthor := viewerAccountId.any fun viewer => db.isFollowing viewer status.accountId
  viewerIsMentioned := viewerAccountId.any fun viewer => db.isMentioning status.id viewer
  authorBlocksViewer := viewerAccountId.any fun viewer => db.isBlocking status.accountId viewer
  authorDomainBlocksViewer := db.isDomainBlocking status.accountId (viewerDomain db viewerAccountId)
  viewerBlocksAuthor := viewerAccountId.any fun viewer => db.isBlocking viewer status.accountId
  viewerDomainBlocksAuthor := viewerAccountId.any fun viewer => db.isDomainBlocking viewer author.domain
  viewerMutesAuthor := viewerAccountId.any fun viewer => db.isMuting viewer status.accountId

/-- `rest_status_policy_rows`. -/
def restStatusPolicyRows (ids : List ℤ) : List StatusPolicyRow :=
  ((db.statuses.filter fun status => ids.contains status.id).insertionSort
      fun a b : Status => a.id ≤ b.id).filterMap fun status =>
    (db.account status.accountId).map (statusPolicyRow db viewerAccountId status)

/-- `rest_authorized_status_ids`. -/
def restAuthorizedStatusIds (ids : List ℤ) : List ℤ :=
  ((restStatusPolicyRows db viewerAccountId ids).filter fun row =>
    (statusAccess (row.accessFacts viewerAccountId.isSome)).isAllowed).map StatusPolicyRow.id

/-- The viewer may see the status. -/
def MaySee (status : Status) : Prop :=
  ∃ author, db.account status.accountId = some author ∧
    statusAccess ((statusPolicyRow db viewerAccountId status author).accessFacts
      viewerAccountId.isSome) = .allowed

end Rows

variable {db : Database} {viewerAccountId : Option ℤ} {status : Status} {author : Account}

theorem isAllowed_iff {access : StatusAccess} : access.isAllowed = true ↔ access = .allowed := by
  cases access <;> simp [StatusAccess.isAllowed]

/-- The viewer may see the statuses that are authorized. -/
theorem mem_restAuthorizedStatusIds {ids : List ℤ} {id : ℤ} :
    id ∈ restAuthorizedStatusIds db viewerAccountId ids ↔
      id ∈ ids ∧ ∃ status ∈ db.statuses, status.id = id ∧ MaySee db viewerAccountId status := by
  simp only [restAuthorizedStatusIds, restStatusPolicyRows, List.mem_map, List.mem_filter,
    List.mem_filterMap, List.mem_insertionSort, Option.map_eq_some_iff, isAllowed_iff,
    List.contains_iff_mem]
  constructor
  · rintro ⟨_, ⟨⟨status, ⟨hstatus, hid⟩, author, hauthor, rfl⟩, hallowed⟩, rfl⟩
    exact ⟨hid, status, hstatus, rfl, author, hauthor, hallowed⟩
  · rintro ⟨hid, status, hstatus, rfl, author, hauthor, hallowed⟩
    exact ⟨_, ⟨⟨status, ⟨hstatus, hid⟩, author, hauthor, rfl⟩, hallowed⟩, rfl⟩

/-! ### When a status is seen -/

def StatusVisibility.Known (visibility : StatusVisibility) : Prop := ∀ value, visibility ≠ .unknown value

theorem statusAccess_eq_allowed {facts : StatusAccessFacts} :
    statusAccess facts = .allowed ↔
      facts.availability = .available ∧ facts.visibility.Known ∧
        match facts.viewer with
        | .anonymous => anonymousAccess facts.visibility = .allowed
        | .authenticated viewer => viewer.isAuthor ∨ viewerAccess facts.visibility viewer = .allowed := by
  obtain ⟨visibility, availability, viewer⟩ := facts
  cases availability with
  | deleted => simp [statusAccess]
  | authorSuspended => simp [statusAccess]
  | available =>
    cases viewer with
    | anonymous => cases visibility <;> simp [statusAccess, StatusVisibility.Known, anonymousAccess]
    | authenticated viewer =>
      obtain ⟨isAuthor, followsAuthor, isMentioned, restriction⟩ := viewer
      cases visibility <;> cases isAuthor <;>
        simp [statusAccess, StatusVisibility.Known, viewerAccess]

theorem anonymousAccess_eq_allowed {value : ℤ} :
    anonymousAccess (.ofRaw value) = .allowed ↔ value = 0 ∨ value = 1 := by
  rw [StatusVisibility.ofRaw]
  split_ifs <;> simp_all [anonymousAccess]

theorem known_ofRaw {value : ℤ} : (StatusVisibility.ofRaw value).Known ↔ 0 ≤ value ∧ value ≤ 4 := by
  rw [StatusVisibility.ofRaw]
  split_ifs <;> simp [StatusVisibility.Known] <;> omega

theorem viewerAccess_eq_allowed {value : ℤ} {viewer : AuthenticatedViewerFacts} :
    viewerAccess (.ofRaw value) viewer = .allowed ↔
      (value = 0 ∨ value = 1) ∧ viewer.authorRestriction = .none ∨
        value = 2 ∧ (viewer.followsAuthor ∨ viewer.isMentioned) ∨
          (value = 3 ∨ value = 4) ∧ viewer.isMentioned := by
  obtain ⟨isAuthor, followsAuthor, isMentioned, restriction⟩ := viewer
  rw [StatusVisibility.ofRaw]
  split_ifs <;> cases restriction <;> cases followsAuthor <;> cases isMentioned <;>
    simp_all [viewerAccess]

theorem availabilityOf_eq_available {deleted suspended : Bool} :
    availabilityOf deleted suspended = .available ↔ deleted = false ∧ suspended = false := by
  cases deleted <;> cases suspended <;> simp [availabilityOf]

theorem restrictionOf_eq_none {blocks domainBlocks : Bool} :
    restrictionOf blocks domainBlocks = .none ↔ blocks = false ∧ domainBlocks = false := by
  cases blocks <;> cases domainBlocks <;> simp [restrictionOf]

/-- Whether the visibility of a status lets the viewer see it. -/
def Admitted (db : Database) (status : Status) : Option ℤ → Prop
  | none => status.visibility = 0 ∨ status.visibility = 1
  | some viewer =>
    (0 ≤ status.visibility ∧ status.visibility ≤ 4) ∧ (status.accountId = viewer ∨
      (status.visibility = 0 ∨ status.visibility = 1) ∧
        db.isBlocking status.accountId viewer = false ∧
          db.isDomainBlocking status.accountId (viewerDomain db (some viewer)) = false ∨
      status.visibility = 2 ∧
        (db.isFollowing viewer status.accountId ∨ db.isMentioning status.id viewer) ∨
      (status.visibility = 3 ∨ status.visibility = 4) ∧ db.isMentioning status.id viewer)

/-- A status is seen while it is live, its author is not suspended and its visibility allows it. -/
theorem maySee_iff (hauthor : db.account status.accountId = some author) :
    MaySee db viewerAccountId status ↔
      status.deletedAt = none ∧ author.suspendedAt = none ∧ Admitted db status viewerAccountId := by
  have havailable : ((statusPolicyRow db viewerAccountId status author).accessFacts
      viewerAccountId.isSome).availability = .available ↔
        status.deletedAt = none ∧ author.suspendedAt = none := by
    simp [StatusPolicyRow.accessFacts, statusPolicyRow, availabilityOf_eq_available]
  have hsee : MaySee db viewerAccountId status ↔
      statusAccess ((statusPolicyRow db viewerAccountId status author).accessFacts
        viewerAccountId.isSome) = .allowed := by
    rw [MaySee, hauthor]
    simp
  rw [hsee, statusAccess_eq_allowed, havailable, and_assoc]
  refine and_congr_right fun _ => and_congr_right fun _ => ?_
  cases viewerAccountId with
  | none =>
    simp only [StatusPolicyRow.accessFacts, statusPolicyRow, Option.isSome_none, Bool.false_eq_true,
      if_false, anonymousAccess_eq_allowed, known_ofRaw, Admitted]
    omega
  | some viewer =>
    simp only [StatusPolicyRow.accessFacts, statusPolicyRow, Option.isSome_some, if_true,
      viewerAccess_eq_allowed, known_ofRaw, Admitted, restrictionOf_eq_none, Option.any_some,
      decide_eq_true_eq]

end Rustodon.Timelines
