import Rustodon.FeaturedTags.Exactness
import Rustodon.Schemes.Tables
import Rustodon.Timelines.Feeds

/-! @src mastodon/repository.rs, mastodon/policy.rs | name:What timelines disclose | scheme:windows |
    family:timelines

    Each condition of a query, taken together with the others, lets the viewer see the status. The one
    exception are the statuses of the viewer that have a visibility which nobody knows: the home timeline
    has them, and `status_access` refuses them to everybody. -/

namespace Rustodon.Timelines
open FeaturedTags (Unicode)
open Schemes.Windows

/-! ### What is assumed of the database and of the viewer -/

/-- A local account or nobody. -/
def LocalViewer (db : Database) (viewerAccountId : Option ℤ) : Prop :=
  ∀ viewer ∈ viewerAccountId, ∃ account, db.account viewer = some account ∧ account.domain = none

/-- The follow that a member of a list refers to is one of the owner of the list. -/
def FollowsOwned (db : Database) : Prop :=
  ∀ member ∈ db.listAccounts, ∀ followId, member.followId = some followId →
    ∃ follow ∈ db.follows, follow.id = followId ∧ follow.targetAccountId = member.accountId ∧
      ∀ list ∈ db.lists, list.id = member.listId → follow.accountId = list.accountId

variable {u : Unicode} {db : Database} {viewerAccountId : Option ℤ} {viewer : ℤ} {status : Status}
  {author : Account}

theorem LocalViewer.domain (h : LocalViewer db (some viewer)) : viewerDomain db (some viewer) = none := by
  obtain ⟨account, haccount, hdomain⟩ := h viewer rfl
  simp [viewerDomain, haccount, hdomain]

theorem visibleAs_iff {visibilities : List ℤ} :
    status.visibleAs visibilities = true ↔ status.visibility ∈ visibilities := by
  rw [Status.visibleAs, List.contains_iff_mem]

/-! ### Every query admits what it lets through -/

theorem admitted_of_accountStatusAllowed {excludeDirect : Bool}
    (h : accountStatusAllowed db status.accountId viewerAccountId excludeDirect status = true) :
    Admitted db status viewerAccountId := by
  cases viewerAccountId with
  | none => simpa [accountStatusAllowed, visibleAs_iff, Admitted] using h
  | some viewer =>
    rw [accountStatusAllowed] at h
    rw [Admitted]
    by_cases hown : viewer = status.accountId
    · rw [if_pos hown] at h
      refine ⟨?_, .inl hown.symm⟩
      split_ifs at h <;> simp only [visibleAs_iff, List.mem_cons, List.not_mem_nil, or_false] at h <;>
        omega
    · rw [if_neg hown] at h
      split_ifs at h with hblocked hdirect
      · simp only [visibleAs_iff, Bool.or_eq_true, Bool.and_eq_true, List.mem_cons,
          List.not_mem_nil, or_false] at h
        simp only [Bool.or_eq_true, not_or, Bool.not_eq_true] at hblocked
        rcases h with hopen | ⟨hprivate, hfollows⟩
        · exact ⟨by omega, .inr (.inl ⟨hopen, hblocked⟩)⟩
        · exact ⟨by omega, .inr (.inr (.inl ⟨hprivate, .inl hfollows⟩))⟩
      · simp only [visibleAs_iff, Bool.or_eq_true, Bool.and_eq_true, List.mem_cons,
          List.not_mem_nil, or_false] at h
        simp only [Bool.or_eq_true, not_or, Bool.not_eq_true] at hblocked
        rcases h with (hopen | ⟨hprivate, hfollows⟩) | ⟨hclosed, hmentioned⟩
        · exact ⟨by omega, .inr (.inl ⟨hopen, hblocked⟩)⟩
        · exact ⟨by omega, .inr (.inr (.inl ⟨hprivate, .inl hfollows⟩))⟩
        · refine ⟨by omega, ?_⟩
          rcases hclosed with hprivate | hdirect
          · exact .inr (.inr (.inl ⟨hprivate, .inr hmentioned⟩))
          · exact .inr (.inr (.inr ⟨hdirect, hmentioned⟩))

/-- A viewer may see what is public unless the author blocks them. -/
theorem admitted_of_public (hpublic : status.visibility = 0) (hlocal : LocalViewer db viewerAccountId)
    (hallowed : ∀ viewer ∈ viewerAccountId, db.isBlocking status.accountId viewer = false) :
    Admitted db status viewerAccountId := by
  cases viewerAccountId with
  | none => exact .inl hpublic
  | some viewer =>
    refine ⟨by omega, .inr (.inl ⟨.inl hpublic, hallowed viewer rfl, ?_⟩)⟩
    rw [hlocal.domain]
    rfl

theorem publicAuthorAllowed_blocking (h : publicAuthorAllowed db viewer status author = true) :
    db.isBlocking status.accountId viewer = false := by
  simp only [publicAuthorAllowed, Bool.and_eq_true, Bool.not_eq_true'] at h
  exact h.1.1.2

theorem maySee_of_inAccountTimeline {accountId : ℤ} {options : AccountStatusesOptions}
    (h : inAccountTimeline u db accountId viewerAccountId options status = true) :
    MaySee db viewerAccountId status := by
  obtain ⟨author, hauthor, h⟩ := (Option.any_eq_true _ _).mp h
  simp only [Bool.and_eq_true, decide_eq_true_eq, Option.isNone_iff_eq_none] at h
  obtain ⟨⟨⟨⟨⟨⟨⟨⟨⟨⟨rfl, hlive⟩, hsuspended⟩, hallowed⟩, -⟩, -⟩, -⟩, -⟩, -⟩, -⟩, -⟩ := h
  exact (maySee_iff hauthor).mpr ⟨hlive, hsuspended, admitted_of_accountStatusAllowed hallowed⟩

theorem maySee_of_inPublicTimeline {options : TimelineOptions} (hlocal : LocalViewer db viewerAccountId)
    (h : inPublicTimeline db viewerAccountId options noOverrides status = true) :
    MaySee db viewerAccountId status := by
  obtain ⟨author, hauthor, h⟩ := (Option.any_eq_true _ _).mp h
  simp only [Bool.and_eq_true, Option.isNone_iff_eq_none, visibleAs_iff, List.mem_singleton,
    noOverrides, Bool.false_or, Option.all_eq_true] at h
  obtain ⟨⟨⟨⟨⟨⟨⟨⟨hlive, hpublic⟩, hsuspended⟩, -⟩, -⟩, -⟩, -⟩, -⟩, hviewer⟩ := h
  refine (maySee_iff hauthor).mpr ⟨hlive, hsuspended, admitted_of_public hpublic hlocal ?_⟩
  exact fun viewer hmem => publicAuthorAllowed_blocking (hviewer viewer hmem).1

theorem maySee_of_inTagTimeline {tagName : String} {options : TagTimelineOptions}
    (hlocal : LocalViewer db viewerAccountId)
    (h : inTagTimeline u db tagName viewerAccountId options noOverrides status = true) :
    MaySee db viewerAccountId status := by
  rw [inTagTimeline, Bool.and_eq_true] at h
  obtain ⟨author, hauthor, h⟩ := (Option.any_eq_true _ _).mp h.2
  simp only [Bool.and_eq_true, Option.isNone_iff_eq_none, visibleAs_iff, List.mem_singleton,
    noOverrides, Bool.false_or, Option.all_eq_true] at h
  obtain ⟨⟨⟨⟨⟨⟨⟨hlive, hpublic⟩, hsuspended⟩, -⟩, -⟩, -⟩, -⟩, hviewer⟩ := h
  refine (maySee_iff hauthor).mpr ⟨hlive, hsuspended, admitted_of_public hpublic hlocal ?_⟩
  exact fun viewer hmem => publicAuthorAllowed_blocking (hviewer viewer hmem)

theorem openToViewer_iff : openToViewer db viewer status = true ↔
    db.isBlocking status.accountId viewer = false ∧
      db.isDomainBlocking status.accountId (viewerDomain db (some viewer)) = false := by
  simp [openToViewer]

theorem maySee_of_inHomeTimeline (h : inHomeTimeline db viewer status = true)
    (hknown : status.accountId = viewer → 0 ≤ status.visibility ∧ status.visibility ≤ 4) :
    MaySee db (some viewer) status := by
  obtain ⟨author, hauthor, h⟩ := (Option.any_eq_true _ _).mp h
  have hauthorized := (Bool.and_eq_true_iff.mp h).1
  simp only [homeAuthorized, Bool.and_eq_true, Option.isNone_iff_eq_none] at hauthorized
  obtain ⟨⟨⟨hlive, hsuspended⟩, -⟩, hallowed⟩ := hauthorized
  refine (maySee_iff hauthor).mpr ⟨hlive, hsuspended, ?_⟩
  rw [Admitted]
  by_cases hown : status.accountId = viewer
  · exact ⟨hknown hown, .inl hown⟩
  · rw [if_neg hown] at hallowed
    simp only [visibleAs_iff, List.mem_cons, List.not_mem_nil, or_false] at hallowed
    split_ifs at hallowed with hdirect hprivate hopen
    · exact ⟨by omega, .inr (.inr (.inr ⟨hdirect, hallowed⟩))⟩
    · rw [Database.follow_isSome, Bool.or_eq_true] at hallowed
      exact ⟨by omega, .inr (.inr (.inl ⟨hprivate, hallowed⟩))⟩
    · exact ⟨by omega, .inr (.inl ⟨hopen, openToViewer_iff.mp hallowed⟩)⟩

theorem maySee_of_inListTimeline {listId repliesPolicy : ℤ} {member : ListAccount} {list : UserList}
    (howned : FollowsOwned db) (hlist : ownedList db viewer listId = some list)
    (hmember : member ∈ listMembers db viewer listId status)
    (h : inListTimeline db viewer listId repliesPolicy noOverrides status member = true) :
    MaySee db (some viewer) status := by
  obtain ⟨author, hauthor, h⟩ := (Option.any_eq_true _ _).mp h
  have hauthorized := (Bool.and_eq_true_iff.mp h).1
  simp only [listAuthorized, Bool.and_eq_true, Option.isNone_iff_eq_none, noOverrides, Bool.false_or,
    visibleAs_iff, List.mem_cons, List.not_mem_nil, or_false] at hauthorized
  obtain ⟨⟨⟨⟨hlive, hsuspended⟩, -⟩, hvisibility⟩, hallowed⟩ := hauthorized
  refine (maySee_iff hauthor).mpr ⟨hlive, hsuspended, by omega, ?_⟩
  by_cases hown : status.accountId = viewer
  · exact .inl hown
  · rw [if_neg hown] at hallowed
    split_ifs at hallowed with hprivate hopen
    · -- The follow of the member is one of the viewer, who owns the list.
      obtain ⟨hrow, hkey⟩ := List.mem_filter.mp hmember
      simp only [Bool.and_eq_true, decide_eq_true_eq] at hkey
      obtain ⟨follow, hfollow⟩ := Option.isSome_iff_exists.mp hallowed
      obtain ⟨followId, hfollowId, hfound⟩ := Option.bind_eq_some_iff.mp hfollow
      obtain ⟨hmem, hid⟩ := Database.mem_of_followById hfound
      obtain ⟨stored, hstored, hstoredId, htarget, howner⟩ := howned member hrow followId hfollowId
      obtain rfl := List.inj_on_of_nodup_map db.follow_ids hmem hstored (hid.trans hstoredId.symm)
      have hlistKey := List.find?_some hlist
      simp only [Bool.and_eq_true, decide_eq_true_eq] at hlistKey
      have haccount := howner list (List.mem_of_find?_eq_some hlist)
        (hlistKey.1.trans hkey.1.1.symm)
      have hfollows := Database.isFollowing_of_mem hmem
      rw [haccount, hlistKey.2, htarget, hkey.1.2] at hfollows
      exact .inr (.inr (.inl ⟨hprivate, .inl hfollows⟩))
    · exact .inr (.inl ⟨hopen, openToViewer_iff.mp hallowed⟩)

/-! ### Pages -/

theorem timeline_nodup (p : Status → Bool) : ((db.statuses.filter p).map Status.id).Nodup :=
  db.status_ids.sublist (List.filter_sublist.map _)

/-- An account is once on a list. -/
theorem listMembers_length (viewer listId : ℤ) (status : Status) :
    (listMembers db viewer listId status).length ≤ 1 := by
  refine Schemes.Tables.length_le_one (db.member_keys.sublist (List.filter_sublist.map _))
    (k := (status.accountId, listId)) fun member hmember => ?_
  have hrow := (List.mem_filter.mp hmember).2
  simp only [Bool.and_eq_true, decide_eq_true_eq] at hrow
  rw [hrow.1.1, hrow.1.2]

theorem listRows_nodup (viewer listId repliesPolicy : ℤ) (overrides : Overrides) :
    (listRows db viewer listId repliesPolicy overrides).Nodup := by
  have hone : ∀ status, ((listMembers db viewer listId status).filter
      (inListTimeline db viewer listId repliesPolicy overrides status)).length ≤ 1 :=
    fun status => (List.length_filter_le _ _).trans (listMembers_length viewer listId status)
  have hsub : (listRows db viewer listId repliesPolicy overrides).Sublist (db.statuses.map Status.id) := by
    rw [listRows]
    generalize db.statuses = statuses
    induction statuses with
    | nil => exact List.Sublist.slnil
    | cons status statuses ih =>
      rw [List.flatMap_cons, List.map_cons]
      have hrow := hone status
      match h : (listMembers db viewer listId status).filter
          (inListTimeline db viewer listId repliesPolicy overrides status) with
      | [] => exact ih.cons _
      | [_] => exact ih.cons_cons _
      | _ :: _ :: _ => simp [h] at hrow
  exact db.status_ids.sublist hsub

theorem mem_listRows {repliesPolicy listId id : ℤ} {overrides : Overrides} :
    id ∈ listRows db viewer listId repliesPolicy overrides ↔ ∃ status ∈ db.statuses, status.id = id ∧
      ∃ member ∈ listMembers db viewer listId status,
        inListTimeline db viewer listId repliesPolicy overrides status member = true := by
  simp only [listRows, List.mem_flatMap, List.mem_map, List.mem_filter]
  constructor
  · rintro ⟨status, hstatus, member, hmember, rfl⟩
    exact ⟨status, hstatus, rfl, member, hmember⟩
  · rintro ⟨status, hstatus, rfl, member, hmember⟩
    exact ⟨status, hstatus, member, hmember, rfl⟩

/-- The options with the ends of a window. -/
def TimelineOptions.at (options : TimelineOptions) (w : Window ℤ) : TimelineOptions :=
  { options with maxId := w.max, minId := w.min, sinceId := w.since, limit := w.limit }

def AccountStatusesOptions.at (options : AccountStatusesOptions) (w : Window ℤ) :
    AccountStatusesOptions :=
  { options with maxId := w.max, minId := w.min, sinceId := w.since, limit := w.limit }

theorem clampLimit_of_le {limit : ℕ} (h : limit ≤ 40) : clampLimit limit = limit := by
  rw [clampLimit]
  omega

theorem TimelineOptions.at_window (options : TimelineOptions) {w : Window ℤ} (h : w.limit ≤ 40) :
    (options.at w).window = w := by
  rw [TimelineOptions.window, TimelineOptions.at, clampLimit_of_le h]

theorem AccountStatusesOptions.at_window (options : AccountStatusesOptions) {w : Window ℤ}
    (h : w.limit ≤ 40) : (options.at w).window = w := by
  rw [AccountStatusesOptions.window, AccountStatusesOptions.at, clampLimit_of_le h]

/-- Paging through a listing shows its keys in order, each once. -/
structure Walks (listing : Window ℤ → List ℤ) (keys : List ℤ) : Prop where
  down : ∀ w : Window ℤ, w.min = none → 0 < w.limit → w.limit ≤ 40 →
    (walkDown listing w keys.length).flatten = w.descending keys
  up : ∀ w : Window ℤ, w.min.isSome → 0 < w.limit → w.limit ≤ 40 →
    ((walkUp listing w keys.length).map List.reverse).flatten = w.ascending keys

theorem walks_of_page {listing : Window ℤ → List ℤ} {keys : List ℤ} (hkeys : keys.Nodup)
    (hpage : ∀ w : Window ℤ, w.limit ≤ 40 → listing w = w.page keys) : Walks listing keys where
  down := by
    intro w hmin hlimit hbound
    rw [walkDown_congr _ fun w' hw' => hpage w' (hw'.trans_le hbound)]
    refine walkDown_flatten hkeys hmin hlimit ?_
    rw [Window.descending, List.length_insertionSort]
    exact List.length_filter_le _ _
  up := by
    intro w hmin hlimit hbound
    rw [walkUp_congr _ fun w' hw' => hpage w' (hw'.trans_le hbound)]
    refine walkUp_flatten hkeys hmin hlimit ?_
    rw [Window.ascending, List.length_insertionSort]
    exact List.length_filter_le _ _

/-! ### All timelines -/

section Timelines

variable (u : Unicode) (db : Database) (viewerAccountId : Option ℤ)

/-- The viewer may see all that a timeline shows. -/
structure Safe : Prop where
  account : ∀ accountId options, ∀ id ∈ restAccountStatusIds u db accountId viewerAccountId options,
    id ∈ restAuthorizedStatusIds db viewerAccountId [id]
  publicFeed : ∀ options, ∀ id ∈ restPublicTimelineIds db viewerAccountId options,
    id ∈ restAuthorizedStatusIds db viewerAccountId [id]
  tag : ∀ tagName options, ∀ id ∈ restTagTimelineIds u db tagName viewerAccountId options,
    id ∈ restAuthorizedStatusIds db viewerAccountId [id]
  home : ∀ viewer, viewerAccountId = some viewer → ∀ options,
    ∀ id ∈ restHomeTimelineIds db viewer options, id ∈ restAuthorizedStatusIds db viewerAccountId [id]
  list : ∀ viewer, viewerAccountId = some viewer → ∀ listId options ids,
    restListTimelineIds db viewer listId options = some ids → ∀ id ∈ ids,
      id ∈ restAuthorizedStatusIds db viewerAccountId [id]

/-- A page has the statuses of its window that are next, and pages follow each other without a gap.
    Pins are listed in an order of their own. -/
structure Paged : Prop where
  account : ∀ accountId (options : AccountStatusesOptions),
    options.pinned = false ∨ options.minId.isSome →
      options.window.Exact (accountTimeline u db accountId viewerAccountId options)
        (restAccountStatusIds u db accountId viewerAccountId options)
  accountWalks : ∀ accountId (options : AccountStatusesOptions), options.pinned = false →
    Walks (fun w => restAccountStatusIds u db accountId viewerAccountId (options.at w))
      (accountTimeline u db accountId viewerAccountId options)
  publicFeed : ∀ options : TimelineOptions,
    options.window.Exact (publicTimeline db viewerAccountId options noOverrides)
      (restPublicTimelineIds db viewerAccountId options)
  publicWalks : ∀ options : TimelineOptions,
    Walks (fun w => restPublicTimelineIds db viewerAccountId (options.at w))
      (publicTimeline db viewerAccountId options noOverrides)
  tag : ∀ tagName (options : TagTimelineOptions),
    options.page.window.Exact (tagTimeline u db tagName viewerAccountId options noOverrides)
      (restTagTimelineIds u db tagName viewerAccountId options)
  tagWalks : ∀ tagName (options : TagTimelineOptions),
    Walks (fun w => restTagTimelineIds u db tagName viewerAccountId
        { options with page := options.page.at w })
      (tagTimeline u db tagName viewerAccountId options noOverrides)
  home : ∀ viewer (options : TimelineOptions),
    options.window.Exact (homeTimeline db viewer) (restHomeTimelineIds db viewer options)
  homeWalks : ∀ viewer (options : TimelineOptions),
    Walks (fun w => restHomeTimelineIds db viewer (options.at w)) (homeTimeline db viewer)
  list : ∀ viewer listId (options : TimelineOptions) keys,
    listTimeline db viewer listId noOverrides = some keys → ∃ page,
      restListTimelineIds db viewer listId options = some page ∧ options.window.Exact keys page
  listWalks : ∀ viewer listId (options : TimelineOptions) keys,
    listTimeline db viewer listId noOverrides = some keys →
      Walks (fun w => (restListTimelineIds db viewer listId (options.at w)).getD []) keys

/-- The viewer has no live status of a visibility that nobody knows. -/
def OwnKnown (viewer : ℤ) : Prop :=
  ∀ status ∈ db.statuses, status.accountId = viewer → status.deletedAt = none →
    (∀ account, db.account viewer = some account → account.suspendedAt = none) →
      sourceNotSuspended db status = true → 0 ≤ status.visibility ∧ status.visibility ≤ 4

end Timelines

theorem mem_page {w : Window ℤ} {keys : List ℤ} {id : ℤ} (hkeys : keys.Nodup) (h : id ∈ w.page keys) :
    id ∈ keys :=
  ((page_exact hkeys).within id h).1

/-- What a timeline has is on one of its pages. -/
theorem mem_page_around {keys : List ℤ} {id : ℤ} (hkeys : keys.Nodup) (h : id ∈ keys) :
    id ∈ (⟨some (id + 1), none, some (id - 1), 1⟩ : Window ℤ).page keys := by
  by_contra hout
  have hexact := page_exact (w := ⟨some (id + 1), none, some (id - 1), 1⟩) hkeys
  have hinside : (⟨some (id + 1), none, some (id - 1), 1⟩ : Window ℤ).has id = true := by
    simp only [Window.has, Option.all_some, Bool.and_eq_true, decide_eq_true_eq]
    omega
  obtain ⟨hlength, hbefore⟩ := hexact.complete id h hinside hout
  have hpos : 0 < ((⟨some (id + 1), none, some (id - 1), 1⟩ : Window ℤ).page keys).length := by
    rw [hlength]
    exact Nat.one_pos
  obtain ⟨other, hother⟩ := List.length_pos_iff_exists_mem.mp hpos
  have hlt : id < other := by simpa using hbefore other hother
  have hwithin := (hexact.within other hother).2
  simp only [Window.has, Option.all_some, Bool.and_eq_true, decide_eq_true_eq] at hwithin
  omega

theorem authorized_of_maySee (hstatus : status ∈ db.statuses)
    (h : MaySee db viewerAccountId status) :
    status.id ∈ restAuthorizedStatusIds db viewerAccountId [status.id] :=
  mem_restAuthorizedStatusIds.mpr ⟨List.mem_singleton_self _, status, hstatus, rfl, h⟩

theorem mem_timeline {p : Status → Bool} {id : ℤ} (h : id ∈ (db.statuses.filter p).map Status.id) :
    ∃ status ∈ db.statuses, p status = true ∧ status.id = id := by
  obtain ⟨status, hmem, rfl⟩ := List.mem_map.mp h
  obtain ⟨hstatus, hp⟩ := List.mem_filter.mp hmem
  exact ⟨status, hstatus, hp, rfl⟩

theorem mem_timeline_iff {p : Status → Bool} (hstatus : status ∈ db.statuses) :
    status.id ∈ (db.statuses.filter p).map Status.id ↔ p status = true := by
  constructor
  · intro h
    obtain ⟨other, hother, hp, hid⟩ := mem_timeline h
    obtain rfl := List.inj_on_of_nodup_map db.status_ids hother hstatus hid
    exact hp
  · intro h
    exact List.mem_map_of_mem (List.mem_filter.mpr ⟨hstatus, h⟩)

theorem mem_restAccountStatusIds {accountId id : ℤ} {options : AccountStatusesOptions}
    (h : id ∈ restAccountStatusIds u db accountId viewerAccountId options) :
    id ∈ accountTimeline u db accountId viewerAccountId options := by
  rw [restAccountStatusIds] at h
  split at h
  · have hmem := List.mem_insertionSort _ |>.mp (List.mem_of_mem_take h)
    exact (List.mem_filter.mp hmem).1
  · exact mem_page (timeline_nodup _) h

theorem timelines_paged : Paged u db viewerAccountId where
  account := by
    intro accountId options hpinned
    have hids : restAccountStatusIds u db accountId viewerAccountId options =
        options.window.page (accountTimeline u db accountId viewerAccountId options) := by
      rw [restAccountStatusIds, if_neg]
      rcases hpinned with hpinned | hmin
      · simp [hpinned]
      · simp [Option.isNone_eq_false_iff.mpr hmin]
    rw [hids]
    exact page_exact (timeline_nodup _)
  accountWalks := by
    intro accountId options hpinned
    refine walks_of_page (timeline_nodup _) fun w hw => ?_
    rw [restAccountStatusIds, if_neg (by simp [AccountStatusesOptions.at, hpinned]),
      options.at_window hw]
    rfl
  publicFeed := fun _ => page_exact (timeline_nodup _)
  publicWalks := by
    intro options
    refine walks_of_page (timeline_nodup _) fun w hw => ?_
    rw [restPublicTimelineIds, restPublicTimelineIdsWithOverrides, options.at_window hw]
    rfl
  tag := fun _ _ => page_exact (timeline_nodup _)
  tagWalks := by
    intro tagName options
    refine walks_of_page (timeline_nodup _) fun w hw => ?_
    rw [restTagTimelineIds, restTagTimelineIdsWithOverrides, options.page.at_window hw]
    rfl
  home := fun _ _ => page_exact (timeline_nodup _)
  homeWalks := by
    intro viewer options
    refine walks_of_page (timeline_nodup _) fun w hw => ?_
    rw [restHomeTimelineIds, options.at_window hw]
  list := by
    intro viewer listId options keys hkeys
    refine ⟨options.window.page keys, by
      rw [restListTimelineIds, restListTimelineIdsWithOverrides, hkeys, Option.map_some], ?_⟩
    obtain ⟨list, -, rfl⟩ := Option.map_eq_some_iff.mp hkeys
    exact page_exact (listRows_nodup ..)
  listWalks := by
    intro viewer listId options keys hkeys
    have hnodup : keys.Nodup := by
      obtain ⟨list, -, rfl⟩ := Option.map_eq_some_iff.mp hkeys
      exact listRows_nodup ..
    refine walks_of_page hnodup fun w hw => ?_
    rw [restListTimelineIds, restListTimelineIdsWithOverrides, hkeys, Option.map_some,
      Option.getD_some, options.at_window hw]

theorem timelines_safe (hlocal : LocalViewer db viewerAccountId) (howned : FollowsOwned db)
    (hknown : ∀ viewer, viewerAccountId = some viewer → OwnKnown db viewer) :
    Safe u db viewerAccountId where
  account := by
    intro accountId options id hid
    obtain ⟨status, hstatus, hp, rfl⟩ := mem_timeline (mem_restAccountStatusIds hid)
    exact authorized_of_maySee hstatus (maySee_of_inAccountTimeline hp)
  publicFeed := by
    intro options id hid
    obtain ⟨status, hstatus, hp, rfl⟩ := mem_timeline (mem_page (timeline_nodup _) hid)
    exact authorized_of_maySee hstatus (maySee_of_inPublicTimeline hlocal hp)
  tag := by
    intro tagName options id hid
    obtain ⟨status, hstatus, hp, rfl⟩ := mem_timeline (mem_page (timeline_nodup _) hid)
    exact authorized_of_maySee hstatus (maySee_of_inTagTimeline hlocal hp)
  home := by
    rintro viewer rfl options id hid
    obtain ⟨status, hstatus, hp, rfl⟩ := mem_timeline (mem_page (timeline_nodup _) hid)
    refine authorized_of_maySee hstatus (maySee_of_inHomeTimeline hp fun hown => ?_)
    obtain ⟨author, hauthor, hhome⟩ := (Option.any_eq_true _ _).mp hp
    have hauthorized := (Bool.and_eq_true_iff.mp hhome).1
    simp only [homeAuthorized, Bool.and_eq_true, Option.isNone_iff_eq_none] at hauthorized
    refine hknown viewer rfl status hstatus hown hauthorized.1.1.1 ?_ hauthorized.1.2
    intro account haccount
    rw [← hown, hauthor] at haccount
    exact Option.some.inj haccount ▸ hauthorized.1.1.2
  list := by
    rintro viewer rfl listId options ids hids id hid
    obtain ⟨keys, hkeys, rfl⟩ := Option.map_eq_some_iff.mp hids
    obtain ⟨list, hlist, rfl⟩ := Option.map_eq_some_iff.mp hkeys
    obtain ⟨status, hstatus, rfl, member, hmember, hp⟩ :=
      mem_listRows.mp (mem_page (listRows_nodup ..) hid)
    exact authorized_of_maySee hstatus (maySee_of_inListTimeline howned hlist hmember hp)

/-- The home timeline shows all of the viewer's own live statuses. -/
theorem inHomeTimeline_own {account : Account} (hown : status.accountId = viewer)
    (hlive : status.deletedAt = none) (haccount : db.account viewer = some account)
    (hsuspended : account.suspendedAt = none) (hsource : sourceNotSuspended db status = true) :
    inHomeTimeline db viewer status = true := by
  rw [inHomeTimeline, hown, haccount]
  simp [homeAuthorized, homeFollowed, hown, hlive, hsuspended, hsource]

/-- CORRECT (what timelines disclose): the viewer may see all that the timelines show, and pages are
    exact, when and only when the viewer has no live status of an unknown visibility. -/
theorem timelines_safe_iff (hlocal : LocalViewer db viewerAccountId) (howned : FollowsOwned db) :
    Safe u db viewerAccountId ∧ Paged u db viewerAccountId ↔
      ∀ viewer, viewerAccountId = some viewer → OwnKnown db viewer := by
  refine ⟨?_, fun hknown => ⟨timelines_safe hlocal howned hknown, timelines_paged⟩⟩
  rintro ⟨hsafe, -⟩ viewer rfl status hstatus hown hlive hsuspended hsource
  obtain ⟨account, haccount, -⟩ := hlocal viewer rfl
  have hhome := inHomeTimeline_own hown hlive haccount (hsuspended account haccount) hsource
  have hmem : status.id ∈ homeTimeline db viewer :=
    List.mem_map_of_mem (List.mem_filter.mpr ⟨hstatus, hhome⟩)
  have hpage : status.id ∈ restHomeTimelineIds db viewer
      ⟨some (status.id + 1), none, some (status.id - 1), 1, false, false, false⟩ :=
    mem_page_around (timeline_nodup _) hmem
  obtain ⟨-, other, hother, hid, hsee⟩ :=
    mem_restAuthorizedStatusIds.mp (hsafe.home viewer rfl _ _ hpage)
  obtain rfl := List.inj_on_of_nodup_map db.status_ids hother hstatus hid
  obtain ⟨author, hauthor, hallowed⟩ := hsee
  exact ((maySee_iff hauthor).mp ⟨author, hauthor, hallowed⟩).2.2.1

/-! ### Two databases -/

def localAccount : Account := ⟨1, none, none, none⟩

def remoteAccount : Account := ⟨2, some "far.example", none, none⟩

/-- A status of the local account. -/
def ownStatus (visibility : ℤ) : Status where
  id := 10
  accountId := 1
  text := "good morning"
  spoilerText := ""
  visibility := visibility
  isLocal := some true
  uri := none
  language := none
  reply := false
  inReplyToId := none
  inReplyToAccountId := none
  reblogOfId := none
  orderedMediaAttachmentIds := none
  deletedAt := none

/-- The local account follows the remote one, has it on a list and has written a status. -/
def exampleDatabase (visibility : ℤ) : Database where
  accounts := [localAccount, remoteAccount]
  users := []
  statuses := [ownStatus visibility]
  follows := [⟨5, 1, 2, true, none⟩]
  blocks := []
  mutes := []
  domainBlocks := []
  mentions := []
  lists := [⟨7, 1, false, 0⟩]
  listAccounts := [⟨7, 2, some 5⟩]
  tags := []
  statusTags := []
  tagFollows := []
  statusPins := []
  mediaAttachments := []
  account_ids := by decide
  status_ids := by simp
  follow_ids := by decide
  follow_keys := by decide
  list_ids := by decide
  member_keys := by decide
  pin_keys := Database.empty.pin_keys

theorem exampleDatabase_local (visibility : ℤ) : LocalViewer (exampleDatabase visibility) (some 1) := by
  intro viewer hviewer
  obtain rfl := Option.some.inj hviewer
  exact ⟨localAccount, rfl, rfl⟩

theorem exampleDatabase_owned (visibility : ℤ) : FollowsOwned (exampleDatabase visibility) := by
  simp [FollowsOwned, exampleDatabase]

/-- A status of visibility 3 is seen by its author alone. -/
theorem timelines_safe_direct :
    Safe FeaturedTags.exampleUnicode (exampleDatabase 3) (some 1) ∧
      Paged FeaturedTags.exampleUnicode (exampleDatabase 3) (some 1) := by
  refine (timelines_safe_iff (exampleDatabase_local 3) (exampleDatabase_owned 3)).mpr ?_
  intro viewer hviewer status hstatus _ _ _ _
  obtain rfl : status = ownStatus 3 := List.mem_singleton.mp hstatus
  exact ⟨by decide, by decide⟩

/-- The home timeline of an author has a status of visibility 7, which nobody may see. -/
theorem timelines_unknown_visibility : ¬∀ (u : Unicode) (db : Database) (viewerAccountId : Option ℤ),
    LocalViewer db viewerAccountId → FollowsOwned db →
      Safe u db viewerAccountId ∧ Paged u db viewerAccountId := by
  intro h
  obtain ⟨hsafe, -⟩ := h FeaturedTags.exampleUnicode (exampleDatabase 7) (some 1)
    (exampleDatabase_local 7) (exampleDatabase_owned 7)
  have hshown : (10 : ℤ) ∈ restHomeTimelineIds (exampleDatabase 7) 1
      ⟨none, none, none, 20, false, false, false⟩ := by decide
  have hsee := hsafe.home 1 rfl _ 10 hshown
  exact absurd hsee (by decide)

end Rustodon.Timelines
