import Rustodon.Timelines.Disclosure
import Rustodon.Timelines.Snapshots

/-! @src mastodon/write_repository.rs, mastodon/repository.rs | name:Agreement of snapshots and timelines |
    scheme:groups | family:timelines

    Snapshots and timelines restate each other's conditions. They agree on lists and on the public
    timeline; they do not on hashtags, whose names the one folds and the other puts in lower case, and a
    status whose `local` is NULL may have no snapshot at all. -/

namespace Rustodon.Timelines
open FeaturedTags (Unicode)
open Schemes.Groups
open Streaming (Subscription TimelineListRoute TimelineRouteSnapshot routeMatches)

/-! ### What a snapshot says -/

section Specification

variable (u : Unicode) (db : Database)

/-- It is known whether the status is local. -/
def LocalKnown (status : Status) : Prop := status.isLocal ≠ none ∨ status.uri = none

/-- What the queries say of a status. -/
structure Describes (status : Status) (snapshot : TimelineRouteSnapshot) : Prop where
  isPublic : ∃ author, db.account status.accountId = some author ∧
    snapshot.isPublic = publicShown status author ∧ snapshot.hashtag = hashtagShown status author
  isLocal : sqlOr status.isLocal (some status.uri.isNone) = some snapshot.isLocal
  hadMedia : snapshot.hadMedia = db.hasMedia status.id
  tags : ∀ name, name ∈ snapshot.tags ↔ ∃ stored ∈ db.tagNames status.id, normalizeName u stored = name
  lists : ∀ accountId listId, (⟨accountId, listId⟩ : TimelineListRoute) ∈ snapshot.lists ↔
    ∃ member ∈ db.listAccounts, ∃ list ∈ db.lists, isRoute db status member list = true ∧
      list.accountId = accountId ∧ list.id = listId

/-- Every status has an author: `statuses.account_id` is a foreign key. -/
def Authored : Prop := ∀ status ∈ db.statuses, ∃ author, db.account status.accountId = some author

end Specification

variable {u : Unicode} {db : Database} {status : Status} {author : Account}
  {snapshots snapshots' : ℤ → Option TimelineRouteSnapshot} {chunk : List ℤ}

/-! ### One chunk -/

theorem mem_tagNames {id : ℤ} {name : String} : name ∈ db.tagNames id ↔
    ∃ statusTag ∈ db.statusTags, statusTag.statusId = id ∧
      ∃ tag ∈ db.tags, tag.id = statusTag.tagId ∧ tag.name = name := by
  simp only [Database.tagNames, List.mem_flatMap]
  refine exists_congr fun statusTag => and_congr_right fun _ => ?_
  split_ifs with hid
  · simp [hid, and_assoc]
  · simp [hid]

theorem mem_tagRows {id : ℤ} {name : String} (hid : id ∈ chunk) :
    (id, name) ∈ tagRows db chunk ↔ name ∈ db.tagNames id := by
  rw [mem_tagNames, tagRows, List.mem_flatMap]
  constructor
  · rintro ⟨statusTag, hstatusTag, hrow⟩
    obtain ⟨tag, htag, hpair⟩ := List.mem_map.mp hrow
    obtain ⟨htag, htagId⟩ := List.mem_filter.mp htag
    obtain ⟨rfl, rfl⟩ := Prod.mk.inj hpair
    exact ⟨statusTag, List.mem_of_mem_filter hstatusTag, rfl, tag, htag, by simpa using htagId, rfl⟩
  · rintro ⟨statusTag, hstatusTag, rfl, tag, htag, htagId, rfl⟩
    refine ⟨statusTag, List.mem_filter.mpr ⟨hstatusTag, by simpa using hid⟩, ?_⟩
    exact List.mem_map.mpr ⟨tag, List.mem_filter.mpr ⟨htag, by simpa using htagId⟩, rfl⟩

theorem mem_routeRows {route : TimelineListRoute} (hstatus : status ∈ db.statuses)
    (hid : status.id ∈ chunk) : (status.id, route) ∈ routeRows db chunk ↔
      ∃ member ∈ db.listAccounts, ∃ list ∈ db.lists, isRoute db status member list = true ∧
        list.accountId = route.accountId ∧ list.id = route.listId := by
  rw [routeRows, List.mem_insertionSort, List.mem_dedup, List.mem_flatMap]
  constructor
  · rintro ⟨other, hother, hrow⟩
    obtain ⟨member, hmember, hrow⟩ := List.mem_flatMap.mp hrow
    obtain ⟨list, hlist, hpair⟩ := List.mem_map.mp hrow
    obtain ⟨hlist, hroute⟩ := List.mem_filter.mp hlist
    obtain ⟨hsame, rfl⟩ := Prod.mk.inj hpair
    obtain rfl := List.inj_on_of_nodup_map db.status_ids (List.mem_of_mem_filter hother) hstatus hsame
    exact ⟨member, hmember, list, hlist, hroute, rfl, rfl⟩
  · rintro ⟨member, hmember, list, hlist, hroute, hlistAccount, hlistId⟩
    refine ⟨status, List.mem_filter.mpr ⟨hstatus, by simpa using hid⟩, ?_⟩
    refine List.mem_flatMap.mpr ⟨member, hmember, List.mem_map.mpr ⟨list, ?_, ?_⟩⟩
    · exact List.mem_filter.mpr ⟨hlist, hroute⟩
    · rw [hlistAccount, hlistId]

theorem mem_chunkStatuses : (status, author) ∈ chunkStatuses db chunk ↔
    (status ∈ db.statuses ∧ status.id ∈ chunk) ∧ db.account status.accountId = some author := by
  simp only [chunkStatuses, List.mem_filterMap, List.mem_filter, List.contains_iff_mem,
    Option.map_eq_some_iff, Prod.mk.injEq]
  constructor
  · rintro ⟨other, hother, author', hauthor, rfl, rfl⟩
    exact ⟨hother, hauthor⟩
  · rintro ⟨hstatus, hauthor⟩
    exact ⟨status, hstatus, author, hauthor, rfl, rfl⟩

theorem chunkStatuses_nodup : ((chunkStatuses db chunk).map fun row => row.1.id).Nodup := by
  suffices h : ((chunkStatuses db chunk).map fun row => row.1.id).Sublist
      ((db.statuses.filter fun status => chunk.contains status.id).map Status.id) from
    (db.status_ids.sublist (List.filter_sublist.map _)).sublist h
  rw [chunkStatuses]
  generalize db.statuses.filter (fun status => chunk.contains status.id) = statuses
  induction statuses with
  | nil => exact List.Sublist.slnil
  | cons status statuses ih =>
    cases hauthor : db.account status.accountId with
    | none =>
      rw [List.filterMap_cons_none (by rw [hauthor]; rfl), List.map_cons]
      exact ih.cons _
    | some author =>
      rw [List.filterMap_cons_some (by rw [hauthor]; rfl), List.map_cons, List.map_cons]
      exact ih.cons_cons _

theorem sqlOr_isSome {a : Option Bool} {b : Bool} : (sqlOr a (some b)).isSome = true ↔ a ≠ none ∨ b = true := by
  rcases a with _ | a | a <;> cases b <;> simp [sqlOr]

theorem snapshotRow_isSome : (snapshotRow db status author).isSome = true ↔ LocalKnown status := by
  rw [snapshotRow, Option.isSome_map, sqlOr_isSome, LocalKnown, Option.isNone_iff_eq_none]

/-- A chunk is read when it is known of all of its statuses whether they are local. -/
theorem readChunk_isSome : (readChunk u db snapshots chunk).isSome = true ↔
    ∀ row ∈ chunkStatuses db chunk, LocalKnown row.1 := by
  rw [readChunk, Option.isSome_map, isSome_mapM]
  exact forall₂_congr fun _ _ => snapshotRow_isSome

theorem foldl_addTag {names : List String} {snapshot : TimelineRouteSnapshot} :
    names.foldl (addTag u) snapshot =
      { snapshot with tags := snapshot.tags ++ names.map (normalizeName u) } := by
  induction names generalizing snapshot with
  | nil => simp
  | cons name names ih => rw [List.foldl_cons, ih]; simp [addTag]

theorem foldl_addList {routes : List TimelineListRoute} {snapshot : TimelineRouteSnapshot} :
    routes.foldl addList snapshot = { snapshot with lists := snapshot.lists ++ routes } := by
  induction routes generalizing snapshot with
  | nil => simp
  | cons route routes ih => rw [List.foldl_cons, ih]; simp [addList]

/-- The rows of a chunk have the ids of its statuses. -/
theorem rows_keys {rows : List (ℤ × TimelineRouteSnapshot)}
    (h : (chunkStatuses db chunk).mapM (fun row => snapshotRow db row.1 row.2) = some rows) :
    rows.map Prod.fst = (chunkStatuses db chunk).map fun row => row.1.id := by
  refine map_of_mapM (fun row value hvalue => ?_) h
  obtain ⟨_, -, rfl⟩ := Option.map_eq_some_iff.mp hvalue
  rfl

/-- The statuses of a chunk are described, and the tags and lists are theirs. -/
theorem readChunk_of_mem (h : readChunk u db snapshots chunk = some snapshots')
    (hstatus : status ∈ db.statuses) (hid : status.id ∈ chunk)
    (hauthor : db.account status.accountId = some author) :
    ∃ snapshot, snapshots' status.id = some snapshot ∧ Describes u db status snapshot := by
  obtain ⟨rows, hrows, rfl⟩ := Option.map_eq_some_iff.mp h
  obtain ⟨_, hrow, hvalue⟩ := mem_of_mapM hrows (mem_chunkStatuses.mpr ⟨⟨hstatus, hid⟩, hauthor⟩)
  obtain ⟨isLocal, hlocal, rfl⟩ := Option.map_eq_some_iff.mp hvalue
  have hkeys : (rows.map Prod.fst).Nodup := by
    rw [rows_keys hrows]
    exact chunkStatuses_nodup
  simp only [foldl_push, foldl_put hkeys hrow, Option.map_some, foldl_addTag, foldl_addList]
  refine ⟨_, rfl, ⟨author, hauthor, rfl, rfl⟩, hlocal, rfl, fun name => ?_, fun accountId listId => ?_⟩
  · simp only [List.nil_append, List.mem_map, mem_values, mem_tagRows hid]
  · simp only [List.nil_append, mem_values]
    exact mem_routeRows hstatus hid

/-- Other snapshots stay what they are. -/
theorem readChunk_of_not_mem (h : readChunk u db snapshots chunk = some snapshots') {id : ℤ}
    (hid : id ∉ chunk) : snapshots' id = snapshots id := by
  obtain ⟨rows, hrows, rfl⟩ := Option.map_eq_some_iff.mp h
  have hrow : id ∉ rows.map Prod.fst := by
    rw [rows_keys hrows, List.mem_map]
    rintro ⟨⟨status, author⟩, hmem, rfl⟩
    exact hid (mem_chunkStatuses.mp hmem).1.2
  have htags : values (tagRows db chunk) id = [] := by
    refine values_eq_nil fun row hrow hkey => hid ?_
    obtain ⟨statusTag, hstatusTag, htag⟩ := List.mem_flatMap.mp hrow
    obtain ⟨tag, -, rfl⟩ := List.mem_map.mp htag
    obtain rfl := hkey
    simpa using (List.mem_filter.mp hstatusTag).2
  have hlists : values (routeRows db chunk) id = [] := by
    refine values_eq_nil fun row hrow hkey => hid ?_
    rw [routeRows, List.mem_insertionSort, List.mem_dedup, List.mem_flatMap] at hrow
    obtain ⟨status, hstatus, hrow⟩ := hrow
    obtain ⟨member, -, hrow⟩ := List.mem_flatMap.mp hrow
    obtain ⟨list, -, rfl⟩ := List.mem_map.mp hrow
    obtain rfl := hkey
    simpa using (List.mem_filter.mp hstatus).2
  simp only [foldl_push, htags, hlists, List.foldl_nil, Option.map_id', foldl_put_of_not_mem hrow]

/-! ### All chunks -/

theorem readChunks_isSome {chunks : List (List ℤ)} :
    (chunks.foldlM (readChunk u db) snapshots).isSome = true ↔
      ∀ chunk ∈ chunks, ∀ row ∈ chunkStatuses db chunk, LocalKnown row.1 := by
  induction chunks generalizing snapshots with
  | nil => simp
  | cons chunk chunks ih =>
    rw [List.foldlM_cons, List.forall_mem_cons, ← @readChunk_isSome u db snapshots chunk]
    cases hread : readChunk u db snapshots chunk with
    | none => simp
    | some snapshots' => simpa using @ih snapshots'

/-- A status that one of the chunks has is described at the end: later chunks either read it again or
    leave it as it is. -/
theorem readChunks_describes {chunks : List (List ℤ)}
    (h : chunks.foldlM (readChunk u db) snapshots = some snapshots') (hstatus : status ∈ db.statuses)
    (hauthor : db.account status.accountId = some author)
    (hknown : (∃ chunk ∈ chunks, status.id ∈ chunk) ∨
      ∃ snapshot, snapshots status.id = some snapshot ∧ Describes u db status snapshot) :
    ∃ snapshot, snapshots' status.id = some snapshot ∧ Describes u db status snapshot := by
  induction chunks generalizing snapshots with
  | nil =>
    obtain rfl := Option.some.inj h
    exact hknown.resolve_left (by simp)
  | cons chunk chunks ih =>
    rw [List.foldlM_cons] at h
    obtain ⟨middle, hread, hrest⟩ := Option.bind_eq_some_iff.mp h
    by_cases hid : status.id ∈ chunk
    · exact ih hrest (.inr (readChunk_of_mem hread hstatus hid hauthor))
    · refine ih hrest ?_
      rcases hknown with ⟨other, hother, hmem⟩ | hbefore
      · rcases List.mem_cons.mp hother with rfl | hother
        · exact absurd hmem hid
        · exact .inl ⟨other, hother, hmem⟩
      · rw [← readChunk_of_not_mem hread hid] at hbefore
        exact .inr hbefore

theorem Describes.finish {snapshot : TimelineRouteSnapshot} (h : Describes u db status snapshot) :
    Describes u db status (finishSnapshot snapshot) where
  isPublic := h.isPublic
  isLocal := h.isLocal
  hadMedia := h.hadMedia
  tags := by
    intro name
    rw [← h.tags, finishSnapshot, List.mem_dedup, List.mem_insertionSort]
  lists := by
    intro accountId listId
    rw [← h.lists, finishSnapshot, List.mem_dedup]

/-- The snapshots are read when it is known of all statuses whether they are local. -/
theorem statusTimelineSnapshots_isSome (hauthored : Authored db) {statusIds : List ℤ} :
    (statusTimelineSnapshots u db statusIds).isSome = true ↔
      ∀ status ∈ db.statuses, status.id ∈ statusIds → LocalKnown status := by
  rw [statusTimelineSnapshots, Option.isSome_map, readChunks_isSome]
  constructor
  · intro h status hstatus hid
    obtain ⟨chunk, hchunk, hmem⟩ := (mem_chunks (n := 128) (by decide)).mp hid
    obtain ⟨author, hauthor⟩ := hauthored status hstatus
    exact h chunk hchunk (status, author) (mem_chunkStatuses.mpr ⟨⟨hstatus, hmem⟩, hauthor⟩)
  · rintro h chunk hchunk ⟨status, author⟩ hrow
    obtain ⟨⟨hstatus, hmem⟩, -⟩ := mem_chunkStatuses.mp hrow
    exact h status hstatus ((mem_chunks (by decide)).mpr ⟨chunk, hchunk, hmem⟩)

/-- Every status that is asked for has a snapshot that describes it. -/
theorem statusTimelineSnapshots_describes (hauthored : Authored db) {statusIds : List ℤ}
    (h : statusTimelineSnapshots u db statusIds = some snapshots) (hstatus : status ∈ db.statuses)
    (hid : status.id ∈ statusIds) :
    ∃ snapshot, snapshots status.id = some snapshot ∧ Describes u db status snapshot := by
  obtain ⟨read, hread, rfl⟩ := Option.map_eq_some_iff.mp h
  obtain ⟨author, hauthor⟩ := hauthored status hstatus
  obtain ⟨snapshot, hsnapshot, hdescribes⟩ := readChunks_describes hread hstatus hauthor
    (.inl ((mem_chunks (by decide)).mp hid))
  exact ⟨finishSnapshot snapshot, by simp [hsnapshot], hdescribes.finish⟩

/-! ### Lists -/

theorem ownedList_eq_some {accountId listId : ℤ} {list : UserList} :
    ownedList db accountId listId = some list ↔
      list ∈ db.lists ∧ list.id = listId ∧ list.accountId = accountId := by
  constructor
  · intro h
    have hkey := List.find?_some h
    simp only [Bool.and_eq_true, decide_eq_true_eq] at hkey
    exact ⟨List.mem_of_find?_eq_some h, hkey⟩
  · rintro ⟨hlist, rfl, rfl⟩
    cases hfind : ownedList db list.accountId list.id with
    | none => simpa using List.find?_eq_none.mp hfind list hlist
    | some other =>
      have hkey := List.find?_some hfind
      simp only [Bool.and_eq_true, decide_eq_true_eq] at hkey
      rw [List.inj_on_of_nodup_map db.list_ids (List.mem_of_find?_eq_some hfind) hlist hkey.1]

theorem routeAuthorized_eq {list : UserList} {memberFollow : Option Follow} (hlive : status.deletedAt = none) :
    routeAuthorized db list status author memberFollow =
      listAuthorized db list.accountId noOverrides status author memberFollow := by
  simp [routeAuthorized, listAuthorized, hlive]

theorem routeWanted_eq {list : UserList} {memberFollow : Option Follow} :
    routeWanted db list status author memberFollow =
      listWanted db list.accountId list.id list.repliesPolicy noOverrides status author memberFollow := by
  simp only [routeWanted, listWanted, Overrides.languageOf, noOverrides, Bool.false_eq_true, if_false]

/-- The rows of both joins are the same ones. -/
theorem isRoute_iff {member : ListAccount} {list : UserList} (hlive : status.deletedAt = none)
    (hmember : member ∈ db.listAccounts) : isRoute db status member list = true ↔
      member ∈ listMembers db list.accountId list.id status ∧
        inListTimeline db list.accountId list.id list.repliesPolicy noOverrides status member = true := by
  rw [listMembers, List.mem_filter, isRoute, inListTimeline]
  cases db.account status.accountId with
  | none => simp
  | some author =>
    simp only [Option.any_some, routeAuthorized_eq hlive, routeWanted_eq, Bool.and_eq_true,
      decide_eq_true_eq, eq_comm (a := list.id)]
    tauto

theorem route_iff_listTimeline {accountId listId : ℤ} (hstatus : status ∈ db.statuses)
    (hlive : status.deletedAt = none) :
    (∃ member ∈ db.listAccounts, ∃ list ∈ db.lists, isRoute db status member list = true ∧
      list.accountId = accountId ∧ list.id = listId) ↔
        ∃ keys, listTimeline db accountId listId noOverrides = some keys ∧ status.id ∈ keys := by
  constructor
  · rintro ⟨member, hmember, list, hlist, hroute, rfl, rfl⟩
    obtain ⟨hrow, hin⟩ := (isRoute_iff hlive hmember).mp hroute
    refine ⟨listRows db list.accountId list.id list.repliesPolicy noOverrides, ?_, ?_⟩
    · rw [listTimeline, ownedList_eq_some.mpr ⟨hlist, rfl, rfl⟩, Option.map_some]
    · exact mem_listRows.mpr ⟨status, hstatus, rfl, member, hrow, hin⟩
  · rintro ⟨keys, hkeys, hmem⟩
    obtain ⟨list, howned, rfl⟩ := Option.map_eq_some_iff.mp hkeys
    obtain ⟨hlist, rfl, rfl⟩ := ownedList_eq_some.mp howned
    obtain ⟨other, hother, hid, member, hrow, hin⟩ := mem_listRows.mp hmem
    obtain rfl := List.inj_on_of_nodup_map db.status_ids hother hstatus hid
    have hmember := List.mem_of_mem_filter hrow
    exact ⟨member, hmember, list, hlist, (isRoute_iff hlive hmember).mpr ⟨hrow, hin⟩, rfl, rfl⟩

/-! ### The public timeline and hashtags -/

/-- A timeline that is restricted to local, remote or media statuses has the snapshot's. -/
def TimelineOptions.Admits (options : TimelineOptions) (snapshot : TimelineRouteSnapshot) : Prop :=
  (options.localOnly = true → options.remoteOnly = false → snapshot.isLocal = true) ∧
    (options.remoteOnly = true → options.localOnly = false → snapshot.isLocal = false) ∧
      (options.onlyMedia = true → snapshot.hadMedia = true)

theorem localityAllowed_iff {options : TimelineOptions} {isLocal : Bool}
    (h : sqlOr status.isLocal (some status.uri.isNone) = some isLocal) :
    localityAllowed options status = true ↔
      (options.localOnly = true → options.remoteOnly = false → isLocal = true) ∧
        (options.remoteOnly = true → options.localOnly = false → isLocal = false) := by
  obtain ⟨maxId, minId, sinceId, limit, localOnly, remoteOnly, onlyMedia⟩ := options
  revert h
  rw [localityAllowed]
  rcases status.isLocal with _ | _ | _ <;> rcases status.uri with _ | uri <;> cases isLocal <;>
    cases localOnly <;> cases remoteOnly <;> simp [sqlOr]

theorem Describes.admits_iff {options : TimelineOptions} {snapshot : TimelineRouteSnapshot}
    (h : Describes u db status snapshot) : options.Admits snapshot ↔
      localityAllowed options status = true ∧
        (!options.onlyMedia || noOverrides.hadMedia.getD (db.hasMedia status.id)) = true := by
  rw [TimelineOptions.Admits, localityAllowed_iff h.isLocal, ← h.hadMedia]
  cases options.onlyMedia <;> simp [noOverrides, and_assoc]

/-- The public timeline has what its snapshot says. -/
theorem Describes.mem_publicTimeline {options : TimelineOptions} {snapshot : TimelineRouteSnapshot}
    (h : Describes u db status snapshot) (hstatus : status ∈ db.statuses)
    (hlive : status.deletedAt = none) :
    snapshot.isPublic = true ∧ options.Admits snapshot ↔
      status.id ∈ publicTimeline db none options noOverrides := by
  obtain ⟨author, hauthor, hpublic, -⟩ := h.isPublic
  rw [publicTimeline, mem_timeline_iff hstatus, h.admits_iff, hpublic, inPublicTimeline, hauthor,
    publicShown]
  simp only [Option.any_some, hlive, Option.isNone_none, Bool.or_true, Bool.true_and, Option.all_none,
    Bool.and_true, Bool.and_eq_true]
  tauto

/-- The timeline of a hashtag shows the status, as far as its tags are concerned. -/
def TagShown (u : Unicode) (db : Database) (status : Status) (name : String) : Prop :=
  tagExists u db (normalizeName u name) = true ∧
    normalizeName u (normalizeName u name) ∈ lowerTagNames u db status.id

theorem tagsAllowed_iff {name : String} :
    tagsAllowed u db ((rawAny name []).map (normalizeName u)) (([].take 4).map (normalizeName u))
      (([].take 4).map (normalizeName u)) noOverrides status = true ↔
        normalizeName u name ∈ lowerTagNames u db status.id := by
  simp [tagsAllowed, rawAny, noOverrides, List.eraseDups_cons]

/-- The timeline of a hashtag has what its snapshot says, if its tags do. -/
theorem Describes.mem_tagTimeline {options : TimelineOptions} {name : String}
    {snapshot : TimelineRouteSnapshot} (h : Describes u db status snapshot)
    (hstatus : status ∈ db.statuses) (hlive : status.deletedAt = none) :
    status.id ∈ tagTimeline u db name none ⟨options, [], [], []⟩ noOverrides ↔
      snapshot.hashtag = true ∧ options.Admits snapshot ∧ TagShown u db status name := by
  obtain ⟨author, hauthor, -, hhashtag⟩ := h.isPublic
  rw [tagTimeline, mem_timeline_iff hstatus, h.admits_iff, hhashtag, inTagTimeline, hauthor,
    hashtagShown, TagShown]
  simp only [Option.any_some, hlive, Option.isNone_none, Bool.or_true, Bool.true_and, Option.all_none,
    Bool.and_true, Bool.and_eq_true, tagsAllowed_iff]
  tauto

/-! ### Agreement -/

section Agreement

variable (u : Unicode) (db : Database)

/-- The fields of a snapshot say what the timelines show. -/
structure RoutesAgree (status : Status) (snapshot : TimelineRouteSnapshot) : Prop where
  lists : ∀ accountId listId, (⟨accountId, listId⟩ : TimelineListRoute) ∈ snapshot.lists ↔
    ∃ keys, listTimeline db accountId listId noOverrides = some keys ∧ status.id ∈ keys
  publicFeed : ∀ options : TimelineOptions, snapshot.isPublic = true ∧ options.Admits snapshot ↔
    status.id ∈ publicTimeline db none options noOverrides
  hashtag : ∀ name (options : TimelineOptions),
    (snapshot.hashtag = true ∧ options.Admits snapshot ∧ normalizeName u name ∈ snapshot.tags) ↔
      status.id ∈ tagTimeline u db name none ⟨options, [], [], []⟩ noOverrides

/-- The options of a reload of the timeline of a stream. -/
def reloadOptions (subscription : Subscription) : TimelineOptions where
  maxId := none
  minId := none
  sinceId := none
  limit := 40
  localOnly := subscription.onlyLocal
  remoteOnly := subscription.onlyRemote
  onlyMedia := subscription.onlyMedia

/-- The subscription to a hashtag. -/
def hashtagSubscription (onlyLocal : Bool) (name : String) : Subscription :=
  ⟨if onlyLocal then .hashtagLocal else .hashtag, some name, some (normalizeName u name)⟩

/-- An event that a snapshot routes reaches the streams whose timelines show the status. -/
structure StreamsAgree (status : Status) (snapshot : TimelineRouteSnapshot) : Prop where
  list : ∀ accountId parameter listId, Streaming.parseI64 parameter = some listId →
    (routeMatches ⟨.list, some parameter, some parameter⟩ accountId snapshot = true ↔
      ∃ keys, listTimeline db accountId listId noOverrides = some keys ∧ status.id ∈ keys)
  publicFeed : ∀ subscription : Subscription, subscription.stream.routeKind = some .publicFeed →
    ∀ accountId, (routeMatches subscription accountId snapshot = true ↔
      status.id ∈ publicTimeline db none (reloadOptions subscription) noOverrides)
  hashtag : ∀ onlyLocal name accountId,
    (routeMatches (hashtagSubscription u onlyLocal name) accountId snapshot = true ↔
      status.id ∈ tagTimeline u db name none
        ⟨reloadOptions (hashtagSubscription u onlyLocal name), [], [], []⟩ noOverrides)

/-- The tags of a status are found under their folded names, and by no others. -/
structure TagsFolded (status : Status) : Prop where
  folded : ∀ name ∈ db.tagNames status.id, TagShown u db status name
  found : ∀ name, TagShown u db status name →
    ∃ stored ∈ db.tagNames status.id, normalizeName u stored = normalizeName u name

/-- The snapshots can be read, and those of live statuses agree with the timelines. -/
def SnapshotsAgree (statusIds : List ℤ) : Prop :=
  ∃ snapshots, statusTimelineSnapshots u db statusIds = some snapshots ∧
    ∀ status ∈ db.statuses, status.id ∈ statusIds → status.deletedAt = none →
      ∃ snapshot, snapshots status.id = some snapshot ∧ RoutesAgree u db status snapshot ∧
        StreamsAgree u db status snapshot

end Agreement

theorem TagsFolded.mem_iff (h : TagsFolded u db status) {name : String} :
    (∃ stored ∈ db.tagNames status.id, normalizeName u stored = normalizeName u name) ↔
      TagShown u db status name := by
  refine ⟨?_, h.found name⟩
  rintro ⟨stored, hstored, hname⟩
  have hshown := h.folded stored hstored
  rw [TagShown, hname] at hshown
  exact hshown

theorem Describes.routesAgree {snapshot : TimelineRouteSnapshot} (h : Describes u db status snapshot)
    (hstatus : status ∈ db.statuses) (hlive : status.deletedAt = none)
    (hfolded : snapshot.hashtag = true → TagsFolded u db status) :
    RoutesAgree u db status snapshot where
  lists := fun accountId listId => (h.lists accountId listId).trans (route_iff_listTimeline hstatus hlive)
  publicFeed := fun _ => h.mem_publicTimeline hstatus hlive
  hashtag := by
    intro name options
    rw [h.mem_tagTimeline hstatus hlive, h.tags]
    refine and_congr_right fun hhashtag => and_congr_right fun _ => ?_
    exact (hfolded hhashtag).mem_iff

/-- Snapshots agree with the timelines of hashtags only if the tags are folded. -/
theorem RoutesAgree.tagsFolded {snapshot : TimelineRouteSnapshot} (h : RoutesAgree u db status snapshot)
    (hdescribes : Describes u db status snapshot) (hstatus : status ∈ db.statuses)
    (hlive : status.deletedAt = none) (hhashtag : snapshot.hashtag = true) :
    TagsFolded u db status := by
  have hall : (⟨none, none, none, 40, false, false, false⟩ : TimelineOptions).Admits snapshot := by
    simp [TimelineOptions.Admits]
  have hiff : ∀ name, (∃ stored ∈ db.tagNames status.id, normalizeName u stored = normalizeName u name) ↔
      TagShown u db status name := by
    intro name
    have hname := h.hashtag name ⟨none, none, none, 40, false, false, false⟩
    rw [hdescribes.mem_tagTimeline hstatus hlive, hdescribes.tags] at hname
    exact ⟨fun hstored => (hname.mp ⟨hhashtag, hall, hstored⟩).2.2,
      fun hshown => (hname.mpr ⟨hhashtag, hall, hshown⟩).2.2⟩
  exact ⟨fun name hname => (hiff name).mp ⟨name, hname, rfl⟩, fun name hshown => (hiff name).mpr hshown⟩

theorem RoutesAgree.streams {snapshot : TimelineRouteSnapshot} (h : RoutesAgree u db status snapshot) :
    StreamsAgree u db status snapshot where
  list := by
    intro accountId parameter listId hparse
    rw [← h.lists]
    simp [routeMatches, Streaming.StreamName.routeKind, Subscription.parameter, hparse]
  publicFeed := by
    rintro ⟨stream, wire, canonical⟩ hkind accountId
    rw [← h.publicFeed, TimelineOptions.Admits, reloadOptions, routeMatches, hkind]
    cases stream <;> simp_all [Streaming.StreamName.routeKind, Subscription.onlyLocal,
      Subscription.onlyRemote, Subscription.onlyMedia, and_assoc]
  hashtag := by
    intro onlyLocal name accountId
    rw [← h.hashtag, TimelineOptions.Admits]
    cases onlyLocal <;>
      simp [hashtagSubscription, routeMatches, Streaming.StreamName.routeKind, Subscription.parameter,
        reloadOptions, Subscription.onlyLocal, Subscription.onlyRemote, Subscription.onlyMedia, and_assoc]

/-- CORRECT (route snapshots): snapshots can be read and agree with the timelines when and only when it
    is known of every status whether it is local, and the tags of what hashtags show are folded. -/
theorem snapshots_agree_iff (hauthored : Authored db) {statusIds : List ℤ} :
    SnapshotsAgree u db statusIds ↔
      (∀ status ∈ db.statuses, status.id ∈ statusIds → LocalKnown status) ∧
        ∀ status ∈ db.statuses, status.id ∈ statusIds → status.deletedAt = none →
          ∀ author, db.account status.accountId = some author → hashtagShown status author = true →
            TagsFolded u db status := by
  constructor
  · rintro ⟨snapshots, hread, hagree⟩
    refine ⟨(statusTimelineSnapshots_isSome hauthored).mp (by rw [hread]; rfl), ?_⟩
    intro status hstatus hid hlive author hauthor hshown
    obtain ⟨snapshot, hsnapshot, hroutes, -⟩ := hagree status hstatus hid hlive
    obtain ⟨described, hdescribed, hdescribes⟩ :=
      statusTimelineSnapshots_describes hauthored hread hstatus hid
    obtain rfl := Option.some.inj (hsnapshot.symm.trans hdescribed)
    obtain ⟨author', hauthor', -, hhashtag⟩ := hdescribes.isPublic
    obtain rfl := Option.some.inj (hauthor.symm.trans hauthor')
    exact hroutes.tagsFolded hdescribes hstatus hlive (hhashtag.trans hshown)
  · rintro ⟨hlocal, hfolded⟩
    obtain ⟨snapshots, hread⟩ := Option.isSome_iff_exists.mp
      ((statusTimelineSnapshots_isSome (u := u) hauthored).mpr hlocal)
    refine ⟨snapshots, hread, fun status hstatus hid hlive => ?_⟩
    obtain ⟨snapshot, hsnapshot, hdescribes⟩ :=
      statusTimelineSnapshots_describes hauthored hread hstatus hid
    obtain ⟨author, hauthor, -, hhashtag⟩ := hdescribes.isPublic
    have hagree := hdescribes.routesAgree hstatus hlive fun hshown =>
      hfolded status hstatus hid hlive author hauthor (hhashtag.symm.trans hshown)
    exact ⟨snapshot, hsnapshot, hagree, hagree.streams⟩

/-! ### Statuses with a tag and of unknown locality -/

/-- A public status that has a URI, with its tags. -/
def taggedDatabase (isLocal : Option Bool) (tags : List Tag) : Database :=
  { exampleDatabase 0 with
    statuses := [{ ownStatus 0 with isLocal := isLocal, uri := some "https://here.example/statuses/10" }]
    tags := tags
    statusTags := tags.map fun tag => ⟨10, tag.id⟩
    status_ids := by simp }

theorem taggedDatabase_authored (isLocal : Option Bool) (tags : List Tag) :
    Authored (taggedDatabase isLocal tags) := by
  intro status hstatus
  obtain rfl := List.mem_singleton.mp hstatus
  exact ⟨localAccount, rfl⟩

/-- A local status without tags. -/
theorem snapshots_agree_untagged :
    SnapshotsAgree FeaturedTags.exampleUnicode (taggedDatabase (some true) []) [10] := by
  refine (snapshots_agree_iff (taggedDatabase_authored (some true) [])).mpr ⟨?_, ?_⟩
  · intro status hstatus _
    obtain rfl := List.mem_singleton.mp hstatus
    exact .inl (by simp)
  · intro status _ _ _ author _ _
    exact ⟨by simp [Database.tagNames, taggedDatabase],
      by simp [TagShown, tagExists, taggedDatabase]⟩

/-- The snapshot of a status whose `local` is NULL cannot be read, though it has a URI. -/
theorem snapshots_disagree : ¬∀ (u : Unicode) (db : Database) (statusIds : List ℤ), Authored db →
    SnapshotsAgree u db statusIds := by
  intro h
  obtain ⟨snapshots, hread, -⟩ := h FeaturedTags.exampleUnicode (taggedDatabase none []) [10]
    (taggedDatabase_authored none [])
  have hnone : (statusTimelineSnapshots FeaturedTags.exampleUnicode (taggedDatabase none []) [10]).isSome =
      false := by decide
  rw [hread] at hnone
  cases hnone

end Rustodon.Timelines
