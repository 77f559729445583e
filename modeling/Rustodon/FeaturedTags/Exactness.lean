import Rustodon.FeaturedTags.Machine
import Rustodon.Schemes.Latest
import Rustodon.Schemes.Runs

/-! @src mastodon/write_repository.rs, write_repository/hashtag_controls.rs | name:Featured hashtags tell
    what their statuses are | scheme:latest,runs | family:featured-tags

    A featured hashtag starts from the statuses that count for it, and is then moved with them: one less
    looks the latest of them up again, one more takes the time of the status that is written. The latter
    is right unless a status that is edited gains the hashtag while a later one has it. -/

namespace Rustodon.FeaturedTags
open Ingest (WriteError)
open Schemes.Latest (Describes)
open Schemes.Runs (Run)
open Schemes.Tables (Table)
open Schemes.Utf8 (Text trim)
open Html (profileHashtags)

variable {u : Unicode} {s s' : State} {rows rows' : Rows} {statuses : Table Status.id}
  {featuredTags : Table FeaturedTag.tagId} {status : Status} {statusId tagId : ℤ}

/-- The statistics are those of the statuses, and there are at most ten, of different tags. -/
structure Exact (rows : Rows) : Prop where
  statistics : ∀ featured ∈ rows.featuredTags.rows,
    Describes featured.statusesCount featured.lastStatusAt (times rows.statuses.rows featured.tagId)
  limit : rows.featuredTags.rows.length ≤ 10
  distinct : (rows.featuredTags.rows.map FeaturedTag.tagId).Nodup

/-! ### The statuses that count -/

theorem counts_iff : status.counts tagId = true ↔
    status.deletedAt = none ∧ isListed status.visibility = true ∧ tagId ∈ status.tagIds := by
  simp [Status.counts, and_assoc]

theorem times_cons (statuses : List Status) :
    times (status :: statuses) tagId =
      if status.counts tagId then status.createdAt :: times statuses tagId else times statuses tagId := by
  rw [times, List.filter_cons]
  split <;> rfl

theorem times_append (statuses statuses' : List Status) :
    times (statuses ++ statuses') tagId = times statuses tagId ++ times statuses' tagId := by
  simp [times]

/-- The times of the other statuses. -/
def others (statuses : Table Status.id) (statusId tagId : ℤ) : List ℤ :=
  times (statuses.erase statusId).rows tagId

theorem times_perm (tagId : ℤ) (h : statuses.get statusId = some status) :
    (times statuses.rows tagId).Perm
      (if status.counts tagId then status.createdAt :: others statuses statusId tagId
        else others statuses statusId tagId) := by
  have hperm := ((Table.rows_perm h).filter (Status.counts tagId)).map Status.createdAt
  rw [others, ← times_cons]
  exact hperm

/-- Without its own boosts that carry tags, a deletion leaves the other statuses. -/
theorem times_discard (deletedAt : ℤ) : ∀ {statuses : List Status},
    (∀ row ∈ statuses, row.reblogOfId = some status.id → row.deletedAt = none →
      isListed row.visibility = true → row.tagIds = []) →
    times (statuses.map fun row => status.discard deletedAt row) tagId =
      times (statuses.filter fun row => decide (row.id ≠ status.id)) tagId
  | [], _ => rfl
  | row :: statuses, hboosts => by
    have ih := times_discard deletedAt fun row hrow => hboosts row (List.mem_cons_of_mem _ hrow)
    rw [List.map_cons, times_cons, List.filter_cons, ih]
    by_cases hid : row.id = status.id
    · simp [Status.discard, isDiscarded, hid, Status.counts]
    · have hkept : decide (row.id ≠ status.id) = true := by simpa using hid
      rw [if_pos hkept, times_cons, Status.discard]
      by_cases hdiscarded : isDiscarded status row = true
      · have hboost : row.reblogOfId = some status.id ∧ row.deletedAt = none := by
          simp [isDiscarded, hid] at hdiscarded
          exact ⟨hdiscarded.1.2, hdiscarded.2⟩
        have hnot : ¬row.counts tagId = true := by
          intro hcounts
          obtain ⟨hlive, hlisted, hmem⟩ := counts_iff.mp hcounts
          rw [hboosts row List.mem_cons_self hboost.1 hlive hlisted] at hmem
          cases hmem
        rw [if_pos hdiscarded, if_neg hnot, if_neg (by simp [Status.counts])]
      · rw [if_neg hdiscarded]

/-! ### What the featured hashtags say during a transaction -/

/-- The featured hashtags say what is expected of them. -/
def Tracks (featuredTags : Table FeaturedTag.tagId) (expected : ℤ → List ℤ) : Prop :=
  ∀ tagId featured, featuredTags.get tagId = some featured →
    Describes featured.statusesCount featured.lastStatusAt (expected tagId)

theorem Tracks.perm {expected expected' : ℤ → List ℤ} (h : Tracks featuredTags expected)
    (hperm : ∀ tagId, (expected tagId).Perm (expected' tagId)) : Tracks featuredTags expected' :=
  fun tagId featured hget => (h tagId featured hget).perm (hperm tagId)

theorem Exact.tracks (h : Exact rows) : Tracks rows.featuredTags (times rows.statuses.rows) := by
  intro tagId featured hget
  rw [← Table.key_of_get hget]
  exact h.statistics featured (Table.mem_of_get hget)

theorem exact_of_tracks (h : Tracks rows.featuredTags (times rows.statuses.rows))
    (hlimit : rows.featuredTags.rows.length ≤ 10) : Exact rows :=
  ⟨fun featured hfeatured => h _ featured (Table.mem_iff_get.mp hfeatured), hlimit, rows.featuredTags.keys_nodup⟩

/-- What a featured hashtag describes before the transaction has counted the status for it. -/
def expected (statuses : Table Status.id) : Work → ℤ → List ℤ
  | .tagging tagging, tagId =>
    if isListed tagging.visibility ∧ tagId ∈ tagging.previousTagIds then
      tagging.statusCreatedAt :: others statuses tagging.statusId tagId
    else others statuses tagging.statusId tagId
  | .counting statusId statusCreatedAt removed added, tagId =>
    if tagId ∈ removed then statusCreatedAt :: times statuses.rows tagId
    else if tagId ∈ added then others statuses statusId tagId
    else times statuses.rows tagId

@[simp] theorem expected_finished : expected statuses .finished = times statuses.rows := by
  funext tagId
  simp [expected, Work.finished]

/-- The hashtags that remain resolve to other tags than those of the status so far. -/
structure Tagging.Ready (u : Unicode) (view : List Tag) (statuses : Table Status.id) (tagging : Tagging) : Prop where
  status : ∃ status, statuses.get tagging.statusId = some status ∧ status.deletedAt = none ∧
    status.visibility = tagging.visibility ∧ status.createdAt = tagging.statusCreatedAt ∧
    ∀ tagId, tagId ∈ status.tagIds ↔ tagId ∈ tagging.currentTagIds
  current : tagging.currentTagIds.Nodup
  previous : tagging.previousTagIds.Nodup
  hashtags : (tagging.hashtags.map u.lower).Nodup
  resolved : ∀ tagId ∈ tagging.currentTagIds, ∃ tag ∈ view, tag.id = tagId ∧
    ∀ hashtag ∈ tagging.hashtags, u.lower tag.name ≠ u.lower hashtag

structure Counting (statuses : Table Status.id) (statusId statusCreatedAt : ℤ) (removed added : List ℤ) : Prop where
  removed_nodup : removed.Nodup
  added_nodup : added.Nodup
  disjoint : ∀ tagId ∈ added, tagId ∉ removed
  counted : ∀ tagId ∈ added,
    (times statuses.rows tagId).Perm (statusCreatedAt :: others statuses statusId tagId)

def Ready (u : Unicode) (view : List Tag) (statuses : Table Status.id) : Work → Prop
  | .tagging tagging => tagging.Ready u view statuses
  | .counting statusId statusCreatedAt removed added => Counting statuses statusId statusCreatedAt removed added

theorem ready_finished {view : List Tag} : Ready u view statuses .finished :=
  ⟨List.nodup_nil, List.nodup_nil, by simp, by simp⟩

structure Active.Sound (u : Unicode) (view : List Tag) (active : Active) : Prop where
  ready : Ready u view active.rows.statuses active.work
  tracks : Tracks active.rows.featuredTags (expected active.rows.statuses active.work)
  limit : active.rows.featuredTags.rows.length ≤ 10

/-- Tags with one id are one. -/
def Identified (tags : List Tag) : Prop := ∀ tag ∈ tags, ∀ tag' ∈ tags, tag.id = tag'.id → tag = tag'

structure Sound (u : Unicode) (s : State) : Prop where
  exact : Exact s.rows
  tags : Identified s.view
  active : ∀ active, s.active = some active → active.Sound u s.view

/-! ### The statements of a transaction -/

section Statements

variable {view : List Tag} {tagging : Tagging} {statusCreatedAt : ℤ} {removed added : List ℤ}

theorem get_decrement {tagId' : ℤ} :
    (decrementFeaturedTag rows tagId).featuredTags.get tagId' =
      (rows.featuredTags.get tagId').map fun featured =>
        if tagId' = tagId then featured.decrement rows.statuses.rows else featured :=
  Table.get_modify (FeaturedTag.decrement_tagId rows.statuses.rows) tagId'

theorem get_increment {tagId' : ℤ} :
    (incrementFeaturedTag rows statusCreatedAt tagId).featuredTags.get tagId' =
      (rows.featuredTags.get tagId').map fun featured =>
        if tagId' = tagId then featured.increment statusCreatedAt else featured :=
  Table.get_modify (FeaturedTag.increment_tagId statusCreatedAt) tagId'

/-- One status less: the count goes down, and the latest of the others is looked up. -/
theorem tracks_decrement (hready : Counting rows.statuses statusId statusCreatedAt (tagId :: removed) added)
    (h : Tracks rows.featuredTags (expected rows.statuses (.counting statusId statusCreatedAt (tagId :: removed) added))) :
    Tracks (decrementFeaturedTag rows tagId).featuredTags
      (expected rows.statuses (.counting statusId statusCreatedAt removed added)) := by
  intro tagId' featured' hget
  rw [get_decrement, Option.map_eq_some_iff] at hget
  obtain ⟨featured, hget, rfl⟩ := hget
  have hfeatured := h tagId' featured hget
  by_cases hsame : tagId' = tagId
  · subst hsame
    have hnotRemoved := (List.nodup_cons.mp hready.removed_nodup).1
    have hnotAdded : tagId' ∉ added := fun hmem => hready.disjoint tagId' hmem List.mem_cons_self
    simp only [expected, List.mem_cons_self, if_true] at hfeatured
    simp only [expected, if_neg hnotRemoved, if_neg hnotAdded, if_true]
    have hless := hfeatured.of_cons
    rw [← Table.key_of_get hget] at hless ⊢
    exact hless
  · simp only [if_neg hsame]
    simpa [expected, hsame] using hfeatured

/-- One status more: it is the latest if it is not before the latest one so far. -/
theorem tracks_increment (hready : Counting rows.statuses statusId statusCreatedAt [] (tagId :: added))
    (h : Tracks rows.featuredTags (expected rows.statuses (.counting statusId statusCreatedAt [] (tagId :: added))))
    (hlatest : ∀ featured, rows.featuredTags.get tagId = some featured →
      ∀ last, featured.lastStatusAt = some last → last ≤ statusCreatedAt) :
    Tracks (incrementFeaturedTag rows statusCreatedAt tagId).featuredTags
      (expected rows.statuses (.counting statusId statusCreatedAt [] added)) := by
  intro tagId' featured' hget
  rw [get_increment, Option.map_eq_some_iff] at hget
  obtain ⟨featured, hget, rfl⟩ := hget
  have hfeatured := h tagId' featured hget
  by_cases hsame : tagId' = tagId
  · subst hsame
    have hnotAdded := (List.nodup_cons.mp hready.added_nodup).1
    simp only [expected, List.not_mem_nil, if_false, List.mem_cons_self, if_true] at hfeatured
    simp only [expected, List.not_mem_nil, if_false, if_neg hnotAdded, if_true]
    have hmore := hfeatured.cons_iff.mpr (hlatest featured hget)
    exact hmore.perm (hready.counted tagId' List.mem_cons_self).symm
  · simp only [if_neg hsame]
    simpa [expected, hsame] using hfeatured

theorem Counting.tail_removed (h : Counting statuses statusId statusCreatedAt (tagId :: removed) added) :
    Counting statuses statusId statusCreatedAt removed added :=
  ⟨h.removed_nodup.of_cons, h.added_nodup, fun tagId htag hremoved => h.disjoint tagId htag (List.mem_cons_of_mem _ hremoved),
    h.counted⟩

theorem Counting.tail_added (h : Counting statuses statusId statusCreatedAt [] (tagId :: added)) :
    Counting statuses statusId statusCreatedAt [] added :=
  ⟨h.removed_nodup, h.added_nodup.of_cons, by simp, fun tagId htag => h.counted tagId (List.mem_cons_of_mem _ htag)⟩

/-! #### Looking hashtags up -/

theorem mem_addTag {tagId' : ℤ} : tagId' ∈ (status.addTag tagId).tagIds ↔ tagId' = tagId ∨ tagId' ∈ status.tagIds := by
  rw [Status.addTag]
  split
  · refine ⟨.inr, ?_⟩
    rintro (rfl | h)
    · assumption
    · exact h
  · exact List.mem_cons

theorem addTag_same : (status.addTag tagId).deletedAt = status.deletedAt ∧
    (status.addTag tagId).visibility = status.visibility ∧ (status.addTag tagId).createdAt = status.createdAt := by
  rw [Status.addTag]
  split <;> exact ⟨rfl, rfl, rfl⟩

theorem get_addTag (h : rows.statuses.get statusId = some status) :
    (rows.addTag statusId tagId).statuses.get statusId = some (status.addTag tagId) := by
  rw [Rows.addTag, Table.get_modify, h, Option.map_some, if_pos rfl]

theorem others_addTag {tagId' : ℤ} :
    others (rows.addTag statusId tagId).statuses statusId tagId' = others rows.statuses statusId tagId' := by
  rw [others, others, Rows.addTag, Table.erase_modify]

theorem findTag_some {tag : Tag} {name : Text} (h : findTag u view name = some tag) :
    tag ∈ view ∧ u.lower tag.name = u.lower name :=
  ⟨List.mem_of_find?_eq_some h, by simpa using List.find?_some h⟩

/-- A hashtag resolves to a tag of its own. -/
theorem Tagging.Ready.resolve {tag : Tag} {view' : List Tag} {hashtag : Text} {hashtags : List Text}
    (h : tagging.Ready u view rows.statuses) (hhashtags : tagging.hashtags = hashtag :: hashtags)
    (hview : ∀ tag ∈ view, tag ∈ view') (htag : tag ∈ view') (hname : u.lower tag.name = u.lower hashtag)
    (hids : Identified view') :
    Tagging.Ready u view' (rows.addTag tagging.statusId tag.id).statuses
      { tagging with hashtags, currentTagIds := tagging.currentTagIds ++ [tag.id] } := by
  obtain ⟨status, hget, hlive, hvisibility, hcreated, htags⟩ := h.status
  have hnodup := h.hashtags
  rw [hhashtags, List.map_cons, List.nodup_cons] at hnodup
  have hnew : tag.id ∉ tagging.currentTagIds := by
    intro hmem
    obtain ⟨other, hother, hid, hnames⟩ := h.resolved tag.id hmem
    obtain rfl := hids other (hview other hother) tag htag hid
    exact hnames hashtag (hhashtags ▸ List.mem_cons_self) hname
  refine ⟨⟨status.addTag tag.id, get_addTag hget, ?_, ?_, ?_, ?_⟩, ?_, h.previous, hnodup.2, ?_⟩
  · rw [addTag_same.1, hlive]
  · rw [addTag_same.2.1, hvisibility]
  · rw [addTag_same.2.2, hcreated]
  · intro tagId
    rw [mem_addTag, htags, List.mem_append, List.mem_singleton, or_comm]
  · exact List.nodup_append.mpr ⟨h.current, List.nodup_singleton _, by
      rintro tagId hmem _ hsingle rfl
      exact hnew (List.mem_singleton.mp hsingle ▸ hmem)⟩
  · intro tagId hmem
    rcases List.mem_append.mp hmem with hmem | hmem
    · obtain ⟨other, hother, hid, hnames⟩ := h.resolved tagId hmem
      exact ⟨other, hview other hother, hid, fun name hname =>
        hnames name (hhashtags ▸ List.mem_cons_of_mem _ hname)⟩
    · refine ⟨tag, htag, (List.mem_singleton.mp hmem).symm, fun name hmem heq => hnodup.1 ?_⟩
      rw [← hname, heq]
      exact List.mem_map_of_mem hmem

/-! #### From the hashtags to the statistics -/

theorem ready_counting (h : tagging.Ready u view statuses) : Ready u view statuses tagging.counting := by
  obtain ⟨status, hget, hlive, hvisibility, hcreated, htags⟩ := h.status
  rw [Tagging.counting]
  split
  · rename_i hlisted
    refine ⟨h.previous.filter _, h.current.filter _, ?_, ?_⟩
    · intro tagId hadded hremoved
      simp only [List.mem_filter, decide_eq_true_eq] at hadded hremoved
      exact hremoved.2 hadded.1
    · intro tagId hadded
      have hmem := (List.mem_filter.mp hadded).1
      have hperm := times_perm tagId hget
      rwa [if_pos (counts_iff.mpr ⟨hlive, hvisibility ▸ hlisted, (htags tagId).mpr hmem⟩), hcreated] at hperm
  · exact ready_finished

theorem Tagging.Ready.expected_perm (h : tagging.Ready u view statuses) (tagId : ℤ) :
    (expected statuses (.tagging tagging) tagId).Perm (expected statuses tagging.counting tagId) := by
  obtain ⟨status, hget, hlive, hvisibility, hcreated, htags⟩ := h.status
  have hperm := times_perm tagId hget
  have hcounts : status.counts tagId = true ↔ isListed tagging.visibility = true ∧ tagId ∈ tagging.currentTagIds := by
    rw [counts_iff, hvisibility, htags]
    exact ⟨fun h => h.2, fun h => ⟨hlive, h⟩⟩
  rw [hcreated] at hperm
  rw [Tagging.counting]
  by_cases hlisted : isListed tagging.visibility = true
  · rw [if_pos hlisted]
    by_cases hprevious : tagId ∈ tagging.previousTagIds <;> by_cases hcurrent : tagId ∈ tagging.currentTagIds
    · rw [if_pos (hcounts.mpr ⟨hlisted, hcurrent⟩)] at hperm
      simpa [expected, hlisted, hprevious, hcurrent] using hperm.symm
    · rw [if_neg fun hcount => hcurrent (hcounts.mp hcount).2] at hperm
      simpa [expected, hlisted, hprevious, hcurrent] using hperm.symm.cons tagging.statusCreatedAt
    · simp [expected, hprevious, hcurrent]
    · rw [if_neg fun hcount => hcurrent (hcounts.mp hcount).2] at hperm
      simpa [expected, hprevious, hcurrent] using hperm.symm
  · rw [if_neg fun hcount => hlisted (hcounts.mp hcount).1] at hperm
    rw [if_neg hlisted, expected_finished]
    simpa [expected, hlisted] using hperm.symm

/-! #### Every statement -/

theorem Identified.mono {tags tags' : List Tag} (h : Identified tags) (hsub : ∀ tag ∈ tags', tag ∈ tags) :
    Identified tags' :=
  fun tag htag tag' htag' => h tag (hsub tag htag) tag' (hsub tag' htag')

theorem Identified.concat {tags : List Tag} {tag : Tag} (h : Identified tags) (hnew : tag.id ∉ tags.map Tag.id) :
    Identified (tags ++ [tag]) := by
  intro a ha b hb hid
  have hnot : ∀ other ∈ tags, other.id ≠ tag.id := fun other hother heq =>
    hnew (heq ▸ List.mem_map_of_mem hother)
  rw [List.mem_append, List.mem_singleton] at ha hb
  rcases ha with ha | rfl <;> rcases hb with hb | rfl
  · exact h a ha b hb hid
  · exact absurd hid (hnot a ha)
  · exact absurd hid.symm (hnot b hb)
  · rfl

theorem Ready.mono {view' : List Tag} {work : Work} (h : Ready u view statuses work)
    (hsub : ∀ tag ∈ view, tag ∈ view') : Ready u view' statuses work := by
  cases work with
  | tagging tagging =>
    refine ⟨h.status, h.current, h.previous, h.hashtags, fun tagId hmem => ?_⟩
    obtain ⟨tag, htag, hresolved⟩ := h.resolved tagId hmem
    exact ⟨tag, hsub tag htag, hresolved⟩
  | counting => exact h

theorem Active.Sound.mono {view' : List Tag} {active : Active} (h : active.Sound u view)
    (hsub : ∀ tag ∈ view, tag ∈ view') : active.Sound u view' :=
  ⟨Ready.mono h.ready hsub, h.tracks, h.limit⟩

@[simp] theorem featuredTags_addTag : (rows.addTag statusId tagId).featuredTags = rows.featuredTags := rfl

theorem expected_resolve {hashtags : List Text} {currentTagIds : List ℤ} :
    expected (rows.addTag tagging.statusId tagId).statuses (.tagging { tagging with hashtags, currentTagIds }) =
      expected rows.statuses (.tagging tagging) := by
  funext tagId'
  simp only [expected, others_addTag]

@[simp] theorem length_decrement :
    (decrementFeaturedTag rows tagId).featuredTags.rows.length = rows.featuredTags.rows.length :=
  List.length_map ..

@[simp] theorem length_increment :
    (incrementFeaturedTag rows statusCreatedAt tagId).featuredTags.rows.length = rows.featuredTags.rows.length :=
  List.length_map ..

/-- A statement keeps what the transaction relies on, if a status that gains a featured hashtag is not
    older than what the hashtag has as its latest. -/
theorem Active.Sound.advance {tags : List Tag} {active active' : Active} {newTagId : ℤ}
    (h : active.Sound u (tags ++ active.tags)) (hids : Identified (tags ++ active.tags))
    (hnew : newTagId ∉ (tags ++ active.tags).map Tag.id)
    (hlatest : ∀ statusId statusCreatedAt tagId added, active.work = .counting statusId statusCreatedAt [] (tagId :: added) →
      ∀ featured, active.rows.featuredTags.get tagId = some featured →
        ∀ last, featured.lastStatusAt = some last → last ≤ statusCreatedAt)
    (hstep : active.advance u (tags ++ active.tags) newTagId = some active') :
    active'.Sound u (tags ++ active'.tags) ∧ Identified (tags ++ active'.tags) := by
  obtain ⟨own, rows, work⟩ := active
  obtain ⟨hready, htracks, hlimit⟩ := h
  cases work with
  | tagging tagging =>
    cases hhashtags : tagging.hashtags with
    | nil =>
      simp only [Active.advance, hhashtags, Option.some.injEq] at hstep
      subst hstep
      exact ⟨⟨ready_counting hready, htracks.perm hready.expected_perm, hlimit⟩, hids⟩
    | cons hashtag hashtags =>
      simp only [Active.advance, hhashtags, Option.some.injEq] at hstep
      subst hstep
      cases hfound : findTag u (tags ++ own) hashtag with
      | some tag =>
        obtain ⟨hmem, hname⟩ := findTag_some hfound
        refine ⟨⟨hready.resolve hhashtags (fun _ => id) hmem hname hids, ?_, hlimit⟩, hids⟩
        simpa only [Option.elim_some, expected_resolve, featuredTags_addTag] using htracks
      | none =>
        have hids' : Identified (tags ++ (own ++ [⟨newTagId, hashtag⟩])) := by
          rw [← List.append_assoc]
          exact hids.concat hnew
        have hmem : (⟨newTagId, hashtag⟩ : Tag) ∈ tags ++ (own ++ [⟨newTagId, hashtag⟩]) := by simp
        have hsub : ∀ tag ∈ tags ++ own, tag ∈ tags ++ (own ++ [⟨newTagId, hashtag⟩]) := by
          intro tag htag
          rw [← List.append_assoc]
          exact List.mem_append_left _ htag
        refine ⟨⟨hready.resolve hhashtags hsub hmem rfl hids', ?_, hlimit⟩, hids'⟩
        simpa only [Option.elim_none, expected_resolve, featuredTags_addTag] using htracks
  | counting statusId statusCreatedAt removed added =>
    cases removed with
    | cons tagId removed =>
      obtain rfl := Option.some.inj hstep
      refine ⟨⟨Counting.tail_removed hready, tracks_decrement hready htracks, ?_⟩, hids⟩
      exact length_decrement.trans_le hlimit
    | nil =>
      cases added with
      | nil => cases hstep
      | cons tagId added =>
        obtain rfl := Option.some.inj hstep
        refine ⟨⟨Counting.tail_added hready, tracks_increment hready htracks ?_, ?_⟩, hids⟩
        · exact hlatest statusId statusCreatedAt tagId added rfl
        · exact length_increment.trans_le hlimit

end Statements

/-! ### The transactions begin -/

section Begin

variable {active : Active}

/-- The hashtags of a text are different ones for the database. -/
def Distinct (u : Unicode) (text : Text) : Prop :=
  ((profileHashtags u.formatter u.toLowercase (trim text)).map u.lower).Nodup

instance (text : Text) : Decidable (Distinct u text) := inferInstanceAs (Decidable (List.Nodup _))

/-- The account has no public or unlisted boost of the status that carries a tag. -/
def PlainBoosts (rows : Rows) (statusId : ℤ) : Prop :=
  ∀ row ∈ rows.statuses.rows, row.reblogOfId = some statusId → row.deletedAt = none →
    isListed row.visibility = true → row.tagIds = []

theorem createStatus_sound {id visibility createdAt : ℤ} {text : Text} (h : Exact rows)
    (hdistinct : Distinct u text) (hcreate : createStatus u rows id text visibility createdAt = some active) :
    (∀ view, active.Sound u view) ∧ active.tags = [] := by
  obtain ⟨statuses, hinsert, hcreate⟩ := Option.bind_eq_some_iff.mp hcreate
  obtain rfl := Option.some.inj hcreate
  have hget := Table.get_insert hinsert id
  rw [if_pos rfl] at hget
  refine ⟨fun view => ⟨⟨⟨_, hget, rfl, rfl, rfl, fun tagId => Iff.rfl⟩, List.nodup_nil, List.nodup_nil, hdistinct,
    by simp⟩, ?_, h.limit⟩, rfl⟩
  · refine h.tracks.perm fun tagId => ?_
    have hothers : others statuses id tagId = times rows.statuses.rows tagId := by
      rw [others, Table.erase_insert hinsert]
    simp [expected, hothers]

theorem reblog_sound {id reblogOfId visibility createdAt : ℤ} (h : Exact rows)
    (hreblog : reblog rows id reblogOfId visibility createdAt = some active) :
    (∀ view, active.Sound u view) ∧ active.tags = [] := by
  obtain ⟨statuses, hinsert, hreblog⟩ := Option.bind_eq_some_iff.mp hreblog
  obtain rfl := Option.some.inj hreblog
  refine ⟨fun view => ⟨ready_finished, ?_, h.limit⟩, rfl⟩
  rw [expected_finished]
  refine h.tracks.perm fun tagId => ?_
  rw [(Table.get_of_insert hinsert).2, times_append]
  simp [times, Status.counts]

/-- The status that a request is about. -/
theorem live_of_filter {found : Option Status}
    (h : found.filter (fun status => status.deletedAt.isNone) = some status) :
    found = some status ∧ status.deletedAt = none := by
  rw [Option.filter_eq_some_iff, Option.isNone_iff_eq_none] at h
  exact h

theorem updateStatus_sound {text : Option Text} (h : Exact rows) (hdistinct : ∀ value, text = some value → Distinct u value)
    (hupdate : updateStatus u rows statusId text = .ok active) : (∀ view, active.Sound u view) ∧ active.tags = [] := by
  rw [updateStatus] at hupdate
  split at hupdate
  · cases hupdate
  · rename_i status hstatus
    obtain ⟨hget, hlive⟩ := live_of_filter hstatus
    dsimp only at hupdate
    split at hupdate
    · obtain rfl := Except.ok.inj hupdate
      refine ⟨fun view => ⟨ready_finished, ?_, h.limit⟩, rfl⟩
      rw [expected_finished]
      exact h.tracks
    · rename_i hchanged
      obtain rfl := Except.ok.inj hupdate
      cases text with
      | none => exact absurd rfl hchanged
      | some text =>
        refine ⟨fun view => ⟨⟨⟨status.retext (trim text), ?_, hlive, rfl, rfl, fun tagId => Iff.rfl⟩, List.nodup_nil,
          status.tagIds_nodup, hdistinct text rfl, by simp⟩, ?_, h.limit⟩, rfl⟩
        · rw [Option.elim_some, Rows.retext, Table.get_modify, hget, Option.map_some, if_pos rfl]
        · refine h.tracks.perm fun tagId => ?_
          have hothers : others (rows.retext statusId (trim text)).statuses statusId tagId =
              others rows.statuses statusId tagId := by
            rw [others, others, Rows.retext, Table.erase_modify]
          have hperm := times_perm tagId hget
          simp only [counts_iff, hlive, true_and] at hperm
          simpa only [Option.elim_some, expected, hothers] using hperm

theorem deleteStatus_sound {deletedAt : ℤ} (h : Exact rows) (hboosts : PlainBoosts rows statusId)
    (hdelete : deleteStatus rows statusId deletedAt = .ok active) : (∀ view, active.Sound u view) ∧ active.tags = [] := by
  rw [deleteStatus] at hdelete
  split at hdelete
  · cases hdelete
  · rename_i status hstatus
    obtain ⟨hget, hlive⟩ := live_of_filter hstatus
    obtain rfl := Table.key_of_get hget
    obtain rfl := Except.ok.inj hdelete
    have hnodup : (if isListed status.visibility then status.tagIds else []).Nodup := by
      split
      · exact status.tagIds_nodup
      · exact List.nodup_nil
    refine ⟨fun view => ⟨⟨hnodup, List.nodup_nil, by simp, by simp⟩, ?_, h.limit⟩, rfl⟩
    refine h.tracks.perm fun tagId => ?_
    have hdiscard : times (rows.discard status deletedAt).statuses.rows tagId = others rows.statuses status.id tagId := by
      have hrows : (rows.discard status deletedAt).statuses.rows =
          rows.statuses.rows.map fun row => status.discard deletedAt row :=
        congrFun List.filterMap_eq_map rows.statuses.rows
      rw [hrows, times_discard deletedAt hboosts]
      rfl
    have hperm := times_perm tagId hget
    simp only [counts_iff, hlive, true_and] at hperm
    by_cases hlisted : isListed status.visibility = true
    · simpa [expected, hdiscard, hlisted] using hperm
    · simpa [expected, hdiscard, hlisted] using hperm

theorem exact_erase (h : Exact rows) (tagId : ℤ) : Exact { rows with featuredTags := rows.featuredTags.erase tagId } := by
  refine ⟨fun featured hfeatured => h.statistics featured (Table.mem_erase.mp hfeatured).1, ?_, Table.keys_nodup _⟩
  exact List.length_filter_le _ _ |>.trans h.limit

/-- A hashtag is featured with what its statuses are then. -/
theorem exact_insert {featured : FeaturedTag} (h : Exact rows) (hlimit : rows.featuredTags.rows.length < 10)
    (hinsert : rows.featuredTags.insert featured = some featuredTags)
    (hdescribes : Describes featured.statusesCount featured.lastStatusAt (times rows.statuses.rows featured.tagId)) :
    Exact { rows with featuredTags } := by
  have hrows := (Table.get_of_insert hinsert).2
  refine ⟨?_, ?_, Table.keys_nodup _⟩
  · simp only [hrows, List.mem_append, List.mem_singleton]
    rintro other (hother | rfl)
    · exact h.statistics other hother
    · exact hdescribes
  · simp only [hrows, List.length_append, List.length_singleton]
    omega

theorem sound_finished {tags view : List Tag} (h : Exact rows) : Active.Sound u view ⟨tags, rows, .finished⟩ := by
  refine ⟨ready_finished, ?_, h.limit⟩
  rw [expected_finished]
  exact h.tracks

theorem removeFeaturedTag_exact {id : ℤ} (h : Exact rows) (hremove : removeFeaturedTag rows id = .ok rows') :
    Exact rows' := by
  rw [removeFeaturedTag] at hremove
  split at hremove
  · cases hremove
  · obtain rfl := Except.ok.inj hremove
    exact exact_erase h _

theorem setFeatured_exact {name : Text} {enabled collectionName : Bool} {newFeaturedId : ℤ} (h : Exact rows)
    (hset : setFeatured rows tagId name enabled collectionName newFeaturedId = .ok rows') : Exact rows' := by
  rw [setFeatured] at hset
  split at hset
  · split at hset
    · split at hset
      · cases hset
      · obtain rfl := Except.ok.inj hset
        exact h
    · split at hset
      · cases hset
      · dsimp only at hset
        split at hset
        · cases hset
        · rename_i hlimit _ featuredTags hinsert
          obtain rfl := Except.ok.inj hset
          exact exact_insert h (not_le.mp hlimit) hinsert ⟨rfl, rfl⟩
  · obtain rfl := Except.ok.inj hset
    exact exact_erase h tagId

/-- What the request about a hashtag inserts, and its rows. -/
theorem setTagRelationship_exact {tags inserted : List Tag} {name : Text} {featured enabled collectionName : Bool}
    {newTagId newFeaturedId : ℤ} (h : Exact rows)
    (hset : setTagRelationship u tags rows name featured enabled collectionName newTagId newFeaturedId =
      .ok (inserted, rows')) :
    Exact rows' ∧ (inserted = [] ∨ ∃ tag, inserted = [tag] ∧ tag.id = newTagId) := by
  rw [setTagRelationship] at hset
  dsimp only at hset
  generalize (if collectionName then featuredName name else name) = wanted at hset
  split at hset
  · cases hset
  split at hset
  · cases hset
  have hinserted : ∀ (p : Bool) (tag : Tag), tag.id = newTagId →
      (if p then [tag] else []) = [] ∨ ∃ other, (if p then [tag] else []) = [other] ∧ other.id = newTagId := by
    intro p tag hid
    cases p
    · exact .inl rfl
    · exact .inr ⟨tag, rfl, hid⟩
  split at hset
  · split at hset
    · obtain ⟨rows', hfeatured, heq⟩ := Schemes.Checked.map_eq_ok hset
      obtain ⟨rfl, rfl⟩ := Prod.mk.inj heq
      exact ⟨setFeatured_exact h hfeatured, hinserted _ _ rfl⟩
    · obtain ⟨rfl, rfl⟩ := Prod.mk.inj (Except.ok.inj hset)
      exact ⟨h, hinserted _ _ rfl⟩
  · obtain ⟨rfl, rfl⟩ := Prod.mk.inj (Except.ok.inj hset)
    exact ⟨h, hinserted _ _ rfl⟩

end Begin

/-! ### Steps and runs -/

/-- What a step has to meet: the hashtags of a text are different ones, no boost that carries a tag goes
    with a status, and a status that gains a featured hashtag is not older than the latest that has it. -/
def Meets (u : Unicode) (s : State) : Action → Prop
  | .createStatus _ text _ _ => Distinct u text
  | .updateStatus _ text => ∀ value, text = some value → Distinct u value
  | .deleteStatus statusId _ => PlainBoosts s.rows statusId
  | .advance _ => ∀ active statusId statusCreatedAt tagId added, s.active = some active →
    active.work = .counting statusId statusCreatedAt [] (tagId :: added) →
      ∀ featured, active.rows.featuredTags.get tagId = some featured →
        ∀ last, featured.lastStatusAt = some last → last ≤ statusCreatedAt
  | _ => True

/-- A transaction begins alone. -/
theorem begin_cases {result : Except WriteError Active} (h : s.begin result = some s') :
    s.active = none ∧ ((∃ active, result = .ok active ∧ s' = { s with active := some active }) ∨ s' = s) := by
  unfold State.begin at h
  split at h
  · cases h
  · rename_i hnone
    refine ⟨hnone, ?_⟩
    split at h
    · exact .inl ⟨_, rfl, (Option.some.inj h).symm⟩
    · exact .inr (Option.some.inj h).symm

theorem Sound.begin {result : Except WriteError Active} (h : Sound u s) (hbegin : s.begin result = some s')
    (hactive : ∀ active, result = .ok active →
      (∀ view, active.Sound u view) ∧ (active.tags = [] ∨ ∃ tag, active.tags = [tag] ∧ tag.id ∉ s.view.map Tag.id)) :
    Sound u s' := by
  obtain ⟨hnone, ⟨active, hok, rfl⟩ | rfl⟩ := begin_cases hbegin
  · obtain ⟨hsound, htags⟩ := hactive active hok
    have hview : s.view = s.tags := by simp [State.view, hnone]
    have hids := h.tags
    rw [hview] at hids htags
    refine ⟨h.exact, ?_, ?_⟩
    · rcases htags with htags | ⟨tag, htags, hnew⟩
      · simpa [State.view, htags] using hids
      · simpa [State.view, htags] using hids.concat hnew
    · rintro _ hactive
      obtain rfl := Option.some.inj hactive
      exact hsound _
  · exact h

theorem Sound.otherTag {tag : Tag} (h : Sound u s) (hnew : tag.id ∉ s.view.map Tag.id) :
    Sound u { s with tags := s.tags ++ [tag] } := by
  have hview (tag' : Tag) : tag' ∈ State.view { s with tags := s.tags ++ [tag] } ↔ tag' ∈ s.view ++ [tag] := by
    simp only [State.view, List.mem_append]
    tauto
  refine ⟨h.exact, (h.tags.concat hnew).mono fun tag' htag => (hview tag').mp htag, fun active hactive => ?_⟩
  exact (h.active active hactive).mono fun tag' htag => (hview tag').mpr (List.mem_append_left _ htag)

theorem Sound.advance {newTagId : ℤ} (h : Sound u s) (hmeets : Meets u s (.advance newTagId))
    (hstep : s.step u (.advance newTagId) = some s') : Sound u s' := by
  rw [State.step] at hstep
  split at hstep
  · cases hstep
  · rename_i hnew
    split at hstep
    · cases hstep
    · rename_i active hactive
      obtain ⟨active', hadvance, rfl⟩ := Option.map_eq_some_iff.mp hstep
      have hview : s.view = s.tags ++ active.tags := by simp [State.view, hactive]
      have hsound := h.active active hactive
      have hids := h.tags
      rw [hview] at hadvance hnew hsound hids
      obtain ⟨hsound', hids'⟩ := hsound.advance hids hnew
        (fun statusId statusCreatedAt tagId added => hmeets active statusId statusCreatedAt tagId added hactive) hadvance
      refine ⟨h.exact, hids', ?_⟩
      rintro _ hactive
      obtain rfl := Option.some.inj hactive
      exact hsound'

theorem Sound.commit (h : Sound u s) (hstep : s.step u .commit = some s') : Sound u s' := by
  rw [State.step] at hstep
  split at hstep
  · rename_i tags rows statusId statusCreatedAt hactive
    obtain rfl := Option.some.inj hstep
    have hsound := h.active _ hactive
    refine ⟨exact_of_tracks (hsound.tracks.perm fun tagId => ?_) hsound.limit, ?_, by simp⟩
    · simp [expected]
    · simpa [State.view, hactive] using h.tags
  · cases hstep

/-- A step that meets the condition keeps the statistics exact. -/
theorem Sound.step {a : Action} (h : Sound u s) (hmeets : Meets u s a) (hstep : s.step u a = some s') : Sound u s' := by
  cases a with
  | otherTag tag =>
    rw [State.step] at hstep
    split at hstep
    · rename_i hnew
      obtain rfl := Option.some.inj hstep
      rw [Bool.and_eq_true, decide_eq_true_eq] at hnew
      exact h.otherTag hnew.2
    · cases hstep
  | createStatus id text visibility createdAt =>
    obtain ⟨active, hcreate, hbegin⟩ := Option.bind_eq_some_iff.mp hstep
    refine h.begin hbegin fun active' hok => ?_
    obtain rfl := Except.ok.inj hok
    exact (createStatus_sound h.exact hmeets hcreate).imp_right .inl
  | reblog id reblogOfId visibility createdAt =>
    obtain ⟨active, hreblog, hbegin⟩ := Option.bind_eq_some_iff.mp hstep
    refine h.begin hbegin fun active' hok => ?_
    obtain rfl := Except.ok.inj hok
    exact (reblog_sound h.exact hreblog).imp_right .inl
  | updateStatus statusId text =>
    exact h.begin hstep fun active hok => (updateStatus_sound h.exact hmeets hok).imp_right .inl
  | deleteStatus statusId deletedAt =>
    exact h.begin hstep fun active hok => (deleteStatus_sound h.exact hmeets hok).imp_right .inl
  | setTagRelationship name featured enabled collectionName newTagId newFeaturedId =>
    rw [State.step] at hstep
    split at hstep
    · cases hstep
    · rename_i hnew
      refine h.begin hstep fun active hok => ?_
      obtain ⟨⟨inserted, rows⟩, hset, rfl⟩ := Schemes.Checked.map_eq_ok hok
      obtain ⟨hexact, hinserted⟩ := setTagRelationship_exact h.exact hset
      refine ⟨fun view => sound_finished hexact, hinserted.imp id ?_⟩
      rintro ⟨tag, htag, rfl⟩
      exact ⟨tag, htag, hnew⟩
  | removeFeaturedTag id =>
    refine h.begin hstep fun active hok => ?_
    obtain ⟨rows, hremove, rfl⟩ := Schemes.Checked.map_eq_ok hok
    exact ⟨fun view => sound_finished (removeFeaturedTag_exact h.exact hremove), .inl rfl⟩
  | advance newTagId => exact h.advance hmeets hstep
  | commit => exact h.commit hstep
  | abort =>
    rw [State.step] at hstep
    split at hstep
    · obtain rfl := Option.some.inj hstep
      exact ⟨h.exact, h.tags.mono fun tag htag => List.mem_append_left _ (by simpa [State.view] using htag), by simp⟩
    · cases hstep

/-- A state between transactions whose statistics are exact. -/
structure Idle (s : State) : Prop where
  active : s.active = none
  exact : Exact s.rows
  tags : Identified s.tags

theorem sound_of_idle (h : Idle s) : Sound u s := by
  refine ⟨h.exact, ?_, ?_⟩
  · simpa [State.view, h.active] using h.tags
  · simp [h.active]

def MeetingStep (u : Unicode) (s : State) (a : Action) (s' : State) : Prop :=
  s.step u a = some s' ∧ Meets u s a

/-- CORRECT (statistics): in every run whose steps meet the condition, what is committed of the featured
    hashtags is exact. -/
theorem featured_tags_exact {actions : List Action} (hidle : Idle s) (h : Run (MeetingStep u) s actions s') :
    Exact s'.rows := by
  have hsound : Sound u s' :=
    h.preserves (P := Sound u) (fun _ _ _ hinit hstep => hinit.step hstep.2 hstep.1) (sound_of_idle hidle)
  exact hsound.exact

/-! ### Two runs -/

def exampleUnicode : Unicode where
  formatter := {
    join := fun _ => none
    localDomain := "here.example".toList
    links := fun _ => []
    domainToUnicode := fun domain => domain
    isAlphanumeric := Char.isAlphanum
    isAlphabetic := Char.isAlpha }
  toLowercase := Schemes.Utf8.toAsciiLowercase
  lowercaseChar := fun c => [c.toLower]
  nfkc := fun text => text
  isWord := fun c => c.isAlphanum || c == '_'
  lower := Schemes.Utf8.toAsciiLowercase

def emptyState : State := ⟨[], ⟨⟨[], List.nodup_nil⟩, ⟨[], List.nodup_nil⟩⟩, none⟩

theorem emptyState_idle : Idle emptyState where
  active := rfl
  exact := ⟨by simp [emptyState], by simp [emptyState], List.nodup_nil⟩
  tags := by simp [Identified, emptyState]

set_option maxRecDepth 4000 in
theorem withoutAccent_tea : "tea".toList.map withoutAccent = "tea".toList := by
  -- The table is a literal; to evaluate it character by character takes the kernel long.
  obtain ⟨table, htable, hplain⟩ : ∃ table, nonAscii = table ∧ ∀ c ∈ "tea".toList, c ∉ table :=
    ⟨_, (String.toList_ofList : (String.ofList _).toList = _), by decide⟩
  refine (List.map_congr_left fun c hc => ?_).trans (List.map_id _)
  rw [withoutAccent, htable, List.idxOf?_eq_none_iff.mpr (hplain c hc)]
  rfl

def teaFeatured : State :=
  ⟨[], emptyState.rows, some ⟨[⟨1, "tea".toList⟩],
    ⟨⟨[], List.nodup_nil⟩, ⟨[⟨1, 1, some "tea".toList, 0, none⟩], List.nodup_singleton _⟩⟩, .finished⟩⟩

theorem setTagRelationship_tea : State.step exampleUnicode emptyState
    (.setTagRelationship "#tea".toList true true true 1 1) = some teaFeatured := by
  have hname : featuredName "#tea".toList = "tea".toList := by decide
  have hnormal : normalizeHashtag exampleUnicode "tea".toList = "tea".toList := by
    rw [normalizeHashtag, show (exampleUnicode.nfkc "tea".toList).flatMap exampleUnicode.lowercaseChar =
      "tea".toList from rfl, withoutAccent_tea]
    decide
  simp only [State.step, setTagRelationship, if_true, hname, hnormal]
  rfl

/-- The hashtag is featured and a status gets it; then an older status that has been written before gets it. -/
def backdated : List Action :=
  [.setTagRelationship "#tea".toList true true true 1 1, .commit,
    .createStatus 1 "good morning".toList 0 100, .advance 2, .commit,
    .createStatus 2 "#tea".toList 0 200, .advance 2, .advance 2, .advance 2, .commit,
    .updateStatus 1 (some "good morning #Tea".toList), .advance 2, .advance 2, .advance 2, .commit]

theorem backdated_ends :
    let ended := backdated.foldlM (State.step exampleUnicode) emptyState
    ended.isSome = true ∧ (ended.getD emptyState).active = none ∧
      (ended.getD emptyState).rows.featuredTags.rows = [⟨1, 1, some "tea".toList, 2, some 100⟩] ∧
      times (ended.getD emptyState).rows.statuses.rows 1 = [100, 200] := by
  rw [backdated, List.foldlM_cons, setTagRelationship_tea]
  decide

/-- The hashtag says that its latest status is the older one. -/
theorem featured_tags_backdated : ¬∀ (u : Unicode) (s s' : State) (actions : List Action), Idle s →
    Run (fun s a s' => s.step u a = some s') s actions s' → s'.active = none → Exact s'.rows := by
  intro h
  obtain ⟨hsome, hactive, hrows, htimes⟩ := backdated_ends
  have hexact := h exampleUnicode _ _ _ emptyState_idle (Schemes.Runs.foldlM_getD_run hsome) hactive
  have hstatistics := hexact.statistics ⟨1, 1, some "tea".toList, 2, some 100⟩
    (by rw [hrows]; exact List.mem_singleton_self _)
  rw [htimes] at hstatistics
  exact absurd hstatistics.latest (by decide)

/-- Whether a step meets the condition. -/
def State.meets (u : Unicode) (s : State) : Action → Bool
  | .createStatus _ text _ _ => decide (Distinct u text)
  | .updateStatus _ text => text.all fun text => decide (Distinct u text)
  | .deleteStatus statusId _ => s.rows.statuses.rows.all fun row =>
    row.reblogOfId != some statusId || row.deletedAt.isSome || !isListed row.visibility || row.tagIds.isEmpty
  | .advance _ => s.active.all fun active =>
    match active.work with
    | .counting _ statusCreatedAt [] (tagId :: _) => (active.rows.featuredTags.get tagId).all fun featured =>
      featured.lastStatusAt.all fun last => decide (last ≤ statusCreatedAt)
    | _ => true
  | _ => true

theorem meets_of_meets {a : Action} (h : s.meets u a = true) : Meets u s a := by
  cases a with
  | createStatus id text => exact of_decide_eq_true (p := Distinct u text) h
  | updateStatus statusId text =>
    rintro value rfl
    exact of_decide_eq_true (p := Distinct u value) h
  | deleteStatus statusId deletedAt =>
    intro row hrow hboost hlive hlisted
    have hplain := List.all_eq_true.mp h row hrow
    simpa [hboost, hlive, hlisted] using hplain
  | advance newTagId =>
    intro active statusId statusCreatedAt tagId added hactive hwork featured hget last hlast
    simpa [State.meets, hactive, hwork, hget, hlast] using h
  | _ => trivial

def State.meetingStep (u : Unicode) (s : State) (a : Action) : Option State :=
  if s.meets u a then s.step u a else none

theorem meetingStep_of_eq {a : Action} (h : s.meetingStep u a = some s') : MeetingStep u s a s' := by
  rw [State.meetingStep] at h
  split at h
  · exact ⟨h, meets_of_meets ‹_›⟩
  · cases h

/-- Two statuses have the hashtag; the later one loses it, then the other one is deleted. -/
def emptied : List Action :=
  [.setTagRelationship "#tea".toList true true true 1 1, .commit,
    .createStatus 1 "#tea".toList 0 100, .advance 2, .advance 2, .advance 2, .commit,
    .createStatus 2 "#tea".toList 1 200, .advance 2, .otherTag ⟨2, "cake".toList⟩, .advance 3, .advance 3, .commit,
    .updateStatus 2 (some "coffee #cake".toList), .advance 3, .advance 3, .advance 3, .advance 3, .commit,
    .deleteStatus 1 300, .advance 3, .commit]

theorem emptied_ends :
    let ended := emptied.foldlM (State.meetingStep exampleUnicode) emptyState
    ended.isSome = true ∧
      (ended.getD emptyState).rows.featuredTags.rows = [⟨1, 1, some "tea".toList, 0, none⟩] := by
  rw [emptied, List.foldlM_cons, State.meetingStep, if_pos (by rfl), setTagRelationship_tea]
  decide

theorem featured_tags_exact_emptied :
    Exact ((emptied.foldlM (State.meetingStep exampleUnicode) emptyState).getD emptyState).rows ∧
      ((emptied.foldlM (State.meetingStep exampleUnicode) emptyState).getD emptyState).rows.featuredTags.rows =
        [⟨1, 1, some "tea".toList, 0, none⟩] := by
  have hrun : Run (MeetingStep exampleUnicode) emptyState emptied _ :=
    (Schemes.Runs.foldlM_getD_run emptied_ends.1).mono fun _ _ _ => meetingStep_of_eq
  exact ⟨featured_tags_exact emptyState_idle hrun, emptied_ends.2⟩

end Rustodon.FeaturedTags
