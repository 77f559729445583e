import Mathlib.Order.WithBot
import Rustodon.Ingest.Accounts
import Rustodon.Schemes.Reclaim
import Rustodon.Worker.ProfileMedia

/-! @src worker/profile_media.rs, mastodon/profile_media.rs | name:Profile image cache |
    scheme:reclamation | family:worker

    The row of an account names its image, and every other file of the slot is named by a cleanup job.
    The version of the slot grows with every change of the URL, so that what has been fetched for an
    earlier one is never installed. -/

namespace Rustodon.Worker
open Media Schemes.Reclaim Schemes.Runs Schemes.Utf8

/-! ### Versions -/

theorem roundSeconds_mono {a b : ℤ} (h : a ≤ b) : roundSeconds a ≤ roundSeconds b := by
  unfold roundSeconds
  split_ifs <;> omega

/-- A second later is a later version. -/
theorem roundSeconds_lt (a : ℤ) : roundSeconds a < roundSeconds (a + 1000000) := by
  unfold roundSeconds
  split_ifs <;> omega

theorem lt_nextUpdatedAt (updated now : ℤ) :
    roundSeconds updated < roundSeconds (nextUpdatedAt (some updated) now) :=
  lt_of_lt_of_le (roundSeconds_lt updated) (roundSeconds_mono (le_max_right _ _))

/-- Versions in their order. No version comes before all others. -/
def ProfileImageState.bound (state : ProfileImageState) : WithBot ℤ := state.version

variable {id : Int64} {slot : ProfileImageSlot}

theorem bound_lt_bumped (state : ProfileImageState) (url : Option Text) (clear : Bool) (now : ℤ) :
    state.bound < (bumped slot state url clear now).bound := by
  cases hupdated : state.updatedAt with
  | none =>
    have hbound : state.bound = ⊥ := by rw [ProfileImageState.bound, ProfileImageState.version, hupdated]; rfl
    rw [hbound]
    exact WithBot.bot_lt_coe _
  | some updated =>
    have hbound : state.bound = (roundSeconds updated : WithBot ℤ) := by
      rw [ProfileImageState.bound, ProfileImageState.version, hupdated]
      rfl
    have hnext : (bumped slot state url clear now).bound =
        (roundSeconds (nextUpdatedAt (some updated) now) : WithBot ℤ) := by
      rw [← hupdated]
      rfl
    rw [hbound, hnext]
    exact WithBot.coe_lt_coe.mpr (lt_nextUpdatedAt updated now)

/-! ### Persisting -/

/-- The URL that a row has, if any. -/
def urlOf (row : ProfileImageState) : Option Text := nonempty row.remoteUrl

/-- What persisting does: nothing, or it puts the image of the row down for its URL, or it raises the
    version and keeps the image, or it clears the image with a job for its files. -/
structure PersistSpec (id : Int64) (slot : ProfileImageSlot) (state : ProfileImageState)
    (persisted : Persisted) : Prop where
  row : (persisted.row = state) ∨
    (state.bound < persisted.row.bound ∧ (rowPaths id slot persisted.row = rowPaths id slot state ∧
      urlOf persisted.row = urlOf state ∨ ∀ p ∈ rowPaths id slot state, ∃ job ∈ persisted.cleanups, p ∈ job))
  image : persisted.row.fileName ≠ state.fileName → state.bound < persisted.row.bound
  fetches : ∀ job ∈ persisted.fetches, (job.version : WithBot ℤ) = persisted.row.bound

theorem nonempty_idem (url : Option Text) : nonempty (nonempty url) = nonempty url := by
  cases url with
  | none => rfl
  | some url => cases url <;> rfl

theorem urlOf_bumped (state : ProfileImageState) (url : Option Text) (clear : Bool) (now : ℤ) :
    urlOf (bumped slot state (nonempty url) clear now) = nonempty url := by
  change nonempty (storedUrl slot (nonempty url)) = nonempty url
  rw [storedUrl]
  split_ifs
  · cases hurl : nonempty url with
    | none => rfl
    | some text => exact (congrArg nonempty hurl).symm.trans ((nonempty_idem url).trans hurl)
  · exact nonempty_idem url

theorem persistUrl_spec (state : ProfileImageState) (domain : Text) (url : Option Text) (now : ℤ)
    (clear : Bool) (hclear : clear = false → nonempty url = urlOf state) :
    PersistSpec id slot state (persistUrl slot id state domain (nonempty url) clear now) := by
  have hfetches : ∀ job ∈ (persistUrl slot id state domain (nonempty url) clear now).fetches,
      (job.version : WithBot ℤ) =
        (persistUrl slot id state domain (nonempty url) clear now).row.bound := by
    intro job hjob
    unfold persistUrl at hjob ⊢
    dsimp only at hjob ⊢
    split at hjob
    · rename_i text version _ hversion
      split_ifs at hjob
      · rw [List.mem_singleton.mp hjob]
        exact hversion.symm
      · cases hjob
    · cases hjob
  have hrow : (persistUrl slot id state domain (nonempty url) clear now).row = state ∨
      (persistUrl slot id state domain (nonempty url) clear now).row =
        bumped slot state (nonempty url) clear now := by
    change (if _ then _ else _) = _ ∨ (if _ then _ else _) = _
    split
    · exact .inl rfl
    · exact .inr rfl
  rcases hrow with hrow | hrow
  · exact ⟨.inl hrow, fun hne => absurd (congrArg ProfileImageState.fileName hrow) hne, hfetches⟩
  have hbound := @bound_lt_bumped slot state (nonempty url) clear now
  refine ⟨.inr ⟨by rwa [hrow], ?_⟩, fun _ => by rwa [hrow], hfetches⟩
  cases clear with
  | false =>
    rw [hrow]
    exact .inl ⟨rfl, (urlOf_bumped state url false now).trans (hclear rfl)⟩
  | true =>
    refine .inr fun p hp => ⟨rowPaths id slot state, ?_, hp⟩
    have hne : (rowPaths id slot state).isEmpty = false :=
      List.isEmpty_eq_false_iff.mpr (List.ne_nil_of_mem hp)
    change _ ∈ if (true && !(rowPaths id slot state).isEmpty) = true then _ else _
    rw [hne]
    exact List.mem_singleton_self _

theorem persistSpec_self (state : ProfileImageState) : PersistSpec id slot state ⟨state, [], []⟩ :=
  ⟨.inl rfl, fun hne => absurd rfl hne, by simp⟩

theorem persistImage_spec (state : ProfileImageState) (field : Option (Option Text))
    (checkCache : Bool) (now : ℤ) :
    PersistSpec id slot state (persistImage slot id state field checkCache now) := by
  unfold persistImage
  cases state.domain with
  | none => exact persistSpec_self state
  | some domain =>
    dsimp only
    split_ifs
    · exact persistSpec_self state
    · exact persistSpec_self state
    · refine persistUrl_spec state domain _ now _ fun hclear => ?_
      rw [Bool.or_eq_false_iff, bne_eq_false_iff_eq] at hclear
      exact hclear.1

/-! ### The invariant -/

/-- A job names all paths that the row has before and after an install. -/
def Promised (id : Int64) (slot : ProfileImageSlot) (s : ImageCache) (prepared : PreparedAccountMedia) :
    Prop :=
  ∃ job ∈ s.cleanups, ∀ p,
    p ∈ imagePaths (installMetadata id slot prepared) ∨ p ∈ rowPaths id slot s.row → p ∈ job

/-- What holds of an install at each of its stages. -/
def StageInv (id : Int64) (slot : ProfileImageSlot) (s : ImageCache) (prepared : PreparedAccountMedia) :
    Stage → Prop
  | .checked => True
  | .writing remaining => Promised id slot s prepared ∧
      ∀ p, some p ∈ remaining → p ∈ imagePaths (installMetadata id slot prepared)
  | .updated => Promised id slot s prepared

/-- What holds while the row is locked: it has not changed since it was read. -/
def HolderInv (id : Int64) (slot : ProfileImageSlot) (s : ImageCache) : Holder → Prop
  | .install job prepared stage => s.row.matches job = true ∧ StageInv id slot s prepared stage
  | .cleanup job remaining => (∀ p ∈ remaining, p ∉ rowPaths id slot s.row) ∧
      ∀ p ∈ job, p ∈ s.files → p ∈ rowPaths id slot s.row ∨ p ∈ remaining

structure CacheInv (id : Int64) (slot : ProfileImageSlot) (s : ImageCache) : Prop where
  covered : Covered (· ∈ rowPaths id slot s.row) (fun p => p ∈ s.files ∧ p ∈ s.written) s.cleanups
  holder : ∀ holder, s.holder = some holder → HolderInv id slot s holder
  fetches : ∀ job ∈ s.fetches, (job.version : WithBot ℤ) ≤ s.row.bound

variable {s t : ImageCache}

theorem ImageCache.Initial.inv (h : s.Initial) : CacheInv id slot s where
  covered := by
    intro p hp
    rw [h.written] at hp
    exact absurd hp.2 List.not_mem_nil
  holder := by
    rw [h.holder]
    exact nofun
  fetches := by
    rw [h.fetches]
    exact nofun

theorem matches_bound {row : ProfileImageState} {job : ProfileImageJob} (h : row.matches job = true) :
    row.bound = job.version := by
  simp only [ProfileImageState.matches, Bool.and_eq_true, beq_iff_eq] at h
  exact h.2

theorem mem_imagePaths {metadata : PaperclipMetadata} {p : Text} : p ∈ imagePaths metadata ↔
    metadata.relativePath original = some p ∨ metadata.relativePath static = some p := by
  simp [imagePaths]

/-- Only paths of the image are written. -/
theorem mem_installPaths {metadata : PaperclipMetadata} {prepared : PreparedAccountMedia} {p : Text}
    (h : some p ∈ installPaths metadata prepared) : p ∈ imagePaths metadata := by
  rw [mem_imagePaths]
  rw [installPaths] at h
  rcases List.mem_cons.mp h with horiginal | hstatic
  · exact .inl horiginal.symm
  · split_ifs at hstatic
    · exact .inr (List.mem_singleton.mp hstatic).symm
    · cases hstatic

theorem StageInv.mono {prepared : PreparedAccountMedia} {stage : Stage} (hrow : t.row = s.row)
    (hcleanups : ∀ job ∈ s.cleanups, job ∈ t.cleanups) (h : StageInv id slot s prepared stage) :
    StageInv id slot t prepared stage := by
  have hpromised (h : Promised id slot s prepared) : Promised id slot t prepared := by
    obtain ⟨job, hjob, hpaths⟩ := h
    refine ⟨job, hcleanups job hjob, ?_⟩
    rwa [hrow]
  cases stage with
  | checked => trivial
  | writing remaining => exact ⟨hpromised h.1, h.2⟩
  | updated => exact hpromised h

/-! ### Steps -/

theorem mem_filter_ne {files : List Text} {path p : Text} (h : p ∈ files.filter (· ≠ path)) :
    p ∈ files ∧ p ≠ path := by
  simpa using h

theorem nextInstall_inv {job : ProfileImageJob} {prepared : PreparedAccountMedia} {stage : Stage}
    {op : CacheOp} (hinv : CacheInv id slot s) (hholder : s.holder = some (.install job prepared stage))
    (h : nextInstall id slot s job prepared stage op = some t) : CacheInv id slot t := by
  obtain ⟨hmatches, hstage⟩ := hinv.holder _ hholder
  unfold nextInstall at h
  split at h
  · -- the job is enqueued on another connection, so that it stays whatever becomes of the install
    obtain rfl := Option.some.inj h
    refine ⟨hinv.covered.jobs_mono fun _ => List.mem_cons_of_mem _, ?_, hinv.fetches⟩
    rintro holder ⟨⟩
    refine ⟨hmatches, ⟨_, List.mem_cons_self, fun p => List.mem_append.mpr⟩, fun p => mem_installPaths⟩
  · rename_i path remaining
    obtain rfl := Option.some.inj h
    obtain ⟨⟨cleanup, hcleanup, hpaths⟩, hremaining⟩ := hstage
    refine ⟨hinv.covered.create hcleanup fun p hp => ?_, ?_, hinv.fetches⟩
    · by_cases heq : p = path
      · subst heq
        exact .inr (hpaths p (.inl (hremaining p List.mem_cons_self)))
      · exact .inl ⟨List.mem_of_ne_of_mem heq hp.1, List.mem_of_ne_of_mem heq hp.2⟩
    · rintro holder hnew
      obtain rfl := Option.some.inj (hholder.symm.trans hnew)
      exact ⟨hmatches, ⟨cleanup, hcleanup, hpaths⟩, hremaining⟩
  · obtain rfl := Option.some.inj h
    refine ⟨hinv.covered.files_mono fun p hp => ⟨(mem_filter_ne hp.1).1, hp.2⟩, ?_, hinv.fetches⟩
    rintro holder hnew
    obtain rfl := Option.some.inj (hholder.symm.trans hnew)
    exact ⟨hmatches, hstage⟩
  · split_ifs at h
    obtain rfl := Option.some.inj h
    refine ⟨hinv.covered, ?_, hinv.fetches⟩
    rintro holder ⟨⟩
    exact ⟨hmatches, hstage.1, fun p hp => hstage.2 p (List.mem_cons_of_mem _ hp)⟩
  · obtain rfl := Option.some.inj h
    refine ⟨hinv.covered, ?_, hinv.fetches⟩
    rintro holder ⟨⟩
    exact ⟨hmatches, hstage.1⟩
  · obtain rfl := Option.some.inj h
    obtain ⟨cleanup, hcleanup, hpaths⟩ := hstage
    exact ⟨hinv.covered.replace fun p hp => .inr ⟨cleanup, hcleanup, hpaths p (.inr hp)⟩, nofun,
      hinv.fetches⟩
  · cases h

/-- A cleanup step removes the first of the paths, or is the last one. -/
theorem nextCleanup_cases {job remaining : List Text} {op : CacheOp}
    (h : nextCleanup s job remaining op = some t) :
    (∃ path rest, remaining = path :: rest ∧ t = { s with
      files := s.files.filter (· ≠ path), holder := some (.cleanup job rest) }) ∨
    remaining = [] ∧ t = { s with holder := none, cleanups := s.cleanups.erase job } := by
  unfold nextCleanup at h
  split at h
  · exact .inl ⟨_, _, rfl, (Option.some.inj h).symm⟩
  · exact .inr ⟨rfl, (Option.some.inj h).symm⟩
  · cases h

theorem nextCleanup_inv {job remaining : List Text} {op : CacheOp} (hinv : CacheInv id slot s)
    (hholder : s.holder = some (.cleanup job remaining))
    (h : nextCleanup s job remaining op = some t) : CacheInv id slot t := by
  obtain ⟨hdead, hjob⟩ := hinv.holder _ hholder
  rcases nextCleanup_cases h with ⟨path, rest, rfl, rfl⟩ | ⟨rfl, rfl⟩
  · refine ⟨hinv.covered.files_mono fun p hp => ⟨(mem_filter_ne hp.1).1, hp.2⟩, ?_, hinv.fetches⟩
    rintro holder ⟨⟩
    refine ⟨fun p hp => hdead p (List.mem_cons_of_mem _ hp), fun p hp hfile => ?_⟩
    obtain ⟨hfile, hne⟩ := mem_filter_ne hfile
    exact (hjob p hp hfile).imp_right (List.mem_of_ne_of_mem hne)
  · refine ⟨hinv.covered.complete fun p hp hfile => ?_, nofun, hinv.fetches⟩
    exact (hjob p hp hfile.1).resolve_right List.not_mem_nil

theorem nextUnlocked_inv {op : CacheOp} (hinv : CacheInv id slot s) (hholder : s.holder = none)
    (h : nextUnlocked id slot s op = some t) : CacheInv id slot t := by
  unfold nextUnlocked at h
  split at h
  · rename_i field checkCache now
    obtain rfl := Option.some.inj h
    have hspec := @persistImage_spec id slot s.row field checkCache now
    have hle : s.row.bound ≤ (persistImage slot id s.row field checkCache now).row.bound := by
      rcases hspec.row with hrow | ⟨hlt, -⟩
      · rw [hrow]
      · exact hlt.le
    refine ⟨?_, ?_, fun job hjob => ?_⟩
    · refine (hinv.covered.jobs_mono fun _ => List.mem_append_right _).replace fun p hp => ?_
      rcases hspec.row with hrow | ⟨-, ⟨hrow, -⟩ | hcleared⟩
      · exact .inl (by rwa [hrow])
      · exact .inl (by rwa [hrow])
      · obtain ⟨job, hjob, hmem⟩ := hcleared p hp
        exact .inr ⟨job, List.mem_append_left _ hjob, hmem⟩
    · rw [show _ = s.holder from rfl, hholder]
      exact nofun
    · rcases List.mem_append.mp hjob with hnew | hold
      · exact (hspec.fetches job hnew).le
      · exact (hinv.fetches job hold).trans hle
  · split_ifs at h with hstart
    obtain rfl := Option.some.inj h
    refine ⟨hinv.covered, ?_, hinv.fetches⟩
    rintro holder ⟨⟩
    exact ⟨hstart.2, trivial⟩
  · rename_i paths
    split_ifs at h
    obtain rfl := Option.some.inj h
    refine ⟨hinv.covered, ?_, hinv.fetches⟩
    rintro holder ⟨⟩
    refine ⟨fun p hp => ?_, fun p hp _ => ?_⟩
    · simpa using (List.mem_filter.mp hp).2
    · by_cases hrow : p ∈ rowPaths id slot s.row
      · exact .inl hrow
      · exact .inr (List.mem_filter.mpr ⟨hp, by simpa using hrow⟩)
  · cases h

theorem nextCache_inv {op : CacheOp} (hinv : CacheInv id slot s)
    (h : nextCache id slot s op = some t) : CacheInv id slot t := by
  unfold nextCache at h
  split at h
  · obtain rfl := Option.some.inj h
    exact ⟨hinv.covered, nofun, hinv.fetches⟩
  · split_ifs at h
    obtain rfl := Option.some.inj h
    refine ⟨hinv.covered.jobs_mono fun _ => List.mem_cons_of_mem _, fun holder hholder => ?_,
      hinv.fetches⟩
    have hold := hinv.holder holder hholder
    cases holder with
    | install job prepared stage =>
      exact ⟨hold.1, StageInv.mono (s := s) rfl (fun _ => List.mem_cons_of_mem _) hold.2⟩
    | cleanup job remaining => exact hold
  · split at h
    · rename_i hholder
      exact nextUnlocked_inv hinv hholder h
    · rename_i hholder
      exact nextInstall_inv hinv hholder h
    · rename_i hholder
      exact nextCleanup_inv hinv hholder h

/-! ### What a step changes -/

/-- The step of a system that is computed. -/
abbrev CacheStep (id : Int64) (slot : ProfileImageSlot) (s : ImageCache) (op : CacheOp)
    (t : ImageCache) : Prop := nextCache id slot s op = some t

theorem nextUnlocked_row {op : CacheOp} (h : nextUnlocked id slot s op = some t) :
    t.row = s.row ∨ ∃ field checkCache now, op = .persist field checkCache now ∧
      t.row = (persistImage slot id s.row field checkCache now).row := by
  unfold nextUnlocked at h
  split at h
  · rename_i field checkCache now
    obtain rfl := Option.some.inj h
    exact .inr ⟨field, checkCache, now, rfl, rfl⟩
  · split_ifs at h
    obtain rfl := Option.some.inj h
    exact .inl rfl
  · split_ifs at h
    obtain rfl := Option.some.inj h
    exact .inl rfl
  · cases h

theorem nextInstall_row {job : ProfileImageJob} {prepared : PreparedAccountMedia} {stage : Stage}
    {op : CacheOp} (h : nextInstall id slot s job prepared stage op = some t) :
    t.row = s.row ∨ stage = .updated ∧ op = .commit ∧ t.row = installed s.row prepared := by
  unfold nextInstall at h
  split at h
  · obtain rfl := Option.some.inj h
    exact .inl rfl
  · obtain rfl := Option.some.inj h
    exact .inl rfl
  · obtain rfl := Option.some.inj h
    exact .inl rfl
  · split_ifs at h
    obtain rfl := Option.some.inj h
    exact .inl rfl
  · obtain rfl := Option.some.inj h
    exact .inl rfl
  · obtain rfl := Option.some.inj h
    exact .inr ⟨rfl, rfl, rfl⟩
  · cases h

/-- A step keeps the row, or persists, or commits an install. -/
theorem nextCache_row {op : CacheOp} (h : nextCache id slot s op = some t) :
    t.row = s.row ∨
      (s.holder = none ∧ ∃ field checkCache now, op = .persist field checkCache now ∧
        t.row = (persistImage slot id s.row field checkCache now).row) ∨
      ∃ job prepared, s.holder = some (.install job prepared .updated) ∧ op = .commit ∧
        t.row = installed s.row prepared := by
  unfold nextCache at h
  split at h
  · obtain rfl := Option.some.inj h
    exact .inl rfl
  · split_ifs at h
    obtain rfl := Option.some.inj h
    exact .inl rfl
  · split at h
    · rename_i hholder
      exact (nextUnlocked_row h).imp_right fun hrow => .inl ⟨hholder, hrow⟩
    · rename_i job prepared stage hholder
      rcases nextInstall_row h with hrow | ⟨rfl, hop, hrow⟩
      · exact .inl hrow
      · exact .inr (.inr ⟨job, prepared, hholder, hop, hrow⟩)
    · rcases nextCleanup_cases h with ⟨path, rest, -, rfl⟩ | ⟨-, rfl⟩
      · exact .inl rfl
      · exact .inl rfl

/-- The URL has changed, or the image has been removed. -/
def Changed (row row' : ProfileImageState) : Prop :=
  urlOf row' ≠ urlOf row ∨ row.fileName.isSome = true ∧ row'.fileName = none

theorem urlOf_persistImage (state : ProfileImageState) (field : Option (Option Text))
    (checkCache : Bool) (now : ℤ)
    (h : ¬state.bound < (persistImage slot id state field checkCache now).row.bound) :
    (persistImage slot id state field checkCache now).row = state := by
  rcases (@persistImage_spec id slot state field checkCache now).row with hrow | ⟨hlt, -⟩
  · exact hrow
  · exact absurd hlt h

theorem nextCache_changed {op : CacheOp} (h : nextCache id slot s op = some t)
    (hchanged : Changed s.row t.row) : s.row.bound < t.row.bound := by
  rcases nextCache_row h with hrow | ⟨-, field, checkCache, now, -, hrow⟩ | ⟨job, prepared, -, -, hrow⟩
  · rw [hrow] at hchanged
    rcases hchanged with hurl | ⟨hfile, hnone⟩
    · exact absurd rfl hurl
    · rw [hnone] at hfile
      cases hfile
  · rw [hrow] at hchanged ⊢
    by_contra hlt
    rw [urlOf_persistImage _ _ _ _ hlt] at hchanged
    rcases hchanged with hurl | ⟨hfile, hnone⟩
    · exact absurd rfl hurl
    · rw [hnone] at hfile
      cases hfile
  · rw [hrow] at hchanged
    rcases hchanged with hurl | ⟨-, hnone⟩
    · exact absurd rfl hurl
    · cases hnone

theorem nextCache_bound {op : CacheOp} (h : nextCache id slot s op = some t) :
    s.row.bound ≤ t.row.bound := by
  rcases nextCache_row h with hrow | ⟨-, field, checkCache, now, -, hrow⟩ | ⟨job, prepared, -, -, hrow⟩
  · rw [hrow]
  · rw [hrow]
    rcases (@persistImage_spec id slot s.row field checkCache now).row with
      hsame | ⟨hlt, -⟩
    · rw [hsame]
    · exact hlt.le
  · rw [hrow]
    exact le_rfl

theorem run_bound {ops : List CacheOp} (h : Run (CacheStep id slot) s ops t) :
    s.row.bound ≤ t.row.bound := by
  refine h.preserves (P := fun t => s.row.bound ≤ t.row.bound) ?_ le_rfl
  intro t op u hle hstep
  exact hle.trans (nextCache_bound hstep)

theorem run_inv {ops : List CacheOp} (h : Run (CacheStep id slot) s ops t)
    (hinv : CacheInv id slot s) : CacheInv id slot t :=
  h.preserves (fun _ _ _ hinv hstep => nextCache_inv hinv hstep) hinv

/-- While a cleanup holds the lock, the files of the row stay. -/
theorem cleanup_keeps {job remaining : List Text} {op : CacheOp} (hinv : CacheInv id slot s)
    (hholder : s.holder = some (.cleanup job remaining)) (h : nextCache id slot s op = some t) :
    t.row = s.row ∧ ∀ p ∈ rowPaths id slot s.row, p ∈ s.files → p ∈ t.files := by
  obtain ⟨hdead, -⟩ := hinv.holder _ hholder
  unfold nextCache at h
  split at h
  · obtain rfl := Option.some.inj h
    exact ⟨rfl, fun _ _ hp => hp⟩
  · split_ifs at h
    obtain rfl := Option.some.inj h
    exact ⟨rfl, fun _ _ hp => hp⟩
  · rw [hholder] at h
    rcases nextCleanup_cases h with ⟨path, rest, rfl, rfl⟩ | ⟨-, rfl⟩
    · refine ⟨rfl, fun p hrow hp => List.mem_filter.mpr ⟨hp, ?_⟩⟩
      rw [decide_eq_true_eq]
      rintro rfl
      exact hdead p List.mem_cons_self hrow
    · exact ⟨rfl, fun _ _ hp => hp⟩

/-- CORRECT (profile images): in every run of persisting, installs and cleanups, with crashes at every
    point, no cleanup removes a file that the row names; when all cleanup jobs are done and no install
    is under way, every file that was written and is still there is named by the row; and each change
    of the URL or removal of the image raises the version, after which no install for an earlier
    one gets the lock of the row. -/
theorem profile_image_cache (id : Int64) (slot : ProfileImageSlot) (s₀ s : ImageCache)
    (ops : List CacheOp) (hinit : s₀.Initial) (hrun : Run (CacheStep id slot) s₀ ops s) :
    (∀ job remaining op t, s.holder = some (.cleanup job remaining) → nextCache id slot s op = some t →
      t.row = s.row ∧ ∀ p ∈ rowPaths id slot s.row, p ∈ s.files → p ∈ t.files) ∧
    (s.cleanups = [] → (∀ job prepared stage, s.holder ≠ some (.install job prepared stage)) →
      ∀ p ∈ s.written, p ∈ s.files → p ∈ rowPaths id slot s.row) ∧
    (∀ op t, nextCache id slot s op = some t → Changed s.row t.row → s.row.bound < t.row.bound) ∧
    (∀ op t, nextCache id slot s op = some t → ∀ job prepared stage,
      s.holder = some (.install job prepared stage) → t.row ≠ s.row → s.row.matches job = true) ∧
    ∀ op t ops' u, nextCache id slot s op = some t → Changed s.row t.row →
      Run (CacheStep id slot) t ops' u → ∀ job ∈ s.fetches, ∀ prepared stage,
        u.holder ≠ some (.install job prepared stage) := by
  have hinv := run_inv hrun hinit.inv
  refine ⟨fun job remaining op t hholder hstep => cleanup_keeps hinv hholder hstep,
    fun hcleanups _ p hwritten hfile => ?_, fun op t => nextCache_changed, ?_, ?_⟩
  · have hcovered := hinv.covered
    rw [hcleanups] at hcovered
    exact covered_nil.mp hcovered p ⟨hfile, hwritten⟩
  · intro op t _ job prepared stage hholder _
    exact (hinv.holder _ hholder).1
  · intro op t ops' u hstep hchanged hrun' job hjob prepared stage hholder
    have hbefore := hinv.fetches job hjob
    have hlt := nextCache_changed hstep hchanged
    have hmatches := ((run_inv hrun' (nextCache_inv hinv hstep)).holder _ hholder).1
    have hafter := run_bound hrun'
    rw [matches_bound hmatches] at hafter
    exact absurd (lt_of_lt_of_le hlt hafter) (not_lt.mpr hbefore)

section Samples

def sampleActor : ProfileImageState where
  domain := some ['p', '.', 'e']
  uri := ['a']
  suspendedAt := none
  remoteUrl := none
  fileName := none
  contentType := none
  fileSize := none
  storageSchemaVersion := none
  updatedAt := none

def sampleImage : PreparedAccountMedia := ⟨['i', '.', 'p', 'n', 'g'], "image/png".toList, 3, false⟩

def emptyCache : ImageCache := ⟨sampleActor, none, [], [], [], [], []⟩

/-- The image is installed, and its cleanup is done. -/
def sampleCacheOps : List CacheOp :=
  [.persist (some (some ['u'])) false 1500000,
    .startInstall ⟨1, ['a'], ['p', '.', 'e'], .avatar, ['u'], 1⟩ sampleImage, .enqueueCleanup,
    .createFile, .fileWritten, .update, .commit,
    .startCleanup (imagePaths (installMetadata 1 .avatar sampleImage)), .commit]

def sampleCache : ImageCache :=
  (sampleCacheOps.foldlM (nextCache 1 .avatar) emptyCache).getD emptyCache

theorem profile_image_cache_sample : sampleCache.written ≠ [] ∧
    ∀ p ∈ sampleCache.written, p ∈ sampleCache.files → p ∈ rowPaths 1 .avatar sampleCache.row := by
  have hrun : Run (CacheStep 1 .avatar) emptyCache sampleCacheOps sampleCache :=
    foldlM_getD_run (by decide +kernel)
  obtain ⟨-, hfiles, -⟩ := profile_image_cache 1 .avatar emptyCache sampleCache sampleCacheOps
    ⟨rfl, rfl, rfl, rfl, rfl⟩ hrun
  have hidle : sampleCache.holder = none := by decide +kernel
  refine ⟨by decide +kernel, hfiles (by decide +kernel) fun job prepared stage => ?_⟩
  rw [hidle]
  exact nofun

end Samples

end Rustodon.Worker
