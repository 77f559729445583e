import Rustodon.Ingest.ReferenceNames

/-! @src mastodon/write_repository/remote_note.rs, mastodon/write_repository/remote_ingest.rs |
    name:Integrity of references | scheme:aliases, labelled runs | family:ingest

    Whether a URI leads to the status that it belongs to, for all of the look-ups and in all states that
    notes, their updates and statuses of this server come to. -/

namespace Rustodon.Ingest
open Schemes.Checked Schemes.Tables Schemes.Aliases Schemes.Runs

variable {env : Env} {base origin uri : String} {status : Status}

/-! ### Where a URI leads -/

/-- All look-ups of a URI find the status: that of a note that replies to it, that of a reply whose
    parent is looked for later, that of a quote and that of a boost. -/
structure Resolves (env : Env) (idScheme : ℤ → Option ℤ) (origin : String) (store : NoteStore)
    (uri : String) (status : Status) : Prop where
  thread : ∀ note : RemoteNoteData, note.inReplyToUri = some uri →
    remoteNoteThread store note origin = (some status.id, some status.accountId, status.conversationId)
  late : ∀ now child url, child ∈ store.statuses.rows → child.deletedAt = none →
    child.inReplyToId = none → child.id ≠ status.id → env.inbox.parseUrl uri = some url →
      url.scheme = "http" ∨ url.scheme = "https" → url.hostStr.isSome →
        ∃ written, resolveRemoteNoteThread env now store child.id uri origin = .ok written ∧
          parentOf written.1.statuses child.id = some status.id
  quote : status.reblogOfId = none →
    (resolveQuoteTarget idScheme store uri origin).map QuotedStatus.statusId = some status.id
  announce : (announceInteractionTarget store uri origin).map AnnounceTarget.statusId = some status.id

/-- One of the look-ups of a URI finds the status. -/
inductive Finds (idScheme : ℤ → Option ℤ) (origin : String) (store : NoteStore) (uri : String) :
    ℤ → Prop where
  | thread {status : Status} (h : threadParent store uri origin = some status) :
      Finds idScheme origin store uri status.id
  | quote {target : QuotedStatus} (h : resolveQuoteTarget idScheme store uri origin = some target) :
      Finds idScheme origin store uri target.statusId
  | announce {target : AnnounceTarget} (h : announceInteractionTarget store uri origin = some target) :
      Finds idScheme origin store uri target.statusId

structure Integrity (env : Env) (idScheme : ℤ → Option ℤ) (origin : String) (store : NoteStore) :
    Prop where
  resolves : ∀ status ∈ store.statuses.rows, ∀ uri,
    hasUri store.accounts (trimEndSlashes origin) uri status →
      Resolves env idScheme origin store uri status
  at_home : ∀ uri, ∀ status ∈ store.statuses.rows, Finds idScheme origin store uri status.id →
    AtHome env store.accounts uri status

section LookUps

variable {store : NoteStore} {idScheme : ℤ → Option ℤ}

theorem unique_of_id {other : Status} (hstatus : status ∈ store.statuses.rows)
    (hother : other ∈ store.statuses.rows) (hid : other.id = status.id) : other = status :=
  List.inj_on_of_nodup_map store.statuses.ids_nodup hother hstatus hid

theorem statusById_of_mem (hstatus : status ∈ store.statuses.rows) :
    statusById store.statuses status.id = some status :=
  find_of_mem store.statuses.ids_nodup hstatus

/-- A URI leads to its status wherever those that are looked through answer to it. -/
theorem Sound.first {p : Status → Bool} (h : Sound env origin store)
    (hstatus : status ∈ store.statuses.rows)
    (huri : hasUri store.accounts (trimEndSlashes origin) uri status) (hp : p status)
    (hanswers : ∀ other ∈ store.statuses.rows, p other →
      knownAs store.accounts (trimEndSlashes origin) uri other) :
    firstStatus store.statuses p = some status := by
  refine h.faithful.resolves (fun other hother => unique_of_id hstatus hother) hstatus huri hp ?_
  exact fun other hother hpo => knownAs_iff.mp (hanswers other hother hpo)

theorem Sound.threadParent (h : Sound env origin store) (hstatus : status ∈ store.statuses.rows)
    (huri : hasUri store.accounts (trimEndSlashes origin) uri status) :
    threadParent store uri origin = some status :=
  h.first hstatus huri (knownAs_iff.mpr (.inl huri)) fun _ _ hp => hp

/-- Where nothing is boosted a quote is looked up like a reply. -/
theorem Sound.quotedStatus (h : Sound env origin store) (uri : String) :
    quotedStatus store uri origin = Ingest.threadParent store uri origin := by
  rw [Ingest.quotedStatus, Ingest.threadParent, firstStatus, firstStatus]
  congr 1
  refine List.filter_congr fun status hstatus => ?_
  simp [quotableAs, knownAs, quotableStatusUris, localStatusUris,
    (h.composed status hstatus).original]

theorem resolveQuoteTarget_id {author : Account} (hquoted : quotedStatus store uri origin = some status)
    (hauthor : accountById store.accounts status.accountId = some author) :
    (resolveQuoteTarget idScheme store uri origin).map QuotedStatus.statusId = some status.id := by
  rw [resolveQuoteTarget, hquoted]
  simp [hauthor]

/-- A status that is no boost is boosted itself. -/
theorem Sound.announced (h : Sound env origin store) (hstatus : status ∈ store.statuses.rows)
    (isLocal : Bool) :
    (announceTargetFromStatus store status.id isLocal).map AnnounceTarget.statusId = some status.id := by
  obtain ⟨hlive, horiginal, ⟨author, hauthor⟩, -, -⟩ := h.composed status hstatus
  rw [announceTargetFromStatus, statusById_of_mem hstatus]
  simp [horiginal, statusById_of_mem hstatus, hauthor, hlive]

theorem knownAs_iff_of_author {author : Account}
    (hauthor : accountById store.accounts status.accountId = some author) :
    knownAs store.accounts base uri status ↔ status.deletedAt = none ∧
      ((status.uri = some uri ∨ status.url = some uri) ∨
        author.domain = none ∧ uri ∈ localStatusUris base author status) := by
  rw [knownAs, hauthor]
  simp

/-- Whether a status is looked at among those of this server. -/
theorem localTarget_iff {author : Account}
    (hauthor : accountById store.accounts status.accountId = some author) :
    ((accountById store.accounts status.accountId).any fun author =>
      author.domain.isNone && status.deletedAt.isNone &&
        (status.uri == some uri || status.url == some uri ||
          (localStatusUris (trimEndSlashes origin) author status).contains uri)) = true ↔
      author.domain = none ∧ knownAs store.accounts (trimEndSlashes origin) uri status := by
  rw [knownAs_iff_of_author hauthor, hauthor]
  simp only [Option.any_some, Bool.and_eq_true, Bool.or_eq_true, Option.isNone_iff_eq_none, beq_iff_eq,
    List.contains_iff_mem]
  tauto

/-- Whether a status is looked at among those of other servers. -/
theorem remoteTarget_iff (base : String) {author : Account}
    (hauthor : accountById store.accounts status.accountId = some author) :
    ((accountById store.accounts status.accountId).any fun author =>
      author.domain.isSome && status.deletedAt.isNone &&
        (status.uri == some uri || status.url == some uri)) = true ↔
      author.domain.isSome ∧ knownAs store.accounts base uri status := by
  rw [knownAs_iff_of_author hauthor, hauthor]
  simp only [Option.any_some, Bool.and_eq_true, Bool.or_eq_true, Option.isNone_iff_eq_none, beq_iff_eq]
  constructor
  · rintro ⟨⟨hremote, hlive⟩, hknown⟩
    exact ⟨hremote, hlive, .inl hknown⟩
  · rintro ⟨hremote, hlive, hknown | ⟨hlocal, -⟩⟩
    · exact ⟨⟨hremote, hlive⟩, hknown⟩
    · simp [hlocal] at hremote

/-- Among the statuses of this server, only one that is given the URI answers to it. -/
theorem Sound.localTarget_none (h : Sound env origin store) {author : Account}
    (hstatus : status ∈ store.statuses.rows)
    (hauthor : accountById store.accounts status.accountId = some author)
    (hremote : author.domain.isSome)
    (huri : hasUri store.accounts (trimEndSlashes origin) uri status) :
    localInteractionTarget store uri origin = none := by
  cases hfound : localInteractionTarget store uri origin with
  | none => rfl
  | some other =>
    obtain ⟨hother, hp⟩ := mem_of_first Status.id hfound
    obtain ⟨writer, hwriter⟩ := (h.composed other hother).authored
    obtain ⟨hlocal, hknown⟩ := (localTarget_iff hwriter).mp hp
    rcases knownAs_iff.mp hknown with hown | hpage
    · have hid := h.faithful.own_unique other hother status hstatus uri hown huri
      rw [unique_of_id hstatus hother hid, hauthor] at hwriter
      obtain rfl := Option.some.inj hwriter
      simp [hlocal] at hremote
    · have hwriterRemote := (h.composed other hother).hasUrl_remote hwriter hpage
      simp [hlocal] at hwriterRemote

theorem Sound.announce (h : Sound env origin store) (hstatus : status ∈ store.statuses.rows)
    (huri : hasUri store.accounts (trimEndSlashes origin) uri status) :
    (announceInteractionTarget store uri origin).map AnnounceTarget.statusId = some status.id := by
  obtain ⟨author, hauthor⟩ := (h.composed status hstatus).authored
  have hknown : knownAs store.accounts (trimEndSlashes origin) uri status :=
    knownAs_iff.mpr (.inl huri)
  have hwritten : ∀ other ∈ store.statuses.rows,
      ∃ writer, accountById store.accounts other.accountId = some writer :=
    fun other hother => (h.composed other hother).authored
  rw [announceInteractionTarget]
  cases hdomain : author.domain with
  | none =>
    have hlocal : localInteractionTarget store uri origin = some status := by
      refine h.first hstatus huri ((localTarget_iff hauthor).mpr ⟨hdomain, hknown⟩) ?_
      intro other hother hp
      obtain ⟨writer, hwriter⟩ := hwritten other hother
      exact ((localTarget_iff hwriter).mp hp).2
    rw [hlocal]
    exact h.announced hstatus true
  | some domain =>
    have hremote : author.domain.isSome := by rw [hdomain]; rfl
    have hfound : remoteInteractionTarget store uri = some status := by
      refine h.first hstatus huri ((remoteTarget_iff (trimEndSlashes origin) hauthor).mpr ⟨hremote, hknown⟩) ?_
      intro other hother hp
      obtain ⟨writer, hwriter⟩ := hwritten other hother
      exact ((remoteTarget_iff (trimEndSlashes origin) hwriter).mp hp).2
    rw [h.localTarget_none hstatus hauthor hremote huri, hfound]
    exact h.announced hstatus false

/-- A URI that belongs to a status leads to it. -/
theorem Sound.resolves (h : Sound env origin store) (hstatus : status ∈ store.statuses.rows)
    (huri : hasUri store.accounts (trimEndSlashes origin) uri status) :
    Resolves env idScheme origin store uri status where
  thread := by
    intro note hnote
    rw [remoteNoteThread, hnote]
    simp [h.threadParent hstatus huri]
  late := by
    intro now child url hchild hlive hroot hother hurl hscheme hhost
    have hlinks : Links env store child.id uri origin child status :=
      ⟨⟨url, hurl, hscheme, hhost⟩, statusById_of_mem hchild, hlive, hroot,
        h.threadParent hstatus huri, Ne.symm hother⟩
    obtain ⟨written, hwritten⟩ := hlinks.resolves now
    refine ⟨written, hwritten, ?_⟩
    rcases resolveRemoteNoteThread_cases hwritten with ⟨-, hnone⟩ | ⟨child', parent, hlinks', hparent⟩
    · exact absurd hlinks (hnone child status)
    · obtain rfl := Option.some.inj (hlinks.known.symm.trans hlinks'.known)
      rw [hparent, Function.update_self]
  quote := by
    intro _
    obtain ⟨author, hauthor⟩ := (h.composed status hstatus).authored
    exact resolveQuoteTarget_id ((h.quotedStatus uri).trans (h.threadParent hstatus huri)) hauthor
  announce := h.announce hstatus huri

/-- Who answers to a name of another server has somebody before it who is entitled to it. -/
theorem Sound.entitled (h : Sound env origin store) (hstatus : status ∈ store.statuses.rows)
    (hknown : knownAs store.accounts (trimEndSlashes origin) uri status) :
    AtHome env store.accounts uri status ∨ ∃ older ∈ store.statuses.rows, older.id < status.id ∧
      knownAs store.accounts (trimEndSlashes origin) uri older := by
  rcases knownAs_iff.mp hknown with hown | hpage
  · refine .inl fun author hauthor hremote => ?_
    have hcomposed := h.composed status hstatus
    obtain ⟨stored, hstored, hhost⟩ := hcomposed.ofRemote author hauthor hremote
    obtain rfl := Option.some.inj (hstored.symm.trans (hcomposed.uri_of_remote hauthor hremote hown))
    exact hhost
  · exact h.hosted status hstatus uri hpage

theorem Sound.thread_at_home (h : Sound env origin store)
    (hfound : Ingest.threadParent store uri origin = some status) :
    AtHome env store.accounts uri status :=
  entitled_of_first Status.id (fun _ hother hp => h.entitled hother hp) hfound

theorem Sound.remote_at_home (h : Sound env origin store)
    (hnone : localInteractionTarget store uri origin = none)
    (hfound : remoteInteractionTarget store uri = some status) :
    AtHome env store.accounts uri status := by
  refine entitled_of_first Status.id (fun other hother hp => ?_) hfound
  obtain ⟨writer, hwriter⟩ := (h.composed other hother).authored
  obtain ⟨hremote, hknown⟩ := (remoteTarget_iff (trimEndSlashes origin) hwriter).mp hp
  rcases h.entitled hother hknown with hhome | ⟨older, holder, hlt, hknown'⟩
  · exact .inl hhome
  · refine .inr ⟨older, holder, hlt, ?_⟩
    obtain ⟨author, hauthor⟩ := (h.composed older holder).authored
    refine (remoteTarget_iff (trimEndSlashes origin) hauthor).mpr ⟨?_, hknown'⟩
    by_contra hlocal
    have hp' := (localTarget_iff hauthor).mpr ⟨by simpa using hlocal, hknown'⟩
    have hmiss := first_eq_none Status.id hnone holder
    rw [hp'] at hmiss
    cases hmiss

theorem announceTargetFromStatus_id {store : NoteStore} {target : AnnounceTarget} {id : ℤ}
    {isLocal : Bool} (h : announceTargetFromStatus store id isLocal = some target) :
    ∃ status, statusById store.statuses id = some status ∧
      target.statusId = status.reblogOfId.getD status.id := by
  obtain ⟨status, hstatus, h⟩ := Option.bind_eq_some_iff.mp h
  obtain ⟨other, hother, h⟩ := Option.bind_eq_some_iff.mp h
  obtain ⟨author, -, h⟩ := Option.bind_eq_some_iff.mp h
  split at h
  · have hid : other.id = status.reblogOfId.getD status.id := key_of_find hother
    obtain rfl := Option.some.inj h
    exact ⟨status, hstatus, hid⟩
  · cases h

/-- No URI leads to a status of another server than its own. -/
theorem Sound.at_home (h : Sound env origin store) (hstatus : status ∈ store.statuses.rows)
    (hfinds : Finds idScheme origin store uri status.id) : AtHome env store.accounts uri status := by
  generalize hid : status.id = id at hfinds
  cases hfinds with
  | @thread other hfound =>
    rw [← unique_of_id hstatus (mem_of_firstStatus hfound) hid.symm]
    exact h.thread_at_home hfound
  | @quote target hfound =>
    obtain ⟨other, hquoted, hfound⟩ := Option.bind_eq_some_iff.mp hfound
    obtain ⟨author, -, hfound⟩ := Option.bind_eq_some_iff.mp hfound
    obtain rfl := Option.some.inj hfound
    rw [h.quotedStatus] at hquoted
    rw [← unique_of_id hstatus (mem_of_firstStatus hquoted) hid.symm]
    exact h.thread_at_home hquoted
  | @announce target hfound =>
    have hmatched : ∀ {other : Status} {isLocal : Bool}, other ∈ store.statuses.rows →
        announceTargetFromStatus store other.id isLocal = some target → status = other := by
      intro other isLocal hother htarget
      obtain ⟨matched, hmatched, htargetId⟩ := announceTargetFromStatus_id htarget
      obtain rfl := Option.some.inj ((statusById_of_mem hother).symm.trans hmatched)
      rw [(h.composed other hother).original] at htargetId
      exact unique_of_id hother hstatus (hid.trans htargetId)
    rw [announceInteractionTarget] at hfound
    split at hfound
    · rename_i other hlocal
      obtain ⟨hother, hp⟩ := mem_of_first Status.id hlocal
      obtain ⟨writer, hwriter⟩ := (h.composed other hother).authored
      intro author hauthor hremote
      rw [hmatched hother hfound, hwriter] at hauthor
      obtain rfl := Option.some.inj hauthor
      simp [((localTarget_iff hwriter).mp hp).1] at hremote
    · rename_i hnone
      obtain ⟨other, hother, hfound⟩ := Option.bind_eq_some_iff.mp hfound
      rw [hmatched (mem_of_firstStatus hother) hfound]
      exact h.remote_at_home hnone hother

theorem Sound.integrity (h : Sound env origin store) : Integrity env idScheme origin store :=
  ⟨fun _ hstatus _ huri => h.resolves hstatus huri, fun _ _ hstatus hfinds => h.at_home hstatus hfinds⟩

end LookUps

/-! ### Runs -/

def Change.Step (env : Env) (origin : String) (store : NoteStore) (change : Change)
    (store' : NoteStore) : Prop :=
  change.after env origin store = store'

/-- A step whose change gives a new status names that are free. -/
def Change.ClearStep (env : Env) (origin : String) (store : NoteStore) (change : Change)
    (store' : NoteStore) : Prop :=
  change.Step env origin store store' ∧ change.Clear env origin store

/-- CORRECT (references to statuses): from a server without statuses, in all runs of notes, updates and
    own statuses whose names are free when they are stored, all look-ups of a URI find the status that
    it belongs to, and none finds a status of another server. -/
theorem references_resolve {env : Env} {origin : String} {idScheme : ℤ → Option ℤ}
    {store store' : NoteStore} {changes : List Change} (hempty : store.statuses.rows = [])
    (run : Run (Change.ClearStep env origin) store changes store') :
    Integrity env idScheme origin store' := by
  have hsound : Sound env origin store := by
    rw [Sound, hempty]
    exact wellNamed_nil
  refine (run.preserves (P := Sound env origin) ?_ hsound).integrity
  rintro s change _ h ⟨rfl, hclear⟩
  exact h.change change hclear

/-! ### Two servers and this one -/

/-- The store of two servers, with an account of this one. -/
def referenceStore : NoteStore :=
  { threadStore with
    accounts := ⟨[threadAccount 1 "a.example", threadAccount 2 "b.example",
      { threadAccount 3 "local.example" with domain := none }], by decide⟩ }

def referenceCreate (statusId accountId : ℤ) (host : String) (url : Option String) : Change :=
  .create ⟨2, statusId, statusId + 1, false⟩ accountId ("https://" ++ host ++ "/u")
    { threadNote ("https://" ++ host ++ "/1") none with url } none

def referencePublish (statusId : ℤ) : Change :=
  .publish ⟨3, statusId, statusId + 1, false⟩ ⟨3, "hello", "", 0, none, false, none, none, none, 0⟩

/-- A note whose page is the URI of a note that comes later. -/
def referencesTaken : List Change :=
  [referenceCreate 10 1 "a.example" (some "https://b.example/1"), referenceCreate 20 2 "b.example" none]

/-- The state that changes come to. -/
def referencesAfter (changes : List Change) : NoteStore :=
  changes.foldl (Change.after threadEnv "https://local.example") referenceStore

/-- Replies to the later note are put below the one that took its URI. -/
theorem references_taken :
    ¬ ∀ (changes : List Change) (store' : NoteStore),
      Run (Change.Step threadEnv "https://local.example") referenceStore changes store' →
        Integrity threadEnv (fun _ => none) "https://local.example" store' := by
  intro h
  have hintegrity : Integrity threadEnv (fun _ => none) "https://local.example"
      (referencesAfter referencesTaken) := h _ _ foldl_run
  have howns : (statusById (referencesAfter referencesTaken).statuses 20).map
      (hasUri (referencesAfter referencesTaken).accounts (trimEndSlashes "https://local.example")
        "https://b.example/1") = some true := by
    with_unfolding_all decide
  obtain ⟨status, hstatus, huri⟩ := Option.map_eq_some_iff.mp howns
  have hresolves := hintegrity.resolves status (mem_of_find hstatus) _ huri
  have hthread := hresolves.thread (threadNote "https://a.example/2" (some "https://b.example/1")) rfl
  have htaken : (remoteNoteThread (referencesAfter referencesTaken)
      (threadNote "https://a.example/2" (some "https://b.example/1")) "https://local.example").1 =
        some 10 := by
    with_unfolding_all decide
  rw [hthread] at htaken
  have hid : status.id = 20 := key_of_find hstatus
  exact absurd (hid.symm.trans (Option.some.inj htaken)) (by decide)

theorem create_clear {env : Env} {origin : String} {store : NoteStore} {drawn : Drawn} {accountId : ℤ}
    {actorUri : String} {note : RemoteNoteData} {quoteGuard : Option (NoteStore → Written Bool)}
    (account : Account) (hknown : accountById store.accounts accountId = some account)
    (h : NoteClear env origin store drawn note account) :
    (Change.create drawn accountId actorUri note quoteGuard).Clear env origin store := by
  intro other hadmits
  obtain rfl := Option.some.inj (hknown.symm.trans hadmits.known)
  exact h

theorem publish_clear {env : Env} {origin : String} {store : NoteStore} {drawn : Drawn}
    {draft : LocalStatus} (account : Account)
    (hknown : accountById store.accounts draft.accountId = some account)
    (h : LocalClear origin store drawn draft account) :
    (Change.publish drawn draft).Clear env origin store := by
  intro other hother _
  obtain rfl := Option.some.inj (hknown.symm.trans hother)
  exact h

/-- A note whose page is on its own server, the note of another and a status of this server. -/
def referencesClear : List Change :=
  [referenceCreate 10 1 "a.example" (some "https://a.example/pages/1"),
    referenceCreate 20 2 "b.example" none, referencePublish 30]

theorem references_resolve_clear : Integrity threadEnv (fun _ => none) "https://local.example"
    (referencesAfter referencesClear) := by
  refine references_resolve (show referenceStore.statuses.rows = [] from rfl) (Run.cons ⟨rfl, ?_⟩
    (Run.cons ⟨rfl, ?_⟩ (Run.cons ⟨rfl, ?_⟩ .nil)) : Run _ _ referencesClear _)
  · refine create_clear (threadAccount 1 "a.example") rfl ?_
    unfold NoteClear
    with_unfolding_all decide
  · refine create_clear (threadAccount 2 "b.example") ?_ ?_
    · rw [Change.after_accounts]
      rfl
    · unfold NoteClear
      with_unfolding_all decide
  · refine publish_clear { threadAccount 3 "local.example" with domain := none } ?_ ?_
    · rw [Change.after_accounts, Change.after_accounts]
      rfl
    · unfold LocalClear
      with_unfolding_all decide

end Rustodon.Ingest
