import Rustodon.Ingest.References

/-! @src mastodon/write_repository/remote_note.rs, mastodon/write_repository/remote_ingest.rs |
    name:Names of statuses | scheme:aliases | family:ingest

    What notes, updates and statuses of this server are known as once they are stored. The page that a
    note declares is looked at like its URI, and nobody checks whose it is. The names stay apart as long
    as the pages are those of their authors and are not taken. -/

namespace Rustodon.Ingest
open Schemes.Checked Schemes.Tables Schemes.Aliases Schemes.Segments

/-! ### Rows without their contents -/

/-- A row of which only the names are known. -/
def namedAs (id accountId : ℤ) (uri url : Option String) (reblogOfId deletedAt : Option ℤ) : Status where
  id
  accountId
  text := ""
  spoilerText := ""
  visibility := 0
  language := none
  sensitive := false
  reply := false
  uri
  url
  inReplyToId := none
  inReplyToAccountId := none
  conversationId := none
  reblogOfId
  quoteApprovalPolicy := 0
  createdAt := 0
  updatedAt := 0
  editedAt := none
  deletedAt

/-- What the look-ups see of a row. -/
def Status.bare (status : Status) : Status :=
  namedAs status.id status.accountId status.uri status.url status.reblogOfId status.deletedAt

theorem hasUri_bare (accounts : Store) (origin uri : String) (status : Status) :
    hasUri accounts origin uri status.bare = hasUri accounts origin uri status := rfl

theorem hasUrl_bare (accounts : Store) (uri : String) (status : Status) :
    hasUrl accounts uri status.bare = hasUrl accounts uri status := rfl

theorem bare_eq {status status' : Status} (h : status.bare = status'.bare) :
    status.id = status'.id ∧ status.accountId = status'.accountId ∧ status.uri = status'.uri ∧
      status.url = status'.url ∧ status.reblogOfId = status'.reblogOfId ∧
        status.deletedAt = status'.deletedAt := by
  simpa [Status.bare, namedAs] using h

theorem bare_update (rows : List Status) (id : ℤ) {f : Status → Status}
    (hf : ∀ status, (f status).bare = status.bare) :
    (update Status.id rows id f).map Status.bare = rows.map Status.bare := by
  rw [update, List.map_map]
  refine List.map_congr_left fun status _ => ?_
  rw [Function.comp_apply]
  split
  · exact hf status
  · rfl

theorem withConversation_bare (conversationId : Option ℤ) (visibility : ℤ) (status : Status) :
    (withConversation conversationId visibility status).bare = status.bare := rfl

theorem withNoteContent_bare (now : ℤ) (note : RemoteNoteData) (policy : ℤ) (status : Status) :
    (withNoteContent now note policy status).bare = status.bare := rfl

theorem withEdit_bare (editedAt : ℤ) (status : Status) :
    (withEdit editedAt status).bare = status.bare := rfl

/-! ### What a change does to the names -/

/-- The statuses keep their names. -/
structure Kept (store store' : NoteStore) : Prop where
  accounts : store'.accounts = store.accounts
  rows : store'.statuses.rows.map Status.bare = store.statuses.rows.map Status.bare

/-- There is one more status. -/
structure Added (row : Status) (store store' : NoteStore) : Prop where
  accounts : store'.accounts = store.accounts
  new : statusById store.statuses row.id = none
  rows : store'.statuses.rows.map Status.bare = (store.statuses.rows ++ [row]).map Status.bare

theorem Kept.refl (store : NoteStore) : Kept store store := ⟨rfl, rfl⟩

theorem Kept.trans {store store' store'' : NoteStore} (h : Kept store store')
    (h' : Kept store' store'') : Kept store store'' :=
  ⟨h'.accounts.trans h.accounts, h'.rows.trans h.rows⟩

theorem Added.trans {row : Status} {store store' store'' : NoteStore} (h : Added row store store')
    (h' : Kept store' store'') : Added row store store'' :=
  ⟨h'.accounts.trans h.accounts, h.new, h'.rows.trans h.rows⟩

theorem countReply_kept (store : NoteStore) (visibility : ℤ) (parentId : Option ℤ) :
    Kept store (countReply store visibility parentId) := by
  refine ⟨?_, by rw [countReply_statuses]⟩
  cases parentId with
  | none => rfl
  | some parentId =>
    rw [countReply]
    split <;> rfl

theorem recordThreadJob_kept (store : NoteStore) (job : ThreadJob) :
    Kept store (recordThreadJob store job) := by
  rw [recordThreadJob]
  split
  · exact .refl store
  · exact ⟨rfl, rfl⟩

theorem settleRemoteNote_kept (drawn : Drawn) (store : NoteStore) (accountId : ℤ)
    (note : RemoteNoteData) (visibility : ℤ) (parent : Option ℤ × Option ℤ × Option ℤ) :
    Kept store (settleRemoteNote drawn store accountId note visibility parent) := by
  obtain ⟨haccounts, hrows⟩ := countReply_kept store visibility parent.1
  have hsettled : ∀ conversationId visibility',
      (update Status.id (countReply store visibility parent.1).statuses.rows drawn.newStatusId
        (withConversation conversationId visibility')).map Status.bare =
          store.statuses.rows.map Status.bare :=
    fun _ _ => (bare_update _ _ (withConversation_bare _ _)).trans hrows
  rw [settleRemoteNote]
  split
  · refine Kept.trans ?_ (recordThreadJob_kept _ _)
    exact ⟨haccounts, hsettled _ _⟩
  · exact ⟨haccounts, hsettled _ _⟩

/-- The names of a new note. -/
def noteRow (statusId accountId : ℤ) (note : RemoteNoteData) : Status :=
  namedAs statusId accountId (some note.uri) (note.url.or (some note.uri)) none none

theorem storeRemoteNote_added {drawn : Drawn} {store store' : NoteStore} {account : Account}
    {note : RemoteNoteData} {policy : ℤ} {origin : String}
    (h : storeRemoteNote drawn store account note policy origin = .ok store') :
    Added (noteRow drawn.newStatusId account.id note) store store' := by
  rw [storeRemoteNote] at h
  obtain ⟨inserted, hinsert, rfl⟩ := map_eq_ok h
  refine Added.trans ?_ (settleRemoteNote_kept ..)
  rw [insertRemoteNote] at hinsert
  split at hinsert
  · rename_i hrow
    obtain rfl := Except.ok.inj hinsert
    refine ⟨rfl, hrow.1, ?_⟩
    rw [insertStatus, List.map_append, List.map_append]
    rfl
  · cases hinsert

/-- The author may write the note, and it is not there yet. -/
structure Admits (env : Env) (store : NoteStore) (accountId : ℤ) (actorUri : String)
    (note : RemoteNoteData) (account : Account) : Prop where
  known : accountById store.accounts accountId = some account
  remote : account.domain.isSome
  speaks : account.uri = actorUri
  hosted : sameRemoteNoteHost env actorUri note.uri = .ok true
  fresh : remoteNoteStatus store note.uri note.atomUri = none

theorem not_guarded {account : Account} {actorUri : String}
    (h : ¬ (account.domain.isNone || account.uri != actorUri || account.suspendedAt.isSome) = true) :
    account.domain.isSome ∧ account.uri = actorUri := by
  simp only [Bool.or_eq_true, not_or, bne_iff_ne, ne_eq, not_not] at h
  exact ⟨by simpa [Option.isSome_iff_ne_none] using h.1.1, h.1.2⟩

theorem accountById_id {accounts : Store} {id : ℤ} {account : Account}
    (h : accountById accounts id = some account) : account.id = id := by
  simpa using List.find?_some h

theorem applyRemoteNoteCreate_names {env : Env} {drawn : Drawn} {store store' : NoteStore}
    {accountId : ℤ} {actorUri : String} {note : RemoteNoteData} {origin : String}
    {quoteGuard : Option (NoteStore → Written Bool)} {statusId : Option ℤ}
    (h : applyRemoteNoteCreate env drawn store accountId actorUri note origin quoteGuard =
      .ok (store', statusId)) :
    Kept store store' ∨ ∃ account, Admits env store accountId actorUri note account ∧
      Added (noteRow drawn.newStatusId accountId note) store store' := by
  have hsame : ∀ {id : Option ℤ}, Except.ok (store, id) = (.ok (store', statusId) : Written _) →
      Kept store store' := by
    intro id heq
    obtain ⟨rfl, -⟩ := Prod.mk.inj (Except.ok.inj heq)
    exact .refl store
  obtain ⟨admitted, -, h⟩ := bind_eq_ok h
  split at h
  · split at h
    · exact .inl (hsame h)
    · rename_i account hknown
      split at h
      · exact .inl (hsame h)
      · rename_i hguard
        obtain ⟨hremote, hspeaks⟩ := not_guarded hguard
        obtain ⟨policy, -, h⟩ := bind_eq_ok h
        obtain ⟨same, hhost, h⟩ := bind_eq_ok h
        obtain ⟨_, hallowed, h⟩ := bind_eq_ok h
        have hsameHost : same = true := by simpa using failIf_eq_ok hallowed
        split at h
        · exact .inl (hsame h)
        · split at h
          · split at h
            · cases h
            · exact .inl (hsame h)
          · rename_i hfresh
            obtain ⟨stored, hstore, h⟩ := bind_eq_ok h
            obtain ⟨rfl, -⟩ := Prod.mk.inj (Except.ok.inj h)
            refine .inr ⟨account, ⟨hknown, hremote, hspeaks, hsameHost ▸ hhost, hfresh⟩, ?_⟩
            rw [← accountById_id hknown]
            exact storeRemoteNote_added hstore
  · exact .inl (hsame h)

theorem reviseStatus_kept (store : NoteStore) (revision : Revision) (now : ℤ) (note : RemoteNoteData)
    (policy : ℤ) (existing : Status) :
    Kept store (reviseStatus store revision now note policy existing) := by
  have hrewritten : (update Status.id store.statuses.rows existing.id
      (withNoteContent now note policy)).map Status.bare = store.statuses.rows.map Status.bare :=
    bare_update _ _ (withNoteContent_bare now note policy)
  rw [reviseStatus]
  split
  · exact ⟨rfl, (bare_update _ _ (withEdit_bare note.updatedAt)).trans hrewritten⟩
  · exact ⟨rfl, hrewritten⟩

theorem reviseRemoteNote_kept {store store' : NoteStore} {revision : Revision} {now accountId : ℤ}
    {note : RemoteNoteData} {policy : ℤ} {existing : Status} {statusId : Option ℤ}
    (h : reviseRemoteNote store revision now accountId note policy existing = .ok (store', statusId)) :
    Kept store store' := by
  rw [reviseRemoteNote] at h
  split_ifs at h
  all_goals
    obtain ⟨rfl, -⟩ := Prod.mk.inj (Except.ok.inj h)
    first
    | exact .refl store
    | exact reviseStatus_kept ..

theorem applyRemoteNoteUpdate_names {env : Env} {drawn : Drawn} {revision : Revision}
    {store store' : NoteStore} {accountId : ℤ} {actorUri : String} {note : RemoteNoteData}
    {origin : String} {statusId : Option ℤ}
    (h : applyRemoteNoteUpdate env drawn revision store accountId actorUri note origin =
      .ok (store', statusId)) :
    Kept store store' ∨ remoteNoteObjectIsTooOld revision note drawn.now = false ∧
      ∃ account, Admits env store accountId actorUri note account ∧
        Added (noteRow drawn.newStatusId accountId note) store store' := by
  have hsame : ∀ {id : Option ℤ}, Except.ok (store, id) = (.ok (store', statusId) : Written _) →
      Kept store store' := by
    intro id heq
    obtain ⟨rfl, -⟩ := Prod.mk.inj (Except.ok.inj heq)
    exact .refl store
  obtain ⟨same, -, h⟩ := bind_eq_ok h
  obtain ⟨-, -, h⟩ := bind_eq_ok h
  split at h
  · exact .inl (hsame h)
  · split at h
    · exact .inl (hsame h)
    · obtain ⟨policy, -, h⟩ := bind_eq_ok h
      split at h
      · exact .inl (reviseRemoteNote_kept h)
      · split at h
        · exact .inl (hsame h)
        · split at h
          · exact .inl (hsame h)
          · rename_i hold
            exact (applyRemoteNoteCreate_names h).imp_right fun hadded => ⟨by simpa using hold, hadded⟩

theorem createStatus_names {drawn : Drawn} {store store' : NoteStore} {draft : LocalStatus}
    (h : createStatus drawn store draft = .ok store') :
    ∃ author, accountById store.accounts draft.accountId = some author ∧ author.domain = none ∧
      Added (localStatusRow drawn draft) store store' := by
  rw [createStatus] at h
  split at h
  · rename_i hlocal
    obtain ⟨author, hknown, hdomain⟩ := (Option.any_eq_true _ _).mp hlocal
    split at h
    · rename_i hrow
      obtain rfl := Except.ok.inj h
      refine ⟨author, hknown, by simpa using hdomain, Added.trans ?_ (countReply_kept ..)⟩
      exact ⟨rfl, hrow.1, rfl⟩
    · cases h
  · cases h

/-! ### When a change keeps the names apart -/

section Conditions

variable (env : Env) (origin : String) (store : NoteStore)

/-- The page that the note declares is on the server of its author, unless an older status answers to
    it already, and it is no URI of a younger status. No older status is shown at the URI of the note,
    and no status of this server has it. -/
def NoteClear (drawn : Drawn) (note : RemoteNoteData) (account : Account) : Prop :=
  (∀ url ∈ note.url,
    (sameRemoteNoteHost env account.uri url = .ok true ∨ ∃ older ∈ store.statuses.rows,
      older.id < drawn.newStatusId ∧ knownAs store.accounts (trimEndSlashes origin) url older) ∧
    ∀ other ∈ store.statuses.rows, drawn.newStatusId < other.id →
      hasUri store.accounts (trimEndSlashes origin) url other = false) ∧
  ∀ other ∈ store.statuses.rows,
    (other.id < drawn.newStatusId → hasUrl store.accounts note.uri other = false) ∧
    (hasUri store.accounts (trimEndSlashes origin) note.uri other → other.uri = some note.uri)

/-- Nobody has declared a URI that the status is given here. -/
def LocalClear (drawn : Drawn) (draft : LocalStatus) (author : Account) : Prop :=
  ∀ uri ∈ localStatusUris (trimEndSlashes origin) author (localStatusRow drawn draft),
    ∀ other ∈ store.statuses.rows, other.uri ≠ some uri ∧
      (other.id < drawn.newStatusId → hasUrl store.accounts uri other = false)

/-- A change that stores a status gives it names that are free. -/
def Change.Clear : Change → Prop
  | .create drawn accountId actorUri note _ =>
    ∀ account, Admits env store accountId actorUri note account →
      NoteClear env origin store drawn note account
  | .update drawn revision accountId actorUri note =>
    remoteNoteObjectIsTooOld revision note drawn.now = false →
      ∀ account, Admits env store accountId actorUri note account →
        NoteClear env origin store drawn note account
  | .publish drawn draft =>
    ∀ author, accountById store.accounts draft.accountId = some author → author.domain = none →
      LocalClear origin store drawn draft author

end Conditions

/-! ### The invariant -/

/-- A row as it is written: the URI of a note is on the server of its author, and a status of this
    server is stored without one. -/
structure Composed (env : Env) (accounts : Store) (status : Status) : Prop where
  live : status.deletedAt = none
  original : status.reblogOfId = none
  authored : ∃ author, accountById accounts status.accountId = some author
  ofLocal : ∀ author, accountById accounts status.accountId = some author → author.domain = none →
    status.uri = none ∧ status.url = none
  ofRemote : ∀ author, accountById accounts status.accountId = some author → author.domain.isSome →
    ∃ uri, status.uri = some uri ∧ sameRemoteNoteHost env author.uri uri = .ok true

/-- The host of a name is that of the author, when the author is remote. -/
def AtHome (env : Env) (accounts : Store) (uri : String) (status : Status) : Prop :=
  ∀ author, accountById accounts status.accountId = some author → author.domain.isSome →
    sameRemoteNoteHost env author.uri uri = .ok true

structure WellNamed (env : Env) (accounts : Store) (base : String) (rows : List Status) : Prop where
  composed : ∀ status ∈ rows, Composed env accounts status
  faithful : Faithful Status.id (fun status uri => hasUri accounts base uri status = true)
    (fun status uri => hasUrl accounts uri status = true) rows
  hosted : ∀ status ∈ rows, ∀ uri, hasUrl accounts uri status → AtHome env accounts uri status ∨
    ∃ older ∈ rows, older.id < status.id ∧ knownAs accounts base uri older

variable {env : Env} {accounts : Store} {base origin uri : String} {rows rows' : List Status}
  {status : Status}

theorem wellNamed_nil : WellNamed env accounts base [] :=
  ⟨fun _ h => absurd h List.not_mem_nil, faithful_nil, fun _ h => absurd h List.not_mem_nil⟩

/-- The invariant is about names only. -/
theorem WellNamed.of_bare (h : WellNamed env accounts base rows)
    (hrows : rows'.map Status.bare = rows.map Status.bare) : WellNamed env accounts base rows' := by
  have hback : ∀ status' ∈ rows', ∃ status ∈ rows, status.bare = status'.bare := by
    intro status' hmem
    exact List.mem_map.mp (hrows ▸ List.mem_map_of_mem hmem)
  have hforth : ∀ status ∈ rows, ∃ status' ∈ rows', status'.bare = status.bare := by
    intro status hmem
    exact List.mem_map.mp (hrows ▸ List.mem_map_of_mem hmem)
  have huri : ∀ {s t : Status}, s.bare = t.bare → ∀ u,
      hasUri accounts base u s = hasUri accounts base u t := by
    intro s t hbare u
    rw [← hasUri_bare, hbare, hasUri_bare]
  have hurl : ∀ {s t : Status}, s.bare = t.bare → ∀ u, hasUrl accounts u s = hasUrl accounts u t := by
    intro s t hbare u
    rw [← hasUrl_bare, hbare, hasUrl_bare]
  refine ⟨?_, ⟨?_, ?_⟩, ?_⟩
  · intro status' hmem
    obtain ⟨status, hstatus, hbare⟩ := hback status' hmem
    obtain ⟨-, haccount, huri', hurl', hreblog, hdeleted⟩ := bare_eq hbare
    obtain ⟨hlive, horiginal, hauthored, hlocal, hremote⟩ := h.composed status hstatus
    rw [haccount] at hauthored hlocal hremote
    rw [huri', hurl'] at hlocal
    rw [huri'] at hremote
    exact ⟨hdeleted ▸ hlive, hreblog ▸ horiginal, hauthored, hlocal, hremote⟩
  · intro s' hs' t' ht' u hu hu'
    obtain ⟨s, hs, hsbare⟩ := hback s' hs'
    obtain ⟨t, ht, htbare⟩ := hback t' ht'
    have hid := h.faithful.own_unique s hs t ht u (huri hsbare u ▸ hu) (huri htbare u ▸ hu')
    exact (bare_eq hsbare).1.symm.trans (hid.trans (bare_eq htbare).1)
  · intro s' hs' t' ht' u hu hu' hlt
    obtain ⟨s, hs, hsbare⟩ := hback s' hs'
    obtain ⟨t, ht, htbare⟩ := hback t' ht'
    refine h.faithful.not_shadowed s hs t ht u (huri hsbare u ▸ hu) (hurl htbare u ▸ hu') ?_
    exact (bare_eq htbare).1.trans_lt (hlt.trans_eq (bare_eq hsbare).1.symm)
  · intro s' hs' u hu
    obtain ⟨s, hs, hsbare⟩ := hback s' hs'
    rcases h.hosted s hs u (hurl hsbare u ▸ hu) with hhome | ⟨older, holder, hlt, hknown⟩
    · refine .inl ?_
      rwa [AtHome, ← (bare_eq hsbare).2.1]
    · obtain ⟨older', holder', hbare⟩ := hforth older holder
      refine .inr ⟨older', holder', ?_, ?_⟩
      · exact (bare_eq hbare).1.trans_lt (hlt.trans_eq (bare_eq hsbare).1)
      · rwa [knownAs_iff, huri hbare, hurl hbare, ← knownAs_iff]

theorem WellNamed.insert {row : Status} (h : WellNamed env accounts base rows)
    (hcomposed : Composed env accounts row)
    (hclear : Clear Status.id (fun status uri => hasUri accounts base uri status = true)
      (fun status uri => hasUrl accounts uri status = true) rows row)
    (hhosted : ∀ uri, hasUrl accounts uri row → AtHome env accounts uri row ∨
      ∃ older ∈ rows, older.id < row.id ∧ knownAs accounts base uri older) :
    WellNamed env accounts base (rows ++ [row]) where
  composed := by
    intro status hmem
    rcases List.mem_append.mp hmem with hold | hnew
    · exact h.composed status hold
    · exact List.mem_singleton.mp hnew ▸ hcomposed
  faithful := h.faithful.insert hclear
  hosted := by
    intro status hmem uri hurl
    have holder : AtHome env accounts uri status ∨
        ∃ older ∈ rows, older.id < status.id ∧ knownAs accounts base uri older := by
      rcases List.mem_append.mp hmem with hold | hnew
      · exact h.hosted status hold uri hurl
      · obtain rfl := List.mem_singleton.mp hnew
        exact hhosted uri hurl
    exact holder.imp_right fun ⟨older, hrow, hrest⟩ =>
      ⟨older, List.mem_append_left _ hrow, hrest⟩

/-! ### The URIs of statuses of this server -/

theorem localStatusUris_segment {author : Account} (horiginal : status.reblogOfId = none)
    (h : uri ∈ localStatusUris base author status) :
    ∃ path, uri.toList = path ++ '/' :: (toString status.id).toList := by
  have hsegment : ∀ path : String, ∃ before,
      (path ++ "/" ++ toString status.id ++ "").toList = before ++ '/' :: (toString status.id).toList :=
    fun path => ⟨path.toList, by simp [String.toList_append]⟩
  have hactor : "/actor/statuses/" = "/actor/statuses" ++ "/" := rfl
  have hstatuses : "/statuses/" = "/statuses" ++ "/" := rfl
  simp only [localStatusUris, horiginal, Option.isNone_none, if_true, hactor, hstatuses,
    ← String.append_assoc, List.mem_cons, List.not_mem_nil, or_false] at h
  rcases h with rfl | rfl | rfl | rfl
  all_goals exact hsegment _

/-- No two statuses of this server are given the same URI. -/
theorem localStatusUris_unique {author other : Account} {status' : Status}
    (horiginal : status.reblogOfId = none) (horiginal' : status'.reblogOfId = none)
    (h : uri ∈ localStatusUris base author status) (h' : uri ∈ localStatusUris base other status') :
    status.id = status'.id := by
  obtain ⟨path, hpath⟩ := localStatusUris_segment horiginal h
  obtain ⟨path', hpath'⟩ := localStatusUris_segment horiginal' h'
  have hslash : ∀ z : ℤ, '/' ∉ (toString z).toList := not_mem_toString (by decide) (by decide)
  have hlast := last_segment_inj (hslash status.id) (hslash status'.id) (hpath.symm.trans hpath')
  exact toString_inj (String.toList_inj.mp hlast)

theorem hasUri_iff {author : Account} (hauthor : accountById accounts status.accountId = some author) :
    hasUri accounts base uri status ↔ status.deletedAt = none ∧
      (status.uri = some uri ∨
        author.domain = none ∧ uri ∈ localStatusUris base author status) := by
  rw [hasUri, hauthor]
  simp

theorem hasUrl_iff {author : Account} (hauthor : accountById accounts status.accountId = some author) :
    hasUrl accounts uri status ↔ status.deletedAt = none ∧ status.url = some uri := by
  rw [hasUrl, hauthor]
  simp

/-- The URI of a note is the one that is stored. -/
theorem Composed.uri_of_remote {author : Account} (h : Composed env accounts status)
    (hauthor : accountById accounts status.accountId = some author) (hremote : author.domain.isSome)
    (huri : hasUri accounts base uri status) : status.uri = some uri := by
  rcases ((hasUri_iff hauthor).mp huri).2 with hstored | ⟨hlocal, -⟩
  · exact hstored
  · simp [hlocal] at hremote

/-- The URIs of a status of this server are those that it is given. -/
theorem Composed.uri_of_local {author : Account} (h : Composed env accounts status)
    (hauthor : accountById accounts status.accountId = some author) (hlocal : author.domain = none)
    (huri : hasUri accounts base uri status) : uri ∈ localStatusUris base author status := by
  rcases ((hasUri_iff hauthor).mp huri).2 with hstored | ⟨-, hgiven⟩
  · simp [(h.ofLocal author hauthor hlocal).1] at hstored
  · exact hgiven

theorem Composed.hasUrl_remote {author : Account} (h : Composed env accounts status)
    (hauthor : accountById accounts status.accountId = some author)
    (hurl : hasUrl accounts uri status) : author.domain.isSome := by
  by_contra hlocal
  have hnone := (h.ofLocal author hauthor (by simpa using hlocal)).2
  exact absurd ((hasUrl_iff hauthor).mp hurl).2 (by simp [hnone])

/-! ### New statuses -/

theorem remoteNoteStatus_none {store : NoteStore} {atomUri : Option String}
    (h : remoteNoteStatus store uri atomUri = none) (hmem : status ∈ store.statuses.rows) :
    status.uri ≠ some uri := by
  intro huri
  have hother := first_eq_none Status.id h hmem
  simp [huri] at hother

theorem WellNamed.note {store : NoteStore} {drawn : Drawn} {accountId : ℤ} {actorUri : String}
    {note : RemoteNoteData} {account : Account}
    (h : WellNamed env store.accounts (trimEndSlashes origin) store.statuses.rows)
    (hadmits : Admits env store accountId actorUri note account)
    (hclear : NoteClear env origin store drawn note account) :
    WellNamed env store.accounts (trimEndSlashes origin)
      (store.statuses.rows ++ [noteRow drawn.newStatusId accountId note]) := by
  obtain ⟨hknown, hremote, rfl, hhost, hfresh⟩ := hadmits
  obtain ⟨hurl, huri⟩ := hclear
  have hauthor : accountById store.accounts (noteRow drawn.newStatusId accountId note).accountId =
      some account := hknown
  have hcomposed : Composed env store.accounts (noteRow drawn.newStatusId accountId note) := by
    refine ⟨rfl, rfl, ⟨account, hauthor⟩, ?_, ?_⟩
    · intro author heq hlocal
      obtain rfl := Option.some.inj (hauthor.symm.trans heq)
      simp [hlocal] at hremote
    · intro author heq _
      obtain rfl := Option.some.inj (hauthor.symm.trans heq)
      exact ⟨note.uri, rfl, hhost⟩
  have hown : ∀ {uri}, hasUri store.accounts (trimEndSlashes origin) uri
      (noteRow drawn.newStatusId accountId note) → uri = note.uri := by
    intro uri hhas
    exact (Option.some.inj (hcomposed.uri_of_remote hauthor hremote hhas)).symm
  -- Nobody has the URI of a note that is not there yet.
  have hfree : ∀ other ∈ store.statuses.rows,
      ¬ hasUri store.accounts (trimEndSlashes origin) note.uri other := by
    intro other hmem hhas
    exact remoteNoteStatus_none hfresh hmem ((huri other hmem).2 hhas)
  have hpage : ∀ {uri}, hasUrl store.accounts uri (noteRow drawn.newStatusId accountId note) →
      note.url = some uri ∨ uri = note.uri := by
    intro uri hhas
    have hstored : note.url.or (some note.uri) = some uri := ((hasUrl_iff hauthor).mp hhas).2
    cases hdeclared : note.url with
    | some url =>
      rw [hdeclared] at hstored
      exact .inl hstored
    | none =>
      rw [hdeclared] at hstored
      exact .inr (Option.some.inj hstored).symm
  have hathome : ∀ {uri}, sameRemoteNoteHost env account.uri uri = .ok true →
      AtHome env store.accounts uri (noteRow drawn.newStatusId accountId note) := by
    intro uri hsame author heq _
    obtain rfl := Option.some.inj (hauthor.symm.trans heq)
    exact hsame
  refine h.insert hcomposed ⟨?_, ?_, ?_⟩ ?_
  · intro other hmem uri hhas hnew
    exact absurd (hown hnew ▸ hhas) (hfree other hmem)
  · intro other hmem uri hhas hnew hlt
    rcases hpage hnew with hdeclared | rfl
    · simp [(hurl uri hdeclared).2 other hmem hlt] at hhas
    · exact hfree other hmem hhas
  · intro other hmem uri hnew hhas hlt
    have hnone := (huri other hmem).1 hlt
    rw [← hown hnew, hhas] at hnone
    cases hnone
  · intro uri hhas
    rcases hpage hhas with hdeclared | rfl
    · exact (hurl uri hdeclared).1.imp_left hathome
    · exact .inl (hathome hhost)

theorem WellNamed.local {store : NoteStore} {drawn : Drawn} {draft : LocalStatus} {author : Account}
    (h : WellNamed env store.accounts (trimEndSlashes origin) store.statuses.rows)
    (hknown : accountById store.accounts draft.accountId = some author) (hlocal : author.domain = none)
    (hclear : LocalClear origin store drawn draft author) :
    WellNamed env store.accounts (trimEndSlashes origin)
      (store.statuses.rows ++ [localStatusRow drawn draft]) := by
  have hauthor : accountById store.accounts (localStatusRow drawn draft).accountId = some author :=
    hknown
  have hcomposed : Composed env store.accounts (localStatusRow drawn draft) := by
    refine ⟨rfl, rfl, ⟨author, hauthor⟩, fun _ _ _ => ⟨rfl, rfl⟩, ?_⟩
    intro other heq hremote
    obtain rfl := Option.some.inj (hauthor.symm.trans heq)
    simp [hlocal] at hremote
  have hpage : ∀ {uri}, ¬ hasUrl store.accounts uri (localStatusRow drawn draft) := by
    intro uri hhas
    have hremote := hcomposed.hasUrl_remote hauthor hhas
    simp [hlocal] at hremote
  refine h.insert hcomposed ⟨?_, ?_, ?_⟩ ?_
  · intro other hmem uri hhas hnew
    have hgiven := hcomposed.uri_of_local hauthor hlocal hnew
    obtain ⟨writer, hwriter⟩ := (h.composed other hmem).authored
    rcases ((hasUri_iff hwriter).mp hhas).2 with hstored | ⟨-, hgiven'⟩
    · exact absurd hstored (hclear uri hgiven other hmem).1
    · exact localStatusUris_unique (h.composed other hmem).original rfl hgiven' hgiven
  · exact fun _ _ _ _ hnew => absurd hnew hpage
  · intro other hmem uri hnew hhas hlt
    have hnone := (hclear uri (hcomposed.uri_of_local hauthor hlocal hnew) other hmem).2 hlt
    rw [hhas] at hnone
    cases hnone
  · exact fun uri hnew => absurd hnew hpage

/-- The state keeps the names apart. -/
def Sound (env : Env) (origin : String) (store : NoteStore) : Prop :=
  WellNamed env store.accounts (trimEndSlashes origin) store.statuses.rows

theorem Sound.kept {store store' : NoteStore} (h : Sound env origin store) (hkept : Kept store store') :
    Sound env origin store' := by
  rw [Sound, hkept.accounts]
  exact h.of_bare hkept.rows

theorem Sound.added {store store' : NoteStore} {row : Status}
    (h : WellNamed env store.accounts (trimEndSlashes origin) (store.statuses.rows ++ [row]))
    (hadded : Added row store store') : Sound env origin store' := by
  rw [Sound, hadded.accounts]
  exact h.of_bare hadded.rows

/-- What one change does to the names. -/
theorem Sound.change {store : NoteStore} (h : Sound env origin store) (change : Change)
    (hclear : change.Clear env origin store) : Sound env origin (change.after env origin store) := by
  rw [Change.after]
  cases hwritten : change.written env origin store with
  | error e => exact h
  | ok store' =>
    cases change with
    | create drawn accountId actorUri note quoteGuard =>
      obtain ⟨⟨_, statusId⟩, hcreate, rfl⟩ := map_eq_ok hwritten
      rcases applyRemoteNoteCreate_names hcreate with hkept | ⟨account, hadmits, hadded⟩
      · exact h.kept hkept
      · exact Sound.added (h.note hadmits (hclear account hadmits)) hadded
    | update drawn revision accountId actorUri note =>
      obtain ⟨⟨_, statusId⟩, hupdate, rfl⟩ := map_eq_ok hwritten
      rcases applyRemoteNoteUpdate_names hupdate with hkept | ⟨hyoung, account, hadmits, hadded⟩
      · exact h.kept hkept
      · exact Sound.added (h.note hadmits (hclear hyoung account hadmits)) hadded
    | publish drawn draft =>
      obtain ⟨author, hknown, hlocal, hadded⟩ := createStatus_names hwritten
      exact Sound.added (h.local hknown hlocal (hclear author hknown hlocal)) hadded

/-- No change touches an account. -/
theorem Change.after_accounts (env : Env) (origin : String) (store : NoteStore) (change : Change) :
    (change.after env origin store).accounts = store.accounts := by
  rw [Change.after]
  cases hwritten : change.written env origin store with
  | error e => rfl
  | ok store' =>
    cases change with
    | create drawn accountId actorUri note quoteGuard =>
      obtain ⟨⟨_, statusId⟩, hcreate, rfl⟩ := map_eq_ok hwritten
      rcases applyRemoteNoteCreate_names hcreate with hkept | ⟨_, _, hadded⟩
      · exact hkept.accounts
      · exact hadded.accounts
    | update drawn revision accountId actorUri note =>
      obtain ⟨⟨_, statusId⟩, hupdate, rfl⟩ := map_eq_ok hwritten
      rcases applyRemoteNoteUpdate_names hupdate with hkept | ⟨_, _, _, hadded⟩
      · exact hkept.accounts
      · exact hadded.accounts
    | publish drawn draft =>
      obtain ⟨_, _, _, hadded⟩ := createStatus_names hwritten
      exact hadded.accounts

end Rustodon.Ingest
