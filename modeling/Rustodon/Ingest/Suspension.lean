import Rustodon.Ingest.Accounts

/-! @src mastodon/write_repository/remote_ingest.rs | name:Suspension authority | scheme:labelled runs |
    family:ingest

    A suspension that the server of an account has not imposed is kept by every document, but for one:
    a resolved actor that is suspended makes a remote suspension of any that is not local, which a later
    document lifts. -/

namespace Rustodon.Ingest
open Schemes.Checked Schemes.Json Schemes.Runs
open Remote (RemoteActor canonicalRemoteDomainFromUrl)

/-! ### Lookups -/

theorem accountById_update (store : Store) (id id' : ℤ) {f : Account → Account}
    (hid : ∀ account, (f account).id = account.id) :
    accountById (updateAccount store id f hid) id' =
      (accountById store id').map fun account => if id' = id then f account else account := by
  rw [accountById, updateAccount, List.find?_map, accountById]
  have hsame : ((fun account : Account => decide (account.id = id')) ∘
      fun account => if account.id = id then f account else account) =
        fun account => decide (account.id = id') := by
    funext account
    rw [Function.comp_apply]
    split_ifs
    · rw [hid]
    · rfl
  rw [hsame]
  cases hfind : store.rows.find? fun account => decide (account.id = id') with
  | none => rfl
  | some account =>
    have haccount : account.id = id' := by simpa using List.find?_some hfind
    rw [Option.map_some, Option.map_some, haccount]

theorem accountById_insert {store : Store} {account : Account}
    (h : accountById store account.id = none) (id : ℤ) :
    accountById (insertAccount store account h) id =
      (accountById store id).or (if account.id = id then some account else none) := by
  rw [accountById, insertAccount, List.find?_append, accountById]
  congr 1
  by_cases hid : account.id = id <;> simp [hid]

/-- The row of a URI is that of its id. -/
theorem accountById_of_uri {store : Store} {uri : String} {account : Account}
    (h : accountByUri store uri = some account) : accountById store account.id = some account := by
  have hmem := List.mem_of_find?_eq_some h
  cases hfind : accountById store account.id with
  | none => exact absurd (List.mem_map_of_mem hmem) (not_mem_ids hfind)
  | some other =>
    have hother : other.id = account.id := by simpa using List.find?_some hfind
    rw [List.inj_on_of_nodup_map store.ids_nodup (List.mem_of_find?_eq_some hfind) hmem hother]

/-! ### Authority -/

/-- Suspended, but not by the server of the account. -/
structure Moderated (account : Account) : Prop where
  suspended : account.suspendedAt.isSome = true
  origin : account.suspensionOrigin ≠ some 1

/-- The suspension of a moderated account stays what it is. -/
def Upholds (account account' : Account) : Prop :=
  Moderated account → Moderated account' ∧ account'.suspendedAt = account.suspendedAt

theorem Upholds.refl (account : Account) : Upholds account account := fun h => ⟨h, rfl⟩

/-- All suspensions of moderated accounts stay what they are. -/
def Keeps (store store' : Store) : Prop :=
  ∀ id account, accountById store id = some account →
    ∃ account', accountById store' id = some account' ∧ Upholds account account'

theorem Keeps.refl (store : Store) : Keeps store store :=
  fun _ account h => ⟨account, h, Upholds.refl account⟩

theorem Keeps.trans {store store' store'' : Store} (h : Keeps store store') (h' : Keeps store' store'') :
    Keeps store store'' := by
  intro id account haccount
  obtain ⟨account', haccount', hkept⟩ := h id account haccount
  obtain ⟨account'', haccount'', hkept'⟩ := h' id account' haccount'
  refine ⟨account'', haccount'', fun hmoderated => ?_⟩
  obtain ⟨hmoderated', hat⟩ := hkept hmoderated
  obtain ⟨hmoderated'', hat'⟩ := hkept' hmoderated'
  exact ⟨hmoderated'', hat'.trans hat⟩

theorem keeps_update {store : Store} {id : ℤ} {f : Account → Account}
    (hid : ∀ account, (f account).id = account.id)
    (h : ∀ account, accountById store id = some account → Upholds account (f account)) :
    Keeps store (updateAccount store id f hid) := by
  intro id' account haccount
  rw [accountById_update, haccount]
  refine ⟨_, rfl, ?_⟩
  change Upholds account (if id' = id then f account else account)
  by_cases hsame : id' = id
  · rw [if_pos hsame]
    exact h account (hsame ▸ haccount)
  · rw [if_neg hsame]
    exact Upholds.refl account

/-- Only a suspended actor can change a suspension that is neither local nor remote. -/
theorem upholds_withRemoteSuspension {now : ℤ} {suspended : Bool} {account : Account}
    (h : suspended = true → Moderated account → account.suspensionOrigin = some 0) :
    Upholds account (withRemoteSuspension now suspended account) := by
  rintro ⟨hsuspended, horigin⟩
  obtain ⟨at_, hat⟩ := Option.isSome_iff_exists.mp hsuspended
  cases suspended with
  | false =>
    refine ⟨⟨?_, ?_⟩, ?_⟩ <;> simp [withRemoteSuspension, horigin, hat]
  | true =>
    have hlocal := h rfl ⟨hsuspended, horigin⟩
    refine ⟨⟨?_, ?_⟩, ?_⟩ <;> simp [withRemoteSuspension, hlocal, hat]

theorem moderated_of_same {account account' : Account} (hat : account'.suspendedAt = account.suspendedAt)
    (horigin : account'.suspensionOrigin = account.suspensionOrigin) : Upholds account account' := by
  rintro ⟨hsuspended, hremote⟩
  exact ⟨⟨hat ▸ hsuspended, horigin ▸ hremote⟩, hat⟩

theorem upholds_tombstone (now : ℤ) (account : Account) : Upholds account (tombstone now account) := by
  rintro ⟨hsuspended, -⟩
  obtain ⟨at_, hat⟩ := Option.isSome_iff_exists.mp hsuspended
  refine ⟨⟨?_, ?_⟩, ?_⟩ <;> simp [tombstone, hat]

/-! ### Documents -/

variable (env : Env)

inductive Document where
  | upsert (at_ : Surroundings) (username domain : String) (actor : RemoteActor)
  | refresh (at_ : Surroundings) (accountId : ℤ) (username domain : String) (actor : RemoteActor)
  | update (now accountId : ℤ) (actorUri : String) (object : Value)
  | delete (now accountId : ℤ) (actorUri : String) (expectedSuspendedAt : Option ℤ)

def Document.write (store : Store) : Document → Written Store
  | upsert at_ username domain actor =>
    (upsertRemoteActor env at_ store username domain actor).map Prod.fst
  | refresh at_ accountId username domain actor =>
    (refreshRemoteActor env at_ store accountId username domain actor).map Prod.fst
  | update now accountId actorUri object => applyRemoteActorUpdate env now store accountId actorUri object
  | delete now accountId actorUri expectedSuspendedAt =>
    applyRemoteActorDelete now store accountId actorUri expectedSuspendedAt

/-- A transaction that fails is rolled back. -/
def Document.apply (store : Store) (document : Document) : Store :=
  match document.write env store with
  | .ok store => store
  | .error _ => store

/-- The actor that is written into the row of its URI. -/
def Document.actor : Document → Option RemoteActor
  | upsert _ _ _ actor => some actor
  | refresh _ _ _ _ actor => some actor
  | _ => none

/-- No suspended actor is resolved whose row has a suspension that is neither local nor remote. -/
def Document.Safe (store : Store) (document : Document) : Prop :=
  ∀ actor, document.actor = some actor → actor.suspended = true →
    ∀ account, accountByUri store (env.asStr actor.id) = some account → Moderated account →
      account.suspensionOrigin = some 0

theorem insertRemoteActor_new {store : Store} {newId : ℤ} {username domain uri : String}
    (profileUrl : String) (hid : accountById store newId = none)
    (hhandle : accountByHandle env store username domain = none) (actor : RemoteActor) :
    insertRemoteActor env store newId username domain uri profileUrl actor =
      some (insertAccount store (newAccount env newId username domain uri profileUrl actor) hid) :=
  dif_pos ⟨hid, hhandle⟩

theorem insertRemoteActor_taken {store : Store} {newId : ℤ} {username domain uri : String}
    (profileUrl : String) (hid : accountById store newId ≠ none) (actor : RemoteActor) :
    insertRemoteActor env store newId username domain uri profileUrl actor = none :=
  dif_neg fun h => hid h.1

/-- A resolved actor goes into the row of its URI, or into a new one. -/
theorem upsertRemoteActorLocked_ok {at_ : Surroundings} {store store' : Store}
    {username domain : String} {actor : RemoteActor} {existingId : Option ℤ} {id : ℤ}
    (h : upsertRemoteActorLocked env at_ store username domain actor existingId = .ok (store', id)) :
    ∃ base profileUrl, store' = updateAccount (updateAccount base id
        (withActor env username domain (env.asStr actor.id) profileUrl actor existingId.isSome)
        (withActor_id env username domain (env.asStr actor.id) profileUrl actor existingId.isSome))
        id (withRemoteSuspension at_.now actor.suspended)
        (withRemoteSuspension_id at_.now actor.suspended) ∧
      ((base = store ∧ ∃ account, accountByUri store (env.asStr actor.id) = some account ∧ account.id = id) ∨
        accountByUri store (env.asStr actor.id) = none ∧ ∃ account,
          ∃ hnew : accountById store account.id = none, base = insertAccount store account hnew ∧
            account.id = id) := by
  obtain ⟨actorHost, -, h⟩ := bind_eq_ok h
  obtain ⟨u, -, h⟩ := bind_eq_ok h
  obtain ⟨u', -, h⟩ := bind_eq_ok h
  obtain ⟨accountId, hid, h⟩ := bind_eq_ok h
  obtain ⟨rfl, rfl⟩ := Prod.mk.inj (Except.ok.inj h)
  cases huri : accountByUri store (env.asStr actor.id) with
  | some account =>
    simp only [huri, Option.map_some, Option.isNone_some, Bool.false_and, Bool.and_false,
      Bool.false_eq_true, if_false, Option.map_none] at hid ⊢
    refine ⟨store, _, rfl, .inl ⟨rfl, account, rfl, ?_⟩⟩
    rw [remoteActorAccountId] at hid
    split_ifs at hid
    exact Except.ok.inj hid
  | none =>
    cases hhandle : accountByHandle env store username domain with
    | some handle =>
      simp only [huri, hhandle, remoteActorAccountId] at hid
      cases hid
    | none =>
      by_cases hnew : accountById store at_.newId = none
      · simp only [huri, hhandle, insertRemoteActor_new env _ hnew hhandle, Option.map_none,
          Option.isNone_none, Option.isNone_some, Bool.and_self, Bool.false_and, Bool.false_eq_true,
          if_true, if_false, Option.map_some, Option.getD_some] at hid ⊢
        refine ⟨_, _, rfl, .inr ⟨trivial, _, hnew, rfl, ?_⟩⟩
        exact Except.ok.inj hid
      · simp only [huri, hhandle, insertRemoteActor_taken env _ hnew, Option.map_none,
          Option.isNone_none, Bool.and_self, if_true, Option.getD_none] at hid
        cases hid

theorem keeps_upsert {at_ : Surroundings} {store store' : Store} {username domain : String}
    {actor : RemoteActor} {existingId : Option ℤ} {id : ℤ}
    (hsafe : actor.suspended = true → ∀ account,
      accountByUri store (env.asStr actor.id) = some account → Moderated account →
        account.suspensionOrigin = some 0)
    (h : upsertRemoteActorLocked env at_ store username domain actor existingId = .ok (store', id)) :
    Keeps store store' := by
  obtain ⟨base, profileUrl, rfl, hbase⟩ := upsertRemoteActorLocked_ok env h
  rcases hbase with ⟨rfl, account, huri, rfl⟩ | ⟨-, account, hnew, rfl, rfl⟩
  · refine (keeps_update (withActor_id env _ _ _ _ _ _) fun other _ => moderated_of_same rfl rfl).trans
      (keeps_update (withRemoteSuspension_id _ _) fun other hother =>
        upholds_withRemoteSuspension fun hsuspended hmoderated => ?_)
    rw [accountById_update, accountById_of_uri huri, Option.map_some, if_pos rfl] at hother
    obtain rfl := Option.some.inj hother
    exact hsafe hsuspended account huri ⟨hmoderated.suspended, hmoderated.origin⟩
  · -- the row is new, so that no account that has been there is written
    intro id' account' haccount'
    have hne : id' ≠ account.id := by
      rintro rfl
      rw [hnew] at haccount'
      cases haccount'
    rw [accountById_update, accountById_update, accountById_insert, haccount']
    refine ⟨account', ?_, Upholds.refl account'⟩
    rw [Option.some_or, Option.map_some, Option.map_some, if_neg hne, if_neg hne]

theorem keeps_write {store store' : Store} {document : Document} (hsafe : document.Safe env store)
    (h : document.write env store = .ok store') : Keeps store store' := by
  cases document with
  | upsert at_ username domain actor =>
    obtain ⟨⟨_, id⟩, hupsert, rfl⟩ := map_eq_ok h
    obtain ⟨u, -, hlocked⟩ := bind_eq_ok hupsert
    exact keeps_upsert env (hsafe actor rfl) hlocked
  | refresh at_ accountId username domain actor =>
    obtain ⟨⟨_, id⟩, hrefresh, rfl⟩ := map_eq_ok h
    obtain ⟨u, -, hlocked⟩ := bind_eq_ok hrefresh
    exact keeps_upsert env (hsafe actor rfl) hlocked
  | update now accountId actorUri object =>
    obtain ⟨update, -, h⟩ := bind_eq_ok h
    split at h
    · rw [← Except.ok.inj h]
      exact Keeps.refl store
    · next account haccount =>
      split at h
      · rw [← Except.ok.inj h]
        exact Keeps.refl store
      · next hguard =>
        split at h
        · cases h
        · rw [← Except.ok.inj h]
          -- what is not guarded against is no moderated account
          have hnot : ¬ Moderated account :=
            fun hmoderated => hguard (.inr (.inr (.inr ⟨hmoderated.suspended, hmoderated.origin⟩)))
          refine (keeps_update (withUpdate_id update) fun other _ => moderated_of_same rfl rfl).trans
            (keeps_update (withRemoteSuspension_id _ _) fun other hother hmoderated => ?_)
          rw [accountById_update, haccount, Option.map_some, if_pos rfl] at hother
          obtain rfl := Option.some.inj hother
          exact absurd ⟨hmoderated.suspended, hmoderated.origin⟩ hnot
  | delete now accountId actorUri expectedSuspendedAt =>
    rw [Document.write, applyRemoteActorDelete] at h
    split at h
    · rw [← Except.ok.inj h]
      exact Keeps.refl store
    · split at h
      · rw [← Except.ok.inj h]
        exact Keeps.refl store
      · rw [← Except.ok.inj h]
        exact keeps_update (tombstone_id now) fun other _ => upholds_tombstone now other

/-- A suspended actor makes a remote suspension of one that is neither local nor remote. -/
theorem not_keeps_upsert {at_ : Surroundings} {store store' : Store} {username domain : String}
    {actor : RemoteActor} {existingId : Option ℤ} {id : ℤ} {account : Account}
    (hsuspended : actor.suspended = true) (huri : accountByUri store (env.asStr actor.id) = some account)
    (hmoderated : Moderated account) (horigin : account.suspensionOrigin ≠ some 0)
    (h : upsertRemoteActorLocked env at_ store username domain actor existingId = .ok (store', id)) :
    ¬ Keeps store store' := by
  intro hkeeps
  obtain ⟨base, profileUrl, rfl, hbase⟩ := upsertRemoteActorLocked_ok env h
  rcases hbase with ⟨rfl, account', huri', rfl⟩ | ⟨hnone, -⟩
  · obtain rfl : account' = account := Option.some.inj (huri'.symm.trans huri)
    obtain ⟨account'', haccount'', hkept⟩ := hkeeps _ _ (accountById_of_uri huri)
    rw [accountById_update, accountById_update, accountById_of_uri huri, Option.map_some, Option.map_some,
      if_pos rfl, if_pos rfl] at haccount''
    rw [← Option.some.inj haccount''] at hkept
    exact (hkept hmoderated).1.origin (if_pos ⟨hsuspended, horigin⟩)
  · rw [hnone] at huri
    cases huri

theorem not_keeps_write {store store' : Store} {document : Document} (hlifts : ¬ document.Safe env store)
    (h : document.write env store = .ok store') : ¬ Keeps store store' := by
  rw [Document.Safe] at hlifts
  push Not at hlifts
  obtain ⟨actor, hactor, hsuspended, account, huri, hmoderated, horigin⟩ := hlifts
  cases document with
  | upsert at_ username domain actor' =>
    obtain rfl := Option.some.inj hactor
    obtain ⟨⟨_, id⟩, hupsert, rfl⟩ := map_eq_ok h
    obtain ⟨u, -, hlocked⟩ := bind_eq_ok hupsert
    exact not_keeps_upsert env hsuspended huri hmoderated horigin hlocked
  | refresh at_ accountId username domain actor' =>
    obtain rfl := Option.some.inj hactor
    obtain ⟨⟨_, id⟩, hrefresh, rfl⟩ := map_eq_ok h
    obtain ⟨u, -, hlocked⟩ := bind_eq_ok hrefresh
    exact not_keeps_upsert env hsuspended huri hmoderated horigin hlocked
  | update now accountId actorUri object => cases hactor
  | delete now accountId actorUri expectedSuspendedAt => cases hactor

/-- The run of documents from a store. -/
def DocumentStep (store : Store) (document : Document) (store' : Store) : Prop :=
  store' = document.apply env store

/-- CORRECT (suspension authority): as long as no suspended actor is resolved for an account with a
    suspension that is neither local nor remote, no suspension that the server has not imposed is lifted
    or becomes a remote one; and such an actor makes it a remote one. -/
theorem suspension_authority (env : Env) :
    (∀ documents store store',
      Run (fun store document store' => document.Safe env store ∧ DocumentStep env store document store')
        store documents store' → Keeps store store') ∧
    ∀ (document : Document) (store store' : Store), document.write env store = .ok store' →
      (Keeps store store' ↔ document.Safe env store) := by
  refine ⟨fun documents store store' hrun => ?_, fun document store store' hwrite => ⟨?_, ?_⟩⟩
  · refine hrun.preserves (P := Keeps store) (fun s document t hkeeps hstep => ?_) (Keeps.refl store)
    obtain ⟨hsafe, rfl⟩ := hstep
    rw [Document.apply]
    split
    · next t hwrite => exact hkeeps.trans (keeps_write env hsafe hwrite)
    · exact hkeeps
  · intro hkeeps
    by_contra hlifts
    exact not_keeps_write env hlifts hwrite hkeeps
  · exact fun hsafe => keeps_write env hsafe hwrite

def sampleEnv : Env where
  inbox := ⟨fun _ => none, fun _ => none⟩
  asStr url := String.ofList (url.scheme ++ "://".toList ++ url.host.getD [] ++ url.path)
  lower := String.toLower

def sampleUrl (path : String) : Remote.Url :=
  ⟨"https".toList, [], none, some "remote.example".toList, none, path.toList, none, none⟩

def sampleActor (suspended : Bool) : RemoteActor where
  id := sampleUrl "/users/a"
  username := "a".toList
  domain := "remote.example".toList
  actorType := "Person".toList
  displayName := []
  note := []
  suspended := suspended
  profileUrl := none
  avatar := none
  header := none
  inbox := sampleUrl "/users/a/inbox"
  sharedInbox := none
  followers := none
  following := none
  publicKeys := []
  keySetComplete := true

/-- The row of an actor that has been deleted. -/
def sampleStore : Store where
  rows := [tombstone 5 (newAccount sampleEnv 1 "a" "remote.example" "https://remote.example/users/a"
    "https://remote.example/users/a" (sampleActor false))]
  ids_nodup := List.nodup_singleton _

def sampleDocument (suspended : Bool) : Document :=
  .upsert ⟨fun _ => true, 7, 2⟩ "a" "remote.example" (sampleActor suspended)

theorem suspension_authority_sample :
    Keeps sampleStore ((sampleDocument false).apply sampleEnv sampleStore) ∧
      ¬ Keeps sampleStore ((sampleDocument true).apply sampleEnv sampleStore) := by
  obtain ⟨hruns, hexact⟩ := suspension_authority sampleEnv
  constructor
  · have hsafe : (sampleDocument false).Safe sampleEnv sampleStore := by
      intro actor hactor hsuspended
      obtain rfl := Option.some.inj hactor
      cases hsuspended
    exact hruns [sampleDocument false] _ _ (.cons ⟨hsafe, rfl⟩ .nil)
  · intro hkeeps
    have hsome : ((sampleDocument true).write sampleEnv sampleStore).toOption.isSome = true := by
      with_unfolding_all decide
    cases hwrite : (sampleDocument true).write sampleEnv sampleStore with
    | error e =>
      rw [hwrite] at hsome
      cases hsome
    | ok store' =>
      simp only [Document.apply, hwrite] at hkeeps
      have hsafe := (hexact _ _ _ hwrite).mp hkeeps
      have huri : (accountByUri sampleStore (sampleEnv.asStr (sampleActor true).id)).isSome = true := by
        decide
      obtain ⟨account, haccount⟩ := Option.isSome_iff_exists.mp huri
      have hrow : account ∈ sampleStore.rows := List.mem_of_find?_eq_some haccount
      obtain rfl := List.mem_singleton.mp hrow
      have hlocal := hsafe _ rfl rfl _ haccount ⟨rfl, nofun⟩
      cases hlocal

/-- The account of a deleted actor is no longer suspended after two documents. -/
theorem suspension_lifted :
    (accountById sampleStore 1).map (fun account => (account.suspendedAt, account.suspensionOrigin)) =
        some (some 5, none) ∧
      (accountById ([sampleDocument true, sampleDocument false].foldl (Document.apply sampleEnv)
        sampleStore) 1).map (fun account => (account.suspendedAt, account.suspensionOrigin)) =
          some (none, none) := by
  with_unfolding_all decide

end Rustodon.Ingest
