import Rustodon.Ingest.Suspension
import Rustodon.Ingest.Notes
import Rustodon.Schemes.Climb

/-! @src mastodon/write_repository/remote_ingest.rs | name:Reply threads | scheme:climbs, tables |
    family:ingest

    Whether following `in_reply_to_id` ends. A new note is put below a status that is there before it,
    so it closes no circle. A late parent may itself be below the child: a call is refused only where
    the parent is the child. -/

namespace Rustodon.Ingest
open Schemes.Checked Schemes.Tables Schemes.Climb

/-- The status that a status replies to. -/
def parentOf (statuses : Statuses) (id : ℤ) : Option ℤ :=
  (statusById statuses id).bind Status.inReplyToId

/-- Following the parents of any status ends after finitely many steps. -/
def ThreadsEnd (store : NoteStore) : Prop := Acyclic (parentOf store.statuses)

/-! ### Parents -/

theorem parentOf_new {statuses : Statuses} {id : ℤ} (h : statusById statuses id = none) :
    parentOf statuses id = none := by
  rw [parentOf, h]
  rfl

theorem parentOf_of_status {statuses : Statuses} {id : ℤ} {status : Status}
    (h : statusById statuses id = some status) : parentOf statuses id = status.inReplyToId := by
  rw [parentOf, h]
  rfl

/-- Nobody replies to a status that is not there. -/
theorem parentOf_ne_new {statuses : Statuses} {id : ℤ} (h : statusById statuses id = none) (other : ℤ) :
    parentOf statuses other ≠ some id := by
  intro hparent
  obtain ⟨status, hstatus, hreply⟩ := Option.bind_eq_some_iff.mp hparent
  exact find_eq_none.mp h (statuses.parents_known status (mem_of_find hstatus) id hreply)

theorem parentOf_updateStatus (statuses : Statuses) (id : ℤ) {f : Status → Status}
    (hid : ∀ status, (f status).id = status.id)
    (hparent : ∀ status, (f status).inReplyToId = status.inReplyToId) :
    parentOf (updateStatus statuses id f hid hparent) = parentOf statuses := by
  funext other
  rw [parentOf, statusById, updateStatus, find_update hid, parentOf, statusById]
  cases find Status.id statuses.rows other with
  | none => rfl
  | some status =>
    rw [Option.map_some, Option.bind_some, Option.bind_some]
    split
    · exact hparent status
    · rfl

theorem parentOf_insertStatus {statuses : Statuses} {status : Status}
    (hnew : statusById statuses status.id = none)
    (hparent : ∀ parentId ∈ status.inReplyToId, parentId ∈ statuses.rows.map Status.id) :
    parentOf (insertStatus statuses status hnew hparent) =
      Function.update (parentOf statuses) status.id status.inReplyToId := by
  funext other
  rw [parentOf, statusById, insertStatus, find_append]
  by_cases hother : other = status.id
  · subst hother
    rw [statusById] at hnew
    rw [hnew, if_pos rfl, Function.update_self]
    rfl
  · rw [if_neg (Ne.symm hother), Option.or_none, Function.update_of_ne hother]
    rfl

theorem parentOf_linkStatus {statuses : Statuses} {now : ℤ} {parent child : Status}
    {carriedReplyAccountId : Option ℤ} {childId : ℤ} (hchild : statusById statuses childId = some child)
    (hparent : parent.id ∈ statuses.rows.map Status.id) :
    parentOf (linkStatus statuses now parent carriedReplyAccountId childId hparent) =
      Function.update (parentOf statuses) childId (some parent.id) := by
  funext other
  rw [parentOf, statusById, linkStatus, find_update (withParent_id now parent carriedReplyAccountId)]
  by_cases hother : other = childId
  · subst hother
    rw [statusById] at hchild
    rw [hchild, Function.update_self, Option.map_some, if_pos rfl]
    rfl
  · rw [Function.update_of_ne hother, parentOf, statusById]
    cases find Status.id statuses.rows other with
    | none => rfl
    | some status => rw [Option.map_some, if_neg hother]

theorem mem_of_firstStatus {statuses : Statuses} {p : Status → Bool} {status : Status}
    (h : firstStatus statuses p = some status) : status ∈ statuses.rows :=
  List.mem_of_mem_filter (List.argmin_mem h)

/-! ### New notes -/

/-- The state after a new note has been stored: one more status, below one that was there before. -/
structure Stored (statusId : ℤ) (store store' : NoteStore) : Prop where
  new : statusById store.statuses statusId = none
  parent : ∃ parentId : Option ℤ, (∀ id ∈ parentId, id ∈ store.statuses.rows.map Status.id) ∧
    parentOf store'.statuses = Function.update (parentOf store.statuses) statusId parentId

theorem insertRemoteNote_stored {store store' : NoteStore} {accountId statusId policy visibility : ℤ}
    {note : RemoteNoteData} {inReplyToId inReplyToAccountId conversationId : Option ℤ}
    (h : insertRemoteNote store accountId statusId note policy visibility inReplyToId
      inReplyToAccountId conversationId = .ok store') : Stored statusId store store' := by
  rw [insertRemoteNote] at h
  split at h
  · rename_i hrow
    obtain rfl := Except.ok.inj h
    exact ⟨hrow.1, inReplyToId, hrow.2, parentOf_insertStatus hrow.1 hrow.2⟩
  · cases h

theorem incrementReplyCount_statuses (store : NoteStore) (statusId : ℤ) :
    (incrementReplyCount store statusId).statuses = store.statuses := rfl

theorem countReply_statuses (store : NoteStore) (visibility : ℤ) (parentId : Option ℤ) :
    (countReply store visibility parentId).statuses = store.statuses := by
  cases parentId with
  | none => rfl
  | some parentId =>
    rw [countReply]
    split
    · exact incrementReplyCount_statuses store parentId
    · rfl

theorem recordThreadJob_statuses (store : NoteStore) (job : ThreadJob) :
    (recordThreadJob store job).statuses = store.statuses := by
  rw [recordThreadJob]
  split <;> rfl

theorem parentOf_settleRemoteNote (drawn : Drawn) (store : NoteStore) (accountId : ℤ)
    (note : RemoteNoteData) (visibility : ℤ) (parent : Option ℤ × Option ℤ × Option ℤ) :
    parentOf (settleRemoteNote drawn store accountId note visibility parent).statuses =
      parentOf store.statuses := by
  have hsettled : ∀ f hid hparent, parentOf (updateStatus (countReply store visibility parent.1).statuses
      drawn.newStatusId f hid hparent) = parentOf store.statuses := by
    intro f hid hparent
    rw [parentOf_updateStatus, countReply_statuses]
  rw [settleRemoteNote]
  split
  · rw [recordThreadJob_statuses]
    exact hsettled _ (withConversation_id _ _) (withConversation_parent _ _)
  · exact hsettled _ (withConversation_id _ _) (withConversation_parent _ _)

theorem storeRemoteNote_stored {drawn : Drawn} {store store' : NoteStore} {account : Account}
    {note : RemoteNoteData} {policy : ℤ} {origin : String}
    (h : storeRemoteNote drawn store account note policy origin = .ok store') :
    Stored drawn.newStatusId store store' := by
  rw [storeRemoteNote] at h
  obtain ⟨inserted, hinsert, rfl⟩ := map_eq_ok h
  obtain ⟨hnew, parentId, hparent, hstored⟩ := insertRemoteNote_stored hinsert
  exact ⟨hnew, parentId, hparent, (parentOf_settleRemoteNote ..).trans hstored⟩

/-- A new note leaves the state as it is or is stored. -/
theorem applyRemoteNoteCreate_cases {env : Env} {drawn : Drawn} {store store' : NoteStore}
    {accountId : ℤ} {actorUri : String} {note : RemoteNoteData} {origin : String}
    {quoteGuard : Option (NoteStore → Written Bool)} {statusId : Option ℤ}
    (h : applyRemoteNoteCreate env drawn store accountId actorUri note origin quoteGuard =
      .ok (store', statusId)) :
    store' = store ∨ Stored drawn.newStatusId store store' := by
  obtain ⟨admitted, -, h⟩ := bind_eq_ok h
  split at h
  · split at h
    · exact .inl (Prod.mk.inj (Except.ok.inj h)).1.symm
    · split at h
      · exact .inl (Prod.mk.inj (Except.ok.inj h)).1.symm
      · obtain ⟨policy, -, h⟩ := bind_eq_ok h
        obtain ⟨same, -, h⟩ := bind_eq_ok h
        obtain ⟨-, -, h⟩ := bind_eq_ok h
        split at h
        · exact .inl (Prod.mk.inj (Except.ok.inj h)).1.symm
        · split at h
          · split at h
            · cases h
            · exact .inl (Prod.mk.inj (Except.ok.inj h)).1.symm
          · obtain ⟨stored, hstore, h⟩ := bind_eq_ok h
            obtain ⟨rfl, -⟩ := Prod.mk.inj (Except.ok.inj h)
            exact .inr (storeRemoteNote_stored hstore)
  · exact .inl (Prod.mk.inj (Except.ok.inj h)).1.symm

/-- A stored note closes no circle. -/
theorem Stored.threadsEnd {statusId : ℤ} {store store' : NoteStore} (h : Stored statusId store store')
    (hends : ThreadsEnd store) : ThreadsEnd store' := by
  obtain ⟨hnew, parentId, hparent, hstored⟩ := h
  have hroot := parentOf_new hnew
  rw [ThreadsEnd, hstored]
  cases parentId with
  | none => rwa [← hroot, Function.update_eq_self]
  | some id =>
    refine Acyclic.insert hends hroot (parentOf_ne_new hnew) ?_
    rintro rfl
    exact find_eq_none.mp hnew (hparent id rfl)

/-! ### Late parents -/

/-- The call puts this child below this parent. -/
structure Links (env : Env) (store : NoteStore) (childStatusId : ℤ) (parentUri origin : String)
    (child parent : Status) : Prop where
  url : ∃ url, env.inbox.parseUrl parentUri = some url ∧
    (url.scheme = "http" ∨ url.scheme = "https") ∧ url.hostStr.isSome
  found : statusById store.statuses childStatusId = some child
  live : child.deletedAt = none
  root : child.inReplyToId = none
  known : threadParent store parentUri origin = some parent
  other : parent.id ≠ childStatusId

/-- A call leaves the state as it is or puts the child below its parent. -/
theorem resolveRemoteNoteThread_cases {env : Env} {now : ℤ} {store store' : NoteStore}
    {childStatusId : ℤ} {parentUri origin : String} {settled : Bool}
    (h : resolveRemoteNoteThread env now store childStatusId parentUri origin = .ok (store', settled)) :
    (store' = store ∧ ∀ child parent, ¬ Links env store childStatusId parentUri origin child parent) ∨
      ∃ child parent, Links env store childStatusId parentUri origin child parent ∧
        parentOf store'.statuses =
          Function.update (parentOf store.statuses) childStatusId (some parent.id) := by
  obtain ⟨url, hurl, h⟩ := bind_eq_ok h
  obtain ⟨_, hscheme, h⟩ := bind_eq_ok h
  split at h
  · rename_i hfound
    refine .inl ⟨(Prod.mk.inj (Except.ok.inj h)).1.symm, ?_⟩
    intro child parent hlinks
    exact absurd (hfound.symm.trans hlinks.found) (by simp)
  · rename_i child hfound
    split at h
    · rename_i hdone
      refine .inl ⟨(Prod.mk.inj (Except.ok.inj h)).1.symm, ?_⟩
      intro child' parent hlinks
      obtain rfl := Option.some.inj (hfound.symm.trans hlinks.found)
      simp [hlinks.live, hlinks.root] at hdone
    · rename_i hlive
      split at h
      · rename_i hunknown
        refine .inl ⟨(Prod.mk.inj (Except.ok.inj h)).1.symm, ?_⟩
        intro child' parent hlinks
        exact absurd (hunknown.symm.trans hlinks.known) (by simp)
      · rename_i parent hknown
        split at h
        · cases h
        · rename_i hother
          split at h
          · rename_i hmem
            obtain ⟨rfl, -⟩ := Prod.mk.inj (Except.ok.inj h)
            refine .inr ⟨child, parent, ⟨⟨url, okOr_eq_ok hurl, ?_⟩, hfound, ?_, ?_, hknown, hother⟩, ?_⟩
            · simpa [or_iff_not_imp_left] using failIf_eq_ok hscheme
            · simp_all
            · simp_all
            · rw [countReply_statuses]
              exact parentOf_linkStatus hfound hmem
          · cases h

/-- A call that puts a child below a parent is not refused. -/
theorem Links.resolves {env : Env} {store : NoteStore} {childStatusId : ℤ} {parentUri origin : String}
    {child parent : Status} (h : Links env store childStatusId parentUri origin child parent) (now : ℤ) :
    ∃ written, resolveRemoteNoteThread env now store childStatusId parentUri origin = .ok written := by
  obtain ⟨⟨url, hurl, hscheme, hhost⟩, hfound, hlive, hroot, hknown, hother⟩ := h
  have hmem : parent.id ∈ store.statuses.rows.map Status.id :=
    List.mem_map_of_mem (mem_of_firstStatus hknown)
  have hallowed : (!((url.scheme == "http" || url.scheme == "https") && url.hostStr.isSome)) = false := by
    rcases hscheme with hscheme | hscheme <;> simp [hscheme, hhost]
  rw [resolveRemoteNoteThread, hurl, okOr_some_bind, hallowed, failIf_false, ok_bind]
  simp [hfound, hlive, hroot, hknown, hother, hmem]

/-! ### Runs -/

inductive Operation where
  | create (drawn : Drawn) (accountId : ℤ) (actorUri : String) (note : RemoteNoteData)
      (origin : String) (quoteGuard : Option (NoteStore → Written Bool))
  | resolve (now childStatusId : ℤ) (parentUri origin : String)

def Operation.written (env : Env) (store : NoteStore) : Operation → Written NoteStore
  | .create drawn accountId actorUri note origin quoteGuard =>
    (applyRemoteNoteCreate env drawn store accountId actorUri note origin quoteGuard).map Prod.fst
  | .resolve now childStatusId parentUri origin =>
    (resolveRemoteNoteThread env now store childStatusId parentUri origin).map Prod.fst

/-- The state after an operation: one that fails is rolled back. -/
def Operation.after (env : Env) (store : NoteStore) (operation : Operation) : NoteStore :=
  match operation.written env store with
  | .ok store' => store'
  | .error _ => store

/-- The state that a sequence of operations comes to. -/
def reached (env : Env) (store : NoteStore) (operations : List Operation) : NoteStore :=
  operations.foldl (Operation.after env) store

/-- Does not put a status below one that is below it. -/
def Operation.Clear (env : Env) (store : NoteStore) : Operation → Prop
  | .create .. => True
  | .resolve _ childStatusId parentUri origin =>
    ∀ child parent, Links env store childStatusId parentUri origin child parent →
      ¬ Reaches (parentOf store.statuses) parent.id childStatusId

theorem threadsEnd_create {env : Env} {store : NoteStore} {drawn : Drawn} {accountId : ℤ}
    {actorUri : String} {note : RemoteNoteData} {origin : String}
    {quoteGuard : Option (NoteStore → Written Bool)} (h : ThreadsEnd store) :
    ThreadsEnd (Operation.after env store
      (.create drawn accountId actorUri note origin quoteGuard)) := by
  rw [Operation.after, Operation.written]
  cases hcreate : applyRemoteNoteCreate env drawn store accountId actorUri note origin quoteGuard with
  | error e => exact h
  | ok written =>
    rcases applyRemoteNoteCreate_cases hcreate with hsame | hstored
    · exact (congrArg ThreadsEnd hsame).mpr h
    · exact hstored.threadsEnd h

theorem threadsEnd_resolve {env : Env} {store : NoteStore} {now childStatusId : ℤ}
    {parentUri origin : String} (h : ThreadsEnd store) :
    ThreadsEnd (Operation.after env store (.resolve now childStatusId parentUri origin)) ↔
      ∀ child parent, Links env store childStatusId parentUri origin child parent →
        ¬ Reaches (parentOf store.statuses) parent.id childStatusId := by
  rw [Operation.after, Operation.written]
  cases hresolve : resolveRemoteNoteThread env now store childStatusId parentUri origin with
  | error e =>
    refine ⟨fun _ child parent hlinks => ?_, fun _ => h⟩
    obtain ⟨written, hwritten⟩ := hlinks.resolves now
    exact absurd (hresolve.symm.trans hwritten) (by simp)
  | ok written =>
    rcases resolveRemoteNoteThread_cases hresolve with ⟨hsame, hnone⟩ | ⟨child, parent, hlinks, hlinked⟩
    · exact ⟨fun _ child parent hlinks => absurd hlinks (hnone child parent),
        fun _ => (congrArg ThreadsEnd hsame).mpr h⟩
    · have hroot : parentOf store.statuses childStatusId = none :=
        (parentOf_of_status hlinks.found).trans hlinks.root
      change Acyclic (parentOf written.1.statuses) ↔ _
      rw [hlinked, acyclic_update_iff hroot]
      constructor
      · rintro ⟨-, hreaches⟩ child' parent' hlinks'
        obtain rfl := Option.some.inj (hlinks.known.symm.trans hlinks'.known)
        exact hreaches
      · exact fun hclear => ⟨h, hclear child parent hlinks⟩

/-- What one operation does to the threads. -/
theorem threadsEnd_after {env : Env} {store : NoteStore} (operation : Operation) (h : ThreadsEnd store) :
    ThreadsEnd (operation.after env store) ↔ operation.Clear env store := by
  cases operation with
  | create drawn accountId actorUri note origin quoteGuard =>
    exact ⟨fun _ => trivial, fun _ => threadsEnd_create h⟩
  | resolve now childStatusId parentUri origin => exact threadsEnd_resolve h

theorem reached_concat (env : Env) (store : NoteStore) (operations : List Operation)
    (operation : Operation) :
    reached env store (operations ++ [operation]) = operation.after env (reached env store operations) := by
  rw [reached, List.foldl_append]
  rfl

/-- CORRECT (reply threads): following parents ends in all states that a sequence of operations comes
    through when, and only when, none of its late parents is below its child. -/
theorem threads_end (env : Env) {store : NoteStore} (operations : List Operation)
    (h : ThreadsEnd store) :
    (∀ before, before <+: operations → ThreadsEnd (reached env store before)) ↔
      ∀ before operation, before ++ [operation] <+: operations →
        operation.Clear env (reached env store before) := by
  constructor
  · intro hends before operation hprefix
    have hbefore := hends before ((List.prefix_append before [operation]).trans hprefix)
    have hafter := hends (before ++ [operation]) hprefix
    rw [reached_concat] at hafter
    exact (threadsEnd_after operation hbefore).mp hafter
  · intro hclear before
    induction before using List.reverseRecOn with
    | nil => exact fun _ => h
    | append_singleton before operation ih =>
      intro hprefix
      have hbefore := ih ((List.prefix_append before [operation]).trans hprefix)
      rw [reached_concat]
      exact (threadsEnd_after operation hbefore).mpr (hclear before operation hprefix)

/-! ### Two servers -/

def threadEnv : Env where
  inbox := ⟨fun _ => none, fun uri =>
    if uri.startsWith "https://a.example/" then some ⟨"https", some "a.example"⟩
    else if uri.startsWith "https://b.example/" then some ⟨"https", some "b.example"⟩
    else none⟩
  asStr url := String.ofList (url.scheme ++ "://".toList ++ url.host.getD [] ++ url.path)
  lower := String.toLower

def threadAccount (id : ℤ) (host : String) : Account :=
  { newAccount threadEnv id "u" host ("https://" ++ host ++ "/u") ("https://" ++ host ++ "/u")
      (sampleActor false) with
    domain := some host
    uri := "https://" ++ host ++ "/u" }

/-- Two accounts that have written nothing. -/
def threadStore : NoteStore where
  accounts := ⟨[threadAccount 1 "a.example", threadAccount 2 "b.example"], by decide⟩
  statuses := ⟨[], List.nodup_nil, fun _ h => absurd h List.not_mem_nil⟩
  conversations := []
  tombstones := []
  repliesCount _ := 0
  threadJobs := []

def threadNote (uri : String) (inReplyToUri : Option String) : RemoteNoteData where
  uri
  atomUri := none
  url := none
  content := "<p>hello</p>"
  summary := ""
  language := none
  sensitive := false
  quoteApprovalPolicy _ _ := .ok 0
  publishedAt := 1
  updatedAt := 1
  editedAt := none
  inReplyToUri
  conversationUri := none
  audience := ⟨["as:Public"], []⟩

def threadCreate (statusId accountId : ℤ) (host : String) (inReplyToUri : Option String) : Operation :=
  .create ⟨2, statusId, statusId + 1, false⟩ accountId ("https://" ++ host ++ "/u")
    (threadNote ("https://" ++ host ++ "/1") inReplyToUri) "https://local.example" none

/-- A note that replies to one that is not known yet, that one, and the call that joins them. -/
def threadOperations (inReplyToUri : Option String) : List Operation :=
  [threadCreate 10 1 "a.example" (some "https://b.example/1"),
    threadCreate 20 2 "b.example" inReplyToUri,
    .resolve 3 10 "https://b.example/1" "https://local.example"]

theorem threadStore_ends : ThreadsEnd threadStore := fun _ => .root rfl

theorem threads_end_sample :
    ThreadsEnd (reached threadEnv threadStore (threadOperations none)) := by
  refine (threads_end threadEnv (threadOperations none) threadStore_ends).mpr ?_ _ (List.prefix_refl _)
  intro before operation hprefix
  match before, hprefix with
  | [], ⟨_, hrest⟩ =>
    obtain ⟨rfl, -⟩ := List.cons_eq_cons.mp hrest
    trivial
  | [_], ⟨_, hrest⟩ =>
    obtain ⟨-, hrest⟩ := List.cons_eq_cons.mp hrest
    obtain ⟨rfl, -⟩ := List.cons_eq_cons.mp hrest
    trivial
  | [_, _], ⟨_, hrest⟩ =>
    obtain ⟨rfl, hnext⟩ := List.cons_eq_cons.mp hrest
    obtain ⟨rfl, hlast⟩ := List.cons_eq_cons.mp hnext
    obtain ⟨rfl, -⟩ := List.cons_eq_cons.mp hlast
    intro child parent hlinks hreaches
    have hparent : (threadParent (reached threadEnv threadStore
        [threadCreate 10 1 "a.example" (some "https://b.example/1"),
          threadCreate 20 2 "b.example" none]) "https://b.example/1"
        "https://local.example").map Status.id = some 20 := by
      with_unfolding_all decide
    have hroot : parentOf (reached threadEnv threadStore
        [threadCreate 10 1 "a.example" (some "https://b.example/1"),
          threadCreate 20 2 "b.example" none]).statuses 20 = none := by
      with_unfolding_all decide
    have hid : parent.id = 20 := by
      rw [hlinks.known] at hparent
      exact Option.some.inj hparent
    rw [hid] at hreaches
    exact absurd ((reaches_root hroot).mp hreaches) (by decide)
  | _ :: _ :: _ :: _, ⟨_, hrest⟩ =>
    have hlength := congrArg List.length hrest
    simp [threadOperations] at hlength

/-- Two notes that reply to each other: the first waits for the second, which is put below it, and
    the call that was recorded for the first then puts it below the second. -/
theorem threads_circle :
    (reached threadEnv threadStore
        ((threadOperations (some "https://a.example/1")).take 2)).threadJobs =
          [⟨10, "https://b.example/1"⟩] ∧
      ThreadsEnd threadStore ∧
      ¬ ThreadsEnd (reached threadEnv threadStore (threadOperations (some "https://a.example/1"))) := by
  refine ⟨by with_unfolding_all decide, threadStore_ends, fun hends => ?_⟩
  have hcircle : climb (parentOf (reached threadEnv threadStore
      (threadOperations (some "https://a.example/1"))).statuses) 2 10 = some 10 := by
    with_unfolding_all decide
  exact not_ends_of_returns hcircle (hends 10)

end Rustodon.Ingest
