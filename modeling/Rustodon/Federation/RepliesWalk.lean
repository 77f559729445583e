import Mathlib.Data.List.Forall2
import Rustodon.Federation.Endpoints
import Rustodon.Schemes.Groups
import Rustodon.Schemes.Walks

/-! @src web/federation.rs, mastodon/repository.rs | name:The collection of replies | scheme:walks |
    family:federation

    The pages of replies are followed from the one in a note, or from the first one of the collection:
    first those of the author, then those of the others. -/

namespace Rustodon.Federation
open Schemes.Checked Schemes.Groups Schemes.Utf8 Schemes.Walks Timelines
open Web (formSerialize)

section Walk

variable (server : Server) (archive : Archive) (requester : Requester) (account : Account)
  (status : Status)

/-! ### Pages that are requested -/

/-- The page in a response. -/
def pageOf (response : Response) : Option (Page Text Object) :=
  match response.body with
  | .repliesPage page => some ⟨page.items, page.next⟩
  | .replies _ first => some ⟨first.items, first.next⟩
  | _ => none

def requestReplies (parameters : List (Text × Text)) : Option (Page Text Object) :=
  pageOf (federationStatusCollectionResponse server archive requester account.id
    (toString status.id).toList "replies" parameters)

/-- An address of the collection is requested with what stands behind its question mark. -/
def requestUrl (url : Text) : Option (Page Text Object) :=
  let collection := archive.repliesUrl server.origin account status ++ ['?']
  if collection.isPrefixOf url then
    requestReplies server archive requester account status
      (queryParameters (url.drop collection.length))
  else none

/-- The first page as it stands in a note. -/
def embeddedPage (replies : NoteReplies) : Page Text Object :=
  ⟨replies.items.map fun item => (item.map Object.uri).getD .null, some replies.next⟩

/-- The requester is served the status of a local account. -/
structure Served (viewerAccountId : Option ℤ) : Prop where
  accepts : requester.acceptsActivitypub = true
  offered : federationAccount archive account.id true = .ok account
  isLocal : account.domain = none
  known : federationSignedViewer requester = .ok viewerAccountId
  row : status ∈ archive.statuses
  author : status.accountId = account.id
  visible : MaySee archive.toDatabase viewerAccountId status

/-! ### What is read -/

/-- An item is the address of the reply, or its note. -/
inductive Identifies : Object → Status → Prop
  | uri {reply : Status} {address : String} (h : reply.uri = some address) :
      Identifies (.uri address.toList) reply
  | note {note : Note} {reply : Status} {author : Account}
      (hauthor : archive.account reply.accountId = some author)
      (hid : note.id = archive.statusUri server.origin author reply) : Identifies (.note note) reply

/-- The items are those of the replies of the author and of those of the others who are not suspended,
    one for each. -/
def CollectionComplete (items : List Object) : Prop :=
  ∃ replies : List Status, (replies.map Status.id).Nodup ∧
    (∀ reply, reply ∈ replies ↔ IsReply archive account.id status.id false reply ∨
      IsReply archive account.id status.id true reply) ∧
    List.Forall₂ (Identifies server archive) items replies

/-- Reading from a page on ends, and all replies have been read. -/
def ReadsAll (page : Page Text Object) : Prop :=
  ∃ items, Walk (requestUrl server archive requester account status) page items ∧
    CollectionComplete server archive account status items

/-- All replies are read from the first page in the note, and from that of the collection. -/
structure RepliesComplete : Prop where
  embedded : ∃ replies, activitypubReplies archive server.origin account status = some replies ∧
    ReadsAll server archive requester account status (embeddedPage replies)
  collection : ∃ page, requestReplies server archive requester account status [] = some page ∧
    ReadsAll server archive requester account status page

end Walk

/-! ### Items -/

variable {server : Server} {archive : Archive} {requester : Requester} {account : Account}
  {status : Status} {viewerAccountId : Option ℤ}

/-- The item of a live reply. -/
def itemOf (server : Server) (archive : Archive) (reply : Status) : Object :=
  (activitypubReplyItem archive server.origin reply).getD .null

theorem replyItem_spec {reply : Status} (h : reply ∈ archive.statuses) (hlive : reply.deletedAt = none) :
    activitypubReplyItem archive server.origin reply = some (itemOf server archive reply) ∧
      Identifies server archive (itemOf server archive reply) reply := by
  rw [itemOf, activitypubReplyItem]
  split_ifs with hnote
  · obtain ⟨author, hauthor⟩ := Option.isSome_iff_exists.mp (archive.author_rows reply h)
    obtain ⟨note, hvalue⟩ := @exists_noteValue archive server.origin reply h hlive author
    rw [hauthor]
    simp only [Option.bind_eq_bind, Option.bind_some, hvalue]
    exact ⟨rfl, .note hauthor (noteValue_spec hvalue).2⟩
  · have huri : reply.uri ≠ none := by
      intro hnone
      simp [hnone] at hnote
    obtain ⟨address, haddress⟩ := Option.ne_none_iff_exists'.mp huri
    rw [haddress]
    exact ⟨rfl, .uri haddress⟩

theorem mapM_replyItem {replies : List Status}
    (h : ∀ reply ∈ replies, reply ∈ archive.statuses ∧ reply.deletedAt = none) :
    replies.mapM (activitypubReplyItem archive server.origin) =
      some (replies.map (itemOf server archive)) := by
  induction replies with
  | nil => rfl
  | cons reply replies ih =>
    rw [List.forall_mem_cons] at h
    exact mapM_cons_eq_some.mpr ⟨_, _, (replyItem_spec h.1.1 h.1.2).1, ih h.2, rfl⟩

/-! ### Pages -/

/-- The page that is given for the parameters. -/
def pageAt (server : Server) (archive : Archive) (account : Account) (status : Status)
    (onlyOtherAccounts : Bool) (minId : Option ℤ) : Page Text Object :=
  let replies := activitypubReplyStatuses archive account.id status.id onlyOtherAccounts minId 60
  ⟨replies.map (itemOf server archive),
    repliesNext (archive.repliesUrl server.origin account status) account.id onlyOtherAccounts replies⟩

theorem repliesPage_eq (parameters : List (Text × Text)) :
    ∃ page, repliesPage archive server.origin account status parameters = some page ∧
      (⟨page.items, page.next⟩ : Page Text Object) = pageAt server archive account status
        (onlyOtherAccountsOf parameters) (minIdOf parameters) := by
  have hlive : ∀ reply ∈ activitypubReplyStatuses archive account.id status.id
      (onlyOtherAccountsOf parameters) (minIdOf parameters) 60,
      reply ∈ archive.statuses ∧ reply.deletedAt = none := by
    intro reply hreply
    have hreply := mem_activitypubReplyStatuses hreply
    exact ⟨hreply.row, hreply.live⟩
  rw [repliesPage]
  simp only [@mapM_replyItem server archive _ hlive]
  exact ⟨_, rfl, rfl⟩

/-- A requester who is served gets the page. -/
theorem requestReplies_eq (h : Served archive requester account status viewerAccountId)
    (parameters : List (Text × Text)) :
    requestReplies server archive requester account status parameters =
      some (pageAt server archive account status (onlyOtherAccountsOf parameters)
        (minIdOf parameters)) := by
  obtain ⟨page, hpage, hat⟩ := @repliesPage_eq server archive account status parameters
  obtain ⟨author, hauthor, hsee⟩ := h.visible
  have hlive := ((maySee_iff hauthor).mp h.visible).1
  have hfetched : fetchStatus archive viewerAccountId account.id status.id = .ok status :=
    fetchStatus_eq_ok.mpr ⟨h.row, rfl, h.author, hlive, h.visible⟩
  have hrange := routePathId_toString (archive.status_range status h.row)
  rw [← hat, requestReplies, federationStatusCollectionResponse, federationStatusCollectionResult]
  simp only [h.accepts, hrange, h.offered, h.known, hfetched, collectionDocument, hpage, Bool.not_true,
    failIf_false, ok_bind, okOr_some_bind, if_true, repliesBody]
  split_ifs <;> rfl

/-- The address with a query is requested with the parameters that are written in it. -/
theorem requestUrl_eq (h : Served archive requester account status viewerAccountId)
    {pairs : List (Text × Text)} (hne : pairs ≠ [])
    (hplain : ∀ pair ∈ pairs, IsPlain pair.1 ∧ IsPlain pair.2) :
    requestUrl server archive requester account status
        (archive.repliesUrl server.origin account status ++ '?' :: writtenQuery pairs) =
      some (pageAt server archive account status (onlyOtherAccountsOf pairs) (minIdOf pairs)) := by
  have hsplit : archive.repliesUrl server.origin account status ++ '?' :: writtenQuery pairs =
      archive.repliesUrl server.origin account status ++ ['?'] ++ writtenQuery pairs := by simp
  have hstarts : (archive.repliesUrl server.origin account status ++ ['?']).isPrefixOf
      (archive.repliesUrl server.origin account status ++ ['?'] ++ writtenQuery pairs) = true :=
    List.isPrefixOf_iff_prefix.mpr (List.prefix_append _ _)
  rw [requestUrl, hsplit]
  simp only [hstarts, if_true, List.drop_left, queryParameters_writtenQuery hne hplain,
    requestReplies_eq h]

theorem isPlain_names : IsPlain "page".toList ∧ IsPlain "min_id".toList ∧
    IsPlain "only_other_accounts".toList ∧ IsPlain "true".toList := by
  unfold IsPlain
  decide

theorem isPlain_minId (minId : ℤ) :
    IsPlain "min_id".toList ∧ IsPlain (toString minId).toList :=
  ⟨isPlain_names.2.1, isPlain_toString minId⟩

theorem isPlain_next (minId : Option ℤ) (onlyOtherAccounts : Bool) :
    ∀ pair ∈ repliesNextPairs minId onlyOtherAccounts, IsPlain pair.1 ∧ IsPlain pair.2 := by
  obtain ⟨hpage, -, honly, htrue⟩ := isPlain_names
  rw [repliesNextPairs, List.forall_mem_append, List.forall_mem_append]
  refine ⟨⟨?_, ?_⟩, ?_⟩
  · cases onlyOtherAccounts with
    | false => exact nofun
    | true => exact List.forall_mem_singleton.mpr ⟨honly, htrue⟩
  · cases minId with
    | none => exact nofun
    | some minId => exact List.forall_mem_singleton.mpr (isPlain_minId minId)
  · exact List.forall_mem_singleton.mpr ⟨hpage, htrue⟩

/-- The parameters of the address of a next page. -/
theorem next_parameters {minId : Option ℤ} (hrange : ∀ id ∈ minId, -2 ^ 63 ≤ id ∧ id < 2 ^ 63)
    (onlyOtherAccounts : Bool) :
    onlyOtherAccountsOf (repliesNextPairs minId onlyOtherAccounts) = onlyOtherAccounts ∧
      minIdOf (repliesNextPairs minId onlyOtherAccounts) = minId := by
  have hread (names : List (Text × Text)) (hnames : parameter names "min_id" = minId.map fun minId =>
      (toString minId).toList) : minIdOf names = minId := by
    rw [minIdOf, hnames]
    cases minId with
    | none => rfl
    | some minId => exact routePathId_toString (hrange minId rfl)
  refine ⟨?_, hread _ ?_⟩
  · cases onlyOtherAccounts <;> cases minId <;> rfl
  · cases onlyOtherAccounts <;> cases minId <;> rfl

/-- The address of a next page is that page. -/
theorem requestUrl_next (h : Served archive requester account status viewerAccountId)
    (onlyOtherAccounts : Bool) {minId : Option ℤ}
    (hrange : ∀ id ∈ minId, -2 ^ 63 ≤ id ∧ id < 2 ^ 63) :
    requestUrl server archive requester account status
        (activitypubRepliesNextUrl (archive.repliesUrl server.origin account status) minId
          onlyOtherAccounts) =
      some (pageAt server archive account status onlyOtherAccounts minId) := by
  have hne : repliesNextPairs minId onlyOtherAccounts ≠ [] :=
    List.append_ne_nil_of_right_ne_nil _ (List.cons_ne_nil _ _)
  obtain ⟨honly, hminId⟩ := next_parameters hrange onlyOtherAccounts
  rw [activitypubRepliesNextUrl, requestUrl_eq h hne (isPlain_next minId onlyOtherAccounts), honly,
    hminId]

/-! ### Both walks -/

theorem cursor_range {onlyOtherAccounts : Bool} {cursor : Option ℤ}
    (h : ∀ c ∈ cursor, ∃ a ∈ replyRows archive account.id status.id onlyOtherAccounts, a.id = c) :
    ∀ id ∈ cursor, -2 ^ 63 ≤ id ∧ id < 2 ^ 63 := by
  intro id hid
  obtain ⟨reply, hreply, rfl⟩ := h id hid
  exact archive.status_range reply (mem_replyRows.mp hreply).row

/-- A page of the others that is full leads on. -/
theorem keyed_others (h : Served archive requester account status viewerAccountId) :
    Keyed Status.id (requestUrl server archive requester account status)
      (replyRows archive account.id status.id true) 60 (itemOf server archive)
      (fun cursor => activitypubRepliesNextUrl (archive.repliesUrl server.origin account status)
        cursor true) none where
  sorted := replyRows_sorted
  size := by omega
  answers cursor hcursor := by
    rw [requestUrl_next h true (cursor_range hcursor)]
    rfl

/-- A page of the author that is full leads on, and another one leads to the others. -/
theorem keyed_own (h : Served archive requester account status viewerAccountId) :
    Keyed Status.id (requestUrl server archive requester account status)
      (replyRows archive account.id status.id false) 60 (itemOf server archive)
      (fun cursor => activitypubRepliesNextUrl (archive.repliesUrl server.origin account status)
        cursor false)
      (some (activitypubRepliesNextUrl (archive.repliesUrl server.origin account status) none
        true)) where
  sorted := replyRows_sorted
  size := by omega
  answers cursor hcursor := by
    have hpage : activitypubReplyStatuses archive account.id status.id false cursor 60 =
        (after Status.id cursor (replyRows archive account.id status.id false)).take 60 := rfl
    have hown : ∀ reply ∈ activitypubReplyStatuses archive account.id status.id false cursor 60,
        reply.accountId = account.id := by
      intro reply hreply
      simpa using (mem_activitypubReplyStatuses hreply).author
    have hlength : (activitypubReplyStatuses archive account.id status.id false cursor 60).length ≤ 60 :=
      List.length_take_le _ _
    rw [requestUrl_next h false (cursor_range hcursor), pageAt, repliesNext, ← hpage]
    generalize activitypubReplyStatuses archive account.id status.id false cursor 60 = replies
      at hown hlength
    simp only [Bool.false_eq_true, if_false]
    by_cases hfull : replies.length = 60
    · obtain ⟨last, hlast⟩ : ∃ last, replies.getLast? = some last := by
        rw [← Option.isSome_iff_exists, List.getLast?_isSome]
        exact List.ne_nil_of_length_pos (by omega)
      have hauthor := hown last (List.mem_of_getLast? hlast)
      simp [hfull, hlast, hauthor]
    · have hshort : replies.length < 60 := by omega
      simp [hfull, hshort]

/-- What is read from the first page of the author behind a reply. -/
theorem leads_own (h : Served archive requester account status viewerAccountId) {cursor : Option ℤ}
    (hcursor : ∀ c ∈ cursor, ∃ a ∈ replyRows archive account.id status.id false, a.id = c) :
    Leads (requestUrl server archive requester account status)
      (some (activitypubRepliesNextUrl (archive.repliesUrl server.origin account status) cursor false))
      ((after Status.id cursor (replyRows archive account.id status.id false)).map
          (itemOf server archive) ++
        (replyRows archive account.id status.id true).map (itemOf server archive)) := by
  refine (keyed_own h).leads ?_ hcursor
  have hkeyed := @keyed_others server archive requester account status viewerAccountId h
  have hothers := @Keyed.leads _ _ _ _ _ Status.id none _ _ _ _ _ _ [] hkeyed rfl (by simp)
  rwa [after_none, List.append_nil] at hothers

/-! ### Completeness -/

/-- The replies of the author and of the others are all of them, each once. -/
theorem allReplies_spec :
    let replies := replyRows archive account.id status.id false ++
      replyRows archive account.id status.id true
    (replies.map Status.id).Nodup ∧
      (∀ reply, reply ∈ replies ↔ IsReply archive account.id status.id false reply ∨
        IsReply archive account.id status.id true reply) ∧
      ∀ reply ∈ replies, reply ∈ archive.statuses ∧ reply.deletedAt = none := by
  intro replies
  have hmem : ∀ reply, reply ∈ replies ↔ IsReply archive account.id status.id false reply ∨
      IsReply archive account.id status.id true reply := by
    intro reply
    rw [List.mem_append, mem_replyRows, mem_replyRows]
  have hids {onlyOtherAccounts : Bool} :
      ((replyRows archive account.id status.id onlyOtherAccounts).map Status.id).Nodup :=
    List.pairwise_map.mpr (replyRows_sorted.imp fun hlt => ne_of_lt hlt)
  refine ⟨?_, hmem, ?_⟩
  · rw [List.map_append, List.nodup_append]
    refine ⟨hids, hids, ?_⟩
    intro id hown id' hother heq
    obtain ⟨own, hownRow, rfl⟩ := List.mem_map.mp hown
    obtain ⟨other, hotherRow, rfl⟩ := List.mem_map.mp hother
    have hown := mem_replyRows.mp hownRow
    have hother := mem_replyRows.mp hotherRow
    obtain rfl := List.inj_on_of_nodup_map archive.status_ids hown.row hother.row heq
    have hsame := hown.author
    have hdiffers := hother.author
    simp only [Bool.false_eq_true, if_false] at hsame
    simp only [if_true] at hdiffers
    exact hdiffers.1 hsame
  · intro reply hreply
    rcases (hmem reply).mp hreply with h | h
    · exact ⟨h.row, h.live⟩
    · exact ⟨h.row, h.live⟩

theorem forall₂_itemOf {replies : List Status}
    (h : ∀ reply ∈ replies, reply ∈ archive.statuses ∧ reply.deletedAt = none) :
    List.Forall₂ (Identifies server archive) (replies.map (itemOf server archive)) replies := by
  rw [List.forall₂_map_left_iff, List.forall₂_same]
  intro reply hreply
  exact (replyItem_spec (h reply hreply).1 (h reply hreply).2).2

/-- From its first page, the collection is complete. -/
theorem collection_readsAll (h : Served archive requester account status viewerAccountId)
    {page : Page Text Object}
    (hpage : requestReplies server archive requester account status [] = some page) :
    ReadsAll server archive requester account status page := by
  have hfirst : requestReplies server archive requester account status [] =
      some (pageAt server archive account status false none) := requestReplies_eq h []
  obtain rfl := Option.some.inj (hpage.symm.trans hfirst)
  have hleads := @leads_own server archive requester account status viewerAccountId h none (by simp)
  obtain ⟨page, hanswer, hwalk⟩ := hleads
  rw [requestUrl_next h false (by simp)] at hanswer
  obtain rfl := Option.some.inj hanswer
  obtain ⟨hnodup, hmem, hlive⟩ := @allReplies_spec archive account status
  refine ⟨_, hwalk, _, hnodup, hmem, ?_⟩
  rw [after_none, ← List.map_append]
  exact forall₂_itemOf hlive

/-- The item of a reply in a note: its address, if it is stored. -/
def embeddedItem (reply : Status) : Object :=
  ((reply.uri.map String.toList).map Object.uri).getD .null

/-- What is read from the page in a note. -/
theorem embedded_walk (h : Served archive requester account status viewerAccountId)
    {replies : NoteReplies}
    (hreplies : activitypubReplies archive server.origin account status = some replies) :
    Walk (requestUrl server archive requester account status) (embeddedPage replies)
      (((replyRows archive account.id status.id false).take 5).map embeddedItem ++
        (((replyRows archive account.id status.id false).drop 5).map (itemOf server archive) ++
          (replyRows archive account.id status.id true).map (itemOf server archive))) := by
  have hfirst : activitypubReplyStatuses archive account.id status.id false none 5 =
      (replyRows archive account.id status.id false).take 5 := by
    have hall := @after_none _ _ _ Status.id (replyRows archive account.id status.id false)
    exact congrArg (List.take 5) hall
  have hnext : Leads (requestUrl server archive requester account status) (some replies.next)
      (((replyRows archive account.id status.id false).drop 5).map (itemOf server archive) ++
        (replyRows archive account.id status.id true).map (itemOf server archive)) := by
    rw [activitypubReplies, if_neg (by rw [h.isLocal]; exact Bool.false_ne_true)] at hreplies
    obtain rfl := Option.some.inj hreplies
    rw [hfirst]
    cases hlast : ((replyRows archive account.id status.id false).take 5).getLast? with
    | none =>
      -- Without a reply of the author the others follow at once.
      have hnil : replyRows archive account.id status.id false = [] := by
        simpa using hlast
      have hkeyed := @keyed_others server archive requester account status viewerAccountId h
      obtain ⟨page, hanswer, hwalk⟩ :=
        @Keyed.leads _ _ _ _ _ Status.id none _ _ _ _ _ _ [] hkeyed rfl (by simp)
      rw [requestUrl_next h true (by simp)] at hanswer
      obtain rfl := Option.some.inj hanswer
      obtain ⟨hpage, -, honly, htrue⟩ := isPlain_names
      refine ⟨_, requestUrl_eq h (List.cons_ne_nil _ _) ?_, ?_⟩
      · exact List.forall_mem_cons.mpr ⟨⟨hpage, htrue⟩, List.forall_mem_singleton.mpr ⟨honly, htrue⟩⟩
      · rw [after_none, List.append_nil] at hwalk
        rw [hnil]
        exact hwalk
    | some last =>
      have hmem : last ∈ replyRows archive account.id status.id false :=
        List.mem_of_mem_take (List.mem_of_getLast? hlast)
      have hleads := @leads_own server archive requester account status viewerAccountId h
        (some last.id) (by simpa using ⟨last, hmem, rfl⟩)
      have hrest : after Status.id (some last.id) (replyRows archive account.id status.id false) =
          (after Status.id none (replyRows archive account.id status.id false)).drop 5 :=
        after_getLast replyRows_sorted (by rwa [after_none])
      rw [hrest, after_none] at hleads
      exact hleads
  have hitems : (embeddedPage replies).items =
      ((replyRows archive account.id status.id false).take 5).map embeddedItem := by
    rw [activitypubReplies, if_neg (by rw [h.isLocal]; exact Bool.false_ne_true)] at hreplies
    obtain rfl := Option.some.inj hreplies
    rw [embeddedPage, hfirst, List.map_map]
    rfl
  rw [← hitems]
  exact Leads.walk hnext

theorem exists_identified {items : List Object} {replies : List Status}
    (h : List.Forall₂ (Identifies server archive) items replies) {item : Object} (hitem : item ∈ items) :
    ∃ reply, Identifies server archive item reply := by
  induction h with
  | nil => cases hitem
  | cons hhead _ ih =>
    rcases List.mem_cons.mp hitem with rfl | hmem
    · exact ⟨_, hhead⟩
    · exact ih hmem

theorem uri_of_identified {reply other : Status}
    (h : Identifies server archive (embeddedItem reply) other) : reply.uri.isSome := by
  cases huri : reply.uri with
  | none =>
    rw [embeddedItem, huri] at h
    cases h
  | some address => rfl

theorem uri_of_readsAll (h : Served archive requester account status viewerAccountId)
    {replies : NoteReplies}
    (hreplies : activitypubReplies archive server.origin account status = some replies)
    (hreads : ReadsAll server archive requester account status (embeddedPage replies)) :
    ∀ reply ∈ (replyRows archive account.id status.id false).take 5, reply.uri.isSome := by
  intro reply hreply
  obtain ⟨items, hwalk, found, -, -, hfound⟩ := hreads
  obtain rfl := hwalk.unique (embedded_walk h hreplies)
  have hitem : embeddedItem reply ∈
      ((replyRows archive account.id status.id false).take 5).map embeddedItem :=
    List.mem_map_of_mem hreply
  obtain ⟨other, hidentified⟩ := exists_identified hfound (List.mem_append_left _ hitem)
  exact uri_of_identified hidentified

/-- CORRECT (replies): following the pages of the replies gives each of them once, from the collection
    always, and from the note exactly where the first five replies of the author have an address. -/
theorem replies_complete_iff (h : Served archive requester account status viewerAccountId) :
    RepliesComplete server archive requester account status ↔
      ∀ reply ∈ (replyRows archive account.id status.id false).take 5, reply.uri.isSome := by
  obtain ⟨hnodup, hmem, hlive⟩ := @allReplies_spec archive account status
  constructor
  · rintro ⟨⟨replies, hreplies, hreads⟩, -⟩
    exact uri_of_readsAll h hreplies hreads
  · intro huri
    refine ⟨?_, ?_⟩
    · have hlocal : ¬ account.domain.isSome = true := by
        rw [h.isLocal]
        exact Bool.false_ne_true
      obtain ⟨replies, hreplies⟩ : ∃ replies,
          activitypubReplies archive server.origin account status = some replies := by
        rw [activitypubReplies, if_neg hlocal]
        exact ⟨_, rfl⟩
      refine ⟨replies, hreplies, _, embedded_walk h hreplies, _, hnodup, hmem, ?_⟩
      have hfirst : List.Forall₂ (Identifies server archive)
          (((replyRows archive account.id status.id false).take 5).map embeddedItem)
          ((replyRows archive account.id status.id false).take 5) := by
        rw [List.forall₂_map_left_iff, List.forall₂_same]
        intro reply hreply
        obtain ⟨address, haddress⟩ := Option.isSome_iff_exists.mp (huri reply hreply)
        rw [embeddedItem, haddress]
        exact .uri haddress
      have hrest : List.Forall₂ (Identifies server archive)
          (((replyRows archive account.id status.id false).drop 5 ++
            replyRows archive account.id status.id true).map (itemOf server archive))
          ((replyRows archive account.id status.id false).drop 5 ++
            replyRows archive account.id status.id true) := by
        refine forall₂_itemOf fun reply hreply => hlive reply ?_
        rcases List.mem_append.mp hreply with hown | hother
        · exact List.mem_append_left _ (List.mem_of_mem_drop hown)
        · exact List.mem_append_right _ hother
      have hwhole : (replyRows archive account.id status.id false).take 5 ++
          ((replyRows archive account.id status.id false).drop 5 ++
            replyRows archive account.id status.id true) =
          replyRows archive account.id status.id false ++ replyRows archive account.id status.id true := by
        rw [← List.append_assoc, List.take_append_drop]
      rw [← hwhole, ← List.map_append]
      exact List.rel_append hfirst hrest
    · exact ⟨_, requestReplies_eq h [], collection_readsAll h (requestReplies_eq h [])⟩

/-! ### A thread of one author -/

def exampleServer : Server := ⟨"https://h/".toList, false⟩

/-- Nobody, who wants the documents. -/
def anonymousRequester : Requester where
  acceptsActivitypub := true
  header _ := none
  browserSession := .ok none
  signature := .ok none
  signatureKeyAccount _ := .ok none
  token := .ok none

def threadStatus (id : ℤ) (inReplyToId : Option ℤ) (uri : Option String) : Status where
  id := id
  accountId := 1
  text := "text"
  spoilerText := ""
  visibility := 0
  isLocal := some true
  uri := uri
  language := none
  reply := inReplyToId.isSome
  inReplyToId := inReplyToId
  inReplyToAccountId := inReplyToId.map fun _ => 1
  reblogOfId := none
  orderedMediaAttachmentIds := none
  deletedAt := none

/-- A status and a reply of its author. -/
def threadArchive (uri : Option String) : Archive :=
  { Database.empty with
    accounts := [⟨1, none, none, none⟩]
    statuses := [threadStatus 10 none none, threadStatus 11 (some 10) uri]
    quotes := []
    polls := []
    accountColumns := fun _ => ⟨"alice", "", none, "", false, false, false, false, none⟩
    statusColumns := fun _ => ⟨none, none, 0⟩
    statusStat := fun _ => none
    account_ids := by decide
    status_ids := by simp [threadStatus]
    quote_keys := by decide
    author_rows := by simp [threadStatus, Database.account]
    poll_rows := by simp
    status_range := by simp [threadStatus] }

theorem threadArchive_served (uri : Option String) : Served (threadArchive uri) anonymousRequester
    ⟨1, none, none, none⟩ (threadStatus 10 none none) none where
  accepts := rfl
  offered := rfl
  isLocal := rfl
  known := rfl
  row := List.mem_cons_self
  author := rfl
  visible := by
    have hauthor : (threadArchive uri).account (threadStatus 10 none none).accountId =
        some ⟨1, none, none, none⟩ := rfl
    exact (maySee_iff hauthor).mpr ⟨rfl, rfl, .inl rfl⟩

theorem replyRows_thread (uri : Option String) :
    replyRows (threadArchive uri) 1 10 false = [threadStatus 11 (some 10) uri] := rfl

/-- A thread whose reply has an address is read to its end. -/
theorem replies_complete_thread :
    RepliesComplete exampleServer (threadArchive (some "https://h/users/alice/statuses/11"))
      anonymousRequester ⟨1, none, none, none⟩ (threadStatus 10 none none) := by
  refine (replies_complete_iff (threadArchive_served _)).mpr fun reply hreply => ?_
  rw [show replyRows (threadArchive (some "https://h/users/alice/statuses/11"))
    (⟨1, none, none, none⟩ : Account).id (threadStatus 10 none none).id false = _ from
      replyRows_thread _] at hreply
  obtain rfl := List.mem_singleton.mp hreply
  rfl

/-- In the note stands nothing for a reply that has none. -/
theorem replies_incomplete_thread :
    ¬ ∀ (server : Server) (archive : Archive) (requester : Requester) (account : Account)
      (status : Status) (viewerAccountId : Option ℤ),
      Served archive requester account status viewerAccountId →
        RepliesComplete server archive requester account status := by
  intro h
  have hserved := threadArchive_served none
  obtain ⟨⟨replies, hreplies, hreads⟩, -⟩ := h exampleServer _ _ _ _ _ hserved
  have huri := uri_of_readsAll hserved hreplies hreads (threadStatus 11 (some 10) none)
    (by exact List.mem_singleton_self _)
  exact absurd huri (by decide)

end Rustodon.Federation
