import Rustodon.Streaming.ReplayQuery

/-! @src jobs.rs, web/stream_socket.rs | name:Replayed routes | scheme:jsonb | family:streaming

    The replay query and the socket agree on the routes, but for parameters that are none: the query
    reads a list that is no number as the list 0, and a missing hashtag as an empty one. What is
    selected of the past has a frame, and the classes that are limited leave nothing out that has left
    a route, for the events as they are recorded: creations have no route before them, and deletes none
    behind them. -/

namespace Rustodon.Streaming
open Schemes.Checked Schemes.Json Schemes.Jsonb

variable {render : Value → String}

/-! ### Snapshots -/

theorem castBoolean_bool (b : Bool) : castBoolean (if b then "true" else "false") = .ok b := by
  cases b <;> with_unfolding_all decide

theorem arrow_snapshot (snapshot : TimelineRouteSnapshot) :
    arrow (some (encodeSnapshot snapshot)) "public" = some (.bool snapshot.isPublic) ∧
    arrow (some (encodeSnapshot snapshot)) "hashtag" = some (.bool snapshot.hashtag) ∧
    arrow (some (encodeSnapshot snapshot)) "local" = some (.bool snapshot.isLocal) ∧
    arrow (some (encodeSnapshot snapshot)) "had_media" = some (.bool snapshot.hadMedia) ∧
    arrow (some (encodeSnapshot snapshot)) "tags" = some (.array (snapshot.tags.map .string)) ∧
    arrow (some (encodeSnapshot snapshot)) "lists" =
      some (.array (snapshot.lists.map encodeListRoute)) := by
  simp [encodeSnapshot, arrow_object, Schemes.Json.get, List.lookup_cons]

theorem boolField_of_arrow {snapshot : Option Value} {key : String} {b : Bool}
    (h : arrow snapshot key = some (.bool b)) : boolField render snapshot key = .ok b := by
  rw [boolField, arrowText, h]
  exact castBoolean_bool b

theorem existsKey_tags (tags : List String) (key : String) :
    existsKey key (.array (tags.map .string)) = tags.contains key := by
  rw [existsKey, Bool.eq_iff_iff, List.contains_iff_mem, List.contains_iff_mem, List.mem_map]
  constructor
  · rintro ⟨tag, hmem, heq⟩
    rwa [← Value.string.inj heq]
  · exact fun hmem => ⟨key, hmem, rfl⟩

theorem get_listRoute (route : TimelineListRoute) :
    (∀ item, Schemes.Json.get [("account_id", Value.number (.int route.accountId)),
        ("list_id", .number (.int route.listId))] "account_id" = some item ↔
      item = .number (.int route.accountId)) ∧
    ∀ item, Schemes.Json.get [("account_id", Value.number (.int route.accountId)),
        ("list_id", .number (.int route.listId))] "list_id" = some item ↔
      item = .number (.int route.listId) := by
  simp [Schemes.Json.get, List.lookup_cons, eq_comm]

/-- An entry contains a route when it is this route. -/
theorem contains_listRoute (binds : RouteBinds) (route : TimelineListRoute) :
    contains (encodeListRoute route) (listRoute binds) = true ↔
      route = ⟨binds.accountId, binds.listId⟩ := by
  obtain ⟨haccount, hlist⟩ := get_listRoute route
  rw [encodeListRoute, listRoute, contains_object_iff]
  simp only [List.forall_mem_cons, haccount, hlist, exists_eq_left, contains_number,
    Value.number.injEq, Number.int.injEq]
  obtain ⟨accountId, listId⟩ := route
  simp

theorem contains_lists (binds : RouteBinds) (lists : List TimelineListRoute) :
    contains (.array (lists.map encodeListRoute)) (.array [listRoute binds]) =
      lists.contains ⟨binds.accountId, binds.listId⟩ := by
  rw [Bool.eq_iff_iff, contains_array_iff, List.contains_iff_mem]
  simp only [List.mem_singleton, forall_eq, List.mem_map]
  constructor
  · rintro ⟨item, ⟨route, hmem, rfl⟩, hcontains⟩
    rwa [← (contains_listRoute binds route).mp hcontains]
  · exact fun hmem => ⟨_, ⟨_, hmem, rfl⟩, (contains_listRoute binds _).mpr rfl⟩

/-- A snapshot that is missing, and one that is `null`, have no route. -/
theorem routeMatchesSql_null (binds : RouteBinds) :
    routeMatchesSql render binds (some .null) = .ok false := by
  have hbool (key : String) : boolField render (some .null) key = .ok false := rfl
  have hlists : contains (arrayField (some .null) "lists") (.array [listRoute binds]) = false := by
    rw [Bool.eq_false_iff]
    intro h
    obtain ⟨item, hmem, -⟩ := contains_array_iff.mp h _ (List.mem_singleton_self _)
    cases hmem
  have htags : existsKey binds.parameter (arrayField (some .null) "tags") = false := rfl
  simp [routeMatchesSql, hbool, hlists, htags, Except.map]

theorem routeBinds_spec {subscription : Subscription} {accountId : ℤ} {kind : RouteKind}
    {binds : RouteBinds} (h : routeBinds subscription accountId kind = .ok binds) :
    binds = ⟨kind.text, subscription.onlyLocal, subscription.onlyRemote, subscription.onlyMedia,
      subscription.parameter.getD "", (parseI64 (subscription.parameter.getD "")).getD 0, accountId⟩ := by
  obtain ⟨parameter, hparameter, h⟩ := bind_eq_ok h
  obtain rfl := Except.ok.inj h
  rw [bindText] at hparameter
  split_ifs at hparameter
  rw [← Except.ok.inj hparameter]

/-- The expression over the payload is the decision on the snapshot. -/
theorem routeMatchesSql_encode {subscription : Subscription} {accountId : ℤ} {kind : RouteKind}
    {binds : RouteBinds} (hkind : subscription.stream.routeKind = some kind)
    (h : routeBinds subscription accountId kind = .ok binds) (snapshot : TimelineRouteSnapshot) :
    routeMatchesSql render binds (some (encodeSnapshot snapshot)) =
      .ok (routeMatches subscription accountId snapshot) := by
  obtain ⟨hpublic, hhashtag, hlocal, hmedia, htags, hlists⟩ := arrow_snapshot snapshot
  rw [routeBinds_spec h]
  simp only [routeMatchesSql, boolField_of_arrow hpublic, boolField_of_arrow hhashtag,
    boolField_of_arrow hlocal, boolField_of_arrow hmedia, arrayField, htags, hlists,
    Option.getD_some, existsKey_tags, contains_lists, Except.map, conj_ok, disj_ok, Option.isSome_some,
    Bool.true_and]
  rw [routeMatches, hkind]
  cases kind with
  | publicFeed => simp [RouteKind.text, Bool.and_assoc]
  | hashtag => simp [RouteKind.text, Bool.and_assoc]
  | list => simp [RouteKind.text]

/-! ### The socket -/

/-- A parameter is there, and the one of a list is a number, or nothing has been filed under what
    stands for it. -/
def Agrees (subscription : Subscription) (accountId : ℤ) (snapshot : TimelineRouteSnapshot) : Prop :=
  match subscription.stream with
  | .hashtag | .hashtagLocal => subscription.parameter = none → "" ∉ snapshot.tags
  | .list => subscription.parameter.bind parseI64 = none →
      (⟨accountId, 0⟩ : TimelineListRoute) ∉ snapshot.lists
  | _ => True

theorem hashtag_matches {subscription : Subscription} {snapshot : TimelineRouteSnapshot}
    (hagrees : subscription.parameter = none → "" ∉ snapshot.tags) :
    snapshot.tags.contains (subscription.parameter.getD "") =
      subscription.parameter.any fun tag => snapshot.tags.any fun candidate => candidate == tag := by
  cases hparameter : subscription.parameter with
  | none =>
    rw [Option.getD_none, Option.any_none, Bool.eq_false_iff]
    intro hcontains
    exact hagrees hparameter (List.contains_iff_mem.mp hcontains)
  | some tag =>
    rw [Option.getD_some, Option.any_some, Bool.eq_iff_iff, List.contains_iff_mem]
    simp

theorem list_matches {subscription : Subscription} {accountId : ℤ} {snapshot : TimelineRouteSnapshot}
    (hagrees : subscription.parameter.bind parseI64 = none →
      (⟨accountId, 0⟩ : TimelineListRoute) ∉ snapshot.lists) :
    snapshot.lists.contains ⟨accountId, (parseI64 (subscription.parameter.getD "")).getD 0⟩ =
      (subscription.parameter.bind parseI64).any fun listId =>
        snapshot.lists.any fun route => route.accountId == accountId && route.listId == listId := by
  have hempty : parseI64 "" = none := by decide
  have hparse : parseI64 (subscription.parameter.getD "") = subscription.parameter.bind parseI64 := by
    cases subscription.parameter with
    | none => exact hempty
    | some parameter => rfl
  rw [hparse]
  cases hlist : subscription.parameter.bind parseI64 with
  | none =>
    rw [Option.getD_none, Option.any_none, Bool.eq_false_iff]
    intro hcontains
    exact hagrees hlist (List.contains_iff_mem.mp hcontains)
  | some listId =>
    rw [Option.getD_some, Option.any_some, Bool.eq_iff_iff, List.contains_iff_mem, List.any_eq_true]
    constructor
    · exact fun hmem => ⟨_, hmem, by simp⟩
    · rintro ⟨⟨routeAccount, routeList⟩, hmem, hsame⟩
      simp only [Bool.and_eq_true, beq_iff_eq] at hsame
      obtain ⟨rfl, rfl⟩ := hsame
      exact hmem

/-- The decision of the query is that of the socket. -/
theorem routeMatches_eq_snapshotMatches {subscription : Subscription} {accountId : ℤ}
    {snapshot : TimelineRouteSnapshot} (hagrees : Agrees subscription accountId snapshot) :
    routeMatches subscription accountId snapshot =
      timelineDeleteSnapshotMatches snapshot subscription accountId true := by
  obtain ⟨stream, wire, canonical⟩ := subscription
  cases stream with
  | user | userNotification | direct => rfl
  | hashtag =>
    have htags := @hashtag_matches ⟨.hashtag, wire, canonical⟩ snapshot hagrees
    simp [routeMatches, timelineDeleteSnapshotMatches, StreamName.routeKind, Subscription.onlyLocal,
      ← htags]
  | hashtagLocal =>
    have htags := @hashtag_matches ⟨.hashtagLocal, wire, canonical⟩ snapshot hagrees
    simp [routeMatches, timelineDeleteSnapshotMatches, StreamName.routeKind, Subscription.onlyLocal,
      ← htags]
  | list => exact @list_matches ⟨.list, wire, canonical⟩ accountId snapshot hagrees
  | publicFeed | publicMedia | publicLocal | publicLocalMedia | publicRemote | publicRemoteMedia =>
    simp [routeMatches, timelineDeleteSnapshotMatches, StreamName.routeKind, Subscription.onlyLocal,
      Subscription.onlyRemote, Subscription.onlyMedia]

/-! ### Events -/

/-- The row of an event in `memberships`. -/
def membershipOf (subscription : Subscription) (accountId : ℤ) (event : StreamEvent) : Membership where
  id := event.id
  payload := outboxPayload event
  beforeMatches := event.before.any (routeMatches subscription accountId)
  afterMatches := event.after.any (routeMatches subscription accountId)

theorem arrow_payload (event : StreamEvent) :
    arrow (some (outboxPayload event)) "before" =
        some ((event.before.map encodeSnapshot).getD .null) ∧
      arrow (some (outboxPayload event)) "after" =
        some ((event.after.map encodeSnapshot).getD .null) ∧
      arrow (some (outboxPayload event)) "event" = some (.string event.event) ∧
      arrow (some (outboxPayload event)) "account_id" = some (.number (.int event.accountId)) := by
  simp [outboxPayload, arrow_object, Schemes.Json.get, List.lookup_cons]

theorem eventText (event : StreamEvent) :
    arrowText render (some (outboxPayload event)) "event" = some event.event := by
  rw [arrowText, (arrow_payload event).2.2.1]
  rfl

theorem accountText (event : StreamEvent) :
    arrowText render (some (outboxPayload event)) "account_id" = some (toString event.accountId) := by
  rw [arrowText, (arrow_payload event).2.2.2]
  rfl

section Rows

variable {subscription : Subscription} {accountId : ℤ} {kind : RouteKind} {binds : RouteBinds}
  (hkind : subscription.stream.routeKind = some kind)
  (hbinds : routeBinds subscription accountId kind = .ok binds)

include hkind hbinds

theorem routeMatchesSql_optional (snapshot : Option TimelineRouteSnapshot) :
    routeMatchesSql render binds (some ((snapshot.map encodeSnapshot).getD .null)) =
      .ok (snapshot.any (routeMatches subscription accountId)) := by
  cases snapshot with
  | none => exact routeMatchesSql_null binds
  | some snapshot => exact routeMatchesSql_encode hkind hbinds snapshot

theorem membership_event (event : StreamEvent) :
    membership render binds (event.id, outboxPayload event) =
      .ok (membershipOf subscription accountId event) := by
  obtain ⟨hbefore, hafter, -, -⟩ := arrow_payload event
  rw [membership, hbefore, hafter, routeMatchesSql_optional hkind hbinds, ok_bind,
    routeMatchesSql_optional hkind hbinds, ok_bind]
  rfl

/-- The query reads each event of the log as what it is. -/
theorem memberships_log (log : List StreamEvent) (replayThrough : ℕ) :
    memberships render binds replayThrough (log.map fun event => (event.id, outboxPayload event)) =
      .ok ((log.filter fun event => decide (event.id ≤ replayThrough) &&
        toString event.accountId == "0").map (membershipOf subscription accountId)) := by
  rw [memberships, List.filter_map, List.mapM_map]
  have hfilter : ((fun row : ℕ × Value => decide (row.1 ≤ replayThrough) &&
      arrowText render (some row.2) "account_id" == some "0") ∘
        fun event : StreamEvent => (event.id, outboxPayload event)) =
      fun event => decide (event.id ≤ replayThrough) && toString event.accountId == "0" := by
    funext event
    simp only [Function.comp_apply, accountText]
    rfl
  rw [hfilter]
  exact mapM_eq_ok fun event _ => membership_event hkind hbinds event

end Rows

/-- Events as they are recorded. -/
structure Recorded (event : StreamEvent) : Prop where
  update : event.event = "update" → event.before = none
  delete : event.event = "delete" → event.after = none

/-- A row of a class is that of an event which has left a route. -/
theorem before_of_class {subscription : Subscription} {accountId : ℤ} {event : StreamEvent}
    {createAfter : ℕ} (hrecorded : Recorded event)
    (hcandidate : (membershipOf subscription accountId event).isCandidate = true)
    (hclass : (membershipOf subscription accountId event).isDelete render createAfter = true ∨
      (membershipOf subscription accountId event).isTransition render createAfter = true) :
    event.event ≠ "update" ∧ event.before.any (routeMatches subscription accountId) = true := by
  rw [Membership.isCandidate, Bool.or_eq_true] at hcandidate
  rcases hclass with hdelete | htransition
  · rw [Membership.isDelete, Bool.and_eq_true] at hdelete
    have hevent := hdelete.2
    rw [show (membershipOf subscription accountId event).payload = outboxPayload event from rfl,
      eventText, beq_iff_eq, Option.some.injEq] at hevent
    refine ⟨by rw [hevent]; decide, hcandidate.resolve_right ?_⟩
    rw [membershipOf, hrecorded.delete hevent]
    exact Bool.false_ne_true
  · rw [Membership.isTransition, Bool.and_eq_true, Bool.and_eq_true] at htransition
    obtain ⟨⟨-, hevent⟩, hroute⟩ := htransition
    rw [show (membershipOf subscription accountId event).payload = outboxPayload event from rfl,
      eventText, Option.any_some, Bool.and_eq_true, bne_iff_ne] at hevent
    refine ⟨hevent.1, ?_⟩
    rw [Bool.or_eq_true, Bool.not_eq_true'] at hroute
    rcases hroute with hbefore | hafter
    · exact hbefore
    · refine hcandidate.resolve_right ?_
      rw [hafter]
      exact Bool.false_ne_true

theorem class_of_before {subscription : Subscription} {accountId : ℤ} {event : StreamEvent}
    {createAfter : ℕ} (hrecorded : Recorded event) (hle : event.id ≤ createAfter)
    (hbefore : event.before.any (routeMatches subscription accountId) = true) :
    (membershipOf subscription accountId event).isDelete render createAfter = true ∨
      (membershipOf subscription accountId event).isTransition render createAfter = true := by
  have hupdate : event.event ≠ "update" := by
    intro hevent
    rw [hrecorded.update hevent] at hbefore
    cases hbefore
  have hpayload : (membershipOf subscription accountId event).payload = outboxPayload event := rfl
  have hid : (membershipOf subscription accountId event).id ≤ createAfter := hle
  have hmatches : (membershipOf subscription accountId event).beforeMatches = true := hbefore
  by_cases hdelete : event.event = "delete"
  · left
    rw [Membership.isDelete, hpayload, eventText, hdelete, decide_eq_true hid]
    rfl
  · right
    rw [Membership.isTransition, hpayload, eventText, hmatches, decide_eq_true hid]
    simp [hupdate, hdelete]

/-- What has left a route has a frame that is no creation. -/
theorem frame_of_before {event : String} {after : Bool} {eventId createAfter : ℕ} :
    timelineReplayProtocolEvent event true after eventId createAfter ≠ none := by
  cases after with
  | true => simp [timelineReplayProtocolEvent, timelineProtocolEvent]
  | false =>
    by_cases hdelete : event = "delete" <;>
      simp [timelineReplayProtocolEvent, timelineProtocolEvent, hdelete]

/-- The ids of a log in their order are its events. -/
theorem eq_of_id {log : List StreamEvent}
    (hsorted : log.Pairwise fun event event' => event.id < event'.id) {event event' : StreamEvent}
    (hevent : event ∈ log) (hevent' : event' ∈ log) (hid : event.id = event'.id) :
    event = event' := by
  induction hsorted with
  | nil => cases hevent
  | cons hlt _ ih =>
    rcases List.mem_cons.mp hevent with rfl | hmem <;>
      rcases List.mem_cons.mp hevent' with rfl | hmem'
    · rfl
    · have hnext := hlt _ hmem'
      omega
    · have hnext := hlt _ hmem
      omega
    · exact ih hmem hmem'

theorem mem_newestRows {limit : ℕ} {rows : List Membership} {row : Membership}
    (h : row ∈ newestRows limit rows) : row ∈ rows :=
  List.mem_of_mem_drop h

theorem selectedRows_class {createAfter limit : ℕ} {candidates : List Membership} {row : Membership}
    (hids : ∀ row ∈ candidates, ∀ row' ∈ candidates, row.id = row'.id → row = row')
    (h : row ∈ selectedRows render createAfter limit candidates) (hle : row.id ≤ createAfter) :
    row ∈ candidates ∧
      (row.isDelete render createAfter = true ∨ row.isTransition render createAfter = true) := by
  obtain ⟨hmem, hselected⟩ := List.mem_filter.mp h
  refine ⟨hmem, ?_⟩
  simp only [Bool.or_eq_true, decide_eq_true_eq, List.any_eq_true, beq_iff_eq] at hselected
  rcases hselected with (hlate | ⟨selected, hselected, hid⟩) | ⟨selected, hselected, hid⟩
  · omega
  · obtain ⟨hcandidate, hclass⟩ := List.mem_filter.mp (mem_newestRows hselected)
    rw [hids row hmem selected hcandidate hid.symm]
    exact .inl hclass
  · obtain ⟨hcandidate, hclass⟩ := List.mem_filter.mp (mem_newestRows hselected)
    rw [hids row hmem selected hcandidate hid.symm]
    exact .inr hclass

/-- The match in the process, of both snapshots of an event. -/
def socketMatches (subscription : Subscription) (accountId : ℤ)
    (snapshot : Option TimelineRouteSnapshot) : Bool :=
  snapshot.any fun snapshot => timelineDeleteSnapshotMatches snapshot subscription accountId true

theorem socketMatches_eq {subscription : Subscription} {accountId : ℤ}
    {snapshot : Option TimelineRouteSnapshot}
    (h : ∀ s, snapshot = some s → Agrees subscription accountId s) :
    snapshot.any (routeMatches subscription accountId) =
      socketMatches subscription accountId snapshot := by
  cases snapshot with
  | none => rfl
  | some snapshot => exact routeMatches_eq_snapshotMatches (h snapshot rfl)

/-- CORRECT (replay filter): for a subscription to a timeline whose parameters can be bound, the query
    matches a snapshot exactly when the socket does, unless a missing parameter stands for one that is
    filed; an event of the past is selected only if it has a frame; and an event that has left a route
    is in one of the classes that are limited. -/
theorem replay_routes (render : Value → String) (subscription : Subscription) (accountId : ℤ)
    (kind : RouteKind) (binds : RouteBinds) (hkind : subscription.stream.routeKind = some kind)
    (hbinds : routeBinds subscription accountId kind = .ok binds) :
    (∀ snapshot, Agrees subscription accountId snapshot →
      routeMatchesSql render binds (some (encodeSnapshot snapshot)) =
        .ok (timelineDeleteSnapshotMatches snapshot subscription accountId true)) ∧
    ∀ (log : List StreamEvent) (replayThrough createAfter limit : ℕ),
      log.Pairwise (fun event event' => event.id < event'.id) →
      (∀ event ∈ log, Recorded event ∧ ∀ snapshot,
        event.before = some snapshot ∨ event.after = some snapshot →
          Agrees subscription accountId snapshot) →
      ∃ rows, memberships render binds replayThrough
          (log.map fun event => (event.id, outboxPayload event)) = .ok rows ∧
        (∀ row ∈ selectedRows render createAfter limit (rows.filter Membership.isCandidate),
          row.id ≤ createAfter → ∃ event ∈ log, row.id = event.id ∧ row.payload = outboxPayload event ∧
            timelineReplayProtocolEvent event.event (socketMatches subscription accountId event.before)
              (socketMatches subscription accountId event.after) event.id createAfter ≠ none) ∧
        ∀ event ∈ log, event.accountId = 0 → event.id ≤ replayThrough → event.id ≤ createAfter →
          socketMatches subscription accountId event.before = true →
          ∃ row ∈ rows.filter Membership.isCandidate, row.id = event.id ∧
            row.payload = outboxPayload event ∧
            (row.isDelete render createAfter = true ∨ row.isTransition render createAfter = true) := by
  refine ⟨fun snapshot hagrees => ?_, fun log replayThrough createAfter limit hsorted hlog => ?_⟩
  · rw [routeMatchesSql_encode hkind hbinds, routeMatches_eq_snapshotMatches hagrees]
  refine ⟨_, memberships_log hkind hbinds log replayThrough, fun row hrow hle => ?_, ?_⟩
  · have hids : ∀ row ∈ ((log.filter fun event => decide (event.id ≤ replayThrough) &&
          toString event.accountId == "0").map (membershipOf subscription accountId)).filter
            Membership.isCandidate,
        ∀ row' ∈ ((log.filter fun event => decide (event.id ≤ replayThrough) &&
          toString event.accountId == "0").map (membershipOf subscription accountId)).filter
            Membership.isCandidate, row.id = row'.id → row = row' := by
      intro row hrow row' hrow' hid
      obtain ⟨event, hevent, rfl⟩ := List.mem_map.mp (List.mem_filter.mp hrow).1
      obtain ⟨event', hevent', rfl⟩ := List.mem_map.mp (List.mem_filter.mp hrow').1
      have heq : event = event' := eq_of_id hsorted (List.mem_filter.mp hevent).1
        (List.mem_filter.mp hevent').1 hid
      rw [heq]
    obtain ⟨hmem, hclass⟩ := selectedRows_class hids hrow hle
    obtain ⟨hmem, hcandidate⟩ := List.mem_filter.mp hmem
    obtain ⟨event, hevent, rfl⟩ := List.mem_map.mp hmem
    have hevent := (List.mem_filter.mp hevent).1
    obtain ⟨hrecorded, hagrees⟩ := hlog event hevent
    obtain ⟨-, hbefore⟩ := before_of_class hrecorded hcandidate hclass
    rw [socketMatches_eq fun snapshot h => hagrees snapshot (.inl h)] at hbefore
    refine ⟨event, hevent, rfl, rfl, ?_⟩
    rw [hbefore]
    exact frame_of_before
  · intro event hevent haccount hthrough hle hbefore
    obtain ⟨hrecorded, hagrees⟩ := hlog event hevent
    rw [← socketMatches_eq fun snapshot h => hagrees snapshot (.inl h)] at hbefore
    refine ⟨membershipOf subscription accountId event, List.mem_filter.mpr ⟨List.mem_map.mpr
      ⟨event, List.mem_filter.mpr ⟨hevent, ?_⟩, rfl⟩, ?_⟩, rfl, rfl,
      class_of_before hrecorded hle hbefore⟩
    · rw [decide_eq_true hthrough, haccount]
      rfl
    · rw [Membership.isCandidate, Bool.or_eq_true]
      exact .inl hbefore

theorem replay_routes_sample :
    routeMatchesSql (fun _ => "") ⟨"list", false, false, false, "5", 5, 1⟩
        (some (encodeSnapshot ⟨false, false, true, false, none, [], [⟨1, 5⟩]⟩)) = .ok true ∧
      ∃ rows, memberships (fun _ => "") ⟨"list", false, false, false, "5", 5, 1⟩ 9
        ([⟨3, 0, "delete", 7, some ⟨false, false, true, false, none, [], [⟨1, 5⟩]⟩, none⟩].map
          fun event : StreamEvent => (event.id, outboxPayload event)) = .ok rows := by
  have hroutes := replay_routes (fun _ => "") ⟨.list, some "5", some "5"⟩ 1 .list
    ⟨"list", false, false, false, "5", 5, 1⟩ rfl (by decide)
  have hnumber : (some "5").bind parseI64 ≠ none := by decide
  refine ⟨?_, ?_⟩
  · rw [hroutes.1 _ fun hnone => absurd hnone hnumber]
    decide
  · obtain ⟨rows, hrows, -⟩ := hroutes.2
      [⟨3, 0, "delete", 7, some ⟨false, false, true, false, none, [], [⟨1, 5⟩]⟩, none⟩] 9 9 100
      (List.pairwise_singleton _ _) (by
        intro event hevent
        obtain rfl := List.mem_singleton.mp hevent
        exact ⟨⟨fun h => absurd h (by decide), fun _ => rfl⟩, fun _ _ hnone => absurd hnone hnumber⟩)
    exact ⟨rows, hrows⟩

/-- The list `abc` is the list 0 for the query and none for the socket; a delete that still has a
    route is selected without a frame; and a creation that had a route before is in no class. -/
theorem replay_routes_disagree :
    (∃ binds, routeBinds ⟨.list, some "abc", some "abc"⟩ 1 .list = .ok binds ∧
      routeMatchesSql (fun _ => "") binds
        (some (encodeSnapshot ⟨false, false, true, false, none, [], [⟨1, 0⟩]⟩)) = .ok true ∧
      timelineDeleteSnapshotMatches ⟨false, false, true, false, none, [], [⟨1, 0⟩]⟩
        ⟨.list, some "abc", some "abc"⟩ 1 true = false) ∧
    (∃ event : StreamEvent, event.id ≤ 9 ∧
      (replayQuery (fun _ => "") ⟨.publicFeed, none, none⟩ 1 .publicFeed 9 9 100
        [(event.id, outboxPayload event)]).map (List.map Membership.id) = .ok [event.id] ∧
      timelineReplayProtocolEvent event.event
        (socketMatches ⟨.publicFeed, none, none⟩ 1 event.before)
        (socketMatches ⟨.publicFeed, none, none⟩ 1 event.after) event.id 9 = none) ∧
    ∃ event : StreamEvent, event.id ≤ 9 ∧
      socketMatches ⟨.publicFeed, none, none⟩ 1 event.before = true ∧
      replayQuery (fun _ => "") ⟨.publicFeed, none, none⟩ 1 .publicFeed 9 9 100
        [(event.id, outboxPayload event)] = .ok [] := by
  refine ⟨⟨⟨"list", false, false, false, "abc", 0, 1⟩, ?_⟩,
    ⟨⟨3, 0, "delete", 7, none, some ⟨true, false, true, false, none, [], []⟩⟩, ?_⟩,
    ⟨⟨3, 0, "update", 7, some ⟨true, false, true, false, none, [], []⟩, none⟩, ?_⟩⟩ <;>
  with_unfolding_all decide

end Rustodon.Streaming
