import Mathlib.Data.List.Nodup
import Rustodon.Schemes.Checked
import Rustodon.Streaming.Socket

/-! @src web/stream_socket.rs, jobs.rs | name:The hand-off of a timeline | scheme:log with cursors |
    family:streaming

    A new subscription is first given a replay, up to the cursor that is read just before it, and
    then what the poll finds behind that cursor. The poll has a cursor of its own that may be on
    either side, and events go on being committed and pruned all the while. -/

namespace Rustodon.Streaming
open Schemes.Checked Schemes.Cursors Schemes.Runs

/-! ### The calls for a subscription -/

def Output.call? : Output → Option Call
  | .timeline call => some call
  | .account _ | .rejected _ _ => none

/-- The calls for a subscription, in their order. -/
def callsFor (subscription : Subscription) (outputs : List Output) : List Call :=
  (outputs.filterMap Output.call?).filter fun call => call.subscription.key == subscription.key

/-- The events that are processed for a subscription. -/
def processed (subscription : Subscription) (outputs : List Output) : List StreamEvent :=
  (callsFor subscription outputs).map Call.event

variable {subscription : Subscription}

theorem callsFor_timeline (calls : List Call) : callsFor subscription (calls.map .timeline) =
    calls.filter fun call => call.subscription.key == subscription.key := by
  rw [callsFor, List.filterMap_map]
  exact congrArg _ List.filterMap_some

@[simp] theorem processed_nil : processed subscription [] = [] := rfl

@[simp] theorem processed_append (outputs outputs' : List Output) :
    processed subscription (outputs ++ outputs') =
      processed subscription outputs ++ processed subscription outputs' := by
  simp [processed, callsFor]

@[simp] theorem processed_account (frames : List Frame) :
    processed subscription (frames.map .account) = [] := by
  simp [processed, callsFor, Output.call?, List.filterMap_map, Function.comp_def]

/-- What is processed of calls that are made until one fails. -/
theorem processed_untilFailure (subscription : Subscription) (items : List (Call × Bool)) :
    (processed subscription ((untilFailure items).1.map .timeline)).Sublist
      (((items.map Prod.fst).filter fun call => call.subscription.key == subscription.key).map
        Call.event) := by
  rw [processed, callsFor_timeline]
  exact ((untilFailure_initial items).sublist.filter _).map _

theorem processed_of_success {items : List (Call × Bool)} (h : (untilFailure items).2 = true) :
    processed subscription ((untilFailure items).1.map .timeline) =
      ((items.map Prod.fst).filter fun call => call.subscription.key == subscription.key).map
        Call.event := by
  rw [processed, callsFor_timeline, untilFailure_of_success h]

/-! ### The poll -/

section Poll

variable {answers : Answers} {connection : Connection} {baseline : ℕ}

theorem StreamingSubscriptions.filter_key {subscriptions : StreamingSubscriptions}
    (h : (subscription, baseline) ∈ subscriptions.values) :
    (subscriptions.values.filter fun value => value.1.key == subscription.key) =
      [(subscription, baseline)] := by
  obtain ⟨before, behind, hvalues⟩ := List.append_of_mem h
  have hdistinct := subscriptions.distinct
  rw [hvalues, List.pairwise_append, List.pairwise_cons] at hdistinct
  obtain ⟨-, ⟨hbehind, -⟩, hbefore⟩ := hdistinct
  have hnone : before.filter (fun value => value.1.key == subscription.key) = [] :=
    List.filter_eq_nil_iff.mpr fun value hvalue => by
      simpa using hbefore value hvalue _ List.mem_cons_self
  have hnone' : behind.filter (fun value => value.1.key == subscription.key) = [] :=
    List.filter_eq_nil_iff.mpr fun value hvalue => by
      simpa using (hbehind value hvalue).symm
  rw [hvalues, List.filter_append, List.filter_cons_of_pos (by simp), hnone, hnone',
    List.nil_append]

/-- An event is due for a subscription when it is global and behind the baseline. -/
def due (baseline : ℕ) (event : StreamEvent) : Bool :=
  decide (event.accountId = 0) && decide (baseline < event.id)

/-- The calls for a subscription that `stream_timeline_event` makes when none fails. -/
theorem timelineEvent_calls (answers : Answers) {subscriptions : StreamingSubscriptions}
    (accountId : ℤ) (hmem : (subscription, baseline) ∈ subscriptions.values)
    (htimeline : subscription.isTimeline = true) (event : StreamEvent) :
    ((((subscriptions.values.filter fun value =>
        value.1.isTimeline && decide (value.2 < event.id)).map fun value =>
          streamTimelineEventForSubscription answers accountId value.1 event none).map
            Prod.fst).filter fun call => call.subscription.key == subscription.key).map Call.event =
      if baseline < event.id then [event] else [] := by
  have hkey : ((subscriptions.values.filter fun value =>
      value.1.isTimeline && decide (value.2 < event.id)).filter fun value =>
        value.1.key == subscription.key) =
      if baseline < event.id then [(subscription, baseline)] else [] := by
    rw [List.filter_filter, List.filter_congr (fun value _ => Bool.and_comm _ _),
      ← List.filter_filter, StreamingSubscriptions.filter_key hmem]
    by_cases h : baseline < event.id <;> simp [htimeline, h]
  rw [List.map_map, List.filter_map, List.map_map]
  simp only [Function.comp_def, streamTimelineEventForSubscription]
  rw [hkey]
  split_ifs <;> rfl

theorem streamPendingEvent_processed (answers : Answers)
    (hmem : (subscription, baseline) ∈ connection.subscriptions.values)
    (htimeline : subscription.isTimeline = true) (event : StreamEvent) :
    (processed subscription (streamPendingEvent answers connection event).1).Sublist
      ([event].filter (due baseline)) ∧
    ((streamPendingEvent answers connection event).2 = .go →
      processed subscription (streamPendingEvent answers connection event).1 =
        [event].filter (due baseline)) := by
  by_cases hglobal : event.accountId = 0
  · have hdue : [event].filter (due baseline) = if baseline < event.id then [event] else [] := by
      simp [due, hglobal, List.filter_singleton]
    have hcalls := timelineEvent_calls answers connection.accountId hmem htimeline event
    rw [hdue, ← hcalls]
    simp only [streamPendingEvent, hglobal, ↓reduceIte, streamTimelineEvent]
    refine ⟨processed_untilFailure _ _, fun hgo => processed_of_success ?_⟩
    by_contra hfailed
    simp [Outcome.ofSuccess, hfailed] at hgo
  · have hdue : [event].filter (due baseline) = [] := by simp [due, hglobal]
    have hnone : processed subscription (streamPendingEvent answers connection event).1 = [] := by
      simp only [streamPendingEvent, hglobal, ↓reduceIte]
      split_ifs <;> try rfl
      split <;> simp
    rw [hdue, hnone]
    exact ⟨List.Sublist.refl _, fun _ => rfl⟩

/-- The poll processes for a subscription what is due among the events, up to a failure. -/
theorem streamPendingEvents_processed
    (hmem : (subscription, baseline) ∈ connection.subscriptions.values)
    (htimeline : subscription.isTimeline = true) (cursor : ℕ) (events : List StreamEvent) :
    (processed subscription (streamPendingEvents answers connection cursor events).2.1).Sublist
      (events.filter (due baseline)) ∧
    ((streamPendingEvents answers connection cursor events).2.2 = .go →
      processed subscription (streamPendingEvents answers connection cursor events).2.1 =
        events.filter (due baseline)) := by
  induction events generalizing cursor with
  | nil => exact ⟨List.Sublist.refl _, fun _ => rfl⟩
  | cons event events ih =>
    obtain ⟨hsub, hall⟩ := streamPendingEvent_processed answers hmem htimeline event
    have hsplit : (event :: events).filter (due baseline) =
        [event].filter (due baseline) ++ events.filter (due baseline) := by
      rw [← List.filter_append, List.singleton_append]
    rw [streamPendingEvents, hsplit]
    split
    · rename_i outputs hevent
      rw [hevent] at hall
      rw [processed_append, hall rfl]
      exact ⟨(List.append_sublist_append_left _).mpr (ih event.id).1,
        fun hgo => congrArg _ ((ih event.id).2 hgo)⟩
    · rename_i outputs outcome hgo hevent
      rw [hevent] at hsub
      exact ⟨hsub.trans (List.sublist_append_left _ _), fun hgo' => (hgo hgo').elim⟩

/-- A poll that goes on ends behind the last of the events. -/
theorem streamPendingEvents_cursor (cursor : ℕ) (events : List StreamEvent)
    (h : (streamPendingEvents answers connection cursor events).2.2 = .go) :
    (streamPendingEvents answers connection cursor events).1 =
      (events.getLast?.map StreamEvent.id).getD cursor := by
  induction events generalizing cursor with
  | nil => rfl
  | cons event events ih =>
    rw [streamPendingEvents] at h ⊢
    split at h
    · refine (ih event.id h).trans ?_
      cases hlast : events.getLast? <;> simp [List.getLast?_cons, hlast]
    · rename_i outputs outcome hgo hevent
      exact (hgo h).elim

end Poll

/-! ### What a step does -/

/-- The calls of a replay, with their successes. -/
def replayCalls (s : State) (subscription : Subscription) (createAfter : ℕ) (answers : Answers)
    (events : List StreamEvent) : List (Call × Bool) :=
  events.map fun event => streamTimelineEventForSubscription answers s.connection.accountId
    subscription event (some createAfter)

/-- A replay whose query fails ends the connection; otherwise its events are taken in order. -/
theorem replay_cases (s : State) (subscription : Subscription) (createAfter replayThrough : ℕ)
    (answers : Answers) :
    (replayEvents s subscription createAfter replayThrough = none ∧
      s.replay subscription createAfter replayThrough answers = (s.close, [])) ∨
    ∃ events, replayEvents s subscription createAfter replayThrough = some events ∧
      s.replay subscription createAfter replayThrough answers =
        (if (untilFailure (replayCalls s subscription createAfter answers events)).2 then
            s.establish subscription replayThrough else s.close,
          (untilFailure (replayCalls s subscription createAfter answers events)).1.map
            .timeline) := by
  rw [State.replay]
  split
  · exact .inl ⟨‹_›, rfl⟩
  · rename_i events hevents
    exact .inr ⟨events, hevents, rfl⟩

def State.batch (s : State) : List StreamEvent :=
  s.log.after s.connection.cursor streamEventBatchSize

/-- The loop of a poll. -/
def State.pending (s : State) (answers : Answers) : ℕ × List Output × Outcome :=
  streamPendingEvents answers s.connection s.connection.cursor s.batch

/-- The ways in which a step can change a state. -/
inductive Change (s : State) : Op → List Output → State → Prop where
  | logged {op : Op} {log : StreamLog} (later : Later s.log log) :
      Change s op [] { s with log := log }
  | stayed {op : Op} {outputs : List Output}
      (quiet : ∀ subscription, processed subscription outputs = []) :
      Change s op outputs { s with phase := .idle }
  | accepted {subscription : Subscription} {createAfter : ℕ} {sent : Bool}
      (fresh : s.connection.subscriptions.containsKey subscription = false) :
      Change s (.subscribe subscription sent) []
        { s with phase := .authorizing subscription createAfter }
  | authorized {subscription : Subscription} {createAfter : ℕ} {allowed : Except Unit Bool}
      {sent : Bool} (phase : s.phase = .authorizing subscription createAfter) :
      Change s (.authorize allowed sent) []
        { s with
          phase := .replaying subscription createAfter
            (if subscription.isTimeline then streamCursor s.log else 0) }
  | replayed {subscription : Subscription} {createAfter replayThrough : ℕ} {answers : Answers}
      {events : List StreamEvent}
      (phase : s.phase = .replaying subscription createAfter replayThrough)
      (events_eq : replayEvents s subscription createAfter replayThrough = some events)
      (success : (untilFailure (replayCalls s subscription createAfter answers events)).2 = true) :
      Change s (.replay answers)
        ((untilFailure (replayCalls s subscription createAfter answers events)).1.map .timeline)
        (s.establish subscription replayThrough)
  | unsubscribed {subscription : Subscription} (phase : s.phase = .idle) :
      Change s (.unsubscribe subscription) []
        { s with
          connection := { s.connection with
            subscriptions := s.connection.subscriptions.remove subscription } }
  | systemPolled {systemCursor : ℕ} {phase : Phase} (open_or_closed : phase = .idle ∨ phase = .closed) :
      Change s .pollSystem []
        { s with connection := { s.connection with systemCursor := systemCursor }, phase := phase }
  | polled {answers : Answers} (go : (s.pending answers).2.2 = .go) :
      Change s (.poll answers) (s.pending answers).2.1
        { s with connection := { s.connection with cursor := (s.pending answers).1 }, phase := .idle }
  | pollFailed {answers : Answers} :
      Change s (.poll answers) (s.pending answers).2.1
        { s with
          connection := { s.connection with cursor := (s.pending answers).1 }, phase := .closed }
  | replayFailed {subscription : Subscription} {createAfter replayThrough : ℕ} {answers : Answers}
      {events : List StreamEvent}
      (phase : s.phase = .replaying subscription createAfter replayThrough)
      (events_eq : replayEvents s subscription createAfter replayThrough = some events) :
      Change s (.replay answers)
        ((untilFailure (replayCalls s subscription createAfter answers events)).1.map .timeline)
        s.close
  | closed {op : Op} {outputs : List Output}
      (quiet : ∀ subscription, processed subscription outputs = []) : Change s op outputs s.close

theorem reject_change (s : State) (op : Op) (status : ℕ) (message : String) (sent : Bool) :
    Change s op (s.reject status message sent).2 (s.reject status message sent).1 := by
  cases sent with
  | true => exact .stayed fun _ => rfl
  | false => exact .closed fun _ => rfl

theorem streamingSubscribe_change {s : State} (hidle : s.phase = .idle) (subscription : Subscription)
    (sent : Bool) :
    Change s (.subscribe subscription sent) (s.streamingSubscribe subscription sent).2
      (s.streamingSubscribe subscription sent).1 := by
  have hstay : { s with phase := .idle } = s := by rw [← hidle]
  rw [State.streamingSubscribe]
  by_cases hcapacity : s.connection.subscriptions.hasCapacityFor subscription
  · by_cases hcontains : s.connection.subscriptions.containsKey subscription
    · simp only [hcapacity, hcontains, Bool.not_true, Bool.false_eq_true, ↓reduceIte]
      exact hstay ▸ .stayed fun _ => rfl
    · by_cases hscope : subscription.stream.permits s.connection.scopes
      · simp only [hcapacity, hcontains, hscope, Bool.not_true, Bool.false_eq_true, ↓reduceIte]
        exact .accepted (Bool.eq_false_iff.mpr hcontains)
      · simp only [hcapacity, hcontains, hscope, Bool.not_true, Bool.not_false, Bool.false_eq_true,
          ↓reduceIte]
        exact reject_change ..
  · simp only [hcapacity, Bool.not_false, ↓reduceIte]
    exact reject_change ..

theorem authorize_change {s : State} {createAfter : ℕ}
    (hphase : s.phase = .authorizing subscription createAfter) (allowed : Except Unit Bool)
    (sent : Bool) :
    Change s (.authorize allowed sent) (s.authorize subscription createAfter allowed sent).2
      (s.authorize subscription createAfter allowed sent).1 := by
  rw [State.authorize]
  split
  · exact .closed fun _ => rfl
  · split_ifs <;> exact reject_change ..
  · exact .authorized hphase

theorem replay_change {s : State} {createAfter replayThrough : ℕ}
    (hphase : s.phase = .replaying subscription createAfter replayThrough) (answers : Answers) :
    Change s (.replay answers) (s.replay subscription createAfter replayThrough answers).2
      (s.replay subscription createAfter replayThrough answers).1 := by
  rcases replay_cases s subscription createAfter replayThrough answers with
    ⟨-, h⟩ | ⟨events, hevents, h⟩
  · rw [h]
    exact .closed fun _ => rfl
  · rw [h]
    split_ifs with hsuccess
    · exact .replayed hphase hevents hsuccess
    · exact .replayFailed hphase hevents

theorem poll_change {s : State} (hidle : s.phase = .idle) (answers : Answers) :
    Change s (.poll answers) (s.poll answers).2 (s.poll answers).1 := by
  have hstay : { s with phase := .idle } = s := by rw [← hidle]
  rw [State.poll]
  split_ifs with hempty
  · exact hstay ▸ .stayed fun _ => rfl
  · by_cases hgo : (s.pending answers).2.2 = .go
    · have h := Change.polled hgo
      simp only [State.pending, State.batch] at h hgo
      simpa only [hgo, ↓reduceIte] using h
    · have h : Change s (.poll answers) _ _ := Change.pollFailed
      simp only [State.pending, State.batch] at h hgo
      simpa only [hgo, ↓reduceIte] using h

theorem step_change {s t : State} {op : Op} {outputs : List Output}
    (h : s.step op = some (t, outputs)) : Change s op outputs t := by
  cases op with
  | append events =>
    obtain ⟨log, hlog, heq⟩ := Option.map_eq_some_iff.mp h
    obtain ⟨rfl, rfl⟩ := Prod.mk.inj heq
    exact .logged (Later.append hlog)
  | prune pruned =>
    obtain ⟨rfl, rfl⟩ := Prod.mk.inj (Option.some.inj h)
    exact .logged (Later.delete s.log pruned)
  | subscribe subscription sent =>
    rw [State.step] at h
    split at h
    · obtain ⟨rfl, rfl⟩ := Prod.mk.inj (Option.some.inj h)
      exact streamingSubscribe_change ‹_› subscription sent
    · cases h
  | authorize allowed sent =>
    rw [State.step] at h
    split at h
    · obtain ⟨rfl, rfl⟩ := Prod.mk.inj (Option.some.inj h)
      exact authorize_change ‹_› allowed sent
    · cases h
  | replay answers =>
    rw [State.step] at h
    split at h
    · obtain ⟨rfl, rfl⟩ := Prod.mk.inj (Option.some.inj h)
      exact replay_change ‹_› answers
    · cases h
  | unsubscribe subscription =>
    rw [State.step] at h
    split at h
    · obtain ⟨rfl, rfl⟩ := Prod.mk.inj (Option.some.inj h)
      exact .unsubscribed ‹_›
    · cases h
  | pollSystem =>
    rw [State.step] at h
    split at h
    · obtain ⟨rfl, rfl⟩ := Prod.mk.inj (Option.some.inj h)
      exact .systemPolled (by split_ifs <;> simp)
    · cases h
  | poll answers =>
    rw [State.step] at h
    split at h
    · obtain ⟨rfl, rfl⟩ := Prod.mk.inj (Option.some.inj h)
      exact poll_change ‹_› answers
    · cases h
  | disconnect =>
    rw [State.step] at h
    split at h
    · cases h
    · obtain ⟨rfl, rfl⟩ := Prod.mk.inj (Option.some.inj h)
      exact .closed fun _ => rfl

theorem Change.accountId {s t : State} {op : Op} {outputs : List Output}
    (h : Change s op outputs t) : t.connection.accountId = s.connection.accountId := by
  cases h <;> rfl

theorem Change.later {s t : State} {op : Op} {outputs : List Output}
    (h : Change s op outputs t) : Later s.log t.log := by
  cases h with
  | logged later => exact later
  | _ => exact .refl _

/-- A connection that has ended stays so. -/
theorem step_of_closed {s t : State} {op : Op} {outputs : List Output} (hclosed : s.phase = .closed)
    (h : s.step op = some (t, outputs)) : t.phase = .closed ∧ outputs = [] := by
  cases op with
  | append events =>
    obtain ⟨log, -, heq⟩ := Option.map_eq_some_iff.mp h
    obtain ⟨rfl, rfl⟩ := Prod.mk.inj heq
    exact ⟨hclosed, rfl⟩
  | prune pruned =>
    obtain ⟨rfl, rfl⟩ := Prod.mk.inj (Option.some.inj h)
    exact ⟨hclosed, rfl⟩
  | _ => simp [State.step, hclosed] at h

/-! ### Before the replay -/

/-- Between the second read of the stream cursor and the replay: what the replay leaves out is also
    ahead of the poll. -/
structure Replayable (s : State) (subscription : Subscription) (replayThrough : ℕ) : Prop where
  fresh : s.connection.subscriptions.containsKey subscription = false
  through_le : replayThrough ≤ s.log.last
  apart : subscription.isTimeline = true → ∀ event ∈ s.log.entries,
    event.id ≤ replayThrough ∨ s.connection.cursor < event.id

/-- The invariant of a connection. -/
structure Sound (s : State) : Prop where
  cursor_le : s.phase ≠ .closed → s.connection.cursor ≤ s.log.last
  authorizing : ∀ subscription createAfter, s.phase = .authorizing subscription createAfter →
    s.connection.subscriptions.containsKey subscription = false
  replaying : ∀ subscription createAfter replayThrough,
    s.phase = .replaying subscription createAfter replayThrough →
      Replayable s subscription replayThrough

theorem sound_connect (log : StreamLog) (accountId tokenId : ℤ) (scopes : List String) :
    Sound (connect log accountId tokenId scopes) where
  cursor_le _ := log.top_le_last
  authorizing _ _ h := by cases h
  replaying _ _ _ h := by cases h

/-- Out of a subscribe, the cursor is all there is to know. -/
theorem sound_of_settled {s : State} (h : s.phase = .idle ∨ s.phase = .closed)
    (hcursor : s.phase ≠ .closed → s.connection.cursor ≤ s.log.last) : Sound s where
  cursor_le := hcursor
  authorizing _ _ hphase := by rcases h with h | h <;> cases h.symm.trans hphase
  replaying _ _ _ hphase := by rcases h with h | h <;> cases h.symm.trans hphase

theorem sound_change {s t : State} {op : Op} {outputs : List Output} (hs : Sound s)
    (hopen : s.phase ≠ .closed) (h : Change s op outputs t) : Sound t := by
  have hcursor := hs.cursor_le hopen
  cases h with
  | logged later =>
    refine ⟨fun _ => hcursor.trans later.last, hs.authorizing, fun subscription c r hphase => ?_⟩
    obtain ⟨hfresh, hthrough, hapart⟩ := hs.replaying subscription c r hphase
    refine ⟨hfresh, hthrough.trans later.last, fun htimeline event hevent => ?_⟩
    rcases later.entries event hevent with hevent | hnew
    · exact hapart htimeline event hevent
    · exact .inr (hcursor.trans_lt hnew)
  | stayed quiet => exact sound_of_settled (.inl rfl) fun _ => hcursor
  | accepted fresh =>
    refine ⟨fun _ => hcursor, fun subscription c hphase => ?_, fun _ _ _ hphase => by cases hphase⟩
    obtain ⟨rfl, -⟩ := Phase.authorizing.inj hphase
    exact fresh
  | @authorized subscription createAfter _ _ phase =>
    refine ⟨fun _ => hcursor, fun _ _ hphase => (by cases hphase), fun subscription c r hphase => ?_⟩
    obtain ⟨rfl, -, rfl⟩ := Phase.replaying.inj hphase
    refine ⟨hs.authorizing _ _ phase, ?_, fun htimeline event hevent => .inl ?_⟩
    · split_ifs
      · exact s.log.top_le_last
      · exact Nat.zero_le _
    · rw [if_pos htimeline]
      exact Log.le_top hevent
  | replayed phase events_eq success => exact sound_of_settled (.inl rfl) fun _ => hcursor
  | unsubscribed phase => exact sound_of_settled (.inl phase) fun _ => hcursor
  | systemPolled settled => exact sound_of_settled settled fun _ => hcursor
  | polled go =>
    refine sound_of_settled (.inl rfl) fun _ => ?_
    have hreached := streamPendingEvents_cursor _ _ go
    exact hreached.trans_le (Log.reached_le_last hcursor)
  | pollFailed => exact sound_of_settled (.inr rfl) fun h => absurd rfl h
  | replayFailed phase events_eq => exact sound_of_settled (.inr rfl) fun h => absurd rfl h
  | closed quiet => exact sound_of_settled (.inr rfl) fun h => absurd rfl h

theorem sound_step {s t : State} {label : Label} (hs : Sound s) (h : Step s label t) : Sound t := by
  by_cases hclosed : s.phase = .closed
  · have ht := (step_of_closed hclosed h).1
    exact sound_of_settled (.inr ht) fun hopen => absurd ht hopen
  · exact sound_change hs hclosed (step_change h)

theorem sound_of_run {log : StreamLog} {accountId tokenId : ℤ} {scopes : List String}
    {labels : List Label} {s : State}
    (h : Run Step (connect log accountId tokenId scopes) labels s) : Sound s :=
  h.preserves (fun _ _ _ => sound_step) (sound_connect log accountId tokenId scopes)

/-! ### The replay -/

/-- The events that a replay selects are retained, in order, and not behind its end. -/
theorem replayEvents_sound {s : State} {createAfter replayThrough : ℕ} {events : List StreamEvent}
    (h : replayEvents s subscription createAfter replayThrough = some events) :
    events.Pairwise (fun event other => event.id < other.id) ∧
      ∀ event ∈ events, event.id ≤ replayThrough := by
  rw [replayEvents] at h
  split_ifs at h
  · rw [streamReplayEventsForSubscription] at h
    split_ifs at h
    obtain rfl := Option.some.inj h
    refine ⟨s.log.ascending.sublist (List.filter_sublist.trans List.filter_sublist), ?_⟩
    intro event hevent
    have hcandidate := (List.mem_filter.mp (List.mem_filter.mp hevent).1).2
    simp only [Bool.and_eq_true, decide_eq_true_eq] at hcandidate
    exact hcandidate.1.1
  · obtain rfl := Option.some.inj h
    exact ⟨.nil, fun _ h => by cases h⟩

/-- Everything that matches behind `createAfter` is selected. -/
theorem mem_replayEvents {s : State} {createAfter replayThrough : ℕ} {events : List StreamEvent}
    (htimeline : subscription.isTimeline = true)
    (h : replayEvents s subscription createAfter replayThrough = some events) {event : StreamEvent}
    (hretained : event ∈ s.log.entries) (hglobal : event.accountId = 0)
    (hmatches : eventMatches subscription s.connection.accountId event = true)
    (hcreate : createAfter < event.id) (hthrough : event.id ≤ replayThrough) : event ∈ events := by
  rw [replayEvents, if_pos htimeline, streamReplayEventsForSubscription] at h
  split_ifs at h
  obtain rfl := Option.some.inj h
  simp [List.mem_filter, hretained, hglobal, hmatches, hcreate, hthrough]

theorem replayCalls_filter {s : State} {createAfter : ℕ} {answers : Answers}
    (events : List StreamEvent) (other : Subscription) :
    ((((replayCalls s subscription createAfter answers events).map Prod.fst).filter fun call =>
      call.subscription.key == other.key).map Call.event) =
        if subscription.key = other.key then events else [] := by
  rw [replayCalls, List.map_map, List.filter_map, List.map_map]
  simp only [Function.comp_def, streamTimelineEventForSubscription]
  split_ifs with hkey
  · simp [hkey]
  · simp [hkey]

theorem protocolFrame_event {answers : Answers} {event : StreamEvent}
    {protocolEvent : Option String} {frame : Frame}
    (h : protocolFrame answers subscription event protocolEvent = .ok (some frame)) :
    protocolEvent = some frame.event := by
  cases protocolEvent with
  | none => cases h
  | some protocolEvent =>
    simp only [protocolFrame] at h
    split_ifs at h
    · exact congrArg some (congrArg Frame.event (Option.some.inj (Except.ok.inj h)))
    · obtain ⟨payload, -, h⟩ := bind_eq_ok h
      obtain ⟨text, -, rfl⟩ := Option.map_eq_some_iff.mp (Except.ok.inj h)
      rfl

/-- A replay makes no `update` of what was there before the subscription. -/
theorem timelineFrame_update {answers : Answers} {accountId : ℤ} {event : StreamEvent}
    {createAfter : ℕ} {frame : Frame}
    (h : timelineFrame answers accountId subscription event (some createAfter) = .ok (some frame))
    (hupdate : frame.event = "update") : createAfter < event.id := by
  rw [timelineFrame] at h
  split_ifs at h
  · obtain ⟨before, -, h⟩ := bind_eq_ok h
    obtain ⟨after, -, h⟩ := bind_eq_ok h
    have hevent := protocolFrame_event h
    rw [hupdate] at hevent
    exact createAfter_lt_of_replay_update hevent
  · cases Except.ok.inj h

/-! ### After the replay -/

/-- While a subscription is established: the poll has processed for it all that is due behind the
    replay and not behind the cursor. -/
structure Following (s : State) (subscription : Subscription) (replayThrough : ℕ)
    (polled : List StreamEvent) : Prop where
  baseline : (subscription, replayThrough) ∈ s.connection.subscriptions.values
  through_le : replayThrough ≤ s.log.last
  cursor_le : s.connection.cursor ≤ s.log.last
  behind : ∀ event ∈ polled, event.id ≤ s.connection.cursor
  complete : ∀ event ∈ s.log.entries, due replayThrough event = true →
    event.id ≤ s.connection.cursor → event ∈ polled

/-- What holds of the events that the poll has processed since the replay, in any state. -/
structure Polled (s : State) (subscription : Subscription) (replayThrough : ℕ)
    (polled : List StreamEvent) : Prop where
  ascending : polled.Pairwise fun event other => event.id < other.id
  later : ∀ event ∈ polled, replayThrough < event.id
  following : s.phase ≠ .closed → Following s subscription replayThrough polled

variable {replayThrough : ℕ} {polled : List StreamEvent}

theorem Following.not_fresh {s : State} (h : Following s subscription replayThrough polled)
    {other : Subscription} (hfresh : s.connection.subscriptions.containsKey other = false) :
    other.key ≠ subscription.key := by
  intro heq
  have hcontains : s.connection.subscriptions.containsKey other = true :=
    StreamingSubscriptions.containsKey_iff.mpr ⟨_, h.baseline, heq.symm⟩
  exact Bool.false_ne_true (hfresh.symm.trans hcontains)

/-- Only the subscriptions, the cursor and the log matter. -/
theorem Following.of_same {s t : State} (h : Following s subscription replayThrough polled)
    (hlog : t.log = s.log) (hcursor : t.connection.cursor = s.connection.cursor)
    (hbaseline : (subscription, replayThrough) ∈ t.connection.subscriptions.values) :
    Following t subscription replayThrough polled where
  baseline := hbaseline
  through_le := hlog ▸ h.through_le
  cursor_le := by rw [hlog, hcursor]; exact h.cursor_le
  behind := by rw [hcursor]; exact h.behind
  complete := by rw [hlog, hcursor]; exact h.complete

theorem Following.later {s : State} (h : Following s subscription replayThrough polled)
    {log : StreamLog} (hlater : Later s.log log) :
    Following { s with log := log } subscription replayThrough polled where
  baseline := h.baseline
  through_le := h.through_le.trans hlater.last
  cursor_le := h.cursor_le.trans hlater.last
  behind := h.behind
  complete event hevent hdue hcursor := by
    rcases hlater.entries event hevent with hevent | hnew
    · exact h.complete event hevent hdue hcursor
    · exact absurd hcursor (Nat.not_le_of_lt (h.cursor_le.trans_lt hnew))

/-- What a poll processes comes behind what the polls before have processed. -/
theorem polled_append {s : State} (h : Polled s subscription replayThrough polled)
    (hopen : s.phase ≠ .closed) {events : List StreamEvent}
    (hevents : events.Sublist (s.batch.filter (due replayThrough))) :
    (polled ++ events).Pairwise (fun event other => event.id < other.id) ∧
      ∀ event ∈ polled ++ events, replayThrough < event.id := by
  have hmem : ∀ event ∈ events, s.connection.cursor < event.id ∧ replayThrough < event.id := by
    intro event hevent
    obtain ⟨hbatch, hdue⟩ := List.mem_filter.mp (hevents.subset hevent)
    simp only [due, Bool.and_eq_true, decide_eq_true_eq] at hdue
    exact ⟨(Log.mem_after hbatch).2, hdue.2⟩
  refine ⟨List.pairwise_append.mpr ⟨h.ascending, ?_, ?_⟩, ?_⟩
  · exact (s.log.after_ascending _ _).sublist (hevents.trans List.filter_sublist)
  · intro event hevent other hother
    exact ((h.following hopen).behind event hevent).trans_lt (hmem other hother).1
  · intro event hevent
    rcases List.mem_append.mp hevent with hevent | hevent
    · exact h.later event hevent
    · exact (hmem event hevent).2

theorem pending_processed {s : State} (htimeline : subscription.isTimeline = true)
    (h : Following s subscription replayThrough polled) (answers : Answers) :
    (processed subscription (s.pending answers).2.1).Sublist (s.batch.filter (due replayThrough)) :=
  (streamPendingEvents_processed h.baseline htimeline _ _).1

/-- A poll that goes on takes the whole batch. -/
theorem following_polled {s : State} {answers : Answers} (htimeline : subscription.isTimeline = true)
    (h : Following s subscription replayThrough polled) (hgo : (s.pending answers).2.2 = .go) :
    Following
      { s with connection := { s.connection with cursor := (s.pending answers).1 }, phase := .idle }
      subscription replayThrough (polled ++ processed subscription (s.pending answers).2.1) := by
  have hcursor : (s.pending answers).1 = s.log.reached s.connection.cursor streamEventBatchSize :=
    streamPendingEvents_cursor _ _ hgo
  have hprocessed : processed subscription (s.pending answers).2.1 =
      s.batch.filter (due replayThrough) :=
    (streamPendingEvents_processed h.baseline htimeline _ _).2 hgo
  rw [hprocessed, hcursor]
  refine ⟨h.baseline, h.through_le, Log.reached_le_last h.cursor_le, ?_, ?_⟩
  · intro event hevent
    rcases List.mem_append.mp hevent with hevent | hevent
    · exact (h.behind event hevent).trans (Log.cursor_le_reached ..)
    · exact Log.le_reached (List.mem_filter.mp hevent).1
  · intro event hevent hdue hreached
    by_cases hbehind : event.id ≤ s.connection.cursor
    · exact List.mem_append_left _ (h.complete event hevent hdue hbehind)
    · have hbatch : event ∈ s.batch :=
        Log.mem_after_of_le_reached hevent (Nat.lt_of_not_le hbehind) hreached
      exact List.mem_append_right _ (List.mem_filter.mpr ⟨hbatch, hdue⟩)

theorem processed_replay {s : State} {createAfter : ℕ} {answers : Answers}
    {events : List StreamEvent} {other : Subscription} (hkey : other.key ≠ subscription.key) :
    processed subscription
      ((untilFailure (replayCalls s other createAfter answers events)).1.map .timeline) = [] := by
  have h := processed_untilFailure subscription
    (replayCalls s other createAfter answers events)
  rw [replayCalls_filter, if_neg hkey] at h
  exact List.sublist_nil.mp h

/-- A step neither loses nor repeats what is due for an established subscription. -/
theorem polled_change {s t : State} {op : Op} {outputs : List Output}
    (htimeline : subscription.isTimeline = true) (hs : Sound s) (hopen : s.phase ≠ .closed)
    (h : Polled s subscription replayThrough polled)
    (hstays : ∀ other, op = .unsubscribe other → other.key ≠ subscription.key)
    (hchange : Change s op outputs t) :
    Polled t subscription replayThrough (polled ++ processed subscription outputs) := by
  have hfollowing := h.following hopen
  have hsame : ∀ {t : State}, t.log = s.log → t.connection.cursor = s.connection.cursor →
      (subscription, replayThrough) ∈ t.connection.subscriptions.values →
        Polled t subscription replayThrough polled := fun hlog hcursor hbaseline =>
    ⟨h.ascending, h.later, fun _ => hfollowing.of_same hlog hcursor hbaseline⟩
  have hended : ∀ {t : State}, t.phase = .closed → Polled t subscription replayThrough polled :=
    fun hclosed => ⟨h.ascending, h.later, fun hopen => absurd hclosed hopen⟩
  cases hchange with
  | logged later =>
    rw [processed_nil, List.append_nil]
    exact ⟨h.ascending, h.later, fun _ => hfollowing.later later⟩
  | stayed quiet =>
    rw [quiet, List.append_nil]
    exact hsame rfl rfl hfollowing.baseline
  | accepted fresh | authorized phase | systemPolled settled =>
    rw [processed_nil, List.append_nil]
    exact hsame rfl rfl hfollowing.baseline
  | replayed phase events_eq success =>
    have hfresh := (hs.replaying _ _ _ phase).fresh
    rw [processed_replay (hfollowing.not_fresh hfresh), List.append_nil]
    exact hsame rfl rfl
      ((StreamingSubscriptions.mem_insert hfresh).mpr (.inr hfollowing.baseline))
  | unsubscribed phase =>
    rw [processed_nil, List.append_nil]
    exact hsame rfl rfl
      (StreamingSubscriptions.mem_remove.mpr ⟨hfollowing.baseline, (hstays _ rfl).symm⟩)
  | polled go =>
    obtain ⟨hascending, hlater⟩ :=
      polled_append h hopen (pending_processed htimeline hfollowing _)
    exact ⟨hascending, hlater, fun _ => following_polled htimeline hfollowing go⟩
  | pollFailed =>
    obtain ⟨hascending, hlater⟩ :=
      polled_append h hopen (pending_processed htimeline hfollowing _)
    exact ⟨hascending, hlater, fun hopen => absurd rfl hopen⟩
  | replayFailed phase events_eq =>
    rw [processed_replay (hfollowing.not_fresh (hs.replaying _ _ _ phase).fresh), List.append_nil]
    exact hended rfl
  | closed quiet =>
    rw [quiet, List.append_nil]
    exact hended rfl

theorem polled_step {s t : State} {label : Label} (htimeline : subscription.isTimeline = true)
    (hs : Sound s) (h : Polled s subscription replayThrough polled)
    (hstays : ∀ other, label.1 = .unsubscribe other → other.key ≠ subscription.key)
    (hstep : Step s label t) :
    Polled t subscription replayThrough (polled ++ processed subscription label.2) := by
  by_cases hclosed : s.phase = .closed
  · obtain ⟨ht, houtputs⟩ := step_of_closed hclosed hstep
    rw [houtputs, processed_nil, List.append_nil]
    exact ⟨h.ascending, h.later, fun hopen => absurd ht hopen⟩
  · exact polled_change htimeline hs hclosed h hstays (step_change hstep)

/-- The replay is where the polls go on from. -/
theorem polled_of_replay {s t : State} {createAfter : ℕ} {answers : Answers} {outputs : List Output}
    (hs : Sound s) (hphase : s.phase = .replaying subscription createAfter replayThrough)
    (htimeline : subscription.isTimeline = true)
    (h : s.replay subscription createAfter replayThrough answers = (t, outputs)) :
    Polled t subscription replayThrough [] := by
  have hreplayable := hs.replaying _ _ _ hphase
  have hcursor := hs.cursor_le (by rw [hphase]; exact Phase.noConfusion)
  refine ⟨.nil, fun _ h => (by cases h), fun hopen => ?_⟩
  rcases replay_cases s subscription createAfter replayThrough answers with
    ⟨-, hfailed⟩ | ⟨events, -, hreplayed⟩
  · obtain ⟨rfl, -⟩ := Prod.mk.inj (h.symm.trans hfailed)
    exact absurd rfl hopen
  · obtain ⟨rfl, -⟩ := Prod.mk.inj (h.symm.trans hreplayed)
    split_ifs at hopen ⊢
    · refine ⟨(StreamingSubscriptions.mem_insert hreplayable.fresh).mpr (.inl rfl),
        hreplayable.through_le, hcursor, fun _ h => (by cases h), fun event hevent hdue hle => ?_⟩
      simp only [due, Bool.and_eq_true, decide_eq_true_eq] at hdue
      rcases hreplayable.apart htimeline event hevent with hthrough | hcursor
      · exact absurd hdue.2 (Nat.not_lt_of_le hthrough)
      · exact absurd hle (Nat.not_le_of_lt hcursor)
    · exact absurd rfl hopen

/-- The events of a replay: an initial part of what it selects, and all of it if the connection
    goes on. -/
theorem processed_of_replay {s t : State} {createAfter : ℕ} {answers : Answers}
    {outputs : List Output}
    (h : s.replay subscription createAfter replayThrough answers = (t, outputs)) :
    ((processed subscription outputs).Pairwise fun event other => event.id < other.id) ∧
      (∀ event ∈ processed subscription outputs, event.id ≤ replayThrough) ∧
      (t.phase ≠ .closed →
        replayEvents s subscription createAfter replayThrough =
          some (processed subscription outputs)) := by
  rcases replay_cases s subscription createAfter replayThrough answers with
    ⟨-, hfailed⟩ | ⟨events, hevents, hreplayed⟩
  · obtain ⟨rfl, rfl⟩ := Prod.mk.inj (h.symm.trans hfailed)
    exact ⟨.nil, fun _ h => (by cases h), fun hopen => absurd rfl hopen⟩
  · obtain ⟨rfl, rfl⟩ := Prod.mk.inj (h.symm.trans hreplayed)
    obtain ⟨hascending, hthrough⟩ := replayEvents_sound hevents
    have hsub := processed_untilFailure subscription
      (replayCalls s subscription createAfter answers events)
    rw [replayCalls_filter, if_pos rfl] at hsub
    refine ⟨hascending.sublist hsub, fun event hevent => hthrough event (hsub.subset hevent), ?_⟩
    intro hopen
    split_ifs at hopen with hsuccess
    · rw [processed_of_success hsuccess, replayCalls_filter, if_pos rfl, hevents]
    · exact absurd rfl hopen

/-- The calls of a replay make no `update` of what was there before the subscription. -/
theorem replay_update {s t : State} {createAfter : ℕ} {answers : Answers} {outputs : List Output}
    (h : s.replay subscription createAfter replayThrough answers = (t, outputs)) {call : Call}
    (hcall : call ∈ callsFor subscription outputs) {frame : Frame}
    (hframe : call.frame = .ok (some frame)) (hupdate : frame.event = "update") :
    createAfter < call.event.id := by
  rcases replay_cases s subscription createAfter replayThrough answers with
    ⟨-, hfailed⟩ | ⟨events, -, hreplayed⟩
  · obtain ⟨-, rfl⟩ := Prod.mk.inj (h.symm.trans hfailed)
    cases hcall
  · obtain ⟨-, rfl⟩ := Prod.mk.inj (h.symm.trans hreplayed)
    rw [callsFor_timeline] at hcall
    have hmem := (untilFailure_initial _).subset (List.mem_filter.mp hcall).1
    simp only [replayCalls, List.map_map, List.mem_map, Function.comp_apply] at hmem
    obtain ⟨event, -, rfl⟩ := hmem
    exact timelineFrame_update hframe hupdate

/-! ### The hand-off -/

/-- The events that some steps process for a subscription. -/
def processedBy (subscription : Subscription) (labels : List Label) : List StreamEvent :=
  labels.flatMap fun label => processed subscription label.2

/-- What a viewer gets of a timeline between a replay and a later state. -/
structure TimelineHandoff (subscription : Subscription) (createAfter replayThrough : ℕ)
    (replayCalls : List Call) (polled : List StreamEvent) (s : State) : Prop where
  /-- A retained event that is not ahead of the replay and the poll has been processed once. -/
  once : s.phase ≠ .closed → ∀ event ∈ s.log.entries, event.accountId = 0 →
    eventMatches subscription s.connection.accountId event = true → createAfter < event.id →
    event.id ≤ max replayThrough s.connection.cursor →
      (replayCalls.map Call.event ++ polled).count event = 1
  /-- The replay and the poll share nothing. -/
  apart : (∀ call ∈ replayCalls, call.event.id ≤ replayThrough) ∧
    ∀ event ∈ polled, replayThrough < event.id
  /-- Everything that is processed is processed in order, and so at most once. -/
  ordered : (replayCalls.map Call.event ++ polled).Pairwise fun event other => event.id < other.id
  /-- Nothing is processed that is ahead of both. -/
  pending : s.phase ≠ .closed → ∀ event, max replayThrough s.connection.cursor < event.id →
    event ∉ replayCalls.map Call.event ++ polled
  updates : ∀ call ∈ replayCalls, ∀ frame, call.frame = .ok (some frame) →
    frame.event = "update" → createAfter < call.event.id
  /-- A poll that goes on reaches what has fewer than a batch of events before it. -/
  advances : ∀ answers t outputs, s.step (.poll answers) = some (t, outputs) → t.phase ≠ .closed →
    ∀ event ∈ s.log.entries, (s.log.entries.countP fun other =>
      decide (s.connection.cursor < other.id) && decide (other.id < event.id)) <
        streamEventBatchSize → event.id ≤ t.connection.cursor

/-- A subscription that stays through a run misses nothing in it. -/
theorem polled_of_run {s t : State} {labels : List Label} (htimeline : subscription.isTimeline = true)
    (hs : Sound s) (h : Polled s subscription replayThrough [])
    (hstays : ∀ label ∈ labels, ∀ other, label.1 = .unsubscribe other →
      other.key ≠ subscription.key) (hrun : Run Step s labels t) :
    Polled t subscription replayThrough (processedBy subscription labels) := by
  have hinvariant : Sound t ∧ Polled t subscription replayThrough (processedBy subscription labels) :=
    (hrun.restrict hstays).invariant
      (P := fun labels t => Sound t ∧
        Polled t subscription replayThrough (processedBy subscription labels)) ⟨hs, h⟩ <| by
      rintro labels m label t - ⟨hm, hpolled⟩ ⟨hkey, hstep⟩
      refine ⟨sound_step hm hstep, ?_⟩
      simpa [processedBy] using polled_step htimeline hm hpolled hkey hstep
  exact hinvariant.2

/-- What a run keeps whatever its steps are. -/
theorem kept_of_run {s t : State} {labels : List Label} (hrun : Run Step s labels t) :
    t.connection.accountId = s.connection.accountId ∧ Later s.log t.log ∧
      (t.phase ≠ .closed → s.phase ≠ .closed) := by
  induction hrun with
  | nil => exact ⟨rfl, .refl _, id⟩
  | snoc run last ih =>
    obtain ⟨haccount, hlater, hopen⟩ := ih
    have hchange := step_change last
    refine ⟨hchange.accountId.trans haccount, hlater.trans hchange.later, fun ht => hopen ?_⟩
    intro hclosed
    exact ht (step_of_closed hclosed last).1

theorem poll_of_nonempty {s : State} (h : s.connection.subscriptions.isEmpty = false)
    (answers : Answers) :
    s.poll answers = ({ s with
      connection := { s.connection with cursor := (s.pending answers).1 }
      phase := if (s.pending answers).2.2 = .go then .idle else .closed }, (s.pending answers).2.1) := by
  rw [State.poll, if_neg (Bool.eq_false_iff.mp h)]
  rfl

/-- A poll that goes on reaches what has fewer than a batch of events before it. -/
theorem poll_advances {s t : State} {answers : Answers} {outputs : List Output}
    (hfollowing : s.phase ≠ .closed → Following s subscription replayThrough polled)
    (h : s.step (.poll answers) = some (t, outputs)) (hopen : t.phase ≠ .closed)
    {event : StreamEvent} (hevent : event ∈ s.log.entries)
    (hcount : (s.log.entries.countP fun other =>
      decide (s.connection.cursor < other.id) && decide (other.id < event.id)) <
        streamEventBatchSize) : event.id ≤ t.connection.cursor := by
  have hs : s.phase ≠ .closed := fun hclosed => hopen (step_of_closed hclosed h).1
  have hvalues : s.connection.subscriptions.isEmpty = false := by
    rw [StreamingSubscriptions.isEmpty, List.isEmpty_eq_false_iff]
    exact List.ne_nil_of_mem (hfollowing hs).baseline
  rw [State.step] at h
  split at h
  · rw [poll_of_nonempty hvalues] at h
    obtain ⟨rfl, -⟩ := Prod.mk.inj (Option.some.inj h)
    have hgo : (s.pending answers).2.2 = .go := by
      by_contra hstop
      exact hopen (if_neg hstop)
    have hcursor : (s.pending answers).1 = s.log.reached s.connection.cursor streamEventBatchSize :=
      streamPendingEvents_cursor _ _ hgo
    refine le_of_le_of_eq ?_ hcursor.symm
    by_cases hbehind : event.id ≤ s.connection.cursor
    · exact hbehind.trans (Log.cursor_le_reached ..)
    · exact Log.le_reached (Log.mem_after_of_count hevent (Nat.lt_of_not_le hbehind) hcount)
  · cases h

/-- What is retained behind `createAfter` is found by the replay, or else by the poll. -/
theorem mem_processed {s s' s'' : State} {createAfter : ℕ} {answers : Answers}
    {outputs : List Output} (hthrough : replayThrough ≤ s'.log.last)
    (htimeline : subscription.isTimeline = true)
    (hstep : s.replay subscription createAfter replayThrough answers = (s', outputs))
    (hlater : Later s'.log s''.log) (hopen : s'.phase ≠ .closed)
    (hfollowing : Following s'' subscription replayThrough polled) {event : StreamEvent}
    (hevent : event ∈ s''.log.entries) (hglobal : event.accountId = 0)
    (hmatches : eventMatches subscription s.connection.accountId event = true)
    (hcreate : createAfter < event.id)
    (hle : event.id ≤ max replayThrough s''.connection.cursor) :
    event ∈ processed subscription outputs ++ polled := by
  rcases Nat.lt_or_ge replayThrough event.id with hbehind | hreplay
  · have hcursor : event.id ≤ s''.connection.cursor :=
      (le_max_iff.mp hle).resolve_left (Nat.not_le_of_lt hbehind)
    exact List.mem_append_right _
      (hfollowing.complete event hevent (by simp [due, hglobal, hbehind]) hcursor)
  · have hretained : event ∈ s'.log.entries := by
      rcases hlater.entries event hevent with hevent | hnew
      · exact hevent
      · exact absurd hreplay (Nat.not_le_of_lt (hthrough.trans_lt hnew))
    have hlog : s'.log = s.log := by
      rcases replay_cases s subscription createAfter replayThrough answers with
        ⟨-, hfailed⟩ | ⟨events, -, hreplayed⟩
      · exact congrArg (State.log ∘ Prod.fst) (hstep.symm.trans hfailed)
      · have h := congrArg (State.log ∘ Prod.fst) (hstep.symm.trans hreplayed)
        simp only [Function.comp_apply] at h
        rw [h]
        split_ifs <;> rfl
    exact List.mem_append_left _ (mem_replayEvents htimeline ((processed_of_replay hstep).2.2 hopen)
      (hlog ▸ hretained) hglobal hmatches hcreate hreplay)

/-- CORRECT (hand-off): in every run of a connection, while a timeline subscription stays, what
    matches it behind `createAfter` is processed once, by the replay or by the poll, and in order. -/
theorem timeline_handoff {log : StreamLog} {accountId tokenId : ℤ} {scopes : List String}
    {before after : List Label} {s s' s'' : State} {createAfter : ℕ} {answers : Answers}
    {outputs : List Output} (hbefore : Run Step (connect log accountId tokenId scopes) before s)
    (hphase : s.phase = .replaying subscription createAfter replayThrough)
    (htimeline : subscription.isTimeline = true) (hreplay : Step s (.replay answers, outputs) s')
    (hafter : Run Step s' after s'')
    (hstays : ∀ label ∈ after, ∀ other, label.1 = .unsubscribe other →
      other.key ≠ subscription.key) :
    TimelineHandoff subscription createAfter replayThrough (callsFor subscription outputs)
      (processedBy subscription after) s'' := by
  have hs : Sound s := sound_of_run hbefore
  have hs' : Sound s' := sound_step hs hreplay
  have hstep : s.replay subscription createAfter replayThrough answers = (s', outputs) := by
    simpa only [Step, State.step, hphase, Option.some.injEq] using hreplay
  obtain ⟨hreplayed, hthrough, -⟩ := processed_of_replay hstep
  have hpolled : Polled s'' subscription replayThrough (processedBy subscription after) :=
    polled_of_run htimeline hs' (polled_of_replay hs hphase htimeline hstep) hstays hafter
  obtain ⟨haccount, hlater, hopen⟩ := kept_of_run hafter
  have hordered : (processed subscription outputs ++ processedBy subscription after).Pairwise
      fun event other => event.id < other.id :=
    List.pairwise_append.mpr ⟨hreplayed, hpolled.ascending, fun event hevent other hother =>
      (hthrough event hevent).trans_lt (hpolled.later other hother)⟩
  refine ⟨?_, ⟨?_, hpolled.later⟩, hordered, ?_, ?_, ?_⟩
  · intro hopen'' event hevent hglobal hmatches hcreate hle
    have hnodup : (processed subscription outputs ++ processedBy subscription after).Nodup :=
      hordered.imp fun hlt heq => (heq ▸ hlt).false
    have hchange := step_change hreplay
    rw [haccount, hchange.accountId] at hmatches
    have hbound := (hs.replaying _ _ _ hphase).through_le.trans hchange.later.last
    exact List.count_eq_one_of_mem hnodup (mem_processed hbound htimeline hstep hlater
      (hopen hopen'') (hpolled.following hopen'') hevent hglobal hmatches hcreate hle)
  · exact fun call hcall => hthrough call.event (List.mem_map_of_mem hcall)
  · intro hopen'' event hahead hmem
    rcases List.mem_append.mp hmem with hmem | hmem
    · exact absurd ((hthrough event hmem).trans (le_max_left _ _)) (Nat.not_le_of_lt hahead)
    · have hbehind := (hpolled.following hopen'').behind event hmem
      exact absurd (hbehind.trans (le_max_right _ _)) (Nat.not_le_of_lt hahead)
  · exact fun call hcall frame => replay_update hstep hcall
  · exact fun answers t outputs hpoll hopen'' event hevent =>
      poll_advances hpolled.following hpoll hopen'' hevent

/-! ### A run -/

/-- Every status may be seen, and the client takes every message. -/
def openAnswers : Answers where
  optionsBefore _ _ := .ok true
  optionsAfter _ _ := .ok true
  publicLanguageAllowed _ _ := .ok true
  publicTimelineContains _ _ := .ok true
  tagTimelineContains _ _ tagMatches := .ok tagMatches
  listTimelineContains _ _ := .ok none
  rendered _ _ := .ok (some "{}")
  accountRendered _ := .ok (some "{}")
  sent _ _ := true

def publicSnapshot : TimelineRouteSnapshot where
  isPublic := true
  hashtag := true
  isLocal := true
  hadMedia := false
  language := none
  tags := []
  lists := []

/-- A public status is created. -/
def created (id : ℕ) (statusId : ℤ) : StreamEvent :=
  ⟨id, 0, "update", statusId, none, some publicSnapshot⟩

def emptyLog : StreamLog := ⟨[], 0, .nil, fun _ h => nomatch h⟩

def viewer : State := connect emptyLog 7 70 ["read"]

/-- Statuses are created before and after each read of the stream cursor. -/
def beforeReplay : List Op :=
  [.append [created 1 11], .subscribe StreamName.publicFeed.subscription true,
    .append [created 2 12], .authorize (.ok true) true, .append [created 5 13, created 6 14]]

def afterReplay : List Op :=
  [.prune fun event => event.id == 1, .poll openAnswers, .append [created 9 15],
    .subscribe StreamName.publicLocal.subscription true, .authorize (.ok true) true,
    .replay openAnswers, .poll openAnswers, .unsubscribe StreamName.publicLocal.subscription]

theorem timeline_handoff_viewer : ∃ before outputs after s s' s'',
    Run Step viewer before s ∧ Step s (.replay openAnswers, outputs) s' ∧ Run Step s' after s'' ∧
      (processed StreamName.publicFeed.subscription outputs).map StreamEvent.id = [1, 2] ∧
      (processedBy StreamName.publicFeed.subscription after).map StreamEvent.id = [5, 6, 9] ∧
      TimelineHandoff StreamName.publicFeed.subscription 0 2
        (callsFor StreamName.publicFeed.subscription outputs)
        (processedBy StreamName.publicFeed.subscription after) s'' := by
  have hrun : (do
      let (s, before) ← exec State.step viewer beforeReplay
      let (s', outputs) ← s.step (.replay openAnswers)
      let (s'', after) ← exec State.step s' afterReplay
      return (s.phase, (processed StreamName.publicFeed.subscription outputs).map StreamEvent.id,
        (processedBy StreamName.publicFeed.subscription after).map StreamEvent.id)) =
      some (.replaying StreamName.publicFeed.subscription 0 2, [1, 2], [5, 6, 9]) := rfl
  simp only [Option.bind_eq_bind, Option.bind_eq_some_iff, Option.pure_def, Option.some.injEq,
    Prod.mk.injEq] at hrun
  obtain ⟨⟨s, before⟩, hs, ⟨s', outputs⟩, hs', ⟨s'', after⟩, hs'', hphase, hreplayed, hpolled⟩ := hrun
  refine ⟨before, outputs, after, s, s', s'', exec_run hs, hs', exec_run hs'', hreplayed, hpolled,
    timeline_handoff (exec_run hs) hphase rfl hs' (exec_run hs'') ?_⟩
  rintro label hlabel other hother
  have hmem : label.1 ∈ afterReplay := exec_ops hs'' ▸ List.mem_map_of_mem hlabel
  rw [hother] at hmem
  simp only [afterReplay, List.mem_cons, reduceCtorEq, Op.unsubscribe.injEq, List.not_mem_nil,
    or_false, false_or] at hmem
  exact hmem ▸ by decide

end Rustodon.Streaming
