import Rustodon.Queue.Steps
import Mathlib.Data.List.Nodup

/-! @src jobs.rs | name:The outbox table | scheme:row locks | family:queue

    What keeps the rows of `outbox_events` apart: ids and logical keys are unique, a pending version
    of a committed row is under the lock of its transaction, and the rows that a dispatch works on
    stay as they were when it locked them. -/

namespace Rustodon.Queue
open Schemes.Checked Schemes.Json Schemes.Runs

variable {env : Env} {s s' : State} {op : Op} {response : Response} {labels : List Label}
  {t : TxnId} {spec : JobSpec}

/-- The rows that the function of a transaction still has to mark. -/
def Stage.rows : Stage → List Event
  | .idle => []
  | .dispatching rows => rows
  | .ordered _ _ none => []
  | .ordered _ _ (some (event, rest)) => event :: rest

/-- The committed events and what transactions have made of them. -/
def State.versions (s : State) : List Event := s.events ++ s.pendingEvents.map Prod.snd

/-- Two events that the unique index on `(kind, logical_key)` does not let in together. -/
def SameKey (a b : Event) : Prop :=
  a.kind = b.kind ∧ a.logicalKey = b.logicalKey ∧ a.logicalKey ≠ none

/-- The payload of an event is the one of a valid specification. -/
def Recorded (env : Env) (event : Event) : Prop :=
  ∃ spec : JobSpec, spec.validate = .ok () ∧ event.kind = spec.kind ∧
    event.logicalKey = spec.logicalKey ∧ event.payload = outboxPayload env spec

theorem mem_versions {event : Event} :
    event ∈ s.versions ↔ event ∈ s.events ∨ ∃ t, (t, event) ∈ s.pendingEvents := by
  simp [State.versions]

theorem sameKey_iff {event : Event} : sameKey spec event = true ↔
    spec.logicalKey ≠ none ∧ event.kind = spec.kind ∧ event.logicalKey = spec.logicalKey := by
  rw [sameKey, Bool.and_eq_true, Bool.and_eq_true, decide_eq_true_eq, decide_eq_true_eq,
    Option.isSome_iff_ne_none, and_assoc]

/-- What holds of the outbox table. -/
structure EventTable (env : Env) (s : State) : Prop where
  /-- Ids are allocated in order, -/
  lt : ∀ event ∈ s.versions, event.id < s.nextEventId
  /-- committed rows have different ones, -/
  nodup : (s.events.map Event.id).Nodup
  /-- and so have pending versions. -/
  pendingNodup : (s.pendingEvents.map fun row => row.2.id).Nodup
  unique : ∀ a ∈ s.versions, ∀ b ∈ s.versions, SameKey a b → a.id = b.id
  /-- A version of a committed row has its key, and its transaction has locked the row. -/
  version : ∀ row ∈ s.pendingEvents, ∀ event ∈ s.events, event.id = row.2.id →
    s.eventLocks event.id = some row.1 ∧ event.kind = row.2.kind ∧
      event.logicalKey = row.2.logicalKey
  recorded : ∀ event ∈ s.versions, Recorded env event
  /-- A dispatch has locked the rows that it works on, -/
  row : ∀ t, ∀ event ∈ (s.stages t).rows,
    event ∈ s.events ∧ s.eventLocks event.id = some t ∧ event.dispatchedAt = none
  /-- each once, -/
  rowsNodup : ∀ t, ((s.stages t).rows.map Event.id).Nodup
  /-- and those it has marked are no longer among them. -/
  unmarked : ∀ row ∈ s.pendingEvents, ∀ event ∈ (s.stages row.1).rows, event.id ≠ row.2.id
  /-- A version that is marked is otherwise the committed row. -/
  marked : ∀ row ∈ s.pendingEvents, row.2.dispatchedAt ≠ none →
    { row.2 with dispatchedAt := none } ∈ s.events

theorem eventTable_initial (env : Env) (start : ℤ) : EventTable env (initial start) where
  lt _ h := absurd h List.not_mem_nil
  nodup := .nil
  pendingNodup := .nil
  unique _ h := absurd h List.not_mem_nil
  version _ h := absurd h List.not_mem_nil
  recorded _ h := absurd h List.not_mem_nil
  row _ _ h := absurd h List.not_mem_nil
  rowsNodup _ := .nil
  unmarked _ h := absurd h List.not_mem_nil
  marked _ h := absurd h List.not_mem_nil

/-! ### Committing versions -/

theorem mem_applyEvents {events written : List Event} {event : Event}
    (h : event ∈ applyEvents events written) :
    (event ∈ events ∧ ∀ version ∈ written, version.id ≠ event.id) ∨ event ∈ written := by
  rcases List.mem_append.mp h with h | h
  · obtain ⟨old, hold, rfl⟩ := List.mem_map.mp h
    cases hfind : written.find? fun version => version.id == old.id with
    | none =>
      refine .inl ⟨hold, fun version hversion heq => ?_⟩
      exact List.find?_eq_none.mp hfind version hversion (beq_iff_eq.mpr heq)
    | some version => exact .inr (List.mem_of_find?_eq_some hfind)
  · exact .inr (List.mem_filter.mp h).1

theorem applyEvents_keeps {events written : List Event} {event : Event} (h : event ∈ events)
    (hwritten : ∀ version ∈ written, version.id ≠ event.id) :
    event ∈ applyEvents events written := by
  refine List.mem_append_left _ (List.mem_map.mpr ⟨event, h, ?_⟩)
  have hnone : (written.find? fun version => version.id == event.id) = none :=
    List.find?_eq_none.mpr fun version hversion heq => hwritten version hversion (beq_iff_eq.mp heq)
  rw [hnone, Option.getD_none]

theorem applyEvents_writes {events written : List Event} {version : Event}
    (hnodup : (written.map Event.id).Nodup) (h : version ∈ written) :
    version ∈ applyEvents events written := by
  by_cases hold : ∃ event ∈ events, event.id = version.id
  · obtain ⟨event, hevent, hid⟩ := hold
    refine List.mem_append_left _ (List.mem_map.mpr ⟨event, hevent, ?_⟩)
    cases hfind : written.find? fun version => version.id == event.id with
    | none =>
      exact absurd (beq_iff_eq.mpr hid.symm) (List.find?_eq_none.mp hfind version h)
    | some found =>
      have hfound : found.id = event.id := by simpa using List.find?_some hfind
      exact List.inj_on_of_nodup_map hnodup (List.mem_of_find?_eq_some hfind) h
        (hfound.trans hid)
  · refine List.mem_append_right _ (List.mem_filter.mpr ⟨h, ?_⟩)
    simpa using hold

theorem applyEvents_nodup {events written : List Event} (h : (events.map Event.id).Nodup)
    (hwritten : (written.map Event.id).Nodup) :
    ((applyEvents events written).map Event.id).Nodup := by
  have hids : (events.map fun event =>
      (written.find? fun version => version.id == event.id).getD event).map Event.id =
        events.map Event.id := by
    rw [List.map_map]
    refine List.map_congr_left fun event _ => ?_
    rw [Function.comp_apply]
    cases hfind : written.find? fun version => version.id == event.id with
    | none => rfl
    | some version => simpa using List.find?_some hfind
  rw [applyEvents, List.map_append, hids, List.nodup_append]
  refine ⟨h, hwritten.sublist (List.filter_sublist.map _), ?_⟩
  rintro id hid _ hid' rfl
  obtain ⟨event, hevent, rfl⟩ := List.mem_map.mp hid
  obtain ⟨version, hversion, heq⟩ := List.mem_map.mp hid'
  have hnew := (List.mem_filter.mp hversion).2
  simp only [Bool.not_eq_true', List.any_eq_false, beq_iff_eq] at hnew
  exact hnew event hevent heq.symm

theorem own_ids_nodup {pending : List (TxnId × Event)}
    (h : (pending.map fun row => row.2.id).Nodup) (t : TxnId) :
    ((own t pending).map Event.id).Nodup := by
  rw [own, List.map_map]
  exact h.sublist (List.filter_sublist.map _)

/-! ### Recording -/

def Event.rewritten (env : Env) (event : Event) (spec : JobSpec) : Event :=
  { event with payload := outboxPayload env spec, dispatchedAt := none }

def Event.new (env : Env) (id : ℕ) (spec : JobSpec) : Event :=
  ⟨id, spec.kind, spec.logicalKey, outboxPayload env spec, none⟩

/-- What recording a valid specification writes: the version of the transaction, the row that is
    committed, or a new row. -/
inductive Records (env : Env) (s : State) (t : TxnId) (spec : JobSpec) : State → Prop where
  | again {event : Event} (hevent : (t, event) ∈ s.pendingEvents)
    (hkey : sameKey spec event = true) :
    Records env s t spec { s with
      pendingEvents := s.pendingEvents.map fun row =>
        if row.1 = t ∧ row.2.id = event.id then (t, row.2.rewritten env spec) else row }
  | onto {event : Event} (hevent : event ∈ s.events) (hkey : sameKey spec event = true)
    (hlock : ∀ holder, s.eventLocks event.id = some holder → holder = t)
    (hown : ∀ version, (t, version) ∈ s.pendingEvents → sameKey spec version = false) :
    Records env s t spec { s with
      eventLocks := fun id => if id = event.id then some t else s.eventLocks id
      pendingEvents := s.pendingEvents ++ [(t, event.rewritten env spec)] }
  | fresh (hfree : ∀ version ∈ s.versions, sameKey spec version = false) :
    Records env s t spec { s with
      nextEventId := s.nextEventId + 1
      pendingEvents := s.pendingEvents ++ [(t, Event.new env s.nextEventId spec)] }

/-- No other transaction has a version with the key, nor has this one, nor is one committed. -/
theorem versions_free {p : Event → Bool}
    (hothers : ((others t s.pendingEvents).any fun row => p row.2) = false)
    (hown : ∀ version, (t, version) ∈ s.pendingEvents → p version = false)
    (hevents : ∀ event ∈ s.events, p event = false) :
    ∀ version ∈ s.versions, p version = false := by
  intro version hversion
  rcases mem_versions.mp hversion with hevent | ⟨t', hpending⟩
  · exact hevents version hevent
  · by_cases ht : t' = t
    · subst ht
      exact hown version hpending
    · have hrow : (t', version) ∈ others t s.pendingEvents := mem_others.mpr ⟨hpending, ht⟩
      simpa using List.any_eq_false.mp hothers _ hrow

theorem recordOutbox_cases (h : s.recordOutbox env t spec = some (s', response)) :
    (s' = s ∧ ∃ error, response = .failed error) ∨
      spec.validate = .ok () ∧ (∃ id, response = .id id) ∧ Records env s t spec s' := by
  rw [State.recordOutbox] at h
  cases hvalid : spec.validate with
  | error error =>
    rw [hvalid] at h
    obtain ⟨rfl, rfl⟩ := Prod.mk.inj (Option.some.inj h)
    exact .inl ⟨rfl, error, rfl⟩
  | ok u =>
    rw [hvalid] at h
    simp only at h
    split_ifs at h with hothers
    cases hown : (own t s.pendingEvents).find? (sameKey spec) with
    | some event =>
      rw [hown] at h
      obtain ⟨rfl, rfl⟩ := Prod.mk.inj (Option.some.inj h)
      exact .inr ⟨rfl, ⟨_, rfl⟩, .again (mem_own.mp (List.mem_of_find?_eq_some hown))
        (List.find?_some hown)⟩
    | none =>
      have hfree : ∀ version, (t, version) ∈ s.pendingEvents → sameKey spec version = false := by
        intro version hversion
        simpa using List.find?_eq_none.mp hown version (mem_own.mpr hversion)
      rw [hown] at h
      simp only at h
      cases hfind : s.events.find? (sameKey spec) with
      | some event =>
        rw [hfind] at h
        simp only at h
        split_ifs at h with hlock
        obtain ⟨rfl, rfl⟩ := Prod.mk.inj (Option.some.inj h)
        refine .inr ⟨rfl, ⟨_, rfl⟩, .onto (List.mem_of_find?_eq_some hfind) (List.find?_some hfind)
          (fun holder hholder => ?_) hfree⟩
        rw [hholder] at hlock
        simpa using hlock
      | none =>
        rw [hfind] at h
        obtain ⟨rfl, rfl⟩ := Prod.mk.inj (Option.some.inj h)
        refine .inr ⟨rfl, ⟨_, rfl⟩, .fresh (versions_free (by simpa using hothers) hfree fun event hevent => ?_)⟩
        simpa using List.find?_eq_none.mp hfind event hevent

theorem recordOutboxOnce_cases (h : s.recordOutboxOnce env t spec = some (s', response)) :
    (s' = s ∧ response ≠ .flag true) ∨
      spec.validate = .ok () ∧ response = .flag true ∧ Records env s t spec s' := by
  rw [State.recordOutboxOnce] at h
  cases hvalid : spec.validate with
  | error error =>
    rw [hvalid] at h
    obtain ⟨rfl, rfl⟩ := Prod.mk.inj (Option.some.inj h)
    exact .inl ⟨rfl, by rintro ⟨⟩⟩
  | ok u =>
    rw [hvalid] at h
    simp only at h
    split_ifs at h with hothers hany
    · obtain ⟨rfl, rfl⟩ := Prod.mk.inj (Option.some.inj h)
      exact .inl ⟨rfl, by simp⟩
    · obtain ⟨rfl, rfl⟩ := Prod.mk.inj (Option.some.inj h)
      obtain ⟨hevents, hown⟩ : (∀ event ∈ s.events, sameKey spec event = false) ∧
          ∀ version ∈ own t s.pendingEvents, sameKey spec version = false := by
        simpa using hany
      exact .inr ⟨rfl, rfl, .fresh (versions_free (by simpa using hothers)
        (fun version hversion => hown version (mem_own.mpr hversion)) hevents)⟩

/-! ### What a step does to the events -/

/-- What a step does to the events, and the transaction that it ends. -/
inductive EventsChange (env : Env) (s : State) : Option TxnId → State → Prop where
  | frame {s' : State} (hevents : s'.events = s.events)
    (hpending : s'.pendingEvents = s.pendingEvents) (hlocks : s'.eventLocks = s.eventLocks)
    (hnext : s'.nextEventId = s.nextEventId)
    (hrows : ∀ t, (s'.stages t).rows.Sublist (s.stages t).rows) : EventsChange env s none s'
  | recorded {s' : State} (t : TxnId) {spec : JobSpec} (hidle : s.stages t = .idle)
    (hvalid : spec.validate = .ok ()) (h : Records env s t spec s') : EventsChange env s none s'
  | cancelled (kind logicalKey : String)
    (hfree : ∀ event ∈ s.events, event.kind = kind → event.logicalKey = some logicalKey →
      event.dispatchedAt = none → s.eventLocks event.id = none) :
    EventsChange env s none { s with
      events := s.events.filter fun event => !(decide (event.kind = kind) &&
        decide (event.logicalKey = some logicalKey) && event.dispatchedAt.isNone) }
  | dispatching (t : TxnId) (limit : ℤ) (skipped : List ℕ)
    (hpending : ∀ row ∈ s.pendingEvents, row.1 ≠ t) :
    EventsChange env s none
      { s.setStage t (.dispatching (dispatchRows env s limit.toNat skipped)) with
        eventLocks := fun id =>
          if (dispatchRows env s limit.toNat skipped).any fun event => event.id == id then some t
          else s.eventLocks id }
  | marked {s' : State} (t : TxnId) {event : Event} {rest : List Event} {now : ℤ}
    (hrows : (s.stages t).rows = event :: rest) (hevents : s'.events = s.events)
    (hpending : s'.pendingEvents =
      s.pendingEvents ++ [(t, { event with dispatchedAt := some now })])
    (hlocks : s'.eventLocks = s.eventLocks) (hnext : s'.nextEventId = s.nextEventId)
    (hrest : (s'.stages t).rows = rest) (hothers : ∀ t', t' ≠ t → s'.stages t' = s.stages t') :
    EventsChange env s none s'
  | committed (t : TxnId) (hrows : (s.stages t).rows = []) :
    EventsChange env s (some t) (s.commit t)
  | rolledBack (t : TxnId) : EventsChange env s (some t) (s.release t)

theorem insertJob_frame {id : ℕ} {inserted : Bool}
    (h : s.insertJob t spec = some (s', id, inserted)) :
    s'.events = s.events ∧ s'.pendingEvents = s.pendingEvents ∧ s'.eventLocks = s.eventLocks ∧
      s'.nextEventId = s.nextEventId ∧ s'.stages = s.stages ∧ s'.now = s.now := by
  rcases insertJob_cases h with ⟨-, rfl, -⟩ | ⟨-, -, rfl, -⟩
  · exact ⟨rfl, rfl, rfl, rfl, rfl, rfl⟩
  · exact ⟨rfl, rfl, rfl, rfl, rfl, rfl⟩

/-- What a statement of a function does to the events: it may mark the first row of its dispatch. -/
structure Advance (s : State) (t : TxnId) (s' : State) : Prop where
  events : s'.events = s.events
  eventLocks : s'.eventLocks = s.eventLocks
  nextEventId : s'.nextEventId = s.nextEventId
  others : ∀ t', t' ≠ t → s'.stages t' = s.stages t'
  rows : s'.pendingEvents = s.pendingEvents ∧ (s'.stages t).rows.Sublist (s.stages t).rows ∨
    ∃ event rest, (s.stages t).rows = event :: rest ∧ (s'.stages t).rows = rest ∧
      s'.pendingEvents = s.pendingEvents ++ [(t, { event with dispatchedAt := some s.now })]

theorem Advance.change (h : Advance s t s') : EventsChange env s none s' := by
  rcases h.rows with ⟨hpending, hrows⟩ | ⟨event, rest, hrows, hrest, hpending⟩
  · refine .frame h.events hpending h.eventLocks h.nextEventId fun t' => ?_
    by_cases ht : t' = t
    · rwa [ht]
    · rw [h.others t' ht]
  · exact .marked t hrows h.events hpending h.eventLocks h.nextEventId hrest h.others

/-- The transaction goes on to another statement. -/
theorem advance_setStage {s₁ : State} {stage : Stage} (hevents : s₁.events = s.events)
    (hpending : s₁.pendingEvents = s.pendingEvents) (hlocks : s₁.eventLocks = s.eventLocks)
    (hnext : s₁.nextEventId = s.nextEventId) (hstages : s₁.stages = s.stages)
    (hrows : stage.rows.Sublist (s.stages t).rows) : Advance s t (s₁.setStage t stage) where
  events := hevents
  eventLocks := hlocks
  nextEventId := hnext
  others t' ht := by simp only [State.setStage, if_neg ht, hstages]
  rows := .inl ⟨hpending, by simpa [State.setStage] using hrows⟩

/-- The transaction marks the first row and goes on to the next one. -/
theorem advance_markDispatched {s₁ : State} {event : Event} {rest : List Event}
    (hrows : (s.stages t).rows = event :: rest) (hevents : s₁.events = s.events)
    (hpending : s₁.pendingEvents = s.pendingEvents) (hlocks : s₁.eventLocks = s.eventLocks)
    (hnext : s₁.nextEventId = s.nextEventId) (hstages : s₁.stages = s.stages)
    (hnow : s₁.now = s.now) : Advance s t (s₁.markDispatched t event rest) where
  events := hevents
  eventLocks := hlocks
  nextEventId := hnext
  others t' ht := by simp only [State.markDispatched, State.setStage, if_neg ht, hstages]
  rows := by
    refine .inr ⟨event, rest, hrows, ?_, ?_⟩
    · simp only [State.markDispatched, State.setStage, ↓reduceIte, Stage.rows]
    · simp only [State.markDispatched, hpending, hnow]

theorem insertMarker_advance {call : OrderedCall} {caller : Option (Event × List Event)}
    (h : s.insertMarker t call caller = some s')
    (hrows : (Stage.ordered call .select caller).rows = (s.stages t).rows) : Advance s t s' := by
  have hset : Advance s t (s.setStage t (.ordered call .select caller)) :=
    advance_setStage rfl rfl rfl rfl rfl (hrows ▸ .refl _)
  rcases insertMarker_cases h with rfl | ⟨-, -, written, rfl⟩
  · exact hset
  · exact ⟨hset.events, hset.eventLocks, hset.nextEventId, hset.others, hset.rows⟩

/-- A statement of a function fails and ends the transaction, or goes on. -/
theorem next_cases (h : s.next env t = some (s', response)) :
    (∃ error, s' = s.release t ∧ response = .failed error) ∨
      (∀ error, response ≠ .failed error) ∧ Advance s t s' := by
  rw [State.next] at h
  cases hstage : s.stages t with
  | idle =>
    rw [hstage] at h
    cases h
  | dispatching rows =>
    have hrows : (s.stages t).rows = rows := by rw [hstage, Stage.rows]
    cases rows with
    | nil =>
      rw [hstage] at h
      cases h
    | cons event rest =>
      rw [hstage] at h
      rcases dispatchEvent_cases h with ⟨error, rfl, rfl, -⟩ | ⟨spec, orderingKey, -, -, rfl, hinsert⟩ |
        ⟨spec, s₁, id, inserted, -, -, rfl, hinsert, hs'⟩
      · exact .inl ⟨error, rfl, rfl⟩
      · exact .inr ⟨by rintro _ ⟨⟩, insertMarker_advance hinsert hrows.symm⟩
      · obtain ⟨hevents, hpending, hlocks, hnext, hstages, hnow⟩ := insertJob_frame hinsert
        refine .inr ⟨by rintro _ ⟨⟩, ?_⟩
        rcases hs' with ⟨-, rfl⟩ | ⟨-, rfl⟩
        · exact advance_markDispatched hrows hevents hpending hlocks hnext hstages hnow
        · exact advance_setStage hevents hpending hlocks hnext hstages
            (hrows ▸ List.sublist_cons_self ..)
  | ordered call progress caller =>
    rw [hstage] at h
    have hrows : ∀ progress', (Stage.ordered call progress' caller).rows = (s.stages t).rows := by
      intro progress'
      rw [hstage]
      cases caller <;> rfl
    have hsub : ∀ progress', (Stage.ordered call progress' caller).rows.Sublist
        (s.stages t).rows := fun progress' => hrows progress' ▸ .refl _
    cases progress with
    | select =>
      obtain ⟨s₁, hselect, heq⟩ := Option.map_eq_some_iff.mp h
      obtain ⟨rfl, rfl⟩ := Prod.mk.inj heq
      obtain ⟨previous, hs'⟩ := selectMarker_cases hselect
      have hset : Advance s t (s.setStage t (.ordered call (.enqueue previous) caller)) :=
        advance_setStage rfl rfl rfl rfl rfl (hsub (.enqueue previous))
      refine .inr ⟨by rintro _ ⟨⟩, ?_⟩
      rcases hs' with ⟨lock, -, -, rfl⟩ | ⟨-, rfl⟩ | ⟨-, -, rfl⟩
      · exact hset
      · exact ⟨hset.events, hset.eventLocks, hset.nextEventId, hset.others, hset.rows⟩
      · exact hset
    | enqueue previous =>
      rcases enqueueOrderedSpec_cases h with ⟨error, rfl, rfl, -⟩ |
        ⟨spec, s₁, id, inserted, -, -, hinsert, rfl, rfl⟩
      · exact .inl ⟨error, rfl, rfl⟩
      · obtain ⟨hevents, hpending, hlocks, hnext, hstages, -⟩ := insertJob_frame hinsert
        exact .inr ⟨by rintro _ ⟨⟩,
          advance_setStage hevents hpending hlocks hnext hstages (hsub _)⟩
    | upsert id runAt =>
      obtain ⟨-, written, ⟨rfl, rfl, rfl⟩ | ⟨event, rest, rfl, rfl, rfl⟩⟩ := upsertMarker_cases h
      · exact .inr ⟨by rintro _ ⟨⟩,
          advance_setStage rfl rfl rfl rfl rfl (List.nil_sublist _)⟩
      · have hhead : (s.stages t).rows = event :: rest := (hrows (.upsert id runAt)).symm
        have hmark : Advance s t ((s.holdMarker t call.markerKey written).markDispatched t event rest) :=
          advance_markDispatched hhead rfl rfl rfl rfl rfl rfl
        exact .inr ⟨by rintro _ ⟨⟩, hmark⟩

theorem frame_of_stages (hevents : s'.events = s.events)
    (hpending : s'.pendingEvents = s.pendingEvents) (hlocks : s'.eventLocks = s.eventLocks)
    (hnext : s'.nextEventId = s.nextEventId) (hstages : s'.stages = s.stages) :
    EventsChange env s none s' :=
  .frame hevents hpending hlocks hnext fun _ => hstages ▸ .refl _

theorem cancelEvents_change {kind logicalKey : String}
    (h : s.cancelEvents kind logicalKey = some (s', response)) : EventsChange env s none s' := by
  simp only [State.cancelEvents] at h
  split_ifs at h with hlocked
  obtain ⟨rfl, -⟩ := Prod.mk.inj (Option.some.inj h)
  refine .cancelled kind logicalKey fun event hevent hkind hkey hnone => ?_
  have hfree : ∀ event ∈ s.events, event.kind = kind → event.logicalKey = some logicalKey →
      event.dispatchedAt = none → s.eventLocks event.id = none := by simpa using hlocked
  exact hfree event hevent hkind hkey hnone

theorem dispatchOutbox_change {limit : ℤ} {skipped : List ℕ}
    (h : s.dispatchOutbox env t limit skipped = some (s', response)) :
    EventsChange env s none s' := by
  rw [State.dispatchOutbox] at h
  split_ifs at h with hlimit hpending
  · obtain ⟨rfl, -⟩ := Prod.mk.inj (Option.some.inj h)
    exact frame_of_stages rfl rfl rfl rfl rfl
  · obtain ⟨rfl, -⟩ := Prod.mk.inj (Option.some.inj h)
    refine .dispatching t limit skipped fun row hrow heq => hpending ?_
    exact List.any_eq_true.mpr ⟨row, hrow, beq_iff_eq.mpr heq⟩

/-- The transaction that an operation may end. -/
def Op.ends : Op → Option TxnId
  | .next t => some t
  | .commit t => some t
  | .rollback t => some t
  | _ => none

/-- A dispatch that commits has no row left. -/
theorem rows_of_returned (h : s.returned t = true) : (s.stages t).rows = [] := by
  rw [State.returned] at h
  split at h
  · next hidle => rw [hidle, Stage.rows]
  · next hrows => rw [hrows, Stage.rows]
  · cases h

theorem transact_change (h : transact env s op = some (s', response)) :
    ∃ ended, EventsChange env s ended s' ∧ (ended = none ∨ ended = op.ends) := by
  cases op with
  | tick elapsed =>
    obtain ⟨rfl, -⟩ := Prod.mk.inj (Option.some.inj h)
    exact ⟨none, frame_of_stages rfl rfl rfl rfl rfl, .inl rfl⟩
  | cancelEvents kind logicalKey => exact ⟨none, cancelEvents_change h, .inl rfl⟩
  | pruneMarker key =>
    rw [transact, State.pruneMarker] at h
    split at h
    · split_ifs at h
      obtain ⟨rfl, -⟩ := Prod.mk.inj (Option.some.inj h)
      exact ⟨none, frame_of_stages rfl rfl rfl rfl rfl, .inl rfl⟩
    · cases h
  | enqueue t spec =>
    obtain ⟨-, h⟩ := whenIdle_eq_some h
    rcases enqueue_cases h with ⟨error, rfl, -⟩ | ⟨id, inserted, -, hinsert, -⟩
    · exact ⟨none, frame_of_stages rfl rfl rfl rfl rfl, .inl rfl⟩
    · obtain ⟨hevents, hpending, hlocks, hnext, hstages, -⟩ := insertJob_frame hinsert
      exact ⟨none, frame_of_stages hevents hpending hlocks hnext hstages, .inl rfl⟩
  | enqueueOrdered t spec orderingKey =>
    obtain ⟨hidle, h⟩ := whenIdle_eq_some h
    obtain ⟨s₁, hinsert, heq⟩ := Option.map_eq_some_iff.mp h
    obtain ⟨rfl, -⟩ := Prod.mk.inj heq
    exact ⟨none, (insertMarker_advance hinsert (by rw [hidle, Stage.rows, Stage.rows])).change,
      .inl rfl⟩
  | recordOutbox t spec =>
    obtain ⟨hidle, h⟩ := whenIdle_eq_some h
    rcases recordOutbox_cases h with ⟨rfl, -⟩ | ⟨hvalid, -, hrecords⟩
    · exact ⟨none, frame_of_stages rfl rfl rfl rfl rfl, .inl rfl⟩
    · exact ⟨none, .recorded t hidle hvalid hrecords, .inl rfl⟩
  | recordOutboxOnce t spec =>
    obtain ⟨hidle, h⟩ := whenIdle_eq_some h
    rcases recordOutboxOnce_cases h with ⟨rfl, -⟩ | ⟨hvalid, -, hrecords⟩
    · exact ⟨none, frame_of_stages rfl rfl rfl rfl rfl, .inl rfl⟩
    · exact ⟨none, .recorded t hidle hvalid hrecords, .inl rfl⟩
  | dispatchOutbox t limit skipped =>
    exact ⟨none, dispatchOutbox_change (whenIdle_eq_some h).2, .inl rfl⟩
  | next t =>
    rcases next_cases h with ⟨error, rfl, -⟩ | ⟨-, hadvance⟩
    · exact ⟨some t, .rolledBack t, .inr rfl⟩
    · exact ⟨none, hadvance.change, .inl rfl⟩
  | commit t =>
    rw [transact] at h
    split_ifs at h with hreturned
    obtain ⟨rfl, -⟩ := Prod.mk.inj (Option.some.inj h)
    exact ⟨some t, .committed t (rows_of_returned hreturned), .inr rfl⟩
  | rollback t =>
    obtain ⟨rfl, -⟩ := Prod.mk.inj (Option.some.inj h)
    exact ⟨some t, .rolledBack t, .inr rfl⟩
  | _ => cases h

theorem step_change (h : Step env s (op, response) s') :
    ∃ ended, EventsChange env s ended s' ∧ (ended = none ∨ ended = op.ends) := by
  rcases step_cases h with ⟨statement, -, -, rfl⟩ | ⟨-, htransact⟩
  · exact ⟨none, frame_of_stages rfl rfl rfl rfl rfl, .inl rfl⟩
  · exact transact_change htransact

theorem Records.events (h : Records env s t spec s') : s'.events = s.events := by
  cases h <;> rfl

/-- The committed events change when a transaction commits or undispatched ones are cancelled. -/
theorem step_events (h : Step env s (op, response) s') :
    s'.events = s.events ∨ (∃ t, op = .commit t ∧ s' = s.commit t ∧ (s.stages t).rows = []) ∨
      ∃ kind logicalKey, op = .cancelEvents kind logicalKey ∧
        s'.events = s.events.filter fun event => !(decide (event.kind = kind) &&
          decide (event.logicalKey = some logicalKey) && event.dispatchedAt.isNone) := by
  rcases step_cases h with ⟨statement, -, -, rfl⟩ | ⟨-, htransact⟩
  · exact .inl rfl
  cases op with
  | tick elapsed =>
    obtain ⟨rfl, -⟩ := Prod.mk.inj (Option.some.inj htransact)
    exact .inl rfl
  | cancelEvents kind logicalKey =>
    simp only [transact, State.cancelEvents] at htransact
    split_ifs at htransact
    obtain ⟨rfl, -⟩ := Prod.mk.inj (Option.some.inj htransact)
    exact .inr (.inr ⟨kind, logicalKey, rfl, rfl⟩)
  | pruneMarker key =>
    rw [transact, State.pruneMarker] at htransact
    split at htransact
    · split_ifs at htransact
      obtain ⟨rfl, -⟩ := Prod.mk.inj (Option.some.inj htransact)
      exact .inl rfl
    · cases htransact
  | enqueue t spec =>
    obtain ⟨-, htransact⟩ := whenIdle_eq_some htransact
    rcases enqueue_cases htransact with ⟨error, rfl, -⟩ | ⟨id, inserted, -, hinsert, -⟩
    · exact .inl rfl
    · exact .inl (insertJob_frame hinsert).1
  | enqueueOrdered t spec orderingKey =>
    obtain ⟨hidle, htransact⟩ := whenIdle_eq_some htransact
    obtain ⟨s₁, hinsert, heq⟩ := Option.map_eq_some_iff.mp htransact
    obtain ⟨rfl, -⟩ := Prod.mk.inj heq
    exact .inl (insertMarker_advance hinsert (by rw [hidle, Stage.rows, Stage.rows])).events
  | recordOutbox t spec =>
    rcases recordOutbox_cases (whenIdle_eq_some htransact).2 with ⟨rfl, -⟩ | ⟨-, -, hrecords⟩
    · exact .inl rfl
    · exact .inl hrecords.events
  | recordOutboxOnce t spec =>
    rcases recordOutboxOnce_cases (whenIdle_eq_some htransact).2 with ⟨rfl, -⟩ | ⟨-, -, hrecords⟩
    · exact .inl rfl
    · exact .inl hrecords.events
  | dispatchOutbox t limit skipped =>
    have hdispatch := (whenIdle_eq_some htransact).2
    rw [State.dispatchOutbox] at hdispatch
    split_ifs at hdispatch
    · obtain ⟨rfl, -⟩ := Prod.mk.inj (Option.some.inj hdispatch)
      exact .inl rfl
    · obtain ⟨rfl, -⟩ := Prod.mk.inj (Option.some.inj hdispatch)
      exact .inl rfl
  | next t =>
    rcases next_cases htransact with ⟨error, rfl, -⟩ | ⟨-, hadvance⟩
    · exact .inl rfl
    · exact .inl hadvance.events
  | commit t =>
    rw [transact] at htransact
    split_ifs at htransact with hreturned
    obtain ⟨rfl, -⟩ := Prod.mk.inj (Option.some.inj htransact)
    exact .inr (.inl ⟨t, rfl, rfl, rows_of_returned hreturned⟩)
  | rollback t =>
    obtain ⟨rfl, -⟩ := Prod.mk.inj (Option.some.inj htransact)
    exact .inl rfl
  | _ => cases htransact

/-- The rows that a dispatch takes. -/
theorem mem_dispatchRows {limit : ℕ} {skipped : List ℕ} {event : Event}
    (h : event ∈ dispatchRows env s limit skipped) :
    event ∈ s.events ∧ dispatchable env s event = true ∧ s.eventLocks event.id = none := by
  have hsorted := List.mem_of_mem_take h
  rw [List.mem_insertionSort, List.mem_filter] at hsorted
  simp only [Bool.and_eq_true, Option.isNone_iff_eq_none] at hsorted
  exact ⟨hsorted.1, hsorted.2.1.1, hsorted.2.1.2⟩

theorem dispatchRows_nodup (h : (s.events.map Event.id).Nodup) (limit : ℕ) (skipped : List ℕ) :
    ((dispatchRows env s limit skipped).map Event.id).Nodup := by
  refine List.Nodup.sublist ((List.take_sublist _ _).map _) ?_
  refine ((List.perm_insertionSort _ _).map _).nodup_iff.mpr ?_
  exact h.sublist (List.filter_sublist.map _)

theorem dispatchable_iff {event : Event} : dispatchable env s event = true ↔
    event.dispatchedAt = none ∧ event.kind ≠ streamEventKind ∧
      (∀ previous ∈ s.events, isPrevious env event previous = false) ∧
      ∀ job ∈ s.jobs, isJobOf event job = false := by
  simp [dispatchable, and_assoc]

/-! ### The table is kept -/

theorem EventTable.eq_of_id (h : EventTable env s) {a b : Event} (ha : a ∈ s.events)
    (hb : b ∈ s.events) (hid : a.id = b.id) : a = b :=
  List.inj_on_of_nodup_map h.nodup ha hb hid

theorem EventTable.pending_eq_of_id (h : EventTable env s) {a b : TxnId × Event}
    (ha : a ∈ s.pendingEvents) (hb : b ∈ s.pendingEvents) (hid : a.2.id = b.2.id) : a = b :=
  List.inj_on_of_nodup_map h.pendingNodup ha hb hid

/-- A step that leaves the rows alone. -/
theorem EventTable.frame (h : EventTable env s) (hevents : s'.events = s.events)
    (hpending : s'.pendingEvents = s.pendingEvents) (hlocks : s'.eventLocks = s.eventLocks)
    (hnext : s'.nextEventId = s.nextEventId)
    (hrows : ∀ t, (s'.stages t).rows.Sublist (s.stages t).rows) : EventTable env s' := by
  have hversions : s'.versions = s.versions := by rw [State.versions, hevents, hpending]; rfl
  constructor
  · rw [hversions, hnext]
    exact h.lt
  · rw [hevents]
    exact h.nodup
  · rw [hpending]
    exact h.pendingNodup
  · rw [hversions]
    exact h.unique
  · rw [hpending, hevents, hlocks]
    exact h.version
  · rw [hversions]
    exact h.recorded
  · rw [hevents, hlocks]
    exact fun t event hevent => h.row t event ((hrows t).subset hevent)
  · exact fun t => (h.rowsNodup t).sublist ((hrows t).map _)
  · rw [hpending]
    exact fun row hrow event hevent => h.unmarked row hrow event ((hrows _).subset hevent)
  · rw [hpending, hevents]
    exact h.marked

theorem sameKey_event {event : Event} (h : sameKey spec event = true) :
    event.kind = spec.kind ∧ event.logicalKey = spec.logicalKey :=
  (sameKey_iff.mp h).2

/-- A transaction overwrites its own version of an event. -/
theorem EventTable.again (h : EventTable env s) (hvalid : spec.validate = .ok ()) {event : Event}
    (hevent : (t, event) ∈ s.pendingEvents) (hkey : sameKey spec event = true) :
    EventTable env { s with
      pendingEvents := s.pendingEvents.map fun row =>
        if row.1 = t ∧ row.2.id = event.id then (t, row.2.rewritten env spec) else row } := by
  have hrow : ∀ row ∈ s.pendingEvents.map fun row =>
      if row.1 = t ∧ row.2.id = event.id then (t, row.2.rewritten env spec) else row,
      row ∈ s.pendingEvents ∨ row = (t, event.rewritten env spec) := by
    intro row hrow
    obtain ⟨old, hold, rfl⟩ := List.mem_map.mp hrow
    split_ifs with heq
    · obtain rfl : old = (t, event) := h.pending_eq_of_id hold hevent heq.2
      exact .inr rfl
    · exact .inl hold
  have hversion : ∀ version, (version ∈ s.events ∨ ∃ t', (t', version) ∈ s.pendingEvents.map fun row =>
      if row.1 = t ∧ row.2.id = event.id then (t, row.2.rewritten env spec) else row) →
      version ∈ s.versions ∨ version = event.rewritten env spec := by
    rintro version (hmem | ⟨t', hmem⟩)
    · exact .inl (mem_versions.mpr (.inl hmem))
    · rcases hrow _ hmem with hmem | heq
      · exact .inl (mem_versions.mpr (.inr ⟨t', hmem⟩))
      · exact .inr (Prod.mk.inj heq).2
  have hold : event ∈ s.versions := mem_versions.mpr (.inr ⟨t, hevent⟩)
  constructor
  · intro version hmem
    rcases hversion version (mem_versions.mp hmem) with hmem | rfl
    · exact h.lt version hmem
    · exact h.lt event hold
  · exact h.nodup
  · have hids : (s.pendingEvents.map fun row =>
        if row.1 = t ∧ row.2.id = event.id then (t, row.2.rewritten env spec) else row).map
          (fun row => row.2.id) = s.pendingEvents.map fun row => row.2.id := by
      rw [List.map_map]
      refine List.map_congr_left fun row _ => ?_
      rw [Function.comp_apply]
      split_ifs <;> rfl
    exact hids ▸ h.pendingNodup
  · intro a ha b hb hsame
    rcases hversion a (mem_versions.mp ha) with ha | rfl <;>
      rcases hversion b (mem_versions.mp hb) with hb | rfl
    · exact h.unique a ha b hb hsame
    · exact h.unique a ha event hold hsame
    · exact h.unique event hold b hb hsame
    · rfl
  · intro row hmem event' hevent' hid
    rcases hrow row hmem with hmem | rfl
    · exact h.version row hmem event' hevent' hid
    · exact h.version (t, event) hevent event' hevent' hid
  · intro version hmem
    rcases hversion version (mem_versions.mp hmem) with hmem | rfl
    · exact h.recorded version hmem
    · exact ⟨spec, hvalid, (sameKey_event hkey).1, (sameKey_event hkey).2, rfl⟩
  · exact h.row
  · exact h.rowsNodup
  · intro row hmem event' hevent'
    rcases hrow row hmem with hmem | rfl
    · exact h.unmarked row hmem event' hevent'
    · exact h.unmarked (t, event) hevent event' hevent'
  · intro row hmem hmarked
    rcases hrow row hmem with hmem | rfl
    · exact h.marked row hmem hmarked
    · exact absurd rfl hmarked

/-- A transaction adds a version. -/
theorem EventTable.append (h : EventTable env s) (row : TxnId × Event)
    (hevents : s'.events = s.events) (hpending : s'.pendingEvents = s.pendingEvents ++ [row])
    (hnext : s.nextEventId ≤ s'.nextEventId) (hlt : row.2.id < s'.nextEventId)
    (hlocks : ∀ id t, s.eventLocks id = some t → s'.eventLocks id = some t)
    (hrows : ∀ t, (s'.stages t).rows.Sublist (s.stages t).rows)
    (hnew : ∀ old ∈ s.pendingEvents, old.2.id ≠ row.2.id)
    (hunique : ∀ version ∈ s.versions, SameKey row.2 version → row.2.id = version.id)
    (hversion : ∀ event ∈ s.events, event.id = row.2.id → s'.eventLocks event.id = some row.1 ∧
      event.kind = row.2.kind ∧ event.logicalKey = row.2.logicalKey)
    (hrecorded : Recorded env row.2)
    (hunmarked : ∀ event ∈ (s'.stages row.1).rows, event.id ≠ row.2.id)
    (hmarked : row.2.dispatchedAt ≠ none → { row.2 with dispatchedAt := none } ∈ s.events) :
    EventTable env s' := by
  have hmem : ∀ version ∈ s'.versions, version ∈ s.versions ∨ version = row.2 := by
    intro version hversion
    rw [State.versions, hevents, hpending, List.map_append, ← List.append_assoc] at hversion
    exact (List.mem_append.mp hversion).imp_right List.mem_singleton.mp
  have hrow : ∀ row' ∈ s'.pendingEvents, row' ∈ s.pendingEvents ∨ row' = row := by
    intro row' hrow'
    rw [hpending] at hrow'
    exact (List.mem_append.mp hrow').imp_right List.mem_singleton.mp
  constructor
  · intro version hversion
    rcases hmem version hversion with hversion | rfl
    · exact (h.lt version hversion).trans_le hnext
    · exact hlt
  · rw [hevents]
    exact h.nodup
  · rw [hpending, List.map_append, List.nodup_append]
    refine ⟨h.pendingNodup, List.nodup_singleton _, ?_⟩
    intro id hid id' hid'
    obtain ⟨old, hold, rfl⟩ := List.mem_map.mp hid
    obtain rfl := List.mem_singleton.mp hid'
    exact hnew old hold
  · intro a ha b hb hsame
    rcases hmem a ha with ha | rfl <;> rcases hmem b hb with hb | rfl
    · exact h.unique a ha b hb hsame
    · have hsame' : SameKey row.2 a := ⟨hsame.1.symm, hsame.2.1.symm, hsame.2.1 ▸ hsame.2.2⟩
      exact (hunique a ha hsame').symm
    · exact hunique b hb hsame
    · rfl
  · rw [hevents]
    intro row' hrow' event hevent hid
    rcases hrow row' hrow' with hrow' | rfl
    · obtain ⟨hlock, hkey⟩ := h.version row' hrow' event hevent hid
      exact ⟨hlocks _ _ hlock, hkey⟩
    · exact hversion event hevent hid
  · intro version hversion
    rcases hmem version hversion with hversion | rfl
    · exact h.recorded version hversion
    · exact hrecorded
  · rw [hevents]
    intro t event hevent
    obtain ⟨hcommitted, hlock, hnone⟩ := h.row t event ((hrows t).subset hevent)
    exact ⟨hcommitted, hlocks _ _ hlock, hnone⟩
  · exact fun t => (h.rowsNodup t).sublist ((hrows t).map _)
  · intro row' hrow' event hevent
    rcases hrow row' hrow' with hrow' | rfl
    · exact h.unmarked row' hrow' event ((hrows _).subset hevent)
    · exact hunmarked event hevent
  · rw [hevents]
    intro row' hrow' hdispatched
    rcases hrow row' hrow' with hrow' | rfl
    · exact h.marked row' hrow' hdispatched
    · exact hmarked hdispatched

/-- A transaction overwrites a committed row. -/
theorem EventTable.onto (h : EventTable env s) (hvalid : spec.validate = .ok ())
    (hidle : s.stages t = .idle) {event : Event} (hevent : event ∈ s.events)
    (hkey : sameKey spec event = true)
    (hlock : ∀ holder, s.eventLocks event.id = some holder → holder = t)
    (hown : ∀ version, (t, version) ∈ s.pendingEvents → sameKey spec version = false) :
    EventTable env { s with
      eventLocks := fun id => if id = event.id then some t else s.eventLocks id
      pendingEvents := s.pendingEvents ++ [(t, event.rewritten env spec)] } := by
  have hmem : event ∈ s.versions := mem_versions.mpr (.inl hevent)
  refine h.append (t, event.rewritten env spec) rfl rfl le_rfl (h.lt event hmem) ?_
    (fun _ => .refl _) ?_ (fun version hversion hsame => h.unique event hmem version hversion hsame)
    ?_ ?_ ?_ (fun hmarked => absurd rfl hmarked)
  · intro id t' hheld
    simp only
    split_ifs with hid
    · subst hid
      exact congrArg some (hlock t' hheld).symm
    · exact hheld
  · rintro ⟨t', version⟩ hold hid
    obtain ⟨hheld, hkind, hlogical⟩ := h.version _ hold event hevent hid.symm
    obtain rfl := hlock t' hheld
    have hfree := hown version hold
    rw [sameKey, ← hkind, ← hlogical] at hfree
    rw [sameKey, hfree] at hkey
    cases hkey
  · intro event' hevent' hid
    obtain rfl := h.eq_of_id hevent' hevent hid
    exact ⟨if_pos rfl, rfl, rfl⟩
  · exact ⟨spec, hvalid, (sameKey_event hkey).1, (sameKey_event hkey).2, rfl⟩
  · intro event' hevent'
    simp only [hidle, Stage.rows] at hevent'
    cases hevent'

/-- A transaction inserts a row. -/
theorem EventTable.fresh (h : EventTable env s) (hvalid : spec.validate = .ok ())
    (hidle : s.stages t = .idle) (hfree : ∀ version ∈ s.versions, sameKey spec version = false) :
    EventTable env { s with
      nextEventId := s.nextEventId + 1
      pendingEvents := s.pendingEvents ++ [(t, Event.new env s.nextEventId spec)] } := by
  refine h.append (t, Event.new env s.nextEventId spec) rfl rfl (Nat.le_succ _)
    (Nat.lt_succ_self _) (fun _ _ hheld => hheld) (fun _ => .refl _) ?_ ?_ ?_
    ⟨spec, hvalid, rfl, rfl, rfl⟩ ?_ (fun hmarked => absurd rfl hmarked)
  · rintro ⟨t', version⟩ hold
    exact (h.lt version (mem_versions.mpr (.inr ⟨t', hold⟩))).ne
  · rintro version hversion ⟨hkind, hlogical, hsome⟩
    have htrue : sameKey spec version = true := sameKey_iff.mpr ⟨hsome, hkind.symm, hlogical.symm⟩
    rw [hfree version hversion] at htrue
    cases htrue
  · intro event hevent hid
    exact absurd hid (h.lt event (mem_versions.mpr (.inl hevent))).ne
  · intro event hevent
    simp only [hidle, Stage.rows] at hevent
    cases hevent

/-- A dispatch marks its first row. -/
theorem EventTable.mark (h : EventTable env s) {event : Event} {rest : List Event} {now : ℤ}
    (hrows : (s.stages t).rows = event :: rest) (hevents : s'.events = s.events)
    (hpending : s'.pendingEvents =
      s.pendingEvents ++ [(t, { event with dispatchedAt := some now })])
    (hlocks : s'.eventLocks = s.eventLocks) (hnext : s'.nextEventId = s.nextEventId)
    (hrest : (s'.stages t).rows = rest) (hothers : ∀ t', t' ≠ t → s'.stages t' = s.stages t') :
    EventTable env s' := by
  have hhead : event ∈ (s.stages t).rows := hrows ▸ List.mem_cons_self
  obtain ⟨hevent, hlock, hnone⟩ := h.row t event hhead
  have hmem : event ∈ s.versions := mem_versions.mpr (.inl hevent)
  refine h.append (t, { event with dispatchedAt := some now }) hevents hpending hnext.ge
    (hnext ▸ h.lt event hmem) (fun _ _ hheld => hlocks ▸ hheld) (fun t' => ?_) ?_
    (fun version hversion hsame => h.unique event hmem version hversion hsame) ?_
    (h.recorded event hmem) ?_ (fun _ => ?_)
  · by_cases ht : t' = t
    · rw [ht, hrest, hrows]
      exact List.sublist_cons_self ..
    · rw [hothers t' ht]
  · rintro ⟨t', version⟩ hold hid
    obtain ⟨hheld, -⟩ := h.version _ hold event hevent hid.symm
    obtain rfl : t = t' := Option.some.inj (hlock.symm.trans hheld)
    exact h.unmarked _ hold event hhead hid.symm
  · intro event' hevent' hid
    obtain rfl := h.eq_of_id hevent' hevent hid
    exact ⟨hlocks ▸ hlock, rfl, rfl⟩
  · intro event' hevent' hid
    have hnodup := h.rowsNodup t
    rw [hrest] at hevent'
    rw [hrows, List.map_cons, List.nodup_cons] at hnodup
    exact hnodup.1 (hid ▸ List.mem_map_of_mem hevent')
  · have heq : { event with dispatchedAt := none } = event := by rw [← hnone]
    exact heq ▸ hevent

/-- A committed row that a transaction has locked. -/
def Held (s : State) (t : TxnId) (event : Event) : Prop :=
  event ∈ s.events ∧ s.eventLocks event.id = some t

/-- What is locked stays until its transaction ends. -/
theorem Held.change {ended : Option TxnId} {event : Event} (hheld : Held s t event)
    (htable : EventTable env s) (h : EventsChange env s ended s') (hends : ended ≠ some t) :
    Held s' t event := by
  obtain ⟨hevent, hlock⟩ := hheld
  cases h with
  | frame hevents _ hlocks => exact ⟨hevents ▸ hevent, hlocks ▸ hlock⟩
  | recorded t' hidle hvalid hrecords =>
    cases hrecords with
    | again => exact ⟨hevent, hlock⟩
    | onto hevent' hkey hfree =>
      refine ⟨hevent, ?_⟩
      simp only
      split_ifs with hid
      · exact congrArg some (hfree t (hid ▸ hlock)).symm
      · exact hlock
    | fresh => exact ⟨hevent, hlock⟩
  | cancelled kind logicalKey hfree =>
    refine ⟨List.mem_filter.mpr ⟨hevent, ?_⟩, hlock⟩
    by_contra hcancelled
    obtain ⟨⟨hkind, hkey⟩, hnone⟩ : (event.kind = kind ∧ event.logicalKey = some logicalKey) ∧
        event.dispatchedAt = none := by simpa using hcancelled
    rw [hfree event hevent hkind hkey hnone] at hlock
    cases hlock
  | dispatching t' limit skipped =>
    refine ⟨hevent, ?_⟩
    simp only
    rw [if_neg ?_]
    · exact hlock
    · intro hany
      obtain ⟨row, hrow, hid⟩ := List.any_eq_true.mp hany
      have hfree := (mem_dispatchRows hrow).2.2
      rw [beq_iff_eq.mp hid, hlock] at hfree
      cases hfree
  | marked t' _ hevents _ hlocks => exact ⟨hevents ▸ hevent, hlocks ▸ hlock⟩
  | committed t' =>
    have hne : t' ≠ t := fun heq => hends (congrArg some heq)
    refine ⟨applyEvents_keeps hevent fun version hversion hid => ?_, ?_⟩
    · obtain ⟨hheld, -⟩ := htable.version _ (mem_own.mp hversion) event hevent hid.symm
      exact hne (Option.some.inj (hheld.symm.trans hlock))
    · simp [State.commit, State.release, hlock, hne.symm]
  | rolledBack t' =>
    have hne : t' ≠ t := fun heq => hends (congrArg some heq)
    exact ⟨hevent, by simp [State.release, hlock, hne.symm]⟩

/-- Rows that nobody has locked are deleted. -/
theorem EventTable.cancelled (h : EventTable env s) {deleted : Event → Bool}
    (hfree : ∀ event ∈ s.events, deleted event = true → s.eventLocks event.id = none) :
    EventTable env { s with events := s.events.filter fun event => !deleted event } := by
  have hkept : ∀ event ∈ s.events, ∀ t, s.eventLocks event.id = some t →
      event ∈ s.events.filter fun event => !deleted event := by
    intro event hevent t hlock
    refine List.mem_filter.mpr ⟨hevent, ?_⟩
    cases hdeleted : deleted event with
    | false => rfl
    | true =>
      rw [hfree event hevent hdeleted] at hlock
      cases hlock
  have hold : ∀ event ∈ s.events.filter fun event => !deleted event, event ∈ s.events :=
    fun event hevent => (List.mem_filter.mp hevent).1
  have hversions : ∀ version, (version ∈ (s.events.filter fun event => !deleted event) ∨
      ∃ t, (t, version) ∈ s.pendingEvents) → version ∈ s.versions :=
    fun version hversion => mem_versions.mpr (hversion.imp_left (hold version))
  constructor
  · exact fun version hversion => h.lt version (hversions version (mem_versions.mp hversion))
  · exact h.nodup.sublist (List.filter_sublist.map _)
  · exact h.pendingNodup
  · exact fun a ha b hb => h.unique a (hversions a (mem_versions.mp ha)) b
      (hversions b (mem_versions.mp hb))
  · exact fun row hrow event hevent => h.version row hrow event (hold event hevent)
  · exact fun version hversion => h.recorded version (hversions version (mem_versions.mp hversion))
  · intro t event hevent
    obtain ⟨hcommitted, hlock, hnone⟩ := h.row t event hevent
    exact ⟨hkept event hcommitted t hlock, hlock, hnone⟩
  · exact h.rowsNodup
  · exact h.unmarked
  · intro row hrow hmarked
    have hcommitted := h.marked row hrow hmarked
    exact hkept _ hcommitted row.1 (h.version row hrow _ hcommitted rfl).1

/-- A dispatch locks the rows that it takes. -/
theorem EventTable.dispatching (h : EventTable env s) (limit : ℕ) (skipped : List ℕ)
    (hpending : ∀ row ∈ s.pendingEvents, row.1 ≠ t) :
    EventTable env { s.setStage t (.dispatching (dispatchRows env s limit skipped)) with
      eventLocks := fun id =>
        if (dispatchRows env s limit skipped).any fun event => event.id == id then some t
        else s.eventLocks id } := by
  have hlocks : ∀ id t', s.eventLocks id = some t' →
      (if (dispatchRows env s limit skipped).any fun event => event.id == id then some t
        else s.eventLocks id) = some t' := by
    intro id t' hlock
    rw [if_neg, hlock]
    intro hany
    obtain ⟨event, hevent, hid⟩ := List.any_eq_true.mp hany
    have hfree := (mem_dispatchRows hevent).2.2
    rw [beq_iff_eq.mp hid, hlock] at hfree
    cases hfree
  constructor
  · exact h.lt
  · exact h.nodup
  · exact h.pendingNodup
  · exact h.unique
  · intro row hrow event hevent hid
    obtain ⟨hlock, hkey⟩ := h.version row hrow event hevent hid
    exact ⟨hlocks _ _ hlock, hkey⟩
  · exact h.recorded
  · intro t' event hevent
    simp only [State.setStage] at hevent
    split_ifs at hevent with ht
    · subst ht
      have hrow : event ∈ dispatchRows env s limit skipped := hevent
      obtain ⟨hcommitted, hdispatchable, -⟩ := mem_dispatchRows hrow
      have hany : (dispatchRows env s limit skipped).any (fun row => row.id == event.id) = true :=
        List.any_eq_true.mpr ⟨event, hrow, beq_self_eq_true _⟩
      exact ⟨hcommitted, if_pos hany, (dispatchable_iff.mp hdispatchable).1⟩
    · obtain ⟨hcommitted, hlock, hnone⟩ := h.row t' event hevent
      exact ⟨hcommitted, hlocks _ _ hlock, hnone⟩
  · intro t'
    simp only [State.setStage]
    split_ifs with ht
    · exact dispatchRows_nodup h.nodup limit skipped
    · exact h.rowsNodup t'
  · intro row hrow event hevent
    simp only [State.setStage, if_neg (hpending row hrow)] at hevent
    exact h.unmarked row hrow event hevent
  · exact h.marked

/-- A transaction gives up its versions and its locks. -/
theorem EventTable.release (h : EventTable env s) (t : TxnId) : EventTable env (s.release t) := by
  have hversions : ∀ version, (version ∈ s.events ∨
      ∃ t', (t', version) ∈ others t s.pendingEvents) → version ∈ s.versions := by
    rintro version (hversion | ⟨t', hversion⟩)
    · exact mem_versions.mpr (.inl hversion)
    · exact mem_versions.mpr (.inr ⟨t', (mem_others.mp hversion).1⟩)
  have hrows : ∀ t', ((s.release t).stages t').rows.Sublist (s.stages t').rows ∧
      ∀ event ∈ ((s.release t).stages t').rows, t' ≠ t := by
    intro t'
    simp only [State.release]
    split_ifs with ht
    · exact ⟨List.nil_sublist _, fun _ hevent => absurd hevent List.not_mem_nil⟩
    · exact ⟨.refl _, fun _ _ => ht⟩
  have hlocks : ∀ id t', t' ≠ t → s.eventLocks id = some t' →
      (s.release t).eventLocks id = some t' := by
    intro id t' ht hlock
    simp [State.release, hlock, ht]
  constructor
  · exact fun version hversion => h.lt version (hversions version (mem_versions.mp hversion))
  · exact h.nodup
  · exact h.pendingNodup.sublist (List.filter_sublist.map _)
  · exact fun a ha b hb => h.unique a (hversions a (mem_versions.mp ha)) b
      (hversions b (mem_versions.mp hb))
  · intro row hrow event hevent hid
    obtain ⟨hpending, hne⟩ := mem_others.mp hrow
    obtain ⟨hlock, hkey⟩ := h.version row hpending event hevent hid
    exact ⟨hlocks _ _ hne hlock, hkey⟩
  · exact fun version hversion => h.recorded version (hversions version (mem_versions.mp hversion))
  · intro t' event hevent
    obtain ⟨hsub, hne⟩ := hrows t'
    obtain ⟨hcommitted, hlock, hnone⟩ := h.row t' event (hsub.subset hevent)
    exact ⟨hcommitted, hlocks _ _ (hne event hevent) hlock, hnone⟩
  · exact fun t' => (h.rowsNodup t').sublist ((hrows t').1.map _)
  · exact fun row hrow event hevent =>
      h.unmarked row (mem_others.mp hrow).1 event ((hrows _).1.subset hevent)
  · exact fun row hrow => h.marked row (mem_others.mp hrow).1

/-- A transaction writes its versions. -/
theorem EventTable.commit (h : EventTable env s) (t : TxnId) : EventTable env (s.commit t) := by
  have hrelease := h.release t
  have hevents : ∀ event ∈ (s.commit t).events,
      event ∈ s.events ∨ (t, event) ∈ s.pendingEvents := by
    intro event hevent
    exact (mem_applyEvents hevent).imp And.left mem_own.mp
  have hversions : ∀ version ∈ (s.commit t).versions, version ∈ s.versions := by
    intro version hversion
    rcases mem_versions.mp hversion with hversion | ⟨t', hversion⟩
    · exact mem_versions.mpr ((hevents version hversion).imp_right fun hmem => ⟨t, hmem⟩)
    · exact mem_versions.mpr (.inr ⟨t', (mem_others.mp hversion).1⟩)
  have hkept : ∀ t' event, t' ≠ t → event ∈ s.events →
      (s.release t).eventLocks event.id = some t' → event ∈ (s.commit t).events := by
    intro t' event ht hevent hlock
    refine applyEvents_keeps hevent fun version hversion hid => ?_
    obtain ⟨hheld, -⟩ := h.version _ (mem_own.mp hversion) event hevent hid.symm
    simp [State.release, hheld] at hlock
  constructor
  · exact fun version hversion => h.lt version (hversions version hversion)
  · exact applyEvents_nodup h.nodup (own_ids_nodup h.pendingNodup t)
  · exact hrelease.pendingNodup
  · exact fun a ha b hb => h.unique a (hversions a ha) b (hversions b hb)
  · intro row hrow event hevent hid
    rcases hevents event hevent with hcommitted | hpending
    · exact hrelease.version row hrow event hcommitted hid
    · obtain ⟨hmem, hne⟩ := mem_others.mp hrow
      have heq := h.pending_eq_of_id hpending hmem hid
      exact absurd (congrArg Prod.fst heq).symm hne
  · exact fun version hversion => h.recorded version (hversions version hversion)
  · intro t' event hevent
    obtain ⟨hcommitted, hlock, hnone⟩ := hrelease.row t' event hevent
    refine ⟨hkept t' event ?_ hcommitted hlock, hlock, hnone⟩
    rintro rfl
    simp [State.commit, State.release, Stage.rows] at hevent
  · exact hrelease.rowsNodup
  · exact hrelease.unmarked
  · intro row hrow hmarked
    have hcommitted := hrelease.marked row hrow hmarked
    exact hkept row.1 _ (mem_others.mp hrow).2 hcommitted
      (hrelease.version row hrow _ hcommitted rfl).1

theorem EventTable.change {ended : Option TxnId} (htable : EventTable env s)
    (h : EventsChange env s ended s') : EventTable env s' := by
  cases h with
  | frame hevents hpending hlocks hnext hrows => exact htable.frame hevents hpending hlocks hnext hrows
  | recorded t hidle hvalid hrecords =>
    cases hrecords with
    | again hevent hkey => exact htable.again hvalid hevent hkey
    | onto hevent hkey hlock hown => exact htable.onto hvalid hidle hevent hkey hlock hown
    | fresh hfree => exact htable.fresh hvalid hidle hfree
  | cancelled kind logicalKey hfree =>
    refine htable.cancelled fun event hevent hdeleted => ?_
    obtain ⟨⟨hkind, hkey⟩, hnone⟩ : (event.kind = kind ∧ event.logicalKey = some logicalKey) ∧
        event.dispatchedAt = none := by simpa using hdeleted
    exact hfree event hevent hkind hkey hnone
  | dispatching t limit skipped hpending => exact htable.dispatching limit.toNat skipped hpending
  | marked t hrows hevents hpending hlocks hnext hrest hothers =>
    exact htable.mark hrows hevents hpending hlocks hnext hrest hothers
  | committed t => exact htable.commit t
  | rolledBack t => exact htable.release t

theorem eventTable_of_run {start : ℤ} (h : Run (Step env) (initial start) labels s) :
    EventTable env s := by
  refine h.invariant (P := fun _ s => EventTable env s) (eventTable_initial env start) ?_
  rintro _ _ ⟨op, response⟩ _ _ htable hstep
  obtain ⟨ended, hchange, -⟩ := step_change hstep
  exact htable.change hchange

end Rustodon.Queue
