import Rustodon.Queue.Outbox

/-! @src jobs.rs | name:No work lost, none invented | scheme:transactional outbox | family:queue

    What has been recorded last for a logical key is what its row says, and a row is marked by the
    commit that inserts its job. -/

namespace Rustodon.Queue
open Schemes.Checked Schemes.Json Schemes.Runs

variable {env : Env} {s s' : State} {op : Op} {response : Response} {labels : List Label}
  {t : TxnId} {spec : JobSpec}

/-! ### The last recording -/

/-- What callers have recorded for `(kind, logical_key)`: in transactions that are still open, and
    last among those that have committed. -/
structure Recordings where
  pending : TxnId → String → String → Option Value
  last : String → String → Option Value

def Recordings.none : Recordings := ⟨fun _ _ _ => .none, fun _ _ => .none⟩

def Recordings.record (env : Env) (r : Recordings) (t : TxnId) (spec : JobSpec) : Recordings :=
  { r with pending := fun t' kind key =>
      if t' = t ∧ kind = spec.kind ∧ some key = spec.logicalKey then some (outboxPayload env spec)
      else r.pending t' kind key }

def Recordings.forget (r : Recordings) (t : TxnId) : Recordings :=
  { r with pending := fun t' kind key => if t' = t then .none else r.pending t' kind key }

def Recordings.commit (r : Recordings) (t : TxnId) : Recordings :=
  { r.forget t with last := fun kind key => (r.pending t kind key).or (r.last kind key) }

def Recordings.next (env : Env) (r : Recordings) : Label → Recordings
  | (.recordOutbox t spec, .id _) => r.record env t spec
  | (.recordOutboxOnce t spec, .flag true) => r.record env t spec
  | (.commit t, _) => r.commit t
  | (.rollback t, _) => r.forget t
  | (.next t, .failed _) => r.forget t
  | _ => r

/-- The recordings of a history. -/
def recordings (env : Env) (labels : List Label) : Recordings :=
  labels.foldl (Recordings.next env) .none

/-- The rows agree with the recordings. -/
structure Agrees (env : Env) (r : Recordings) (s : State) : Prop where
  pending : ∀ t kind key payload, r.pending t kind key = some payload →
    ∃ version, (t, version) ∈ s.pendingEvents ∧ version.kind = kind ∧
      version.logicalKey = some key ∧ version.payload = payload ∧ version.dispatchedAt = none
  version : ∀ row ∈ s.pendingEvents, ∀ key, row.2.logicalKey = some key →
    row.2.dispatchedAt = none → r.pending row.1 row.2.kind key = some row.2.payload
  last : ∀ event ∈ s.events, ∀ key, event.logicalKey = some key →
    r.last event.kind key = some event.payload

theorem agrees_initial (env : Env) (start : ℤ) : Agrees env .none (initial start) where
  pending _ _ _ _ h := by cases h
  version _ h := absurd h List.not_mem_nil
  last _ h := absurd h List.not_mem_nil

variable {r : Recordings}

/-- A step that records nothing. -/
theorem Agrees.frame (h : Agrees env r s) (hevents : ∀ event ∈ s'.events, event ∈ s.events)
    (hold : ∀ row ∈ s.pendingEvents, row ∈ s'.pendingEvents)
    (hnew : ∀ row ∈ s'.pendingEvents, row.2.dispatchedAt = none → row ∈ s.pendingEvents) :
    Agrees env r s' where
  pending t kind key payload hpending := by
    obtain ⟨version, hmem, hversion⟩ := h.pending t kind key payload hpending
    exact ⟨version, hold _ hmem, hversion⟩
  version row hrow key hkey hnone := h.version row (hnew row hrow hnone) key hkey hnone
  last event hevent := h.last event (hevents event hevent)

/-- A new version for a key that its transaction has none for. -/
theorem Agrees.append (h : Agrees env r s) {version : Event} (hevents : s'.events = s.events)
    (hpending : s'.pendingEvents = s.pendingEvents ++ [(t, version)])
    (hversion : version.kind = spec.kind ∧ version.logicalKey = spec.logicalKey ∧
      version.payload = outboxPayload env spec ∧ version.dispatchedAt = none)
    (hfree : ∀ old, (t, old) ∈ s.pendingEvents → sameKey spec old = false) :
    Agrees env (r.record env t spec) s' := by
  obtain ⟨hkind, hkey, hpayload, hnone⟩ := hversion
  constructor
  · intro t' kind key payload hrecorded
    rw [hpending]
    simp only [Recordings.record] at hrecorded
    split_ifs at hrecorded with hsame
    · obtain ⟨rfl, rfl, heq⟩ := hsame
      exact ⟨version, List.mem_append_right _ (List.mem_singleton_self _), hkind,
        hkey.trans heq.symm, hpayload.trans (Option.some.inj hrecorded), hnone⟩
    · obtain ⟨old, hmem, hold⟩ := h.pending t' kind key payload hrecorded
      exact ⟨old, List.mem_append_left _ hmem, hold⟩
  · rw [hpending]
    intro row hrow key hrowkey hrownone
    simp only [Recordings.record]
    rcases List.mem_append.mp hrow with hold | hnew
    · rw [if_neg]
      · exact h.version row hold key hrowkey hrownone
      · rintro ⟨rfl, hsamekind, hsamekey⟩
        have htrue : sameKey spec row.2 = true :=
          sameKey_iff.mpr ⟨hsamekey ▸ nofun, hsamekind, hrowkey.trans hsamekey⟩
        rw [hfree row.2 hold] at htrue
        cases htrue
    · obtain rfl := List.mem_singleton.mp hnew
      rw [if_pos ⟨rfl, hkind, hrowkey.symm.trans hkey⟩, hpayload]
  · rw [hevents]
    exact h.last

/-- A transaction writes another payload into its own version. -/
theorem Agrees.again (h : Agrees env r s) (htable : EventTable env s) {event : Event}
    (hevent : (t, event) ∈ s.pendingEvents) (hkey : sameKey spec event = true) :
    Agrees env (r.record env t spec) { s with
      pendingEvents := s.pendingEvents.map fun row =>
        if row.1 = t ∧ row.2.id = event.id then (t, row.2.rewritten env spec) else row } := by
  obtain ⟨hsome, hkind, hlogical⟩ := sameKey_iff.mp hkey
  -- The versions of the key that the transaction has are this one.
  have hone : ∀ old, (t, old) ∈ s.pendingEvents → old.kind = spec.kind →
      old.logicalKey = spec.logicalKey → old = event := by
    intro old hold holdkind holdkey
    have hsame : SameKey old event :=
      ⟨holdkind.trans hkind.symm, holdkey.trans hlogical.symm, holdkey ▸ hsome⟩
    have hid := htable.unique old (mem_versions.mpr (.inr ⟨t, hold⟩)) event
      (mem_versions.mpr (.inr ⟨t, hevent⟩)) hsame
    exact (Prod.mk.inj (htable.pending_eq_of_id hold hevent hid)).2
  constructor
  · intro t' kind key payload hrecorded
    simp only [Recordings.record] at hrecorded
    split_ifs at hrecorded with hsame
    · obtain ⟨rfl, rfl, heq⟩ := hsame
      refine ⟨event.rewritten env spec, List.mem_map.mpr ⟨_, hevent, if_pos ⟨rfl, rfl⟩⟩, hkind,
        hlogical.trans heq.symm, Option.some.inj hrecorded, rfl⟩
    · obtain ⟨old, hmem, hold⟩ := h.pending t' kind key payload hrecorded
      refine ⟨old, List.mem_map.mpr ⟨_, hmem, if_neg ?_⟩, hold⟩
      rintro ⟨rfl, hid⟩
      obtain ⟨-, rfl⟩ := Prod.mk.inj (htable.pending_eq_of_id hmem hevent hid)
      exact hsame ⟨rfl, hold.1.symm.trans hkind, hold.2.1.symm.trans hlogical⟩
  · intro row hrow key hrowkey hrownone
    obtain ⟨old, hmem, rfl⟩ := List.mem_map.mp hrow
    simp only [Recordings.record]
    by_cases hown : old.1 = t ∧ old.2.id = event.id
    · obtain rfl : old = (t, event) := htable.pending_eq_of_id hmem hevent hown.2
      rw [if_pos hown] at hrowkey ⊢
      exact if_pos ⟨rfl, hkind, hrowkey.symm.trans hlogical⟩
    · rw [if_neg hown] at hrowkey hrownone ⊢
      rw [if_neg]
      · exact h.version old hmem key hrowkey hrownone
      · rintro ⟨rfl, hsamekind, hsamekey⟩
        exact hown ⟨rfl, congrArg Event.id
          (hone old.2 hmem hsamekind (hrowkey.trans hsamekey))⟩
  · exact h.last

theorem Agrees.recorded (h : Agrees env r s) (htable : EventTable env s)
    (hrecords : Records env s t spec s') : Agrees env (r.record env t spec) s' := by
  cases hrecords with
  | again hevent hkey => exact h.again htable hevent hkey
  | onto hevent hkey _ hown =>
    exact h.append rfl rfl ⟨(sameKey_event hkey).1, (sameKey_event hkey).2, rfl, rfl⟩ hown
  | fresh hfree =>
    exact h.append rfl rfl ⟨rfl, rfl, rfl, rfl⟩
      fun old hold => hfree old (mem_versions.mpr (.inr ⟨t, hold⟩))

theorem Agrees.release (h : Agrees env r s) (t : TxnId) :
    Agrees env (r.forget t) (s.release t) where
  pending t' kind key payload hpending := by
    simp only [Recordings.forget] at hpending
    split_ifs at hpending with ht
    obtain ⟨version, hmem, hversion⟩ := h.pending t' kind key payload hpending
    exact ⟨version, mem_others.mpr ⟨hmem, ht⟩, hversion⟩
  version row hrow key hkey hnone := by
    obtain ⟨hmem, hne⟩ := mem_others.mp hrow
    simp only [Recordings.forget, if_neg hne]
    exact h.version row hmem key hkey hnone
  last := h.last

theorem Agrees.commit (h : Agrees env r s) (htable : EventTable env s) (t : TxnId) :
    Agrees env (r.commit t) (s.commit t) := by
  have hrelease := h.release t
  refine ⟨hrelease.pending, hrelease.version, fun event hevent key hkey => ?_⟩
  simp only [Recordings.commit]
  -- A recording of the key by this transaction is a version of the row.
  have hown : ∀ payload, r.pending t event.kind key = some payload → ∃ version,
      (t, version) ∈ s.pendingEvents ∧ version.dispatchedAt = none ∧
        (event ∈ s.versions → version.id = event.id) := by
    intro payload hpayload
    obtain ⟨version, hmem, hkind, hversionkey, -, hnone⟩ := h.pending t _ key payload hpayload
    refine ⟨version, hmem, hnone, fun hversion => ?_⟩
    exact htable.unique version (mem_versions.mpr (.inr ⟨t, hmem⟩)) event hversion
      ⟨hkind, hversionkey.trans hkey.symm, hversionkey ▸ nofun⟩
  rcases mem_applyEvents hevent with ⟨hcommitted, hunwritten⟩ | hwritten
  · cases hpending : r.pending t event.kind key with
    | none => exact h.last event hcommitted key hkey
    | some payload =>
      obtain ⟨version, hmem, -, hid⟩ := hown payload hpending
      exact absurd (hid (mem_versions.mpr (.inl hcommitted)))
        (hunwritten version (mem_own.mpr hmem))
  · have hmem := mem_own.mp hwritten
    by_cases hnone : event.dispatchedAt = none
    · rw [h.version (t, event) hmem key hkey hnone, Option.some_or]
    · cases hpending : r.pending t event.kind key with
      | none => exact h.last _ (htable.marked (t, event) hmem hnone) key hkey
      | some payload =>
        obtain ⟨version, hversion, hundispatched, hid⟩ := hown payload hpending
        have heq := htable.pending_eq_of_id hversion hmem
          (hid (mem_versions.mpr (.inr ⟨t, hmem⟩)))
        exact absurd ((Prod.mk.inj heq).2 ▸ hundispatched) hnone

theorem Agrees.next (h : Agrees env r s) (hnext : s.next env t = some (s', response)) :
    Agrees env (r.next env (.next t, response)) s' := by
  rcases next_cases hnext with ⟨error, rfl, rfl⟩ | ⟨hresponse, hadvance⟩
  · exact h.release t
  · have hsame : r.next env (.next t, response) = r := by
      cases response with
      | failed error => exact absurd rfl (hresponse error)
      | _ => rfl
    rw [hsame]
    have hevents : ∀ event ∈ s'.events, event ∈ s.events := by
      rw [hadvance.events]
      exact fun _ hevent => hevent
    rcases hadvance.rows with ⟨hpending, -⟩ | ⟨event, rest, -, -, hpending⟩
    · exact h.frame hevents (fun row hrow => hpending ▸ hrow) fun row hrow _ => hpending ▸ hrow
    · refine h.frame hevents (fun row hrow => ?_) fun row hrow hnone => ?_
      · exact hpending ▸ List.mem_append_left _ hrow
      · rw [hpending] at hrow
        rcases List.mem_append.mp hrow with hrow | hrow
        · exact hrow
        · obtain rfl := List.mem_singleton.mp hrow
          cases hnone

theorem Agrees.step (h : Agrees env r s) (htable : EventTable env s)
    (hstep : Step env s (op, response) s') : Agrees env (r.next env (op, response)) s' := by
  rcases step_cases hstep with ⟨statement, hstatement, -, rfl⟩ | ⟨-, htransact⟩
  · have hsame : r.next env (op, response) = r := by
      cases op <;> first | rfl | cases hstatement
    rw [hsame]
    exact ⟨h.pending, h.version, h.last⟩
  · cases op with
    | tick elapsed =>
      obtain ⟨rfl, -⟩ := Prod.mk.inj (Option.some.inj htransact)
      exact ⟨h.pending, h.version, h.last⟩
    | cancelEvents kind logicalKey =>
      simp only [transact, State.cancelEvents] at htransact
      split_ifs at htransact
      obtain ⟨rfl, -⟩ := Prod.mk.inj (Option.some.inj htransact)
      exact h.frame (fun event hevent => (List.mem_filter.mp hevent).1) (fun _ hrow => hrow)
        fun _ hrow _ => hrow
    | pruneMarker key =>
      rw [transact, State.pruneMarker] at htransact
      split at htransact
      · split_ifs at htransact
        obtain ⟨rfl, -⟩ := Prod.mk.inj (Option.some.inj htransact)
        exact ⟨h.pending, h.version, h.last⟩
      · cases htransact
    | enqueue t spec =>
      rcases enqueue_cases (whenIdle_eq_some htransact).2 with ⟨error, rfl, -⟩ |
        ⟨id, inserted, -, hinsert, -⟩
      · exact h
      · obtain ⟨hevents, hpending, -⟩ := insertJob_frame hinsert
        exact h.frame (fun _ hevent => hevents ▸ hevent) (fun _ hrow => hpending ▸ hrow)
          fun _ hrow _ => hpending ▸ hrow
    | enqueueOrdered t spec orderingKey =>
      obtain ⟨s₁, hinsert, heq⟩ := Option.map_eq_some_iff.mp (whenIdle_eq_some htransact).2
      obtain ⟨rfl, -⟩ := Prod.mk.inj heq
      rcases insertMarker_cases hinsert with rfl | ⟨-, -, written, rfl⟩
      · exact ⟨h.pending, h.version, h.last⟩
      · exact ⟨h.pending, h.version, h.last⟩
    | recordOutbox t spec =>
      rcases recordOutbox_cases (whenIdle_eq_some htransact).2 with ⟨rfl, error, rfl⟩ |
        ⟨-, ⟨id, rfl⟩, hrecords⟩
      · exact h
      · exact h.recorded htable hrecords
    | recordOutboxOnce t spec =>
      rcases recordOutboxOnce_cases (whenIdle_eq_some htransact).2 with ⟨rfl, hresponse⟩ |
        ⟨-, rfl, hrecords⟩
      · have hsame : r.next env (.recordOutboxOnce t spec, response) = r := by
          cases response with
          | flag value =>
            cases value with
            | false => rfl
            | true => exact absurd rfl hresponse
          | _ => rfl
        rw [hsame]
        exact h
      · exact h.recorded htable hrecords
    | dispatchOutbox t limit skipped =>
      have hdispatch := (whenIdle_eq_some htransact).2
      rw [State.dispatchOutbox] at hdispatch
      split_ifs at hdispatch
      · obtain ⟨rfl, -⟩ := Prod.mk.inj (Option.some.inj hdispatch)
        exact h
      · obtain ⟨rfl, -⟩ := Prod.mk.inj (Option.some.inj hdispatch)
        exact ⟨h.pending, h.version, h.last⟩
    | next t => exact h.next htransact
    | commit t =>
      rw [transact] at htransact
      split_ifs at htransact
      obtain ⟨rfl, -⟩ := Prod.mk.inj (Option.some.inj htransact)
      exact h.commit htable t
    | rollback t =>
      obtain ⟨rfl, -⟩ := Prod.mk.inj (Option.some.inj htransact)
      exact h.release t
    | _ => cases htransact

theorem agrees_of_run {start : ℤ} (h : Run (Step env) (initial start) labels s) :
    Agrees env (recordings env labels) s := by
  refine h.invariant (P := fun labels s => Agrees env (recordings env labels) s)
    (agrees_initial env start) ?_
  rintro labels _ ⟨op, response⟩ _ run hagrees hstep
  rw [recordings, List.foldl_append]
  exact hagrees.step (eventTable_of_run run) hstep

/-! ### Delivery -/

/-- The commit of a transaction marks an event, which is otherwise as it was, and inserts the job
    that its payload describes. -/
structure Marks (env : Env) (before : State) (t : TxnId) (after : State) (event : Event) :
    Prop where
  unmarked : { event with dispatchedAt := none } ∈ before.events
  marked : event ∈ after.events
  inserted : ∃ job, (t, job) ∈ before.pendingJobs ∧ job ∈ after.jobs ∧
    job.id ∉ before.jobs.map Job.id ∧ Delivers env event job

/-- What holds between outbox and queue in a state with its history. -/
structure OutboxDelivery (env : Env) (start : ℤ) (labels : List Label) (s : State) : Prop where
  /-- An event is marked by the commit that inserts its job, -/
  marked : ∀ op response s', OutboxStep env s (op, response) s' → ∀ event ∈ s'.events,
    event.dispatchedAt ≠ none → event ∉ s.events → ∃ t, op = .commit t ∧ Marks env s t s' event
  /-- so that each marked event has been delivered as it stands; -/
  delivered : ∀ event ∈ s.events, event.dispatchedAt ≠ none →
    ∃ pre t response post before after, labels = pre ++ (Op.commit t, response) :: post ∧
      Run (OutboxStep env) (initial start) pre before ∧
      OutboxStep env before (.commit t, response) after ∧ Run (OutboxStep env) after post s ∧
      Marks env before t after event
  /-- and it stands as it has been recorded last for its key. -/
  last : ∀ event ∈ s.events, ∀ key, event.logicalKey = some key →
    (recordings env labels).last event.kind key = some event.payload
  /-- An event stays, or is replaced by a version that a transaction commits, or is cancelled before
      it is marked. -/
  kept : ∀ op response s', OutboxStep env s (op, response) s' → ∀ event ∈ s.events,
    event ∈ s'.events ∨
    (∃ t version, op = .commit t ∧ (t, version) ∈ s.pendingEvents ∧ version.id = event.id ∧
      version ∈ s'.events) ∨
    ∃ kind logicalKey, op = .cancelEvents kind logicalKey ∧ event.kind = kind ∧
      event.logicalKey = some logicalKey ∧ event.dispatchedAt = none
  /-- What a transaction has written is there when it has committed. -/
  written : ∀ t response s', OutboxStep env s (.commit t, response) s' → ∀ version,
    (t, version) ∈ s.pendingEvents → version ∈ s'.events
  /-- At most one live job has a kind and logical key. -/
  oneLive : ∀ a ∈ s.jobs, ∀ b ∈ s.jobs, a.kind = b.kind → a.logicalKey = b.logicalKey →
    a.logicalKey ≠ none → a.live = true → b.live = true → a = b
  /-- A valid specification is read back from the payload that is recorded for it, -/
  decodes : ∀ spec : JobSpec, spec.validate = .ok () →
    outboxSpec env spec.kind spec.logicalKey (outboxPayload env spec) = .ok spec
  /-- every event is one that has been recorded so, -/
  recorded : ∀ event ∈ s.events, ∃ spec, spec.validate = .ok () ∧
    event.payload = outboxPayload env spec ∧
    outboxSpec env event.kind event.logicalKey event.payload = .ok spec
  /-- and no row makes a dispatch fail. -/
  unobstructed : ∀ t error s', ¬ OutboxStep env s (.next t, .failed error) s'

theorem marks_of_step (hdelivering : Delivering env s) (htable : EventTable env s)
    (hwf : WellFormed s) (hstep : Step env s (op, response) s') {event : Event}
    (hevent : event ∈ s'.events) (hdispatched : event.dispatchedAt ≠ none)
    (hnew : event ∉ s.events) : ∃ t, op = .commit t ∧ Marks env s t s' event := by
  rcases step_events hstep with heq | ⟨t, rfl, rfl, -⟩ | ⟨kind, logicalKey, -, heq⟩
  · exact absurd (heq ▸ hevent) hnew
  · refine ⟨t, rfl, ?_⟩
    rcases mem_applyEvents hevent with ⟨hold, -⟩ | hwritten
    · exact absurd hold hnew
    · have hpending := mem_own.mp hwritten
      obtain ⟨job, hjob, hdelivers⟩ := hdelivering.marked _ hpending hdispatched
      refine ⟨htable.marked _ hpending hdispatched, hevent, job, hjob,
        List.mem_append_right _ (mem_own.mpr hjob), fun hid => ?_, hdelivers⟩
      obtain ⟨old, hold, hid⟩ := List.mem_map.mp hid
      exact hwf.pending_ne hold hjob hid.symm
  · rw [heq] at hevent
    exact absurd (List.mem_filter.mp hevent).1 hnew

theorem kept_of_step (htable : EventTable env s) (hstep : Step env s (op, response) s')
    {event : Event} (hevent : event ∈ s.events) :
    event ∈ s'.events ∨
    (∃ t version, op = .commit t ∧ (t, version) ∈ s.pendingEvents ∧ version.id = event.id ∧
      version ∈ s'.events) ∨
    ∃ kind logicalKey, op = .cancelEvents kind logicalKey ∧ event.kind = kind ∧
      event.logicalKey = some logicalKey ∧ event.dispatchedAt = none := by
  rcases step_events hstep with heq | ⟨t, rfl, rfl, -⟩ | ⟨kind, logicalKey, rfl, heq⟩
  · exact .inl (heq ▸ hevent)
  · by_cases hwritten : ∃ version, (t, version) ∈ s.pendingEvents ∧ version.id = event.id
    · obtain ⟨version, hpending, hid⟩ := hwritten
      exact .inr (.inl ⟨t, version, rfl, hpending, hid,
        applyEvents_writes (own_ids_nodup htable.pendingNodup t) (mem_own.mpr hpending)⟩)
    · refine .inl (applyEvents_keeps hevent fun version hversion hid => ?_)
      exact hwritten ⟨version, mem_own.mp hversion, hid⟩
  · cases hcancelled : decide (event.kind = kind) && decide (event.logicalKey = some logicalKey) &&
        event.dispatchedAt.isNone with
    | true =>
      obtain ⟨⟨hkind, hkey⟩, hnone⟩ : (event.kind = kind ∧ event.logicalKey = some logicalKey) ∧
          event.dispatchedAt = none := by simpa using hcancelled
      exact .inr (.inr ⟨kind, logicalKey, rfl, hkind, hkey, hnone⟩)
    | false =>
      rw [heq]
      exact .inl (List.mem_filter.mpr ⟨hevent, by rw [hcancelled]; rfl⟩)

theorem commit_of_step (hstep : Step env s (.commit t, response) s') : s' = s.commit t := by
  rcases step_cases hstep with ⟨statement, hstatement, -⟩ | ⟨-, htransact⟩
  · cases hstatement
  · rw [transact] at htransact
    split_ifs at htransact
    exact (Prod.mk.inj (Option.some.inj htransact)).1.symm

theorem delivered_of_run {start : ℤ} (h : Run (OutboxStep env) (initial start) labels s) :
    ∀ event ∈ s.events, event.dispatchedAt ≠ none →
      ∃ pre t response post before after, labels = pre ++ (Op.commit t, response) :: post ∧
        Run (OutboxStep env) (initial start) pre before ∧
        OutboxStep env before (.commit t, response) after ∧ Run (OutboxStep env) after post s ∧
        Marks env before t after event := by
  induction h with
  | nil => exact fun event hevent => absurd hevent List.not_mem_nil
  | @snoc labels s s' label h last ih =>
    obtain ⟨op, response⟩ := label
    intro event hevent hdispatched
    by_cases hold : event ∈ s.events
    · obtain ⟨pre, t, response', post, before, after, rfl, hpre, hmark, hpost, hmarks⟩ :=
        ih event hold hdispatched
      exact ⟨pre, t, response', post ++ [(op, response)], before, after, by simp, hpre, hmark,
        .snoc hpost last, hmarks⟩
    · have run := run_of_outbox h
      obtain ⟨t, rfl, hmarks⟩ := marks_of_step (delivering_of_run h) (eventTable_of_run run)
        (wellFormed_of_run run) last.2 hevent hdispatched hold
      exact ⟨labels, t, response, [], s, s', rfl, h, last, .nil, hmarks⟩

/-- An environment that writes the epoch as RFC 3339 does, and counts up to other instants. -/
def countingEnv : Env where
  toRfc3339 t :=
    if t = 0 then "1970-01-01T00:00:00+00:00"
    else String.ofList ((if t < 0 then '-' else '+') :: List.replicate t.natAbs '|')
  parseRfc3339 text :=
    match text.toList with
    | '-' :: count => some (-count.length)
    | '+' :: count => some count.length
    | _ => if text = "1970-01-01T00:00:00+00:00" then some 0 else none
  sha256 _ := []
  jsonbText _ := ""

theorem countingEnv_time (t : ℤ) :
    countingEnv.parseRfc3339 (countingEnv.toRfc3339 t) = some t := by
  by_cases ht : t = 0
  · subst ht
    decide
  · by_cases hneg : t < 0
    · simp only [countingEnv, if_neg ht, if_pos hneg, String.toList_ofList, List.length_replicate,
        Option.some.injEq]
      omega
    · simp only [countingEnv, if_neg ht, if_neg hneg, String.toList_ofList, List.length_replicate,
        Option.some.injEq]
      omega

/-- A mail is recorded, dispatched and claimed, and recorded again, which waits for the worker. -/
def recordedAgain : List Op :=
  [.recordOutbox 0 mailSpec, .commit 0, .dispatchOutbox 1 10 [], .next 1, .commit 1,
    .claim "a" [.mail] 1000 [], .recordOutbox 2 mailSpec, .commit 2, .dispatchOutbox 3 10 [],
    .commit 3, .complete 1 "a" 1, .dispatchOutbox 4 10 [], .next 4, .commit 4]

end Rustodon.Queue
