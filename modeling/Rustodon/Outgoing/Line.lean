import Rustodon.Outgoing.Machine
import Rustodon.Schemes.Runs

/-! @src worker.rs, worker/delivery.rs, jobs.rs | name:Deliveries of one stream go out in order |
    scheme:leases,runs | family:outgoing

    Events become jobs in the order in which they have been recorded, and only the first live job can be
    claimed. As long as workers post under a lease that still runs, what is sent is therefore in that order:
    while the job has a lease, everything before it is done with. -/

namespace Rustodon.Outgoing
open Schemes.Tables (Table)

variable {s s' : State}

structure Lined (s : State) : Prop where
  events_sorted : s.events.Pairwise fun earlier later => earlier.id < later.id
  events_lt : ∀ event ∈ s.events, event.id < s.nextEventId
  jobs_lt : ∀ job ∈ s.jobs.rows, job.id < s.nextJobId
  jobs_sorted : ∀ job ∈ s.jobs.rows, ∀ later ∈ s.jobs.rows, job.id < later.id → job.eventId < later.eventId
  jobs_eventId_lt : ∀ job ∈ s.jobs.rows, job.eventId < s.nextEventId
  jobs_waiting : ∀ job ∈ s.jobs.rows, ∀ event ∈ s.events, event.dispatched = false → job.eventId < event.id
  leased_first : ∀ job ∈ s.jobs.rows, job.lease.isSome = true → ∀ other ∈ s.jobs.rows, other.dead = false →
    job.id ≤ other.id
  handlers_lt : ∀ handler ∈ s.handlers.rows, handler.jobId < s.nextJobId
  handlers_job : ∀ handler ∈ s.handlers.rows, ∀ job ∈ s.jobs.rows, job.id = handler.jobId →
    job.eventId = handler.eventId ∧ job.activity = handler.activity
  sent_sorted : s.sent.Pairwise fun earlier later => earlier.eventId ≤ later.eventId
  sent_lt : ∀ post ∈ s.sent, post.eventId < s.nextEventId
  sent_jobs : ∀ post ∈ s.sent, ∀ job ∈ s.jobs.rows, job.dead = false → post.eventId ≤ job.eventId
  sent_waiting : ∀ post ∈ s.sent, ∀ event ∈ s.events, event.dispatched = false → post.eventId < event.id

theorem lined_initial : Lined initial := by
  constructor <;> simp [initial]

/-- A row of a job as it was before a step that neither claims nor dispatches. -/
def Job.From (job job' : Job) : Prop :=
  job'.id = job.id ∧ job'.eventId = job.eventId ∧ job'.activity = job.activity ∧
    (job'.lease.isSome = true → job.lease.isSome = true) ∧ (job'.dead = false → job.dead = false)

theorem Job.from_refl (job : Job) : job.From job := ⟨rfl, rfl, rfl, fun h => h, fun h => h⟩

def Handler.From (handler handler' : Handler) : Prop :=
  handler'.jobId = handler.jobId ∧ handler'.eventId = handler.eventId ∧ handler'.activity = handler.activity

/-- What a step that neither records, claims, dispatches nor posts leaves of the stream. -/
structure Shrinks (s s' : State) : Prop where
  events : s'.events.Sublist s.events
  nextEventId : s'.nextEventId = s.nextEventId
  jobs : ∀ job' ∈ s'.jobs.rows, ∃ job ∈ s.jobs.rows, job.From job'
  nextJobId : s'.nextJobId = s.nextJobId
  handlers : ∀ handler' ∈ s'.handlers.rows, ∃ handler ∈ s.handlers.rows, handler.From handler'
  sent : s'.sent = s.sent

theorem Lined.shrink (h : Lined s) (hs : Shrinks s s') : Lined s' := by
  have hevents := fun event (hevent : event ∈ s'.events) => hs.events.subset hevent
  constructor
  · exact h.events_sorted.sublist hs.events
  · intro event hevent
    rw [hs.nextEventId]
    exact h.events_lt event (hevents event hevent)
  · intro job' hjob'
    obtain ⟨job, hjob, hid, -⟩ := hs.jobs job' hjob'
    rw [hs.nextJobId, hid]
    exact h.jobs_lt job hjob
  · intro job' hjob' later' hlater' hlt
    obtain ⟨job, hjob, hid, heventId, -⟩ := hs.jobs job' hjob'
    obtain ⟨later, hlater, hid', heventId', -⟩ := hs.jobs later' hlater'
    rw [hid, hid'] at hlt
    rw [heventId, heventId']
    exact h.jobs_sorted job hjob later hlater hlt
  · intro job' hjob'
    obtain ⟨job, hjob, -, heventId, -⟩ := hs.jobs job' hjob'
    rw [hs.nextEventId, heventId]
    exact h.jobs_eventId_lt job hjob
  · intro job' hjob' event hevent hwaiting
    obtain ⟨job, hjob, -, heventId, -⟩ := hs.jobs job' hjob'
    rw [heventId]
    exact h.jobs_waiting job hjob event (hevents event hevent) hwaiting
  · intro job' hjob' hlease other' hother' hlive
    obtain ⟨job, hjob, hid, -, -, hleased, -⟩ := hs.jobs job' hjob'
    obtain ⟨other, hother, hid', -, -, -, hdead⟩ := hs.jobs other' hother'
    rw [hid, hid']
    exact h.leased_first job hjob (hleased hlease) other hother (hdead hlive)
  · intro handler' hhandler'
    obtain ⟨handler, hhandler, hjobId, -⟩ := hs.handlers handler' hhandler'
    rw [hs.nextJobId, hjobId]
    exact h.handlers_lt handler hhandler
  · intro handler' hhandler' job' hjob' hid
    obtain ⟨handler, hhandler, hjobId, heventId, hactivity⟩ := hs.handlers handler' hhandler'
    obtain ⟨job, hjob, hjid, hjeventId, hjactivity, -⟩ := hs.jobs job' hjob'
    rw [hjid, hjobId] at hid
    rw [heventId, hactivity, hjeventId, hjactivity]
    exact h.handlers_job handler hhandler job hjob hid
  · rw [hs.sent]
    exact h.sent_sorted
  · rw [hs.sent, hs.nextEventId]
    exact h.sent_lt
  · rw [hs.sent]
    intro post hpost job' hjob' hlive
    obtain ⟨job, hjob, -, heventId, -, -, hdead⟩ := hs.jobs job' hjob'
    rw [heventId]
    exact h.sent_jobs post hpost job hjob (hdead hlive)
  · rw [hs.sent]
    exact fun post hpost event hevent => h.sent_waiting post hpost event (hevents event hevent)

/-! ### The steps that shrink -/

theorem handler_from_refl (handlers : Table Handler.leaseOwner) :
    ∀ handler' ∈ handlers.rows, ∃ handler ∈ handlers.rows, handler.From handler' :=
  fun handler hhandler => ⟨handler, hhandler, rfl, rfl, rfl⟩

theorem job_from_refl (jobs : Table Job.id) : ∀ job' ∈ jobs.rows, ∃ job ∈ jobs.rows, job.From job' :=
  fun job hjob => ⟨job, hjob, job.from_refl⟩

theorem shrinks_cancel (activity : Activity) (kept : List ℕ) : Shrinks s (s.cancelActivitypubDelivery activity kept) := by
  refine ⟨List.filter_sublist, rfl, ?_, rfl, handler_from_refl _, rfl⟩
  intro job' hjob'
  obtain ⟨job, hjob, hkept⟩ := List.mem_filterMap.mp hjob'
  split at hkept
  · cases hkept
  · obtain rfl := Option.some.inj hkept
    exact ⟨job, hjob, job.from_refl⟩

theorem isSome_of_isHeld {now : ℤ} {job : Job} (h : job.isHeld now = true) : job.lease.isSome = true := by
  rw [Job.isHeld, Option.any_eq_true] at h
  obtain ⟨lease, hlease, -⟩ := h
  rw [hlease]
  rfl

/-- What a worker must have to change its job. -/
theorem holds_iff {now : ℤ} {handler : Handler} {job : Job} : handler.holds now job = true ↔
    job.lease.any (fun lease => lease.owner == handler.leaseOwner) = true ∧ job.generation = handler.generation ∧
      job.dead = false ∧ job.isHeld now = true := by
  rw [Handler.holds]
  simp [and_assoc]

theorem shrinks_fence (handler : Handler) (ending : Ending) : Shrinks s (s.fence handler ending) := by
  refine ⟨List.Sublist.refl _, rfl, ?_, rfl, handler_from_refl _, rfl⟩
  intro job' hjob'
  obtain ⟨job, hjob, hfenced⟩ := List.mem_filterMap.mp hjob'
  refine ⟨job, hjob, ?_⟩
  rw [Handler.fenced] at hfenced
  split at hfenced
  · rename_i hholds
    have hlease := isSome_of_isHeld (holds_iff.mp hholds.2).2.2.2
    cases ending with
    | completed => cases hfenced
    | renewed =>
      obtain rfl := Option.some.inj hfenced
      exact ⟨rfl, rfl, rfl, fun _ => hlease, id⟩
    | retried =>
      obtain rfl := Option.some.inj hfenced
      exact ⟨rfl, rfl, rfl, fun h => (Bool.false_ne_true h).elim, id⟩
    | deadLettered =>
      obtain rfl := Option.some.inj hfenced
      exact ⟨rfl, rfl, rfl, fun h => (Bool.false_ne_true h).elim, fun h => (Bool.false_ne_true h.symm).elim⟩
  · obtain rfl := Option.some.inj hfenced
    exact job.from_refl

theorem shrinks_stop (leaseOwner : ℕ) : Shrinks s (s.stop leaseOwner) :=
  ⟨List.Sublist.refl _, rfl, job_from_refl _, rfl,
    fun handler hhandler => ⟨handler, (Table.mem_erase.mp hhandler).1, rfl, rfl, rfl⟩, rfl⟩

theorem shrinks_setPhase (leaseOwner : ℕ) (phase : Phase) : Shrinks s (s.setPhase leaseOwner phase) := by
  refine ⟨List.Sublist.refl _, rfl, job_from_refl _, rfl, ?_, rfl⟩
  intro handler' hhandler'
  obtain ⟨handler, hhandler, rfl⟩ := List.mem_map.mp hhandler'
  refine ⟨handler, hhandler, ?_⟩
  split <;> exact ⟨rfl, rfl, rfl⟩

/-! ### The steps that grow -/

theorem Lined.recordOutboxOnce (h : Lined s) (activity : Activity) : Lined (s.recordOutboxOnce activity) := by
  rw [State.recordOutboxOnce]
  split
  · exact h
  · refine ⟨?_, ?_, h.jobs_lt, h.jobs_sorted, ?_, ?_, h.leased_first, h.handlers_lt, h.handlers_job, h.sent_sorted,
      ?_, h.sent_jobs, ?_⟩
    · exact List.pairwise_append.mpr ⟨h.events_sorted, List.pairwise_singleton _ _, by
        rintro event hevent _ hnew
        obtain rfl := List.mem_singleton.mp hnew
        exact h.events_lt event hevent⟩
    · intro event hevent
      rcases List.mem_append.mp hevent with hevent | hnew
      · exact Nat.lt_succ_of_lt (h.events_lt event hevent)
      · obtain rfl := List.mem_singleton.mp hnew
        exact Nat.lt_succ_self _
    · exact fun job hjob => Nat.lt_succ_of_lt (h.jobs_eventId_lt job hjob)
    · intro job hjob event hevent hwaiting
      rcases List.mem_append.mp hevent with hevent | hnew
      · exact h.jobs_waiting job hjob event hevent hwaiting
      · obtain rfl := List.mem_singleton.mp hnew
        exact h.jobs_eventId_lt job hjob
    · exact fun post hpost => Nat.lt_succ_of_lt (h.sent_lt post hpost)
    · intro post hpost event hevent hwaiting
      rcases List.mem_append.mp hevent with hevent | hnew
      · exact h.sent_waiting post hpost event hevent hwaiting
      · obtain rfl := List.mem_singleton.mp hnew
        exact h.sent_lt post hpost

/-- The first event that waits, and the job that is made of it. -/
theorem dispatchOutbox_eq_some (h : s.dispatchOutbox = some s') :
    ∃ before event after, s.events = before ++ event :: after ∧ (∀ other ∈ before, other.dispatched = true) ∧
      event.dispatched = false ∧ s.jobs.insert ⟨s.nextJobId, event.id, event.activity, 0, none, false⟩ = some s'.jobs ∧
      s' = { s with
        events := s.events.map fun other => if other.id = event.id then { other with dispatched := true } else other
        jobs := s'.jobs
        nextJobId := s.nextJobId + 1 } := by
  rw [State.dispatchOutbox] at h
  obtain ⟨event, hfind, h⟩ := Option.bind_eq_some_iff.mp h
  split at h
  · cases h
  · obtain ⟨jobs, hinsert, h⟩ := Option.bind_eq_some_iff.mp h
    obtain rfl := Option.some.inj h
    obtain ⟨hwaiting, before, after, hevents, hbefore⟩ := List.find?_eq_some_iff_append.mp hfind
    exact ⟨before, event, after, hevents, by simpa using hbefore, by simpa using hwaiting, hinsert, rfl⟩

/-- An event that still waits after a dispatch waited before it, behind the one that was dispatched. -/
theorem Lined.waiting_of_dispatch {before after : List Event} {event other : Event} (h : Lined s)
    (hevents : s.events = before ++ event :: after) (hbefore : ∀ other ∈ before, other.dispatched = true)
    (hother : other ∈ s.events.map fun other => if other.id = event.id then { other with dispatched := true } else other)
    (hwaiting : other.dispatched = false) : other ∈ s.events ∧ event.id < other.id := by
  obtain ⟨old, hold, rfl⟩ := List.mem_map.mp hother
  by_cases hsame : old.id = event.id
  · rw [if_pos hsame] at hwaiting
    cases hwaiting
  · rw [if_neg hsame] at hwaiting ⊢
    refine ⟨hold, ?_⟩
    have hsorted := h.events_sorted
    rw [hevents] at hold hsorted
    rcases List.mem_append.mp hold with hold | hold
    · rw [hbefore old hold] at hwaiting
      cases hwaiting
    · rcases List.mem_cons.mp hold with rfl | hold
      · exact absurd rfl hsame
      · exact (List.pairwise_cons.mp (List.pairwise_append.mp hsorted).2.1).1 old hold

theorem Lined.dispatchOutbox (h : Lined s) (hstep : s.dispatchOutbox = some s') : Lined s' := by
  obtain ⟨before, event, after, hevents, hbefore, hwaiting, hinsert, heq⟩ := dispatchOutbox_eq_some hstep
  obtain ⟨hfresh, hrows⟩ := Table.get_of_insert hinsert
  have hmem : event ∈ s.events := by
    rw [hevents]
    exact List.mem_append_right _ List.mem_cons_self
  rw [heq]
  have hstill : ∀ {other}, other ∈ (s.events.map fun other =>
      if other.id = event.id then { other with dispatched := true } else other) →
      other.dispatched = false → other ∈ s.events ∧ event.id < other.id :=
    h.waiting_of_dispatch hevents hbefore
  constructor
  · refine h.events_sorted.map _ fun earlier later hlt => ?_
    split <;> split <;> exact hlt
  · intro other hother
    obtain ⟨old, hold, rfl⟩ := List.mem_map.mp hother
    have hlt := h.events_lt old hold
    simp only
    split <;> exact hlt
  · simp only [hrows, List.mem_append, List.mem_singleton]
    rintro job (hjob | rfl)
    · exact Nat.lt_succ_of_lt (h.jobs_lt job hjob)
    · exact Nat.lt_succ_self _
  · simp only [hrows, List.mem_append, List.mem_singleton]
    rintro job (hjob | rfl) later (hlater | rfl) hlt
    · exact h.jobs_sorted job hjob later hlater hlt
    · exact h.jobs_waiting job hjob event hmem hwaiting
    · exact absurd hlt (by have := h.jobs_lt later hlater; simp only; omega)
    · exact absurd hlt (lt_irrefl _)
  · simp only [hrows, List.mem_append, List.mem_singleton]
    rintro job (hjob | rfl)
    · exact h.jobs_eventId_lt job hjob
    · exact h.events_lt event hmem
  · simp only [hrows, List.mem_append, List.mem_singleton]
    rintro job (hjob | rfl) other hother hother'
    · exact h.jobs_waiting job hjob other (hstill hother hother').1 hother'
    · exact (hstill hother hother').2
  · simp only [hrows, List.mem_append, List.mem_singleton]
    rintro job (hjob | rfl) hlease other (hother | rfl) hlive
    · exact h.leased_first job hjob hlease other hother hlive
    · exact (h.jobs_lt job hjob).le
    · cases hlease
    · exact le_rfl
  · exact fun handler hhandler => Nat.lt_succ_of_lt (h.handlers_lt handler hhandler)
  · simp only [hrows, List.mem_append, List.mem_singleton]
    rintro handler hhandler job (hjob | rfl) hid
    · exact h.handlers_job handler hhandler job hjob hid
    · exact absurd hid (h.handlers_lt handler hhandler).ne'
  · exact h.sent_sorted
  · exact h.sent_lt
  · simp only [hrows, List.mem_append, List.mem_singleton]
    rintro post hpost job (hjob | rfl) hlive
    · exact h.sent_jobs post hpost job hjob hlive
    · exact (h.sent_waiting post hpost event hmem hwaiting).le
  · exact fun post hpost other hother hother' => h.sent_waiting post hpost other (hstill hother hother').1 hother'

theorem claim_eq_some {leaseOwner jobId leaseMilliseconds : ℕ} (h : s.claim leaseOwner jobId leaseMilliseconds = some s') :
    ∃ job, s.jobs.get jobId = some job ∧ s.isClaimable job = true ∧
      s.handlers.insert ⟨leaseOwner, jobId, job.eventId, job.activity, job.generation + 1, .claimed⟩ = some s'.handlers ∧
      s' = { s with
        jobs := s.jobs.modify jobId (Job.claimed ⟨leaseOwner, s.now + leaseMilliseconds⟩)
          (Job.claimed_id ⟨leaseOwner, s.now + leaseMilliseconds⟩)
        handlers := s'.handlers } := by
  obtain ⟨job, hjob, h⟩ := Option.bind_eq_some_iff.mp h
  obtain ⟨handlers, hinsert, h⟩ := Option.bind_eq_some_iff.mp h
  obtain ⟨hget, hclaimable⟩ := Option.filter_eq_some_iff.mp hjob
  obtain rfl := Option.some.inj h
  exact ⟨job, hget, hclaimable, hinsert, rfl⟩

/-- No live job of the stream is before a job that can be claimed. -/
theorem first_of_isClaimable {job : Job} (h : s.isClaimable job = true) :
    ∀ other ∈ s.jobs.rows, other.dead = false → job.id ≤ other.id := by
  intro other hother hlive
  rw [State.isClaimable, Bool.and_eq_true, List.all_eq_true] at h
  simpa [hlive] using h.2 other hother

theorem Lined.claim {leaseOwner jobId leaseMilliseconds : ℕ} (h : Lined s)
    (hstep : s.claim leaseOwner jobId leaseMilliseconds = some s') : Lined s' := by
  obtain ⟨claimed, hget, hclaimable, hinsert, heq⟩ := claim_eq_some hstep
  have hid := Table.key_of_get hget
  have hmem := Table.mem_of_get hget
  have hfirst := first_of_isClaimable hclaimable
  have hrow : ∀ job' ∈ s'.jobs.rows, ∃ job ∈ s.jobs.rows, job'.id = job.id ∧ job'.eventId = job.eventId ∧
      job'.activity = job.activity ∧ job'.dead = job.dead ∧
      (job'.lease.isSome = true → job.lease.isSome = true ∨ job.id = jobId) := by
    intro job' hjob'
    rw [heq] at hjob'
    obtain ⟨job, hjob, rfl⟩ := List.mem_map.mp hjob'
    refine ⟨job, hjob, ?_⟩
    split
    · exact ⟨rfl, rfl, rfl, rfl, fun _ => .inr ‹_›⟩
    · exact ⟨rfl, rfl, rfl, rfl, .inl⟩
  have hevents : s'.events = s.events := by rw [heq]
  have hsent : s'.sent = s.sent := by rw [heq]
  have hnextEventId : s'.nextEventId = s.nextEventId := by rw [heq]
  have hnextJobId : s'.nextJobId = s.nextJobId := by rw [heq]
  have hhandlers := (Table.get_of_insert hinsert).2
  constructor
  · rw [hevents]
    exact h.events_sorted
  · rw [hevents, hnextEventId]
    exact h.events_lt
  · intro job' hjob'
    obtain ⟨job, hjob, hjid, -⟩ := hrow job' hjob'
    rw [hnextJobId, hjid]
    exact h.jobs_lt job hjob
  · intro job' hjob' later' hlater' hlt
    obtain ⟨job, hjob, hjid, hjeventId, -⟩ := hrow job' hjob'
    obtain ⟨later, hlater, hlid, hleventId, -⟩ := hrow later' hlater'
    rw [hjid, hlid] at hlt
    rw [hjeventId, hleventId]
    exact h.jobs_sorted job hjob later hlater hlt
  · intro job' hjob'
    obtain ⟨job, hjob, -, hjeventId, -⟩ := hrow job' hjob'
    rw [hnextEventId, hjeventId]
    exact h.jobs_eventId_lt job hjob
  · rw [hevents]
    intro job' hjob' event hevent hwaiting
    obtain ⟨job, hjob, -, hjeventId, -⟩ := hrow job' hjob'
    rw [hjeventId]
    exact h.jobs_waiting job hjob event hevent hwaiting
  · intro job' hjob' hlease other' hother' hlive
    obtain ⟨job, hjob, hjid, -, -, -, hleased⟩ := hrow job' hjob'
    obtain ⟨other, hother, hoid, -, -, hdead, -⟩ := hrow other' hother'
    rw [hdead] at hlive
    rw [hjid, hoid]
    rcases hleased hlease with hleased | hclaimed
    · exact h.leased_first job hjob hleased other hother hlive
    · rw [hclaimed, ← hid]
      exact hfirst other hother hlive
  · rw [hnextJobId, hhandlers]
    intro handler hhandler
    rcases List.mem_append.mp hhandler with hhandler | hnew
    · exact h.handlers_lt handler hhandler
    · obtain rfl := List.mem_singleton.mp hnew
      rw [← hid]
      exact h.jobs_lt claimed hmem
  · rw [hhandlers]
    intro handler hhandler job' hjob' hjobId
    obtain ⟨job, hjob, hjid, hjeventId, hjactivity, -⟩ := hrow job' hjob'
    rw [hjid] at hjobId
    rw [hjeventId, hjactivity]
    rcases List.mem_append.mp hhandler with hhandler | hnew
    · exact h.handlers_job handler hhandler job hjob hjobId
    · obtain rfl := List.mem_singleton.mp hnew
      have hjget := Table.mem_iff_get.mp hjob
      rw [hjobId, hget] at hjget
      obtain rfl := Option.some.inj hjget
      exact ⟨rfl, rfl⟩
  · rw [hsent]
    exact h.sent_sorted
  · rw [hsent, hnextEventId]
    exact h.sent_lt
  · rw [hsent]
    intro post hpost job' hjob' hlive
    obtain ⟨job, hjob, -, hjeventId, -, hdead, -⟩ := hrow job' hjob'
    rw [hjeventId]
    exact h.sent_jobs post hpost job hjob (hdead ▸ hlive)
  · rw [hsent, hevents]
    exact h.sent_waiting

/-! ### Posts -/

theorem post_eq_some {leaseOwner : ℕ} (h : s.post leaseOwner = some s') :
    ∃ handler, s.handlers.get leaseOwner = some handler ∧ handler.phase = .current ∧
      s' = { s.setPhase leaseOwner .posted with
        sent := s.sent ++ [⟨handler.eventId, handler.activity⟩]
        recorded := s.recorded.process handler.activity } := by
  obtain ⟨handler, hhandler, h⟩ := Option.bind_eq_some_iff.mp h
  obtain ⟨hget, hphase⟩ := Option.filter_eq_some_iff.mp hhandler
  exact ⟨handler, hget, by simpa using hphase, (Option.some.inj h).symm⟩

/-- Whoever posts has a lease on the job that still runs. -/
def Fenced (s : State) : Action → Prop
  | .post leaseOwner => ∀ handler, s.handlers.get leaseOwner = some handler →
    ∃ job, s.jobs.get handler.jobId = some job ∧ handler.holds s.now job = true
  | _ => True

/-- Under the lease, the job is the first live one, and it is what the worker posts. -/
theorem Lined.leased {handler : Handler} {job : Job} (h : Lined s) (hhandler : handler ∈ s.handlers.rows)
    (hjob : s.jobs.get handler.jobId = some job) (hholds : handler.holds s.now job = true) :
    job ∈ s.jobs.rows ∧ job.dead = false ∧ job.eventId = handler.eventId ∧ job.activity = handler.activity ∧
      ∀ other ∈ s.jobs.rows, other.dead = false → job.eventId ≤ other.eventId := by
  obtain ⟨-, -, hlive, hheld⟩ := holds_iff.mp hholds
  have hmem := Table.mem_of_get hjob
  obtain ⟨heventId, hactivity⟩ := h.handlers_job handler hhandler job hmem (Table.key_of_get hjob)
  refine ⟨hmem, hlive, heventId, hactivity, fun other hother hother' => ?_⟩
  rcases (h.leased_first job hmem (isSome_of_isHeld hheld) other hother hother').lt_or_eq with hlt | heq
  · exact (h.jobs_sorted job hmem other hother hlt).le
  · have hget := Table.mem_iff_get.mp hother
    rw [← heq, Table.mem_iff_get.mp hmem] at hget
    rw [Option.some.inj hget]

theorem Lined.post {leaseOwner : ℕ} (h : Lined s) (hstep : s.post leaseOwner = some s')
    (hfenced : Fenced s (.post leaseOwner)) : Lined s' := by
  obtain ⟨handler, hget, -, rfl⟩ := post_eq_some hstep
  obtain ⟨job, hjob, hholds⟩ := hfenced handler hget
  obtain ⟨hmem, hlive, heventId, -, hfirst⟩ := h.leased (Table.mem_of_get hget) hjob hholds
  have hphase := h.shrink (shrinks_setPhase leaseOwner .posted)
  refine { hphase with sent_sorted := ?_, sent_lt := ?_, sent_jobs := ?_, sent_waiting := ?_ }
  · refine List.pairwise_append.mpr ⟨h.sent_sorted, List.pairwise_singleton _ _, ?_⟩
    intro post hpost _ hnew
    obtain rfl := List.mem_singleton.mp hnew
    rw [← heventId]
    exact h.sent_jobs post hpost job hmem hlive
  · intro post hpost
    rcases List.mem_append.mp hpost with hpost | hnew
    · exact h.sent_lt post hpost
    · obtain rfl := List.mem_singleton.mp hnew
      rw [← heventId]
      exact h.jobs_eventId_lt job hmem
  · intro post hpost other hother hother'
    rcases List.mem_append.mp hpost with hpost | hnew
    · exact h.sent_jobs post hpost other hother hother'
    · obtain rfl := List.mem_singleton.mp hnew
      rw [← heventId]
      exact hfirst other hother hother'
  · intro post hpost event hevent hwaiting
    rcases List.mem_append.mp hpost with hpost | hnew
    · exact h.sent_waiting post hpost event hevent hwaiting
    · obtain rfl := List.mem_singleton.mp hnew
      rw [← heventId]
      exact h.jobs_waiting job hmem event hevent hwaiting

end Rustodon.Outgoing
