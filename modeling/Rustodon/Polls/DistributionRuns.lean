import Rustodon.Polls.Distribution
import Rustodon.Queue.Frames

/-! @src mastodon/write_repository.rs, jobs.rs | name:Votes between the steps of the queue |
    scheme:row locks | family:polls

    What holds while a vote is under way: the events of the poll that are pending and not marked are
    its own, the committed one that it has found stays, and so does the job that waits. -/

namespace Rustodon.Polls
open Queue Schemes.Runs

variable {env : Env} {pollId : ℤ} {σ σ' : System} {s s' : State} {op : Op} {response : Response}
  {ops : List UpdateOp} {v : Voting}

/-! ### Steps -/

/-- What a step of the system does. -/
inductive Change (env : Env) (pollId : ℤ) (σ : System) : UpdateOp → System → Prop where
  | queue {op : Op} {response : Response} {queue : State} (hpermits : σ.permits pollId op = true)
    (hstep : Step env σ.queue (op, response) queue) :
    Change env pollId σ (.queue op) { σ.account pollId op response with queue := queue }
  | begun {t : TxnId} (hvoting : σ.voting = none) (hidle : σ.queue.stages t = .idle)
    (hevents : ∀ row ∈ σ.queue.pendingEvents, row.1 ≠ t)
    (hjobs : ∀ row ∈ σ.queue.pendingJobs, row.1 ≠ t) :
    Change env pollId σ (.beginVote t) { σ with voting := some ⟨t, .voted, none, []⟩ }
  | found {t : TxnId} {lock : Option ℕ} {jobLocks : List ℕ} {event : Event}
    (hvoting : σ.voting = some ⟨t, .voted, lock, jobLocks⟩) (hevent : event ∈ σ.queue.events)
    (hpending : isPendingUpdate pollId event = true)
    (hlock : ∀ holder, σ.queue.eventLocks event.id = some holder → holder = t) :
    Change env pollId σ .selectOutbox { σ with voting := some ⟨t, .served, some event.id, jobLocks⟩ }
  | clear {t : TxnId} {lock : Option ℕ} {jobLocks : List ℕ}
    (hvoting : σ.voting = some ⟨t, .voted, lock, jobLocks⟩)
    (hclear : ∀ event ∈ σ.queue.events, isPendingUpdate pollId event = false) :
    Change env pollId σ .selectOutbox { σ with voting := some ⟨t, .outboxRead, none, jobLocks⟩ }
  | waiting {t : TxnId} {lock : Option ℕ} {jobLocks jobLocks' : List ℕ} {job : Job}
    (hvoting : σ.voting = some ⟨t, .outboxRead, lock, jobLocks⟩) (hjob : job ∈ σ.queue.jobs)
    (hactive : isActiveUpdate pollId job = true) (hheld : job.held σ.queue.now = false)
    (hlocks : job.id ∈ jobLocks') :
    Change env pollId σ .selectJobs { σ with voting := some ⟨t, .served, lock, jobLocks'⟩ }
  | leased {t : TxnId} {lock : Option ℕ} {jobLocks jobLocks' : List ℕ} {logicalKey : String}
    (hvoting : σ.voting = some ⟨t, .outboxRead, lock, jobLocks⟩)
    (hheld : ∀ job ∈ σ.queue.jobs, isActiveUpdate pollId job = true → job.held σ.queue.now = true)
    (hkey : isUpdate pollId activitypubStatusDistributionJobKind (some logicalKey) = true) :
    Change env pollId σ .selectJobs
      { σ with voting := some ⟨t, .recording logicalKey, lock, jobLocks'⟩ }
  | record {t : TxnId} {lock : Option ℕ} {jobLocks : List ℕ} {logicalKey : String}
    {version : UpdateVersion} {queue : State} {id : ℕ}
    (hvoting : σ.voting = some ⟨t, .recording logicalKey, lock, jobLocks⟩)
    (hstep : Step env σ.queue (.recordOutbox t (updateJob version logicalKey), .id id) queue) :
    Change env pollId σ (.record version)
      { σ with queue := queue, voting := some ⟨t, .recorded, lock, jobLocks⟩ }
  | committed {v : Voting} {response : Response} {queue : State} (hvoting : σ.voting = some v)
    (hreturned : v.stage.returned = true)
    (hstep : Step env σ.queue (.commit v.txn, response) queue) :
    Change env pollId σ .commitVote
      { σ with queue := queue, voting := none, tally := σ.tally + 1 }
  | rolledBack {v : Voting} {response : Response} {queue : State} (hvoting : σ.voting = some v)
    (hstep : Step env σ.queue (.rollback v.txn, response) queue) :
    Change env pollId σ .rollbackVote { σ with queue := queue, voting := none }
  | readTally {job : Job} {id generation : ℕ} (hjob : job ∈ σ.queue.jobs) (hid : job.id = id)
    (hgeneration : job.generation = generation) (hread : σ.reads id generation = none) :
    Change env pollId σ (.readTally id generation) { σ with
      reads := fun id' generation' =>
        if id' = id ∧ generation' = generation then some σ.tally else σ.reads id' generation' }

theorem mem_pendingUpdates {event : Event} : event ∈ pendingUpdates pollId s ↔
    event ∈ s.events ∧ isPendingUpdate pollId event = true := by
  rw [pendingUpdates, List.mem_insertionSort, List.mem_filter]

theorem mem_activeUpdates {job : Job} : job ∈ activeUpdates pollId s ↔
    job ∈ s.jobs ∧ isActiveUpdate pollId job = true := by
  rw [activeUpdates, List.mem_insertionSort, List.mem_filter]

/-- The keys under which votes record jobs are those that they look for. -/
theorem isUpdate_updateLogicalKey (pollId : ℤ) (active : List Job) :
    isUpdate pollId activitypubStatusDistributionJobKind (some (updateLogicalKey pollId active)) =
      true := by
  rw [isUpdate, updateLogicalKey]
  split
  · simp
  · simp [afterLogicalKey, String.toList_append]

theorem selectOutbox_change (h : σ.selectOutbox pollId = some σ') :
    Change env pollId σ .selectOutbox σ' := by
  rw [System.selectOutbox] at h
  split at h
  · next t lock jobLocks hvoting =>
    cases hhead : (pendingUpdates pollId σ.queue).head? with
    | some event =>
      rw [hhead] at h
      obtain ⟨hevent, hpending⟩ :=
        mem_pendingUpdates.mp (List.mem_of_mem_head? (Option.mem_def.mpr hhead))
      simp only at h
      split_ifs at h with hlock
      obtain rfl := Option.some.inj h
      refine .found hvoting hevent hpending fun holder hholder => ?_
      rw [hholder] at hlock
      simpa using hlock
    | none =>
      rw [hhead] at h
      obtain rfl := Option.some.inj h
      refine .clear hvoting fun event hevent => ?_
      by_contra hpending
      have hmem := mem_pendingUpdates.mpr ⟨hevent, Bool.of_not_eq_false hpending⟩
      rw [List.head?_eq_none_iff.mp hhead] at hmem
      cases hmem
  · cases h

theorem selectJobs_change (h : σ.selectJobs pollId = some σ') :
    Change env pollId σ .selectJobs σ' := by
  rw [System.selectJobs] at h
  split at h
  · next t lock jobLocks hvoting =>
    obtain rfl := Option.some.inj h
    by_cases hany : ((activeUpdates pollId σ.queue).any fun job => !job.held σ.queue.now) = true
    · obtain ⟨job, hjob, hheld⟩ := List.any_eq_true.mp hany
      obtain ⟨hmem, hactive⟩ := mem_activeUpdates.mp hjob
      simp only [if_pos hany]
      exact .waiting hvoting hmem hactive (by simpa using hheld) (List.mem_map_of_mem hjob)
    · simp only [if_neg hany]
      refine .leased hvoting (fun job hjob hactive => ?_) (isUpdate_updateLogicalKey pollId _)
      by_contra hheld
      exact hany (List.any_eq_true.mpr ⟨job, mem_activeUpdates.mpr ⟨hjob, hactive⟩, by
        simpa using hheld⟩)
  · cases h

theorem record_change {version : UpdateVersion} (h : σ.record env version = some σ') :
    Change env pollId σ (.record version) σ' := by
  rw [System.record] at h
  split at h
  · next t logicalKey lock jobLocks hvoting =>
    split at h
    · next queue id hstep =>
      obtain rfl := Option.some.inj h
      exact .record hvoting hstep
    · cases h
  · cases h

theorem commitVote_change (h : σ.commitVote env = some σ') :
    Change env pollId σ .commitVote σ' := by
  obtain ⟨v, hvoting, h⟩ := Option.bind_eq_some_iff.mp h
  split_ifs at h with hreturned
  obtain ⟨⟨queue, response⟩, hstep, h⟩ := Option.bind_eq_some_iff.mp h
  obtain rfl := Option.some.inj h
  exact .committed hvoting hreturned hstep

theorem rollbackVote_change (h : σ.rollbackVote env = some σ') :
    Change env pollId σ .rollbackVote σ' := by
  obtain ⟨v, hvoting, h⟩ := Option.bind_eq_some_iff.mp h
  obtain ⟨⟨queue, response⟩, hstep, h⟩ := Option.bind_eq_some_iff.mp h
  obtain rfl := Option.some.inj h
  exact .rolledBack hvoting hstep

theorem step_change {op : UpdateOp} (h : UpdateStep env pollId σ op σ') :
    Change env pollId σ op σ' := by
  cases op with
  | queue op =>
    simp only [UpdateStep, System.step, System.stepQueue] at h
    split_ifs at h with hpermits
    obtain ⟨⟨queue, response⟩, hstep, rfl⟩ := Option.map_eq_some_iff.mp h
    exact .queue hpermits hstep
  | beginVote t =>
    simp only [UpdateStep, System.step, System.beginVote] at h
    split at h
    · next hvoting hidle =>
      split_ifs at h with hpending
      obtain rfl := Option.some.inj h
      simp only [Bool.or_eq_true, List.any_eq_true, beq_iff_eq, not_or, not_exists, not_and]
        at hpending
      exact .begun hvoting hidle hpending.1 hpending.2
    · cases h
  | selectOutbox => exact selectOutbox_change h
  | selectJobs => exact selectJobs_change h
  | record version => exact record_change h
  | commitVote => exact commitVote_change h
  | rollbackVote => exact rollbackVote_change h
  | readTally id generation =>
    simp only [UpdateStep, System.step, System.readTally] at h
    split_ifs at h with hread
    obtain rfl := Option.some.inj h
    obtain ⟨job, hjob, hfound⟩ := List.any_eq_true.mp hread.1
    rw [Bool.and_eq_true, decide_eq_true_eq, decide_eq_true_eq] at hfound
    exact .readTally hjob hfound.1 hfound.2 hread.2

/-- The end of a run changes the account of the votes only. -/
theorem account_frame (σ : System) (pollId : ℤ) (op : Op) (response : Response) :
    (σ.account pollId op response).queue = σ.queue ∧
    (σ.account pollId op response).voting = σ.voting ∧
    (σ.account pollId op response).tally = σ.tally ∧
    (σ.account pollId op response).reads = σ.reads := by
  unfold System.account
  split
  · split_ifs <;> exact ⟨rfl, rfl, rfl, rfl⟩
  · split_ifs <;> exact ⟨rfl, rfl, rfl, rfl⟩
  · split_ifs <;> exact ⟨rfl, rfl, rfl, rfl⟩
  · exact ⟨rfl, rfl, rfl, rfl⟩

theorem permits_throughOutbox (h : σ.permits pollId op = true) : ThroughOutbox op := by
  cases op <;> trivial

/-- The queue takes a step, or none. -/
theorem Change.queue_step {op : UpdateOp} (h : Change env pollId σ op σ') :
    σ'.queue = σ.queue ∨ ∃ label, OutboxStep env σ.queue label σ'.queue := by
  cases h with
  | queue hpermits hstep => exact .inr ⟨_, permits_throughOutbox hpermits, hstep⟩
  | record _ hstep =>
    refine .inr ⟨_, ?_, hstep⟩
    trivial
  | committed _ _ hstep =>
    refine .inr ⟨_, ?_, hstep⟩
    trivial
  | rolledBack _ hstep =>
    refine .inr ⟨_, ?_, hstep⟩
    trivial
  | _ => exact .inl rfl

/-- A run of the system is one of the queue. -/
theorem queue_run {now : ℤ} (h : Run (UpdateStep env pollId) (.initial now) ops σ) :
    ∃ labels, Run (OutboxStep env) (Queue.initial now) labels σ.queue := by
  refine h.preserves (P := fun σ => ∃ labels, Run (OutboxStep env) (Queue.initial now) labels σ.queue)
    ?_ ⟨[], .nil⟩
  rintro σ op σ' ⟨labels, run⟩ hstep
  rcases (step_change hstep).queue_step with heq | ⟨label, hlabel⟩
  · exact ⟨labels, heq ▸ run⟩
  · exact ⟨labels ++ [label], .snoc run hlabel⟩

/-! ### Votes under way -/

/-- What a vote relies on that has nothing to record: the event that it has found, or a job that
    waits and that it has locked. -/
def Serving (pollId : ℤ) (s : State) (v : Voting) : Prop :=
  (∃ event ∈ s.events, v.eventLock = some event.id ∧ isPendingUpdate pollId event = true ∧
    ∀ holder, s.eventLocks event.id = some holder → holder = v.txn) ∨
  ∃ job ∈ s.jobs, job.id ∈ v.jobLocks ∧ isActiveUpdate pollId job = true ∧
    job.held s.now = false

/-- What holds of a vote under way. -/
structure Voting.Consistent (pollId : ℤ) (s : State) (v : Voting) : Prop where
  /-- Its transaction is in no function of the queue and inserts no jobs, -/
  idle : s.stages v.txn = .idle
  jobless : ∀ job, (v.txn, job) ∉ s.pendingJobs
  /-- and dispatches nothing. -/
  unmarked : ∀ event, (v.txn, event) ∈ s.pendingEvents → event.dispatchedAt = none
  unlocked : v.stage ≠ .served → v.eventLock = none
  /-- When it has found no event there is none. -/
  clear : v.stage ≠ .voted → v.eventLock = none →
    ∀ event ∈ s.events, isPendingUpdate pollId event = false
  key : ∀ logicalKey, v.stage = .recording logicalKey →
    isUpdate pollId activitypubStatusDistributionJobKind (some logicalKey) = true
  recorded : v.stage = .recorded →
    ∃ event, (v.txn, event) ∈ s.pendingEvents ∧ isPendingUpdate pollId event = true
  served : v.stage = .served → Serving pollId s v

/-- What holds of the events of the poll. -/
structure Orderly (pollId : ℤ) (σ : System) : Prop where
  voting : ∀ v, σ.voting = some v → v.Consistent pollId σ.queue
  /-- Those that are pending belong to the vote that has recorded them. -/
  own : ∀ row ∈ σ.queue.pendingEvents, isPendingUpdate pollId row.2 = true →
    ∃ v, σ.voting = some v ∧ v.txn = row.1 ∧ v.stage = .recorded
  onePending : ∀ a ∈ σ.queue.pendingEvents, ∀ b ∈ σ.queue.pendingEvents,
    isPendingUpdate pollId a.2 = true → isPendingUpdate pollId b.2 = true → a = b
  one : ∀ a ∈ σ.queue.events, ∀ b ∈ σ.queue.events,
    isPendingUpdate pollId a = true → isPendingUpdate pollId b = true → a = b

theorem isPendingUpdate_iff {event : Event} : isPendingUpdate pollId event = true ↔
    isUpdate pollId event.kind event.logicalKey = true ∧ event.dispatchedAt = none := by
  rw [isPendingUpdate, Bool.and_eq_true, Option.isNone_iff_eq_none]

theorem isActiveUpdate_iff {job : Job} : isActiveUpdate pollId job = true ↔
    isUpdate pollId job.kind job.logicalKey = true ∧ job.live = true := by
  rw [isActiveUpdate, Bool.and_eq_true]

/-- What is recorded under a key of others is no update of the poll. -/
theorem not_pending_of_sameKey {spec : JobSpec} {event : Event}
    (hforeign : isUpdate pollId spec.kind spec.logicalKey = false)
    (hkey : sameKey spec event = true) : isPendingUpdate pollId event = false := by
  obtain ⟨hkind, hlogicalKey⟩ := sameKey_event hkey
  rw [isPendingUpdate, hkind, hlogicalKey, hforeign, Bool.false_and]

/-- Other processes record nothing for the poll, -/
theorem permits_records {t : TxnId} {spec : JobSpec} (h : σ.permits pollId op = true)
    (hop : op = .recordOutbox t spec ∨ op = .recordOutboxOnce t spec) :
    isUpdate pollId spec.kind spec.logicalKey = false := by
  rcases hop with rfl | rfl
  · simpa [System.permits] using h
  · simpa [System.permits] using h

/-- and leave the transaction of a vote alone. -/
theorem permits_enters (h : σ.permits pollId op = true) (hvoting : σ.voting = some v) :
    op.enters ≠ some v.txn := by
  intro henters
  have hvotes : σ.votes v.txn = true := by rw [System.votes, hvoting]; exact beq_self_eq_true v.txn
  cases op with
  | enqueue => cases h
  | enqueueOrdered => cases h
  | dispatchOutbox t =>
    obtain rfl := Option.some.inj henters
    simp [System.permits, hvotes] at h
  | next t =>
    obtain rfl := Option.some.inj henters
    simp [System.permits, hvotes] at h
  | commit t =>
    obtain rfl := Option.some.inj henters
    simp [System.permits, hvotes] at h
  | rollback t =>
    obtain rfl := Option.some.inj henters
    simp [System.permits, hvotes] at h
  | _ => cases henters

/-- The transaction of a vote marks no event. -/
theorem unmarked_step (hstep : Step env s (op, response) s') (hidle : s.stages v.txn = .idle)
    (h : ∀ event, (v.txn, event) ∈ s.pendingEvents → event.dispatchedAt = none) : ∀ event,
      (v.txn, event) ∈ s'.pendingEvents → event.dispatchedAt = none := by
  intro event hrow
  cases step_outbox hstep with
  | frame _ heq => exact h event (heq ▸ hrow)
  | recorded hop hrecords =>
    cases hrecords with
    | again hother hkey =>
      obtain ⟨old, hold, heq⟩ := List.mem_map.mp hrow
      split at heq
      · obtain rfl := (Prod.mk.inj heq).2
        rfl
      · exact h event (heq ▸ hold)
    | onto =>
      rcases List.mem_append.mp hrow with hrow | hrow
      · exact h event hrow
      · obtain rfl := (Prod.mk.inj (List.mem_singleton.mp hrow)).2
        rfl
    | fresh =>
      rcases List.mem_append.mp hrow with hrow | hrow
      · exact h event hrow
      · obtain rfl := (Prod.mk.inj (List.mem_singleton.mp hrow)).2
        rfl
  | cancelled _ _ _ heq => exact h event (heq ▸ hrow)
  | dispatching _ _ _ _ heq => exact h event (heq ▸ hrow)
  | advanced t hadvance =>
    rcases hadvance.rows with ⟨heq, -⟩ | ⟨first, rest, hrows, -, heq⟩
    · exact h event (heq ▸ hrow)
    · rw [heq, List.mem_append, List.mem_singleton] at hrow
      rcases hrow with hrow | hrow
      · exact h event hrow
      · obtain ⟨rfl, -⟩ := Prod.mk.inj hrow
        rw [hidle] at hrows
        cases hrows
  | committed t => exact h event (mem_others.mp hrow).1
  | released t => exact h event (mem_others.mp hrow).1

section Queue

variable (hpermits : σ.permits pollId op = true) (htable : EventTable env σ.queue)
  (hstep : Step env σ.queue (op, response) s')
include hpermits htable hstep

/-- No update of the poll becomes pending beside the votes. -/
theorem pending_before {row : TxnId × Event} (hrow : row ∈ s'.pendingEvents)
    (hpending : isPendingUpdate pollId row.2 = true) : row ∈ σ.queue.pendingEvents := by
  rcases step_pendingEvents hstep with ⟨t, spec, hop, hrecords⟩ | hbefore
  · have hforeign := permits_records hpermits hop
    have hnew : ∀ event : Event, sameKey spec event = true →
        isPendingUpdate pollId (event.rewritten env spec) = false := by
      intro event hkey
      have hkey : sameKey spec (event.rewritten env spec) = true := hkey
      exact not_pending_of_sameKey hforeign hkey
    cases hrecords with
    | @again event hevent hkey =>
      obtain ⟨old, hold, rfl⟩ := List.mem_map.mp hrow
      split at hpending
      · next hsame =>
        obtain rfl := htable.pending_eq_of_id hold hevent hsame.2
        rw [hnew _ hkey] at hpending
        cases hpending
      · next hother => rwa [if_neg hother]
    | onto hevent hkey =>
      rcases List.mem_append.mp hrow with hrow | hrow
      · exact hrow
      · obtain rfl := List.mem_singleton.mp hrow
        rw [hnew _ hkey] at hpending
        cases hpending
    | fresh =>
      rcases List.mem_append.mp hrow with hrow | hrow
      · exact hrow
      · obtain rfl := List.mem_singleton.mp hrow
        rw [isPendingUpdate, Event.new, hforeign, Bool.false_and] at hpending
        cases hpending
  · refine (hbefore row hrow).resolve_right fun hmarked => hmarked ?_
    exact (isPendingUpdate_iff.mp hpending).2

/-- The update that a vote has recorded stays pending. -/
theorem pending_kept {t : TxnId} {event : Event} (ht : op.enters ≠ some t)
    (hrow : (t, event) ∈ σ.queue.pendingEvents) (hpending : isPendingUpdate pollId event = true) :
    (t, event) ∈ s'.pendingEvents := by
  cases step_outbox hstep with
  | frame _ heq => exact heq ▸ hrow
  | recorded hop hrecords =>
    have hforeign := permits_records hpermits hop
    cases hrecords with
    | @again other hother hkey =>
      refine List.mem_map.mpr ⟨(t, event), hrow, if_neg fun hsame => ?_⟩
      obtain heq := htable.pending_eq_of_id hrow hother hsame.2
      rw [(Prod.mk.inj heq).2, not_pending_of_sameKey hforeign hkey] at hpending
      cases hpending
    | onto => exact List.mem_append_left _ hrow
    | fresh => exact List.mem_append_left _ hrow
  | cancelled _ _ _ heq => exact heq ▸ hrow
  | dispatching _ _ _ _ heq => exact heq ▸ hrow
  | advanced t' hadvance =>
    rcases hadvance.rows with ⟨heq, -⟩ | ⟨_, _, -, -, heq⟩
    · exact heq ▸ hrow
    · exact heq ▸ List.mem_append_left _ hrow
  | committed t' => exact mem_others.mpr ⟨hrow, fun heq => ht (congrArg some heq.symm)⟩
  | released t' henters => exact mem_others.mpr ⟨hrow, fun heq => ht (henters.trans (congrArg some heq.symm))⟩

/-- The event that a vote has found stays as it is. -/
theorem found_step (hvoting : σ.voting = some v) {event : Event} (hevent : event ∈ σ.queue.events)
    (hlock : v.eventLock = some event.id) (hpending : isPendingUpdate pollId event = true)
    (hfree : ∀ holder, σ.queue.eventLocks event.id = some holder → holder = v.txn) :
    event ∈ s'.events ∧ ∀ holder, s'.eventLocks event.id = some holder → holder = v.txn := by
  obtain ⟨hupdate, hnone⟩ := isPendingUpdate_iff.mp hpending
  constructor
  · rcases step_keeps_event hstep hevent with hkept | ⟨kind, logicalKey, rfl, rfl, hkey⟩ |
      ⟨t, version, rfl, hversion, hid⟩
    · exact hkept
    · rw [hkey] at hupdate
      simp [System.permits, hupdate] at hpermits
    · have hheld := (htable.version _ hversion event hevent hid.symm).1
      have henters := permits_enters hpermits hvoting
      exact absurd (congrArg some (hfree t hheld)) henters
  · intro holder hholder
    rcases step_eventLocks htable hstep hevent hholder with hold | ⟨spec, hop, hkey⟩ |
      ⟨limit, skipped, rfl, hskipped⟩
    · exact hfree holder hold
    · rw [not_pending_of_sameKey (permits_records hpermits hop) hkey] at hpending
      cases hpending
    · have hlocked : σ.eventLock = some event.id := by rw [System.eventLock, hvoting]; exact hlock
      simp [System.permits, hlocked, hskipped] at hpermits

end Queue

/-- Time does not go back, and stands still for the statements on jobs. -/
theorem step_now (h : Step env s (op, response) s') : s.now ≤ s'.now ∧
    ∀ statement, Queue.statement env s op = some statement → s'.now = s.now := by
  rcases step_cases h with ⟨statement, -, -, rfl⟩ | ⟨hnone, htransact⟩
  · exact ⟨Int.le_refl _, fun _ _ => rfl⟩
  refine ⟨?_, fun statement hsome => by rw [hnone] at hsome; cases hsome⟩
  rcases transact_within htransact with ⟨elapsed, -, rfl⟩ | ⟨-, heventsOnly, -⟩ | ⟨t, -, hwithin⟩ |
    ⟨t, -, rfl⟩
  · exact Int.le_add_of_nonneg_right (Int.natCast_nonneg elapsed)
  · exact heventsOnly.now ▸ Int.le_refl _
  · exact hwithin.now ▸ Int.le_refl _
  · exact Int.le_refl _

/-- A lease that has run out has run out later. -/
theorem held_of_later {job : Job} {now now' : ℤ} (hnow : now ≤ now') (h : job.held now' = true) :
    job.held now = true := by
  rw [Job.held] at h ⊢
  cases hexpires : job.leaseExpiresAt with
  | none => rw [hexpires] at h; cases h
  | some expiresAt =>
    rw [hexpires] at h
    simp only [Option.any_some, decide_eq_true_eq] at h ⊢
    omega

/-- A committed job after a step, unless its row is deleted. -/
theorem jobs_after (h : Step env s (op, response) s') {job : Job} (hjob : job ∈ s.jobs) :
    ∃ job?, Effect env s op job job? ∧ ∀ job', job? = some job' → job' ∈ s'.jobs := by
  rcases step_jobs h with ⟨effect, heffect, hjobs⟩ | ⟨t, -, rfl⟩
  · exact ⟨effect job, heffect job, fun job' heq => hjobs ▸ List.mem_filterMap.mpr ⟨job, hjob, heq⟩⟩
  · refine ⟨some job, .unchanged, fun job' heq => ?_⟩
    rw [← Option.some.inj heq]
    exact List.mem_append_left _ hjob

theorem held_of_fences {token : Token} {now : ℤ} {job : Job} (h : token.fences now job = true) :
    job.held now = true := (fences_iff.mp h).2.2.2.2

/-- The job that a vote has found waiting, and locked, stays as it is. -/
theorem waiting_step (hpermits : σ.permits pollId op = true)
    (hstep : Step env σ.queue (op, response) s') (hvoting : σ.voting = some v) {job : Job}
    (hjob : job ∈ σ.queue.jobs) (hlocks : job.id ∈ v.jobLocks)
    (hactive : isActiveUpdate pollId job = true) (hheld : job.held σ.queue.now = false) :
    job ∈ s'.jobs ∧ job.held s'.now = false := by
  have hlater : job.held s'.now = false := by
    by_contra hheld'
    rw [held_of_later (step_now hstep).1 (Bool.of_not_eq_false hheld')] at hheld
    cases hheld
  obtain ⟨job?, heffect, hafter⟩ := jobs_after hstep hjob
  cases heffect with
  | unchanged => exact ⟨hafter job rfl, hlater⟩
  | @claimed leaseOwner lanes leaseMilliseconds skipped found hop hlease hfound hid =>
    subst hop
    have hskipped := candidate_not_skipped hfound
    have hall : v.jobLocks.all skipped.contains = true := by
      simpa [System.permits, System.jobLocks, hvoting] using hpermits
    have hmem := List.all_eq_true.mp hall job.id hlocks
    rw [hid] at hmem
    exact absurd (List.contains_iff_mem.mp hmem) hskipped
  | fenced _ hfences =>
    rw [held_of_fences hfences] at hheld
    cases hheld
  | cancelled hop hcancel =>
    subst hop
    obtain ⟨hupdate, -⟩ := isActiveUpdate_iff.mp hactive
    simp only [cancellable, Bool.and_eq_true, decide_eq_true_eq] at hcancel
    rw [hcancel.1.1.1, hcancel.1.1.2] at hupdate
    simp [System.permits, hupdate] at hpermits

/-! ### The events of the poll are consistent -/

theorem Voting.Consistent.queue (h : v.Consistent pollId σ.queue) (hc : Orderly pollId σ)
    (hvoting : σ.voting = some v) (hpermits : σ.permits pollId op = true)
    (htable : EventTable env σ.queue) (hstep : Step env σ.queue (op, response) s') :
    v.Consistent pollId s' where
  idle := (step_others hstep (permits_enters hpermits hvoting)).1.trans h.idle
  jobless job hjob :=
    h.jobless job ((step_others hstep (permits_enters hpermits hvoting)).2 job hjob)
  unmarked := unmarked_step hstep h.idle h.unmarked
  unlocked := h.unlocked
  clear hstage hlock event hevent := by
    rcases step_events_from hstep hevent with hold | ⟨t, rfl, hrow⟩
    · exact h.clear hstage hlock event hold
    · by_contra hpending
      obtain ⟨v', hvoting', htxn, -⟩ := hc.own _ hrow (Bool.of_not_eq_false hpending)
      obtain rfl := Option.some.inj (hvoting.symm.trans hvoting')
      exact permits_enters hpermits hvoting (congrArg some htxn.symm)
  key := h.key
  recorded hstage := by
    obtain ⟨event, hrow, hpending⟩ := h.recorded hstage
    exact ⟨event, pending_kept hpermits htable hstep (permits_enters hpermits hvoting) hrow hpending,
      hpending⟩
  served hstage := by
    rcases h.served hstage with ⟨event, hevent, hlock, hpending, hfree⟩ |
      ⟨job, hjob, hlocks, hactive, hheld⟩
    · obtain ⟨hkept, hfree'⟩ := found_step hpermits htable hstep hvoting hevent hlock hpending hfree
      exact .inl ⟨event, hkept, hlock, hpending, hfree'⟩
    · obtain ⟨hkept, hheld'⟩ := waiting_step hpermits hstep hvoting hjob hlocks hactive hheld
      exact .inr ⟨job, hkept, hlocks, hactive, hheld'⟩

/-- The steps of others bring no update of the poll to the outbox. -/
theorem events_before (hc : Orderly pollId σ) (hpermits : σ.permits pollId op = true)
    (hstep : Step env σ.queue (op, response) s') {event : Event} (hevent : event ∈ s'.events)
    (hpending : isPendingUpdate pollId event = true) : event ∈ σ.queue.events := by
  rcases step_events_from hstep hevent with hold | ⟨t, rfl, hrow⟩
  · exact hold
  · obtain ⟨v, hvoting, htxn, -⟩ := hc.own _ hrow hpending
    exact absurd (congrArg some htxn.symm) (permits_enters hpermits hvoting)

theorem Orderly.queue (hc : Orderly pollId σ) (hpermits : σ.permits pollId op = true)
    (htable : EventTable env σ.queue) (hstep : Step env σ.queue (op, response) s') :
    Orderly pollId { σ.account pollId op response with queue := s' } where
  voting v hvoting := by
    have hvoting : σ.voting = some v := (account_frame σ pollId op response).2.1.symm.trans hvoting
    exact (hc.voting v hvoting).queue hc hvoting hpermits htable hstep
  own row hrow hpending := by
    obtain ⟨v, hvoting, hrest⟩ :=
      hc.own row (pending_before hpermits htable hstep hrow hpending) hpending
    exact ⟨v, (account_frame σ pollId op response).2.1.trans hvoting, hrest⟩
  onePending a ha b hb hpending hpending' :=
    hc.onePending a (pending_before hpermits htable hstep ha hpending) b
      (pending_before hpermits htable hstep hb hpending') hpending hpending'
  one a ha b hb hpending hpending' :=
    hc.one a (events_before hc hpermits hstep ha hpending) b
      (events_before hc hpermits hstep hb hpending') hpending hpending'

/-- What a vote appends to the pending events when it records its update. -/
theorem record_appends (hv : v.Consistent pollId σ.queue) (hc : Orderly pollId σ)
    (hvoting : σ.voting = some v) {logicalKey : String} (hstage : v.stage = .recording logicalKey)
    {version : UpdateVersion} {id : ℕ}
    (hstep : Step env σ.queue (.recordOutbox v.txn (updateJob version logicalKey), .id id) s') :
    ∃ event, s'.pendingEvents = σ.queue.pendingEvents ++ [(v.txn, event)] ∧
      isPendingUpdate pollId event = true := by
  have hupdate : isUpdate pollId (updateJob version logicalKey).kind
      (updateJob version logicalKey).logicalKey = true := hv.key logicalKey hstage
  rcases step_cases hstep with ⟨statement, hstatement, -⟩ | ⟨-, htransact⟩
  · cases hstatement
  rcases recordOutbox_cases (whenIdle_eq_some htransact).2 with ⟨-, error, hfailed⟩ | ⟨-, -, hrecords⟩
  · cases hfailed
  cases hrecords with
  | @again event hevent hkey =>
    -- The vote has recorded nothing for the poll yet.
    obtain ⟨hkind, hlogicalKey⟩ := sameKey_event hkey
    have hpending : isPendingUpdate pollId event = true :=
      isPendingUpdate_iff.mpr ⟨hkind ▸ hlogicalKey ▸ hupdate, hv.unmarked event hevent⟩
    obtain ⟨v', hvoting', -, hrecorded⟩ := hc.own _ hevent hpending
    obtain rfl := Option.some.inj (hvoting.symm.trans hvoting')
    rw [hstage] at hrecorded
    cases hrecorded
  | @onto event hevent hkey =>
    obtain ⟨hkind, hlogicalKey⟩ := sameKey_event hkey
    exact ⟨_, rfl, isPendingUpdate_iff.mpr ⟨hkind ▸ hlogicalKey ▸ hupdate, rfl⟩⟩
  | fresh => exact ⟨_, rfl, isPendingUpdate_iff.mpr ⟨hupdate, rfl⟩⟩

theorem not_recorded_of_stage (hc : Orderly pollId σ) (hvoting : σ.voting = some v)
    (hstage : v.stage ≠ .recorded) :
    ∀ row ∈ σ.queue.pendingEvents, isPendingUpdate pollId row.2 = false := by
  intro row hrow
  by_contra hpending
  obtain ⟨v', hvoting', -, hrecorded⟩ := hc.own row hrow (Bool.of_not_eq_false hpending)
  obtain rfl := Option.some.inj (hvoting.symm.trans hvoting')
  exact hstage hrecorded

/-- A vote goes on to a stage in which it has recorded nothing. -/
theorem Orderly.advance (hc : Orderly pollId σ) (hvoting : σ.voting = some v) {v' : Voting}
    (hstage : v.stage ≠ .recorded) (htxn : v'.txn = v.txn) (hstage' : v'.stage ≠ .recorded)
    (hunlocked : v'.stage ≠ .served → v'.eventLock = none)
    (hclear : v'.stage ≠ .voted → v'.eventLock = none →
      ∀ event ∈ σ.queue.events, isPendingUpdate pollId event = false)
    (hkey : ∀ logicalKey, v'.stage = .recording logicalKey →
      isUpdate pollId activitypubStatusDistributionJobKind (some logicalKey) = true)
    (hserved : v'.stage = .served → Serving pollId σ.queue v') :
    Orderly pollId { σ with voting := some v' } where
  voting w hw := by
    obtain rfl := Option.some.inj hw
    have hv := hc.voting v hvoting
    exact
      { idle := htxn ▸ hv.idle, jobless := htxn ▸ hv.jobless, unmarked := htxn ▸ hv.unmarked
        unlocked := hunlocked, clear := hclear, key := hkey
        recorded := fun hrecorded => absurd hrecorded hstage', served := hserved }
  own row hrow hpending := by
    rw [not_recorded_of_stage hc hvoting hstage row hrow] at hpending
    cases hpending
  onePending := hc.onePending
  one := hc.one

/-- Recording an event changes no committed row. -/
theorem recordOutbox_frame {t : TxnId} {spec : JobSpec}
    (h : Step env s (.recordOutbox t spec, response) s') :
    s'.events = s.events ∧ s'.jobs = s.jobs ∧ s'.now = s.now := by
  rcases step_cases h with ⟨statement, hstatement, -⟩ | ⟨-, htransact⟩
  · cases hstatement
  have hrecord := (whenIdle_eq_some htransact).2
  obtain ⟨honly, -⟩ := recordOutbox_eventsOnly hrecord
  rcases recordOutbox_cases hrecord with ⟨rfl, -⟩ | ⟨-, -, hrecords⟩
  · exact ⟨rfl, rfl, rfl⟩
  · exact ⟨hrecords.events, honly.jobs, honly.now⟩

theorem Orderly.record (hc : Orderly pollId σ) {t : TxnId} {lock : Option ℕ} {jobLocks : List ℕ}
    {logicalKey : String} (hvoting : σ.voting = some ⟨t, .recording logicalKey, lock, jobLocks⟩)
    {version : UpdateVersion} {id : ℕ}
    (hstep : Step env σ.queue (.recordOutbox t (updateJob version logicalKey), .id id) s') :
    Orderly pollId { σ with queue := s', voting := some ⟨t, .recorded, lock, jobLocks⟩ } := by
  have hv := hc.voting _ hvoting
  have hnone := not_recorded_of_stage hc hvoting nofun
  obtain ⟨event, hpendings, hpending⟩ := record_appends hv hc hvoting rfl hstep
  have hmem : ∀ row ∈ s'.pendingEvents, isPendingUpdate pollId row.2 = true → row = (t, event) := by
    intro row hrow hupdate
    rw [hpendings, List.mem_append, List.mem_singleton] at hrow
    refine hrow.resolve_left fun hold => ?_
    rw [hnone row hold] at hupdate
    cases hupdate
  have hevents := (recordOutbox_frame hstep).1
  obtain ⟨hstages, hjobs⟩ := step_others (t := t) hstep nofun
  constructor
  · intro w hw
    obtain rfl := Option.some.inj hw
    refine ⟨hstages.trans hv.idle, fun job hjob => hv.jobless job (hjobs job hjob), ?_,
      fun _ => hv.unlocked nofun, fun _ hlock => hevents ▸ hv.clear nofun hlock, nofun,
      fun _ => ⟨event, hpendings ▸ List.mem_append_right _ (List.mem_singleton.mpr rfl), hpending⟩,
      nofun⟩
    intro other hother
    rw [hpendings, List.mem_append, List.mem_singleton] at hother
    rcases hother with hother | hother
    · exact hv.unmarked other hother
    · rw [(Prod.mk.inj hother).2]
      exact (isPendingUpdate_iff.mp hpending).2
  · intro row hrow hupdate
    obtain rfl := hmem row hrow hupdate
    exact ⟨_, rfl, rfl, rfl⟩
  · intro a ha b hb hupdate hupdate'
    rw [hmem a ha hupdate, hmem b hb hupdate']
  · intro a ha b hb
    exact hc.one a (hevents ▸ ha) b (hevents ▸ hb)

/-- When the vote is over nothing is pending for the poll. -/
theorem Orderly.released (hc : Orderly pollId σ) (hvoting : σ.voting = some v)
    (hrows : s'.pendingEvents = others v.txn σ.queue.pendingEvents) :
    ∀ row ∈ s'.pendingEvents, isPendingUpdate pollId row.2 = false := by
  intro row hrow
  obtain ⟨hold, hne⟩ := mem_others.mp (hrows ▸ hrow)
  by_contra hpending
  obtain ⟨v', hvoting', htxn, -⟩ := hc.own row hold (Bool.of_not_eq_false hpending)
  obtain rfl := Option.some.inj (hvoting.symm.trans hvoting')
  exact hne htxn.symm

theorem rollback_of_step {t : TxnId} (h : Step env s (.rollback t, response) s') :
    s' = s.release t := by
  rcases step_cases h with ⟨statement, hstatement, -⟩ | ⟨-, htransact⟩
  · cases hstatement
  · exact (Prod.mk.inj (Option.some.inj htransact)).1.symm

/-- The update that a vote commits is the only one that is to be dispatched. -/
theorem Orderly.commit (hc : Orderly pollId σ) (hvoting : σ.voting = some v) :
    ∀ a ∈ (σ.queue.commit v.txn).events, ∀ b ∈ (σ.queue.commit v.txn).events,
      isPendingUpdate pollId a = true → isPendingUpdate pollId b = true → a = b := by
  have hv := hc.voting v hvoting
  have hcases : ∀ a ∈ (σ.queue.commit v.txn).events, isPendingUpdate pollId a = true →
      a ∈ σ.queue.events ∨ (v.txn, a) ∈ σ.queue.pendingEvents ∧
        ∀ event ∈ σ.queue.events, isPendingUpdate pollId event = false := by
    intro a ha hpending
    rcases mem_applyEvents ha with ⟨hold, -⟩ | hown
    · exact .inl hold
    · have hrow := mem_own.mp hown
      obtain ⟨v', hvoting', -, hrecorded⟩ := hc.own _ hrow hpending
      obtain rfl := Option.some.inj (hvoting.symm.trans hvoting')
      refine .inr ⟨hrow, hv.clear ?_ (hv.unlocked ?_)⟩
      · rw [hrecorded]; exact nofun
      · rw [hrecorded]; exact nofun
  intro a ha b hb hpending hpending'
  rcases hcases a ha hpending with hold | ⟨hrow, hclear⟩ <;>
    rcases hcases b hb hpending' with hold' | ⟨hrow', hclear'⟩
  · exact hc.one a hold b hold' hpending hpending'
  · rw [hclear' a hold] at hpending
    cases hpending
  · rw [hclear b hold'] at hpending'
    cases hpending'
  · exact (Prod.mk.inj (hc.onePending _ hrow _ hrow' hpending hpending')).2

theorem Orderly.change (hc : Orderly pollId σ) (htable : EventTable env σ.queue) {op : UpdateOp}
    (h : Change env pollId σ op σ') : Orderly pollId σ' := by
  cases h with
  | queue hpermits hstep => exact hc.queue hpermits htable hstep
  | @begun t hvoting hidle hevents hjobs =>
    constructor
    · intro v hv
      obtain rfl := Option.some.inj hv
      exact ⟨hidle, fun job hjob => hjobs _ hjob rfl, fun event hevent => absurd rfl (hevents _ hevent),
        fun _ => rfl, fun hstage => absurd rfl hstage, nofun, nofun, nofun⟩
    · intro row hrow hpending
      obtain ⟨v, hvoting', -⟩ := hc.own row hrow hpending
      rw [hvoting] at hvoting'
      cases hvoting'
    · exact hc.onePending
    · exact hc.one
  | found hvoting hevent hpending hlock =>
    exact hc.advance hvoting nofun rfl nofun (fun hstage => absurd rfl hstage) nofun nofun
      fun _ => .inl ⟨_, hevent, rfl, hpending, hlock⟩
  | clear hvoting hclear =>
    exact hc.advance hvoting nofun rfl nofun (fun _ => rfl) (fun _ _ => hclear) nofun nofun
  | waiting hvoting hjob hactive hheld hlocks =>
    have hv := hc.voting _ hvoting
    exact hc.advance hvoting nofun rfl nofun (fun hstage => absurd rfl hstage)
      (fun _ => hv.clear nofun) nofun fun _ => .inr ⟨_, hjob, hlocks, hactive, hheld⟩
  | leased hvoting hheld hkey =>
    have hv := hc.voting _ hvoting
    refine hc.advance hvoting nofun rfl nofun (fun _ => hv.unlocked nofun) (fun _ => hv.clear nofun)
      (fun key heq => ?_) nofun
    obtain rfl := VoteStage.recording.inj heq
    exact hkey
  | record hvoting hstep => exact hc.record hvoting hstep
  | @committed v _ _ hvoting hreturned hstep =>
    obtain rfl := commit_of_step hstep
    have hnone : ∀ row ∈ (σ.queue.commit v.txn).pendingEvents, isPendingUpdate pollId row.2 = false :=
      hc.released hvoting rfl
    refine ⟨nofun, fun row hrow hpending => ?_, fun a ha _ _ hpending => ?_, hc.commit hvoting⟩
    · rw [hnone row hrow] at hpending
      cases hpending
    · rw [hnone a ha] at hpending
      cases hpending
  | @rolledBack v _ _ hvoting hstep =>
    obtain rfl := rollback_of_step hstep
    have hnone : ∀ row ∈ (σ.queue.release v.txn).pendingEvents, isPendingUpdate pollId row.2 = false :=
      hc.released hvoting rfl
    refine ⟨nofun, fun row hrow hpending => ?_, fun a ha _ _ hpending => ?_, hc.one⟩
    · rw [hnone row hrow] at hpending
      cases hpending
    · rw [hnone a ha] at hpending
      cases hpending
  | readTally => exact ⟨hc.voting, hc.own, hc.onePending, hc.one⟩

theorem orderly_initial (pollId now : ℤ) : Orderly pollId (.initial now) where
  voting v hv := by cases hv
  own _ hrow := absurd hrow List.not_mem_nil
  onePending _ ha := absurd ha List.not_mem_nil
  one _ ha := absurd ha List.not_mem_nil

theorem orderly_of_run {now : ℤ} (h : Run (UpdateStep env pollId) (.initial now) ops σ) :
    Orderly pollId σ := by
  refine h.invariant (P := fun _ σ => Orderly pollId σ) (orderly_initial pollId now) ?_
  intro _ _ _ _ run hc hstep
  obtain ⟨labels, hqueue⟩ := queue_run run
  exact hc.change (eventTable_of_run (run_of_outbox hqueue)) (step_change hstep)

end Rustodon.Polls
