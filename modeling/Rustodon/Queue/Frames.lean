import Rustodon.Queue.Outbox
import Mathlib.Tactic.Push

/-! @src jobs.rs | name:What a step leaves alone | scheme:frames | family:queue

    The committed jobs change by the statements on them and when a transaction commits. The function
    that a transaction is in and the jobs that it has inserted are its own. -/

namespace Rustodon.Queue

variable {env : Env} {s s' : State} {op : Op} {response : Response} {t : TxnId}

/-- The transaction that an operation takes on with its function, or ends. -/
def Op.enters : Op → Option TxnId
  | .enqueue t _ => some t
  | .enqueueOrdered t _ _ => some t
  | .dispatchOutbox t _ _ => some t
  | .next t => some t
  | .commit t => some t
  | .rollback t => some t
  | _ => none

/-- What the functions of a transaction leave of the rest. -/
structure Within (s : State) (t : TxnId) (s' : State) : Prop where
  now : s'.now = s.now
  jobs : s'.jobs = s.jobs
  pendingJobs : ∀ row ∈ s'.pendingJobs, row ∈ s.pendingJobs ∨ row.1 = t
  stages : ∀ t', t' ≠ t → s'.stages t' = s.stages t'

theorem Within.refl (s : State) (t : TxnId) : Within s t s := ⟨rfl, rfl, fun _ => .inl, fun _ _ => rfl⟩

theorem Within.setStage (h : Within s t s') (stage : Stage) : Within s t (s'.setStage t stage) where
  now := h.now
  jobs := h.jobs
  pendingJobs := h.pendingJobs
  stages t' ht := by simp only [State.setStage, if_neg ht, h.stages t' ht]

theorem Within.holdMarker (h : Within s t s') (key : MarkerKey) (written : Option Marker) :
    Within s t (s'.holdMarker t key written) := ⟨h.now, h.jobs, h.pendingJobs, h.stages⟩

theorem Within.markDispatched (h : Within s t s') (event : Event) (rest : List Event) :
    Within s t (s'.markDispatched t event rest) :=
  ⟨h.now, h.jobs, h.pendingJobs, (h.setStage (.dispatching rest)).stages⟩

theorem release_within (s : State) (t : TxnId) : Within s t (s.release t) where
  now := rfl
  jobs := rfl
  pendingJobs _ hrow := .inl (mem_others.mp hrow).1
  stages t' ht := by simp only [State.release, if_neg ht]

theorem insertJob_within {spec : JobSpec} {id : ℕ} {inserted : Bool}
    (h : s.insertJob t spec = some (s', id, inserted)) : Within s t s' := by
  rcases insertJob_cases h with ⟨-, rfl, -⟩ | ⟨-, -, rfl, -⟩
  · exact ⟨rfl, rfl, fun _ => .inl, fun _ _ => rfl⟩
  · refine ⟨rfl, rfl, fun row hrow => ?_, fun _ _ => rfl⟩
    rcases List.mem_append.mp hrow with hrow | hrow
    · exact .inl hrow
    · rw [List.mem_singleton.mp hrow]
      exact .inr rfl

theorem insertMarker_within {call : OrderedCall} {caller : Option (Event × List Event)}
    (h : s.insertMarker t call caller = some s') : Within s t s' := by
  rcases insertMarker_cases h with rfl | ⟨-, -, written, rfl⟩
  · exact (Within.refl s t).setStage _
  · exact ((Within.refl s t).setStage _).holdMarker _ _

theorem next_within (h : s.next env t = some (s', response)) : Within s t s' := by
  rw [State.next] at h
  split at h
  · cases h
  · cases h
  · rcases dispatchEvent_cases h with ⟨error, rfl, -⟩ | ⟨spec, orderingKey, -, -, -, hinsert⟩ |
      ⟨spec, s₁, id, inserted, -, -, -, hinsert, ⟨-, rfl⟩ | ⟨-, rfl⟩⟩
    · exact release_within s t
    · exact insertMarker_within hinsert
    · exact (insertJob_within hinsert).markDispatched _ _
    · exact (insertJob_within hinsert).setStage _
  · obtain ⟨s₁, hselect, heq⟩ := Option.map_eq_some_iff.mp h
    obtain ⟨rfl, -⟩ := Prod.mk.inj heq
    obtain ⟨previous, ⟨lock, -, -, rfl⟩ | ⟨-, rfl⟩ | ⟨-, -, rfl⟩⟩ := selectMarker_cases hselect
    · exact (Within.refl s t).setStage _
    · exact ((Within.refl s t).setStage _).holdMarker _ _
    · exact (Within.refl s t).setStage _
  · rcases enqueueOrderedSpec_cases h with ⟨error, rfl, -⟩ |
      ⟨spec, s₁, id, inserted, -, -, hinsert, -, rfl⟩
    · exact release_within s t
    · exact (insertJob_within hinsert).setStage _
  · obtain ⟨-, written, ⟨-, rfl, -⟩ | ⟨event, rest, -, -, rfl⟩⟩ := upsertMarker_cases h
    · exact ((Within.refl s t).holdMarker _ _).setStage _
    · exact ((Within.refl s t).holdMarker _ _).markDispatched _ _

theorem EventsOnly.within (h : EventsOnly s s') (hstages : ∀ t', t' ≠ t → s'.stages t' = s.stages t') :
    Within s t s' :=
  ⟨h.now, h.jobs, fun _ hrow => .inl (h.pendingJobs ▸ hrow), hstages⟩

/-- A step of a transaction passes time, records or cancels events or prunes a marker, is part of the
    function of its transaction, or commits. -/
theorem transact_within (h : transact env s op = some (s', response)) :
    (∃ elapsed : ℕ, op = .tick elapsed ∧ s' = { s with now := s.now + elapsed }) ∨
    (op.enters = none ∧ EventsOnly s s' ∧ s'.stages = s.stages) ∨
    (∃ t, op.enters = some t ∧ Within s t s') ∨ ∃ t, op = .commit t ∧ s' = s.commit t := by
  cases op with
  | tick elapsed =>
    obtain ⟨rfl, -⟩ := Prod.mk.inj (Option.some.inj h)
    exact .inl ⟨elapsed, rfl, rfl⟩
  | cancelEvents kind logicalKey => exact .inr (.inl ⟨rfl, cancelEvents_eventsOnly h⟩)
  | pruneMarker key => exact .inr (.inl ⟨rfl, pruneMarker_eventsOnly h⟩)
  | enqueue t spec =>
    refine .inr (.inr (.inl ⟨t, rfl, ?_⟩))
    rcases enqueue_cases (whenIdle_eq_some h).2 with ⟨error, rfl, -⟩ | ⟨id, inserted, -, hinsert, -⟩
    · exact .refl _ t
    · exact insertJob_within hinsert
  | enqueueOrdered t spec orderingKey =>
    obtain ⟨s₁, hinsert, heq⟩ := Option.map_eq_some_iff.mp (whenIdle_eq_some h).2
    obtain ⟨rfl, -⟩ := Prod.mk.inj heq
    exact .inr (.inr (.inl ⟨t, rfl, insertMarker_within hinsert⟩))
  | recordOutbox t spec =>
    exact .inr (.inl ⟨rfl, recordOutbox_eventsOnly (whenIdle_eq_some h).2⟩)
  | recordOutboxOnce t spec =>
    exact .inr (.inl ⟨rfl, recordOutboxOnce_eventsOnly (whenIdle_eq_some h).2⟩)
  | dispatchOutbox t limit skipped =>
    obtain ⟨heventsOnly, hstages⟩ := dispatchOutbox_eventsOnly (whenIdle_eq_some h).2
    refine .inr (.inr (.inl ⟨t, rfl, heventsOnly.within fun t' ht => ?_⟩))
    rcases hstages with hstages | ⟨rows, hstages⟩
    · rw [hstages]
    · simp only [hstages, State.setStage, if_neg ht]
  | next t => exact .inr (.inr (.inl ⟨t, rfl, next_within h⟩))
  | commit t =>
    rw [transact] at h
    split_ifs at h
    exact .inr (.inr (.inr ⟨t, rfl, (Prod.mk.inj (Option.some.inj h)).1.symm⟩))
  | rollback t =>
    obtain ⟨rfl, -⟩ := Prod.mk.inj (Option.some.inj h)
    exact .inr (.inr (.inl ⟨t, rfl, release_within s t⟩))
  | _ => cases h

/-- The committed jobs change by the statement of the step, or are those of a commit. -/
theorem step_jobs (h : Step env s (op, response) s') :
    (∃ effect, (∀ job, Effect env s op job (effect job)) ∧ s'.jobs = s.jobs.filterMap effect) ∨
      ∃ t, op = .commit t ∧ s' = s.commit t := by
  rcases step_cases h with ⟨statement, hstatement, -, rfl⟩ | ⟨-, htransact⟩
  · exact .inl ⟨statement.effect, statement_effect hstatement, rfl⟩
  · have hsame : ∀ jobs, jobs = s.jobs → ∃ effect, (∀ job, Effect env s op job (effect job)) ∧
        jobs = s.jobs.filterMap effect := by
      rintro _ rfl
      exact ⟨some, fun _ => .unchanged, List.filterMap_some.symm⟩
    rcases transact_within htransact with ⟨elapsed, -, rfl⟩ | ⟨-, heventsOnly, -⟩ | ⟨t, -, hwithin⟩ |
      hcommit
    · exact .inl (hsame _ rfl)
    · exact .inl (hsame _ heventsOnly.jobs)
    · exact .inl (hsame _ hwithin.jobs)
    · exact .inr hcommit

/-- A transaction that a step does not enter stays in its function, and inserts no job. -/
theorem step_others (h : Step env s (op, response) s') (ht : op.enters ≠ some t) :
    s'.stages t = s.stages t ∧ ∀ job, (t, job) ∈ s'.pendingJobs → (t, job) ∈ s.pendingJobs := by
  rcases step_cases h with ⟨statement, -, -, rfl⟩ | ⟨-, htransact⟩
  · exact ⟨rfl, fun _ => id⟩
  rcases transact_within htransact with ⟨elapsed, -, rfl⟩ | ⟨-, heventsOnly, hstages⟩ |
    ⟨t', henters, hwithin⟩ | ⟨t', rfl, rfl⟩
  · exact ⟨rfl, fun _ => id⟩
  · exact ⟨by rw [hstages], fun _ hjob => heventsOnly.pendingJobs ▸ hjob⟩
  · have hne : t ≠ t' := fun heq => ht (heq ▸ henters)
    refine ⟨hwithin.stages t hne, fun job hjob => ?_⟩
    exact (hwithin.pendingJobs _ hjob).resolve_right hne
  · have hne : t ≠ t' := fun heq => ht (congrArg some heq.symm)
    exact ⟨if_neg hne, fun _ hjob => (mem_others.mp hjob).1⟩

/-! ### The fate of a job -/

/-- The row is still that of the job, and its attempt the same one. -/
structure SameAttempt (job job' : Job) : Prop where
  id : job'.id = job.id
  kind : job'.kind = job.kind
  logicalKey : job'.logicalKey = job.logicalKey
  generation : job'.generation = job.generation

/-- What a step makes of a committed job, with what the caller is told. -/
inductive Fate (s : State) (op : Op) (response : Response) (s' : State) (job : Job) : Prop where
  | unchanged (hjob : job ∈ s'.jobs)
  | claimed {leaseOwner : String} {lanes : List Lane} {leaseMilliseconds : ℤ} {skipped : List ℕ}
    (hop : op = .claim leaseOwner lanes leaseMilliseconds skipped) (hlive : job.live = true)
    (hskipped : job.id ∉ skipped)
    (hjob : job.claimed leaseOwner s.now leaseMilliseconds ∈ s'.jobs)
  | leased {job' : Job} (hjob : job' ∈ s'.jobs) (hsame : SameAttempt job job')
    (hheld : job.held s.now = true) (hlive : job'.live = true)
  | returned {job' : Job} (hjob : job' ∈ s'.jobs) (hsame : SameAttempt job job')
    (hwaiting : job'.status = .waiting)
  | completed {id : ℕ} {leaseOwner : String} {generation : ℕ}
    (hop : op = .complete id leaseOwner generation) (hresponse : response = .flag true)
    (hid : job.id = id) (hgeneration : job.generation = generation)
    (hheld : job.held s.now = true)
  | exhausted {claimed : ClaimedJob} {runAt : ℤ} {error : String}
    (hop : op = .retry claimed runAt error) (hresponse : response = .retried .dead)
    (hid : job.id = claimed.id)
  | dead {claimed : ClaimedJob} {error : String} (hop : op = .deadLetter claimed error)
    (hresponse : response = .flag true) (hid : job.id = claimed.id)
  | cancelled {kind logicalKey : String} (hop : op = .cancelJobs kind logicalKey)
    (hkind : job.kind = kind) (hlogicalKey : job.logicalKey = some logicalKey)

theorem candidate_not_skipped {jobs : List Job} {lanes : List Lane} {now : ℤ} {skipped : List ℕ}
    {found : Job} (h : candidate env jobs lanes now skipped = some found) : found.id ∉ skipped := by
  have hmem := List.mem_of_mem_head? (Option.mem_def.mpr h)
  rw [(List.perm_insertionSort ..).mem_iff, List.mem_filter, Bool.and_eq_true] at hmem
  simpa using hmem.2.2

/-- What a statement under the fence answers when it finds a row. -/
theorem fenced_answer {jobs : List Job} {now : ℤ} {token : Token} {effect : Job → Option Job}
    {answer : Option Job → Response} {response : Response} {job : Job} (hjob : job ∈ jobs)
    (hfences : token.fences now job = true) (hanswer : ∀ row, answer (some row) = response) :
    (fenced jobs now token effect answer).response = response := by
  obtain ⟨row, hrow⟩ := Option.isSome_iff_exists.mp (List.find?_isSome.mpr ⟨job, hjob, hfences⟩)
  exact (congrArg answer hrow).trans (hanswer row)

theorem mem_filterMap_fenced {jobs : List Job} {now : ℤ} {token : Token}
    {effect : Job → Option Job} {answer : Option Job → Response} {job job' : Job}
    (hjob : job ∈ jobs) (hfences : token.fences now job = true) (heffect : effect job = some job') :
    job' ∈ jobs.filterMap (fenced jobs now token effect answer).effect :=
  List.mem_filterMap.mpr ⟨job, hjob, (if_pos hfences).trans heffect⟩

theorem unfenced_row {jobs : List Job} {now : ℤ} {token : Token} {effect : Job → Option Job}
    {answer : Option Job → Response} {job : Job} (hjob : job ∈ jobs)
    (hfences : ¬ token.fences now job = true) :
    job ∈ jobs.filterMap (fenced jobs now token effect answer).effect :=
  List.mem_filterMap.mpr ⟨job, hjob, if_neg hfences⟩

theorem mem_filterMap_skip {jobs : List Job} {answer : Response} {job : Job} (hjob : job ∈ jobs) :
    job ∈ jobs.filterMap (Statement.skip answer).effect :=
  List.mem_filterMap.mpr ⟨job, hjob, rfl⟩

theorem statement_fate (hwf : WellFormed s) {statement : Statement}
    (hstatement : Queue.statement env s op = some statement) {job : Job} (hjob : job ∈ s.jobs) :
    Fate s op statement.response { s with jobs := s.jobs.filterMap statement.effect } job := by
  cases op with
  | claim leaseOwner lanes leaseMilliseconds skipped =>
    obtain rfl := Option.some.inj hstatement
    rcases claim_cases env s.jobs s.now leaseOwner lanes leaseMilliseconds skipped with
      ⟨answer, heq, -⟩ | ⟨found, -, hfound, heq⟩
    · rw [heq]
      exact .unchanged (mem_filterMap_skip hjob)
    · rw [heq]
      by_cases hid : job.id = found.id
      · obtain ⟨hmem, hclaimable⟩ := candidate_mem hfound
        obtain rfl := hwf.eq_of_id hjob hmem hid
        simp only [claimable, Bool.and_eq_true, and_assoc] at hclaimable
        exact .claimed rfl hclaimable.1 (candidate_not_skipped hfound)
          (List.mem_filterMap.mpr ⟨job, hjob, by simp⟩)
      · exact .unchanged (List.mem_filterMap.mpr ⟨job, hjob, by simp [hid]⟩)
  | renew id leaseOwner generation leaseMilliseconds =>
    obtain rfl := Option.some.inj hstatement
    rw [renew]
    cases validateLease leaseOwner leaseMilliseconds with
    | error error => exact .unchanged (mem_filterMap_skip hjob)
    | ok u =>
      by_cases hfences : Token.fences ⟨id, leaseOwner, generation⟩ s.now job = true
      · exact .leased (mem_filterMap_fenced hjob hfences rfl) ⟨rfl, rfl, rfl, rfl⟩
          (fences_iff.mp hfences).2.2.2.2 rfl
      · exact .unchanged (unfenced_row hjob hfences)
  | mergeJobArguments claimed patch =>
    obtain rfl := Option.some.inj hstatement
    rw [mergeJobArguments]
    split
    · exact .unchanged (mem_filterMap_skip hjob)
    · by_cases hfences : claimed.token.fences s.now job = true
      · obtain ⟨-, -, -, hlive, hheld⟩ := fences_iff.mp hfences
        exact .leased (mem_filterMap_fenced hjob hfences rfl) ⟨rfl, rfl, rfl, rfl⟩ hheld hlive
      · exact .unchanged (unfenced_row hjob hfences)
  | initializeJobArguments claimed patch =>
    obtain rfl := Option.some.inj hstatement
    rw [initializeJobArguments]
    split
    · exact .unchanged (mem_filterMap_skip hjob)
    · by_cases hfences : claimed.token.fences s.now job = true
      · obtain ⟨-, -, -, hlive, hheld⟩ := fences_iff.mp hfences
        exact .leased (mem_filterMap_fenced hjob hfences rfl) ⟨rfl, rfl, rfl, rfl⟩ hheld hlive
      · exact .unchanged (unfenced_row hjob hfences)
  | complete id leaseOwner generation =>
    obtain rfl := Option.some.inj hstatement
    by_cases hfences : Token.fences ⟨id, leaseOwner, generation⟩ s.now job = true
    · obtain ⟨hid, -, hgeneration, -, hheld⟩ := fences_iff.mp hfences
      exact .completed rfl (fenced_answer hjob hfences fun _ => rfl) hid hgeneration hheld
    · exact .unchanged (unfenced_row hjob hfences)
  | retry claimed runAt error =>
    obtain rfl := Option.some.inj hstatement
    rw [retry]
    split
    · by_cases hfences : claimed.token.fences s.now job = true
      · exact .exhausted rfl (fenced_answer hjob hfences fun _ => rfl) (fences_iff.mp hfences).1
      · exact .unchanged (unfenced_row hjob hfences)
    · by_cases hfences : claimed.token.fences s.now job = true
      · exact .returned (mem_filterMap_fenced hjob hfences rfl) ⟨rfl, rfl, rfl, rfl⟩ rfl
      · exact .unchanged (unfenced_row hjob hfences)
  | deadLetter claimed error =>
    obtain rfl := Option.some.inj hstatement
    by_cases hfences : claimed.token.fences s.now job = true
    · exact .dead rfl (fenced_answer hjob hfences fun _ => rfl) (fences_iff.mp hfences).1
    · exact .unchanged (unfenced_row hjob hfences)
  | cancelJobs kind logicalKey =>
    obtain rfl := Option.some.inj hstatement
    by_cases hcancel : cancellable s.now kind logicalKey job = true
    · simp only [cancellable, Bool.and_eq_true, decide_eq_true_eq] at hcancel
      exact .cancelled rfl hcancel.1.1.1 hcancel.1.1.2
    · exact .unchanged (List.mem_filterMap.mpr ⟨job, hjob, if_neg hcancel⟩)
  | _ => cases hstatement

theorem step_fate (hwf : WellFormed s) (h : Step env s (op, response) s') {job : Job}
    (hjob : job ∈ s.jobs) : Fate s op response s' job := by
  rcases step_cases h with ⟨statement, hstatement, rfl, rfl⟩ | ⟨-, htransact⟩
  · exact statement_fate hwf hstatement hjob
  · refine .unchanged ?_
    rcases transact_within htransact with ⟨elapsed, -, rfl⟩ | ⟨-, heventsOnly, -⟩ | ⟨t, -, hwithin⟩ |
      ⟨t, -, rfl⟩
    · exact hjob
    · exact heventsOnly.jobs ▸ hjob
    · exact hwithin.jobs ▸ hjob
    · exact List.mem_append_left _ hjob

/-! ### Events -/

/-- What an operation does to the outbox. -/
inductive OutboxChange (env : Env) (s : State) : Op → State → Prop where
  | frame {op : Op} {s' : State} (hevents : s'.events = s.events)
    (hpending : s'.pendingEvents = s.pendingEvents) (hlocks : s'.eventLocks = s.eventLocks) :
    OutboxChange env s op s'
  | recorded {op : Op} {s' : State} {t : TxnId} {spec : JobSpec}
    (hop : op = .recordOutbox t spec ∨ op = .recordOutboxOnce t spec)
    (hrecords : Records env s t spec s') : OutboxChange env s op s'
  | cancelled (kind logicalKey : String) {s' : State}
    (hevents : s'.events = s.events.filter fun event => !(decide (event.kind = kind) &&
      decide (event.logicalKey = some logicalKey) && event.dispatchedAt.isNone))
    (hpending : s'.pendingEvents = s.pendingEvents) (hlocks : s'.eventLocks = s.eventLocks) :
    OutboxChange env s (.cancelEvents kind logicalKey) s'
  | dispatching (t : TxnId) (limit : ℤ) (skipped : List ℕ) {s' : State}
    (hevents : s'.events = s.events) (hpending : s'.pendingEvents = s.pendingEvents)
    (hlocks : s'.eventLocks = fun id =>
      if (dispatchRows env s limit.toNat skipped).any fun event => event.id == id then some t
      else s.eventLocks id) :
    OutboxChange env s (.dispatchOutbox t limit skipped) s'
  | advanced {op : Op} {s' : State} (t : TxnId) (hadvance : Advance s t s') : OutboxChange env s op s'
  | committed (t : TxnId) : OutboxChange env s (.commit t) (s.commit t)
  | released {op : Op} (t : TxnId) (henters : op.enters = some t) : OutboxChange env s op (s.release t)

theorem step_outbox (h : Step env s (op, response) s') : OutboxChange env s op s' := by
  rcases step_cases h with ⟨statement, -, -, rfl⟩ | ⟨-, htransact⟩
  · exact .frame rfl rfl rfl
  cases op with
  | tick elapsed =>
    obtain ⟨rfl, -⟩ := Prod.mk.inj (Option.some.inj htransact)
    exact .frame rfl rfl rfl
  | cancelEvents kind logicalKey =>
    simp only [transact, State.cancelEvents] at htransact
    split_ifs at htransact
    obtain ⟨rfl, -⟩ := Prod.mk.inj (Option.some.inj htransact)
    exact .cancelled kind logicalKey rfl rfl rfl
  | pruneMarker key =>
    rw [transact, State.pruneMarker] at htransact
    split at htransact
    · split_ifs at htransact
      obtain ⟨rfl, -⟩ := Prod.mk.inj (Option.some.inj htransact)
      exact .frame rfl rfl rfl
    · cases htransact
  | enqueue t spec =>
    rcases enqueue_cases (whenIdle_eq_some htransact).2 with
      ⟨error, rfl, -⟩ | ⟨id, inserted, -, hinsert, -⟩
    · exact .frame rfl rfl rfl
    · obtain ⟨hevents, hpending, hlocks, -⟩ := insertJob_frame hinsert
      exact .frame hevents hpending hlocks
  | enqueueOrdered t spec orderingKey =>
    obtain ⟨hidle, htransact⟩ := whenIdle_eq_some htransact
    obtain ⟨s₁, hinsert, heq⟩ := Option.map_eq_some_iff.mp htransact
    obtain ⟨rfl, -⟩ := Prod.mk.inj heq
    exact .advanced t (insertMarker_advance hinsert (by rw [hidle, Stage.rows, Stage.rows]))
  | recordOutbox t spec =>
    rcases recordOutbox_cases (whenIdle_eq_some htransact).2 with ⟨rfl, -⟩ | ⟨-, -, hrecords⟩
    · exact .frame rfl rfl rfl
    · exact .recorded (.inl rfl) hrecords
  | recordOutboxOnce t spec =>
    rcases recordOutboxOnce_cases (whenIdle_eq_some htransact).2 with ⟨rfl, -⟩ | ⟨-, -, hrecords⟩
    · exact .frame rfl rfl rfl
    · exact .recorded (.inr rfl) hrecords
  | dispatchOutbox t limit skipped =>
    have hdispatch := (whenIdle_eq_some htransact).2
    rw [State.dispatchOutbox] at hdispatch
    split_ifs at hdispatch
    · obtain ⟨rfl, -⟩ := Prod.mk.inj (Option.some.inj hdispatch)
      exact .frame rfl rfl rfl
    · obtain ⟨rfl, -⟩ := Prod.mk.inj (Option.some.inj hdispatch)
      exact .dispatching t limit skipped rfl rfl rfl
  | next t =>
    rcases next_cases htransact with ⟨error, rfl, -⟩ | ⟨-, hadvance⟩
    · exact .released t rfl
    · exact .advanced t hadvance
  | commit t =>
    rw [transact] at htransact
    split_ifs at htransact
    obtain ⟨rfl, -⟩ := Prod.mk.inj (Option.some.inj htransact)
    exact .committed t
  | rollback t =>
    obtain ⟨rfl, -⟩ := Prod.mk.inj (Option.some.inj htransact)
    exact .released t rfl
  | _ => cases htransact

/-- What is pending after a step was pending before, or is marked, or has been recorded. -/
theorem step_pendingEvents (h : Step env s (op, response) s') :
    (∃ t spec, (op = .recordOutbox t spec ∨ op = .recordOutboxOnce t spec) ∧
      Records env s t spec s') ∨
    ∀ row ∈ s'.pendingEvents, row ∈ s.pendingEvents ∨ row.2.dispatchedAt ≠ none := by
  cases step_outbox h with
  | frame _ hpending => exact .inr fun row hrow => .inl (hpending ▸ hrow)
  | recorded hop hrecords => exact .inl ⟨_, _, hop, hrecords⟩
  | cancelled _ _ _ hpending => exact .inr fun row hrow => .inl (hpending ▸ hrow)
  | dispatching _ _ _ _ hpending => exact .inr fun row hrow => .inl (hpending ▸ hrow)
  | advanced t hadvance =>
    refine .inr fun row hrow => ?_
    rcases hadvance.rows with ⟨hpending, -⟩ | ⟨event, rest, -, -, hpending⟩
    · exact .inl (hpending ▸ hrow)
    · rw [hpending, List.mem_append, List.mem_singleton] at hrow
      rcases hrow with hrow | rfl
      · exact .inl hrow
      · exact .inr nofun
  | committed t => exact .inr fun row hrow => .inl (mem_others.mp hrow).1
  | released t => exact .inr fun row hrow => .inl (mem_others.mp hrow).1

theorem not_skipped_of_mem_dispatchRows {limit : ℕ} {skipped : List ℕ} {event : Event}
    (h : event ∈ dispatchRows env s limit skipped) : event.id ∉ skipped := by
  have hsorted := List.mem_of_mem_take h
  rw [List.mem_insertionSort, List.mem_filter, Bool.and_eq_true] at hsorted
  simpa using hsorted.2.2

/-- The row of an event is locked to record it again, or to dispatch it. -/
theorem step_eventLocks (htable : EventTable env s) (h : Step env s (op, response) s')
    {event : Event} (hevent : event ∈ s.events) {holder : TxnId}
    (hlock : s'.eventLocks event.id = some holder) :
    s.eventLocks event.id = some holder ∨
    (∃ spec, (op = .recordOutbox holder spec ∨ op = .recordOutboxOnce holder spec) ∧
      sameKey spec event = true) ∨
    ∃ limit skipped, op = .dispatchOutbox holder limit skipped ∧ event.id ∉ skipped := by
  have hreleased : ∀ t, (s.release t).eventLocks event.id = some holder →
      s.eventLocks event.id = some holder := by
    intro t hlock
    simp only [State.release] at hlock
    split_ifs at hlock
    exact hlock
  cases step_outbox h with
  | frame _ _ hlocks => exact .inl (hlocks ▸ hlock)
  | recorded hop hrecords =>
    cases hrecords with
    | again => exact .inl hlock
    | onto hevent' hkey =>
      simp only at hlock
      split_ifs at hlock with hid
      · obtain rfl := htable.eq_of_id hevent hevent' hid
        obtain rfl := Option.some.inj hlock
        exact .inr (.inl ⟨_, hop, hkey⟩)
      · exact .inl hlock
    | fresh => exact .inl hlock
  | cancelled _ _ _ _ hlocks => exact .inl (hlocks ▸ hlock)
  | dispatching t limit skipped _ _ hlocks =>
    simp only [hlocks] at hlock
    split_ifs at hlock with htaken
    · obtain ⟨row, hrow, hid⟩ := List.any_eq_true.mp htaken
      refine .inr (.inr ⟨limit, skipped, by rw [Option.some.inj hlock], ?_⟩)
      rw [← beq_iff_eq.mp hid]
      exact not_skipped_of_mem_dispatchRows hrow
    · exact .inl hlock
  | advanced t hadvance => exact .inl (hadvance.eventLocks ▸ hlock)
  | committed t => exact .inl (hreleased t hlock)
  | released t => exact .inl (hreleased t hlock)

/-- A committed event stays, unless it is cancelled or a commit brings a version of it. -/
theorem step_keeps_event (h : Step env s (op, response) s') {event : Event}
    (hevent : event ∈ s.events) :
    event ∈ s'.events ∨
    (∃ kind logicalKey, op = .cancelEvents kind logicalKey ∧ event.kind = kind ∧
      event.logicalKey = some logicalKey) ∨
    ∃ t version, op = .commit t ∧ (t, version) ∈ s.pendingEvents ∧ version.id = event.id := by
  cases step_outbox h with
  | frame hevents => exact .inl (hevents ▸ hevent)
  | recorded _ hrecords => exact .inl (hrecords.events ▸ hevent)
  | cancelled kind logicalKey hevents =>
    by_cases hcancelled : event.kind = kind ∧ event.logicalKey = some logicalKey
    · exact .inr (.inl ⟨kind, logicalKey, rfl, hcancelled⟩)
    · refine .inl (hevents ▸ List.mem_filter.mpr ⟨hevent, ?_⟩)
      by_cases hkind : event.kind = kind <;> simp_all
  | dispatching _ _ _ hevents => exact .inl (hevents ▸ hevent)
  | advanced t hadvance => exact .inl (hadvance.events ▸ hevent)
  | committed t =>
    by_cases hversion : ∃ version ∈ own t s.pendingEvents, version.id = event.id
    · obtain ⟨version, hversion, hid⟩ := hversion
      exact .inr (.inr ⟨t, version, rfl, mem_own.mp hversion, hid⟩)
    · push Not at hversion
      exact .inl (applyEvents_keeps hevent hversion)
  | released t => exact .inl hevent

/-- A committed event was there before, or has been pending. -/
theorem step_events_from (h : Step env s (op, response) s') {event : Event}
    (hevent : event ∈ s'.events) :
    event ∈ s.events ∨ ∃ t, op = .commit t ∧ (t, event) ∈ s.pendingEvents := by
  cases step_outbox h with
  | frame hevents => exact .inl (hevents ▸ hevent)
  | recorded _ hrecords => exact .inl (hrecords.events ▸ hevent)
  | cancelled kind logicalKey hevents => exact .inl (List.mem_filter.mp (hevents ▸ hevent)).1
  | dispatching _ _ _ hevents => exact .inl (hevents ▸ hevent)
  | advanced t hadvance => exact .inl (hadvance.events ▸ hevent)
  | committed t =>
    rcases mem_applyEvents hevent with ⟨hold, -⟩ | hown
    · exact .inl hold
    · exact .inr ⟨t, rfl, mem_own.mp hown⟩
  | released t => exact .inl hevent

/-! ### Jobs and marks -/

/-- A transaction that has inserted a job is in a dispatch, and has marked the event of the job,
    which comes later only for deliveries. -/
def MarksJobs (s : State) : Prop :=
  ∀ row ∈ s.pendingJobs, s.stages row.1 ≠ .idle ∧
    (row.2.kind = activitypubDeliveryJobKind ∨ ∃ version, (row.1, version) ∈ s.pendingEvents ∧
      version.dispatchedAt ≠ none ∧ row.2.kind = version.kind ∧
      row.2.logicalKey = version.logicalKey)

/-- The transaction keeps its jobs and marks. -/
theorem MarksJobs.frame (h : MarksJobs s) (hjobs : ∀ row ∈ s'.pendingJobs, row ∈ s.pendingJobs)
    (hevents : ∀ row ∈ s'.pendingJobs, ∀ version, (row.1, version) ∈ s.pendingEvents →
      version.dispatchedAt ≠ none → (row.1, version) ∈ s'.pendingEvents)
    (hstages : ∀ row ∈ s'.pendingJobs, s.stages row.1 ≠ .idle → s'.stages row.1 ≠ .idle) :
    MarksJobs s' := by
  intro row hrow
  obtain ⟨hstage, hmark⟩ := h row (hjobs row hrow)
  refine ⟨hstages row hrow hstage, hmark.imp_right ?_⟩
  rintro ⟨version, hversion, hdispatched, hsame⟩
  exact ⟨version, hevents row hrow version hversion hdispatched, hdispatched, hsame⟩

/-- What ends a transaction takes its jobs and marks away. -/
theorem MarksJobs.release (h : MarksJobs s) (hjobs : s'.pendingJobs = others t s.pendingJobs)
    (hevents : s'.pendingEvents = others t s.pendingEvents)
    (hstages : ∀ t', t' ≠ t → s'.stages t' = s.stages t') : MarksJobs s' := by
  refine h.frame (fun row hrow => (mem_others.mp (hjobs ▸ hrow)).1) (fun row hrow version hversion _ => ?_)
    fun row hrow hstage => ?_
  · have hne := (mem_others.mp (hjobs ▸ hrow)).2
    exact hevents ▸ mem_others.mpr ⟨hversion, hne⟩
  · exact hstages row.1 (mem_others.mp (hjobs ▸ hrow)).2 ▸ hstage

theorem MarksJobs.setStage (h : MarksJobs s) {stage : Stage} (hstage : stage ≠ .idle) :
    MarksJobs (s.setStage t stage) := by
  refine h.frame (fun _ hrow => hrow) (fun _ _ _ hversion _ => hversion) fun row _ hold => ?_
  simp only [State.setStage]
  split_ifs
  · exact hstage
  · exact hold

/-- A job is inserted with the mark of its event, or for a delivery. -/
theorem MarksJobs.insert (h : MarksJobs s) {s₁ : State} {spec : JobSpec} {id : ℕ}
    {inserted : Bool} (hinsert : s.insertJob t spec = some (s₁, id, inserted))
    (hjobs : s'.pendingJobs = s₁.pendingJobs) (hstage : s'.stages t ≠ .idle)
    (hstages : ∀ t', t' ≠ t → s'.stages t' = s₁.stages t')
    (hevents : ∀ row ∈ s.pendingEvents, row ∈ s'.pendingEvents)
    (hmark : inserted = true → spec.kind = activitypubDeliveryJobKind ∨ ∃ version,
      (t, version) ∈ s'.pendingEvents ∧ version.dispatchedAt ≠ none ∧ spec.kind = version.kind ∧
        spec.logicalKey = version.logicalKey) : MarksJobs s' := by
  have hold : ∀ row ∈ s.pendingJobs, s'.stages row.1 ≠ .idle ∧
      (row.2.kind = activitypubDeliveryJobKind ∨ ∃ version, (row.1, version) ∈ s'.pendingEvents ∧
        version.dispatchedAt ≠ none ∧ row.2.kind = version.kind ∧
        row.2.logicalKey = version.logicalKey) := by
    intro row hrow
    obtain ⟨hold, hkind⟩ := h row hrow
    refine ⟨?_, hkind.imp_right fun ⟨version, hversion, hrest⟩ =>
      ⟨version, hevents _ hversion, hrest⟩⟩
    by_cases ht : row.1 = t
    · rwa [ht]
    · rwa [hstages row.1 ht, (insertJob_within hinsert).stages row.1 ht]
  intro row hrow
  rw [hjobs] at hrow
  rcases insertJob_cases hinsert with ⟨-, rfl, -⟩ | ⟨hinserted, -, rfl, -⟩
  · exact hold row hrow
  · rcases List.mem_append.mp hrow with hrow | hrow
    · exact hold row hrow
    · obtain rfl := List.mem_singleton.mp hrow
      exact ⟨hstage, hmark hinserted⟩

theorem insertMarker_marksJobs (h : MarksJobs s) {call : OrderedCall}
    {caller : Option (Event × List Event)} (hinsert : s.insertMarker t call caller = some s') :
    MarksJobs s' := by
  rcases insertMarker_cases hinsert with rfl | ⟨-, -, written, rfl⟩
  · exact h.setStage nofun
  · exact h.setStage nofun

theorem next_marksJobs (h : MarksJobs s) (hdelivering : Delivering env s)
    (hnext : s.next env t = some (s', response)) : MarksJobs s' := by
  rw [State.next] at hnext
  cases hstage : s.stages t with
  | idle =>
    rw [hstage] at hnext
    cases hnext
  | dispatching rows =>
    rw [hstage] at hnext
    cases rows with
    | nil => cases hnext
    | cons event rest =>
      rcases dispatchEvent_cases hnext with ⟨error, rfl, -⟩ | ⟨spec, orderingKey, -, -, -, hinsert⟩ |
        ⟨spec, s₁, id, inserted, hspec, -, -, hinsert, ⟨-, rfl⟩ | ⟨rfl, rfl⟩⟩
      · exact h.release rfl rfl fun t' ht => if_neg ht
      · exact insertMarker_marksJobs h hinsert
      · obtain ⟨hkind, hkey, -⟩ := outboxSpec_ok hspec
        have hpending := (insertJob_frame hinsert).2.1
        refine h.insert hinsert rfl ?_ (fun t' ht => if_neg ht)
          (fun row hrow => List.mem_append_left _ (hpending ▸ hrow)) fun _ => .inr ⟨_,
            List.mem_append_right _ (List.mem_singleton.mpr rfl), Option.some_ne_none _, hkind, hkey⟩
        simp [State.markDispatched, State.setStage]
      · have hpending := (insertJob_frame hinsert).2.1
        refine h.insert hinsert rfl ?_ (fun t' ht => if_neg ht) (fun row hrow => ?_) (by rintro ⟨⟩)
        · simp [State.setStage]
        · exact (show row ∈ s₁.pendingEvents from hpending ▸ hrow)
  | ordered call progress caller =>
    rw [hstage] at hnext
    obtain ⟨event, rest, rfl, -, horderingKey⟩ := hdelivering.call t call progress caller hstage
    cases progress with
    | select =>
      obtain ⟨s₁, hselect, heq⟩ := Option.map_eq_some_iff.mp hnext
      obtain ⟨rfl, -⟩ := Prod.mk.inj heq
      obtain ⟨previous, ⟨lock, -, -, rfl⟩ | ⟨-, rfl⟩ | ⟨-, -, rfl⟩⟩ := selectMarker_cases hselect
      · exact h.setStage (by rintro ⟨⟩)
      · exact h.setStage (by rintro ⟨⟩)
      · exact h.setStage (by rintro ⟨⟩)
    | enqueue previous =>
      rcases enqueueOrderedSpec_cases hnext with ⟨error, rfl, -⟩ |
        ⟨spec, s₁, id, inserted, hmetadata, -, hinsert, -, rfl⟩
      · exact h.release rfl rfl fun t' ht => if_neg ht
      · have hordered : Ordered env call.spec call.orderingKey (orderedRunAt call.spec previous)
            spec := withOrderingMetadata_ok hmetadata
        have hkind : spec.kind = activitypubDeliveryJobKind :=
          hordered.kind.trans (delivery_kind horderingKey)
        have hpending := (insertJob_frame hinsert).2.1
        refine h.insert hinsert rfl ?_ (fun t' ht => if_neg ht) (fun row hrow => ?_)
          fun _ => .inl hkind
        · simp [State.setStage]
        · exact (show row ∈ s₁.pendingEvents from hpending ▸ hrow)
    | upsert id runAt =>
      obtain ⟨-, written, ⟨hnone, -⟩ | ⟨event', rest', -, -, rfl⟩⟩ := upsertMarker_cases hnext
      · cases hnone
      · have hset : MarksJobs (s.setStage t (.dispatching rest')) := h.setStage (by rintro ⟨⟩)
        exact hset.frame (fun _ hrow => hrow)
          (fun _ _ _ hversion _ => List.mem_append_left _ hversion) fun _ _ hstage => hstage

/-- The versions of other transactions stay. -/
theorem Records.others {spec : JobSpec} (h : Records env s t spec s') {row : TxnId × Event}
    (hrow : row ∈ s.pendingEvents) (ht : row.1 ≠ t) : row ∈ s'.pendingEvents := by
  cases h with
  | again => exact List.mem_map.mpr ⟨row, hrow, if_neg fun hsame => ht hsame.1⟩
  | onto => exact List.mem_append_left _ hrow
  | fresh => exact List.mem_append_left _ hrow

/-- A transaction that records an event has inserted no job. -/
theorem MarksJobs.records (h : MarksJobs s) {spec : JobSpec} (hidle : s.stages t = .idle)
    (hrecords : Records env s t spec s') (honly : EventsOnly s s' ∧ s'.stages = s.stages) :
    MarksJobs s' := by
  obtain ⟨heventsOnly, hstages⟩ := honly
  have hne : ∀ row ∈ s'.pendingJobs, row.1 ≠ t := fun row hrow heq =>
    (h row (heventsOnly.pendingJobs ▸ hrow)).1 (heq ▸ hidle)
  exact h.frame (fun row hrow => heventsOnly.pendingJobs ▸ hrow)
    (fun row hrow version hversion _ => hrecords.others hversion (hne row hrow))
    fun _ _ hstage => hstages ▸ hstage

theorem MarksJobs.step (h : MarksJobs s) (hdelivering : Delivering env s)
    (hstep : OutboxStep env s (op, response) s') : MarksJobs s' := by
  obtain ⟨hthrough, hstep⟩ := hstep
  rcases step_cases hstep with ⟨statement, -, -, rfl⟩ | ⟨-, htransact⟩
  · exact h.frame (fun _ hrow => hrow) (fun _ _ _ hversion _ => hversion) fun _ _ hstage => hstage
  cases op with
  | enqueue => cases hthrough
  | enqueueOrdered => cases hthrough
  | tick elapsed =>
    obtain ⟨rfl, -⟩ := Prod.mk.inj (Option.some.inj htransact)
    exact h.frame (fun _ hrow => hrow) (fun _ _ _ hversion _ => hversion) fun _ _ hstage => hstage
  | cancelEvents kind logicalKey =>
    simp only [transact, State.cancelEvents] at htransact
    split_ifs at htransact
    obtain ⟨rfl, -⟩ := Prod.mk.inj (Option.some.inj htransact)
    exact h.frame (fun _ hrow => hrow) (fun _ _ _ hversion _ => hversion) fun _ _ hstage => hstage
  | pruneMarker key =>
    rw [transact, State.pruneMarker] at htransact
    split at htransact
    · split_ifs at htransact
      obtain ⟨rfl, -⟩ := Prod.mk.inj (Option.some.inj htransact)
      exact h.frame (fun _ hrow => hrow) (fun _ _ _ hversion _ => hversion) fun _ _ hstage => hstage
    · cases htransact
  | recordOutbox t spec =>
    obtain ⟨hidle, hrecord⟩ := whenIdle_eq_some htransact
    rcases recordOutbox_cases hrecord with ⟨rfl, -⟩ | ⟨-, -, hrecords⟩
    · exact h
    · exact h.records hidle hrecords (recordOutbox_eventsOnly hrecord)
  | recordOutboxOnce t spec =>
    obtain ⟨hidle, hrecord⟩ := whenIdle_eq_some htransact
    rcases recordOutboxOnce_cases hrecord with ⟨rfl, -⟩ | ⟨-, -, hrecords⟩
    · exact h
    · exact h.records hidle hrecords (recordOutboxOnce_eventsOnly hrecord)
  | dispatchOutbox t limit skipped =>
    obtain ⟨hidle, hdispatch⟩ := whenIdle_eq_some htransact
    rw [State.dispatchOutbox] at hdispatch
    split_ifs at hdispatch
    · obtain ⟨rfl, -⟩ := Prod.mk.inj (Option.some.inj hdispatch)
      exact h
    · obtain ⟨rfl, -⟩ := Prod.mk.inj (Option.some.inj hdispatch)
      exact h.setStage (by rintro ⟨⟩)
  | next t => exact next_marksJobs h hdelivering htransact
  | commit t =>
    rw [transact] at htransact
    split_ifs at htransact
    obtain ⟨rfl, -⟩ := Prod.mk.inj (Option.some.inj htransact)
    exact h.release rfl rfl fun t' ht => if_neg ht
  | rollback t =>
    obtain ⟨rfl, -⟩ := Prod.mk.inj (Option.some.inj htransact)
    exact h.release rfl rfl fun t' ht => if_neg ht
  | _ => cases htransact

open Schemes.Runs in
theorem marksJobs_of_run {start : ℤ} {labels : List Label}
    (h : Run (OutboxStep env) (initial start) labels s) : MarksJobs s := by
  refine h.invariant (P := fun _ s => MarksJobs s) (fun _ hrow => absurd hrow List.not_mem_nil) ?_
  intro _ _ _ _ run hmarks hstep
  exact hmarks.step (delivering_of_run run) hstep

/-! ### Jobs that nobody has claimed -/

/-- Jobs are new until they are claimed. -/
structure Unclaimed (s : State) : Prop where
  pending : ∀ row ∈ s.pendingJobs, ∃ id spec, row.2 = Job.new id spec
  waiting : ∀ job ∈ s.jobs, job.generation = 0 → job.status = .waiting

theorem waiting_not_held {job : Job} (h : job.status = .waiting) (now : ℤ) :
    job.held now = false := by
  simp [Job.held, Job.leaseExpiresAt, h]

theorem waiting_live {job : Job} (h : job.status = .waiting) : job.live = true := by
  simp [Job.live, Job.deadAt, h]

theorem Unclaimed.step (h : Unclaimed s) (hstep : Step env s (op, response) s') : Unclaimed s' := by
  rcases step_cases hstep with ⟨statement, hstatement, -, rfl⟩ | ⟨-, htransact⟩
  · refine ⟨h.pending, fun job' hjob' hgeneration => ?_⟩
    obtain ⟨job, hjob, heq⟩ := List.mem_filterMap.mp hjob'
    have heffect : Effect env s op job (some job') := heq ▸ statement_effect hstatement job
    have hzero : job.generation = 0 := Nat.le_zero.mp (hgeneration ▸ heffect.keeps.2.2.2)
    have hwaiting := h.waiting job hjob hzero
    generalize hresult : some job' = result at heffect
    cases heffect with
    | unchanged => rwa [Option.some.inj hresult]
    | claimed =>
      rw [Option.some.inj hresult] at hgeneration
      cases hgeneration
    | fenced _ hfences =>
      have hheld := (fences_iff.mp hfences).2.2.2.2
      rw [waiting_not_held hwaiting] at hheld
      cases hheld
    | cancelled => cases hresult
  · rcases transact_jobsChange htransact with ⟨elapsed, -, rfl⟩ | ⟨-, hchange⟩
    · exact ⟨h.pending, h.waiting⟩
    · cases hchange with
      | frame _ hjobs hpending => exact ⟨hpending ▸ h.pending, hjobs ▸ h.waiting⟩
      | inserted t spec _ hjobs hpending =>
        refine ⟨fun row hrow => ?_, hjobs ▸ h.waiting⟩
        rw [hpending, List.mem_append, List.mem_singleton] at hrow
        rcases hrow with hrow | rfl
        · exact h.pending row hrow
        · exact ⟨_, spec, rfl⟩
      | committed t _ hjobs hpending =>
        refine ⟨fun row hrow => h.pending row (mem_others.mp (hpending ▸ hrow)).1,
          fun job hjob hgeneration => ?_⟩
        rw [hjobs, List.mem_append] at hjob
        rcases hjob with hjob | hjob
        · exact h.waiting job hjob hgeneration
        · obtain ⟨id, spec, heq⟩ := h.pending _ (mem_own.mp hjob)
          have heq : job = Job.new id spec := heq
          rw [heq]
          rfl
      | rolledBack t _ hjobs hpending =>
        exact ⟨fun row hrow => h.pending row (mem_others.mp (hpending ▸ hrow)).1, hjobs ▸ h.waiting⟩

open Schemes.Runs in
theorem unclaimed_of_run {labels : List Label} {start : ℤ} (h : Run (Step env) (initial start) labels s) :
    Unclaimed s :=
  h.preserves (fun _ _ _ hunclaimed hstep => hunclaimed.step hstep)
    ⟨fun _ hrow => absurd hrow List.not_mem_nil, fun _ hjob => absurd hjob List.not_mem_nil⟩

end Rustodon.Queue
